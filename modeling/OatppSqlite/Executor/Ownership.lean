import OatppSqlite.Executor.Execute
import OatppSqlite.Executor.Version
import Mathlib.Data.List.Perm.Basic
import Mathlib.Logic.Function.Iterate

/-!
# Who finalises a statement

A prepared statement belongs to the `QueryResult` that is made of it, which finalises it when it
is destroyed and then lets go of its connection; and a connection is closed by the last handle or
result that lets go of it. `Resources` keeps the books of that: what was prepared, finalised and
closed, and who is still there.

Between `sqlite3_prepare_v2` and the constructor of the `QueryResult` a statement belongs to
nobody. `execute` binds the parameters there, so an exception leaves it behind
(`execute_leaks`). `statements_finalised` is what holds of every run without such a call.
-/

set_option autoImplicit false

namespace OatppSqlite.Executor

open Caret Mapping Sqlite Template

/-! ## The books

Statements and connections are numbers, given out in order. A `std::shared_ptr` is counted by who
holds it, a handle or a result, and its destructor runs when the last of them lets go. -/

/-- A `QueryResult`: the statement it owns, which may be null, and the connection it holds. -/
structure Owner where
  stmt : Option Nat
  connection : Nat
  deriving DecidableEq, Repr

/-- `stmts` has the connection of every statement that was prepared, and `finalized` and
    `closed` are the calls of `sqlite3_finalize` and `sqlite3_close`, the latter with whether it
    succeeded. `results` and `handles` are the live `QueryResult`s and `ResourceHandle`s, the
    latest ones first. -/
structure Resources where
  stmts : List Nat
  finalized : List Nat
  results : List Owner
  handles : List Nat
  opened : Nat
  closed : List (Nat × Bool)
  deriving DecidableEq, Repr

namespace Resources

def start : Resources := ⟨[], [], [], [], 0, []⟩

/-- The statements that live results own. -/
def owners (w : Resources) : List Nat := w.results.filterMap Owner.stmt

/-- Somebody holds the connection. -/
def Held (w : Resources) (c : Nat) : Prop := c ∈ w.handles ∨ ∃ r ∈ w.results, r.connection = c

instance (w : Resources) (c : Nat) : Decidable (w.Held c) :=
  inferInstanceAs (Decidable (_ ∨ _))

/-- A statement of the connection is not finalised. -/
def Outstanding (w : Resources) (c : Nat) : Prop :=
  ∃ s ∈ List.range w.stmts.length, w.stmts[s]? = some c ∧ s ∉ w.finalized

instance (w : Resources) (c : Nat) : Decidable (w.Outstanding c) :=
  inferInstanceAs (Decidable (∃ s ∈ List.range w.stmts.length, _))

/-- Somebody let go of the connection; `ConnectionImpl::~ConnectionImpl` if that was the last
    one. SQLite does not close a connection with an outstanding statement. -/
def release (w : Resources) (c : Nat) : Resources :=
  if w.Held c then w else { w with closed := (c, !decide (w.Outstanding c)) :: w.closed }

/-- `ConnectionProvider::get`. -/
def connect (w : Resources) : Resources :=
  { w with opened := w.opened + 1, handles := w.opened :: w.handles }

/-- A copy of a `ResourceHandle`. -/
def copy (w : Resources) (c : Nat) : Resources := { w with handles := c :: w.handles }

/-- A `ResourceHandle` is destroyed. -/
def drop (w : Resources) (i : Nat) : Resources :=
  match w.handles[i]? with
  | some c => release { w with handles := w.handles.eraseIdx i } c
  | none => w

/-- `sqlite3_prepare_v2`: a new statement, if the text compiles to one. -/
def prepare (w : Resources) (c : Nat) (compiles : Bool) : Option Nat × Resources :=
  if compiles then (some w.stmts.length, { w with stmts := w.stmts ++ [c] }) else (none, w)

/-- `QueryResult::QueryResult`. -/
def construct (w : Resources) (stmt : Option Nat) (c : Nat) : Resources :=
  { w with results := ⟨stmt, c⟩ :: w.results }

/-- `QueryResult::~QueryResult`, and the handle in it. -/
def destroy (w : Resources) (i : Nat) : Resources :=
  match w.results[i]? with
  | some r => release { w with
      finalized := r.stmt.toList ++ w.finalized, results := w.results.eraseIdx i } r.connection
  | none => w

/-- Preparing a statement and, if nothing is thrown in between, making a result of it. -/
def run (w : Resources) (c : Nat) (compiles returns : Bool) : Resources :=
  let (stmt, w) := w.prepare c compiles
  if returns then w.construct stmt c else w

/-- `execute`, with a connection of its own if it is given none. -/
def execute (w : Resources) (connection : Option Nat) (compiles returns : Bool) : Resources :=
  match connection with
  | some c => w.run c compiles returns
  | none => (w.connect.run w.opened compiles returns).drop 0

/-- The end of a call that has led from `w` to `w'`: of its results, `kept` are handed out, and
    its handles are dropped. -/
def leave (w w' : Resources) (kept : Nat) : Resources :=
  (fun w => w.drop 0)^[w'.handles.length - w.handles.length]
    ((fun w => w.destroy 0)^[w'.results.length - w.results.length - kept] w')

end Resources

/-! ## Calls -/

variable {σ τ : Type}

/-- The calls besides `execute`. -/
inductive ExecutorCall (σ : Type) where
  | begin (connection : Option Nat)
  | commit (connection : Option Nat)
  | rollback (connection : Option Nat)
  | getSchemaVersion (suffix : Option Text) (connection : Option Nat)
  | migrateSchema (script : Option (List σ)) (newVersion : Int) (suffix : Option Text)
      (connection : Option Nat)

def ExecutorCall.program (C : TransactionClass Nat σ) : ExecutorCall σ → Program Nat σ Unit
  | .begin connection => Executor.begin connection >>= fun _ => pure ()
  | .commit connection => Executor.commit connection >>= fun _ => pure ()
  | .rollback connection => Executor.rollback connection >>= fun _ => pure ()
  | .getSchemaVersion suffix connection =>
    Executor.getSchemaVersion suffix connection >>= fun _ => pure ()
  | .migrateSchema script newVersion suffix connection =>
    Executor.migrateSchema C script newVersion suffix connection

/-- How many `QueryResult`s a call hands out. -/
def ExecutorCall.handsOut : ExecutorCall σ → Except String Unit → Nat
  | .begin _, .ok _ | .commit _, .ok _ | .rollback _, .ok _ => 1
  | _, _ => 0

/-- What a request of a call does to the books; `sqlite3_exec` finalises its own statements. -/
def Serves (w : Resources) : (q : Request Nat σ) → Reply q → Resources → Prop
  | .getConnection, reply, w' =>
    (reply = .ok (some w.opened) ∧ w' = w.connect) ∨ ((∀ c, reply ≠ .ok (some c)) ∧ w' = w)
  | .exec c _, _, w' => w.Held c ∧ ∃ compiles, w' = w.run c compiles true
  | .scriptStatement _ _, _, w' => w' = w

/-- What a client does. -/
inductive Event (σ τ : Type) where
  | connect
  | copy (c : Nat)
  | drop (i : Nat)
  | destroy (i : Nat)
  | execute (queryTemplate : QueryTemplate) (params : List (Text × Mapping.Void τ))
      (typeResolver : Option (TypeResolver τ)) (connection : Option Nat) (compiles : Bool)
  | call (call : ExecutorCall σ)

/-- Whether `bindParams` returns; an exception is `some false`. -/
def binds (κ : Type) [Caret κ] (M : Members τ) (queryTemplate : QueryTemplate)
    (params : List (Text × Mapping.Void τ)) (typeResolver : Option (TypeResolver τ)) :
    Option Bool :=
  (bindParams κ (M.bindContext params typeResolver) queryTemplate).run.map fun
    | .ok _ => true
    | .error _ => false

/-- A step of a client. -/
inductive Handled (κ : Type) [Caret κ] (M : Members τ) (C : TransactionClass Nat σ) :
    Resources → Event σ τ → Resources → Prop
  | connect (w : Resources) : Handled κ M C w .connect w.connect
  | copy {w : Resources} {c : Nat} (hc : w.Held c) : Handled κ M C w (.copy c) (w.copy c)
  | drop (w : Resources) (i : Nat) : Handled κ M C w (.drop i) (w.drop i)
  | destroy (w : Resources) (i : Nat) : Handled κ M C w (.destroy i) (w.destroy i)
  | execute {w : Resources} {queryTemplate : QueryTemplate}
      {params : List (Text × Mapping.Void τ)} {typeResolver : Option (TypeResolver τ)}
      {connection : Option Nat} {compiles returns : Bool}
      (hc : ∀ c, connection = some c → w.Held c)
      (hbinds : binds κ M queryTemplate params typeResolver = some returns) :
      Handled κ M C w (.execute queryTemplate params typeResolver connection compiles)
        (w.execute connection compiles returns)
  | call {w w' : Resources} {call : ExecutorCall σ} {r : Except String Unit}
      (hrun : Prog.Runs Serves (call.program C) w r w') :
      Handled κ M C w (.call call) (w.leave w' (call.handsOut r))

/-- The parameters are bound without an exception once there is a statement. -/
def Event.Clean (κ : Type) [Caret κ] (M : Members τ) : Event σ τ → Prop
  | .execute queryTemplate params typeResolver _ compiles =>
    compiles = true → binds κ M queryTemplate params typeResolver ≠ some false
  | _ => True

/-- A run, all of whose steps are as `G` says. -/
inductive HandledAll (κ : Type) [Caret κ] (M : Members τ) (C : TransactionClass Nat σ)
    (G : Event σ τ → Prop) : Resources → Resources → Prop
  | nil (w : Resources) : HandledAll κ M C G w w
  | cons {w w' w'' : Resources} {event : Event σ τ} (hstep : Handled κ M C w event w')
      (hG : G event) (hrun : HandledAll κ M C G w' w'') : HandledAll κ M C G w w''

/-! ## The invariant

Statements are counted and not only listed: each of them is owned by one result or finalised once,
never both and never twice. -/

/-- Every statement has been finalised or has its one owner, which holds the connection; who is
    held is open; and who was closed was closed without a statement. -/
structure Inv (w : Resources) : Prop where
  owned : ∀ s < w.stmts.length, w.finalized.count s + w.owners.count s = 1
  known : ∀ s, s ∈ w.finalized ∨ s ∈ w.owners → s < w.stmts.length
  connected : ∀ r ∈ w.results, ∀ s, r.stmt = some s → w.stmts[s]? = some r.connection
  held : ∀ c, w.Held c → c < w.opened ∧ ∀ ok, (c, ok) ∉ w.closed
  closed : ∀ c ok, (c, ok) ∈ w.closed →
    ok = true ∧ c < w.opened ∧ ∀ s : Nat, w.stmts[s]? = some c → s ∈ w.finalized

namespace Inv

variable {w : Resources} {c i : Nat}

/-- A statement of a connection that nobody holds is finalised. -/
theorem not_outstanding (h : Inv w) (hc : ¬ w.Held c) : ¬ w.Outstanding c := by
  rintro ⟨s, hs, hconnection, hnot⟩
  have howned := h.owned s (List.mem_range.mp hs)
  rw [List.count_eq_zero_of_not_mem hnot, Nat.zero_add] at howned
  have hmem : s ∈ w.owners := List.count_pos_iff.mp (by omega)
  obtain ⟨r, hr, hstmt⟩ := List.mem_filterMap.mp hmem
  have hsome := h.connected r hr s hstmt
  rw [hconnection, Option.some.injEq] at hsome
  exact hc (Or.inr ⟨r, hr, hsome.symm⟩)

/-- **Closing**: it succeeds, and comes after the last statement. -/
theorem release (h : Inv w) (hopen : c < w.opened) : Inv (w.release c) := by
  unfold Resources.release
  split
  · exact h
  rename_i hc
  have hout := h.not_outstanding hc
  refine ⟨h.owned, h.known, h.connected, fun c' hc' => ?_, fun c' ok hmem => ?_⟩
  · obtain ⟨hlt, hclosed⟩ := h.held c' hc'
    refine ⟨hlt, fun ok hmem => ?_⟩
    rcases List.mem_cons.mp hmem with heq | hmem
    · cases heq
      exact hc hc'
    · exact hclosed ok hmem
  · rcases List.mem_cons.mp hmem with heq | hmem
    · cases heq
      refine ⟨by rw [decide_eq_false hout]; rfl, hopen, fun s hs => ?_⟩
      by_contra hfin
      have hlt : s < w.stmts.length := (List.getElem?_eq_some_iff.mp hs).1
      exact hout ⟨s, List.mem_range.mpr hlt, hs, hfin⟩
    · exact h.closed c' ok hmem

theorem connect (h : Inv w) : Inv w.connect := by
  refine ⟨h.owned, h.known, h.connected, fun c hc => ?_, fun c ok hmem => ?_⟩
  · have hfresh : ∀ ok, (w.opened, ok) ∉ w.closed := fun ok hmem =>
      Nat.lt_irrefl _ (h.closed _ ok hmem).2.1
    rcases hc with hc | hc
    · rcases List.mem_cons.mp hc with rfl | hc
      · exact ⟨Nat.lt_succ_self _, hfresh⟩
      · obtain ⟨hlt, hclosed⟩ := h.held c (Or.inl hc)
        exact ⟨Nat.lt_succ_of_lt hlt, hclosed⟩
    · obtain ⟨hlt, hclosed⟩ := h.held c (Or.inr hc)
      exact ⟨Nat.lt_succ_of_lt hlt, hclosed⟩
  · obtain ⟨hok, hlt, hfin⟩ := h.closed c ok hmem
    exact ⟨hok, Nat.lt_succ_of_lt hlt, hfin⟩

theorem copy (h : Inv w) (hc : w.Held c) : Inv (w.copy c) := by
  refine ⟨h.owned, h.known, h.connected, fun c' hc' => ?_, h.closed⟩
  rcases hc' with hc' | hc'
  · rcases List.mem_cons.mp hc' with rfl | hc'
    · exact h.held _ hc
    · exact h.held c' (Or.inl hc')
  · exact h.held c' (Or.inr hc')

theorem drop (h : Inv w) (i : Nat) : Inv (w.drop i) := by
  unfold Resources.drop
  split
  · rename_i c hc
    obtain ⟨hopen, -⟩ := h.held c (Or.inl (List.mem_of_getElem? hc))
    refine Inv.release ⟨h.owned, h.known, h.connected, fun c' hc' => ?_, h.closed⟩ hopen
    rcases hc' with hc' | hc'
    · exact h.held c' (Or.inl (List.mem_of_mem_eraseIdx hc'))
    · exact h.held c' (Or.inr hc')
  · exact h

theorem destroy (h : Inv w) (i : Nat) : Inv (w.destroy i) := by
  unfold Resources.destroy
  split
  · rename_i r hr
    obtain ⟨hi, rfl⟩ := List.getElem?_eq_some_iff.mp hr
    have hmem : w.results[i] ∈ w.results := List.getElem_mem hi
    obtain ⟨hopen, -⟩ := h.held _ (Or.inr ⟨_, hmem, rfl⟩)
    -- the statement goes from the owners to the finalised ones
    have hperm : w.owners.Perm
        (w.results[i].stmt.toList ++ (w.results.eraseIdx i).filterMap Owner.stmt) := by
      have := (List.getElem_cons_eraseIdx_perm hi).symm.filterMap Owner.stmt
      refine this.trans ?_
      cases hstmt : w.results[i].stmt with
      | none => rw [List.filterMap_cons_none hstmt]; rfl
      | some s => rw [List.filterMap_cons_some hstmt]; rfl
    refine Inv.release ⟨fun s hs => ?_, fun s hs => ?_, fun r hr => ?_, fun c hc => ?_,
      fun c ok hc => ?_⟩ hopen
    · have howned := h.owned s hs
      rw [hperm.count_eq, List.count_append] at howned
      show (w.results[i].stmt.toList ++ w.finalized).count s
        + ((w.results.eraseIdx i).filterMap Owner.stmt).count s = 1
      rw [List.count_append]
      omega
    · rcases hs with hs | hs
      · rcases List.mem_append.mp hs with hs | hs
        · exact h.known s (Or.inr (hperm.mem_iff.mpr (List.mem_append_left _ hs)))
        · exact h.known s (Or.inl hs)
      · exact h.known s (Or.inr (hperm.mem_iff.mpr (List.mem_append_right _ hs)))
    · exact h.connected r (List.mem_of_mem_eraseIdx hr)
    · rcases hc with hc | ⟨r, hr, hrc⟩
      · exact h.held c (Or.inl hc)
      · exact h.held c (Or.inr ⟨r, List.mem_of_mem_eraseIdx hr, hrc⟩)
    · obtain ⟨hok, hlt, hfin⟩ := h.closed c ok hc
      exact ⟨hok, hlt, fun s hs => List.mem_append_right _ (hfin s hs)⟩
  · exact h

/-- A result without a statement. -/
theorem construct_none (h : Inv w) (hc : w.Held c) : Inv (w.construct none c) := by
  refine ⟨h.owned, h.known, fun r hr s hs => ?_, fun c' hc' => ?_, h.closed⟩
  · rcases List.mem_cons.mp hr with rfl | hr
    · cases hs
    · exact h.connected r hr s hs
  · rcases hc' with hc' | ⟨r, hr, hrc⟩
    · exact h.held c' (Or.inl hc')
    · rcases List.mem_cons.mp hr with rfl | hr
      · exact hrc ▸ h.held c hc
      · exact h.held c' (Or.inr ⟨r, hr, hrc⟩)

/-- **A statement that gets its result** at once. -/
theorem construct_prepared (h : Inv w) (hc : w.Held c) :
    Inv (({ w with stmts := w.stmts ++ [c] } : Resources).construct (some w.stmts.length) c) := by
  have hnew : w.finalized.count w.stmts.length = 0 ∧ w.owners.count w.stmts.length = 0 :=
    ⟨List.count_eq_zero_of_not_mem fun hs => Nat.lt_irrefl _ (h.known _ (Or.inl hs)),
      List.count_eq_zero_of_not_mem fun hs => Nat.lt_irrefl _ (h.known _ (Or.inr hs))⟩
  have hlen : (w.stmts ++ [c]).length = w.stmts.length + 1 := List.length_append
  refine ⟨fun s hs => ?_, fun s hs => ?_, fun r hr s hs => ?_, fun c' hc' => ?_,
    fun c' ok hmem => ?_⟩
  · show w.finalized.count s + (w.stmts.length :: w.owners).count s = 1
    by_cases heq : s = w.stmts.length
    · subst heq
      rw [List.count_cons_self, hnew.1, hnew.2]
    · rw [List.count_cons_of_ne (Ne.symm heq)]
      have hlt : s < w.stmts.length + 1 := hlen ▸ hs
      exact h.owned s (by omega)
  · show s < (w.stmts ++ [c]).length
    rw [hlen]
    rcases hs with hs | hs
    · exact Nat.lt_succ_of_lt (h.known s (Or.inl hs))
    · rcases List.mem_cons.mp hs with rfl | hs
      · exact Nat.lt_succ_self _
      · exact Nat.lt_succ_of_lt (h.known s (Or.inr hs))
  · show (w.stmts ++ [c])[s]? = some r.connection
    rcases List.mem_cons.mp hr with rfl | hr
    · cases hs
      exact List.getElem?_concat_length
    · have hsome := h.connected r hr s hs
      rw [List.getElem?_append_left (List.getElem?_eq_some_iff.mp hsome).1]
      exact hsome
  · rcases hc' with hc' | ⟨r, hr, hrc⟩
    · exact h.held c' (Or.inl hc')
    · rcases List.mem_cons.mp hr with rfl | hr
      · exact hrc ▸ h.held c hc
      · exact h.held c' (Or.inr ⟨r, hr, hrc⟩)
  · obtain ⟨hok, hlt, hfin⟩ := h.closed c' ok hmem
    refine ⟨hok, hlt, fun s (hs : (w.stmts ++ [c])[s]? = some c') => hfin s ?_⟩
    rw [List.getElem?_append] at hs
    split at hs
    · exact hs
    -- the new statement is on a connection that is open
    · obtain rfl : c = c' := List.mem_singleton.mp (List.mem_of_getElem? hs) ▸ rfl
      exact absurd hmem ((h.held c hc).2 ok)

theorem run (h : Inv w) (hc : w.Held c) {compiles returns : Bool}
    (hreturns : compiles = true → returns = true) : Inv (w.run c compiles returns) := by
  cases compiles with
  | true =>
    rw [hreturns rfl]
    exact h.construct_prepared hc
  | false =>
    cases returns with
    | true => exact h.construct_none hc
    | false => exact h

theorem execute (h : Inv w) {connection : Option Nat} {compiles returns : Bool}
    (hc : ∀ c, connection = some c → w.Held c) (hreturns : compiles = true → returns = true) :
    Inv (w.execute connection compiles returns) := by
  cases connection with
  | some c => exact h.run (hc c rfl) hreturns
  | none => exact (h.connect.run (Or.inl List.mem_cons_self) hreturns).drop 0

theorem iterate {f : Resources → Resources} (hf : ∀ w, Inv w → Inv (f w)) (h : Inv w) (n : Nat) :
    Inv (f^[n] w) := by
  induction n generalizing w with
  | zero => exact h
  | succ n ih => exact ih (hf w h)

theorem leave {w' : Resources} (h : Inv w') (kept : Nat) : Inv (w.leave w' kept) :=
  ((h.iterate fun _ h => h.destroy 0) _).iterate (fun _ h => h.drop 0) _

end Inv

theorem Inv.start : Inv .start where
  owned s hs := absurd hs (Nat.not_lt_zero s)
  known s hs := by
    rcases hs with hs | hs
    · cases hs
    · cases hs
  connected r hr := by cases hr
  held c hc := by
    rcases hc with hc | ⟨r, hr, -⟩
    · cases hc
    · cases hr
  closed c ok hc := by cases hc

/-! ## Runs -/

section

variable {w w' : Resources} {κ : Type} [Caret κ] {M : Members τ} {C : TransactionClass Nat σ}

/-- A request keeps it, and so does any program. -/
theorem Inv.runs {α : Type} {p : Program Nat σ α} {r : Except String α} (h : Inv w)
    (hrun : Prog.Runs Serves p w r w') : Inv w' := by
  induction hrun with
  | pure => exact h
  | throw => exact h
  | @ask q k answer r w w' w'' hserves _ ih =>
    apply ih
    cases q with
    | getConnection =>
      rcases hserves with ⟨-, rfl⟩ | ⟨-, rfl⟩
      · exact h.connect
      · exact h
    | exec c q =>
      obtain ⟨hc, compiles, rfl⟩ := hserves
      exact h.run hc fun _ => rfl
    | scriptStatement c s =>
      obtain rfl : w' = w := hserves
      exact h

theorem Inv.handled {event : Event σ τ} (h : Inv w) (hclean : event.Clean κ M)
    (hstep : Handled κ M C w event w') : Inv w' := by
  cases hstep with
  | connect => exact h.connect
  | copy hc => exact h.copy hc
  | drop i => exact h.drop i
  | destroy i => exact h.destroy i
  | @execute queryTemplate params typeResolver connection compiles returns hc hbinds =>
    refine h.execute hc fun hcompiles => ?_
    have hnot := hclean hcompiles
    rw [hbinds] at hnot
    cases returns with
    | true => rfl
    | false => exact absurd rfl hnot
  | call hrun => exact (h.runs hrun).leave _

theorem Inv.handledAll (h : Inv w)
    (hrun : HandledAll κ M C (fun event => event.Clean κ M) w w') : Inv w' := by
  induction hrun with
  | nil => exact h
  | cons hstep hclean _ ih => exact ih (h.handled hclean hstep)

end

/-- Every statement is finalised at most once, and exactly once when the results are gone; and
    every close came after the last statement of its connection, and succeeded. -/
structure Resources.Settled (w : Resources) : Prop where
  once : ∀ s < w.stmts.length, w.finalized.count s ≤ 1
  destroyed : w.results = [] → ∀ s < w.stmts.length, w.finalized.count s = 1
  closed : ∀ c ok, (c, ok) ∈ w.closed →
    ok = true ∧ ∀ s : Nat, w.stmts[s]? = some c → w.finalized.count s = 1

theorem Inv.settled {w : Resources} (h : Inv w) : w.Settled where
  once s hs := by
    have := h.owned s hs
    omega
  destroyed hresults s hs := by
    have howned := h.owned s hs
    have hnone : w.owners = [] := by rw [Resources.owners, hresults]; rfl
    rw [hnone, List.count_nil] at howned
    exact howned
  closed c ok hmem := by
    obtain ⟨hok, -, hfin⟩ := h.closed c ok hmem
    refine ⟨hok, fun s hs => ?_⟩
    have howned := h.owned s (List.getElem?_eq_some_iff.mp hs).1
    have hpos := List.count_pos_iff.mpr (hfin s hs)
    omega

/-- **Statements are finalised once, before their connection is closed**, in every run in which
    no call of `execute` throws over the parameters of a statement. -/
theorem statements_finalised {κ : Type} [Caret κ] {M : Members τ} {C : TransactionClass Nat σ}
    {w : Resources} (hrun : HandledAll κ M C (fun event => event.Clean κ M) .start w) :
    w.Settled :=
  (Inv.start.handledAll hrun).settled

/-! ### On one template -/

/-- `SELECT ?` for `SELECT :a`. -/
def oneSelect : QueryTemplate :=
  ⟨⟨"SELECT :a".toList, [⟨7, 8, some ['a']⟩]⟩, ⟨none, "SELECT ?".toList, true⟩⟩

/-- A call on the connection that a client has just got. -/
theorem handled_oneSelect {params : List (Text × Mapping.Void PlainType)} {returns : Bool}
    (hbinds : binds TextCaret plainMembers oneSelect params none = some returns) :
    Handled TextCaret plainMembers (plainTransaction : TransactionClass Nat Nat)
      Resources.start.connect (.execute oneSelect params none (some 0) true)
      (Resources.start.connect.execute (some 0) true returns) := by
  refine .execute (fun c hc => ?_) hbinds
  cases hc
  exact Or.inl List.mem_cons_self

/-- The template is run with its parameter, and the connection outlives its handle in the
    result. -/
theorem statements_finalised_oneSelect : ∃ w,
    HandledAll TextCaret plainMembers (plainTransaction : TransactionClass Nat Nat)
      (fun event => event.Clean TextCaret plainMembers) .start w ∧
    w.closed = [(0, true)] ∧ w.finalized = [0] ∧ w.Settled := by
  have hbinds : binds TextCaret plainMembers oneSelect bindsOneInt.params none = some true := rfl
  have hclean : (Event.execute oneSelect bindsOneInt.params none (some 0) true :
      Event Nat PlainType).Clean TextCaret plainMembers := by
    intro _
    rw [hbinds]
    decide
  obtain ⟨w, hrun, hclosed, hfinalized⟩ : ∃ w, HandledAll TextCaret plainMembers
      (plainTransaction : TransactionClass Nat Nat)
      (fun event => event.Clean TextCaret plainMembers) .start w ∧
      w.closed = [(0, true)] ∧ w.finalized = [0] :=
    ⟨_, .cons (.connect _) trivial (.cons (handled_oneSelect hbinds) hclean
      (.cons (.drop _ 0) trivial (.cons (.destroy _ 0) trivial (.nil _)))), rfl, rfl⟩
  exact ⟨w, hrun, hclosed, hfinalized, statements_finalised hrun⟩

/-- Without its parameter the call throws: the statement is not finalised, and the connection
    cannot be closed. -/
theorem execute_leaks : ¬ ∀ w : Resources,
    HandledAll TextCaret plainMembers (plainTransaction : TransactionClass Nat Nat)
      (fun _ => True) .start w → w.Settled := by
  intro h
  have hbinds : binds TextCaret plainMembers oneSelect [] none = some false := rfl
  obtain ⟨w, hrun, hclosed⟩ : ∃ w, HandledAll TextCaret plainMembers
      (plainTransaction : TransactionClass Nat Nat) (fun _ => True) .start w ∧
      w.closed = [(0, false)] :=
    ⟨_, .cons (.connect _) trivial (.cons (handled_oneSelect hbinds) trivial
      (.cons (.drop _ 0) trivial (.nil _))), rfl⟩
  obtain ⟨hok, -⟩ := (h w hrun).closed 0 false (by rw [hclosed]; exact List.mem_cons_self)
  cases hok

end OatppSqlite.Executor
