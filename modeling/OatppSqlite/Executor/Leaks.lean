import OatppSqlite.Executor.Ownership
import Mathlib.Data.List.Range

/-!
# What a client may leave behind

The books of `Resources` once more, and now with the calls of `execute` that throw over their
parameters. Such a call leaves its statement behind, which nobody can ever finalise, and nothing
else does (`statements_accounted`).
The connections are closed all the same, each of them once, when the last one has let go of it; only
SQLite refuses that for a connection which has lost a statement (`connections_closed`).

`ConnectionProvider::get` makes its connection object before it looks at what `sqlite3_open`
returned, so an attempt that fails is closed like any other.
-/

set_option autoImplicit false

namespace OatppSqlite.Executor

open Caret Mapping Sqlite Template

variable {σ τ : Type}

/-- `ConnectionProvider::get` where it throws: the connection is closed on the way out. -/
def Resources.openFails (w : Resources) : Resources :=
  Resources.release { w with opened := w.opened + 1 } w.opened

/-- How often a connection was closed. -/
def Resources.closings (w : Resources) (c : Nat) : Nat := (w.closed.map Prod.fst).count c

/-- `execute` throws when the statement is there. -/
def Event.leaks (κ : Type) [Caret κ] (M : Members τ) : Event σ τ → Bool
  | .execute queryTemplate params typeResolver _ compiles =>
    compiles && decide (binds κ M queryTemplate params typeResolver = some false)
  | _ => false

/-- Any run, with its events. A connection may fail to open at any time, also for a call, which
    then ends with that exception. -/
inductive Trace (κ : Type) [Caret κ] (M : Members τ) (C : TransactionClass Nat σ) :
    Resources → List (Event σ τ) → Resources → Prop
  | nil (w : Resources) : Trace κ M C w [] w
  | openFails {w w' : Resources} {events : List (Event σ τ)}
      (hrun : Trace κ M C w.openFails events w') : Trace κ M C w events w'
  | cons {w w' w'' : Resources} {event : Event σ τ} {events : List (Event σ τ)}
      (hstep : Handled κ M C w event w') (hrun : Trace κ M C w' events w'') :
      Trace κ M C w (event :: events) w''

/-! ## The invariant

The invariant of `Executor.Ownership` with a third place for a statement to be: it may be lost, and
what is lost stays lost. The list of the lost ones is given by the run and not by the books, which
know nothing of them. -/

/-- Every statement is finalised, owned or lost; and those connections are closed once that were
    opened and that nobody has, successfully if no statement of theirs is left. -/
structure Books (Has : Nat → Prop) (lost : List Nat) (w : Resources) : Prop where
  statements : (w.finalized ++ (w.owners ++ lost)).Perm (List.range w.stmts.length)
  connected : ∀ r ∈ w.results, ∀ s, r.stmt = some s → w.stmts[s]? = some r.connection
  used : ∀ c ∈ w.stmts, c < w.opened
  held : ∀ c, Has c → c < w.opened ∧ w.closings c = 0
  closed : ∀ c, ¬ Has c → w.closings c = if c < w.opened then 1 else 0
  succeeded : ∀ c ok, (c, ok) ∈ w.closed → ok = !decide (w.Outstanding c)

namespace Books

variable {w : Resources} {c s : Nat} {lost : List Nat} {Has Has' : Nat → Prop}

theorem congr (h : Books Has lost w) (hhas : ∀ c, Has c ↔ Has' c) : Books Has' lost w where
  statements := h.statements
  connected := h.connected
  used := h.used
  held c hc := h.held c ((hhas c).mpr hc)
  closed c hc := h.closed c fun hc' => hc ((hhas c).mp hc')
  succeeded := h.succeeded

theorem not_held (h : Books Has lost w) {ok : Bool} (hmem : (c, ok) ∈ w.closed) : ¬ Has c :=
  fun hc => List.count_eq_zero.mp (h.held c hc).2 (List.mem_map_of_mem hmem)

/-- The next connection. -/
theorem fresh (h : Books w.Held lost w) : ¬ w.Held w.opened ∧ w.closings w.opened = 0 := by
  have hnot : ¬ w.Held w.opened := fun hc => Nat.lt_irrefl _ (h.held _ hc).1
  exact ⟨hnot, (h.closed _ hnot).trans (if_neg (Nat.lt_irrefl _))⟩

/-- One more connection is opened, and somebody has it. -/
theorem opens (h : Books w.Held lost w) (hhas : ∀ c, Has c ↔ w.Held c ∨ c = w.opened) :
    Books Has lost { w with opened := w.opened + 1 } where
  statements := h.statements
  connected := h.connected
  used c hc := Nat.lt_succ_of_lt (h.used c hc)
  held c hc := by
    rcases (hhas c).mp hc with hc | rfl
    · exact ⟨Nat.lt_succ_of_lt (h.held c hc).1, (h.held c hc).2⟩
    · exact ⟨Nat.lt_succ_self _, h.fresh.2⟩
  closed c hc := by
    have hne : c ≠ w.opened := fun heq => hc ((hhas c).mpr (Or.inr heq))
    have hclosed := h.closed c fun hc' => hc ((hhas c).mpr (Or.inl hc'))
    have hlt : c < w.opened + 1 ↔ c < w.opened := by omega
    show w.closings c = if c < w.opened + 1 then 1 else 0
    rw [hclosed]
    simp only [hlt]
  succeeded := h.succeeded

/-- **Letting go** of a connection. -/
theorem release (h : Books (fun c' => w.Held c' ∨ c' = c) lost w) :
    Books (w.release c).Held lost (w.release c) := by
  unfold Resources.release
  split
  · rename_i hc
    refine h.congr fun c' => ⟨fun hc' => ?_, Or.inl⟩
    rcases hc' with hc' | rfl
    · exact hc'
    · exact hc
  rename_i hc
  -- nobody has it any more, so it is closed here
  have hcons : ∀ ok c', Resources.closings { w with closed := (c, ok) :: w.closed } c'
      = (c :: w.closed.map Prod.fst).count c' := fun _ _ => rfl
  refine ⟨h.statements, h.connected, h.used, fun c' hc' => ?_, fun c' hc' => ?_,
    fun c' ok hmem => ?_⟩
  · have hne : c ≠ c' := fun heq => hc (heq ▸ hc')
    rw [hcons, List.count_cons_of_ne hne]
    exact h.held c' (Or.inl hc')
  · rw [hcons]
    by_cases heq : c' = c
    · subst heq
      obtain ⟨hlt, hnone⟩ := h.held c' (Or.inr rfl)
      rw [List.count_cons_self, if_pos hlt]
      exact congrArg (· + 1) hnone
    · rw [List.count_cons_of_ne (Ne.symm heq)]
      refine h.closed c' fun hor => ?_
      rcases hor with hor | hor
      · exact hc' hor
      · exact heq hor
  · rcases List.mem_cons.mp hmem with hfirst | hmem
    · cases hfirst
      rfl
    · exact h.succeeded c' ok hmem

theorem connect (h : Books w.Held lost w) : Books w.connect.Held lost w.connect := by
  have hopens := h.opens (fun c => Iff.rfl : ∀ c, w.Held c ∨ c = w.opened ↔ _)
  have hheld : ∀ c, w.Held c ∨ c = w.opened ↔ w.connect.Held c := by
    intro c
    show _ ↔ c ∈ w.opened :: w.handles ∨ _
    rw [List.mem_cons, or_assoc, or_comm]
    rfl
  have hconnect := hopens.congr hheld
  exact ⟨h.statements, h.connected, hopens.used, hconnect.held, hconnect.closed, h.succeeded⟩

theorem openFails (h : Books w.Held lost w) : Books w.openFails.Held lost w.openFails :=
  (h.opens fun _ => Iff.rfl).release

theorem copy (h : Books w.Held lost w) (hc : w.Held c) :
    Books (w.copy c).Held lost (w.copy c) := by
  have hheld : ∀ c', w.Held c' ↔ (w.copy c).Held c' := by
    intro c'
    show _ ↔ c' ∈ c :: w.handles ∨ _
    rw [List.mem_cons, or_assoc]
    refine ⟨Or.inr, fun hor => ?_⟩
    rcases hor with rfl | hor
    · exact hc
    · exact hor
  have hcopy := h.congr hheld
  exact ⟨h.statements, h.connected, h.used, hcopy.held, hcopy.closed, h.succeeded⟩

theorem drop (h : Books w.Held lost w) (i : Nat) : Books (w.drop i).Held lost (w.drop i) := by
  unfold Resources.drop
  split
  · rename_i c hc
    obtain ⟨hi, rfl⟩ := List.getElem?_eq_some_iff.mp hc
    have hdrop := h.congr fun c' => show w.Held c' ↔
        Resources.Held { w with handles := w.handles.eraseIdx i } c' ∨ c' = w.handles[i] by
      unfold Resources.Held
      rw [← (List.getElem_cons_eraseIdx_perm hi).mem_iff, List.mem_cons, or_assoc, or_comm]
    exact release ⟨h.statements, h.connected, h.used, hdrop.held, hdrop.closed, h.succeeded⟩
  · exact h

/-- What was closed before has the statements it had. -/
theorem still_succeeded (h : Books Has lost w) {w' : Resources} (hclosed : w'.closed = w.closed)
    (hout : ∀ c, ¬ Has c → (w.Outstanding c ↔ w'.Outstanding c)) :
    ∀ c ok, (c, ok) ∈ w'.closed → ok = !decide (w'.Outstanding c) := by
  intro c ok hmem
  rw [hclosed] at hmem
  rw [h.succeeded c ok hmem]
  simp only [hout c (h.not_held hmem)]

/-- **A statement that is finalised** was on a connection that somebody had. -/
theorem destroy (h : Books w.Held lost w) (i : Nat) :
    Books (w.destroy i).Held lost (w.destroy i) := by
  unfold Resources.destroy
  split
  · rename_i r hr
    obtain ⟨hi, rfl⟩ := List.getElem?_eq_some_iff.mp hr
    have hmem : w.results[i] ∈ w.results := List.getElem_mem hi
    have hresults := List.getElem_cons_eraseIdx_perm hi
    have howners : w.owners.Perm
        (w.results[i].stmt.toList ++ (w.results.eraseIdx i).filterMap Owner.stmt) := by
      refine (hresults.symm.filterMap Owner.stmt).trans ?_
      cases hstmt : w.results[i].stmt with
      | none => rw [List.filterMap_cons_none hstmt]; rfl
      | some s => rw [List.filterMap_cons_some hstmt]; rfl
    have hdestroy := h.congr fun c' => show w.Held c' ↔
        Resources.Held { w with results := w.results.eraseIdx i } c'
          ∨ c' = w.results[i].connection by
      unfold Resources.Held
      rw [or_assoc]
      refine or_congr Iff.rfl ⟨?_, ?_⟩
      · rintro ⟨r, hr, rfl⟩
        rcases List.mem_cons.mp (hresults.mem_iff.mpr hr) with rfl | hr
        · exact Or.inr rfl
        · exact Or.inl ⟨r, hr, rfl⟩
      · rintro (⟨r, hr, rfl⟩ | rfl)
        · exact ⟨r, List.mem_of_mem_eraseIdx hr, rfl⟩
        · exact ⟨_, hmem, rfl⟩
    refine release ⟨?_, fun r hr => h.connected r (List.mem_of_mem_eraseIdx hr), h.used,
      hdestroy.held, hdestroy.closed, h.still_succeeded rfl fun c hc => ?_⟩
    · show ((w.results[i].stmt.toList ++ w.finalized)
        ++ ((w.results.eraseIdx i).filterMap Owner.stmt ++ lost)).Perm _
      refine List.Perm.trans ?_ h.statements
      calc (w.results[i].stmt.toList ++ w.finalized)
              ++ ((w.results.eraseIdx i).filterMap Owner.stmt ++ lost)
          |>.Perm ((w.finalized ++ w.results[i].stmt.toList)
              ++ ((w.results.eraseIdx i).filterMap Owner.stmt ++ lost)) :=
            List.perm_append_comm.append_right _
        _ = w.finalized ++ ((w.results[i].stmt.toList
              ++ (w.results.eraseIdx i).filterMap Owner.stmt) ++ lost) := by
            simp only [List.append_assoc]
        _ |>.Perm (w.finalized ++ (w.owners ++ lost)) :=
            (howners.symm.append_right lost).append_left _
    · -- the statement is of a connection that this result has, and those are not closed
      refine exists_congr fun s => and_congr_right fun _ => and_congr_right fun hs => ?_
      show s ∉ w.finalized ↔ s ∉ w.results[i].stmt.toList ++ w.finalized
      rw [List.mem_append, not_or]
      refine ⟨fun hnot => ⟨fun hstmt => ?_, hnot⟩, And.right⟩
      have hconnection := h.connected _ hmem s (Option.mem_toList.mp hstmt)
      rw [hs, Option.some.injEq] at hconnection
      exact hc (Or.inr ⟨_, hmem, hconnection.symm⟩)
  · exact h

/-- A result on a connection that somebody has: the same connections are held. -/
theorem held_construct (hc : w.Held c) (stmt : Option Nat) (c' : Nat) :
    w.Held c' ↔ (w.construct stmt c).Held c' := by
  refine ⟨fun hc' => ?_, fun hc' => ?_⟩
  · rcases hc' with hc' | ⟨r, hr, hrc⟩
    · exact Or.inl hc'
    · exact Or.inr ⟨r, List.mem_cons_of_mem _ hr, hrc⟩
  · rcases hc' with hc' | ⟨r, hr, hrc⟩
    · exact Or.inl hc'
    · rcases List.mem_cons.mp hr with rfl | hr
      · exact hrc ▸ hc
      · exact Or.inr ⟨r, hr, hrc⟩

/-- A result without a statement. -/
theorem construct_none (h : Books w.Held lost w) (hc : w.Held c) :
    Books (w.construct none c).Held lost (w.construct none c) := by
  have hconstruct := h.congr (held_construct hc none)
  refine ⟨h.statements, fun r hr s hs => ?_, h.used, hconstruct.held, hconstruct.closed,
    h.succeeded⟩
  rcases List.mem_cons.mp hr with rfl | hr
  · cases hs
  · exact h.connected r hr s hs

/-- **A new statement** belongs to nobody. -/
theorem prepare (h : Books w.Held lost w) (hc : w.Held c) :
    Books w.Held (w.stmts.length :: lost) { w with stmts := w.stmts ++ [c] } where
  statements := by
    show (w.finalized ++ (w.owners ++ w.stmts.length :: lost)).Perm
      (List.range (w.stmts ++ [c]).length)
    rw [List.length_append, List.length_singleton, List.range_succ, ← List.append_assoc]
    refine List.perm_middle.trans (List.Perm.trans ?_ List.perm_append_comm)
    rw [List.append_assoc]
    exact h.statements.cons _
  connected r hr s hs := by
    have hsome := h.connected r hr s hs
    exact (List.getElem?_append_left (List.getElem?_eq_some_iff.mp hsome).1).trans hsome
  used c' hc' := by
    rcases List.mem_append.mp hc' with hc' | hc'
    · exact h.used c' hc'
    · exact List.mem_singleton.mp hc' ▸ (h.held c hc).1
  held := h.held
  closed := h.closed
  succeeded := h.still_succeeded rfl fun c' hc' => by
    have hne : c ≠ c' := fun heq => hc' (heq ▸ hc)
    refine exists_congr fun s => ?_
    have hsame : (w.stmts ++ [c])[s]? = some c' ↔ w.stmts[s]? = some c' := by
      rw [List.getElem?_append]
      split
      · rfl
      · rename_i hs
        rw [List.getElem?_eq_none (Nat.le_of_not_lt hs)]
        refine iff_of_false (fun hmem => ?_) fun hnone => by cases hnone
        exact hne (List.mem_singleton.mp (List.mem_of_getElem? hmem)).symm
    show _ ∧ _ ∧ _ ↔ s ∈ List.range (w.stmts ++ [c]).length ∧ (w.stmts ++ [c])[s]? = some c' ∧ _
    rw [hsame, List.mem_range, List.mem_range]
    refine ⟨fun ⟨hs, hrest⟩ => ⟨?_, hrest⟩, fun ⟨_, hs, hrest⟩ =>
      ⟨(List.getElem?_eq_some_iff.mp hs).1, hs, hrest⟩⟩
    rw [List.length_append]
    exact Nat.lt_add_right _ hs

/-- **A result takes** the statement that belonged to nobody. -/
theorem construct (h : Books w.Held (s :: lost) w) (hs : w.stmts[s]? = some c) (hc : w.Held c) :
    Books (w.construct (some s) c).Held lost (w.construct (some s) c) := by
  have hconstruct := h.congr (held_construct hc (some s))
  refine ⟨?_, fun r hr s' hs' => ?_, h.used, hconstruct.held, hconstruct.closed, h.succeeded⟩
  · show (w.finalized ++ (s :: w.owners ++ lost)).Perm _
    exact (List.perm_middle.symm.append_left _).trans h.statements
  · rcases List.mem_cons.mp hr with rfl | hr
    · cases hs'
      exact hs
    · exact h.connected r hr s' hs'

/-- Preparing a statement: it is lost if there is one and no result is made of it. -/
theorem run (h : Books w.Held lost w) (hc : w.Held c) (compiles returns : Bool) :
    ∃ lost', lost'.length = lost.length + (if compiles && !returns then 1 else 0) ∧
      lost ⊆ lost' ∧ Books (w.run c compiles returns).Held lost' (w.run c compiles returns) := by
  cases compiles with
  | true =>
    cases returns with
    | true =>
      refine ⟨lost, rfl, List.Subset.refl _, (h.prepare hc).construct ?_ hc⟩
      exact List.getElem?_concat_length
    | false => exact ⟨_, rfl, List.subset_cons_self _ _, h.prepare hc⟩
  | false =>
    cases returns with
    | true => exact ⟨lost, rfl, List.Subset.refl _, h.construct_none hc⟩
    | false => exact ⟨lost, rfl, List.Subset.refl _, h⟩

theorem execute (h : Books w.Held lost w) {connection : Option Nat}
    (hc : ∀ c, connection = some c → w.Held c) (compiles returns : Bool) :
    ∃ lost', lost'.length = lost.length + (if compiles && !returns then 1 else 0) ∧
      lost ⊆ lost' ∧ Books (w.execute connection compiles returns).Held lost'
        (w.execute connection compiles returns) := by
  cases connection with
  | some c => exact h.run (hc c rfl) compiles returns
  | none =>
    -- the handle of the call's own connection goes when the call does
    obtain ⟨lost', hlength, hlost, hrun⟩ :=
      h.connect.run (Or.inl List.mem_cons_self) compiles returns
    exact ⟨lost', hlength, hlost, hrun.drop 0⟩

theorem iterate {f : Resources → Resources} (hf : ∀ w, Books w.Held lost w →
    Books (f w).Held lost (f w)) (h : Books w.Held lost w) (n : Nat) :
    Books (f^[n] w).Held lost (f^[n] w) := by
  induction n generalizing w with
  | zero => exact h
  | succ n ih => exact ih (hf w h)

/-- Nobody has what is lost. -/
theorem gone (h : Books Has lost w) (hs : s ∈ lost) : s ∉ w.finalized ∧ s ∉ w.owners := by
  have hnodup := h.statements.nodup_iff.mpr List.nodup_range
  rw [← List.append_assoc] at hnodup
  have hapart := (List.nodup_append.mp hnodup).2.2
  refine ⟨fun hmem => ?_, fun hmem => ?_⟩
  · exact hapart s (List.mem_append_left _ hmem) s hs rfl
  · exact hapart s (List.mem_append_right _ hmem) s hs rfl

theorem leave {w' : Resources} (h : Books w'.Held lost w') (kept : Nat) :
    Books (w.leave w' kept).Held lost (w.leave w' kept) :=
  iterate (fun _ h => h.drop 0) (iterate (fun _ h => h.destroy 0) h _) _

end Books

/-! ## Runs -/

section

variable {w w' : Resources} {lost : List Nat} {κ : Type} [Caret κ] {M : Members τ}
  {C : TransactionClass Nat σ} {event : Event σ τ} {events : List (Event σ τ)}

/-- No request of a program loses a statement. -/
theorem Books.runs {α : Type} {p : Program Nat σ α} {r : Except String α}
    (h : Books w.Held lost w) (hrun : Prog.Runs Serves p w r w') : Books w'.Held lost w' := by
  induction hrun with
  | pure => exact h
  | throw => exact h
  | @ask q k answer r w w' w'' hserves _ ih =>
    apply ih
    cases q with
    | getConnection =>
      rcases hserves with ⟨-, rfl⟩ | ⟨-, rfl⟩
      · exact h.connect
      · exact h
    | exec c q =>
      obtain ⟨hc, compiles, rfl⟩ := hserves
      cases compiles with
      | true => exact (h.prepare hc).construct List.getElem?_concat_length hc
      | false => exact h.construct_none hc
    | scriptStatement c s =>
      obtain rfl : w' = w := hserves
      exact h

/-- **A step** loses a statement if it leaks one, and finds none of those lost before. -/
theorem Books.handled (h : Books w.Held lost w) (hstep : Handled κ M C w event w') :
    ∃ lost', lost'.length = lost.length + (if event.leaks κ M then 1 else 0) ∧
      lost ⊆ lost' ∧ Books w'.Held lost' w' := by
  cases hstep with
  | connect => exact ⟨lost, rfl, List.Subset.refl _, h.connect⟩
  | copy hc => exact ⟨lost, rfl, List.Subset.refl _, h.copy hc⟩
  | drop i => exact ⟨lost, rfl, List.Subset.refl _, h.drop i⟩
  | destroy i => exact ⟨lost, rfl, List.Subset.refl _, h.destroy i⟩
  | @execute queryTemplate params typeResolver connection compiles returns hc hbinds =>
    have hleaks : (Event.execute queryTemplate params typeResolver connection compiles :
        Event σ τ).leaks κ M = (compiles && !returns) := by
      show (compiles && decide (binds κ M queryTemplate params typeResolver = some false)) = _
      rw [hbinds]
      cases returns with
      | true => rfl
      | false => rfl
    rw [hleaks]
    exact h.execute hc compiles returns
  | call hrun => exact ⟨lost, rfl, List.Subset.refl _, (h.runs hrun).leave _⟩

/-- **So does a run.** -/
theorem Books.trace (h : Books w.Held lost w) (hrun : Trace κ M C w events w') :
    ∃ lost', lost'.length = lost.length + events.countP (Event.leaks κ M) ∧
      lost ⊆ lost' ∧ Books w'.Held lost' w' := by
  induction hrun generalizing lost with
  | nil => exact ⟨lost, rfl, List.Subset.refl _, h⟩
  | openFails _ ih => exact ih h.openFails
  | cons hstep _ ih =>
    obtain ⟨lost₁, hlength₁, hlost₁, h₁⟩ := h.handled hstep
    obtain ⟨lost₂, hlength₂, hlost₂, h₂⟩ := ih h₁
    refine ⟨lost₂, ?_, List.Subset.trans hlost₁ hlost₂, h₂⟩
    rw [hlength₂, hlength₁, List.countP_cons]
    omega

theorem Books.start : Books Resources.start.Held [] .start where
  statements := .refl _
  connected r hr := by cases hr
  used c hc := by cases hc
  held c hc := by
    rcases hc with hc | ⟨r, hr, -⟩
    · cases hc
    · cases hr
  closed c _ := (if_neg (Nat.not_lt_zero c)).symm
  succeeded c ok hc := by cases hc

/-- **Connections are closed once**, in every run: those that were opened and that no handle and
    no result has any more. SQLite closes a connection unless one of its statements is left. -/
theorem connections_closed (hrun : Trace κ M C .start events w) :
    (∀ c, w.closings c = if c < w.opened ∧ ¬ w.Held c then 1 else 0) ∧
      ∀ c ok, (c, ok) ∈ w.closed → ok = !decide (w.Outstanding c) := by
  obtain ⟨lost, -, -, h⟩ := Books.start.trace hrun
  refine ⟨fun c => ?_, h.succeeded⟩
  by_cases hc : w.Held c
  · rw [(h.held c hc).2, if_neg fun hand => hand.2 hc]
  · rw [h.closed c hc]
    simp only [hc, not_false_eq_true, and_true]

/-- **Nothing else is lost**, in every run: every statement was finalised once, or has its one
    result, or is lost for good, however the run goes on; and the lost ones are as many as the
    calls of `execute` that threw over the parameters of a statement. -/
theorem statements_accounted (hrun : Trace κ M C .start events w) :
    ∃ lost, (w.finalized ++ (w.owners ++ lost)).Perm (List.range w.stmts.length) ∧
      lost.length = events.countP (Event.leaks κ M) ∧
      ∀ events' w', Trace κ M C w events' w' →
        ∀ s ∈ lost, s ∉ w'.finalized ∧ s ∉ w'.owners := by
  obtain ⟨lost, hlength, -, h⟩ := Books.start.trace hrun
  refine ⟨lost, h.statements, ?_, ?_⟩
  · rw [hlength, List.length_nil, Nat.zero_add]
  · intro events' w' hrun' s hs
    obtain ⟨lost', -, hlost, h'⟩ := h.trace hrun'
    exact h'.gone (hlost hs)

end

/-- A template without its parameter; its connection is gone with its handle, and another one
    cannot be opened. -/
theorem trace_leak : Trace TextCaret plainMembers (plainTransaction : TransactionClass Nat Nat)
    .start [.connect, .execute oneSelect [] none (some 0) true, .drop 0]
      ⟨[0], [], [], [], 2, [(1, true), (0, false)]⟩ := by
  have hbinds : binds TextCaret plainMembers oneSelect [] none = some false := rfl
  exact .cons (.connect _) (.cons (handled_oneSelect hbinds) (.cons (.drop _ 0)
    (.openFails (.nil _))))

/-- The first connection could not be closed, as its statement is left. -/
theorem connections_closed_leak :
    Trace TextCaret plainMembers (plainTransaction : TransactionClass Nat Nat) .start
      [.connect, .execute oneSelect [] none (some 0) true, .drop 0]
      ⟨[0], [], [], [], 2, [(1, true), (0, false)]⟩ ∧
    (∀ c, Resources.closings ⟨[0], [], [], [], 2, [(1, true), (0, false)]⟩ c
      = if c < 2 ∧ ¬ Resources.Held ⟨[0], [], [], [], 2, [(1, true), (0, false)]⟩ c
        then 1 else 0) ∧
    Resources.Outstanding ⟨[0], [], [], [], 2, [(1, true), (0, false)]⟩ 0 ∧
    ¬ Resources.Outstanding ⟨[0], [], [], [], 2, [(1, true), (0, false)]⟩ 1 := by
  obtain ⟨hclosings, hsucceeded⟩ := connections_closed trace_leak
  have hfirst := hsucceeded 0 false (by decide)
  have hsecond := hsucceeded 1 true (by decide)
  exact ⟨trace_leak, hclosings, by simpa using hfirst, by simpa using hsecond⟩

/-- The one statement is lost, and no run finds it again. -/
theorem statements_accounted_leak :
    Trace TextCaret plainMembers (plainTransaction : TransactionClass Nat Nat) .start
      [.connect, .execute oneSelect [] none (some 0) true, .drop 0]
      ⟨[0], [], [], [], 2, [(1, true), (0, false)]⟩ ∧
    ∀ events' w', Trace TextCaret plainMembers (plainTransaction : TransactionClass Nat Nat)
      ⟨[0], [], [], [], 2, [(1, true), (0, false)]⟩ events' w' →
        0 ∉ w'.finalized ∧ 0 ∉ w'.owners := by
  obtain ⟨lost, hperm, -, hgone⟩ := statements_accounted trace_leak
  have hlost : lost.Perm [0] := hperm
  refine ⟨trace_leak, fun events' w' hrun => hgone events' w' hrun 0 ?_⟩
  exact hlost.mem_iff.mpr List.mem_cons_self

end OatppSqlite.Executor
