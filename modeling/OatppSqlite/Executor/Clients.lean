import OatppSqlite.Executor.Version
import Mathlib.Logic.Function.Basic
import Mathlib.Logic.Relation

/-!
# Clients of one database

Any number of clients, each with its own connection, make calls of `getSchemaVersion` and
`migrateSchema` for one suffix and one assignment of scripts to versions. A step of the system is
one statement of one client, with what the environment chose for it, or the start of a client's
next call. Which statement a client asks for next is the `Protocol`; that the programs keep to
it (`ClientCall.program_follows`) is all that is used of them below.

The system does not say which steps are taken: a run takes any, as long as a guard allows them
(`Deployment.Reaches`). With the guard that allows all it is every interleaving, and a condition
under which a claim holds is a guard that asks for it, step by step.

A phase is what the client itself may know from the answers it got, and nothing about the database:
`ready` says that the client saw the row, not that it is there. What is true of the database in a
phase is a matter of the invariants that use the protocol.
-/

set_option autoImplicit false

namespace OatppSqlite.Executor

open Sqlite

variable {ι σ δ : Type}

/-! ## The system -/

/-- What the clients have in common. Any text is a suffix here; for the source's statements it is
    one if the table name it is pasted into is one name to SQLite, as `Suffix.queryText_table` has
    it of the suffixes over `[A-Za-z0-9_]`. -/
structure Deployment (ι σ δ : Type) where
  transactions : TransactionClass ι σ
  lawful : LawfulTransaction transactions
  scripts : Int → List σ
  suffix : Option Text
  effect : σ → δ → Effect δ

def Deployment.table (D : Deployment ι σ δ) : Text := getSchemaVersionTableName D.suffix

inductive ClientCall where
  | getSchemaVersion
  | migrateSchema (newVersion : Int)
  deriving DecidableEq, Repr

/-- The version a call is to bring. -/
def ClientCall.version? : ClientCall → Option Int
  | .getSchemaVersion => none
  | .migrateSchema newVersion => some newVersion

def ClientCall.program (D : Deployment ι σ δ) (connection : ι) : ClientCall → Program ι σ Unit
  | .getSchemaVersion => Executor.getSchemaVersion D.suffix (some connection) >>= fun _ => pure ()
  | .migrateSchema newVersion => Executor.migrateSchema D.transactions
      (some (D.scripts newVersion)) newVersion D.suffix (some connection)

/-- A client: its call, where it is in it, and the calls it has still to make. -/
structure Client (ι σ : Type) where
  call : ClientCall
  running : Program ι σ Unit
  calls : List ClientCall

/-- `committed` are the versions whose transaction was committed, the last one first. -/
structure System (ι σ δ : Type) where
  db : Db ι δ
  client : ι → Client ι σ
  committed : List Int

/-- What a successful COMMIT of a call adds to `committed`. -/
def ClientCall.commits (call : ClientCall) : (q : Request ι σ) → Reply q → List Int
  | .exec _ .commit, answer => if Answer.isSuccess answer then call.version?.toList else []
  | _, _ => []

/-! ## The protocol

The phases follow the source statement by statement. A phase is left by its question's answer, so a
call that throws or returns after an answer is in the phase that this answer led to. -/

/-- Where a client is in its call. It is `vacant` when it was given no version row, `doomed` when
    it was given several, `ready` when it knows that the table has its row, and `failed` while it
    has a transaction to roll back. -/
inductive Phase where
  | free
  | vacant
  | doomed
  | ready
  | begun
  | updated
  | failed
  deriving DecidableEq, Repr

/-- No transaction is on the way. -/
def Phase.Outside : Phase → Prop
  | .free | .vacant | .doomed | .ready => True
  | .begun | .updated | .failed => False

/-- What the rows of a SELECT tell a client. -/
def Phase.ofVersions : List (Option Int) → Phase
  | [] => .vacant
  | [_] => .ready
  | _ => .doomed

/-- Which statement may come next on connection `c`, in a call for version `v`. -/
inductive Protocol (c : ι) (table : Text) (v : Option Int) :
    Phase → (q : Request ι σ) → (Reply q → Phase) → Prop
  | createTable : Protocol c table v .free (.exec c (.createTable table)) fun _ => .free
  | select : Protocol c table v .free (.exec c (.select table))
      fun (answer : Answer) => if answer.isSuccess then .ofVersions answer.versions else .free
  | insertZero : Protocol c table v .vacant (.exec c (.insertZero table))
      fun (answer : Answer) => if answer.isSuccess then .ready else .free
  | begin : Protocol c table v .ready (.exec c .begin)
      fun (answer : Answer) => if answer.isSuccess then .begun else .ready
  | scriptStatement (statement : σ) :
      Protocol c table v .begun (.scriptStatement c statement)
        fun (errmsg : Option String) => if errmsg = none then .begun else .failed
  | update (version : Int) (hv : v = some version) :
      Protocol c table v .begun (.exec c (.update table version))
        fun (answer : Answer) =>
          if !answer.isSuccess || answer.hasMoreToFetch then .failed else .updated
  | commit : Protocol c table v .updated (.exec c .commit)
      fun (answer : Answer) => if answer.isSuccess then .ready else .failed
  | rollback : Protocol c table v .failed (.exec c .rollback) fun _ => .ready

/-- How a call ends: only a client that was given several rows throws over them. -/
def Ended {α : Type} : Except String α → Phase → Prop
  | .ok _, phase => phase = .free ∨ phase = .ready
  | .error what, phase =>
    phase = .doomed ∨ ((phase = .free ∨ phase = .ready) ∧ what ≠ multipleVersionRows)

/-- How `getSchemaVersion` ends: when it gives a version, the table has its row. -/
def VersionGiven : Except String Int → Phase → Prop
  | .ok _, phase => phase = .ready
  | .error what, phase => Ended (.error what : Except String Int) phase

section

variable {c : ι} {table : Text} {suffix : Option Text} {v : Option Int}
  {C : TransactionClass ι σ} {α : Type}

theorem Ended.throw {what : String} (hwhat : what ≠ multipleVersionRows) :
    Ended (.error what : Except String α) .free := Or.inr ⟨Or.inl rfl, hwhat⟩

theorem Ended.outside {r : Except String α} {phase : Phase} (h : Ended r phase) :
    phase.Outside := by
  cases r with
  | ok a =>
    rcases h with rfl | rfl
    · trivial
    · trivial
  | error what =>
    rcases h with rfl | ⟨rfl | rfl, -⟩
    · trivial
    · trivial
    · trivial

/-- A message that begins unlike another. The two are given by their characters, so that the
    comparison does not decode them. -/
theorem append_ne {l l' : List Char} {a b m : String} (ha : a = String.ofList l)
    (hm : m = String.ofList l') (h : ¬ l <+: l') : a ++ b ≠ m := by
  intro hab
  refine h ⟨b.toList, ?_⟩
  rw [ha, hm] at hab
  have hlist := congrArg String.toList hab
  rwa [String.toList_append, String.toList_ofList, String.toList_ofList] at hlist

theorem getSchemaVersion_follows :
    Prog.wp (Prog.following (Protocol (σ := σ) c (getSchemaVersionTableName suffix) v))
      VersionGiven (getSchemaVersion suffix (some c)) .free := by
  simp only [getSchemaVersion, exec_bind]
  -- each statement is the next one of the protocol, and its failure is thrown with a text of
  -- its own, which is not the one about several rows
  refine ⟨_, .createTable, fun answer => ?_⟩
  cases ha : Answer.isSuccess answer with
  | false =>
    simp only [ha, Bool.false_eq_true, if_false]
    exact Ended.throw (α := Int)
      (append_ne String.ofList_append.symm String.ofList_append.symm (by decide))
  | true =>
  simp only [ha, if_true]
  refine ⟨_, .select, fun answer => ?_⟩
  cases ha : Answer.isSuccess answer with
  | false =>
    simp only [ha, Bool.false_eq_true, if_false]
    exact Ended.throw (α := Int)
      (append_ne String.ofList_append.symm String.ofList_append.symm (by decide))
  | true =>
  simp only [ha, if_true]
  generalize Answer.versions answer = versions
  match versions with
  | [] =>
    -- no row
    refine ⟨_, .insertZero, fun answer => ?_⟩
    cases ha : Answer.isSuccess answer with
    | false =>
      simp only [ha, Bool.false_eq_true, if_false]
      exact Ended.throw (α := Int)
        (append_ne String.ofList_append.symm String.ofList_append.symm (by decide))
    | true =>
      simp only [ha, if_true]
      rfl
  | [some version] => rfl
  | [none] => exact Or.inr ⟨Or.inr rfl, by decide⟩
  | none :: _ :: _ => exact Or.inl rfl
  | some _ :: _ :: _ => exact Or.inl rfl

theorem sqlite3_exec_follows (script : List σ) :
    Prog.wp (Prog.following (Protocol c table v))
      (fun r phase => ∃ errmsg, r = .ok errmsg ∧
        phase = if errmsg = none then .begun else .failed)
      (sqlite3_exec c script) .begun := by
  induction script with
  | nil => exact ⟨none, rfl, rfl⟩
  | cons statement script ih =>
    refine ⟨_, .scriptStatement statement, fun errmsg => ?_⟩
    cases errmsg with
    | none => exact ih
    | some what => exact ⟨some what, rfl, rfl⟩

/-- The transaction object when the body of the migration is left. -/
def Left (C : TransactionClass ι σ) (c : ι) :
    Except String (Except String Unit × C.Transaction) → Phase → Prop
  | .ok (.ok (), transaction), phase => transaction = C.closed ∧ phase = .ready
  | .ok (.error what, transaction), phase =>
    transaction = C.opened c ∧ phase = .failed ∧ what ≠ multipleVersionRows
  | .error _, _ => False

theorem migrateInTransaction_follows (hC : LawfulTransaction C) (script : List σ)
    {version : Int} (hv : v = some version) :
    Prog.wp (Prog.following (Protocol c (getSchemaVersionTableName suffix) v)) (Left C c)
      (migrateInTransaction C script version suffix c (C.opened c)) .begun := by
  unfold migrateInTransaction
  refine Prog.wp_bind.mpr (Prog.wp_mono Prog.following_monotone ?_ (sqlite3_exec_follows script))
  rintro _ _ ⟨errmsg, rfl, rfl⟩
  cases errmsg with
  | some what => exact ⟨rfl, rfl, append_ne rfl String.ofList_append.symm (by decide)⟩
  | none =>
  simp only [Prog.andThen, updateSchemaVersion, exec_bind, hC.commit_eq, commit,
    Prog.ask_bind_eq, Prog.pure_bind_eq, if_true]
  refine ⟨_, .update version hv, fun answer => ?_⟩
  dsimp only
  split
  · exact ⟨rfl, rfl, by decide⟩
  refine ⟨_, .commit, fun answer => ?_⟩
  cases ha : Answer.isSuccess answer with
  | false =>
    simp only [ha, Bool.not_false, if_true, Bool.false_eq_true, if_false]
    exact ⟨rfl, rfl, by decide⟩
  | true =>
    simp only [ha, Bool.not_true, Bool.false_eq_true, if_false, if_true]
    exact ⟨rfl, rfl⟩

theorem migrateSchema_follows (hC : LawfulTransaction C) (script : List σ)
    {version : Int} (hv : v = some version) :
    Prog.wp (Prog.following (Protocol c (getSchemaVersionTableName suffix) v)) Ended
      (migrateSchema C (some script) version suffix (some c)) .free := by
  refine Prog.wp_bind.mpr (Prog.wp_mono Prog.following_monotone ?_ getSchemaVersion_follows)
  rintro (what | currVersion) phase h
  · exact h
  obtain rfl : phase = .ready := h
  show Prog.wp _ _ (if version ≤ currVersion then pure () else _) _
  split
  · exact Or.inr rfl
  split
  · exact Or.inr ⟨Or.inr rfl, by decide⟩
  -- the constructor of the transaction
  obtain ⟨what, hwhat, hconstruct⟩ := hC.construct_eq
  simp only [hconstruct, begin, exec_bind, Prog.ask_bind_eq]
  refine ⟨_, .begin, fun answer => ?_⟩
  cases ha : Answer.isSuccess answer with
  | false =>
    simp only [ha, Bool.false_eq_true, if_false]
    exact Or.inr ⟨Or.inr rfl, hwhat⟩
  | true =>
  simp only [ha, if_true, Prog.pure_bind_eq]
  refine Prog.wp_bind.mpr (Prog.wp_mono Prog.following_monotone ?_
    (migrateInTransaction_follows hC script hv))
  rintro (what | ⟨outcome, transaction⟩) phase h
  · exact h.elim
  -- and its destructor, which rolls back what is not committed, before the exception goes on
  cases outcome with
  | ok _ =>
    obtain ⟨rfl, rfl⟩ := h
    simp only [Prog.andThen, hC.destroy_closed, Prog.pure_bind_eq]
    exact Or.inr rfl
  | error what =>
    obtain ⟨rfl, rfl, hwhat⟩ := h
    simp only [Prog.andThen, hC.destroy_opened, rollback, exec_bind, Prog.ask_bind_eq,
      Prog.pure_bind_eq]
    exact ⟨_, .rollback, fun _ => Or.inr ⟨Or.inr rfl, hwhat⟩⟩

/-- **The programs keep to the protocol.** -/
theorem ClientCall.program_follows (D : Deployment ι σ δ) (c : ι) (call : ClientCall) :
    Prog.wp (Prog.following (Protocol c D.table call.version?)) Ended (call.program D c) .free := by
  cases call with
  | getSchemaVersion =>
    refine Prog.wp_bind.mpr (Prog.wp_mono Prog.following_monotone ?_ getSchemaVersion_follows)
    rintro (what | version) phase h
    · exact h
    · exact Or.inr h
  | migrateSchema version => exact migrateSchema_follows D.lawful _ rfl

end

/-! ## Steps -/

variable [DecidableEq ι]

/-- One step of a client: its next statement, or, when its call has ended, its next call. -/
def Deployment.advance (D : Deployment ι σ δ) (sys : System ι σ δ) (i : ι) (choice : Choice) :
    Option (System ι σ δ) :=
  match (sys.client i).running with
  | .ask q k =>
    match serve D.effect choice sys.db q with
    | some (answer, db') => some
        { db := db'
          client := Function.update sys.client i { sys.client i with running := k answer }
          committed := (sys.client i).call.commits q answer ++ sys.committed }
    | none => none
  | _ =>
    match (sys.client i).calls with
    | [] => none
    | call :: calls => some { sys with
        client := Function.update sys.client i ⟨call, call.program D i, calls⟩ }

/-- A step that `G` allows. -/
def Deployment.Step (D : Deployment ι σ δ) (G : System ι σ δ → ι → Choice → Prop)
    (sys sys' : System ι σ δ) : Prop :=
  ∃ i choice, G sys i choice ∧ D.advance sys i choice = some sys'

/-- Any interleaving of the steps that `G` allows. -/
abbrev Deployment.Reaches (D : Deployment ι σ δ) (G : System ι σ δ → ι → Choice → Prop) :
    System ι σ δ → System ι σ δ → Prop := Relation.ReflTransGen (D.Step G)

/-- A schedule of steps, as long as `G` allows them. -/
def Deployment.run (D : Deployment ι σ δ) (G : System ι σ δ → ι → Choice → Prop)
    [∀ sys i choice, Decidable (G sys i choice)] (sys : System ι σ δ) :
    List (ι × Choice) → Option (System ι σ δ)
  | [] => some sys
  | (i, choice) :: schedule =>
    if G sys i choice then
      match D.advance sys i choice with
      | some sys' => D.run G sys' schedule
      | none => none
    else none

/-- No client is in a call, and no transaction is open. -/
structure System.Quiet (sys : System ι σ δ) : Prop where
  running : ∀ i, (sys.client i).running = .pure ()
  inTx : ∀ i, sys.db.inTx i = false
  writer : sys.db.writer = none

variable {D : Deployment ι σ δ} {G : System ι σ δ → ι → Choice → Prop}
  {sys sys' : System ι σ δ} {i : ι} {choice : Choice}

variable (sys) in
theorem run_reaches [∀ sys i choice, Decidable (G sys i choice)] (schedule : List (ι × Choice))
    (h : D.run G sys schedule = some sys') : D.Reaches G sys sys' := by
  induction schedule generalizing sys with
  | nil =>
    cases h
    exact .refl
  | cons step schedule ih =>
    obtain ⟨i, choice⟩ := step
    rw [Deployment.run] at h
    split at h
    · split at h
      · exact .head ⟨i, choice, ‹_›, ‹_›⟩ (ih _ h)
      · cases h
    · cases h

/-- Client `i` is in this phase of its call. -/
def System.InPhase (D : Deployment ι σ δ) (sys : System ι σ δ) (i : ι) (phase : Phase) : Prop :=
  Prog.wp (Prog.following (Protocol i D.table (sys.client i).call.version?)) Ended
    (sys.client i).running phase

omit [DecidableEq ι] in
theorem System.Quiet.inPhase (h : sys.Quiet) (i : ι) : sys.InPhase D i .free := by
  unfold System.InPhase
  rw [h.running i]
  exact Or.inl rfl

omit [DecidableEq ι] in
/-- A step keeps the phases of the clients that do not take it. -/
theorem inPhase_of_client_eq {j : ι} {phase : Phase} (hclient : sys'.client j = sys.client j)
    (h : sys.InPhase D j phase) : sys'.InPhase D j phase := by
  unfold System.InPhase
  rwa [hclient]

/-- **What a step is**: a statement that the protocol allows, or the start of a call. -/
theorem advance_cases {phase : Phase} (hphase : sys.InPhase D i phase)
    (h : D.advance sys i choice = some sys') :
    (∀ j, j ≠ i → sys'.client j = sys.client j) ∧
    ((∃ q k next answer, (sys.client i).running = .ask q k ∧
      Protocol i D.table (sys.client i).call.version? phase q next ∧
      serve D.effect choice sys.db q = some (answer, sys'.db) ∧
      sys'.InPhase D i (next answer) ∧ (sys'.client i).call = (sys.client i).call ∧
      sys'.committed = (sys.client i).call.commits q answer ++ sys.committed) ∨
    (phase.Outside ∧ sys'.db = sys.db ∧ sys'.committed = sys.committed ∧
      sys'.InPhase D i .free)) := by
  unfold Deployment.advance at h
  unfold System.InPhase at hphase
  split at h
  · rename_i q k hrunning
    split at h
    · rename_i answer db' hserve
      cases h
      rw [hrunning] at hphase
      obtain ⟨next, hnext, hk⟩ := hphase
      refine ⟨fun j hj => Function.update_of_ne hj _ _,
        Or.inl ⟨q, k, next, answer, hrunning, hnext, hserve, ?_, ?_, rfl⟩⟩
      · unfold System.InPhase
        simp only [Function.update_self]
        exact hk answer
      · simp only [Function.update_self]
    · cases h
  · -- the call has ended, and the protocol says in which phases it may have
    rename_i hrunning
    split at h
    · cases h
    · cases h
      refine ⟨fun j hj => Function.update_of_ne hj _ _, Or.inr ⟨?_, rfl, rfl, ?_⟩⟩
      · cases hr : (sys.client i).running with
        | pure a =>
          rw [hr] at hphase
          exact Ended.outside hphase
        | throw what =>
          rw [hr] at hphase
          exact Ended.outside hphase
        | ask q k => exact absurd hr (hrunning q k)
      · unfold System.InPhase
        simp only [Function.update_self]
        exact ClientCall.program_follows D i _

/-! ## A small deployment -/

/-- Scripts that read, and then write the version. -/
def plainDeployment : Deployment ι Nat (List Nat) where
  transactions := plainTransaction
  lawful := plainTransaction_lawful
  scripts version := [0, version.toNat]
  suffix := none
  effect := logged

/-- Clients with these calls before them, and nothing in the database. -/
def newSystem (calls : ι → List ClientCall) : System ι Nat (List Nat) where
  db := emptyDb
  client i := ⟨.getSchemaVersion, .pure (), calls i⟩
  committed := []

omit [DecidableEq ι] in
theorem newSystem_quiet (calls : ι → List ClientCall) : (newSystem calls).Quiet :=
  ⟨fun _ => rfl, fun _ => rfl, rfl⟩

end OatppSqlite.Executor
