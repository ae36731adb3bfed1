import OatppSqlite.Sqlite.Tokenizer
import Mathlib.Data.Option.Basic

/-!
# One database, several connections

The statements the executor composes for itself (`Query`) and the ones of a migration script,
run on a database that any number of connections share. A statement outside a transaction takes
effect at once. A transaction works on its own copy from its first write on, which only one
connection at a time may do, and the copy becomes the database when it commits. Until then it
only reads, and keeps nobody from writing. So what it has read may be out of date, and it may go on
reading it so (`Choice.readsBefore`); where SQLite does not let a transaction write after that
(`SQLITE_BUSY`), the statement that writes fails.

What happens to a statement is the environment's choice (`Choice`): it succeeds where it can, or
it fails, and SQLite may take a failure in a transaction for the end of it. `perform` is
a function of that choice, so a schedule of choices can be run.
-/

set_option autoImplicit false

namespace OatppSqlite.Sqlite

/-! ## Statements and their answers -/

/-- The statements the executor composes. -/
inductive Query where
  | createTable (table : Text)
  | select (table : Text)
  | insertZero (table : Text)
  | update (table : Text) (version : Int)
  | begin
  | commit
  | rollback
  deriving DecidableEq, Repr

/-- What the executor looks at of an executed statement's `QueryResult`. -/
structure Answer where
  isSuccess : Bool
  errorMessage : String
  hasMoreToFetch : Bool
  versions : List (Option Int)
  deriving DecidableEq, Repr

/-- The first step gave no row, and the statement is done. -/
def Answer.done : Answer := ⟨true, "no more rows available", false, []⟩

/-- The rows of a SELECT. -/
def Answer.ofRows : List (Option Int) → Answer
  | [] => Answer.done
  | row :: rows => ⟨true, "another row available", true, row :: rows⟩

def Answer.failed (message : String) : Answer := ⟨false, message, false, []⟩

/-! ## The store -/

/-- The application's data, and the version tables by name: a row is a version, or NULL. -/
structure Store (δ : Type) where
  data : δ
  tables : Text → Option (List (Option Int))

/-- What a table is found by. -/
def tableKey (table : Text) : Text := foldCase table

variable {δ σ ι : Type}

def Store.table (s : Store δ) (table : Text) : Option (List (Option Int)) :=
  s.tables (tableKey table)

def Store.setTable (s : Store δ) (table : Text) (rows : List (Option Int)) : Store δ :=
  { s with tables := fun key => if key = tableKey table then some rows else s.tables key }

@[simp] theorem Store.setTable_data (s : Store δ) (table : Text) (rows : List (Option Int)) :
    (s.setTable table rows).data = s.data := rfl

@[simp] theorem Store.table_setTable (s : Store δ) (table : Text) (rows : List (Option Int)) :
    (s.setTable table rows).table table = some rows := if_pos rfl

/-- What a statement that writes does to the store; `none` when it cannot succeed. A CREATE
    TABLE IF NOT EXISTS writes only where there is no table. -/
def Query.write : Query → Store δ → Option (Store δ)
  | .createTable table, s =>
    match s.table table with
    | some _ => none
    | none => some (s.setTable table [])
  | .insertZero table, s => (s.table table).map fun rows => s.setTable table (rows ++ [some 0])
  | .update table version, s =>
    (s.table table).map fun rows => s.setTable table (rows.map fun _ => some version)
  | _, _ => none

/-- Nothing is left to do for it. -/
def Query.isDone : Query → Store δ → Bool
  | .createTable table, s => (s.table table).isSome
  | _, _ => false

/-! ## Statements of a script -/

/-- What a statement of a script comes to on the data it finds. One that only reads, as `SELECT 1`,
    a `PRAGMA` or the CREATE TABLE IF NOT EXISTS of a table that exists, does not need to write. -/
inductive Effect (δ : Type) where
  | fails
  | reads
  | writes (d : δ)

/-- The data after it, where they were `d` before. -/
def Effect.after : Effect δ → δ → Option δ
  | .fails, _ => none
  | .reads, d => some d
  | .writes d', _ => some d'

def Effect.isReads : Effect δ → Bool
  | .reads => true
  | _ => false

def Effect.isWrites : Effect δ → Bool
  | .writes _ => true
  | _ => false

theorem Effect.isReads_iff {e : Effect δ} : e.isReads = true ↔ e = .reads := by
  cases e with
  | fails => simp [Effect.isReads]
  | reads => simp [Effect.isReads]
  | writes d => simp [Effect.isReads]

/-! ## The database

The copy of a transaction is a whole store, so a COMMIT replaces the committed one. Nothing has to be
merged: only one connection has a copy at a time. -/

/-- The committed store, which connections are in a transaction, and the one that writes in its
    transaction, with its copy. -/
structure Db (ι δ : Type) where
  committed : Store δ
  inTx : ι → Bool
  writer : Option (ι × Store δ)

/-- What becomes of a statement. -/
inductive Choice where
  | succeeds
  | fails (message : String) (rollsBack : Bool)
  /-- a SELECT fails after it gave its first `n + 1` rows -/
  | breaksOff (n : Nat)
  /-- a statement of a script succeeds on what its transaction has read before -/
  | readsBefore
  deriving DecidableEq, Repr

section

variable [DecidableEq ι]

/-- The store a connection sees. -/
def Db.store (db : Db ι δ) (i : ι) : Store δ :=
  match db.writer with
  | some (j, w) => if j = i then w else db.committed
  | none => db.committed

/-- A transaction ends, and its copy is dropped. -/
def Db.close (db : Db ι δ) (i : ι) : Db ι δ where
  committed := db.committed
  inTx j := if j = i then false else db.inTx j
  writer := db.writer.filter fun w => w.1 ≠ i

/-- A transaction ends, and its copy is the database. -/
def Db.commit (db : Db ι δ) (i : ι) : Db ι δ :=
  { db.close i with committed := db.store i }

/-- No other connection writes in a transaction. -/
def Db.mayWrite (db : Db ι δ) (i : ι) : Bool := db.writer.all fun w => w.1 = i

/-- A connection has written `s`. -/
def Db.written (db : Db ι δ) (i : ι) (s : Store δ) : Db ι δ :=
  if db.inTx i then { db with writer := some (i, s) } else { db with committed := s }

/-- A statement of the executor, on connection `i`. -/
def perform (i : ι) (db : Db ι δ) (q : Query) : Choice → Option (Answer × Db ι δ)
  | .fails message rollsBack =>
    -- a rollback of a transaction cannot fail
    if q = .rollback ∧ db.inTx i then none
    else some (.failed message, if rollsBack then db.close i else db)
  | .breaksOff n =>
    match q with
    | .select table =>
      match (db.store i).table table with
      | some (row :: rows) => some (.ofRows (row :: rows.take n), db)
      | _ => none
    | _ => none
  | .readsBefore => none
  | .succeeds =>
    match q with
    | .select table => ((db.store i).table table).map fun rows => (.ofRows rows, db)
    | .begin => if db.inTx i then none else some (.done, { db with
        inTx := fun j => if j = i then true else db.inTx j })
    | .commit => if db.inTx i then some (.done, db.commit i) else none
    | .rollback => if db.inTx i then some (.done, db.close i) else none
    | q =>
      if q.isDone (db.store i) then some (.done, db)
      else if db.mayWrite i then (q.write (db.store i)).map fun s => (.done, db.written i s)
      else none

/-- A statement of a script, with what it does to the data that the connection sees: the message
    is that of `sqlite3_exec`. What a transaction has read before is not kept, so it may be anything
    that the statement only reads, which adds runs to those of SQLite and takes none away. -/
def performScript (effect : σ → δ → Effect δ) (i : ι) (db : Db ι δ) (s : σ) :
    Choice → Option (Option String × Db ι δ)
  | .fails message rollsBack => some (some message, if rollsBack then db.close i else db)
  | .breaksOff _ => none
  | .readsBefore =>
    if db.inTx i ∧ db.writer.all (fun w => w.1 ≠ i) then some (none, db) else none
  | .succeeds =>
    match effect s (db.store i).data with
    | .fails => none
    | .reads => some (none, db)
    | .writes d =>
      if db.mayWrite i then some (none, db.written i { db.store i with data := d }) else none

/-! ## What a statement does

`perform_cases` and `performScript_cases` say all that a statement can do, so that no later proof
unfolds the two functions: it failed, or it succeeded with the effect of its kind. -/

variable {i : ι} {db db' : Db ι δ} {q : Query} {choice : Choice} {answer : Answer}

theorem Answer.ofRows_isSuccess (l : List (Option Int)) : (Answer.ofRows l).isSuccess = true := by
  cases l <;> rfl

theorem Answer.ofRows_versions (l : List (Option Int)) : (Answer.ofRows l).versions = l := by
  cases l <;> rfl

/-- A failure leaves the database as it is, or drops the copy; a rollback fails only outside
    a transaction. -/
theorem perform_fails {message : String} {rollsBack : Bool}
    (h : perform i db q (.fails message rollsBack) = some (answer, db')) :
    answer = .failed message ∧ (db' = db ∨ db' = db.close i) ∧
      (q = .rollback → db.inTx i = false) := by
  change (if q = .rollback ∧ db.inTx i then none
    else some (Answer.failed message, if rollsBack then db.close i else db)) = _ at h
  split at h
  · cases h
  · rename_i hrollback
    cases h
    refine ⟨rfl, ?_, fun hq => by simpa [hq] using hrollback⟩
    cases rollsBack
    · exact Or.inl rfl
    · exact Or.inr rfl

/-- Only a SELECT breaks off. -/
theorem perform_breaksOff {n : Nat} (h : perform i db q (.breaksOff n) = some (answer, db')) :
    ∃ t row l, q = .select t ∧ (db.store i).table t = some (row :: l) ∧
      answer = .ofRows (row :: l.take n) ∧ db' = db := by
  cases q with
  | select t =>
    unfold perform at h
    dsimp only at h
    split at h
    · rename_i row l hl
      cases h
      exact ⟨t, row, l, rfl, hl, rfl, rfl⟩
    · cases h
  | _ => cases h

/-- What a statement does when it succeeds. -/
def Succeeded (i : ι) (db : Db ι δ) (answer : Answer) (db' : Db ι δ) : Query → Prop
  | .select table =>
    db' = db ∧ ∃ rows n, (db.store i).table table = some rows ∧ answer.versions = rows.take n
  | .begin => db.inTx i = false ∧
      db' = { db with inTx := fun j => if j = i then true else db.inTx j }
  | .commit => db.inTx i = true ∧ db' = db.commit i
  | .rollback => db.inTx i = true ∧ db' = db.close i
  | q => (q.isDone (db.store i) = true ∧ db' = db) ∨
      (db.mayWrite i = true ∧ ∃ s, q.write (db.store i) = some s ∧ db' = db.written i s)

theorem perform_succeeds (h : perform i db q .succeeds = some (answer, db')) :
    answer.isSuccess = true ∧ Succeeded i db answer db' q := by
  have hwrite : ∀ q : Query, (if q.isDone (db.store i) then some (Answer.done, db)
      else if db.mayWrite i then (q.write (db.store i)).map fun s => (.done, db.written i s)
      else none) = some (answer, db') → answer.isSuccess = true ∧
        ((q.isDone (db.store i) = true ∧ db' = db) ∨
        (db.mayWrite i = true ∧ ∃ s, q.write (db.store i) = some s ∧ db' = db.written i s)) := by
    intro q h
    split at h
    · cases h
      exact ⟨rfl, Or.inl ⟨‹_›, rfl⟩⟩
    split at h
    · obtain ⟨s, hs, heq⟩ := Option.map_eq_some_iff.mp h
      cases heq
      exact ⟨rfl, Or.inr ⟨‹_›, s, hs, rfl⟩⟩
    · cases h
  cases q with
  | select t =>
    obtain ⟨rows, hrows, heq⟩ := Option.map_eq_some_iff.mp h
    cases heq
    refine ⟨Answer.ofRows_isSuccess rows, rfl, rows, rows.length, hrows, ?_⟩
    rw [Answer.ofRows_versions, List.take_length]
  | begin =>
    change (if db.inTx i then none else some (Answer.done, _)) = _ at h
    split at h
    · cases h
    · rename_i hinTx
      cases h
      exact ⟨rfl, by simpa using hinTx, rfl⟩
  | commit =>
    change (if db.inTx i then some (Answer.done, db.commit i) else none) = _ at h
    split at h
    · cases h
      exact ⟨rfl, ‹_›, rfl⟩
    · cases h
  | rollback =>
    change (if db.inTx i then some (Answer.done, db.close i) else none) = _ at h
    split at h
    · cases h
      exact ⟨rfl, ‹_›, rfl⟩
    · cases h
  | _ => exact hwrite _ h

/-- **A statement fails, or it does what it is for.** -/
theorem perform_cases (h : perform i db q choice = some (answer, db')) :
    (answer.isSuccess = false ∧ answer.versions = [] ∧ (db' = db ∨ db' = db.close i) ∧
        (q = .rollback → db.inTx i = false)) ∨
      (answer.isSuccess = true ∧ (choice = .succeeds ∨ ∃ t, q = .select t) ∧
        Succeeded i db answer db' q) := by
  cases choice with
  | succeeds =>
    obtain ⟨ha, hdone⟩ := perform_succeeds h
    exact Or.inr ⟨ha, Or.inl rfl, hdone⟩
  | fails message rollsBack =>
    obtain ⟨rfl, hdb⟩ := perform_fails h
    exact Or.inl ⟨rfl, rfl, hdb⟩
  | breaksOff n =>
    obtain ⟨t, row, l, rfl, hrows, rfl, rfl⟩ := perform_breaksOff h
    exact Or.inr ⟨rfl, Or.inr ⟨t, rfl⟩, rfl, row :: l, n + 1, hrows, rfl⟩
  | readsBefore => cases h

/-- The connection has no copy of its own. -/
def Db.NotWriter (db : Db ι δ) (i : ι) : Prop := ∀ s, db.writer ≠ some (i, s)

/-- What a statement of a script does when it succeeds. -/
inductive Ran (effect : σ → δ → Effect δ) (i : ι) (db : Db ι δ) (statement : σ) :
    Choice → Db ι δ → Prop
  | read (heffect : effect statement (db.store i).data = .reads) :
      Ran effect i db statement .succeeds db
  | before (hnot : db.NotWriter i) : Ran effect i db statement .readsBefore db
  | wrote (d : δ) (heffect : effect statement (db.store i).data = .writes d)
      (hwrite : db.mayWrite i = true) :
      Ran effect i db statement .succeeds (db.written i { db.store i with data := d })

/-- **So does a statement of a script.** -/
theorem performScript_cases {effect : σ → δ → Effect δ} {statement : σ} {errmsg : Option String}
    (h : performScript effect i db statement choice = some (errmsg, db')) :
    (errmsg ≠ none ∧ (db' = db ∨ db' = db.close i)) ∨
      (errmsg = none ∧ Ran effect i db statement choice db') := by
  cases choice with
  | succeeds =>
    unfold performScript at h
    dsimp only at h
    split at h
    · cases h
    · rename_i heffect
      cases h
      exact Or.inr ⟨rfl, .read heffect⟩
    · rename_i d heffect
      split at h
      · cases h
        exact Or.inr ⟨rfl, .wrote d heffect ‹_›⟩
      · cases h
  | fails message rollsBack =>
    cases h
    cases rollsBack
    · exact Or.inl ⟨nofun, Or.inl rfl⟩
    · exact Or.inl ⟨nofun, Or.inr rfl⟩
  | breaksOff n => cases h
  | readsBefore =>
    unfold performScript at h
    dsimp only at h
    split at h
    · rename_i hreads
      cases h
      refine Or.inr ⟨rfl, .before fun s hs => ?_⟩
      have hnot := hreads.2
      rw [hs] at hnot
      simp at hnot
    · cases h

/-- What a statement of connection `i` may make of the database. -/
inductive Moved (i : ι) (db : Db ι δ) (q : Query) : Db ι δ → Prop
  | same : Moved i db q db
  | closed : Moved i db q (db.close i)
  | begun (hq : q = .begin) :
      Moved i db q { db with inTx := fun j => if j = i then true else db.inTx j }
  | committed : Moved i db q (db.commit i)
  | written (s : Store δ) (hwrite : db.mayWrite i = true) (hs : q.write (db.store i) = some s) :
      Moved i db q (db.written i s)

theorem perform_moved (h : perform i db q choice = some (answer, db')) : Moved i db q db' := by
  have hwritten : ∀ q : Query, (q.isDone (db.store i) = true ∧ db' = db) ∨
      (db.mayWrite i = true ∧ ∃ s, q.write (db.store i) = some s ∧ db' = db.written i s) →
      Moved i db q db' := by
    rintro q (⟨-, rfl⟩ | ⟨hwrite, s, hs, rfl⟩)
    · exact .same
    · exact .written s hwrite hs
  rcases perform_cases h with ⟨-, -, rfl | rfl, -⟩ | ⟨-, -, hdone⟩
  · exact .same
  · exact .closed
  cases q with
  | select table =>
    obtain ⟨rfl, -⟩ := hdone
    exact .same
  | begin =>
    obtain ⟨-, rfl⟩ := hdone
    exact .begun rfl
  | commit =>
    obtain ⟨-, rfl⟩ := hdone
    exact .committed
  | rollback =>
    obtain ⟨-, rfl⟩ := hdone
    exact .closed
  | _ => exact hwritten _ hdone

/-! ## The writer

What one connection's statement leaves of the others is `Untouched`. For a connection with a copy
the committed store is part of it, since nobody else can commit meanwhile. -/

/-- Only a connection in a transaction has a copy. -/
def Db.WriterInTx (db : Db ι δ) : Prop := ∀ j, db.inTx j = false → db.NotWriter j

theorem Db.NotWriter.store_eq (h : db.NotWriter i) : db.store i = db.committed := by
  unfold Db.store
  split
  · rename_i j w hw
    refine if_neg fun hj => h w ?_
    rw [hw, hj]
  · rfl

theorem close_notWriter (db : Db ι δ) (i : ι) : (db.close i).NotWriter i := by
  intro s hs
  simp [Db.close, Option.filter_eq_some_iff] at hs

theorem Db.NotWriter.close {j : ι} (h : db.NotWriter j) : (db.close i).NotWriter j := by
  intro s hs
  exact h s (Option.filter_eq_some_iff.mp hs).1

theorem store_close (db : Db ι δ) (i : ι) : (db.close i).store i = db.committed :=
  (close_notWriter db i).store_eq

theorem mayWrite_close (db : Db ι δ) (i : ι) : (db.close i).mayWrite i = db.mayWrite i := by
  unfold Db.mayWrite Db.close
  cases db.writer with
  | none => rfl
  | some w =>
    by_cases hw : w.1 = i
    · simp [Option.filter, hw]
    · simp [Option.filter, hw]

omit [DecidableEq ι] in
@[simp] theorem Db.inTx_written (db : Db ι δ) (i : ι) (s : Store δ) :
    (db.written i s).inTx = db.inTx := by
  unfold Db.written
  split
  · rfl
  · rfl

theorem store_written (h : db.WriterInTx) (i : ι) (s : Store δ) : (db.written i s).store i = s := by
  unfold Db.written
  split
  · exact if_pos rfl
  · rename_i hinTx
    have hwriter : db.NotWriter i := h i (by simpa using hinTx)
    exact Db.NotWriter.store_eq hwriter

theorem Db.WriterInTx.close (h : db.WriterInTx) (i : ι) : (db.close i).WriterInTx := by
  intro j hj
  by_cases hji : j = i
  · rw [hji]
    exact close_notWriter db i
  · exact (h j (by simpa [Db.close, hji] using hj)).close

omit [DecidableEq ι] in
theorem Db.WriterInTx.written (h : db.WriterInTx) (i : ι) (s : Store δ) :
    (db.written i s).WriterInTx := by
  intro j hj
  rw [Db.inTx_written] at hj
  unfold Db.written
  split
  · rename_i hinTx
    intro s' hs'
    cases hs'
    exact Bool.false_ne_true (hj.symm.trans hinTx)
  · exact h j hj

/-- **A statement keeps it.** -/
theorem perform_writerInTx (hdb : db.WriterInTx) (h : perform i db q choice = some (answer, db')) :
    db'.WriterInTx := by
  cases perform_moved h with
  | same => exact hdb
  | closed => exact hdb.close i
  | begun hq =>
    intro j hj
    refine hdb j ?_
    by_cases hji : j = i
    · simp [hji] at hj
    · simpa [hji] using hj
  | committed => exact hdb.close i
  | written s hwrite hs => exact hdb.written i s

theorem performScript_writerInTx {effect : σ → δ → Effect δ} {statement : σ}
    {errmsg : Option String} (hdb : db.WriterInTx)
    (h : performScript effect i db statement choice = some (errmsg, db')) : db'.WriterInTx := by
  rcases performScript_cases h with ⟨-, rfl | rfl⟩ | ⟨-, hran⟩
  · exact hdb
  · exact hdb.close i
  cases hran with
  | read => exact hdb
  | before => exact hdb
  | wrote => exact hdb.written i _

end

end OatppSqlite.Sqlite
