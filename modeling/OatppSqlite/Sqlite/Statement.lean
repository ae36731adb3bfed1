import OatppSqlite.Mapping.Deserializer

/-!
# Stepping a statement

A statement, as `sqlite3_step` shows it: it has finitely many rows to give, and then a last
answer, which is not SQLITE_ROW. A further step after that would run the statement a second
time, from its first row; `codes` keeps what every step answered, so that one can say that this
does not happen.

A null statement is one that has no rows and answers SQLITE_MISUSE.

The row that the statement stands on is that of the table, but for one thing: a BLOB that
`sqlite3_column_text` was called on is a TEXT, as long as the statement stands on it.
-/

set_option autoImplicit false

namespace OatppSqlite.Sqlite

open Mapping

/-- What `sqlite3_step` answers, with the message of a failure. -/
inductive StepCode where
  | row
  | done
  | error (message : String)
  deriving DecidableEq, Repr

/-- `sqlite3_errmsg` right after the step. -/
def StepCode.errmsg : StepCode → String
  | .row => "another row available"
  | .done => "no more rows available"
  | .error message => message

/-- The codes a statement may end with. -/
abbrev LastCode := { c : StepCode // c ≠ .row }

structure Statement where
  columns : List Text
  rows : List (List Cell)
  last : LastCode
  /-- the row the next step gives -/
  next : Nat
  /-- the row the statement stands on, as it is shown -/
  current : Option (List Cell)
  /-- the answers of all steps so far -/
  codes : List StepCode

theorem StepCode.done_ne_row : StepCode.done ≠ .row := StepCode.noConfusion

theorem StepCode.error_ne_row (message : String) : StepCode.error message ≠ .row :=
  StepCode.noConfusion

/-- A freshly prepared statement. -/
def Statement.prepared (columns : List Text) (rows : List (List Cell)) (last : LastCode) :
    Statement :=
  ⟨columns, rows, last, 0, none, []⟩

/-- `sqlite3_step`. -/
def Statement.step (s : Statement) : StepCode × Statement :=
  match s.rows[s.next]? with
  | some r => (.row, { s with next := s.next + 1, current := some r, codes := s.codes ++ [.row] })
  | none =>
    (s.last.val, { s with next := 0, current := none, codes := s.codes ++ [s.last.val] })

theorem Statement.step_row {s : Statement} {r : List Cell} (h : s.rows[s.next]? = some r) :
    s.step = (.row,
      { s with next := s.next + 1, current := some r, codes := s.codes ++ [.row] }) := by
  unfold Statement.step
  rw [h]

theorem Statement.step_last {s : Statement} (h : s.rows[s.next]? = none) :
    s.step = (s.last.val,
      { s with next := 0, current := none, codes := s.codes ++ [s.last.val] }) := by
  unfold Statement.step
  rw [h]

/-- A row after `sqlite3_column_text` was called on the columns that are marked. -/
def textCalled : List Bool → List Cell → List Cell
  | mark :: marks, data :: row => data.textIf mark :: textCalled marks row
  | _, row => row

/-- `sqlite3_column_text`, on the columns that are marked. -/
def Statement.columnText (s : Statement) (marks : List Bool) : Statement :=
  { s with current := s.current.map (textCalled marks) }

/-- A row as it may be shown: any of its values as a text. -/
def ShownAs : List Cell → List Cell → Prop :=
  List.Forall₂ fun data shown => ∃ called, shown = data.textIf called

theorem ShownAs.refl (row : List Cell) : ShownAs row row := by
  apply List.forall₂_same.mpr
  intro data _
  exact ⟨false, rfl⟩

theorem ShownAs.textCalled {row shown : List Cell} (h : ShownAs row shown) (marks : List Bool) :
    ShownAs row (textCalled marks shown) := by
  induction h generalizing marks with
  | nil => cases marks <;> exact .nil
  | cons hdata hrest ih =>
    cases marks with
    | nil => exact .cons hdata hrest
    | cons mark marks =>
      obtain ⟨called, rfl⟩ := hdata
      exact .cons ⟨called || mark, Cell.textIf_textIf _ called mark⟩ (ih marks)

end OatppSqlite.Sqlite
