import OatppSqlite.Sqlite.Parameters
import OatppSqlite.Sqlite.Statement
import OatppSqlite.Mapping.Serializer

/-!
# Preparing and binding

`sqlite3_prepare_v2` compiles the first statement of a text and would tell where it ends, to
a caller who asks. Compiling is not modelled, but how much of the text it takes is: up to the
`;` at which the machine of `sqlite3_complete` is back in its start state, which is the first
one outside a trigger. What the bind functions answer depends on the number of parameters of
the statement and on the size of the value.
-/

set_option autoImplicit false

namespace OatppSqlite.Sqlite

open Mapping

/-! ## Where a statement ends -/

/-- The tokens of `sqlite3_complete`. -/
inductive CompleteToken where
  | semi | ws | other | explain | create | temp | trigger | ended
  deriving DecidableEq, Repr

/-- The states of `sqlite3_complete`; before the first token it is as in `start`. -/
inductive CompleteState where
  | start | normal | explain | create | trigger | semi | ended
  deriving DecidableEq, Repr

/-- The table `trans`. -/
def CompleteState.trans : CompleteState → CompleteToken → CompleteState
  | state, .ws => state
  | .start, .semi => .start
  | .start, .explain => .explain
  | .start, .create => .create
  | .start, _ => .normal
  | .normal, .semi => .start
  | .normal, _ => .normal
  | .explain, .semi => .start
  | .explain, .other => .explain
  | .explain, .create => .create
  | .explain, _ => .normal
  | .create, .semi => .start
  | .create, .temp => .create
  | .create, .trigger => .trigger
  | .create, _ => .normal
  | .trigger, .semi => .semi
  | .trigger, _ => .trigger
  | .semi, .semi => .semi
  | .semi, .ended => .ended
  | .semi, _ => .trigger
  | .ended, .semi => .start
  | .ended, _ => .trigger

def completeToken (k : Token) : CompleteToken :=
  match k.type with
  | .semi => .semi
  | .space => .ws
  | _ =>
    if foldCase k.text = "explain".toList then .explain
    else if foldCase k.text = "create".toList then .create
    else if foldCase k.text = "temp".toList ∨ foldCase k.text = "temporary".toList then .temp
    else if foldCase k.text = "trigger".toList then .trigger
    else if foldCase k.text = "end".toList then .ended
    else .other

/-- Where the first statement ends, behind its `;`; `none` if that is the end of the text. -/
def statementEnd (state : CompleteState) : List Token → Option Nat
  | [] => none
  | k :: ks =>
    if state ≠ .start ∧ state.trans (completeToken k) = .start then some (k.start + 1)
    else statementEnd (state.trans (completeToken k)) ks

/-- What `sqlite3_prepare_v2` leaves uncompiled. -/
def statementTail (sql : Text) : Text :=
  match statementEnd .start (tokens sql) with
  | some p => sql.drop p
  | none => sql.drop (cString sql).length

/-- Spaces, comments and empty statements. A NUL is none of these, not even as the last byte. -/
def blank (z : Text) : Bool :=
  (tokens z).all (fun k => k.type = .space || k.type = .semi) && decide (cString z = z)

example : statementTail "CREATE TRIGGER r BEFORE DELETE ON t BEGIN SELECT 1; END; SELECT 2".toList
    = " SELECT 2".toList := by
  decide +kernel

/-- `sqlite3_bind_parameter_count`: the largest number that was given. -/
def parameterCount (sql : Text) : Nat :=
  ((numbers ⟨0, []⟩ (parametersOf sql)).map Prod.snd).foldr max 0

/-! ## Statements and bind calls -/

/-- A compiled statement: its number of parameters, what was left of the text, and the steps
    it takes once values are bound. -/
structure Compiled where
  parameterCount : Nat
  tail : Text
  run : List (Nat × Bind) → Statement

/-- **What is relied on of `sqlite3_prepare_v2`** when it compiles a text. -/
structure LawfulPrepare (prepare : Text → Except String Compiled) : Prop where
  parameterCount_eq : ∀ sql stmt, prepare sql = .ok stmt →
    stmt.parameterCount = parameterCount sql
  tail_eq : ∀ sql stmt, prepare sql = .ok stmt → stmt.tail = statementTail sql

/-- The result codes of the bind functions. -/
inductive BindCode where
  | ok
  | range
  | tooBig
  | misuse
  deriving DecidableEq, Repr

/-- `SQLITE_LIMIT_LENGTH`. -/
def lengthLimit : Nat := 1000000000

/-- A size as the `int` that the bind functions take. -/
def intSize (s : Text) : Int := (BitVec.ofNat 32 s.length).toInt

/-- The value is within the limit. A text of negative size ends at its first NUL, and a blob
    may not have one. -/
def fits : Bind → Bool
  | .text s =>
    if intSize s < 0 then decide ((cString s).length ≤ lengthLimit)
    else decide (intSize s ≤ lengthLimit)
  | .blob s => decide (0 ≤ intSize s) && decide (intSize s ≤ lengthLimit)
  | _ => true

/-- What a bind function answers; without a statement that is SQLITE_MISUSE. -/
def bindCode (stmt : Except String Compiled) (i : Nat) (bind : Bind) : BindCode :=
  match stmt with
  | .error _ => .misuse
  | .ok stmt =>
    if i < 1 ∨ stmt.parameterCount < i then .range
    else if fits bind then .ok else .tooBig

/-- A null statement: it has no step to take. The connection's message is still the one of
    `sqlite3_prepare_v2`. -/
def nullStatement (message : String) : Statement := .prepared [] [] ⟨.error message, StepCode.error_ne_row message⟩

/-- The statement with the values that were bound. -/
def boundStatement (stmt : Except String Compiled) (binds : List (Nat × Bind)) : Statement :=
  match stmt with
  | .error message => nullStatement message
  | .ok compiled => compiled.run (binds.filter fun b => bindCode stmt b.1 b.2 = .ok)

theorem bindCode_ok_iff {stmt : Compiled} {i : Nat} {bind : Bind} :
    bindCode (.ok stmt) i bind = .ok ↔
      1 ≤ i ∧ i ≤ stmt.parameterCount ∧ fits bind = true := by
  unfold bindCode
  dsimp only
  split_ifs with hrange hfits
  · exact iff_of_false nofun (by omega)
  · exact iff_of_true rfl ⟨by omega, by omega, hfits⟩
  · exact iff_of_false nofun fun h => hfits h.2.2

end OatppSqlite.Sqlite
