import Mathlib.Data.List.Basic

/-!
# The caret

Every scanner of this repository (`Parser::preprocess`, `Parser::parseTemplate` and the helpers
they share, `Executor::parseQueryParameter`) reads its text through oatpp's
`utils::parser::Caret`, a class of the framework and not of this repository. So the caret is a
**parameter** here: `Caret` is the part of its interface the repository calls, and
`LawfulCaret` says what is relied on, call by call, as a commuting square with `TextCaret` — a
text, a position in it and an error message, with the calls' documented effects.

`TextCaret` is itself a lawful caret (the instance at the end), and the one that runs: the
scanners are generic in the caret, and what they compute is the same at every lawful one.
-/

set_option autoImplicit false

namespace OatppSqlite

/-- A byte string, `std::string` or `oatpp::String`; a `Char` stands for one byte. -/
abbrev Text := List Char

/-- What the repository calls on `oatpp::utils::parser::Caret`. A label is the position it was
put at; `labelText` is its `toString()` (or `getData()`/`getSize()`), read at the caret's
position of that later moment. -/
class Caret (κ : Type) where
  ofText : Text → κ
  getData : κ → Text
  getPosition : κ → Nat
  getErrorMessage : κ → Option String
  getCurrData : κ → Char
  labelText : κ → Nat → Text
  inc : κ → Nat → κ
  setError : κ → String → κ
  canContinue : κ → Bool
  canContinueAtChar : κ → Char → Nat → Bool × κ
  findChar : κ → Char → Bool × κ
  isAtText : κ → Text → Bool × κ

/-- The caret by its documentation: the text, the position, the error. -/
structure TextCaret where
  data : Text
  position : Nat
  error : Option String
  deriving DecidableEq, Repr

namespace TextCaret

/-- What the caret has not passed yet. -/
def rest (c : TextCaret) : Text := c.data.drop c.position

def inc (c : TextCaret) (n : Nat) : TextCaret := { c with position := c.position + n }

def setError (c : TextCaret) (msg : String) : TextCaret := { c with error := some msg }

def canContinue (c : TextCaret) : Bool := c.position < c.data.length && c.error.isNone

/-- True when the caret stands at `a` and there is no error; then `n` bytes are skipped. -/
def canContinueAtChar (c : TextCaret) (a : Char) (n : Nat) : Bool × TextCaret :=
  if c.rest.head? = some a ∧ c.error = none then (true, c.inc n) else (false, c)

/-- Moves to the first `a` from here on, or to the end when there is none. -/
def findChar (c : TextCaret) (a : Char) : Bool × TextCaret :=
  (c.rest.contains a, c.inc (c.rest.idxOf a))

/-- True when `t` is what follows; then it is skipped (the calls all pass `skipIfTrue`). -/
def isAtText (c : TextCaret) (t : Text) : Bool × TextCaret :=
  if t <+: c.rest then (true, c.inc t.length) else (false, c)

def labelText (c : TextCaret) (start : Nat) : Text := (c.data.take c.position).drop start

end TextCaret

instance : Caret TextCaret where
  ofText t := ⟨t, 0, none⟩
  getData c := c.data
  getPosition c := c.position
  getErrorMessage c := c.error
  getCurrData c := c.rest.headD '\x00'
  labelText := TextCaret.labelText
  inc := TextCaret.inc
  setError := TextCaret.setError
  canContinue := TextCaret.canContinue
  canContinueAtChar := TextCaret.canContinueAtChar
  findChar := TextCaret.findChar
  isAtText := TextCaret.isAtText

namespace Caret

variable {κ : Type} [Caret κ]

/-- What a caret shows of itself. -/
def view (c : κ) : TextCaret := ⟨getData c, getPosition c, getErrorMessage c⟩

def getDataSize (c : κ) : Nat := (getData c).length

def hasError (c : κ) : Bool := (getErrorMessage c).isSome

end Caret

open Caret in
/-- **What is relied on of oatpp's caret**: each call does to the view what the documentation
says. `getCurrData` is only promised a value inside the text. -/
class LawfulCaret (κ : Type) [Caret κ] : Prop where
  view_ofText (t : Text) : view (ofText t : κ) = ⟨t, 0, none⟩
  getCurrData_view (c : κ) : canContinue c = true → getCurrData c = getCurrData (view c)
  labelText_view (c : κ) (start : Nat) : labelText c start = (view c).labelText start
  view_inc (c : κ) (n : Nat) : view (inc c n) = (view c).inc n
  view_setError (c : κ) (msg : String) : view (setError c msg) = (view c).setError msg
  canContinue_view (c : κ) : canContinue c = (view c).canContinue
  canContinueAtChar_view (c : κ) (a : Char) (n : Nat) :
    (canContinueAtChar c a n).map id view = (view c).canContinueAtChar a n
  findChar_view (c : κ) (a : Char) : (findChar c a).map id view = (view c).findChar a
  isAtText_view (c : κ) (t : Text) : (isAtText c t).map id view = (view c).isAtText t

instance : LawfulCaret TextCaret where
  view_ofText _ := rfl
  getCurrData_view _ _ := rfl
  labelText_view _ _ := rfl
  view_inc _ _ := rfl
  view_setError _ _ := rfl
  canContinue_view _ := rfl
  canContinueAtChar_view _ _ _ := rfl
  findChar_view _ _ := rfl
  isAtText_view _ _ := rfl

end OatppSqlite
