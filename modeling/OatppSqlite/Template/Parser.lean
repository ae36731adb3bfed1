import OatppSqlite.Lib.Loop
import OatppSqlite.Caret

/-!
# `ql_template/Parser.cpp`

The template parser, function by function. `preprocess` erases the clean-section markers and
records where the sections went; `parseTemplate` then walks the erased text a second time and
collects the variables, jumping over a section whenever the caret stands exactly at the
position recorded for the next one.

Each C++ loop is a named body run by `Loop.run`; its bound is the number of bytes ahead of the
caret (for `parseTemplate` also the number of sections), plus one for the pass that leaves.
`none` means a loop ran out of passes. It never does (`Template/Literal.lean`,
`Template/Preprocess.lean`, `Template/SecondPass.lean`).
-/

set_option autoImplicit false

namespace OatppSqlite.Template

open Caret

/-- `Parser::CleanSection`. -/
structure CleanSection where
  position : Nat
  size : Nat
  deriving DecidableEq, Repr

/-- oatpp's `StringTemplate::Variable`; `posEnd` is inclusive, and `name` is a null string
    when there is no identifier. -/
structure Variable where
  posStart : Nat
  posEnd : Nat
  name : Option Text
  deriving DecidableEq, Repr

/-- oatpp's `StringTemplate`: the text and the variables in it. -/
structure StringTemplate where
  text : Text
  templateVariables : List Variable
  deriving DecidableEq, Repr

/-- oatpp's `ParsingError`; the error code the parser passes on is always 0. -/
structure ParsingError where
  message : Option String
  position : Nat
  deriving DecidableEq, Repr

variable {κ : Type} [Caret κ]

/-- The bytes ahead of the caret, plus one. -/
def passes (c : κ) : Nat := getDataSize c - getPosition c + 1

def isAllowedChar (a : Char) : Bool :=
  (a ≥ 'a' && a ≤ 'z') || (a ≥ 'A' && a ≤ 'Z') || (a ≥ '0' && a ≤ '9') || a == '_' || a == '.'

/-! ## The three scanners -/

/-- The `while` of `parseIdentifier`, after the `:`. `posStart` and `label` were set before it;
    both ways out compute `posEnd` the same way. -/
def parseIdentifierBody (posStart label : Nat) (caret : κ) :
    Option (Loop.Step κ (Variable × κ)) :=
  if canContinue caret then
    let a := getCurrData caret
    if !isAllowedChar a then
      some (.exit (⟨posStart, getPosition caret - 1, some (labelText caret label)⟩, caret))
    else
      some (.next (inc caret 1))
  else
    some (.exit (⟨posStart, getPosition caret - 1, some (labelText caret label)⟩, caret))

def parseIdentifier (caret : κ) : Option (Variable × κ) :=
  let posStart := getPosition caret
  match canContinueAtChar caret ':' 1 with
  | (true, caret) =>
    let label := getPosition caret
    Loop.run (parseIdentifierBody posStart label) (passes caret) caret
  | (false, caret) =>
    let caret := setError caret "Invalid identifier"
    some (⟨posStart, getPosition caret - 1, none⟩, caret)

/-- The `while` of `skipStringInQuotes`; the state is the flag `opened` and the caret. -/
def skipStringInQuotesBody (s : Bool × κ) : Option (Loop.Step (Bool × κ) (Bool × κ)) :=
  match canContinueAtChar s.2 '\'' 1 with
  | (true, caret) =>
    match findChar caret '\'' with
    | (true, caret) => some (.next (false, inc caret 1))
    | (false, caret) => some (.next (true, caret))
  | (false, caret) => some (.exit (s.1, caret))

def skipStringInQuotes (caret : κ) : Option κ := do
  let (opened, caret) ← Loop.run skipStringInQuotesBody (passes caret) (false, caret)
  if opened then
    return setError caret "Invalid quote-enclosed string"
  else
    return caret

/-- The `while` of `skipStringInDollars`; leaving it with `true` is the `return` from inside. -/
def skipStringInDollarsBody (term : Text) (caret : κ) : Option (Loop.Step κ (Bool × κ)) :=
  if canContinue caret then
    match findChar caret '$' with
    | (true, caret) =>
      match isAtText (inc caret 1) term with
      | (true, caret) => some (.exit (true, caret))
      | (false, caret) => some (.next caret)
    | (false, caret) => some (.next caret)
  else
    some (.exit (false, caret))

def skipStringInDollars (caret : κ) : Option κ :=
  match canContinueAtChar caret '$' 1 with
  | (true, caret) =>
    let label := getPosition caret
    match findChar caret '$' with
    | (false, caret) => some (setError caret "Invalid dollar-enclosed string")
    | (true, caret) => do
      let caret := inc caret 1
      let term := labelText caret label
      let (closed, caret) ← Loop.run (skipStringInDollarsBody term) (passes caret) caret
      if closed then
        return caret
      else
        return setError caret "Invalid dollar-enclosed string"
  | (false, caret) => some (setError caret "Invalid dollar-enclosed string")

/-! ## `Parser::preprocess` -/

/-- The locals of `preprocess`: the output stream `ss`, the caret, the start of the section
    that is open (`-1`, here `none`, when there is none) and the out parameter. -/
structure PreprocessState (κ : Type) where
  ss : Text
  caret : κ
  sectionStart : Option Nat
  cleanSections : List CleanSection

/-- `caret.inc()` with `writeChar` left true. -/
def PreprocessState.plain (s : PreprocessState κ) (c : Char) : PreprocessState κ :=
  { s with ss := s.ss ++ [c], caret := inc s.caret 1 }

/-- A string is copied as a whole: what the caret passed since the label. -/
def PreprocessState.copied (s : PreprocessState κ) (caret : κ) : PreprocessState κ :=
  { s with ss := s.ss ++ labelText caret (getPosition s.caret), caret }

def preprocessBody (s : PreprocessState κ) :
    Option (Loop.Step (PreprocessState κ) (Text × List CleanSection)) :=
  if canContinue s.caret then
    match getCurrData s.caret with
    | '\'' => do return .next (s.copied (← skipStringInQuotes s.caret))
    | '$' => do return .next (s.copied (← skipStringInDollars s.caret))
    | '<' =>
      match s.sectionStart with
      | none =>
        match isAtText s.caret ['<', '!', '!'] with
        | (true, caret) => some (.next { s with caret, sectionStart := some s.ss.length })
        | (false, _) => some (.next (s.plain '<'))
      | some _ => some (.next (s.plain '<'))
    | '!' =>
      match s.sectionStart with
      | some start =>
        match isAtText s.caret ['!', '!', '>'] with
        | (true, caret) =>
          some (.next { s with
            caret, sectionStart := none
            cleanSections := s.cleanSections ++ [⟨start, s.ss.length - start⟩] })
        | (false, _) => some (.next (s.plain '!'))
      | none => some (.next (s.plain '!'))
    | c => some (.next (s.plain c))
  else
    -- the error the caret may carry is dropped: only the text and the sections are returned
    some (.exit (s.ss, s.cleanSections))

variable (κ) in
def preprocess (text : Text) : Option (Text × List CleanSection) :=
  let caret : κ := ofText text
  Loop.run preprocessBody (passes caret) ⟨[], caret, none, []⟩

/-! ## `Parser::parseTemplate` -/

/-- The locals of `parseTemplate`'s loop (`vars` is `variables`, a reserved word here). -/
structure ParseState (κ : Type) where
  caret : κ
  vars : List Variable
  currSection : Nat

def parseTemplateBody (cleanSections : List CleanSection) (s : ParseState κ) :
    Option (Loop.Step (ParseState κ) (ParseState κ)) :=
  if canContinue s.caret then
    match cleanSections[s.currSection]? with
    | some sec =>
      if sec.position = getPosition s.caret then
        some (.next { s with
          caret := inc s.caret sec.size, currSection := s.currSection + 1 })
      else scan s
    | none => scan s
  else
    some (.exit s)
where
  /-- The `switch` on the current byte. -/
  scan (s : ParseState κ) : Option (Loop.Step (ParseState κ) (ParseState κ)) :=
    match getCurrData s.caret with
    | ':' => do
      let (var, caret) ← parseIdentifier s.caret
      if var.name.isSome then
        return .next { s with caret, vars := s.vars ++ [var] }
      else
        return .next { s with caret }
    | '\'' => do return .next { s with caret := (← skipStringInQuotes s.caret) }
    | '$' => do return .next { s with caret := (← skipStringInDollars s.caret) }
    | _ => some (.next { s with caret := inc s.caret 1 })

variable (κ) in
/-- `Parser::parseTemplate`: the template, or the `ParsingError` it throws. -/
def parseTemplate (text : Text) : Option (Except ParsingError StringTemplate) := do
  let (processedText, cleanSections) ← preprocess κ text
  let caret : κ := ofText processedText
  let s ← Loop.run (parseTemplateBody cleanSections)
    (passes caret + cleanSections.length) ⟨caret, [], 0⟩
  if hasError s.caret then
    return .error ⟨getErrorMessage s.caret, getPosition s.caret⟩
  else
    return .ok ⟨processedText, s.vars⟩

end OatppSqlite.Template
