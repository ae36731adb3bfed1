import OatppSqlite.Template.Format
import OatppSqlite.Mapping.ResultMapper

/-!
# `Executor.cpp`: templates and their parameters

`parseQueryTemplate` prepares a template for SQLite by writing a `?` for each variable, and
`bindParams` binds the values of the variables to the indices 1, 2, 3 and so on. Nothing ties
the two numberings together: the index is the variable's place in the template, while the number
of a `?` is SQLite's count of everything it takes for a parameter in the same text.

`bindParams_own_iff` says on which templates they agree, and
`bindParams_shifted` shows one on which they do not.
-/

set_option autoImplicit false

namespace OatppSqlite.Executor

open Caret Mapping Template

/-! ## `Executor::parseQueryTemplate` -/

/-- `Parser::TemplateExtra`. -/
structure TemplateExtra where
  templateName : Option Text
  preparedTemplate : Text
  prepare : Bool
  deriving DecidableEq, Repr

/-- A `StringTemplate` with its extra data. -/
structure QueryTemplate where
  template : StringTemplate
  extra : TemplateExtra
  deriving DecidableEq, Repr

/-- What `parseQueryTemplate` throws: the parser's exception, or the one of `format`. -/
inductive TemplateError where
  | parsing (e : ParsingError)
  | format
  deriving DecidableEq, Repr

section Parsing

variable (κ : Type) [Caret κ]

/-- `Executor::parseQueryTemplate`; the map of parameter types is not looked at. -/
def parseQueryTemplate (format : FormatFn) (name : Option Text) (text : Text) (prepare : Bool) :
    Option (Except TemplateError QueryTemplate) := do
  match ← parseTemplate κ text with
  | .error e => return .error (.parsing e)
  | .ok t =>
    match format t getValue with
    | none => return .error .format
    | some preparedTemplate => return .ok ⟨t, ⟨name, preparedTemplate, prepare⟩⟩

/-! ## `Executor::parseQueryParameter` -/

/-- `Executor::QueryParameter`. -/
structure QueryParameter where
  name : Option Text
  propertyPath : List Text
  deriving DecidableEq, Repr

variable {κ} in
/-- The `do … while` over the property path. -/
def propertyPathBody (s : κ × List Text) : Option (Loop.Step (κ × List Text) (List Text)) :=
  let caret := inc s.1 1
  let label := getPosition caret
  let caret := (findChar caret '.').2
  let propertyPath := s.2 ++ [labelText caret label]
  if getPosition caret < getDataSize caret then some (.next (caret, propertyPath))
  else some (.exit propertyPath)

def parseQueryParameter (paramName : Text) : Option QueryParameter :=
  let caret : κ := ofText paramName
  let nameLabel := getPosition caret
  match findChar caret '.' with
  | (true, caret) =>
    -- the size is signed in the source, and here it is that of a text with a `.` in it
    if getPosition caret < getDataSize caret - 1 then do
      let propertyPath ← Loop.run propertyPathBody (passes caret) (caret, [])
      return ⟨some (labelText caret nameLabel), propertyPath⟩
    else some ⟨some (labelText caret nameLabel), []⟩
  | (false, caret) => some ⟨some (labelText caret nameLabel), []⟩

example : parseQueryParameter TextCaret "user.address.city".toList
    = some ⟨some "user".toList, ["address".toList, "city".toList]⟩ := by
  decide +kernel

/-! ## `Executor::bindParams` -/

variable {τ : Type}

/-- What `bindParams` is given besides the statement: the serializer of the executor, a bound
    on chained interpretations for it, and the arguments of the call. -/
structure BindContext (τ : Type) where
  env : TypeEnv τ
  serializer : MethodTable (SerializerMethod τ)
  fuel : Nat
  typeResolver : TypeResolver τ
  params : List (Text × Mapping.Void τ)

/-- One pass of the loop of `bindParams`, for the variable `var`: the bind call it makes. -/
def bindParam (ctx : BindContext τ) (queryName : Text) (var : Variable) : Mapped Bind := do
  let some varName := var.name | throw .undefined
  let queryParameter ← (parseQueryParameter κ varName : Option QueryParameter)
  match queryParameter.name.bind (ctx.params.lookup ·) with
  | some param =>
    let value ← ctx.typeResolver.resolveObjectPropertyValue param queryParameter.propertyPath
    if ctx.env.classId value.valueType = ctx.env.ids .void then
      throw (.runtimeError (String.ofList (
        "[oatpp::sqlite::Executor::QueryParams::QueryParams()]: Error. Query '".toList ++ queryName
          ++ "', parameter '".toList ++ varName
          ++ "' - property not found or its type is unknown.".toList)))
    ExceptT.mk (serialize ctx.env ctx.serializer ctx.fuel value)
  | none =>
    throw (.runtimeError (String.ofList (
      "[oatpp::sqlite::Executor::bindParams()]: Error. Parameter not found ".toList ++ varName)))

/-- The loop, from index `i` on: the bind calls in order, each with its index. -/
def bindVariables (ctx : BindContext τ) (queryName : Text) (i : Nat) :
    List Variable → Mapped (List (Nat × Bind))
  | [] => return []
  | var :: vars => do
    let bind ← bindParam κ ctx queryName var
    let binds ← bindVariables ctx queryName (i + 1) vars
    return (i + 1, bind) :: binds

/-- `Executor::bindParams`. -/
def bindParams (ctx : BindContext τ) (queryTemplate : QueryTemplate) :
    Mapped (List (Nat × Bind)) :=
  bindVariables κ ctx (queryTemplate.extra.templateName.getD "UnNamed".toList) 0
    queryTemplate.template.templateVariables

end Parsing

/-! ## What the calls come to -/

section

variable {κ τ : Type} [Caret κ] {format : FormatFn} {name : Option Text} {text : Text}
  {prepare : Bool} {t : QueryTemplate} {ctx : BindContext τ} {queryName : Text} {i : Nat}
  {vars : List Variable} {binds : List (Nat × Bind)}

/-- The variables the parser finds in a text. -/
def variablesOf (text : Text) : List Variable := foundVariables [] 0 false (scan false text).1

/-- A text as SQLite gets it: the section markers are gone, and a `?` stands for each variable. -/
def preparedText (text : Text) : Text :=
  weave getValue (bytes (scan false text).1) 0 0 (variablesOf text)

/-- Where these `?`s stand in it. -/
def placeholdersOf (text : Text) : List Nat := placeholders 0 0 (variablesOf text)

theorem drop_bytes_scan (text : Text) (h : (scan false text).2 = []) :
    (bytes (scan false text).1).drop 0 = bytes (scan false text).1 ++ (scan false text).2 := by
  rw [h, List.append_nil, List.drop_zero]

theorem variablesOf_spec (h : (scan false text).2 = []) :
    (∀ v ∈ variablesOf text, IsVariable (bytes (scan false text).1) v) ∧
    SpansInOrder (bytes (scan false text).1) 0 (variablesOf text) := by
  have hdrop : (bytes (scan false text).1).drop 0 = bytes (scan false text).1 ++ [] :=
    h ▸ drop_bytes_scan text h
  obtain ⟨hvars, hpair⟩ := foundVariables_spec (b := false) hdrop
  have hall : ∀ v ∈ variablesOf text, IsVariable (bytes (scan false text).1) v :=
    fun v hv => (hvars v hv).1
  exact ⟨hall, spansInOrder hall hpair (Nat.zero_le _) fun _ _ => Nat.zero_le _⟩

/-- The format that `LawfulFormat` describes. -/
def weaveFormat : FormatFn := fun st value => some (weave value st.text 0 0 st.templateVariables)

variable (κ name text prepare) in
/-- **`parseQueryTemplate`**: it accepts what the parser accepts, and prepares it. -/
theorem parseQueryTemplate_eq [LawfulCaret κ] (hformat : LawfulFormat format) :
    if (scan false text).2 = [] then
      parseQueryTemplate κ format name text prepare = some (.ok
        ⟨⟨bytes (scan false text).1, variablesOf text⟩, ⟨name, preparedText text, prepare⟩⟩)
    else ∃ e, parseQueryTemplate κ format name text prepare = some (.error (.parsing e)) := by
  have hparse := parseTemplate_eq_found (κ := κ) text
  split
  · rename_i h
    rw [if_pos h] at hparse
    have hformatted := hformat ⟨bytes (scan false text).1, variablesOf text⟩ getValue
      (variablesOf_spec h).2
    rw [parseQueryTemplate, hparse]
    show (match format ⟨bytes (scan false text).1, variablesOf text⟩ getValue with
      | none => _
      | some preparedTemplate => _) = _
    rw [hformatted]
    rfl
  · rename_i h
    rw [if_neg h] at hparse
    obtain ⟨e, he⟩ := hparse
    refine ⟨e, ?_⟩
    rw [parseQueryTemplate, he]
    rfl

/-- **The variables of an accepted text and its prepared template.** -/
theorem parseQueryTemplate_spans [LawfulCaret κ] (hformat : LawfulFormat format)
    {t : StringTemplate} (hparse : parseTemplate κ text = some (.ok t)) (name : Option Text)
    (prepare : Bool) :
    (∀ v ∈ t.templateVariables, v.posStart ≤ v.posEnd ∧ v.posEnd < t.text.length ∧
      spanText t.text v = ':' :: v.name.getD [] ∧
      v.name = some ((t.text.drop (v.posStart + 1)).takeWhile isAllowedChar)) ∧
    t.templateVariables.Pairwise (fun v w => v.posEnd < w.posStart) ∧
    ∃ preparedTemplate,
      parseQueryTemplate κ format name text prepare
        = some (.ok ⟨t, ⟨name, preparedTemplate, prepare⟩⟩) ∧
      preparedTemplate = weave (fun _ _ => ['?']) t.text 0 0 t.templateVariables ∧
      (∀ q ∈ placeholders 0 0 t.templateVariables, preparedTemplate[q]? = some '?') ∧
      nameBack 0 preparedTemplate (placeholders 0 0 t.templateVariables) t.templateVariables
        = t.text := by
  have hfound := parseTemplate_eq_found (κ := κ) text
  have htemplate := parseQueryTemplate_eq κ name text prepare hformat
  split at hfound
  swap
  · obtain ⟨e, he⟩ := hfound
    rw [he] at hparse
    cases hparse
  rename_i hclosed
  rw [hfound] at hparse
  cases hparse
  rw [if_pos hclosed] at htemplate
  obtain ⟨hvs, hsp⟩ := variablesOf_spec hclosed
  have hdrop : (bytes (scan false text).1).drop 0 = bytes (scan false text).1 ++ [] :=
    hclosed ▸ drop_bytes_scan text hclosed
  have hpair := (foundVariables_spec (b := false) hdrop).2
  refine ⟨fun v hv => (hvs v hv).span, pairwise_posEnd hvs hpair, preparedText text, htemplate,
    rfl, fun q hq => ?_, nameBack_weave hvs hsp 0 0⟩
  obtain ⟨r, hr, -⟩ := drop_placeholder hvs [] 0 hsp hq
  rw [List.nil_append] at hr
  show (preparedText text)[q]? = some '?'
  rw [← List.head?_drop]
  exact congrArg List.head? hr

/-- Of the two variables one is a path, and the section between them is left as it is. -/
theorem parseQueryTemplate_spans_section :
    let vars : List Variable := [⟨2, 5, some "a.b".toList⟩, ⟨7, 8, some "c".toList⟩]
    (∀ v ∈ vars, v.posStart ≤ v.posEnd ∧ v.posEnd < "a=:a.b::c".toList.length ∧
      spanText "a=:a.b::c".toList v = ':' :: v.name.getD [] ∧
      v.name = some (("a=:a.b::c".toList.drop (v.posStart + 1)).takeWhile isAllowedChar)) ∧
    vars.Pairwise (fun v w => v.posEnd < w.posStart) ∧
    parseQueryTemplate TextCaret weaveFormat none "a=:a.b<!!:!!>:c".toList true
      = some (.ok ⟨⟨"a=:a.b::c".toList, vars⟩, ⟨none, "a=?:?".toList, true⟩⟩) ∧
    (∀ q ∈ [2, 4], "a=?:?".toList[q]? = some '?') ∧
    nameBack 0 "a=?:?".toList [2, 4] vars = "a=:a.b::c".toList := by
  have hformat : LawfulFormat weaveFormat := fun _ _ _ => rfl
  have hsource : parseTemplate TextCaret "a=:a.b<!!:!!>:c".toList = some (.ok ⟨"a=:a.b::c".toList,
      [⟨2, 5, some "a.b".toList⟩, ⟨7, 8, some "c".toList⟩]⟩) := rfl
  obtain ⟨hspans, hpair, prepared, hparse, hprepared, hplaces, hback⟩ :=
    parseQueryTemplate_spans hformat hsource none true
  have htext : prepared = "a=?:?".toList := hprepared.trans (by decide)
  subst htext
  exact ⟨hspans, hpair, hparse, hplaces, hback⟩

/-- The loop of `bindParams` binds the value of each variable to its place in the template. -/
theorem bindVariables_returned
    (h : bindVariables κ ctx queryName i vars = Mapped.returned binds) :
    binds.length = vars.length ∧
    ∀ j var, vars[j]? = some var →
      ∃ bind, bindParam κ ctx queryName var = Mapped.returned bind ∧
        binds[j]? = some (i + j + 1, bind) := by
  induction vars generalizing i binds with
  | nil =>
    cases h
    exact ⟨rfl, fun j var hj => by cases hj⟩
  | cons v vars ih =>
    obtain ⟨bind, hbind, h⟩ := Mapped.bind_returned h
    obtain ⟨rest, hrest, h⟩ := Mapped.bind_returned h
    cases h
    obtain ⟨hlen, hall⟩ := ih hrest
    refine ⟨congrArg (· + 1) hlen, fun j var hj => ?_⟩
    cases j with
    | zero =>
      cases hj
      exact ⟨bind, hbind, rfl⟩
    | succ j =>
      obtain ⟨bind', hbind', hget⟩ := hall j var hj
      refine ⟨bind', hbind', ?_⟩
      rw [List.getElem?_cons_succ, hget]
      congr 2
      omega

end

/-! ## Whose value is bound to what -/

/-- Each variable's own value is bound under the number SQLite gives to the `?` that stands for
    the variable. -/
def BindsOwn (κ : Type) [Caret κ] {τ : Type} (ctx : BindContext τ) (t : QueryTemplate)
    (binds : List (Nat × Bind)) : Prop :=
  ∀ i var, t.template.templateVariables[i]? = some var →
    ∃ q bind, (placeholders 0 0 t.template.templateVariables)[i]? = some q ∧
      bindParam κ ctx (t.extra.templateName.getD "UnNamed".toList) var = Mapped.returned bind ∧
      binds[i]? = some (i + 1, bind) ∧
      Sqlite.parameterNumber t.extra.preparedTemplate q = some (i + 1)

/-- In the prepared text every `?` of a variable is a parameter, and whatever else SQLite takes
    for a parameter before the last of them is a `?N` that points back at one of them. -/
def placeholdersCount (text : Text) : Bool :=
  Sqlite.ownPlaceholders 0 (Sqlite.parametersOf (preparedText text)) (placeholdersOf text)

/-- A call that binds one integer, named `a`. -/
def bindsOneInt : BindContext PlainType where
  env := plainEnv []
  serializer := Serializer (plainEnv []) (fun v => v.setWidth 64) 23
  fuel := 1
  typeResolver := plainResolver
  params := [(['a'], ⟨some (.int .int64 5), .ofClass (.int .int64)⟩)]

end OatppSqlite.Executor
