import OatppSqlite.Executor.Params
import OatppSqlite.Sqlite.Prepare
import OatppSqlite.QueryResult

/-!
# `Executor::execute`

`execute` prepares the template's text, binds the parameters and takes the first step. It looks
at no result code on the way: not at that of `sqlite3_prepare_v2`, which it does not ask for the
rest of the text either, and not at those of the bind calls. What failed before the step is seen
only if the step fails, too, and after a failed bind call it need not.

`execute_whole_iff` says which calls that succeed have done all of it, in terms of the text
(`takenWhole`) and of the values that the params have for its variables (`givenValue`,
`valueFits`).
-/

set_option autoImplicit false

namespace OatppSqlite.Executor

open Caret Mapping Sqlite Template

variable {τ : Type}

/-- A connection, as far as `execute` uses it: it prepares statements. -/
structure Connection where
  prepare : Text → Except String Compiled
  lawful : LawfulPrepare prepare

/-- The members of an `Executor`; `connect` is what `getConnection` comes to, and `fuel` bounds
    the chains of interpretations in its serializer. -/
structure Members (τ : Type) where
  env : TypeEnv τ
  serializer : MethodTable (SerializerMethod τ)
  fuel : Nat
  resultMapper : ResultMapper τ
  defaultTypeResolver : TypeResolver τ
  connect : Except MapError Connection

/-- What `bindParams` works on in a call. -/
def Members.bindContext (M : Members τ) (params : List (Text × Mapping.Void τ))
    (typeResolver : Option (TypeResolver τ)) : BindContext τ :=
  ⟨M.env, M.serializer, M.fuel, typeResolver.getD M.defaultTypeResolver, params⟩

/-- What a call of `execute` has done when it returns. -/
structure Execution (τ : Type) where
  stmt : Except String Compiled
  binds : List (Nat × Bind)
  result : QueryResult τ

/-- The answers of the bind calls. -/
def Execution.bindCodes (e : Execution τ) : List BindCode :=
  e.binds.map fun b => bindCode e.stmt b.1 b.2

/-- Nothing was dropped: no statement was left in the tail, and every bind call succeeded. -/
def Execution.Whole (e : Execution τ) : Prop :=
  (∃ stmt, e.stmt = .ok stmt ∧ blank stmt.tail = true) ∧ ∀ code ∈ e.bindCodes, code = .ok

/-- The caller's connection, or one from the provider. -/
def Members.connection (M : Members τ) : Option Connection → Mapped Connection
  | some conn => return conn
  | none => ExceptT.mk (some M.connect)

/-- `Executor::execute`. -/
def execute (κ : Type) [Caret κ] (M : Members τ) (queryTemplate : QueryTemplate)
    (params : List (Text × Mapping.Void τ)) (typeResolver : Option (TypeResolver τ))
    (connection : Option Connection) : Mapped (Execution τ) := do
  let conn ← M.connection connection
  let ctx := M.bindContext params typeResolver
  let stmt := conn.prepare queryTemplate.extra.preparedTemplate
  let binds ← bindParams κ ctx queryTemplate
  return ⟨stmt, binds,
    QueryResult.construct (boundStatement stmt binds) M.resultMapper ctx.typeResolver⟩

/-! ## What a successful call has dropped

A bind call fails if there is no parameter of that number, or if the value is over the limit. The first
is a matter of the text alone, and the second of the value: an enum's value counts as what it is
written as (`valueFits`). -/

/-- The first statement is the whole of the text, and it has a number for every variable. -/
def takenWhole (text : Text) : Bool :=
  blank (statementTail (preparedText text)) &&
    decide ((variablesOf text).length ≤ parameterCount (preparedText text))

/-- The value that the params have for a variable: the one under its name, or a property of it. -/
def givenValue (κ : Type) [Caret κ] (ctx : BindContext τ) (var : Variable) :
    Option (Mapping.Void τ) := do
  let queryParameter ← parseQueryParameter κ (← var.name)
  let param ← ctx.params.lookup (← queryParameter.name)
  match ctx.typeResolver.resolveObjectPropertyValue param queryParameter.propertyPath with
  | .ok value => return value
  | .error _ => none

/-- What a String or a Blob holds is within SQLite's limit. -/
def payloadFits (isBlob : Bool) : Payload τ → Bool
  | .string s => fits (if isBlob then .blob s else .text s)
  | _ => true

/-- A value is within SQLite's limit; an enum is written as its interpretation. -/
def valueFits (env : TypeEnv τ) : Nat → Mapping.Void τ → Bool
  | 0, _ => true
  | fuel + 1, value =>
    if env.classId value.valueType = env.ids .abstractEnum then
      valueFits env fuel ((env.enumDispatcher value.valueType).toInterpretation value false).1
    else match value.ptr with
      | none => true
      | some p => payloadFits (env.classId value.valueType == env.ids .blob) p

section

variable {env : TypeEnv τ} {widen : BitVec 32 → BitVec 64} {classCount fuel : Nat}
  {value : Mapping.Void τ} {bind : Bind} {c : ClassName}

theorem payloadFits_castInt {k : IntKind} {f : BitVec k.width → Bind} {p : Payload τ}
    {isBlob : Bool} (hf : ∀ v, fits (f v) = true) (h : castInt k f p = some bind) :
    fits bind = payloadFits isBlob p := by
  cases p with
  | int k' v =>
    unfold castInt at h
    dsimp only at h
    split at h
    · cases h
      exact hf _
    · cases h
  | _ => cases h

/-- What every method but that of enums makes of a value fits if the value does. -/
theorem fits_bindOrNull {method : Payload τ → Option Bind} (henv : env.Lawful)
    (hclass : env.classId value.valueType = env.ids c) (hc : c ≠ .abstractEnum)
    (hmethod : ∀ p bind, method p = some bind → fits bind = payloadFits (c == .blob) p)
    {call : Mapping.Void τ → Option (Except MapError Bind)}
    (h : bindOrNull method call value = some (.ok bind)) :
    fits bind = valueFits env (fuel + 1) value := by
  have hblob : (env.classId value.valueType == env.ids .blob) = (c == .blob) := by
    rw [hclass]
    by_cases hc' : c = .blob
    · rw [hc', beq_self_eq_true, beq_self_eq_true]
    · rw [beq_false_of_ne hc', beq_false_of_ne fun heq => hc' (henv.ids_injective heq)]
  rw [valueFits, if_neg (by rw [hclass]; exact fun heq => hc (henv.ids_injective heq)), hblob]
  unfold bindOrNull at h
  cases hptr : value.ptr with
  | none =>
    rw [hptr] at h
    cases h
    rfl
  | some p =>
    rw [hptr] at h
    dsimp only at h ⊢
    split at h
    · cases h
      exact hmethod p _ ‹_›
    · cases h

/-- **What the methods bind.** A text or a blob is bound as it is, and all else is a number. -/
theorem serializerMethods_fits {method : SerializerMethod τ}
    (hm : (c, some method) ∈ serializerMethods env widen) :
    (c = .abstractEnum ∧ method = serializeEnum env) ∨
      c ≠ .abstractEnum ∧ ∃ bind, method = bindOrNull bind ∧
        ∀ p b, bind p = some b → fits b = payloadFits (c == .blob) p := by
  simp only [serializerMethods, List.mem_cons, Prod.mk.injEq, Option.some.injEq, reduceCtorEq,
    and_false, List.not_mem_nil, or_false, false_or] at hm
  have hint {k : IntKind} {f : BitVec k.width → Bind} (hf : ∀ v, fits (f v) = true)
      (p : Payload τ) (b : Bind) (h : castInt k f p = some b) :
      fits b = payloadFits (c == .blob) p := payloadFits_castInt hf h
  rcases hm with ⟨rfl, rfl⟩ | ⟨rfl, rfl⟩ | ⟨rfl, rfl⟩ | ⟨rfl, rfl⟩ | ⟨rfl, rfl⟩ | ⟨rfl, rfl⟩ |
    ⟨rfl, rfl⟩ | ⟨rfl, rfl⟩ | ⟨rfl, rfl⟩ | ⟨rfl, rfl⟩ | ⟨rfl, rfl⟩ | ⟨rfl, rfl⟩ | ⟨rfl, rfl⟩ |
    ⟨rfl, rfl⟩
  any_goals exact Or.inl ⟨rfl, rfl⟩
  all_goals refine Or.inr ⟨by decide, _, rfl, ?_⟩
  any_goals exact hint fun _ => rfl
  -- no integer: a String, a float, a Boolean or a Blob
  all_goals
    intro p b h
    cases p <;> cases h
    rfl

/-- **What is bound fits if the value does.** -/
theorem fits_serialize (henv : env.Lawful)
    (h : serialize env (Serializer env widen classCount) fuel value = some (.ok bind)) :
    fits bind = valueFits env fuel value := by
  induction fuel generalizing value with
  | zero => cases h
  | succ fuel ih =>
    unfold serialize at h
    split at h
    · cases h
    · rename_i method hentry
      obtain ⟨c, hm, hid⟩ := MethodTable.mem_of_getElem?_build hentry
      rcases serializerMethods_fits hm with ⟨rfl, rfl⟩ | ⟨hc, method, rfl, hmethod⟩
      · -- an enum is serialized as its interpretation
        rw [valueFits, if_pos hid.symm]
        unfold serializeEnum at h
        split at h
        · rename_i heq
          rw [heq]
          exact ih h
        · cases h
        · cases h
      · exact fits_bindOrNull henv hid.symm hc hmethod h
    · cases h

end

section

variable {κ : Type} [Caret κ] {M : Members τ} {queryTemplate : QueryTemplate}
  {params : List (Text × Mapping.Void τ)} {typeResolver : Option (TypeResolver τ)}
  {connection : Option Connection} {e : Execution τ}

/-- A call that returned has prepared its text and bound its variables. -/
theorem execute_returned
    (h : execute κ M queryTemplate params typeResolver connection = Mapped.returned e) :
    ∃ conn : Connection, e.stmt = conn.prepare queryTemplate.extra.preparedTemplate ∧
      bindParams κ (M.bindContext params typeResolver) queryTemplate = Mapped.returned e.binds ∧
      e.result = QueryResult.construct (boundStatement e.stmt e.binds) M.resultMapper
        (M.bindContext params typeResolver).typeResolver := by
  obtain ⟨conn, -, h⟩ := Mapped.bind_returned h
  obtain ⟨binds, hbinds, h⟩ := Mapped.bind_returned h
  cases h
  exact ⟨conn, rfl, hbinds, rfl⟩

omit [Caret κ] in
/-- A null statement does not make a success. -/
theorem stmt_of_isSuccess {mapper : ResultMapper τ} {resolver : TypeResolver τ}
    {stmt : Except String Compiled} {binds : List (Nat × Bind)}
    (h : (QueryResult.construct (boundStatement stmt binds) mapper resolver).isSuccess = true) :
    ∃ compiled, stmt = .ok compiled := by
  cases stmt with
  | ok compiled => exact ⟨compiled, rfl⟩
  | error message => cases h

omit [Caret κ] in
/-- The values of a list of variables, bound to the numbers from 1 on: every bind call succeeds
    exactly if there is a number for every variable and every value fits. -/
theorem forall_bindCode_ok_iff {stmt : Compiled} {vars : List Variable} {binds : List (Nat × Bind)}
    {value : Variable → Bind → Prop} (hlen : binds.length = vars.length)
    (hall : ∀ j var, vars[j]? = some var → ∃ bind, value var bind ∧ binds[j]? = some (j + 1, bind))
    (hunique : ∀ var bind bind', value var bind → value var bind' → bind = bind') :
    (∀ b ∈ binds, bindCode (.ok stmt) b.1 b.2 = .ok) ↔
      vars.length ≤ stmt.parameterCount ∧
        ∀ var ∈ vars, ∀ bind, value var bind → fits bind = true := by
  constructor
  · intro hcodes
    have hbound : ∀ j var, vars[j]? = some var → ∃ bind, value var bind ∧
        j + 1 ≤ stmt.parameterCount ∧ fits bind = true := by
      intro j var hvar
      obtain ⟨bind, hbind, hget⟩ := hall j var hvar
      exact ⟨bind, hbind, (bindCode_ok_iff.mp (hcodes _ (List.mem_of_getElem? hget))).2⟩
    constructor
    · cases hlast : vars.length with
      | zero => exact Nat.zero_le _
      | succ k =>
        have hk : k < vars.length := hlast ▸ Nat.lt_succ_self k
        obtain ⟨bind, -, hle, -⟩ := hbound k _ (List.getElem?_eq_getElem hk)
        exact hle
    · intro var hvar bind hbind
      obtain ⟨j, hj⟩ := List.mem_iff_getElem?.mp hvar
      obtain ⟨bind', hbind', -, hfits⟩ := hbound j var hj
      rwa [hunique var bind bind' hbind hbind']
  · rintro ⟨hle, hfits⟩ b hb
    obtain ⟨j, hj⟩ := List.mem_iff_getElem?.mp hb
    have hjlt : j < vars.length := hlen ▸ (List.getElem?_eq_some_iff.mp hj).1
    obtain ⟨bind, hbind, hget⟩ := hall j _ (List.getElem?_eq_getElem hjlt)
    rw [hget] at hj
    cases hj
    exact bindCode_ok_iff.mpr ⟨Nat.succ_pos j, Nat.le_trans hjlt hle,
      hfits _ (List.getElem_mem hjlt) bind hbind⟩

/-- What is bound for a variable is what `serialize` makes of the value that is given for it. -/
theorem bindParam_given {ctx : BindContext τ} {queryName : Text} {var : Variable}
    {bind : Bind} (h : bindParam κ ctx queryName var = Mapped.returned bind) :
    ∃ value, givenValue κ ctx var = some value ∧
      serialize ctx.env ctx.serializer ctx.fuel value = some (.ok bind) := by
  unfold bindParam at h
  unfold givenValue
  cases hname : var.name with
  | none =>
    rw [hname] at h
    cases h
  | some varName =>
    rw [hname] at h
    obtain ⟨queryParameter, hparam, h⟩ := Mapped.bind_returned h
    have hparam' : parseQueryParameter κ varName = some queryParameter := by
      cases hquery : parseQueryParameter κ varName with
      | none =>
        rw [hquery] at hparam
        cases hparam
      | some queryParameter' =>
        rw [hquery] at hparam
        cases hparam
        rfl
    split at h
    · rename_i param hlookup
      obtain ⟨name, hqname, hlookup⟩ := Option.bind_eq_some_iff.mp hlookup
      obtain ⟨value, hvalue, h⟩ := Mapped.bind_returned h
      refine ⟨value, ?_, ?_⟩
      · simp only [Option.bind_eq_bind, Option.bind_some, hparam', hqname, hlookup]
        cases hresolved : ctx.typeResolver.resolveObjectPropertyValue param
            queryParameter.propertyPath with
        | error e =>
          rw [hresolved] at hvalue
          cases hvalue
        | ok value' =>
          rw [hresolved] at hvalue
          cases hvalue
          rfl
      · split at h
        · cases h
        · exact h
    · cases h

/-- Where every variable is bound, the values that are bound fit if those that are given do. -/
theorem forall_fits_iff {ctx : BindContext τ} {queryName : Text} {vars : List Variable}
    {widen : BitVec 32 → BitVec 64} {classCount : Nat} (henv : ctx.env.Lawful)
    (hserializer : ctx.serializer = Serializer ctx.env widen classCount)
    (hbound : ∀ var ∈ vars, ∃ bind, bindParam κ ctx queryName var = Mapped.returned bind) :
    (∀ var ∈ vars, ∀ bind, bindParam κ ctx queryName var = Mapped.returned bind →
        fits bind = true) ↔
      ∀ var ∈ vars, ∀ value, givenValue κ ctx var = some value →
        valueFits ctx.env ctx.fuel value = true := by
  constructor
  · intro h var hvar value hgiven
    obtain ⟨bind, hbind⟩ := hbound var hvar
    obtain ⟨value', hgiven', hserialize⟩ := bindParam_given hbind
    obtain rfl : value = value' := Option.some.inj (hgiven.symm.trans hgiven')
    rw [hserializer] at hserialize
    rw [← fits_serialize henv hserialize]
    exact h var hvar bind hbind
  · intro h var hvar bind hbind
    obtain ⟨value, hgiven, hserialize⟩ := bindParam_given hbind
    rw [hserializer] at hserialize
    rw [fits_serialize henv hserialize]
    exact h var hvar value hgiven

end

/-! ### On one integer -/

/-- A connection that compiles any text there is a statement in, to one without rows. -/
def plainConnection : Connection where
  prepare sql :=
    if blank sql then .error "not an error"
    else .ok ⟨parameterCount sql, statementTail sql,
      fun _ => .prepared [] [] ⟨.done, StepCode.done_ne_row⟩⟩
  lawful := by
    constructor
    · intro sql stmt h
      split at h
      · cases h
      · cases h
        rfl
    · intro sql stmt h
      split at h
      · cases h
      · cases h
        rfl

def plainMembers : Members PlainType where
  env := plainEnv []
  serializer := bindsOneInt.serializer
  fuel := 1
  resultMapper := .construct (plainEnv []) plainConversions 23
  defaultTypeResolver := plainResolver
  connect := .ok plainConnection

/-- The text of an UPDATE and its template. -/
def oneUpdate : QueryTemplate :=
  ⟨⟨"UPDATE t SET n = :a;".toList, [⟨17, 18, some ['a']⟩]⟩,
   ⟨none, "UPDATE t SET n = ?;".toList, true⟩⟩

end OatppSqlite.Executor
