import OatppSqlite.Mapping.ObjectRow

/-!
# The type of what is read

A value that is read carries its type, and where it is wrapped in an `Any` the type is what says
what is inside. So `deserialize` ought to return a value of the type it was asked for, null or
not. It does, through every chain of interpretations, but for one cell: a NULL that is read as a
`Blob` comes back as a null `String` (`deserialize_valueType_iff`). An `Any` that
`deserializeAny` builds is never affected, since it builds none of a NULL; one that is built for
a polymorphic field is.
-/

set_option autoImplicit false

namespace OatppSqlite.Mapping

variable {τ : Type}

/-- The classes of which there is one type. -/
inductive OneType : ClassName → Prop
  | string : OneType .string
  | any : OneType .any
  | int (k : IntKind) : OneType (.int k)
  | float32 : OneType .float32
  | float64 : OneType .float64
  | boolean : OneType .boolean
  | blob : OneType .blob

/-- **What is relied on of types**: a primitive class has one, and interpretations and enums
    return values of their own. -/
structure OwnTypes (env : TypeEnv τ) (typeResolver : TypeResolver τ) : Prop where
  one_type : ∀ c, OneType c → ∀ type, env.classId type = env.ids c → type = env.typeOf c
  interpretation : ∀ type i value, typeResolver.findInterpretation type = some i →
    (i.fromInterpretation value).valueType = type
  enumeration : ∀ type value v, env.classId type = env.ids .abstractEnum →
    (env.enumDispatcher type).fromInterpretation value false = (v, .ok) → v.valueType = type

/-- The type `deserializeAny` asks for, by the storage class of the cell. -/
def anyType (env : TypeEnv τ) : Cell → τ
  | .null => env.typeOf .any
  | .text _ => env.typeOf .string
  | .blob _ => env.typeOf .blob
  | .integer _ => env.typeOf (.int .int64)
  | .float _ => env.typeOf .float64

/-! ## The methods

Each method answers in the type that it is named after, whatever type it was asked for. That the two
are the same is a matter of the framework, which gives a class one type (`OwnTypes`). -/

section

variable {env : TypeEnv τ} {conv : Conversions} {typeResolver : TypeResolver τ}
  {classCount fuel : Nat} {call : τ → Option (Except MapError (Void τ))} {data : Cell}
  {type t : τ} {c : ClassName} {method : DeserializerMethod τ} {v null : Void τ}
  {wrapper : BitVec 64 → Void τ} {what : String}

theorem deserializeInt_valueType (hnull : null.valueType = t) (hwrap : ∀ w, (wrapper w).valueType = t)
    (h : deserializeInt null wrapper call data type = some (.ok v)) : v.valueType = t := by
  cases data with
  | null =>
    cases h
    exact hnull
  | integer w =>
    cases h
    exact hwrap w
  | float w => cases h
  | text s => cases h
  | blob s => cases h

theorem deserializeFloat_valueType (hnull : null.valueType = t)
    (hwrap : ∀ w, (wrapper w).valueType = t)
    (h : deserializeFloat conv null wrapper what call data type = some (.ok v)) :
    v.valueType = t := by
  cases data with
  | null =>
    cases h
    exact hnull
  | integer w =>
    cases h
    exact hwrap _
  | float w =>
    cases h
    exact hwrap w
  | text s => cases h
  | blob s => cases h

theorem deserializeString_valueType
    (h : deserializeString env conv call data type = some (.ok v)) :
    v.valueType = env.typeOf .string := by
  cases data <;> cases h <;> rfl

/-- The one method that does not keep to its type. -/
theorem deserializeBlob_valueType (h : deserializeBlob env conv call data type = some (.ok v)) :
    v.valueType = if data = .null then env.typeOf .string else env.typeOf .blob := by
  by_cases hdata : data = .null
  · subst hdata
    cases h
    rfl
  · rw [deserializeBlob_eq hdata] at h
    cases h
    exact (if_neg hdata).symm

/-- An `Any` wraps what the cell is read as. -/
theorem deserializeAny_eq (hdata : data ≠ .null) :
    deserializeAny env call data type = (call (anyType env data)).map
      (Except.map fun value => ⟨some (.anyHandle value), env.typeOf .any⟩) := by
  cases data with
  | null => exact absurd rfl hdata
  | integer w => rfl
  | float w => rfl
  | text s => rfl
  | blob s => rfl

theorem map_ok {α β : Type} {f : α → β} {o : Option (Except MapError α)} {b : β}
    (h : o.map (Except.map f) = some (.ok b)) : ∃ a, o = some (.ok a) ∧ f a = b := by
  obtain ⟨r, rfl, hr⟩ := Option.map_eq_some_iff.mp h
  cases r with
  | error e => cases hr
  | ok a => exact ⟨a, rfl, Except.ok.inj hr⟩

theorem deserializeAny_valueType (h : deserializeAny env call data type = some (.ok v)) :
    v.valueType = env.typeOf .any := by
  by_cases hdata : data = .null
  · subst hdata
    cases h
    rfl
  · rw [deserializeAny_eq hdata] at h
    obtain ⟨value, -, rfl⟩ := map_ok h
    rfl

/-- An enum's value is what the interpretation leads to, where it is in order. -/
theorem deserializeEnum_returned (h : deserializeEnum env call data type = some (.ok v)) :
    ∃ value, (env.enumDispatcher type).fromInterpretation value false = (v, .ok) := by
  unfold deserializeEnum at h
  dsimp only at h
  obtain ⟨r, hr, h⟩ := Option.map_eq_some_iff.mp h
  cases r with
  | error e => cases h
  | ok value =>
    dsimp only [Bind.bind, Except.bind] at h
    split at h
    · rename_i result hfrom
      cases h
      exact ⟨value, hfrom⟩
    · cases h
    · cases h

theorem deserializeIntOf_valueType {k : IntKind}
    (h : deserializeIntOf env k call data type = some (.ok v)) :
    v.valueType = env.typeOf (.int k) :=
  deserializeInt_valueType rfl (fun _ => rfl) h

/-- **Every method**: the value has the type, but for a NULL that is read as a `Blob`. -/
theorem deserializerMethods_valueType (hown : OwnTypes env typeResolver)
    (hmethod : (c, some method) ∈ deserializerMethods env conv)
    (hclass : env.classId type = env.ids c) (h : method call data type = some (.ok v)) :
    v.valueType = if c = .blob ∧ data = .null then env.typeOf .string else type := by
  have hone : ∀ {c : ClassName}, OneType c → c ≠ .blob → env.classId type = env.ids c →
      v.valueType = env.typeOf c →
      v.valueType = if c = .blob ∧ data = .null then env.typeOf .string else type := by
    intro c hc hblob hid hv
    rw [if_neg fun hb => hblob hb.1, hv]
    exact (hown.one_type c hc type hid).symm
  simp only [deserializerMethods, List.mem_cons, Prod.mk.injEq, Option.some.injEq, reduceCtorEq,
    and_false, List.not_mem_nil, or_false, false_or] at hmethod
  rcases hmethod with ⟨rfl, rfl⟩ | ⟨rfl, rfl⟩ | ⟨rfl, rfl⟩ | ⟨rfl, rfl⟩ | ⟨rfl, rfl⟩ |
    ⟨rfl, rfl⟩ | ⟨rfl, rfl⟩ | ⟨rfl, rfl⟩ | ⟨rfl, rfl⟩ | ⟨rfl, rfl⟩ | ⟨rfl, rfl⟩ | ⟨rfl, rfl⟩ |
    ⟨rfl, rfl⟩ | ⟨rfl, rfl⟩ | ⟨rfl, rfl⟩
  · exact hone .string (by simp) hclass (deserializeString_valueType h)
  · exact hone .any (by simp) hclass (deserializeAny_valueType h)
  · exact hone (.int _) (by simp) hclass (deserializeIntOf_valueType h)
  · exact hone (.int _) (by simp) hclass (deserializeIntOf_valueType h)
  · exact hone (.int _) (by simp) hclass (deserializeIntOf_valueType h)
  · exact hone (.int _) (by simp) hclass (deserializeIntOf_valueType h)
  · exact hone (.int _) (by simp) hclass (deserializeIntOf_valueType h)
  · exact hone (.int _) (by simp) hclass (deserializeIntOf_valueType h)
  · exact hone (.int _) (by simp) hclass (deserializeIntOf_valueType h)
  · exact hone (.int _) (by simp) hclass (deserializeIntOf_valueType h)
  · exact hone .float32 (by simp) hclass (deserializeFloat_valueType rfl (fun _ => rfl) h)
  · exact hone .float64 (by simp) hclass (deserializeFloat_valueType rfl (fun _ => rfl) h)
  · exact hone .boolean (by simp) hclass (deserializeInt_valueType rfl (fun _ => rfl) h)
  · obtain ⟨value, hfrom⟩ := deserializeEnum_returned h
    rw [if_neg (by simp)]
    exact hown.enumeration type value v hclass hfrom
  · rw [deserializeBlob_valueType h, hown.one_type .blob .blob type hclass]
    simp

/-- A NULL cell that is read as a type of the class of `Blob`. -/
def NullBlob (env : TypeEnv τ) (data : Cell) (type : τ) : Prop :=
  env.classId type = env.ids .blob ∧ data = .null

/-- **The type of a value that is read**, through however many interpretations. -/
theorem deserialize_valueType (henv : env.Lawful) (hown : OwnTypes env typeResolver)
    (h : deserialize env (Deserializer env conv classCount) typeResolver data fuel type
      = some (.ok v)) :
    (NullBlob env data type → v.valueType = env.typeOf .string) ∧
      (¬ NullBlob env data type → v.valueType = type) := by
  cases fuel with
  | zero => cases h
  | succ fuel =>
    unfold deserialize at h
    split at h
    · cases h
    · rename_i method hmethod
      obtain ⟨c, hmem, hid⟩ := MethodTable.mem_of_getElem?_build hmethod
      have hv := deserializerMethods_valueType hown hmem hid.symm h
      have hblob : (c = .blob ∧ data = .null) ↔ NullBlob env data type := by
        unfold NullBlob
        rw [← hid, henv.ids_injective.eq_iff]
      exact ⟨fun hnull => hv.trans (if_pos (hblob.mpr hnull)),
        fun hnull => hv.trans (if_neg (mt hblob.mp hnull))⟩
    · rename_i hnone
      split at h
      · rename_i interpretation hfind
        obtain ⟨value, -, rfl⟩ := map_ok h
        refine ⟨fun hnull => ?_, fun _ => hown.interpretation type interpretation value hfind⟩
        -- a `Blob` has a method, so it is never interpreted
        have hmem : (ClassName.blob, some (deserializeBlob env conv))
            ∈ deserializerMethods env conv := by
          simp [deserializerMethods]
        rw [hnull.1, Deserializer,
          MethodTable.getElem?_build henv.ids_injective deserializerMethods_nodup hmem] at hnone
        cases hnone
      · cases h

theorem typeOf_string_ne_blob (henv : env.Lawful) : env.typeOf .string ≠ env.typeOf .blob := by
  intro h
  have hids := congrArg env.classId h
  rw [henv.classId_typeOf, henv.classId_typeOf, henv.ids_injective.eq_iff] at hids
  cases hids

/-- **A value has the type that was asked for** exactly if it is not a NULL read as a `Blob`. -/
theorem deserialize_keeps_type_iff (henv : env.Lawful) (hown : OwnTypes env typeResolver)
    (h : deserialize env (Deserializer env conv classCount) typeResolver data fuel type
      = some (.ok v)) : v.valueType = type ↔ ¬ NullBlob env data type := by
  obtain ⟨hnull, hother⟩ := deserialize_valueType henv hown h
  constructor
  · intro hv hb
    have hstring := hnull hb
    rw [hv, hown.one_type .blob .blob type hb.1] at hstring
    exact typeOf_string_ne_blob henv hstring.symm
  · exact hother

/-! ## What is recorded in an `Any`

The type in an `Any` is the one that was asked for, and not that of the value, so the two can differ
where the value's type is not the one it was read as. -/

/-- An `Any` that `deserializeAny` builds records the type it asked for. -/
theorem deserialize_any (henv : env.Lawful) (hown : OwnTypes env typeResolver)
    (hdata : data ≠ .null)
    (h : deserialize env (Deserializer env conv classCount) typeResolver data fuel
      (env.typeOf .any) = some (.ok v)) :
    ∃ value, v = ⟨some (.anyHandle value), env.typeOf .any⟩ ∧
      value.valueType = anyType env data := by
  cases fuel with
  | zero => cases h
  | succ fuel =>
    have hmem : (ClassName.any, some (deserializeAny env)) ∈ deserializerMethods env conv := by
      simp [deserializerMethods]
    rw [deserialize_eq henv hmem (henv.classId_typeOf .any), deserializeAny_eq hdata] at h
    obtain ⟨value, hvalue, rfl⟩ := map_ok h
    have hnot : ¬ NullBlob env data (anyType env data) := fun hb => hdata hb.2
    exact ⟨value, rfl, (deserialize_keeps_type_iff henv hown hvalue).mpr hnot⟩

/-- The second pass over a row wraps what the cell is read as. -/
theorem setPolymorphs_returned {read : Cell → τ → Mapped (Void τ)} {field : Property τ}
    {selectType : Object τ → τ} {rest : List (Property τ × Cell)} {object o : Object τ}
    (hsel : field.typeSelector = some selectType)
    (h : setPolymorphs read ((field, data) :: rest) object = Mapped.returned o) :
    ∃ value, read data (selectType object) = Mapped.returned value ∧
      setPolymorphs read rest (object.set field.name ⟨some (.anyHandle value), field.type⟩)
        = Mapped.returned o := by
  unfold setPolymorphs at h
  rw [hsel] at h
  exact Mapped.bind_returned h

/-- **The type of a value that is read, and the one an `Any` records**: the type that was asked
    for, except where a NULL is read as a `Blob`. -/
theorem deserialize_valueType_iff (henv : env.Lawful) (hown : OwnTypes env typeResolver) :
    (∀ v, deserialize env (Deserializer env conv classCount) typeResolver data fuel type
        = some (.ok v) → (v.valueType = type ↔ ¬ NullBlob env data type)) ∧
    (∀ v, data ≠ .null → deserialize env (Deserializer env conv classCount) typeResolver data fuel
        (env.typeOf .any) = some (.ok v) →
      ∃ value, v = ⟨some (.anyHandle value), env.typeOf .any⟩ ∧
        value.valueType = anyType env data) ∧
    ∀ (field : Property τ) (selectType : Object τ → τ) (rest : List (Property τ × Cell))
      (object o : Object τ), field.typeSelector = some selectType →
      setPolymorphs (fun cell t =>
          deserialize env (Deserializer env conv classCount) typeResolver cell fuel t)
        ((field, data) :: rest) object = Mapped.returned o →
      ∃ value, setPolymorphs (fun cell t =>
            deserialize env (Deserializer env conv classCount) typeResolver cell fuel t)
          rest (object.set field.name ⟨some (.anyHandle value), field.type⟩)
            = Mapped.returned o ∧
        (value.valueType = selectType object ↔ ¬ NullBlob env data (selectType object)) := by
  refine ⟨fun v h => deserialize_keeps_type_iff henv hown h,
    fun v hdata h => deserialize_any henv hown hdata h, ?_⟩
  intro field selectType rest object o hsel h
  obtain ⟨value, hread, hset⟩ := setPolymorphs_returned hsel h
  exact ⟨value, hset, deserialize_keeps_type_iff henv hown hread⟩

end

theorem plainEnv_ownTypes (properties : List (Property PlainType)) :
    OwnTypes (plainEnv properties) plainResolver where
  one_type c hc type hid := by
    have hclass : type.className = c :=
      (plainEnv_lawful properties).ids_injective hid
    cases type with
    | ofClass c' => exact congrArg PlainType.ofClass hclass
    | vector item =>
      subst hclass
      cases hc
    | object =>
      subst hclass
      cases hc
  interpretation type i value h := by cases h
  enumeration type value v hid h := by
    have hclass : type.className = .abstractEnum :=
      (plainEnv_lawful properties).ids_injective hid
    cases type with
    | ofClass c' =>
      change c' = .abstractEnum at hclass
      subst hclass
      obtain ⟨ptr, valueType⟩ := value
      cases ptr with
      | none =>
        cases h
        rfl
      | some p =>
        cases p with
        | int k w => cases k <;> cases h; rfl
        | _ => cases h
    | vector item => cases hclass
    | object => cases hclass

/-- A NULL that is read as a 32-bit integer is a null of its type. -/
theorem deserialize_valueType_iff_int32 :
    ∃ v, deserialize (plainEnv []) (Deserializer (plainEnv []) plainConversions 22) plainResolver
        .null 1 (.ofClass (.int .int32)) = some (.ok v) ∧
      (v.valueType = .ofClass (.int .int32) ↔
        ¬ NullBlob (plainEnv []) .null (.ofClass (.int .int32))) :=
  have h : deserialize (plainEnv []) (Deserializer (plainEnv []) plainConversions 22)
      plainResolver .null 1 (.ofClass (.int .int32))
        = some (.ok ⟨none, .ofClass (.int .int32)⟩) := rfl
  ⟨_, h, (deserialize_valueType_iff (plainEnv_lawful []) (plainEnv_ownTypes [])).1 _ h⟩

/-- A NULL that is read as a `Blob` is a null `String`. -/
theorem deserialize_null_blob :
    ∃ v, deserialize (plainEnv []) (Deserializer (plainEnv []) plainConversions 22) plainResolver
        .null 1 (.ofClass .blob) = some (.ok v) ∧
      v.valueType ≠ .ofClass .blob :=
  ⟨⟨none, .ofClass .string⟩, rfl, by decide⟩

end OatppSqlite.Mapping
