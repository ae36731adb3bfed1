import OatppSqlite.Mapping.ResultMapper
import OatppSqlite.Mapping.Integers

/-!
# Writing a value and reading it back

What the serializer binds, the deserializer reads back, type by type: first the classes of plain
values (`serialize_plain`), then enums, which go through the class they are interpreted as
(`serialize_enum`). The type of what comes back is the class's own, except that a null `Blob`
comes back as a null `String`; what it points to is what was written.

Floating-point numbers are not among them: what a `Float32` comes back as is up to the platform's
conversions, and `Mapping.Copies` says what is relied on there.
-/

set_option autoImplicit false

namespace OatppSqlite.Mapping

variable {τ : Type}

/-! ## Integers -/

/-- The eight integer methods are one. -/
theorem mem_serializerMethods_int {env : TypeEnv τ} {widen : BitVec 32 → BitVec 64} (k : IntKind) :
    (.int k, some (bindOrNull (castInt k (bindInt k)))) ∈ serializerMethods env widen := by
  cases k <;>
    simp [serializerMethods, serializeInt8, serializeUInt8, serializeInt16, serializeUInt16,
      serializeInt32, serializeUInt32, serializeInt64, serializeUInt64] <;>
    rfl

theorem mem_deserializerMethods_int {env : TypeEnv τ} {conv : Conversions} (k : IntKind) :
    (.int k, some (deserializeIntOf env k)) ∈ deserializerMethods env conv := by
  cases k <;> simp [deserializerMethods]

/-! ## Plain values

Each class has one method on either side, and the two meet at the cell. So a class is done when its
two methods are looked up and run on its value (`readsBack_of_methods`); neither goes on to another
type. -/

/-- The classes whose values are bound as they are. -/
inductive PlainClass : ClassName → Prop
  | string : PlainClass .string
  | blob : PlainClass .blob
  | boolean : PlainClass .boolean
  | int (k : IntKind) : PlainClass (.int k)

/-- What a pointer of such a class points to. -/
inductive PlainValue : ClassName → Payload τ → Prop
  | string (s : Text) : PlainValue .string (.string s)
  | blob (s : Text) : PlainValue .blob (.string s)
  | boolean (b : Bool) : PlainValue .boolean (.boolean b)
  | int (k : IntKind) (v : BitVec k.width) : PlainValue (.int k) (.int k v)

section

variable {env : TypeEnv τ} {widen : BitVec 32 → BitVec 64} {conv : Conversions}
  {classCount classCount' n m : Nat} {typeResolver : TypeResolver τ} {v : Void τ} {type : τ}
  {c : ClassName}

/-- A value that `serialize` binds, and that `deserialize` reads back from the stored cell as
    the given value. -/
def ReadsBack (env : TypeEnv τ) (widen : BitVec 32 → BitVec 64) (conv : Conversions)
    (classCount classCount' : Nat) (typeResolver : TypeResolver τ) (n m : Nat) (v : Void τ)
    (type : τ) (v' : Void τ) : Prop :=
  ∃ b, serialize env (Serializer env widen classCount) n v = some (.ok b) ∧
    deserialize env (Deserializer env conv classCount') typeResolver b.cell m type
      = some (.ok v')

/-- The two methods of a class, and what they make of a value between them. -/
theorem readsBack_of_methods (henv : env.Lawful) (method : SerializerMethod τ)
    (method' : DeserializerMethod τ) (b : Bind) {v' : Void τ}
    (hm : (c, some method) ∈ serializerMethods env widen)
    (hm' : (c, some method') ∈ deserializerMethods env conv)
    (hv : env.classId v.valueType = env.ids c) (htype : env.classId type = env.ids c)
    (hwrite : ∀ call, method call v = some (.ok b))
    (hread : ∀ call, method' call b.cell type = some (.ok v')) :
    ReadsBack env widen conv classCount classCount' typeResolver (n + 1) (m + 1) v type v' :=
  ⟨b, by rw [serialize_eq henv hm hv, hwrite], by rw [deserialize_eq henv hm' htype, hread]⟩

/-- The type of what is read. -/
def readType (env : TypeEnv τ) (c : ClassName) (ptr : Option (Payload τ)) : τ :=
  if c = .blob ∧ ptr.isNone then env.typeOf .string else env.typeOf c

/-- **Plain values read back.** -/
theorem serialize_plain (henv : env.Lawful) (hc : PlainClass c)
    (hv : env.classId v.valueType = env.ids c) (htype : env.classId type = env.ids c)
    (hptr : ∀ p, v.ptr = some p → PlainValue c p) :
    ReadsBack env widen conv classCount classCount' typeResolver (n + 1) (m + 1) v type
      ⟨v.ptr, readType env c v.ptr⟩ := by
  obtain ⟨ptr, valueType⟩ := v
  dsimp only at hv hptr
  cases hc with
  | string =>
    cases ptr with
    | none =>
      exact readsBack_of_methods henv serializeString (deserializeString env conv) .null
        (by simp [serializerMethods]) (by simp [deserializerMethods]) hv htype
        (fun _ => rfl) (fun _ => rfl)
    | some p =>
      cases hptr p rfl with
      | string s =>
        exact readsBack_of_methods henv serializeString (deserializeString env conv) (.text s)
          (by simp [serializerMethods]) (by simp [deserializerMethods]) hv htype
          (fun _ => rfl) (fun _ => rfl)
  | blob =>
    cases ptr with
    | none =>
      exact readsBack_of_methods henv serializeBlob (deserializeBlob env conv) .null
        (by simp [serializerMethods]) (by simp [deserializerMethods]) hv htype
        (fun _ => rfl) (fun _ => rfl)
    | some p =>
      cases hptr p rfl with
      | blob s =>
        exact readsBack_of_methods henv serializeBlob (deserializeBlob env conv) (.blob s)
          (by simp [serializerMethods]) (by simp [deserializerMethods]) hv htype
          (fun _ => rfl) (fun call => deserializeBlob_eq (by simp [Bind.cell]) call type)
  | boolean =>
    cases ptr with
    | none =>
      exact readsBack_of_methods henv serializeBoolean (deserializeBoolean env) .null
        (by simp [serializerMethods]) (by simp [deserializerMethods]) hv htype
        (fun _ => rfl) (fun _ => rfl)
    | some p =>
      cases hptr p rfl with
      | boolean b =>
        exact readsBack_of_methods henv serializeBoolean (deserializeBoolean env)
          (.int (if b then 1 else 0))
          (by simp [serializerMethods]) (by simp [deserializerMethods]) hv htype
          (fun _ => rfl) (fun _ => by cases b <;> rfl)
  | int k =>
    cases ptr with
    | none =>
      exact readsBack_of_methods henv _ _ .null (mem_serializerMethods_int k)
        (mem_deserializerMethods_int k) hv htype (fun _ => rfl) (fun _ => rfl)
    | some p =>
      cases hptr p rfl with
      | int k v =>
        -- the cell is wider than the wrapper, and cutting it gives the value back
        obtain ⟨w, hcell, hw⟩ := cell_bindInt k v
        refine readsBack_of_methods henv _ _ (bindInt k v) (mem_serializerMethods_int k)
          (mem_deserializerMethods_int k) hv htype (fun _ => ?_) (fun _ => ?_)
        · simp [bindOrNull, castInt]
        · rw [hcell]
          show some (Except.ok (intWrapper env k w)) = _
          rw [intWrapper, hw]
          rfl

/-! ## Enums -/

/-- What is relied on of an enum, at a value of it: it is interpreted as a value of one of the
    framework's own types, and the interpretation leads back to it. -/
structure EnumValue (env : TypeEnv τ) (v : Void τ) : Prop where
  isEnum : env.classId v.valueType = env.ids .abstractEnum
  inverse : ∃ c w v', PlainClass c ∧ c ≠ .blob ∧
    (env.enumDispatcher v.valueType).interpretationType = env.typeOf c ∧
    (env.enumDispatcher v.valueType).toInterpretation v false = (w, .ok) ∧
    w.valueType = env.typeOf c ∧ (∀ p, w.ptr = some p → PlainValue c p) ∧
    (env.enumDispatcher v.valueType).fromInterpretation w false = (v', .ok) ∧ v'.ptr = v.ptr

/-- What an enum is read as, where its interpretation leads back. -/
theorem deserializeEnum_ok {read : τ → Option (Except MapError (Void τ))} {data : Cell}
    {w v' : Void τ}
    (hread : read (env.enumDispatcher type).interpretationType = some (.ok w))
    (hfrom : (env.enumDispatcher type).fromInterpretation w false = (v', .ok)) :
    deserializeEnum env read data type = some (.ok v') := by
  unfold deserializeEnum
  dsimp only
  rw [hread, Option.map_some]
  dsimp only [Bind.bind, Except.bind]
  rw [hfrom]

/-- **Enum values read back**, through the class they are interpreted as. -/
theorem serialize_enum (henv : env.Lawful) (hv : EnumValue env v) :
    ∃ v', v'.ptr = v.ptr ∧ ReadsBack env widen conv classCount classCount' typeResolver (n + 2)
      (m + 2) v v.valueType v' := by
  obtain ⟨hclass, c, w, v', hc, hblob, htype, hto, hw, hptr, hfrom, hv'⟩ := hv
  have hid : env.classId w.valueType = env.ids c := by rw [hw, henv.classId_typeOf]
  have hplain : ReadsBack env widen conv classCount classCount' typeResolver (n + 1) (m + 1) w
      (env.typeOf c) ⟨w.ptr, readType env c w.ptr⟩ :=
    serialize_plain henv hc hid (henv.classId_typeOf c) hptr
  obtain ⟨b, hwrite, hread⟩ := hplain
  -- the interpreter is given what it had made, type and all
  have hsame : (⟨w.ptr, readType env c w.ptr⟩ : Void τ) = w := by
    rw [readType, if_neg (fun h => hblob h.1), ← hw]
  rw [hsame] at hread
  refine ⟨v', hv', b, ?_, ?_⟩
  · have hmethod : (.abstractEnum, some (serializeEnum env)) ∈ serializerMethods env widen := by
      simp [serializerMethods]
    rw [serialize_eq henv hmethod hclass, serializeEnum, hto]
    exact hwrite
  · have hmethod : (.abstractEnum, some (deserializeEnum env)) ∈ deserializerMethods env conv := by
      simp [deserializerMethods]
    rw [deserialize_eq henv hmethod hclass]
    exact deserializeEnum_ok (htype ▸ hread) hfrom

/-! ## Fields of an object -/

/-- A value that a field may have: a plain value of the field's type, or an enum's. -/
def FieldValue (env : TypeEnv τ) (v : Void τ) : Prop :=
  (∃ c, PlainClass c ∧ env.classId v.valueType = env.ids c ∧ ∀ p, v.ptr = some p → PlainValue c p)
    ∨ EnumValue env v

/-- **Every field reads back.** -/
theorem serialize_field (henv : env.Lawful) (hv : FieldValue env v) :
    ∃ v', v'.ptr = v.ptr ∧ ReadsBack env widen conv classCount classCount' typeResolver (n + 2)
      (m + 2) v v.valueType v' := by
  rcases hv with ⟨c, hc, hid, hptr⟩ | henum
  · exact ⟨⟨v.ptr, readType env c v.ptr⟩, rfl, serialize_plain henv hc hid hid hptr⟩
  · exact serialize_enum henv henum

/-- The class of a field is no other one. -/
theorem FieldValue.classId_ne (henv : env.Lawful) (hv : FieldValue env v) (hplain : ¬ PlainClass c)
    (henum : c ≠ .abstractEnum) : env.classId v.valueType ≠ env.ids c := by
  intro h
  rcases hv with ⟨c', hc', hid, -⟩ | hv
  · exact hplain (henv.ids_injective (hid.symm.trans h) ▸ hc')
  · exact henum (henv.ids_injective (hv.isEnum.symm.trans h)).symm

end

/-! ## Rows of an object

`readOneRowAsObject` goes through the columns and not through the fields: a column sets the field of
its name. Where every field has a column, the order of the columns does not show in the object
(`foldl_set`). -/

section

variable {env : TypeEnv τ} {type : τ} {row : List (Text × Cell)} {object : Object τ}
  {polymorphs : List (Property τ × Cell)} {val : Text → Void τ} {read : Cell → τ → Mapped (Void τ)}

/-- A column that names an ordinary field, and what its cell is read as. -/
def ColumnReads (env : TypeEnv τ) (read : Cell → τ → Mapped (Void τ)) (type : τ)
    (val : Text → Void τ) (c : Text × Cell) : Prop :=
  ∃ field, (env.properties type).find? (·.name = c.1) = some field ∧ field.name = c.1 ∧
    ¬ (field.typeSelector.isSome ∧ field.type = env.typeOf .any) ∧
    read c.2 field.type = Mapped.returned (val c.1)

/-- A row all of whose columns name ordinary fields sets these fields. -/
theorem setColumns_returned [DecidableEq τ] (object : Object τ)
    (polymorphs : List (Property τ × Cell)) (h : ∀ c ∈ row, ColumnReads env read type val c) :
    setColumns env read type row object polymorphs
      = Mapped.returned (row.foldl (fun o c => Object.set o c.1 (val c.1)) object, polymorphs) := by
  induction row generalizing object with
  | nil => rfl
  | cons c row ih =>
    obtain ⟨name, cell⟩ := c
    obtain ⟨field, hfind, hname, hany, hread⟩ := h (name, cell) List.mem_cons_self
    dsimp only at hfind hname hread
    rw [setColumns, hfind]
    show (if field.typeSelector.isSome ∧ field.type = env.typeOf .any then _ else _) = _
    rw [if_neg hany, hread]
    show setColumns env read type row (Object.set object field.name (val name)) polymorphs = _
    rw [ih _ fun c hc => h c (List.mem_cons_of_mem _ hc), hname]
    rfl

/-- The fields a row sets hold its values, in whatever order it sets them. -/
theorem foldl_set : row.foldl (fun o c => Object.set o c.1 (val c.1)) object
    = object.map fun f => if f.1 ∈ row.map Prod.fst then (f.1, val f.1) else f := by
  induction row generalizing object with
  | nil => simp
  | cons c row ih =>
    rw [List.foldl_cons, ih, Object.set, List.map_map]
    refine List.map_congr_left fun f _ => ?_
    show (if (if f.1 = c.1 then (c.1, val c.1) else f).1 ∈ row.map Prod.fst then
        ((if f.1 = c.1 then (c.1, val c.1) else f).1,
          val (if f.1 = c.1 then (c.1, val c.1) else f).1)
      else if f.1 = c.1 then (c.1, val c.1) else f)
      = if f.1 ∈ c.1 :: row.map Prod.fst then (f.1, val f.1) else f
    by_cases hf : f.1 = c.1
    · simp [hf]
    · simp only [hf, if_false, List.mem_cons, false_or]

/-- A choice of one value for each name, when the names are distinct. -/
theorem exists_val {o : Object τ} {P : Text → Void τ → Void τ → Prop}
    (hnodup : (o.map Prod.fst).Nodup) (type : τ) (h : ∀ f ∈ o, ∃ v', P f.1 f.2 v') :
    ∃ val : Text → Void τ, ∀ f ∈ o, P f.1 f.2 (val f.1) := by
  have hone : ∀ name : Text, ∃ v' : Void τ, ∀ f ∈ o, f.1 = name → P f.1 f.2 v' := by
    intro name
    by_cases hmem : ∃ f ∈ o, f.1 = name
    · obtain ⟨f, hf, rfl⟩ := hmem
      obtain ⟨v', hv'⟩ := h f hf
      refine ⟨v', fun g hg hgf => ?_⟩
      rw [List.inj_on_of_nodup_map hnodup hg hf hgf]
      exact hv'
    · exact ⟨⟨none, type⟩, fun f hf hname => absurd ⟨f, hf, hname⟩ hmem⟩
  obtain ⟨val, hval⟩ := Classical.skolem.mp hone
  exact ⟨val, fun f hf => hval f.1 f hf rfl⟩

end

end OatppSqlite.Mapping
