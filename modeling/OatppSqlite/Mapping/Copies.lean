import OatppSqlite.Mapping.RoundTrip
import OatppSqlite.Mapping.ValueTypes

/-!
# Reading a value and writing it again

The other way round than `Mapping.RoundTrip`: a stored cell is read as some type, and what was
read is written. The two mappers are not inverse to each other here. A text that is read of a
number is written as a text, an integer that does not fit is cut, and a `Float32` rounds; and of
the types that can be read some cannot be written at all.

`copied` is the cell that comes out, class by class, and `copied_eq_self_iff` the cells that
come out as they went in. Of any type at all, a copy is read as what it was copied from
(`copyCell_reads`), so that copying a copy changes nothing more.

Of the platform's `float`s one thing is relied on, `WidensExactly`. It is said of `float`s that a
`double` was narrowed to and not of all of them: a signalling NaN comes back quiet from the
conversion, and no narrowing makes a signalling one.
-/

set_option autoImplicit false

namespace OatppSqlite.Mapping

variable {τ : Type}

/-! ## What becomes of a cell

The scalar classes first, without the mappers: what comes out is a function of the class and of the
cell, and it has nothing to do with type resolvers or interpretations. -/

/-- The classes that both mappers have a method for, the enum's apart. -/
inductive ScalarClass : ClassName → Prop
  | plain {c : ClassName} (h : PlainClass c) : ScalarClass c
  | float32 : ScalarClass .float32
  | float64 : ScalarClass .float64

/-- Cut to the width of a wrapper, and as the wrapper holds it. -/
def IntKind.cut (k : IntKind) (v : BitVec 64) : BitVec 64 :=
  BitVec.ofInt 64 (k.value (v.setWidth k.width))

/-- The cell that is written when this one was read as a class; none where it is not read. -/
def copied (widen : BitVec 32 → BitVec 64) (conv : Conversions) : ClassName → Cell → Option Cell
  | _, .null => some .null
  | .string, data => some (.text (data.columnBytes conv))
  | .blob, data => some (.blob (data.columnBytes conv))
  | .boolean, .integer v => some (.integer (if v = 0 then 0 else 1))
  | .int k, .integer v => some (.integer (k.cut v))
  | .float32, .integer v => some (.float (widen (conv.narrow (conv.ofInt64 v))))
  | .float32, .float v => some (.float (widen (conv.narrow v)))
  | .float64, .integer v => some (.float (conv.ofInt64 v))
  | .float64, .float v => some (.float v)
  | _, _ => none

/-- The numbers a wrapper has room for; the 64 bits of a stored one are enough for itself. -/
def IntKind.InRange : IntKind → Int → Prop
  | .int8, i => -128 ≤ i ∧ i < 128
  | .uint8, i => 0 ≤ i ∧ i < 256
  | .int16, i => -32768 ≤ i ∧ i < 32768
  | .uint16, i => 0 ≤ i ∧ i < 65536
  | .int32, i => -2147483648 ≤ i ∧ i < 2147483648
  | .uint32, i => 0 ≤ i ∧ i < 4294967296
  | .int64, _ => True
  | .uint64, _ => True

/-- A cell that a value of the class is stored in. -/
def Keeps (widen : BitVec 32 → BitVec 64) (conv : Conversions) : ClassName → Cell → Prop
  | _, .null => True
  | .string, .text _ => True
  | .blob, .blob _ => True
  | .boolean, .integer v => v = 0 ∨ v = 1
  | .int k, .integer v => k.InRange v.toInt
  | .float32, .float v => widen (conv.narrow v) = v
  | .float64, .float _ => True
  | _, _ => False

section

variable {widen : BitVec 32 → BitVec 64} {conv : Conversions} {c : ClassName} {data data' : Cell}

theorem IntKind.cut_eq_self_iff (k : IntKind) (v : BitVec 64) :
    k.cut v = v ↔ k.InRange v.toInt := by
  have hv := v.isLt
  have hint : v.toInt = if 2 * v.toNat < 2 ^ 64 then (v.toNat : Int) else v.toNat - 2 ^ 64 :=
    BitVec.toInt_eq_toNat_cond v
  rw [← BitVec.toInt_inj]
  cases k <;>
    simp only [IntKind.cut, IntKind.InRange, IntKind.value, IntKind.width, IntKind.signed,
      BitVec.toInt_ofInt, BitVec.toInt_setWidth, BitVec.toNat_setWidth, Int.bmod_def] <;>
    simp <;> omega

theorem IntKind.setWidth_cut (k : IntKind) (v : BitVec 64) :
    (k.cut v).setWidth k.width = v.setWidth k.width := by
  have hwidth : k.width ≤ 64 := by cases k <;> decide
  rw [IntKind.cut, setWidth_ofInt _ hwidth, IntKind.ofInt_value]

theorem boolean_eq_self_iff (v : BitVec 64) : (if v = 0 then 0 else 1) = v ↔ v = 0 ∨ v = 1 := by
  by_cases hv : v = 0
  · simp [hv]
  · rw [if_neg hv, eq_comm, or_iff_right hv]

/-- **The cells that are copied as they are.** -/
theorem copied_eq_self_iff (hc : ScalarClass c) :
    copied widen conv c data = some data ↔ Keeps widen conv c data := by
  cases hc with
  | plain hc =>
    cases hc with
    | string => cases data <;> simp [copied, Keeps, Cell.columnBytes]
    | blob => cases data <;> simp [copied, Keeps, Cell.columnBytes]
    | boolean =>
      cases data with
      | integer v => simpa [copied, Keeps] using boolean_eq_self_iff v
      | _ => simp [copied, Keeps]
    | int k =>
      cases data with
      | integer v => simpa [copied, Keeps] using k.cut_eq_self_iff v
      | _ => simp [copied, Keeps]
  | float32 => cases data <;> simp [copied, Keeps]
  | float64 => cases data <;> simp [copied, Keeps]

end

/-! ## Read and written

Each class has a lemma about its own method, `writesCopy_string` and so on, and it has three parts:
what is read is written as the copy, the copy is read as the same value, and where there is no copy
the method throws. The tables of methods come in only behind them (`exists_writesCopy`). -/

/-- A cell that is read as a type, and what was read written again. -/
def copyCell (env : TypeEnv τ) (widen : BitVec 32 → BitVec 64) (conv : Conversions)
    (classCount classCount' : Nat) (typeResolver : TypeResolver τ) (n m : Nat) (type : τ)
    (data : Cell) : Mapped Cell := do
  let value ← ExceptT.mk
    (deserialize env (Deserializer env conv classCount') typeResolver data m type)
  let bind ← ExceptT.mk (serialize env (Serializer env widen classCount) n value)
  return bind.cell

section

variable {env : TypeEnv τ} {widen : BitVec 32 → BitVec 64} {conv : Conversions}
  {classCount classCount' n m : Nat} {typeResolver : TypeResolver τ} {v : Void τ} {type : τ}
  {c : ClassName} {data data' : Cell} {b : Bind} {e : MapError}

theorem copyCell_returned
    (hread : deserialize env (Deserializer env conv classCount') typeResolver data m type
      = some (.ok v))
    (hwrite : serialize env (Serializer env widen classCount) n v = some (.ok b)) :
    copyCell env widen conv classCount classCount' typeResolver n m type data
      = Mapped.returned b.cell := by
  unfold copyCell
  rw [hread]
  change (ExceptT.mk (serialize env (Serializer env widen classCount) n v) : Mapped Bind)
    >>= _ = _
  rw [hwrite]
  rfl

theorem copyCell_throws
    (hread : deserialize env (Deserializer env conv classCount') typeResolver data m type
      = some (.error e)) :
    copyCell env widen conv classCount classCount' typeResolver n m type data = throw e := by
  unfold copyCell
  rw [hread]
  rfl

theorem copyCell_eq_returned
    (h : copyCell env widen conv classCount classCount' typeResolver n m type data
      = Mapped.returned data') :
    ∃ v b, deserialize env (Deserializer env conv classCount') typeResolver data m type
        = some (.ok v) ∧
      serialize env (Serializer env widen classCount) n v = some (.ok b) ∧ b.cell = data' := by
  obtain ⟨v, hread, h⟩ := Mapped.bind_returned h
  obtain ⟨b, hwrite, h⟩ := Mapped.bind_returned h
  cases h
  exact ⟨v, b, hread, hwrite, rfl⟩

/-- A value that is written as this cell, by the method of its class alone. -/
def WrittenAs (env : TypeEnv τ) (widen : BitVec 32 → BitVec 64) (v : Void τ) (data : Cell) : Prop :=
  ∃ c method b, (c, some method) ∈ serializerMethods env widen ∧
    env.classId v.valueType = env.ids c ∧ (∀ call, method call v = some (.ok b)) ∧ b.cell = data

/-- **What is relied on of the platform's `float`s**: one that a `double` was narrowed to is
    widened and narrowed again to the same one. It is not so of every pattern of 32 bits: a
    signalling NaN comes back as a quiet one. But narrowing never gives a signalling one. -/
def WidensExactly (widen : BitVec 32 → BitVec 64) (conv : Conversions) : Prop :=
  ∀ d, conv.narrow (widen (conv.narrow d)) = conv.narrow d

/-- What a method reads is written as the copy, which it reads as the same; and what it does not
    read has no copy. -/
def WritesCopy (env : TypeEnv τ) (widen : BitVec 32 → BitVec 64) (conv : Conversions)
    (method : DeserializerMethod τ) (type : τ) (data : Cell) : Option Cell → Prop
  | some data' => ∃ v, (∀ call, method call data type = some (.ok v)) ∧
      (WidensExactly widen conv → ∀ call, method call data' type = some (.ok v)) ∧
      WrittenAs env widen v data'
  | none => ∃ what, ∀ call, method call data type = some (.error (.runtimeError what))

section methods

variable {bind : Payload τ → Option Bind} {b : Bind} {p : Payload τ}

theorem writtenAs_null (henv : env.Lawful)
    (hm : (c, some (bindOrNull bind)) ∈ serializerMethods env widen) :
    WrittenAs env widen ⟨none, env.typeOf c⟩ .null :=
  ⟨c, _, .null, hm, henv.classId_typeOf c, fun _ => rfl, rfl⟩

theorem writtenAs_some (henv : env.Lawful)
    (hm : (c, some (bindOrNull bind)) ∈ serializerMethods env widen) (hb : bind p = some b)
    (hcell : b.cell = data) : WrittenAs env widen ⟨some p, env.typeOf c⟩ data :=
  ⟨c, _, b, hm, henv.classId_typeOf c, fun _ => by simp [bindOrNull, hb], hcell⟩

theorem writesCopy_string (henv : env.Lawful) :
    WritesCopy env widen conv (deserializeString env conv) type data
      (copied widen conv .string data) := by
  have hm : (ClassName.string, some serializeString) ∈ serializerMethods env widen := by
    simp [serializerMethods]
  have hsome (s : Text) : WrittenAs env widen ⟨some (.string s), env.typeOf .string⟩ (.text s) :=
    writtenAs_some henv hm rfl rfl
  cases data with
  | null => exact ⟨_, fun _ => rfl, fun _ _ => rfl, writtenAs_null henv hm⟩
  | _ => exact ⟨_, fun _ => rfl, fun _ _ => rfl, hsome _⟩

/-- The null of a `Blob` is read as one of a `String`, and so it is written. -/
theorem writesCopy_blob (henv : env.Lawful) :
    WritesCopy env widen conv (deserializeBlob env conv) type data
      (copied widen conv .blob data) := by
  have hm : (ClassName.blob, some serializeBlob) ∈ serializerMethods env widen := by
    simp [serializerMethods]
  have hm' : (ClassName.string, some serializeString) ∈ serializerMethods env widen := by
    simp [serializerMethods]
  by_cases hdata : data = .null
  · subst hdata
    exact ⟨_, fun _ => rfl, fun _ _ => rfl, writtenAs_null henv hm'⟩
  · have hcopied : copied widen conv .blob data = some (.blob (data.columnBytes conv)) := by
      cases data with
      | null => exact absurd rfl hdata
      | _ => rfl
    have hblob : Cell.blob (data.columnBytes conv) ≠ .null := by simp
    rw [hcopied]
    exact ⟨_, fun call => deserializeBlob_eq hdata call type,
      fun _ call => deserializeBlob_eq hblob call type, writtenAs_some henv hm rfl rfl⟩

theorem writesCopy_boolean (henv : env.Lawful) :
    WritesCopy env widen conv (deserializeBoolean env) type data
      (copied widen conv .boolean data) := by
  have hm : (ClassName.boolean, some serializeBoolean) ∈ serializerMethods env widen := by
    simp [serializerMethods]
  cases data with
  | null => exact ⟨_, fun _ => rfl, fun _ _ => rfl, writtenAs_null henv hm⟩
  | integer v =>
    by_cases hv : v = 0
    · subst hv
      exact ⟨_, fun _ => rfl, fun _ _ => rfl, writtenAs_some henv hm rfl rfl⟩
    · have hread (call) : deserializeBoolean env call (.integer v) type
          = some (.ok ⟨some (.boolean true), env.typeOf .boolean⟩) := by
        show some (Except.ok (ObjectWrapper.mk (some (Payload.boolean (decide (v ≠ 0)))) _)) = _
        rw [decide_eq_true hv]
      rw [copied, if_neg hv]
      exact ⟨_, hread, fun _ _ => rfl, writtenAs_some henv hm rfl rfl⟩
  | _ => exact ⟨_, fun _ => rfl⟩

theorem writesCopy_int (henv : env.Lawful) (k : IntKind) :
    WritesCopy env widen conv (deserializeIntOf env k) type data
      (copied widen conv (.int k) data) := by
  have hm : (ClassName.int k, some (bindOrNull (castInt k (bindInt k))))
      ∈ serializerMethods env widen := mem_serializerMethods_int k
  cases data with
  | null => exact ⟨_, fun _ => rfl, fun _ _ => rfl, writtenAs_null henv hm⟩
  | integer v =>
    have hsame : intWrapper env k (k.cut v) = intWrapper env k v := by
      rw [intWrapper, k.setWidth_cut]
      rfl
    exact ⟨intWrapper env k v, fun _ => rfl,
      fun _ _ => congrArg (fun w => some (Except.ok w)) hsame,
      writtenAs_some henv hm (by simp [castInt]) (cell_bindInt_eq k _)⟩
  | _ => exact ⟨_, fun _ => rfl⟩

theorem writesCopy_float32 (henv : env.Lawful) :
    WritesCopy env widen conv (deserializeFloat32 env conv) type data
      (copied widen conv .float32 data) := by
  have hm : (ClassName.float32, some (serializeFloat32 widen)) ∈ serializerMethods env widen := by
    simp [serializerMethods]
  have hread (d : BitVec 64) (hround : WidensExactly widen conv) (call) :
      deserializeFloat32 env conv call (.float (widen (conv.narrow d))) type
        = some (.ok ⟨some (.float32 (conv.narrow d)), env.typeOf .float32⟩) := by
    show some (Except.ok (ObjectWrapper.mk
      (some (Payload.float32 (conv.narrow (widen (conv.narrow d))))) _)) = _
    rw [hround]
  cases data with
  | null => exact ⟨_, fun _ => rfl, fun _ _ => rfl, writtenAs_null henv hm⟩
  | integer v => exact ⟨_, fun _ => rfl, hread _, writtenAs_some henv hm rfl rfl⟩
  | float v => exact ⟨_, fun _ => rfl, hread _, writtenAs_some henv hm rfl rfl⟩
  | _ => exact ⟨_, fun _ => rfl⟩

theorem writesCopy_float64 (henv : env.Lawful) :
    WritesCopy env widen conv (deserializeFloat64 env conv) type data
      (copied widen conv .float64 data) := by
  have hm : (ClassName.float64, some serializeFloat64) ∈ serializerMethods env widen := by
    simp [serializerMethods]
  cases data with
  | null => exact ⟨_, fun _ => rfl, fun _ _ => rfl, writtenAs_null henv hm⟩
  | integer v => exact ⟨_, fun _ => rfl, fun _ _ => rfl, writtenAs_some henv hm rfl rfl⟩
  | float v => exact ⟨_, fun _ => rfl, fun _ _ => rfl, writtenAs_some henv hm rfl rfl⟩
  | _ => exact ⟨_, fun _ => rfl⟩

end methods

/-- Every class's own method. -/
theorem exists_writesCopy (henv : env.Lawful) (hc : ScalarClass c)
    (widen : BitVec 32 → BitVec 64) (conv : Conversions) (type : τ) (data : Cell) :
    ∃ method, (c, some method) ∈ deserializerMethods env conv ∧
      WritesCopy env widen conv method type data (copied widen conv c data) := by
  cases hc with
  | plain hc =>
    cases hc with
    | string => exact ⟨_, by simp [deserializerMethods], writesCopy_string henv⟩
    | blob => exact ⟨_, by simp [deserializerMethods], writesCopy_blob henv⟩
    | boolean => exact ⟨_, by simp [deserializerMethods], writesCopy_boolean henv⟩
    | int k => exact ⟨_, mem_deserializerMethods_int k, writesCopy_int henv k⟩
  | float32 => exact ⟨_, by simp [deserializerMethods], writesCopy_float32 henv⟩
  | float64 => exact ⟨_, by simp [deserializerMethods], writesCopy_float64 henv⟩

theorem WrittenAs.serialize_eq (henv : env.Lawful) (h : WrittenAs env widen v data)
    (classCount n : Nat) :
    ∃ b, serialize env (Serializer env widen classCount) (n + 1) v = some (.ok b) ∧
      b.cell = data := by
  obtain ⟨c, method, b, hm, hv, hwrite, hcell⟩ := h
  exact ⟨b, by rw [Mapping.serialize_eq henv hm hv, hwrite], hcell⟩

/-- The copy of a cell that is read as a scalar, -/
theorem copyCell_of_copied (henv : env.Lawful) (hc : ScalarClass c)
    (htype : env.classId type = env.ids c) (hcopy : copied widen conv c data = some data') :
    copyCell env widen conv classCount classCount' typeResolver (n + 1) (m + 1) type data
      = Mapped.returned data' := by
  obtain ⟨method, hm, hwrites⟩ := exists_writesCopy henv hc widen conv type data
  rw [hcopy] at hwrites
  obtain ⟨v, hv, -, hwritten⟩ := hwrites
  obtain ⟨b, hb, rfl⟩ := hwritten.serialize_eq henv classCount n
  exact copyCell_returned (by rw [deserialize_eq henv hm htype, hv]) hb

/-- which is read as the cell is, -/
theorem deserialize_of_copied (henv : env.Lawful) (hround : WidensExactly widen conv)
    (hc : ScalarClass c) (htype : env.classId type = env.ids c)
    (hcopy : copied widen conv c data = some data') (k : Nat) :
    deserialize env (Deserializer env conv classCount') typeResolver data' k type
      = deserialize env (Deserializer env conv classCount') typeResolver data k type := by
  obtain ⟨method, hm, hwrites⟩ := exists_writesCopy henv hc widen conv type data
  rw [hcopy] at hwrites
  obtain ⟨v, hv, hv', -⟩ := hwrites
  cases k with
  | zero => rfl
  | succ k => rw [deserialize_eq henv hm htype, deserialize_eq henv hm htype, hv, hv' hround]

/-- and the exception where there is none. -/
theorem copyCell_of_none (henv : env.Lawful) (hc : ScalarClass c)
    (htype : env.classId type = env.ids c) (hcopy : copied widen conv c data = none) :
    ∃ what, copyCell env widen conv classCount classCount' typeResolver n (m + 1) type data
      = throw (.runtimeError what) := by
  obtain ⟨method, hm, hwrites⟩ := exists_writesCopy henv hc widen conv type data
  rw [hcopy] at hwrites
  obtain ⟨what, hwhat⟩ := hwrites
  exact ⟨what, copyCell_throws (by rw [deserialize_eq henv hm htype, hwhat])⟩

theorem copied_of_copyCell (henv : env.Lawful) (hc : ScalarClass c)
    (htype : env.classId type = env.ids c)
    (h : copyCell env widen conv classCount classCount' typeResolver (n + 1) (m + 1) type data
      = Mapped.returned data') : copied widen conv c data = some data' := by
  cases hcopy : copied widen conv c data with
  | none =>
    obtain ⟨what, hwhat⟩ := copyCell_of_none henv hc htype hcopy
    rw [hwhat] at h
    cases h
  | some d =>
    rw [copyCell_of_copied henv hc htype hcopy] at h
    cases h
    rfl

/-- **What is relied on of an enum's interpreter**: a value is interpreted as what it was made
    of. -/
def EnumsLeadBack (env : TypeEnv τ) : Prop :=
  ∀ type w v, env.classId type = env.ids .abstractEnum →
    (env.enumDispatcher type).fromInterpretation w false = (v, .ok) →
    (env.enumDispatcher type).toInterpretation v false
      = (⟨w.ptr, (env.enumDispatcher type).interpretationType⟩, .ok)

theorem serialize_returned
    (h : serialize env (Serializer env widen classCount) n v = some (.ok b)) :
    ∃ k c method, n = k + 1 ∧ (c, some method) ∈ serializerMethods env widen ∧
      env.classId v.valueType = env.ids c ∧
      method (serialize env (Serializer env widen classCount) k) v = some (.ok b) := by
  cases n with
  | zero => cases h
  | succ k =>
    unfold serialize at h
    split at h
    · cases h
    · rename_i method hmethod
      obtain ⟨c, hm, hid⟩ := MethodTable.mem_of_getElem?_build hmethod
      exact ⟨k, c, method, rfl, hm, hid.symm, h⟩
    · cases h

/-- Whatever is written is a scalar or an enum's value. -/
theorem scalar_or_enum_of_serializer {method : SerializerMethod τ}
    (hm : (c, some method) ∈ serializerMethods env widen) :
    ScalarClass c ∨ c = .abstractEnum := by
  simp only [serializerMethods, List.mem_cons, Prod.mk.injEq, Option.some.injEq, reduceCtorEq,
    and_false, List.not_mem_nil, or_false, false_or] at hm
  rcases hm with ⟨rfl, -⟩ | ⟨rfl, -⟩ | ⟨rfl, -⟩ | ⟨rfl, -⟩ | ⟨rfl, -⟩ | ⟨rfl, -⟩ | ⟨rfl, -⟩ |
    ⟨rfl, -⟩ | ⟨rfl, -⟩ | ⟨rfl, -⟩ | ⟨rfl, -⟩ | ⟨rfl, -⟩ | ⟨rfl, -⟩ | ⟨rfl, -⟩
  · exact Or.inl (.plain .string)
  · exact Or.inl (.plain (.int _))
  · exact Or.inl (.plain (.int _))
  · exact Or.inl (.plain (.int _))
  · exact Or.inl (.plain (.int _))
  · exact Or.inl (.plain (.int _))
  · exact Or.inl (.plain (.int _))
  · exact Or.inl (.plain (.int _))
  · exact Or.inl (.plain (.int _))
  · exact Or.inl .float32
  · exact Or.inl .float64
  · exact Or.inl (.plain .boolean)
  · exact Or.inr rfl
  · exact Or.inl (.plain .blob)

/-- What is read is read by a method, or through an interpretation where there is none. -/
theorem deserialize_returned
    (h : deserialize env (Deserializer env conv classCount') typeResolver data m type
      = some (.ok v)) :
    ∃ k, m = k + 1 ∧
      ((∃ c method, (c, some method) ∈ deserializerMethods env conv ∧
          env.classId type = env.ids c ∧
          method (deserialize env (Deserializer env conv classCount') typeResolver data k) data type
            = some (.ok v)) ∨
        (Deserializer env conv classCount')[env.classId type]? = some none ∧
          ∃ i value, typeResolver.findInterpretation type = some i ∧
            v = i.fromInterpretation value) := by
  cases m with
  | zero => cases h
  | succ k =>
    refine ⟨k, rfl, ?_⟩
    unfold deserialize at h
    split at h
    · cases h
    · rename_i method hmethod
      obtain ⟨c, hm, hid⟩ := MethodTable.mem_of_getElem?_build hmethod
      exact Or.inl ⟨c, method, hm, hid.symm, h⟩
    · rename_i hnone
      split at h
      · rename_i i hfind
        obtain ⟨value, -, rfl⟩ := map_ok h
        exact Or.inr ⟨hnone, i, value, hfind, rfl⟩
      · cases h

/-- A class that is written is read, too. -/
theorem exists_deserializer (hc : ScalarClass c ∨ c = .abstractEnum) :
    ∃ method, (c, some method) ∈ deserializerMethods env conv := by
  rcases hc with (⟨hc⟩ | _ | _) | rfl
  · cases hc with
    | int k => exact ⟨_, mem_deserializerMethods_int k⟩
    | _ => simp [deserializerMethods]
  · simp [deserializerMethods]
  · simp [deserializerMethods]
  · simp [deserializerMethods]

/-- And a class that is read is written, but for `Any`. -/
theorem class_of_deserializer {method : DeserializerMethod τ}
    (hm : (c, some method) ∈ deserializerMethods env conv) :
    ScalarClass c ∨ (c = .any ∧ method = deserializeAny env) ∨
      (c = .abstractEnum ∧ method = deserializeEnum env) := by
  simp only [deserializerMethods, List.mem_cons, Prod.mk.injEq, Option.some.injEq, reduceCtorEq,
    and_false, List.not_mem_nil, or_false, false_or] at hm
  rcases hm with ⟨rfl, -⟩ | ⟨rfl, rfl⟩ | ⟨rfl, -⟩ | ⟨rfl, -⟩ | ⟨rfl, -⟩ | ⟨rfl, -⟩ | ⟨rfl, -⟩ |
    ⟨rfl, -⟩ | ⟨rfl, -⟩ | ⟨rfl, -⟩ | ⟨rfl, -⟩ | ⟨rfl, -⟩ | ⟨rfl, -⟩ | ⟨rfl, rfl⟩ | ⟨rfl, -⟩
  · exact Or.inl (.plain .string)
  · exact Or.inr (Or.inl ⟨rfl, rfl⟩)
  · exact Or.inl (.plain (.int _))
  · exact Or.inl (.plain (.int _))
  · exact Or.inl (.plain (.int _))
  · exact Or.inl (.plain (.int _))
  · exact Or.inl (.plain (.int _))
  · exact Or.inl (.plain (.int _))
  · exact Or.inl (.plain (.int _))
  · exact Or.inl (.plain (.int _))
  · exact Or.inl .float32
  · exact Or.inl .float64
  · exact Or.inl (.plain .boolean)
  · exact Or.inr (Or.inr ⟨rfl, rfl⟩)
  · exact Or.inl (.plain .blob)

theorem exists_of_deserializeEnum {call : τ → Option (Except MapError (Void τ))}
    (h : deserializeEnum env call data type = some (.ok v)) :
    ∃ w, call (env.enumDispatcher type).interpretationType = some (.ok w) ∧
      (env.enumDispatcher type).fromInterpretation w false = (v, .ok) := by
  unfold deserializeEnum at h
  dsimp only at h
  obtain ⟨r, hr, h⟩ := Option.map_eq_some_iff.mp h
  cases r with
  | error e => cases h
  | ok w =>
    dsimp only [Bind.bind, Except.bind] at h
    split at h
    · rename_i result hfrom
      cases h
      exact ⟨w, hr, hfrom⟩
    · cases h
    · cases h

/-- What is read of an `Any`, or through an interpretation, is not written. -/
theorem copied_class (henv : env.Lawful) (hown : OwnTypes env typeResolver)
    (hread : deserialize env (Deserializer env conv classCount') typeResolver data m type
      = some (.ok v))
    (hwrite : serialize env (Serializer env widen classCount) n v = some (.ok b)) :
    (∃ c, ScalarClass c ∧ env.classId type = env.ids c) ∨
      (env.classId type = env.ids .abstractEnum ∧
        ∃ k, m = k + 1 ∧ deserializeEnum env
          (deserialize env (Deserializer env conv classCount') typeResolver data k) data type
            = some (.ok v)) := by
  obtain ⟨k', c, method, hk', hm, hv, hmethod'⟩ := serialize_returned hwrite
  have hc := scalar_or_enum_of_serializer hm
  obtain ⟨k, hk, ⟨c', method, hm', hid, hmethod⟩ | ⟨hnone, i, value, hfind, rfl⟩⟩ :=
    deserialize_returned hread
  · rcases class_of_deserializer hm' with hc' | ⟨rfl, rfl⟩ | ⟨rfl, rfl⟩
    · exact Or.inl ⟨c', hc', hid⟩
    · have hany : c = .any := by
        rw [deserializeAny_valueType hmethod, henv.classId_typeOf] at hv
        exact henv.ids_injective hv.symm
      subst hany
      rcases hc with hc | hc
      · rcases hc with ⟨⟨⟩⟩
      · cases hc
    · exact Or.inr ⟨hid, k, hk, hmethod⟩
  · exfalso
    have hexists : ∃ method, (c, some method) ∈ deserializerMethods env conv :=
      exists_deserializer hc
    obtain ⟨method, hm'⟩ := hexists
    rw [hown.interpretation type i value hfind] at hv
    rw [hv, Deserializer,
      MethodTable.getElem?_build henv.ids_injective deserializerMethods_nodup hm'] at hnone
    cases hnone

/-- What is written is no `Void`. -/
theorem WrittenAs.classId_ne (henv : env.Lawful) (h : WrittenAs env widen v data) :
    env.classId v.valueType ≠ env.ids .void := by
  obtain ⟨c, method, b, hm, hv, -⟩ := h
  rw [hv]
  intro hvoid
  have hc := henv.ids_injective hvoid
  subst hc
  rcases scalar_or_enum_of_serializer hm with hscalar | henum
  · cases hscalar with
    | plain hplain => cases hplain
  · cases henum

/-- An enum's value is written as what it was made of. -/
theorem serialize_enum_read (henv : env.Lawful) (hown : OwnTypes env typeResolver)
    (henum : EnumsLeadBack env) (hid : env.classId type = env.ids .abstractEnum) {w : Void τ}
    (hfrom : (env.enumDispatcher type).fromInterpretation w false = (v, .ok)) :
    serialize env (Serializer env widen classCount) (n + 1) v
      = serialize env (Serializer env widen classCount) n
          ⟨w.ptr, (env.enumDispatcher type).interpretationType⟩ := by
  have hm : (ClassName.abstractEnum, some (serializeEnum env)) ∈ serializerMethods env widen := by
    simp [serializerMethods]
  have htype : v.valueType = type := hown.enumeration type w v hid hfrom
  have hto := henum type w v hid hfrom
  rw [serialize_eq henv hm (htype ▸ hid), serializeEnum, htype, hto]

/-- The NULL of a `Blob`, which is read as one of another type, is written as a NULL still. -/
theorem cell_of_nullBlob (henv : env.Lawful) (hnull : NullBlob env data type)
    (hread : deserialize env (Deserializer env conv classCount') typeResolver data m type
      = some (.ok v))
    (hwrite : serialize env (Serializer env widen classCount) n ⟨v.ptr, type⟩ = some (.ok b)) :
    b.cell = data := by
  obtain ⟨hid, rfl⟩ := hnull
  obtain ⟨k, c, method, rfl, -⟩ := serialize_returned hwrite
  obtain ⟨k', rfl, -⟩ := deserialize_returned hread
  have hm : (ClassName.blob, some serializeBlob) ∈ serializerMethods env widen := by
    simp [serializerMethods]
  have hm' : (ClassName.blob, some (deserializeBlob env conv)) ∈ deserializerMethods env conv := by
    simp [deserializerMethods]
  rw [deserialize_eq henv hm' hid] at hread
  cases hread
  rw [serialize_eq henv hm hid] at hwrite
  cases hwrite
  rfl

/-- **A copy is read as what it was copied from**, whatever it is read as: through however many
    enums, and for `Any`s and interpreted types in that there is no copy. -/
theorem copyCell_reads (henv : env.Lawful) (hown : OwnTypes env typeResolver)
    (henum : EnumsLeadBack env) (hround : WidensExactly widen conv)
    (h : copyCell env widen conv classCount classCount' typeResolver n m type data
      = Mapped.returned data') (k : Nat) :
    deserialize env (Deserializer env conv classCount') typeResolver data' k type
      = deserialize env (Deserializer env conv classCount') typeResolver data k type := by
  induction m generalizing n type k with
  | zero =>
    obtain ⟨v, b, hread, -, -⟩ := copyCell_eq_returned h
    cases hread
  | succ m ih =>
    obtain ⟨v, b, hread, hwrite, hcell⟩ := copyCell_eq_returned h
    obtain ⟨n', c', method', rfl, -⟩ := serialize_returned hwrite
    rcases copied_class henv hown hread hwrite with ⟨c, hc, hid⟩ | ⟨hid, m', hm, hread'⟩
    · exact deserialize_of_copied henv hround hc hid (copied_of_copyCell henv hc hid h) k
    · -- an enum: what it was made of is what was copied
      cases hm
      obtain ⟨w, hinner, hfrom⟩ := exists_of_deserializeEnum hread'
      rw [serialize_enum_read henv hown henum hid hfrom] at hwrite
      have hsame : ∀ k, deserialize env (Deserializer env conv classCount') typeResolver data' k
            (env.enumDispatcher type).interpretationType
          = deserialize env (Deserializer env conv classCount') typeResolver data k
              (env.enumDispatcher type).interpretationType := by
        intro k
        by_cases hnull : NullBlob env data (env.enumDispatcher type).interpretationType
        · rw [← hcell, cell_of_nullBlob henv hnull hinner hwrite]
        · have htype := (deserialize_keeps_type_iff henv hown hinner).mpr hnull
          rw [← htype] at hwrite
          exact ih (hcell ▸ copyCell_returned hinner hwrite) k
      cases k with
      | zero => rfl
      | succ k =>
        have hm : (ClassName.abstractEnum, some (deserializeEnum env))
            ∈ deserializerMethods env conv := by
          simp [deserializerMethods]
        rw [deserialize_eq henv hm hid, deserialize_eq henv hm hid]
        unfold deserializeEnum
        dsimp only
        rw [hsame]

/-- **A copy stays what it is**: it is read as what it was copied from, whatever it is read as,
    and copied again it is the same cell. -/
theorem copyCell_stable (henv : env.Lawful) (hown : OwnTypes env typeResolver)
    (henum : EnumsLeadBack env) (hround : WidensExactly widen conv)
    (h : copyCell env widen conv classCount classCount' typeResolver n m type data
      = Mapped.returned data') :
    (∀ k, deserialize env (Deserializer env conv classCount') typeResolver data' k type
        = deserialize env (Deserializer env conv classCount') typeResolver data k type) ∧
    copyCell env widen conv classCount classCount' typeResolver n m type data'
      = Mapped.returned data' := by
  have hreads := copyCell_reads henv hown henum hround h
  refine ⟨hreads, ?_⟩
  rw [← h]
  unfold copyCell
  rw [hreads]

end

/-! ## The plain framework -/

/-- The platform's widening, where a `float` is nothing but its bits. -/
def plainWiden (v : BitVec 32) : BitVec 64 := v.setWidth 64

theorem plainWiden_exactly : WidensExactly plainWiden plainConversions := by
  intro d
  show ((d.setWidth 32).setWidth 64).setWidth 32 = d.setWidth 32
  simp

theorem plainEnv_enumsLeadBack (properties : List (Property PlainType)) :
    EnumsLeadBack (plainEnv properties) := by
  rintro type ⟨ptr, valueType⟩ v - hfrom
  change plainEnum.fromInterpretation ⟨ptr, valueType⟩ false = (v, .ok) at hfrom
  show plainEnum.toInterpretation v false = (⟨ptr, .ofClass (.int .int32)⟩, .ok)
  cases ptr with
  | none =>
    cases hfrom
    rfl
  | some p =>
    cases p with
    | int k w =>
      cases k with
      | int32 =>
        cases hfrom
        have hpair : ∀ u : BitVec 32, u = w →
            ((⟨some (.int .int32 u), .ofClass (.int .int32)⟩, .ok) :
              Void PlainType × EnumInterpreterError)
              = (⟨some (.int .int32 w), .ofClass (.int .int32)⟩, .ok) := by
          rintro u rfl
          rfl
        exact hpair _ BitVec.ofInt_toInt
      | _ => cases hfrom
    | _ => cases hfrom

example : copied plainWiden plainConversions (.int .int8) (.integer 300) = some (.integer 44) := by
  decide

/-- An enum whose values are 32-bit integers, read of a wider one. -/
theorem copyCell_stable_enum :
    (∀ k, deserialize (plainEnv []) (Deserializer (plainEnv []) plainConversions 22) plainResolver
          (.integer 7) k (.ofClass .abstractEnum)
        = deserialize (plainEnv []) (Deserializer (plainEnv []) plainConversions 22) plainResolver
          (.integer 4294967303) k (.ofClass .abstractEnum)) ∧
    copyCell (plainEnv []) plainWiden plainConversions 22 22 plainResolver 2 2
        (.ofClass .abstractEnum) (.integer 7) = Mapped.returned (.integer 7) :=
  copyCell_stable (plainEnv_lawful []) (plainEnv_ownTypes []) (plainEnv_enumsLeadBack [])
    plainWiden_exactly rfl

end OatppSqlite.Mapping
