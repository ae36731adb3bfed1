import OatppSqlite.Mapping.Serializer

/-!
# `mapping/Deserializer.cpp`

A column of the current row is a `Cell`, a value with its storage class, and the `sqlite3_column_*`
calls are functions of it. What SQLite makes of a number that is read as text, and the
platform's conversions between floating-point formats, are parameters (`Conversions`).

Two chains have no bound in the code: the interpretation of an enum and the interpretations of
a type without a method. `deserialize` takes one; `none` means it was too small.

A `sqlite3_column_*` call may change what later calls answer: `sqlite3_column_text` of a BLOB makes it
a TEXT (`Cell.asText`). Within a `deserialize` nothing is read after that, so its result is a function
of the cell it finds; what it leaves behind is `readsText`.
-/

set_option autoImplicit false

namespace OatppSqlite.Mapping

/-- A stored value. -/
inductive Cell where
  | null
  | integer (v : BitVec 64)
  | float (v : BitVec 64)
  | text (s : Text)
  | blob (s : Text)
  deriving DecidableEq, Repr

/-- The value a bind call hands to the statement: `sqlite3_bind_int` stores a 64-bit integer. A NaN
    is stored as NULL; no cell that is read of a row holds one, and so none is copied. -/
def Bind.cell : Bind → Cell
  | .null => .null
  | .int v => .integer (v.signExtend 64)
  | .int64 v => .integer v
  | .double v => .float v
  | .text s => .text s
  | .blob s => .blob s

/-- Conversions that are SQLite's or the platform's own, and whether `sqlite3_column_blob`
    answers a null pointer where there are no bytes. -/
structure Conversions where
  widen : BitVec 32 → BitVec 64
  narrow : BitVec 64 → BitVec 32
  ofInt64 : BitVec 64 → BitVec 64
  floatText : BitVec 64 → Text
  emptyBlobIsNull : Bool

/-- Conversions that are good enough where no number is read as text or through a `float`. -/
def plainConversions : Conversions where
  widen v := v.setWidth 64
  narrow v := v.setWidth 32
  ofInt64 v := v
  floatText _ := []
  emptyBlobIsNull := true

/-- `sqlite3_column_text` with `sqlite3_column_bytes`, or `sqlite3_column_blob` with it. -/
def Cell.columnBytes (conv : Conversions) : Cell → Text
  | .null => []
  | .integer v => (toString v.toInt).toList
  | .float v => conv.floatText v
  | .text s => s
  | .blob s => s

/-- `sqlite3_column_blob`: the bytes the pointer points to, or the null pointer. -/
def Cell.columnBlob (conv : Conversions) (data : Cell) : Option Text :=
  if conv.emptyBlobIsNull ∧ data.columnBytes conv = [] then none else some (data.columnBytes conv)

/-- `sqlite3_column_text` makes a text of a BLOB: `sqlite3_column_type` answers TEXT from then on.
    Of the other storage classes it keeps the answer, and so do the other functions. -/
def Cell.asText : Cell → Cell
  | .blob s => .text s
  | data => data

/-- Only if it was called. -/
def Cell.textIf (data : Cell) (called : Bool) : Cell := if called then data.asText else data

theorem Cell.textIf_textIf (data : Cell) (called called' : Bool) :
    (data.textIf called).textIf called' = data.textIf (called || called') := by
  cases data <;> cases called <;> cases called' <;> rfl

/-- `std::string(ptr, size)`: a null pointer is in order where the size is 0. -/
def stdString : Option Text → Nat → Except MapError Text
  | some bytes, size => .ok (bytes.take size)
  | none, 0 => .ok []
  | none, _ + 1 => .error .undefined

/-- So it makes no difference which pointer is answered for no bytes. -/
theorem stdString_columnBlob (conv : Conversions) (data : Cell) :
    stdString (data.columnBlob conv) (data.columnBytes conv).length
      = .ok (data.columnBytes conv) := by
  unfold Cell.columnBlob
  split
  · rename_i hempty
    rw [hempty.2]
    rfl
  · exact congrArg Except.ok List.take_length

variable {τ : Type}

abbrev DeserializerMethod (τ : Type) :=
  (τ → Option (Except MapError (Void τ))) → Cell → τ → Option (Except MapError (Void τ))

/-- `Deserializer::deserialize`. -/
def deserialize (env : TypeEnv τ) (methods : MethodTable (DeserializerMethod τ))
    (typeResolver : TypeResolver τ) (data : Cell) :
    Nat → τ → Option (Except MapError (Void τ))
  | 0, _ => none
  | fuel + 1, type =>
    match methods[env.classId type]? with
    | none => some (.error .undefined)
    | some (some method) => method (deserialize env methods typeResolver data fuel) data type
    | some none =>
      match typeResolver.findInterpretation type with
      | some interpretation =>
        (deserialize env methods typeResolver data fuel interpretation.interpretationType).map
          (Except.map interpretation.fromInterpretation)
      | none =>
        some (.error (.runtimeError ("[oatpp::sqlite::mapping::Deserializer::deserialize()]: "
          ++ "Error. No deserialize method for type '" ++ env.className type ++ "'")))

/-! ## The deserialize methods

A method is given `deserialize` itself for the types it goes on with, as the source has it by the
pointer to the deserializer. Only those of `Any` and of the enums use it. -/

/-- The wrapper of an integer: the cast cuts the value to the wrapper's width. -/
def intWrapper (env : TypeEnv τ) (k : IntKind) (v : BitVec 64) : Void τ :=
  ⟨some (.int k (v.setWidth k.width)), env.typeOf (.int k)⟩

def deInt : Cell → Except MapError (BitVec 64)
  | .integer v => .ok v
  | _ => .error (.runtimeError
      "[oatpp::sqlite::mapping::Deserializer::deInt()]: Error. Unknown OID.")

/-- `deserializeInt<IntWrapper>`, with the wrapper's constructor. -/
def deserializeInt (null : Void τ) (wrapper : BitVec 64 → Void τ) : DeserializerMethod τ :=
  fun _ data _ =>
    match data with
    | .null => some (.ok null)
    | data => some ((deInt data).map wrapper)

def deserializeString (env : TypeEnv τ) (conv : Conversions) : DeserializerMethod τ :=
  fun _ data _ =>
    match data with
    | .null => some (.ok ⟨none, env.typeOf .string⟩)
    | data => some (.ok ⟨some (.string (data.columnBytes conv)), env.typeOf .string⟩)

/-- The null it returns is a `String`, not a `Blob`. -/
def deserializeBlob (env : TypeEnv τ) (conv : Conversions) : DeserializerMethod τ :=
  fun _ data _ =>
    match data with
    | .null => some (.ok ⟨none, env.typeOf .string⟩)
    | data =>
      some ((stdString (data.columnBlob conv) (data.columnBytes conv).length).map
        fun s => ⟨some (.string s), env.typeOf .blob⟩)

/-- A cell that is not null is read as its bytes. -/
theorem deserializeBlob_eq {env : TypeEnv τ} {conv : Conversions} {data : Cell}
    (hdata : data ≠ .null) (call : τ → Option (Except MapError (Void τ))) (type : τ) :
    deserializeBlob env conv call data type
      = some (.ok ⟨some (.string (data.columnBytes conv)), env.typeOf .blob⟩) := by
  -- one branch for the four storage classes
  have hread : deserializeBlob env conv call data type
      = some ((stdString (data.columnBlob conv) (data.columnBytes conv).length).map
        fun s => ⟨some (.string s), env.typeOf .blob⟩) := by
    cases data with
    | null => exact absurd rfl hdata
    | integer v => rfl
    | float v => rfl
    | text s => rfl
    | blob s => rfl
  rw [hread, stdString_columnBlob]
  rfl

/-- What both floating-point methods do; they differ in the wrapper and in the message. -/
def deserializeFloat (conv : Conversions) (null : Void τ) (wrapper : BitVec 64 → Void τ)
    (what : String) : DeserializerMethod τ :=
  fun _ data _ =>
    match data with
    | .null => some (.ok null)
    | .integer v => some (.ok (wrapper (conv.ofInt64 v)))
    | .float v => some (.ok (wrapper v))
    | _ => some (.error (.runtimeError what))

def deserializeFloat32 (env : TypeEnv τ) (conv : Conversions) : DeserializerMethod τ :=
  deserializeFloat conv ⟨none, env.typeOf .float32⟩
    (fun v => ⟨some (.float32 (conv.narrow v)), env.typeOf .float32⟩)
    "[oatpp::sqlite::mapping::Deserializer::deserializeFloat32()]: Error. Unknown OID."

def deserializeFloat64 (env : TypeEnv τ) (conv : Conversions) : DeserializerMethod τ :=
  deserializeFloat conv ⟨none, env.typeOf .float64⟩
    (fun v => ⟨some (.float64 v), env.typeOf .float64⟩)
    "[oatpp::sqlite::mapping::Deserializer::deserializeFloat64()]: Error. Unknown OID."

def deserializeAny (env : TypeEnv τ) : DeserializerMethod τ := fun deserialize data _ =>
  let wrap (valueType : τ) : Option (Except MapError (Void τ)) :=
    (deserialize valueType).map
      (Except.map fun value => ⟨some (.anyHandle value), env.typeOf .any⟩)
  match data with
  | .null => some (.ok ⟨none, env.typeOf .any⟩)
  | .text _ => wrap (env.typeOf .string)
  | .blob _ => wrap (env.typeOf .blob)
  | .integer _ => wrap (env.typeOf (.int .int64))
  | .float _ => wrap (env.typeOf .float64)

def deserializeEnum (env : TypeEnv τ) : DeserializerMethod τ := fun deserialize _ type =>
  let polymorphicDispatcher := env.enumDispatcher type
  (deserialize polymorphicDispatcher.interpretationType).map fun value => do
    match polymorphicDispatcher.fromInterpretation (← value) false with
    | (result, .ok) => .ok result
    | (_, .constraintNotNull) =>
      .error (.runtimeError
        "[oatpp::sqlite::mapping::Deserializer::deserializeEnum()]: Error. Enum constraint violated - 'NotNull'.")
    | (_, _) =>
      .error (.runtimeError
        "[oatpp::sqlite::mapping::Deserializer::deserializeEnum()]: Error. Can't deserialize Enum.")

/-- Whether `deserialize` calls `sqlite3_column_text` on a BLOB. Of the methods only
    `deserializeString` does; an enum's goes on with the type it is interpreted as, and an `Any`'s
    with `Blob`, which is read with `sqlite3_column_blob`. -/
def readsText (env : TypeEnv τ) (methods : MethodTable (DeserializerMethod τ))
    (typeResolver : TypeResolver τ) : Nat → τ → Bool
  | 0, _ => false
  | fuel + 1, type =>
    match methods[env.classId type]? with
    | none => false
    | some (some _) =>
      if env.classId type = env.ids .string then true
      else if env.classId type = env.ids .abstractEnum then
        readsText env methods typeResolver fuel (env.enumDispatcher type).interpretationType
      else false
    | some none =>
      match typeResolver.findInterpretation type with
      | some interpretation =>
        readsText env methods typeResolver fuel interpretation.interpretationType
      | none => false

/-- `deserializeInt` of an integer wrapper. -/
def deserializeIntOf (env : TypeEnv τ) (k : IntKind) : DeserializerMethod τ :=
  deserializeInt ⟨none, env.typeOf (.int k)⟩ (intWrapper env k)

/-- `deserializeInt<oatpp::Boolean>`: the cast makes every value but 0 true. -/
def deserializeBoolean (env : TypeEnv τ) : DeserializerMethod τ :=
  deserializeInt ⟨none, env.typeOf .boolean⟩
    fun v => ⟨some (.boolean (v ≠ 0)), env.typeOf .boolean⟩

/-- The setter calls of the constructor. -/
def deserializerMethods (env : TypeEnv τ) (conv : Conversions) :
    List (ClassName × Option (DeserializerMethod τ)) :=
  [(.string, some (deserializeString env conv)), (.any, some (deserializeAny env)),
   (.int .int8, some (deserializeIntOf env .int8)),
   (.int .uint8, some (deserializeIntOf env .uint8)),
   (.int .int16, some (deserializeIntOf env .int16)),
   (.int .uint16, some (deserializeIntOf env .uint16)),
   (.int .int32, some (deserializeIntOf env .int32)),
   (.int .uint32, some (deserializeIntOf env .uint32)),
   (.int .int64, some (deserializeIntOf env .int64)),
   (.int .uint64, some (deserializeIntOf env .uint64)),
   (.float32, some (deserializeFloat32 env conv)), (.float64, some (deserializeFloat64 env conv)),
   (.boolean, some (deserializeBoolean env)),
   (.abstractObject, none), (.abstractEnum, some (deserializeEnum env)),
   (.abstractVector, none), (.abstractList, none), (.abstractUnorderedSet, none),
   (.abstractPairList, none), (.abstractUnorderedMap, none),
   (.blob, some (deserializeBlob env conv))]

/-- `Deserializer::Deserializer`, when `classCount` classes are registered. -/
def Deserializer (env : TypeEnv τ) (conv : Conversions) (classCount : Nat) :
    MethodTable (DeserializerMethod τ) :=
  MethodTable.build classCount env.ids (deserializerMethods env conv)

/-! ## What it dispatches to

The table is indexed by class ids, which the framework gives out at start-up. Nothing is known of
them but that they differ (`TypeEnv.Lawful`), and that is enough to find a method under the id it
was set for. -/

section

variable {env : TypeEnv τ} {conv : Conversions} {classCount fuel : Nat}
  {typeResolver : TypeResolver τ} {data : Cell} {type : τ} {c : ClassName}
  {method : DeserializerMethod τ}

theorem deserializerMethods_nodup : ((deserializerMethods env conv).map Prod.fst).Nodup := by
  simp [deserializerMethods]

/-- A type of a class that has a method is read by it. -/
theorem deserialize_eq (henv : env.Lawful)
    (hm : (c, some method) ∈ deserializerMethods env conv) (hc : env.classId type = env.ids c) :
    deserialize env (Deserializer env conv classCount) typeResolver data (fuel + 1) type
      = method (deserialize env (Deserializer env conv classCount) typeResolver data fuel)
          data type := by
  unfold deserialize
  rw [hc, Deserializer,
    MethodTable.getElem?_build henv.ids_injective deserializerMethods_nodup hm]

end

end OatppSqlite.Mapping
