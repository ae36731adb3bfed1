import OatppSqlite.Mapping.Types

/-!
# `mapping/Serializer.cpp`

Every serialize method makes exactly one `sqlite3_bind_*` call, at the index it is given, so
what a method computes here is that call (`Bind`). A method is called with the serializer it
belongs to, and the only thing it does with it is to serialize something else: that is the first
argument of a `SerializerMethod`.

The chain of enum interpretations has no bound in the code, so `serialize` takes one; `none`
means the bound was too small.
-/

set_option autoImplicit false

namespace OatppSqlite.Mapping

/-- A `sqlite3_bind_*` call, without the statement and the index. -/
inductive Bind where
  | null
  | int (v : BitVec 32)
  | int64 (v : BitVec 64)
  | double (v : BitVec 64)
  | text (s : Text)
  | blob (s : Text)
  deriving DecidableEq, Repr

variable {τ : Type}

abbrev SerializerMethod (τ : Type) :=
  (Void τ → Option (Except MapError Bind)) → Void τ → Option (Except MapError Bind)

/-- `Serializer::serialize`. -/
def serialize (env : TypeEnv τ) (methods : MethodTable (SerializerMethod τ)) :
    Nat → Void τ → Option (Except MapError Bind)
  | 0, _ => none
  | fuel + 1, polymorph =>
    match methods[env.classId polymorph.valueType]? with
    | none => some (.error .undefined)
    | some (some method) => method (serialize env methods fuel) polymorph
    | some none =>
      some (.error (.runtimeError ("[oatpp::sqlite::mapping::Serializer::serialize()]: "
        ++ "Error. No serialize method for type '" ++ env.className polymorph.valueType ++ "'")))

/-! ## The serialize methods -/

/-- The shape of all methods but the last: a null value is bound as NULL, and a pointer is read
    as what the method casts it to. -/
def bindOrNull (bind : Payload τ → Option Bind) : SerializerMethod τ := fun _ polymorph =>
  match polymorph.ptr with
  | none => some (.ok .null)
  | some p =>
    match bind p with
    | some b => some (.ok b)
    | none => some (.error .undefined)

/-- The pointer, cast to an integer wrapper's and converted for the bind call. -/
def castInt (k : IntKind) (bind : BitVec k.width → Bind) : Payload τ → Option Bind
  | .int k' v => if h : k' = k then some (bind (h ▸ v)) else none
  | _ => none

def serializeString : SerializerMethod τ :=
  bindOrNull fun | .string s => some (.text s) | _ => none

def serializeBlob : SerializerMethod τ :=
  bindOrNull fun | .string s => some (.blob s) | _ => none

def serializeInt8 : SerializerMethod τ :=
  bindOrNull (castInt .int8 fun v => .int (v.signExtend 32))

def serializeUInt8 : SerializerMethod τ :=
  bindOrNull (castInt .uint8 fun v => .int (v.zeroExtend 32))

def serializeInt16 : SerializerMethod τ :=
  bindOrNull (castInt .int16 fun v => .int (v.signExtend 32))

def serializeUInt16 : SerializerMethod τ :=
  bindOrNull (castInt .uint16 fun v => .int (v.zeroExtend 32))

def serializeInt32 : SerializerMethod τ := bindOrNull (castInt .int32 fun v => .int v)

def serializeUInt32 : SerializerMethod τ :=
  bindOrNull (castInt .uint32 fun v => .int64 (v.zeroExtend 64))

def serializeInt64 : SerializerMethod τ := bindOrNull (castInt .int64 fun v => .int64 v)

def serializeUInt64 : SerializerMethod τ := bindOrNull (castInt .uint64 fun v => .int64 v)

/-- `float` to `double` is the platform's conversion. -/
def serializeFloat32 (widen : BitVec 32 → BitVec 64) : SerializerMethod τ :=
  bindOrNull fun | .float32 v => some (.double (widen v)) | _ => none

def serializeFloat64 : SerializerMethod τ :=
  bindOrNull fun | .float64 v => some (.double v) | _ => none

def serializeBoolean : SerializerMethod τ :=
  bindOrNull fun | .boolean b => some (.int (if b then 1 else 0)) | _ => none

def serializeEnum (env : TypeEnv τ) : SerializerMethod τ := fun serialize polymorph =>
  match (env.enumDispatcher polymorph.valueType).toInterpretation polymorph false with
  | (enumInterpretation, .ok) => serialize enumInterpretation
  | (_, .constraintNotNull) =>
    some (.error (.runtimeError
      "[oatpp::sqlite::mapping::Serializer::serializeEnum()]: Error. Enum constraint violated - 'NotNull'."))
  | (_, _) =>
    some (.error (.runtimeError
      "[oatpp::sqlite::mapping::Serializer::serializeEnum()]: Error. Can't serialize Enum."))

/-- The setter calls of the constructor. -/
def serializerMethods (env : TypeEnv τ) (widen : BitVec 32 → BitVec 64) :
    List (ClassName × Option (SerializerMethod τ)) :=
  [(.string, some serializeString), (.any, none),
   (.int .int8, some serializeInt8), (.int .uint8, some serializeUInt8),
   (.int .int16, some serializeInt16), (.int .uint16, some serializeUInt16),
   (.int .int32, some serializeInt32), (.int .uint32, some serializeUInt32),
   (.int .int64, some serializeInt64), (.int .uint64, some serializeUInt64),
   (.float32, some (serializeFloat32 widen)), (.float64, some serializeFloat64),
   (.boolean, some serializeBoolean),
   (.abstractObject, none), (.abstractEnum, some (serializeEnum env)),
   (.abstractVector, none), (.abstractList, none), (.abstractUnorderedSet, none),
   (.abstractPairList, none), (.abstractUnorderedMap, none),
   (.blob, some serializeBlob)]

/-- `Serializer::Serializer`, when `classCount` classes are registered. -/
def Serializer (env : TypeEnv τ) (widen : BitVec 32 → BitVec 64) (classCount : Nat) :
    MethodTable (SerializerMethod τ) :=
  MethodTable.build classCount env.ids (serializerMethods env widen)

/-! ## What it dispatches to -/

section

variable {env : TypeEnv τ} {widen : BitVec 32 → BitVec 64} {classCount fuel : Nat}
  {v : Void τ} {c : ClassName} {method : SerializerMethod τ}

theorem serializerMethods_nodup : ((serializerMethods env widen).map Prod.fst).Nodup := by
  simp [serializerMethods]

/-- A value of a class that has a method is serialized by it. -/
theorem serialize_eq (henv : env.Lawful)
    (hm : (c, some method) ∈ serializerMethods env widen)
    (hv : env.classId v.valueType = env.ids c) :
    serialize env (Serializer env widen classCount) (fuel + 1) v
      = method (serialize env (Serializer env widen classCount) fuel) v := by
  unfold serialize
  rw [hv, Serializer,
    MethodTable.getElem?_build henv.ids_injective serializerMethods_nodup hm]

end

end OatppSqlite.Mapping
