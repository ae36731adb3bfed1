import OatppSqlite.Mapping.RoundTrip
import OatppSqlite.Sqlite.Prepare

/-!
# What a column keeps

A value is written as one type and may be read as another: whole numbers between any two of
the nine wrappers, so long as the number is one of both. Strings and blobs are written with
their size, so bytes of value 0 are bytes like the others, and the empty ones are not null.

Between the two stands the bind function, which takes the size as an `int` and refuses what is over
SQLite's limit (`fits`). Its result is not looked at, so a value that it refuses is lost, and the
limit has to be asked for.
-/

set_option autoImplicit false

namespace OatppSqlite.Mapping

open Sqlite

variable {τ : Type}

/-! ## The wrappers of whole numbers

That there are nine of them shows in two lemmas only, what a wrapper writes (`NumberWrapper.writes`)
and what it reads (`NumberWrapper.reads`). In between there is a cell with a number of 64 bits, and
the pairs need no look at each. -/

/-- A wrapper of whole numbers; a `Boolean` is 0 or 1. -/
inductive NumberWrapper where
  | boolean
  | int (k : IntKind)
  deriving DecidableEq, Repr

namespace NumberWrapper

def className : NumberWrapper → ClassName
  | .boolean => .boolean
  | .int k => .int k

/-- What a wrapper that is not null holds. -/
abbrev Value : NumberWrapper → Type
  | .boolean => Bool
  | .int k => BitVec k.width

def payload : (w : NumberWrapper) → w.Value → Payload τ
  | .boolean, b => .boolean b
  | .int k, v => .int k v

/-- The number a value is. -/
def number : (w : NumberWrapper) → w.Value → Int
  | .boolean, b => b.toNat
  | .int k, v => k.value v

section

variable {env : TypeEnv τ} {widen : BitVec 32 → BitVec 64} {conv : Conversions}

/-- What a wrapper writes: NULL, or an integer cell of its number. -/
theorem writes (w : NumberWrapper) :
    ∃ method, (w.className, some method) ∈ serializerMethods env widen ∧
      (∀ call type, method call ⟨none, type⟩ = some (.ok .null)) ∧
      ∀ v : w.Value, ∃ b, (∀ call type, method call ⟨some (w.payload v), type⟩ = some (.ok b)) ∧
        fits b = true ∧ b.cell = .integer (BitVec.ofInt 64 (w.number v)) := by
  cases w with
  | boolean =>
    refine ⟨serializeBoolean, by simp [serializerMethods, className], fun _ _ => rfl,
      fun (v : Bool) => ?_⟩
    refine ⟨.int (if v then 1 else 0), fun _ _ => rfl, rfl, ?_⟩
    cases v <;> rfl
  | int k =>
    refine ⟨_, mem_serializerMethods_int k, fun _ _ => rfl, fun v => ?_⟩
    refine ⟨bindInt k v, fun _ _ => ?_, ?_, cell_bindInt_eq k v⟩
    · simp [bindOrNull, castInt, payload]
    · cases k <;> rfl

/-- What a wrapper reads: a null of its own type, or any number that it can hold. -/
theorem reads (w : NumberWrapper) :
    ∃ method, (w.className, some method) ∈ deserializerMethods env conv ∧
      (∀ call type, method call .null type = some (.ok ⟨none, env.typeOf w.className⟩)) ∧
      ∀ (v : w.Value) call type, method call (.integer (BitVec.ofInt 64 (w.number v))) type
        = some (.ok ⟨some (w.payload v), env.typeOf w.className⟩) := by
  cases w with
  | boolean =>
    refine ⟨deserializeBoolean env, by simp [deserializerMethods, className], fun _ _ => rfl,
      fun (v : Bool) call type => ?_⟩
    cases v <;> rfl
  | int k =>
    refine ⟨_, mem_deserializerMethods_int k, fun _ _ => rfl, fun v call type => ?_⟩
    have hwidth : k.width ≤ 64 := by cases k <;> decide
    -- the cast keeps the low bits, and the number has no others
    have hcut : (BitVec.ofInt 64 (k.value v)).setWidth k.width = v := by
      rw [setWidth_ofInt _ hwidth, IntKind.ofInt_value]
    show some (Except.ok (intWrapper env k (BitVec.ofInt 64 (k.value v)))) = _
    unfold intWrapper
    rw [hcut]
    rfl

end

end NumberWrapper

/-! ## Written, kept and read

`KeptAs` follows a value through all three: bound, taken by the bind function, and read of the cell
that is kept. -/

section

variable {env : TypeEnv τ} {widen : BitVec 32 → BitVec 64} {conv : Conversions}
  {classCount classCount' n m : Nat} {typeResolver : TypeResolver τ} {v v' : Void τ}
  {type wtype rtype : τ}

/-- A value that `serialize` binds, that the bind function takes, and that `deserialize` reads
    from the column it is kept in as the other value. -/
def KeptAs (env : TypeEnv τ) (widen : BitVec 32 → BitVec 64) (conv : Conversions)
    (classCount classCount' : Nat) (typeResolver : TypeResolver τ) (n m : Nat) (v : Void τ)
    (type : τ) (v' : Void τ) : Prop :=
  ∃ b, serialize env (Serializer env widen classCount) n v = some (.ok b) ∧ fits b = true ∧
    deserialize env (Deserializer env conv classCount') typeResolver b.cell m type
      = some (.ok v')

/-- **Whole numbers**: a number of both wrappers is read as it was written. -/
theorem number_keptAs (henv : env.Lawful) (W R : NumberWrapper) (w : W.Value) (r : R.Value)
    (hnumber : R.number r = W.number w) (hw : env.classId wtype = env.ids W.className)
    (hr : env.classId rtype = env.ids R.className) :
    KeptAs env widen conv classCount classCount' typeResolver (n + 1) (m + 1)
      ⟨some (W.payload w), wtype⟩ rtype ⟨some (R.payload r), env.typeOf R.className⟩ := by
  obtain ⟨method, hmethod, -, hwrite⟩ := @NumberWrapper.writes τ env widen W
  obtain ⟨method', hmethod', -, hread⟩ := @NumberWrapper.reads τ env conv R
  obtain ⟨b, hbind, hfits, hcell⟩ := hwrite w
  refine ⟨b, ?_, hfits, ?_⟩
  · rw [serialize_eq henv hmethod hw, hbind]
  · rw [deserialize_eq henv hmethod' hr, hcell, ← hnumber, hread]

theorem null_number_keptAs (henv : env.Lawful) (W R : NumberWrapper)
    (hw : env.classId wtype = env.ids W.className) (hr : env.classId rtype = env.ids R.className) :
    KeptAs env widen conv classCount classCount' typeResolver (n + 1) (m + 1)
      ⟨none, wtype⟩ rtype ⟨none, env.typeOf R.className⟩ := by
  obtain ⟨method, hmethod, hwrite, -⟩ := @NumberWrapper.writes τ env widen W
  obtain ⟨method', hmethod', hread, -⟩ := @NumberWrapper.reads τ env conv R
  refine ⟨.null, ?_, rfl, ?_⟩
  · rw [serialize_eq henv hmethod hw, hwrite]
  · rw [deserialize_eq henv hmethod' hr]
    exact hread _ _

/-- A size within the limit is the same as an `int`. -/
theorem intSize_eq {s : Text} (hs : s.length ≤ lengthLimit) : intSize s = s.length := by
  have hlt : s.length < 2 ^ 31 := Nat.lt_of_le_of_lt hs (by decide)
  have hnat : (BitVec.ofNat 32 s.length).toNat = s.length := by
    rw [BitVec.toNat_ofNat]
    exact Nat.mod_eq_of_lt (by omega)
  unfold intSize
  rw [BitVec.toInt_eq_toNat_of_lt (by omega), hnat]

theorem fits_text {s : Text} (hs : s.length ≤ lengthLimit) : fits (.text s) = true := by
  simp only [fits, intSize_eq hs]
  rw [if_neg (by omega), decide_eq_true_eq]
  exact_mod_cast hs

theorem fits_blob {s : Text} (hs : s.length ≤ lengthLimit) : fits (.blob s) = true := by
  simp only [fits, intSize_eq hs, Bool.and_eq_true, decide_eq_true_eq]
  exact ⟨by omega, by exact_mod_cast hs⟩

/-- **Strings**, whatever their bytes; and a null is not an empty one. -/
theorem string_keptAs (henv : env.Lawful) (hw : env.classId wtype = env.ids .string)
    (hr : env.classId rtype = env.ids .string) :
    (∀ s : Text, s.length ≤ lengthLimit →
      KeptAs env widen conv classCount classCount' typeResolver (n + 1) (m + 1)
        ⟨some (.string s), wtype⟩ rtype ⟨some (.string s), env.typeOf .string⟩) ∧
    KeptAs env widen conv classCount classCount' typeResolver (n + 1) (m + 1)
      ⟨none, wtype⟩ rtype ⟨none, env.typeOf .string⟩ := by
  have hmethod : (ClassName.string, some serializeString) ∈ serializerMethods env widen := by
    simp [serializerMethods]
  have hmethod' : (ClassName.string, some (deserializeString env conv))
      ∈ deserializerMethods env conv := by
    simp [deserializerMethods]
  refine ⟨fun s hs => ⟨.text s, ?_, fits_text hs, ?_⟩, .null, ?_, rfl, ?_⟩
  · rw [serialize_eq henv hmethod hw]
    rfl
  · rw [deserialize_eq henv hmethod' hr]
    rfl
  · rw [serialize_eq henv hmethod hw]
    rfl
  · rw [deserialize_eq henv hmethod' hr]
    rfl

/-- **Blobs**, whatever their bytes, with whichever pointer stands for none of them. -/
theorem blob_keptAs (henv : env.Lawful) (hw : env.classId wtype = env.ids .blob)
    (hr : env.classId rtype = env.ids .blob) :
    (∀ s : Text, s.length ≤ lengthLimit →
      KeptAs env widen conv classCount classCount' typeResolver (n + 1) (m + 1)
        ⟨some (.string s), wtype⟩ rtype ⟨some (.string s), env.typeOf .blob⟩) ∧
    ∃ v', v'.ptr = none ∧
      KeptAs env widen conv classCount classCount' typeResolver (n + 1) (m + 1)
        ⟨none, wtype⟩ rtype v' := by
  have hmethod : (ClassName.blob, some serializeBlob) ∈ serializerMethods env widen := by
    simp [serializerMethods]
  have hmethod' : (ClassName.blob, some (deserializeBlob env conv))
      ∈ deserializerMethods env conv := by
    simp [deserializerMethods]
  refine ⟨fun s hs => ⟨.blob s, ?_, fits_blob hs, ?_⟩, ⟨none, env.typeOf .string⟩, rfl, .null, ?_,
    rfl, ?_⟩
  · rw [serialize_eq henv hmethod hw]
    rfl
  · rw [deserialize_eq henv hmethod' hr]
    exact deserializeBlob_eq (by simp [Bind.cell]) _ _
  · rw [serialize_eq henv hmethod hw]
    rfl
  · rw [deserialize_eq henv hmethod' hr]
    rfl

/-- **What is written is read back.** Whole numbers between any two wrappers that can hold them,
    nulls as nulls, and strings and blobs within SQLite's limit byte for byte, null and empty
    kept apart. -/
theorem values_keptAs (henv : env.Lawful) :
    (∀ (W R : NumberWrapper) (w : W.Value) (r : R.Value) (wtype rtype : τ),
      R.number r = W.number w →
      env.classId wtype = env.ids W.className → env.classId rtype = env.ids R.className →
      KeptAs env widen conv classCount classCount' typeResolver (n + 1) (m + 1)
        ⟨some (W.payload w), wtype⟩ rtype ⟨some (R.payload r), env.typeOf R.className⟩) ∧
    (∀ (W R : NumberWrapper) (wtype rtype : τ),
      env.classId wtype = env.ids W.className → env.classId rtype = env.ids R.className →
      KeptAs env widen conv classCount classCount' typeResolver (n + 1) (m + 1)
        ⟨none, wtype⟩ rtype ⟨none, env.typeOf R.className⟩) ∧
    (∀ (s : Text) (wtype rtype : τ), s.length ≤ lengthLimit →
      env.classId wtype = env.ids .string → env.classId rtype = env.ids .string →
      KeptAs env widen conv classCount classCount' typeResolver (n + 1) (m + 1)
        ⟨some (.string s), wtype⟩ rtype ⟨some (.string s), env.typeOf .string⟩) ∧
    (∀ (s : Text) (wtype rtype : τ), s.length ≤ lengthLimit →
      env.classId wtype = env.ids .blob → env.classId rtype = env.ids .blob →
      KeptAs env widen conv classCount classCount' typeResolver (n + 1) (m + 1)
        ⟨some (.string s), wtype⟩ rtype ⟨some (.string s), env.typeOf .blob⟩) ∧
    (∀ (c : ClassName) (wtype rtype : τ), c = .string ∨ c = .blob →
      env.classId wtype = env.ids c → env.classId rtype = env.ids c →
      ∃ v', v'.ptr = none ∧
        KeptAs env widen conv classCount classCount' typeResolver (n + 1) (m + 1)
          ⟨none, wtype⟩ rtype v') := by
  refine ⟨fun W R w r _ _ hnumber hw hr => number_keptAs henv W R w r hnumber hw hr,
    fun W R _ _ hw hr => null_number_keptAs henv W R hw hr,
    fun s _ _ hs hw hr => (string_keptAs henv hw hr).1 s hs,
    fun s _ _ hs hw hr => (blob_keptAs henv hw hr).1 s hs, ?_⟩
  rintro c wtype rtype (rfl | rfl) hw hr
  · exact ⟨_, rfl, (string_keptAs henv hw hr).2⟩
  · exact (blob_keptAs henv hw hr).2

/-- The largest unsigned number is stored as -1, and an empty blob is not a null. -/
theorem values_keptAs_edges :
    KeptAs (plainEnv []) plainConversions.widen plainConversions 22 22 plainResolver 1 1
      ⟨some (.int .uint64 (BitVec.allOnes 64)), .ofClass (.int .uint64)⟩ (.ofClass (.int .uint64))
      ⟨some (.int .uint64 (BitVec.allOnes 64)), .ofClass (.int .uint64)⟩ ∧
    KeptAs (plainEnv []) plainConversions.widen plainConversions 22 22 plainResolver 1 1
      ⟨some (.string []), .ofClass .blob⟩ (.ofClass .blob) ⟨some (.string []), .ofClass .blob⟩ := by
  obtain ⟨hnumber, -, -, hblob, -⟩ := values_keptAs (n := 0) (m := 0) (plainEnv_lawful [])
  exact ⟨hnumber (.int .uint64) (.int .uint64) _ _ _ _ rfl rfl rfl,
    hblob [] _ _ (by decide) rfl rfl⟩

end

end OatppSqlite.Mapping
