import OatppSqlite.Caret
import Mathlib.Data.List.Basic
import Mathlib.Data.List.Nodup

/-!
# oatpp's values and types, as the mappers see them

The mappers dispatch on a value's type through what the framework says about it: its class id,
and the dispatchers hung on to it. The framework is not part of this repository, so a type is
an opaque reference `τ` and everything it answers is a field of `TypeEnv`; `TypeEnv.Lawful` is
what is relied on. `Void` is a value with its type; a null value has one too.

`MethodTable` is the `std::vector` of methods each mapper keeps, grown by its setter alone. An
access outside of it is undefined behaviour, and the model answers `undefined` there.
-/

set_option autoImplicit false

namespace OatppSqlite.Mapping

/-! ## Classes -/

/-- The integer wrappers. -/
inductive IntKind where
  | int8 | uint8 | int16 | uint16 | int32 | uint32 | int64 | uint64
  deriving DecidableEq, Repr

def IntKind.width : IntKind → Nat
  | .int8 | .uint8 => 8
  | .int16 | .uint16 => 16
  | .int32 | .uint32 => 32
  | .int64 | .uint64 => 64

/-- The `CLASS_ID`s the mappers register methods for. -/
inductive ClassName where
  | void | string | any | int (k : IntKind) | float32 | float64 | boolean
  | abstractObject | abstractEnum | abstractVector | abstractList | abstractUnorderedSet
  | abstractPairList | abstractUnorderedMap | blob
  deriving DecidableEq, Repr

/-! ## Values -/

/-- `ObjectWrapper`: a shared pointer and the type of what it points to. -/
structure ObjectWrapper (π τ : Type) where
  ptr : Option π
  valueType : τ

/-- What a value's pointer points to. -/
inductive Payload (τ : Type) where
  | string (s : Text)
  | int (k : IntKind) (v : BitVec k.width)
  | boolean (b : Bool)
  | float32 (v : BitVec 32)
  | float64 (v : BitVec 64)
  | enumerator (v : Int)
  | anyHandle (value : ObjectWrapper (Payload τ) τ)
  | object (fields : List (Text × ObjectWrapper (Payload τ) τ))
  | collection (items : List (ObjectWrapper (Payload τ) τ))
  | map (entries : List (Text × ObjectWrapper (Payload τ) τ))

/-- `oatpp::Void`, any value. -/
abbrev Void (τ : Type) := ObjectWrapper (Payload τ) τ

/-- The fields of an object, by name. -/
abbrev Object (τ : Type) := List (Text × Void τ)

variable {τ : Type}

/-- `Property::set`; every object has all its properties. -/
def Object.set (o : Object τ) (name : Text) (v : Void τ) : Object τ :=
  o.map fun f => if f.1 = name then (name, v) else f

/-- What a mapper's call ends in if it does not return: the `std::runtime_error` it throws, or
    undefined behaviour. -/
inductive MapError where
  | runtimeError (what : String)
  | undefined
  deriving DecidableEq, Repr

/-! ## What a type answers -/

inductive EnumInterpreterError where
  | ok | constraintNotNull | typeMismatchEnum | typeMismatchEnumValue | entryNotFound
  deriving DecidableEq, Repr

/-- `AbstractEnum::PolymorphicDispatcher`. The mappers pass `false` for the flag, and the error
    is the out parameter. -/
structure EnumDispatcher (τ : Type) where
  interpretationType : τ
  toInterpretation : Void τ → Bool → Void τ × EnumInterpreterError
  fromInterpretation : Void τ → Bool → Void τ × EnumInterpreterError

/-- `BaseObject::Property`; the selector of a polymorphic field looks at the object. -/
structure Property (τ : Type) where
  name : Text
  type : τ
  typeSelector : Option (Object τ → τ)

/-- `Type::AbstractInterpretation`. -/
structure Interpretation (τ : Type) where
  interpretationType : τ
  fromInterpretation : Void τ → Void τ

/-- What the framework answers about a type. `typeOf` is `Class::getType()` of a class that has
    one type; the numbers `ids` are the class ids in the order of registration. -/
structure TypeEnv (τ : Type) where
  ids : ClassName → Nat
  typeOf : ClassName → τ
  classId : τ → Nat
  className : τ → String
  nameQualifier : τ → String
  enumDispatcher : τ → EnumDispatcher τ
  properties : τ → List (Property τ)
  createObject : τ → Object τ
  itemType : τ → τ
  keyType : τ → τ
  mapValueType : τ → τ
  addItem : τ → List (Void τ) → Void τ → List (Void τ)
  addEntry : τ → List (Text × Void τ) → Text → Void τ → List (Text × Void τ)

/-- What is relied on of class ids: each class has its own, and the type of a class has the
    class's. -/
structure TypeEnv.Lawful (env : TypeEnv τ) : Prop where
  ids_injective : Function.Injective env.ids
  classId_typeOf : ∀ c, env.classId (env.typeOf c) = env.ids c

/-- `data::mapping::TypeResolver`, as far as it is called. -/
structure TypeResolver (τ : Type) where
  resolveObjectPropertyValue : Void τ → List Text → Except MapError (Void τ)
  findInterpretation : τ → Option (Interpretation τ)

/-! ## A plain framework

The smallest one with every kind of type in it. Its classes are registered in the order of the
list, and its one object type has the given properties. -/

inductive PlainType where
  | ofClass (c : ClassName)
  | vector (item : PlainType)
  | object
  deriving DecidableEq, Repr

def registeredClasses : List ClassName :=
  [.void, .string, .any, .int .int8, .int .uint8, .int .int16, .int .uint16, .int .int32,
   .int .uint32, .int .int64, .int .uint64, .float32, .float64, .boolean, .abstractObject,
   .abstractEnum, .abstractVector, .abstractList, .abstractUnorderedSet, .abstractPairList,
   .abstractUnorderedMap, .blob]

def PlainType.className : PlainType → ClassName
  | .ofClass c => c
  | .vector _ => .abstractVector
  | .object => .abstractObject

/-- An enum whose values are interpreted as 32-bit integers, null as null. -/
def plainEnum : EnumDispatcher PlainType where
  interpretationType := .ofClass (.int .int32)
  toInterpretation
    | ⟨some (.enumerator v), _⟩, _ =>
      (⟨some (.int .int32 (BitVec.ofInt 32 v)), .ofClass (.int .int32)⟩, .ok)
    | ⟨none, _⟩, _ => (⟨none, .ofClass (.int .int32)⟩, .ok)
    | v, _ => (v, .typeMismatchEnum)
  fromInterpretation
    | ⟨some (.int .int32 v), _⟩, _ =>
      (⟨some (.enumerator v.toInt), .ofClass .abstractEnum⟩, .ok)
    | ⟨none, _⟩, _ => (⟨none, .ofClass .abstractEnum⟩, .ok)
    | v, _ => (v, .typeMismatchEnumValue)

def plainEnv (properties : List (Property PlainType)) : TypeEnv PlainType where
  ids := registeredClasses.idxOf
  typeOf := .ofClass
  classId t := registeredClasses.idxOf t.className
  className _ := "Plain"
  nameQualifier _ := "Plain"
  enumDispatcher _ := plainEnum
  properties
    | .object => properties
    | _ => []
  createObject _ := properties.map fun p => (p.name, ⟨none, p.type⟩)
  itemType
    | .vector item => item
    | t => t
  keyType _ := .ofClass .string
  mapValueType _ := .ofClass .string
  addItem _ items v := items ++ [v]
  addEntry _ entries k v := entries ++ [(k, v)]

theorem plainEnv_lawful (properties : List (Property PlainType)) :
    (plainEnv properties).Lawful where
  ids_injective c c' h := by
    have hall : ∀ c : ClassName, c ∈ registeredClasses := by
      intro c
      cases c with
      | int k => cases k <;> decide
      | _ => decide
    exact (List.idxOf_inj (hall c)).mp h
  classId_typeOf _ := rfl

/-- Properties are resolved one level deep, and no interpretation is enabled. -/
def plainResolver : TypeResolver PlainType where
  resolveObjectPropertyValue
    | v, [] => .ok v
    | ⟨some (.object fields), _⟩, [name] =>
      .ok ((fields.lookup name).getD ⟨none, .ofClass .void⟩)
    | _, _ => .ok ⟨none, .ofClass .void⟩
  findInterpretation _ := none

/-! ## Method tables -/

section MethodTable

variable {M : Type}

/-- The table of a mapper: a method, or a null pointer, for each class id below its size. -/
abbrev MethodTable (M : Type) := List (Option M)

/-- `set*Method`: the table grows to hold the id. -/
def MethodTable.set (t : MethodTable M) (id : Nat) (method : Option M) : MethodTable M :=
  (t ++ List.replicate (id + 1 - t.length) none : List (Option M)).set id method

/-- A mapper's constructor: a table of `classCount` null pointers, and one setter call after
    another. -/
def MethodTable.build (classCount : Nat) (ids : ClassName → Nat)
    (methods : List (ClassName × Option M)) : MethodTable M :=
  methods.foldl (fun t m => t.set (ids m.1) m.2) (List.replicate classCount none)

variable {t : MethodTable M} {id i : Nat} {m : Option M}

theorem MethodTable.getElem?_set_self : (t.set id m)[id]? = some m := by
  unfold MethodTable.set
  rw [List.getElem?_set_self]
  rw [List.length_append, List.length_replicate]
  omega

theorem MethodTable.getElem?_set_of_some (h : i ≠ id) (hi : i < t.length) :
    (t.set id m)[i]? = t[i]? := by
  unfold MethodTable.set
  rw [List.getElem?_set_ne h.symm, List.getElem?_append_left hi]

/-- A method in the table was set, or was there before. -/
theorem MethodTable.getElem?_set_some {x : M} (h : (t.set id m)[i]? = some (some x)) :
    (id = i ∧ m = some x) ∨ t[i]? = some (some x) := by
  by_cases hid : id = i
  · subst hid
    rw [MethodTable.getElem?_set_self, Option.some.injEq] at h
    exact Or.inl ⟨rfl, h⟩
  · refine Or.inr ?_
    unfold MethodTable.set at h
    rw [List.getElem?_set_ne hid, List.getElem?_append] at h
    split at h
    · exact h
    · have hnone := List.eq_of_mem_replicate (List.mem_of_getElem? h)
      cases hnone

/-- Setting other classes' methods does not touch a method that is set. -/
theorem MethodTable.getElem?_foldl {ids : ClassName → Nat} (hids : Function.Injective ids)
    {c : ClassName} {m : Option M} (ms : List (ClassName × Option M))
    (hc : ∀ e ∈ ms, e.1 ≠ c) (ht : t[ids c]? = some m) :
    (ms.foldl (fun t e => MethodTable.set t (ids e.1) e.2) t)[ids c]? = some m := by
  induction ms generalizing t with
  | nil => exact ht
  | cons e ms ih =>
    refine ih (fun e he => hc e (List.mem_cons_of_mem _ he)) ?_
    have hne : ids c ≠ ids e.1 := fun h => hc e List.mem_cons_self (hids h.symm)
    rw [MethodTable.getElem?_set_of_some hne (List.getElem?_eq_some_iff.mp ht).1, ht]

/-- **The method of a class** is the one the constructor set for it. -/
theorem MethodTable.getElem?_build {ids : ClassName → Nat} (hids : Function.Injective ids)
    {classCount : Nat} {methods : List (ClassName × Option M)} {c : ClassName} {m : Option M}
    (hnodup : (methods.map Prod.fst).Nodup) (hm : (c, m) ∈ methods) :
    (MethodTable.build classCount ids methods)[ids c]? = some m := by
  obtain ⟨pre, post, rfl⟩ := List.append_of_mem hm
  have hpost : ∀ e ∈ post, e.1 ≠ c := by
    rw [List.map_append, List.map_cons, List.nodup_append] at hnodup
    rintro e he rfl
    exact (List.nodup_cons.mp hnodup.2.1).1 (List.mem_map.mpr ⟨e, he, rfl⟩)
  unfold MethodTable.build
  rw [List.foldl_append, List.foldl_cons]
  exact MethodTable.getElem?_foldl hids post hpost MethodTable.getElem?_set_self

/-- Every method in the table of a mapper is one its constructor set. -/
theorem MethodTable.mem_of_getElem?_build {ids : ClassName → Nat} {classCount : Nat}
    {methods : List (ClassName × Option M)} {x : M}
    (h : (MethodTable.build classCount ids methods)[i]? = some (some x)) :
    ∃ c, (c, some x) ∈ methods ∧ ids c = i := by
  have hfold : ∀ (ms : List (ClassName × Option M)) (t : MethodTable M),
      (ms.foldl (fun t e => MethodTable.set t (ids e.1) e.2) t)[i]? = some (some x) →
        (∃ c, (c, some x) ∈ ms ∧ ids c = i) ∨ t[i]? = some (some x) := by
    intro ms
    induction ms with
    | nil => exact fun t ht => Or.inr ht
    | cons e ms ih =>
      intro t ht
      rcases ih _ ht with ⟨c, hmem, hc⟩ | hset
      · exact Or.inl ⟨c, List.mem_cons_of_mem _ hmem, hc⟩
      · rcases MethodTable.getElem?_set_some hset with ⟨hid, he⟩ | hbefore
        · exact Or.inl ⟨e.1, he ▸ List.mem_cons_self, hid⟩
        · exact Or.inr hbefore
  rcases hfold methods _ h with hset | hbefore
  · exact hset
  · have hnone := List.eq_of_mem_replicate (List.mem_of_getElem? hbefore)
    cases hnone

end MethodTable

end OatppSqlite.Mapping
