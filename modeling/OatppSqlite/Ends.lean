import OatppSqlite.AnyRows
import OatppSqlite.Mapping.Chains
import OatppSqlite.Mapping.ObjectRow

/-!
# Calls that end

Where every enabled interpretation, and the one of every enum, leads down to a type of a lower
rank, the mappers always come to an end, whatever the values, the cells and the types are: each
calls itself no more often than the ranks allow, and so `fetch` returns or throws
(`mapping_ends`).
-/

set_option autoImplicit false

namespace OatppSqlite

open Mapping Sqlite

variable {τ : Type}

/-- Interpretations lead down. -/
structure Ranked (env : TypeEnv τ) (typeResolver : TypeResolver τ) (rank : τ → Nat) : Prop where
  enumeration : ∀ type, env.classId type = env.ids .abstractEnum →
    rank (env.enumDispatcher type).interpretationType < rank type
  interpretation : ∀ type i, typeResolver.findInterpretation type = some i →
    rank i.interpretationType < rank type

/-- **What is relied on of an enum's interpreter**: the value it gives has the interpretation's
    type. -/
def EnumsTyped (env : TypeEnv τ) : Prop :=
  ∀ type v w, env.classId type = env.ids .abstractEnum →
    (env.enumDispatcher type).toInterpretation v false = (w, .ok) →
    w.valueType = (env.enumDispatcher type).interpretationType

section

variable {env : TypeEnv τ} {conv : Conversions} {widen : BitVec 32 → BitVec 64}
  {classCount n bound : Nat} {typeResolver : TypeResolver τ} {rank : τ → Nat} {data : Cell}
  {type t : τ} {v : Mapping.Void τ} {c : ClassName}

/-! ## Values -/

theorem bindOrNull_alone (bind : Payload τ → Option Bind) (v : Mapping.Void τ) :
    ∃ r, ∀ call, bindOrNull bind call v = some r := by
  unfold bindOrNull
  cases v.ptr with
  | none => exact ⟨_, fun _ => rfl⟩
  | some p =>
    dsimp only
    cases bind p with
    | none => exact ⟨_, fun _ => rfl⟩
    | some b => exact ⟨_, fun _ => rfl⟩

/-- Only an enum's method goes on. -/
theorem serializer_alone {method : SerializerMethod τ}
    (hm : (c, some method) ∈ serializerMethods env widen) (v : Mapping.Void τ) :
    (∃ r, ∀ call, method call v = some r) ∨ (c = .abstractEnum ∧ method = serializeEnum env) := by
  simp only [serializerMethods, List.mem_cons, Prod.mk.injEq, Option.some.injEq, reduceCtorEq,
    and_false, List.not_mem_nil, or_false, false_or] at hm
  rcases hm with ⟨-, rfl⟩ | ⟨-, rfl⟩ | ⟨-, rfl⟩ | ⟨-, rfl⟩ | ⟨-, rfl⟩ | ⟨-, rfl⟩ | ⟨-, rfl⟩ |
    ⟨-, rfl⟩ | ⟨-, rfl⟩ | ⟨-, rfl⟩ | ⟨-, rfl⟩ | ⟨-, rfl⟩ | ⟨rfl, rfl⟩ | ⟨-, rfl⟩
  · exact Or.inl (bindOrNull_alone _ v)
  · exact Or.inl (bindOrNull_alone _ v)
  · exact Or.inl (bindOrNull_alone _ v)
  · exact Or.inl (bindOrNull_alone _ v)
  · exact Or.inl (bindOrNull_alone _ v)
  · exact Or.inl (bindOrNull_alone _ v)
  · exact Or.inl (bindOrNull_alone _ v)
  · exact Or.inl (bindOrNull_alone _ v)
  · exact Or.inl (bindOrNull_alone _ v)
  · exact Or.inl (bindOrNull_alone _ v)
  · exact Or.inl (bindOrNull_alone _ v)
  · exact Or.inl (bindOrNull_alone _ v)
  · exact Or.inr ⟨rfl, rfl⟩
  · exact Or.inl (bindOrNull_alone _ v)

/-- **A value is serialized** in no more calls than its rank. -/
theorem serialize_ends (hranked : Ranked env typeResolver rank) (henums : EnumsTyped env)
    (h : rank v.valueType < n) :
    serialize env (Serializer env widen classCount) n v ≠ none := by
  induction n generalizing v with
  | zero => omega
  | succ n ih =>
    unfold serialize
    cases hentry : (Serializer env widen classCount)[env.classId v.valueType]? with
    | none => simp
    | some entry =>
      cases entry with
      | none => simp
      | some method =>
        obtain ⟨c, hm, hid⟩ := MethodTable.mem_of_getElem?_build hentry
        dsimp only
        rcases serializer_alone hm v with ⟨r, hr⟩ | ⟨rfl, rfl⟩
        · simp [hr]
        · unfold serializeEnum
          split
          · rename_i w hto
            apply ih
            rw [henums _ _ _ hid.symm hto]
            have hlower := hranked.enumeration _ hid.symm
            omega
          · simp
          · simp

/-! ## Cells

A rank bounds the chain of a type, but for an `Any`: what an `Any` goes on with is a class of its own
with a method, so it costs one call more. -/

/-- What an `Any` goes on with goes on no further. -/
theorem readsOn_anyType (henv : env.Lawful) (hdata : data ≠ .null) :
    readsOn env conv classCount typeResolver data (anyType env data) = none := by
  obtain ⟨c, hc, htype, -⟩ := copied_anyType env (fun v => v.setWidth 64) conv hdata
  obtain ⟨method, hm⟩ : ∃ method, (c, some method) ∈ deserializerMethods env conv :=
    exists_deserializer (Or.inl hc)
  obtain ⟨henum, hany⟩ := hc.ids_ne henv
  unfold readsOn
  rw [htype, henv.classId_typeOf, Deserializer,
    MethodTable.getElem?_build henv.ids_injective deserializerMethods_nodup hm]
  dsimp only
  rw [if_neg henum, if_neg (fun h => hany h.1)]

theorem readsOn_lower (henv : env.Lawful) (hranked : Ranked env typeResolver rank)
    (h : readsOn env conv classCount typeResolver data type = some t) :
    rank t < rank type ∨ readsOn env conv classCount typeResolver data t = none := by
  unfold readsOn at h
  split at h
  · cases h
  · obtain ⟨i, hfind, rfl⟩ := Option.map_eq_some_iff.mp h
    exact Or.inl (hranked.interpretation type i hfind)
  · split at h
    · rename_i henum
      cases h
      exact Or.inl (hranked.enumeration type henum)
    · split at h
      · rename_i hany
        cases h
        exact Or.inr (readsOn_anyType henv hany.2)
      · cases h

theorem readsOn_ends (henv : env.Lawful) (hranked : Ranked env typeResolver rank) (data : Cell)
    (h : rank type + 1 < n) :
    Chain.walk (readsOn env conv classCount typeResolver data) n type = none := by
  induction n generalizing type with
  | zero => omega
  | succ n ih =>
    rw [Chain.walk]
    cases hon : readsOn env conv classCount typeResolver data type with
    | none => rfl
    | some t =>
      rw [Option.bind_some]
      rcases readsOn_lower henv hranked hon with hlower | hlast
      · apply ih
        omega
      · -- an Any's type has no rank, but it is the last one
        obtain ⟨k, rfl⟩ : ∃ k, n = k + 1 := ⟨n - 1, by omega⟩
        rw [Chain.walk, hlast]
        rfl

variable (conv classCount) in
/-- **A cell is deserialized** in no more calls than the rank of the type, and one for an `Any`. -/
theorem deserialize_ends (henv : env.Lawful) (hranked : Ranked env typeResolver rank)
    (data : Cell) (h : rank type + 1 < n) :
    deserialize env (Deserializer env conv classCount) typeResolver data n type ≠ none := by
  have halong := deserialize_along conv classCount typeResolver data henv
  intro hnone
  exact halong.eq_none_iff.mp hnone (readsOn_ends henv hranked data h)

/-! ## Rows

A row costs the calls of its own interpretations and, for each column, those of a cell. Columns are
read one after the other, with the same bound. -/

variable {read : Cell → τ → Mapped (Mapping.Void τ)} {row : List (Text × Cell)}

theorem foldlM_ends {α β : Type} {step : β → α → Mapped β} {l : List α}
    (h : ∀ b, ∀ a ∈ l, step b a ≠ ExceptT.mk none) (b : β) :
    l.foldlM step b ≠ ExceptT.mk none := by
  induction l generalizing b with
  | nil =>
    intro hnone
    cases hnone
  | cons a l ih =>
    intro hnone
    rw [List.foldlM_cons] at hnone
    rcases Mapped.bind_endless hnone with hfirst | ⟨b', -, hrest⟩
    · exact h b a List.mem_cons_self hfirst
    · exact ih (fun b a ha => h b a (List.mem_cons_of_mem _ ha)) b' hrest

/-- A step that reads a column and goes on with what was read. -/
theorem read_bind_ends {α : Type} {f : Mapping.Void τ → α} {cell : Cell}
    (h : read cell type ≠ ExceptT.mk none) :
    (do return f (← read cell type) : Mapped α) ≠ ExceptT.mk none := by
  intro hnone
  rcases Mapped.bind_endless hnone with hread | ⟨v, -, hv⟩
  · exact h hread
  · cases hv

theorem readOneRowAsCollection_ends (hread : ∀ cell type, read cell type ≠ ExceptT.mk none) :
    readOneRowAsCollection env read row type ≠ ExceptT.mk none := by
  intro hnone
  rcases Mapped.bind_endless hnone with hloop | ⟨items, -, hitems⟩
  · exact foldlM_ends (fun items c hc => read_bind_ends (hread _ _)) [] hloop
  · cases hitems

theorem readOneRowAsMap_ends (hread : ∀ cell type, read cell type ≠ ExceptT.mk none) :
    readOneRowAsMap env read row type ≠ ExceptT.mk none := by
  intro hnone
  unfold readOneRowAsMap at hnone
  split at hnone
  · cases hnone
  · rcases Mapped.bind_endless hnone with hloop | ⟨entries, -, hentries⟩
    · exact foldlM_ends (fun entries c hc => read_bind_ends (hread _ _)) [] hloop
    · cases hentries

/-- Whatever the selectors pick. -/
theorem setPolymorphs_ends (hread : ∀ cell type, read cell type ≠ ExceptT.mk none)
    (polymorphs : List (Property τ × Cell)) (object : Object τ) :
    setPolymorphs read polymorphs object ≠ ExceptT.mk none := by
  induction polymorphs generalizing object with
  | nil =>
    intro hnone
    cases hnone
  | cons p polymorphs ih =>
    obtain ⟨field, cell⟩ := p
    rw [setPolymorphs]
    cases field.typeSelector with
    | none => exact ih object
    | some selectType =>
      intro hnone
      rcases Mapped.bind_endless hnone with hcell | ⟨v, -, hrest⟩
      · exact hread cell _ hcell
      · exact ih _ hrest

variable [DecidableEq τ]

theorem readOneRowAsObject_ends (hread : ∀ cell type, read cell type ≠ ExceptT.mk none) :
    readOneRowAsObject env read row type ≠ ExceptT.mk none := by
  intro hnone
  rcases Mapped.bind_endless hnone with hcolumns | ⟨⟨object, polymorphs⟩, -, hnone⟩
  · obtain ⟨c, -, field, -, -, hcell⟩ := setColumns_endless hcolumns
    exact hread _ _ hcell
  · rcases Mapped.bind_endless hnone with hpolymorphs | ⟨object', -, hobject⟩
    · exact setPolymorphs_ends hread polymorphs object hpolymorphs
    · cases hobject

theorem readOneRowMethods_ends {method : ReadOneRowMethod τ}
    (hm : (c, some method) ∈ readOneRowMethods env)
    (hread : ∀ cell type, read cell type ≠ ExceptT.mk none) :
    method read row type ≠ ExceptT.mk none := by
  simp only [readOneRowMethods, List.mem_cons, Prod.mk.injEq, Option.some.injEq,
    List.not_mem_nil, or_false] at hm
  rcases hm with ⟨-, rfl⟩ | ⟨-, rfl⟩ | ⟨-, rfl⟩ | ⟨-, rfl⟩ | ⟨-, rfl⟩ | ⟨-, rfl⟩
  · exact readOneRowAsObject_ends hread
  · exact readOneRowAsCollection_ends hread
  · exact readOneRowAsCollection_ends hread
  · exact readOneRowAsCollection_ends hread
  · exact readOneRowAsMap_ends hread
  · exact readOneRowAsMap_ends hread

/-- **A row is read** in no more calls than the rank of its type, and those for a column. -/
theorem readOneRow_ends (henv : env.Lawful) (hranked : Ranked env typeResolver rank)
    (hbound : ∀ type, rank type ≤ bound) (row : List (Text × Cell))
    (h : rank type + bound + 2 < n) :
    readOneRow env (ResultMapper.construct env conv classCount) typeResolver row n type
      ≠ ExceptT.mk none := by
  induction n generalizing type with
  | zero => omega
  | succ n ih =>
    unfold readOneRow
    dsimp only [ResultMapper.construct] at ih ⊢
    cases hentry : (MethodTable.build classCount env.ids
      (readOneRowMethods env))[env.classId type]? with
    | none =>
      intro hnone
      cases hnone
    | some entry =>
      cases entry with
      | some method =>
        -- a method goes on with the columns
        obtain ⟨c, hm, -⟩ := MethodTable.mem_of_getElem?_build hentry
        apply readOneRowMethods_ends hm
        intro cell type'
        have hrank := hbound type'
        exact deserialize_ends conv classCount henv hranked cell (by omega)
      | none =>
        cases hfind : typeResolver.findInterpretation type with
        | none =>
          intro hnone
          cases hnone
        | some i =>
          -- and without one the row is read once more, as a lower type
          have hlower := hranked.interpretation type i hfind
          intro hnone
          rcases Mapped.bind_endless hnone with hrow | ⟨v, -, hv⟩
          · exact ih (by omega) hrow
          · cases hv

/-! ## Fetching -/

end

/-! ### Objects as enums, and enums as integers -/

def loweringResolver : TypeResolver PlainType where
  resolveObjectPropertyValue := plainResolver.resolveObjectPropertyValue
  findInterpretation
    | .object => some ⟨.ofClass .abstractEnum, fun v => ⟨v.ptr, .object⟩⟩
    | _ => none

def plainRank : PlainType → Nat
  | .object => 2
  | .ofClass .abstractEnum => 1
  | _ => 0

theorem loweringResolver_ranked : Ranked (plainEnv []) loweringResolver plainRank where
  enumeration type h := by
    have hclass : type.className = .abstractEnum := (plainEnv_lawful []).ids_injective h
    cases type with
    | ofClass c =>
      obtain rfl : c = .abstractEnum := hclass
      decide
    | vector item => cases hclass
    | object => cases hclass
  interpretation type i h := by
    cases type with
    | ofClass c => cases h
    | vector item => cases h
    | object =>
      cases h
      decide

theorem plainEnv_enumsTyped : EnumsTyped (plainEnv []) := by
  intro type v w _ h
  change plainEnum.toInterpretation v false = (w, .ok) at h
  change w.valueType = .ofClass (.int .int32)
  unfold plainEnum at h
  dsimp only at h
  split at h
  · cases h
    rfl
  · cases h
    rfl
  · cases h

end OatppSqlite
