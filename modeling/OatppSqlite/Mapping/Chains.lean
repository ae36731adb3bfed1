import OatppSqlite.Lib.Chain
import OatppSqlite.Mapping.Copies

/-!
# Chains of interpretations

`Deserializer::deserialize` goes on to another type where the type is an enum, an `Any`, or one
without a method that an interpretation is enabled for, and nothing bounds how often it does. What
it goes on with is a chain of types (`readsOn`): it calls itself without end exactly if the chain
comes back to a type it has been at, and else the value is what the last type of the chain reads,
taken back through the interpretations one by one (`deserialize_ends_iff`).

Which type comes next depends on the type and, for an `Any`, on the storage class of the cell, but on
nothing that was read before. So there is one chain for a cell and a type, and the general facts
about chains (`Chain`) apply to it.
-/

set_option autoImplicit false

namespace OatppSqlite.Mapping

variable {τ : Type}

section

variable (env : TypeEnv τ) (conv : Conversions) (classCount : Nat) (typeResolver : TypeResolver τ)
  (data : Cell)

/-- One call of `deserialize`, where the calls that it makes itself are answered by `call`. -/
def deserializeCall (call : τ → Option (Except MapError (Void τ))) (type : τ) :
    Option (Except MapError (Void τ)) :=
  match (Deserializer env conv classCount)[env.classId type]? with
  | none => some (.error .undefined)
  | some (some method) => method call data type
  | some none =>
    match typeResolver.findInterpretation type with
    | some interpretation =>
      (call interpretation.interpretationType).map (Except.map interpretation.fromInterpretation)
    | none =>
      some (.error (.runtimeError ("[oatpp::sqlite::mapping::Deserializer::deserialize()]: "
        ++ "Error. No deserialize method for type '" ++ env.className type ++ "'")))

/-- The type that `deserialize` goes on with. -/
def readsOn (type : τ) : Option τ :=
  match (Deserializer env conv classCount)[env.classId type]? with
  | none => none
  | some none => (typeResolver.findInterpretation type).map Interpretation.interpretationType
  | some (some _) =>
    if env.classId type = env.ids .abstractEnum then
      some (env.enumDispatcher type).interpretationType
    else if env.classId type = env.ids .any ∧ data ≠ .null then some (anyType env data)
    else none

/-- What a type reads that does not go on. -/
def lastRead (type : τ) : Except MapError (Void τ) :=
  (deserializeCall env conv classCount typeResolver data (fun _ => none) type).getD
    (.error .undefined)

/-- What a type that goes on makes of the answer. -/
def takenBack (type : τ) (r : Except MapError (Void τ)) : Except MapError (Void τ) :=
  (deserializeCall env conv classCount typeResolver data (fun _ => some r) type).getD r

end

section

variable {env : TypeEnv τ} {conv : Conversions} {classCount n : Nat}
  {typeResolver : TypeResolver τ} {data : Cell} {type : τ} {c : ClassName}
  {method : DeserializerMethod τ} {widen : BitVec 32 → BitVec 64}

theorem deserialize_succ (type : τ) :
    deserialize env (Deserializer env conv classCount) typeResolver data (n + 1) type
      = deserializeCall env conv classCount typeResolver data
          (deserialize env (Deserializer env conv classCount) typeResolver data n) type := by
  rw [deserialize]
  unfold deserializeCall
  cases (Deserializer env conv classCount)[env.classId type]? with
  | none => rfl
  | some entry =>
    cases entry with
    | some method => rfl
    | none => rfl

/-- A scalar's class is none of those that go on. -/
theorem ScalarClass.ids_ne (henv : env.Lawful) (hc : ScalarClass c) :
    env.ids c ≠ env.ids .abstractEnum ∧ env.ids c ≠ env.ids .any := by
  constructor
  · intro h
    obtain rfl := henv.ids_injective h
    rcases hc with ⟨⟨⟩⟩
  · intro h
    obtain rfl := henv.ids_injective h
    rcases hc with ⟨⟨⟩⟩

/-- A scalar's method makes no call. -/
theorem scalar_method_alone (henv : env.Lawful) (hc : ScalarClass c)
    (hm : (c, some method) ∈ deserializerMethods env conv) (data : Cell) (type : τ) :
    ∃ r, ∀ call, method call data type = some r := by
  obtain ⟨method', hm', hwrites⟩ :=
    exists_writesCopy henv hc (fun v => v.setWidth 64) conv type data
  have hsame : method' = method := by
    have hpair := List.inj_on_of_nodup_map deserializerMethods_nodup hm' hm rfl
    simpa using hpair
  subst hsame
  cases hcopy : copied (fun v => v.setWidth 64) conv c data with
  | some data' =>
    rw [hcopy] at hwrites
    obtain ⟨v, hv, -⟩ := hwrites
    exact ⟨_, hv⟩
  | none =>
    rw [hcopy] at hwrites
    obtain ⟨what, hwhat⟩ := hwrites
    exact ⟨_, hwhat⟩

/-- An enum's method makes one call, and takes the answer back. -/
theorem deserializeEnum_call (call : τ → Option (Except MapError (Void τ))) (data : Cell)
    (type : τ) :
    deserializeEnum env call data type
      = (call (env.enumDispatcher type).interpretationType).map fun r =>
          (deserializeEnum env (fun _ => some r) data type).getD r := by
  unfold deserializeEnum
  dsimp only
  cases call (env.enumDispatcher type).interpretationType with
  | none => rfl
  | some r => rfl

theorem deserializeAny_call (hdata : data ≠ .null)
    (call : τ → Option (Except MapError (Void τ))) (type : τ) :
    deserializeAny env call data type
      = (call (anyType env data)).map fun r =>
          (deserializeAny env (fun _ => some r) data type).getD r := by
  rw [deserializeAny_eq hdata]
  cases call (anyType env data) with
  | none => rfl
  | some r =>
    rw [Option.map_some, Option.map_some, deserializeAny_eq hdata]
    rfl

variable (conv classCount typeResolver data) in
/-- **One call goes on with one type, or with none.** -/
theorem deserializeCall_cases (henv : env.Lawful) (type : τ) :
    (readsOn env conv classCount typeResolver data type = none ∧
      ∃ r, ∀ call, deserializeCall env conv classCount typeResolver data call type = some r) ∨
    ∃ t, readsOn env conv classCount typeResolver data type = some t ∧
      ∀ call, deserializeCall env conv classCount typeResolver data call type
        = (call t).map (takenBack env conv classCount typeResolver data type) := by
  unfold takenBack readsOn deserializeCall
  cases hentry : (Deserializer env conv classCount)[env.classId type]? with
  | none => exact Or.inl ⟨rfl, _, fun _ => rfl⟩
  | some entry =>
    cases entry with
    | none =>
      -- no method for the class: an interpretation, or an exception
      cases hfind : typeResolver.findInterpretation type with
      | none => exact Or.inl ⟨rfl, _, fun _ => rfl⟩
      | some interpretation => exact Or.inr ⟨_, rfl, fun _ => rfl⟩
    | some method =>
      obtain ⟨c, hm, hid⟩ := MethodTable.mem_of_getElem?_build hentry
      dsimp only
      rw [← hid]
      rcases class_of_deserializer hm with hc | ⟨rfl, rfl⟩ | ⟨rfl, rfl⟩
      · obtain ⟨henum, hany⟩ := hc.ids_ne henv
        obtain ⟨r, hr⟩ := scalar_method_alone henv hc hm data type
        refine Or.inl ⟨?_, r, hr⟩
        rw [if_neg henum, if_neg (fun h => hany h.1)]
      · have henum : env.ids .any ≠ env.ids .abstractEnum := by
          intro h
          have hc := henv.ids_injective h
          cases hc
        rw [if_neg henum]
        by_cases hdata : data = .null
        · -- a null Any, whatever is in the column
          subst hdata
          exact Or.inl ⟨by simp, _, fun _ => rfl⟩
        · exact Or.inr ⟨_, by simp [hdata], fun call => deserializeAny_call hdata call type⟩
      · rw [if_pos rfl]
        exact Or.inr ⟨_, rfl, fun call => deserializeEnum_call call data type⟩

variable (conv classCount typeResolver data) in
/-- **`deserialize` calls itself along the chain.** -/
theorem deserialize_along (henv : env.Lawful) :
    Chain.Along (readsOn env conv classCount typeResolver data)
      (lastRead env conv classCount typeResolver data)
      (takenBack env conv classCount typeResolver data)
      (deserialize env (Deserializer env conv classCount) typeResolver data) where
  zero _ := rfl
  ended n type h := by
    rcases deserializeCall_cases conv classCount typeResolver data henv type with
      ⟨-, r, hr⟩ | ⟨t, ht, -⟩
    · rw [deserialize_succ, hr, lastRead, hr]
      rfl
    · cases h.symm.trans ht
  step n type t h := by
    rcases deserializeCall_cases conv classCount typeResolver data henv type with
      ⟨hnone, -⟩ | ⟨t', ht, hcall⟩
    · cases hnone.symm.trans h
    · cases ht.symm.trans h
      rw [deserialize_succ, hcall]

/-- **Where `deserialize` ends.** Among finitely many types it calls itself without end exactly if
    the chain comes back to a type it has been at. Else as many calls as there are types are
    enough, and what it returns or throws is what the last type of the chain reads, taken back
    through the types before it; no bound on the calls gives anything else. -/
theorem deserialize_ends_iff (henv : env.Lawful) {types : List τ}
    (hclosed : Chain.Closed (readsOn env conv classCount typeResolver data) types)
    (htype : type ∈ types) :
    ((∀ n, deserialize env (Deserializer env conv classCount) typeResolver data n type = none) ↔
        Chain.Cycles (readsOn env conv classCount typeResolver data) type) ∧
      (¬ Chain.Cycles (readsOn env conv classCount typeResolver data) type →
        ∃ r, deserialize env (Deserializer env conv classCount) typeResolver data types.length type
          = some r) ∧
      ∀ n r, deserialize env (Deserializer env conv classCount) typeResolver data n type = some r →
        Chain.Answer (readsOn env conv classCount typeResolver data)
          (lastRead env conv classCount typeResolver data)
          (takenBack env conv classCount typeResolver data) type r ∧
        ∀ m, n ≤ m →
          deserialize env (Deserializer env conv classCount) typeResolver data m type = some r := by
  have halong := deserialize_along conv classCount typeResolver data henv
  refine ⟨?_, ?_, ?_⟩
  · rw [← hclosed.endless_iff_cycles htype]
    constructor
    · intro h n
      exact halong.eq_none_iff.mp (h n)
    · intro h n
      exact halong.eq_none_iff.mpr (h n)
  · intro hcycles
    have hend := (hclosed.ends_or_cycles htype).resolve_right hcycles
    apply Option.ne_none_iff_exists'.mp
    intro hnone
    exact halong.eq_none_iff.mp hnone hend
  · intro n r h
    obtain ⟨hend, hanswer⟩ := halong.eq_some_iff.mp h
    refine ⟨hanswer, ?_⟩
    intro m hm
    exact halong.eq_some_iff.mpr ⟨Chain.walk_none_of_le hend hm, hanswer⟩

end

/-! ### An interpretation that ends, and two that do not -/

/-- An object is interpreted as an enum, which is interpreted as an integer; and vectors of strings
    and of integers are interpreted as each other. -/
def windingResolver : TypeResolver PlainType where
  resolveObjectPropertyValue := plainResolver.resolveObjectPropertyValue
  findInterpretation
    | .object => some ⟨.ofClass .abstractEnum, fun v => ⟨v.ptr, .object⟩⟩
    | .vector (.ofClass .string) =>
      some ⟨.vector (.ofClass (.int .int32)), fun v => ⟨v.ptr, .vector (.ofClass .string)⟩⟩
    | .vector (.ofClass (.int .int32)) =>
      some ⟨.vector (.ofClass .string), fun v => ⟨v.ptr, .vector (.ofClass (.int .int32))⟩⟩
    | _ => none

def windingTypes : List PlainType :=
  [.object, .ofClass .abstractEnum, .ofClass (.int .int32), .vector (.ofClass .string),
    .vector (.ofClass (.int .int32))]

theorem windingTypes_closed (data : Cell) :
    Chain.Closed (readsOn (plainEnv []) plainConversions 23 windingResolver data) windingTypes := by
  intro a ha b h
  simp only [windingTypes, List.mem_cons, List.not_mem_nil, or_false] at ha
  rcases ha with rfl | rfl | rfl | rfl | rfl
  · change some (PlainType.ofClass .abstractEnum) = some b at h
    cases h
    decide
  · change some (PlainType.ofClass (.int .int32)) = some b at h
    cases h
    decide
  · change none = some b at h
    cases h
  · change some (PlainType.vector (.ofClass (.int .int32))) = some b at h
    cases h
    decide
  · change some (PlainType.vector (.ofClass .string)) = some b at h
    cases h
    decide

theorem deserialize_ends_iff_winding :
    (∃ r, deserialize (plainEnv []) (Deserializer (plainEnv []) plainConversions 23)
        windingResolver (.integer 7) 5 .object = some r) ∧
      ∀ n, deserialize (plainEnv []) (Deserializer (plainEnv []) plainConversions 23)
        windingResolver (.integer 7) n (.vector (.ofClass .string)) = none := by
  have hobject : PlainType.object ∈ windingTypes := by decide
  have hstrings : PlainType.vector (.ofClass .string) ∈ windingTypes := by decide
  obtain ⟨-, hends, -⟩ := deserialize_ends_iff (plainEnv_lawful [])
    (windingTypes_closed (.integer 7)) hobject
  obtain ⟨hendless, -, -⟩ := deserialize_ends_iff (plainEnv_lawful [])
    (windingTypes_closed (.integer 7)) hstrings
  refine ⟨hends ?_, hendless.mpr ⟨0, 2, _, rfl, by decide, rfl⟩⟩
  intro hcycles
  exact hcycles.endless 3 rfl

end OatppSqlite.Mapping
