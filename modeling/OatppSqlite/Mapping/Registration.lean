import OatppSqlite.Mapping.ResultMapper

/-!
# Class ids and method tables

The constructors give each table one slot for every class that is registered by then, and a
setter makes room for the class it is called for; the four lookups make no room and do not look
whether there is any. So they are safe as long as no class is registered after the mapper is
constructed. `Registry` is the class counter with the mappers there are, and a history is what
happened to them, the latest event first. `lookup_inside_iff` says of every history which
lookups have a slot to look at: those of a class that was there when the mapper was constructed,
or that a setter has made room for since.

`Covered` reads this off the history, and says nothing of tables. That the tables are as long as it
says is the invariant `Registry.Agrees`, kept by each event (one lemma for those that change a
table) and so by every history. What a lookup inside of a table ends in is a fact about one mapper
(`endsInOrder_of_lt`), whatever history it has.
-/

set_option autoImplicit false

namespace OatppSqlite.Mapping

variable {τ : Type}

/-! ## Sizes of tables -/

section

variable {M : Type} {t : MethodTable M} {id : Nat} {m : Option M}

theorem MethodTable.length_set : (MethodTable.set t id m).length = max t.length (id + 1) := by
  unfold MethodTable.set
  rw [List.length_set, List.length_append, List.length_replicate]
  omega

/-- The constructor's own setter calls need no more room. -/
theorem MethodTable.length_build {classCount : Nat} {ids : ClassName → Nat}
    {methods : List (ClassName × Option M)} (hids : ∀ e ∈ methods, ids e.1 < classCount) :
    (MethodTable.build classCount ids methods).length = classCount := by
  have hfold : ∀ (ms : List (ClassName × Option M)) (t : MethodTable M),
      (∀ e ∈ ms, ids e.1 < t.length) →
        (ms.foldl (fun t e => MethodTable.set t (ids e.1) e.2) t).length = t.length := by
    intro ms
    induction ms with
    | nil => exact fun t _ => rfl
    | cons e ms ih =>
      intro t ht
      have hlen : (MethodTable.set t (ids e.1) e.2).length = t.length := by
        rw [MethodTable.length_set]
        exact Nat.max_eq_left (ht e List.mem_cons_self)
      rw [List.foldl_cons, ih _ fun e' he' => hlen ▸ ht e' (List.mem_cons_of_mem _ he'), hlen]
  unfold MethodTable.build
  rw [hfold methods _ (by simpa using hids), List.length_replicate]

end

/-! ## Mappers -/

inductive Table where
  | serializer | deserializer | readOneRow | readRows
  deriving DecidableEq, Repr

/-- The classes that have tables. -/
inductive MapperClass where
  | serializer | deserializer | resultMapper
  deriving DecidableEq, Repr

inductive Mapper (τ : Type) where
  | serializer (methods : MethodTable (SerializerMethod τ))
  | deserializer (methods : MethodTable (DeserializerMethod τ))
  | resultMapper (mapper : ResultMapper τ)

/-- The size of a table, if the mapper has it. -/
def Mapper.size : Mapper τ → Table → Option Nat
  | .serializer methods, .serializer => some methods.length
  | .deserializer methods, .deserializer => some methods.length
  | .resultMapper mapper, .deserializer => some mapper.deserializer.length
  | .resultMapper mapper, .readOneRow => some mapper.readOneRowMethods.length
  | .resultMapper mapper, .readRows => some mapper.readRowsMethods.length
  | _, _ => none

/-- A `set*Method` call, without its class id; the method may be null. -/
inductive Setter (τ : Type) where
  | serializer (method : Option (SerializerMethod τ))
  | deserializer (method : Option (DeserializerMethod τ))
  | readOneRow (method : Option (ReadOneRowMethod τ))
  | readRows (method : Option Unit)

def Setter.table : Setter τ → Table
  | .serializer _ => .serializer
  | .deserializer _ => .deserializer
  | .readOneRow _ => .readOneRow
  | .readRows _ => .readRows

/-- The deserializer of a `ResultMapper` is out of reach. -/
def Setter.call (id : Nat) : Setter τ → Mapper τ → Option (Mapper τ)
  | .serializer method, .serializer methods =>
    some (.serializer (MethodTable.set methods id method))
  | .deserializer method, .deserializer methods =>
    some (.deserializer (MethodTable.set methods id method))
  | .readOneRow method, .resultMapper mapper =>
    some (.resultMapper { mapper with
      readOneRowMethods := MethodTable.set mapper.readOneRowMethods id method })
  | .readRows method, .resultMapper mapper =>
    some (.resultMapper { mapper with
      readRowsMethods := MethodTable.set mapper.readRowsMethods id method })
  | _, _ => none

/-- A setter makes room in its table. -/
theorem Setter.size_call {setter : Setter τ} {id : Nat} {o o' : Mapper τ} {table : Table}
    {size' : Nat} (h : setter.call id o = some o') (hsize : o'.size table = some size') :
    ∃ size, o.size table = some size ∧
      size' = if setter.table = table then max size (id + 1) else size := by
  cases setter <;> cases o <;> cases h <;> cases table <;> cases hsize <;>
    simp [Mapper.size, Setter.table, MethodTable.length_set]

/-! ## Calls -/

/-- The calls that look up a method; the bounds of the chains are one above `fuel`. -/
inductive Call (τ : Type) where
  | serialize (fuel : Nat) (polymorph : Void τ)
  | deserialize (typeResolver : TypeResolver τ) (data : Cell) (fuel : Nat) (type : τ)
  | readOneRow (typeResolver : TypeResolver τ) (row : List (Text × Cell)) (fuel : Nat) (type : τ)
  | readRows (typeResolver : TypeResolver τ) (fuel : Nat) (dbData : ResultData) (type : τ)
    (count : Int)

def Call.table : Call τ → Table
  | .serialize _ _ => .serializer
  | .deserialize _ _ _ _ => .deserializer
  | .readOneRow _ _ _ _ => .readOneRow
  | .readRows _ _ _ _ _ => .readRows

/-- The type the call looks up. -/
def Call.type : Call τ → τ
  | .serialize _ polymorph => polymorph.valueType
  | .deserialize _ _ _ type => type
  | .readOneRow _ _ _ type => type
  | .readRows _ _ _ type _ => type

/-- A slot was looked at, with a method in it or without. -/
def SlotGives {M : Type} (t : MethodTable M) (id : Nat) (withMethod : M → Prop)
    (without : Prop) : Prop :=
  (∃ method, t[id]? = some (some method) ∧ withMethod method) ∨ (t[id]? = some none ∧ without)

/-- The deserializer a mapper reads with. -/
def Mapper.deserializer? : Mapper τ → Option (MethodTable (DeserializerMethod τ))
  | .deserializer methods => some methods
  | .resultMapper mapper => some mapper.deserializer
  | .serializer _ => none

variable [DecidableEq τ]

/-- A call ends in the method of the type, in its interpretation, or in the exception for a type
    without a method. -/
def EndsInOrder (env : TypeEnv τ) (o : Mapper τ) : Call τ → Prop
  | .serialize fuel polymorph => ∃ methods, o = .serializer methods ∧
    SlotGives methods (env.classId polymorph.valueType)
      (fun method => serialize env methods (fuel + 1) polymorph
        = method (serialize env methods fuel) polymorph)
      (∃ what, serialize env methods (fuel + 1) polymorph = some (.error (.runtimeError what)))
  | .deserialize typeResolver data fuel type => ∃ methods, o.deserializer? = some methods ∧
    SlotGives methods (env.classId type)
      (fun method => deserialize env methods typeResolver data (fuel + 1) type
        = method (deserialize env methods typeResolver data fuel) data type)
      ((∃ i, typeResolver.findInterpretation type = some i ∧
        deserialize env methods typeResolver data (fuel + 1) type
          = (deserialize env methods typeResolver data fuel i.interpretationType).map
            (Except.map i.fromInterpretation)) ∨
      ∃ what, deserialize env methods typeResolver data (fuel + 1) type
        = some (.error (.runtimeError what)))
  | .readOneRow typeResolver row fuel type => ∃ mapper, o = .resultMapper mapper ∧
    SlotGives mapper.readOneRowMethods (env.classId type)
      (fun method => readOneRow env mapper typeResolver row (fuel + 1) type
        = method (fun cell type =>
            deserialize env mapper.deserializer typeResolver cell fuel type) row type)
      ((∃ i, typeResolver.findInterpretation type = some i ∧
        readOneRow env mapper typeResolver row (fuel + 1) type
          = i.fromInterpretation <$>
            readOneRow env mapper typeResolver row fuel i.interpretationType) ∨
      ∃ what, readOneRow env mapper typeResolver row (fuel + 1) type
        = throw (.runtimeError what))
  | .readRows typeResolver fuel dbData type count => ∃ mapper, o = .resultMapper mapper ∧
    SlotGives mapper.readRowsMethods (env.classId type)
      (fun _ => readRows env mapper typeResolver fuel dbData type count
        = readRowsAsCollection env mapper typeResolver fuel dbData type count)
      (∃ what, readRows env mapper typeResolver fuel dbData type count
        = some (⟨dbData, [], 0⟩, some (.runtimeError what)))

omit [DecidableEq τ] in
theorem slotGives_of_lt {M : Type} {t : MethodTable M} {id : Nat} {withMethod : M → Prop}
    {without : Prop} (h : id < t.length)
    (hmethod : ∀ method, t[id]? = some (some method) → withMethod method)
    (hnone : t[id]? = some none → without) : SlotGives t id withMethod without := by
  obtain ⟨slot, hslot⟩ : ∃ slot, t[id]? = some slot := ⟨_, List.getElem?_eq_getElem h⟩
  cases slot with
  | none => exact Or.inr ⟨hslot, hnone hslot⟩
  | some method => exact Or.inl ⟨method, hslot, hmethod method hslot⟩

/-- **Inside the table every call ends in order**, by the three ways that the source has for a slot: a
    method, no method but an interpretation, and neither. -/
theorem endsInOrder_of_lt {env : TypeEnv τ} {o : Mapper τ} {call : Call τ} {size : Nat}
    (hsize : o.size call.table = some size) (h : env.classId call.type < size) :
    EndsInOrder env o call := by
  cases call with
  | serialize fuel polymorph =>
    cases o <;> cases hsize
    rename_i methods
    refine ⟨methods, rfl, slotGives_of_lt h (fun method hslot => ?_) fun hslot => ?_⟩
    · rw [serialize, hslot]
    · rw [serialize, hslot]
      exact ⟨_, rfl⟩
  | deserialize typeResolver data fuel type =>
    -- a result mapper has a deserializer of its own, with the table of that
    have hmethods : ∃ methods, o.deserializer? = some methods ∧ methods.length = size := by
      cases o with
      | serializer methods => cases hsize
      | deserializer methods => exact ⟨methods, rfl, Option.some.inj hsize⟩
      | resultMapper mapper => exact ⟨mapper.deserializer, rfl, Option.some.inj hsize⟩
    obtain ⟨methods, hmethods, rfl⟩ := hmethods
    refine ⟨methods, hmethods, slotGives_of_lt h (fun method hslot => ?_) fun hslot => ?_⟩
    · simp only [deserialize, hslot]
    · simp only [deserialize, hslot]
      cases hfind : typeResolver.findInterpretation type with
      | some i => exact Or.inl ⟨i, rfl, rfl⟩
      | none => exact Or.inr ⟨_, rfl⟩
  | readOneRow typeResolver row fuel type =>
    cases o <;> cases hsize
    rename_i mapper
    refine ⟨mapper, rfl, slotGives_of_lt h (fun method hslot => ?_) fun hslot => ?_⟩
    · simp only [readOneRow, hslot]
    · simp only [readOneRow, hslot]
      cases hfind : typeResolver.findInterpretation type with
      | some i =>
        refine Or.inl ⟨i, rfl, ?_⟩
        simp only [map_eq_pure_bind]
      | none => exact Or.inr ⟨_, rfl⟩
  | readRows typeResolver fuel dbData type count =>
    cases o <;> cases hsize
    rename_i mapper
    refine ⟨mapper, rfl, slotGives_of_lt h (fun method hslot => ?_) fun hslot => ?_⟩
    · simp only [readRows, hslot]
    · simp only [readRows, hslot]
      exact ⟨_, rfl⟩

/-! ## Constructors -/

/-- The constructors, when `classCount` classes are registered. -/
def MapperClass.construct (env : TypeEnv τ) (widen : BitVec 32 → BitVec 64) (conv : Conversions)
    (classCount : Nat) : MapperClass → Mapper τ
  | .serializer => .serializer (Serializer env widen classCount)
  | .deserializer => .deserializer (Deserializer env conv classCount)
  | .resultMapper => .resultMapper (ResultMapper.construct env conv classCount)

/-- The classes a constructor sets methods for. -/
def MapperClass.classes (env : TypeEnv τ) (widen : BitVec 32 → BitVec 64) (conv : Conversions) :
    MapperClass → List ClassName
  | .serializer => (serializerMethods env widen).map Prod.fst
  | .deserializer => (deserializerMethods env conv).map Prod.fst
  | .resultMapper => (deserializerMethods env conv).map Prod.fst
      ++ (readOneRowMethods env).map Prod.fst ++ readRowsMethods.map Prod.fst

/-- A new table has a slot for every class there is. -/
theorem MapperClass.size_construct {env : TypeEnv τ} {widen : BitVec 32 → BitVec 64}
    {conv : Conversions} {classCount size : Nat} {cls : MapperClass} {table : Table}
    (hids : ∀ c ∈ cls.classes env widen conv, env.ids c < classCount)
    (hsize : (cls.construct env widen conv classCount).size table = some size) :
    size = classCount := by
  have hlen : ∀ {M : Type} {methods : List (ClassName × Option M)},
      (∀ c ∈ methods.map Prod.fst, env.ids c < classCount) →
        (MethodTable.build classCount env.ids methods).length = classCount :=
    fun h => MethodTable.length_build fun e he => h e.1 (List.mem_map_of_mem he)
  cases cls with
  | serializer =>
    cases table <;>
      simp only [MapperClass.construct, Mapper.size, reduceCtorEq, Option.some.injEq] at hsize
    exact hsize ▸ hlen hids
  | deserializer =>
    cases table <;>
      simp only [MapperClass.construct, Mapper.size, reduceCtorEq, Option.some.injEq] at hsize
    exact hsize ▸ hlen hids
  | resultMapper =>
    unfold MapperClass.classes at hids
    cases table <;>
      simp only [MapperClass.construct, ResultMapper.construct, Mapper.size, reduceCtorEq,
        Option.some.injEq] at hsize
    · exact hsize ▸ hlen fun c hc => hids c (by simp only [List.mem_append, hc, true_or])
    · exact hsize ▸ hlen fun c hc => hids c (by simp only [List.mem_append, hc, true_or, or_true])
    · exact hsize ▸ hlen fun c hc => hids c (by simp only [List.mem_append, hc, or_true])

/-! ## Histories

Ids are handed out one after the other, so a class is registered before another one exactly if its
id is smaller. This is all that an id tells, and `Covered` compares ids for that reason. -/

/-- `ClassId::getClassCount()`, and the mappers in the order they were constructed. -/
structure Registry (τ : Type) where
  classCount : Nat
  mappers : List (Mapper τ)

/-- A class is registered and takes the next id; a mapper is constructed; a setter is called on
    the mapper `m`; a method is looked up in one of its tables. A call looks up a method for
    every type it comes by, the one it was made for and those that this one is interpreted as. -/
inductive Event (τ : Type) where
  | registerClass
  | construct (cls : MapperClass)
  | set (m id : Nat) (setter : Setter τ)
  | lookup (m : Nat) (table : Table) (type : τ)

/-- No event comes by a class id before it was handed out. -/
def Registry.step (env : TypeEnv τ) (widen : BitVec 32 → BitVec 64) (conv : Conversions)
    (s : Registry τ) : Event τ → Option (Registry τ)
  | .registerClass => some { s with classCount := s.classCount + 1 }
  | .construct cls =>
    if ∀ c ∈ cls.classes env widen conv, env.ids c < s.classCount then
      some { s with mappers := s.mappers ++ [cls.construct env widen conv s.classCount] }
    else none
  | .set m id setter =>
    if id < s.classCount then
      match (s.mappers[m]?).bind (setter.call id) with
      | some o => some { s with mappers := s.mappers.set m o }
      | none => none
    else none
  | .lookup m table type =>
    if env.classId type < s.classCount ∧ ((s.mappers[m]?).bind (·.size table)).isSome then some s
    else none

/-- A history, the latest event first. -/
def Registry.run (env : TypeEnv τ) (widen : BitVec 32 → BitVec 64) (conv : Conversions) :
    List (Event τ) → Option (Registry τ)
  | [] => some ⟨0, []⟩
  | e :: before => (Registry.run env widen conv before).bind (Registry.step env widen conv · e)

/-- The number of classes that were registered. -/
def classesIn : List (Event τ) → Nat
  | [] => 0
  | .registerClass :: before => classesIn before + 1
  | _ :: before => classesIn before

/-- The number of mappers that were constructed. -/
def mappersIn : List (Event τ) → Nat
  | [] => 0
  | .construct _ :: before => mappersIn before + 1
  | _ :: before => mappersIn before

/-- **There is room for a class** in a table of the mapper `m`: it was registered before the
    mapper was constructed, or the table's setter was called later for it or for a class that was
    registered after it. -/
def Covered (m : Nat) (table : Table) (id : Nat) : List (Event τ) → Prop
  | [] => False
  | .construct _ :: before => (mappersIn before = m ∧ id < classesIn before) ∨
      Covered m table id before
  | .set m' id' setter :: before => (m' = m ∧ setter.table = table ∧ id ≤ id') ∨
      Covered m table id before
  | _ :: before => Covered m table id before

/-- The lookup of the id is inside the table. -/
def Registry.Inside (s : Registry τ) (m : Nat) (table : Table) (id : Nat) : Prop :=
  ∃ o size, s.mappers[m]? = some o ∧ o.size table = some size ∧ id < size

section

variable {env : TypeEnv τ} {widen : BitVec 32 → BitVec 64} {conv : Conversions}
  {s s' : Registry τ} {history before : List (Event τ)} {m id : Nat} {table : Table} {type : τ}

/-- What a history has led to: the tables have room for the classes that it covers. -/
structure Registry.Agrees (s : Registry τ) (history : List (Event τ)) : Prop where
  classCount_eq : s.classCount = classesIn history
  length_eq : s.mappers.length = mappersIn history
  size_iff : ∀ m o table size, s.mappers[m]? = some o → o.size table = some size →
    ∀ id, id < size ↔ Covered m table id history
  covered_lt : ∀ m table id, Covered m table id history → m < mappersIn history

omit [DecidableEq τ] in
theorem Registry.Agrees.start : (⟨0, []⟩ : Registry τ).Agrees [] where
  classCount_eq := rfl
  length_eq := rfl
  size_iff m o table size ho := by simp at ho
  covered_lt m table id h := h.elim

/-- A new mapper has room for the classes there are. -/
theorem Registry.Agrees.construct (h : s.Agrees before) {cls : MapperClass}
    (hids : ∀ c ∈ cls.classes env widen conv, env.ids c < s.classCount) :
    Registry.Agrees
      { s with mappers := s.mappers ++ [cls.construct env widen conv s.classCount] }
      (.construct cls :: before) where
  classCount_eq := h.classCount_eq
  length_eq := by
    rw [List.length_append, h.length_eq]
    rfl
  size_iff m o table size ho hsize id := by
    dsimp only at ho
    rw [List.getElem?_append, h.length_eq] at ho
    unfold Covered
    split at ho
    · -- an older mapper: its tables are as they were
      rename_i hm
      rw [h.size_iff m o table size ho hsize id]
      exact ⟨Or.inr, Or.rec (fun hnew => absurd hnew.1 (Nat.ne_of_gt hm)) fun hold => hold⟩
    · -- the new one, of which no earlier event can speak
      rename_i hm
      have hlast : m = mappersIn before := by
        have hlt := (List.getElem?_eq_some_iff.mp ho).1
        rw [List.length_singleton] at hlt
        omega
      rw [hlast, Nat.sub_self, List.getElem?_cons_zero, Option.some.injEq] at ho
      subst ho
      rw [MapperClass.size_construct hids hsize, h.classCount_eq]
      refine ⟨fun hid => Or.inl ⟨hlast.symm, hid⟩, Or.rec (fun hnew => hnew.2) fun hold => ?_⟩
      exact absurd (h.covered_lt m table id hold) hm
  covered_lt m table id hc := by
    unfold mappersIn
    rcases hc with ⟨rfl, -⟩ | hc
    · exact Nat.lt_succ_self _
    · exact Nat.lt_succ_of_lt (h.covered_lt m table id hc)

omit [DecidableEq τ] in
/-- A setter makes room for the class it is called for. -/
theorem Registry.Agrees.set (h : s.Agrees before) {setter : Setter τ} {o o' : Mapper τ}
    (ho : s.mappers[m]? = some o) (hcall : setter.call id o = some o') :
    Registry.Agrees { s with mappers := s.mappers.set m o' } (.set m id setter :: before) where
  classCount_eq := h.classCount_eq
  length_eq := by
    rw [List.length_set, h.length_eq]
    rfl
  size_iff n p table size hp hsize i := by
    dsimp only at hp
    unfold Covered
    by_cases hn : m = n
    · subst hn
      rw [List.getElem?_set_self (List.getElem?_eq_some_iff.mp ho).1, Option.some.injEq] at hp
      subst hp
      obtain ⟨size₀, hsize₀, rfl⟩ := Setter.size_call hcall hsize
      have hold := h.size_iff m o table size₀ ho hsize₀ i
      by_cases htable : setter.table = table
      · have hmax : i < max size₀ (id + 1) ↔ i < size₀ ∨ i ≤ id := by omega
        rw [if_pos htable, ← hold, hmax]
        exact ⟨Or.rec Or.inr fun hi => Or.inl ⟨rfl, htable, hi⟩,
          Or.rec (fun hset => Or.inr hset.2.2) Or.inl⟩
      · rw [if_neg htable, hold]
        exact ⟨Or.inr, Or.rec (fun hset => absurd hset.2.1 htable) fun hi => hi⟩
    · rw [List.getElem?_set_ne hn] at hp
      rw [h.size_iff n p table size hp hsize i]
      exact ⟨Or.inr, Or.rec (fun hset => absurd hset.1 hn) fun hi => hi⟩
  covered_lt n table i hc := by
    show n < mappersIn before
    rcases hc with ⟨rfl, -, -⟩ | hc
    · rw [← h.length_eq]
      exact (List.getElem?_eq_some_iff.mp ho).1
    · exact h.covered_lt n table i hc

/-- One event, whichever it is. -/
theorem Registry.Agrees.step (h : s.Agrees before) {e : Event τ}
    (hstep : s.step env widen conv e = some s') : s'.Agrees (e :: before) := by
  cases e with
  | registerClass =>
    cases hstep
    exact ⟨congrArg Nat.succ h.classCount_eq, h.length_eq, h.size_iff, h.covered_lt⟩
  | construct cls =>
    unfold Registry.step at hstep
    dsimp only at hstep
    split at hstep
    · rename_i hids
      cases hstep
      exact h.construct hids
    · cases hstep
  | set m id setter =>
    unfold Registry.step at hstep
    dsimp only at hstep
    split at hstep
    · split at hstep
      · rename_i o' hcall
        cases hstep
        obtain ⟨o, ho, hcall⟩ := Option.bind_eq_some_iff.mp hcall
        exact h.set ho hcall
      · cases hstep
    · cases hstep
  | lookup m table type =>
    unfold Registry.step at hstep
    dsimp only at hstep
    split at hstep
    · cases hstep
      exact ⟨h.classCount_eq, h.length_eq, h.size_iff, h.covered_lt⟩
    · cases hstep

/-- **Every history.** -/
theorem Registry.run_agrees (h : Registry.run env widen conv history = some s) :
    s.Agrees history := by
  induction history generalizing s with
  | nil =>
    cases h
    exact .start
  | cons e before ih =>
    obtain ⟨s₀, hbefore, hstep⟩ := Option.bind_eq_some_iff.mp h
    exact (ih hbefore).step hstep

/-- A lookup changes nothing, and its mapper has the table. -/
theorem Registry.run_lookup
    (h : Registry.run env widen conv (.lookup m table type :: before) = some s) :
    Registry.run env widen conv before = some s ∧
      ∃ o size, s.mappers[m]? = some o ∧ o.size table = some size := by
  obtain ⟨s₀, hbefore, hstep⟩ := Option.bind_eq_some_iff.mp h
  unfold Registry.step at hstep
  dsimp only at hstep
  split at hstep
  · rename_i hguard
    cases hstep
    obtain ⟨size, hsize⟩ := Option.isSome_iff_exists.mp hguard.2
    obtain ⟨o, ho, hsize⟩ := Option.bind_eq_some_iff.mp hsize
    exact ⟨hbefore, o, size, ho, hsize⟩
  · cases hstep

end

/-! ## Lookups -/

section

variable {env : TypeEnv τ} {widen : BitVec 32 → BitVec 64} {conv : Conversions}
  {s : Registry τ} {before : List (Event τ)} {m : Nat} {table : Table} {type : τ}

/-- **A lookup is inside its table** exactly if there is room for the class; and then every call
    that makes it ends in order. -/
theorem lookup_inside_iff
    (h : Registry.run env widen conv (.lookup m table type :: before) = some s) :
    (s.Inside m table (env.classId type) ↔ Covered m table (env.classId type) before) ∧
    (Covered m table (env.classId type) before → ∀ o, s.mappers[m]? = some o →
      ∀ call : Call τ, call.table = table → call.type = type → EndsInOrder env o call) := by
  obtain ⟨hbefore, o, size, ho, hsize⟩ := Registry.run_lookup h
  have hiff := (Registry.run_agrees hbefore).size_iff m o table size ho hsize (env.classId type)
  constructor
  · rw [← hiff]
    constructor
    · rintro ⟨o', size', ho', hsize', hlt⟩
      rw [ho, Option.some.injEq] at ho'
      subst ho'
      rw [hsize, Option.some.injEq] at hsize'
      exact hsize' ▸ hlt
    · exact fun hlt => ⟨o, size, ho, hsize, hlt⟩
  · rintro hcovered o' ho' call rfl rfl
    rw [ho, Option.some.injEq] at ho'
    subst ho'
    exact endsInOrder_of_lt hsize (hiff.mpr hcovered)

end

/-- A framework in which the class of objects is registered after all others. -/
def lateEnv : TypeEnv PlainType :=
  { plainEnv [] with
    classId := fun type => if type = .object then 22 else registeredClasses.idxOf type.className }

/-- A setter that is called for a class makes room for it. -/
theorem lookup_inside_iff_set : ∃ s,
    Registry.run lateEnv plainConversions.widen plainConversions
      (.lookup 0 .deserializer .object :: .set 0 22 (.deserializer none) :: .registerClass ::
        .construct .deserializer :: List.replicate 22 .registerClass) = some s ∧
      s.Inside 0 .deserializer (lateEnv.classId .object) := by
  have hrun : (Registry.run lateEnv plainConversions.widen plainConversions
      (.lookup 0 .deserializer .object :: .set 0 22 (.deserializer none) :: .registerClass ::
        .construct .deserializer :: List.replicate 22 .registerClass)).isSome = true := by
    decide +kernel
  obtain ⟨s, hs⟩ := Option.isSome_iff_exists.mp hrun
  exact ⟨s, hs, (lookup_inside_iff hs).1.mpr (Or.inl ⟨rfl, rfl, Nat.le_refl 22⟩)⟩

/-- A class that is registered after the deserializer was constructed. -/
theorem lookup_past_the_table : ∃ s,
    Registry.run lateEnv plainConversions.widen plainConversions
      (.lookup 0 .deserializer .object :: .registerClass :: .construct .deserializer ::
        List.replicate 22 .registerClass) = some s ∧
      ¬ s.Inside 0 .deserializer (lateEnv.classId .object) ∧
      deserialize lateEnv (Deserializer lateEnv plainConversions 22) plainResolver .null 1 .object
        = some (.error .undefined) := by
  have hrun : (Registry.run lateEnv plainConversions.widen plainConversions
      (.lookup 0 .deserializer .object :: .registerClass :: .construct .deserializer ::
        List.replicate 22 .registerClass)).isSome = true := by
    decide +kernel
  obtain ⟨s, hs⟩ := Option.isSome_iff_exists.mp hrun
  refine ⟨s, hs, ?_, rfl⟩
  rintro ⟨o, size, ho, hsize, hlt⟩
  obtain ⟨hbefore, -⟩ := Registry.run_lookup hs
  rcases ((Registry.run_agrees hbefore).size_iff 0 o .deserializer size ho hsize _).mp hlt with
    ⟨-, hlate⟩ | hnone
  · exact absurd hlate (by decide)
  · exact hnone

end OatppSqlite.Mapping
