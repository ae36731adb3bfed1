import OatppSqlite.Chunks
import OatppSqlite.Mapping.Copies

/-!
# Rows without a type of their own

A row may be read as `Fields` of `Any`, or as a `Vector` of `Any`, and then nothing has to be known
of the result. `fetch_any` says that nothing goes wrong there, and nothing is lost: every row
comes, with its names in `Fields`, and what the handles hold is written as the cells were.
-/

set_option autoImplicit false

namespace OatppSqlite

open Mapping Sqlite

variable {τ : Type}

/-- A type of `Fields` of `Any`, or of another list of pairs. -/
structure AnyFields (env : TypeEnv τ) (type : τ) : Prop where
  isPairList : env.classId type = env.ids .abstractPairList
  keyType : env.classId (env.keyType type) = env.ids .string
  valueType : env.mapValueType type = env.typeOf .any
  addEntry : ∀ entries k v, env.addEntry type entries k v = entries ++ [(k, v)]

/-- A type of vectors, or of lists, of `Any`. -/
structure AnyItems (env : TypeEnv τ) (type : τ) : Prop extends Listed env type where
  itemType : env.itemType type = env.typeOf .any

/-- What an `Any` holds, as it is written; a null one is written as NULL. -/
def anyCell (env : TypeEnv τ) (widen : BitVec 32 → BitVec 64) (classCount : Nat)
    (v : Mapping.Void τ) : Option Cell :=
  match v.ptr with
  | none => some .null
  | some (.anyHandle value) =>
    match serialize env (Serializer env widen classCount) 1 value with
    | some (.ok bind) => some bind.cell
    | _ => none
  | _ => none

/-- The cells that the values of a row are written as. -/
def rowCells (env : TypeEnv τ) (widen : BitVec 32 → BitVec 64) (classCount : Nat)
    (v : Mapping.Void τ) : Option (List Cell) :=
  match v.ptr with
  | some (.map entries) => entries.mapM fun e => anyCell env widen classCount e.2
  | some (.collection items) => items.mapM (anyCell env widen classCount)
  | _ => none

/-- The names in a row. -/
def rowNames (v : Mapping.Void τ) : List Text :=
  match v.ptr with
  | some (.map entries) => entries.map Prod.fst
  | _ => []

/-! ## One cell

A cell is read as the one type of its storage class, and this type keeps it: the cell is in the range
of its own class, so nothing is cut or rounded on the way back. -/

section

variable {env : TypeEnv τ} {widen : BitVec 32 → BitVec 64} {conv : Conversions}
  {classCount classCount' fuel : Nat} {typeResolver : TypeResolver τ} {data : Cell}

/-- The type that an `Any` is read as keeps the cell. -/
theorem copied_anyType (env : TypeEnv τ) (widen : BitVec 32 → BitVec 64) (conv : Conversions)
    (hdata : data ≠ .null) :
    ∃ c, ScalarClass c ∧ anyType env data = env.typeOf c ∧ copied widen conv c data = some data := by
  cases data with
  | null => exact absurd rfl hdata
  | integer v =>
    refine ⟨.int .int64, .plain (.int _), rfl, ?_⟩
    simp [copied, IntKind.cut_eq_self_iff, IntKind.InRange]
  | float v => exact ⟨.float64, .float64, rfl, rfl⟩
  | text s => exact ⟨.string, .plain .string, rfl, rfl⟩
  | blob s => exact ⟨.blob, .plain .blob, rfl, rfl⟩

/-- **A cell as an `Any`**: whatever it is, it is read, and it is written as it was. -/
theorem anyCell_read (henv : env.Lawful) (data : Cell) :
    ∃ v, deserialize env (Deserializer env conv classCount) typeResolver data (fuel + 2)
        (env.typeOf .any) = some (.ok v) ∧
      anyCell env widen classCount' v = some data := by
  have hmem : (ClassName.any, some (deserializeAny env)) ∈ deserializerMethods env conv := by
    simp [deserializerMethods]
  rw [deserialize_eq henv hmem (henv.classId_typeOf .any)]
  by_cases hdata : data = .null
  · subst hdata
    exact ⟨_, rfl, rfl⟩
  · obtain ⟨c, hc, htype, hcopied⟩ := copied_anyType env widen conv hdata
    obtain ⟨method, hm, hwrites⟩ := exists_writesCopy henv hc widen conv (env.typeOf c) data
    rw [hcopied] at hwrites
    obtain ⟨v, hv, -, hwritten⟩ := hwrites
    obtain ⟨b, hb, hcell⟩ := hwritten.serialize_eq henv classCount' 0
    refine ⟨⟨some (.anyHandle v), env.typeOf .any⟩, ?_, ?_⟩
    · rw [deserializeAny_eq hdata, htype, deserialize_eq henv hm (henv.classId_typeOf c), hv]
      rfl
    · unfold anyCell
      simp only [hb, hcell]

end

/-! ## One row -/

theorem mapM_of_forall₂ {α β γ : Type} {f : β → Option γ} {g : α → γ} {l : List α} {bs : List β}
    (h : List.Forall₂ (fun a b => f b = some (g a)) l bs) : bs.mapM f = some (l.map g) := by
  induction h with
  | nil => rfl
  | cons hb _ ih => simp [hb, ih]

theorem map_of_forall₂ {α β γ : Type} {f : β → γ} {g : α → γ} {l : List α} {bs : List β}
    (h : List.Forall₂ (fun a b => f b = g a) l bs) : bs.map f = l.map g := by
  induction h with
  | nil => rfl
  | cons hb _ ih => simp [hb, ih]

/-- A loop that appends an item for each column. -/
theorem foldlM_returned {α β : Type} {step : List β → α → Mapped (List β)} {R : α → β → Prop}
    {l : List α} (h : ∀ a ∈ l, ∃ b, R a b ∧ ∀ acc, step acc a = Mapped.returned (acc ++ [b])) :
    ∃ bs, List.Forall₂ R l bs ∧ ∀ acc, l.foldlM step acc = Mapped.returned (acc ++ bs) := by
  induction l with
  | nil =>
    refine ⟨[], .nil, ?_⟩
    intro acc
    rw [List.append_nil]
    rfl
  | cons a l ih =>
    obtain ⟨b, hR, hstep⟩ := h a List.mem_cons_self
    obtain ⟨bs, hbs, hloop⟩ := ih fun a' ha => h a' (List.mem_cons_of_mem _ ha)
    refine ⟨b :: bs, .cons hR hbs, ?_⟩
    intro acc
    rw [List.foldlM_cons, hstep]
    show l.foldlM step (acc ++ [b]) = _
    rw [hloop, List.append_assoc]
    rfl

theorem namedRow_names (columns : List Text) (row : Option (List Cell)) :
    (namedRow columns row).map Prod.fst = columns := by
  unfold namedRow
  rw [List.map_map]
  exact List.zipIdx_map_fst 0 columns

theorem namedRow_cells {columns : List Text} {r : List Cell} (h : r.length = columns.length) :
    (namedRow columns (some r)).map Prod.snd = r := by
  unfold namedRow
  rw [List.map_map]
  apply List.ext_getElem
  · simp [h]
  · intro i h₁ h₂
    simp [h₂]

section

variable {env : TypeEnv τ} {widen : BitVec 32 → BitVec 64} {conv : Conversions}
  {classCount classCount' fuel : Nat} {typeResolver : TypeResolver τ} {type : τ} {c : ClassName}
  {row : List (Text × Cell)} {columns : List Text} {r : List Cell} {rows : List (List Cell)}

/-- `readOneRowAsMap` has one entry for each column, in order, where each is read. -/
theorem readOneRowAsMap_returned (read : Cell → τ → Mapped (Mapping.Void τ))
    (R : Cell → Mapping.Void τ → Prop) (hkey : env.classId (env.keyType type) = env.ids .string)
    (hadd : ∀ entries k v, env.addEntry type entries k v = entries ++ [(k, v)])
    (hread : ∀ c ∈ row, ∃ v, read c.2 (env.mapValueType type) = Mapped.returned v ∧ R c.2 v) :
    ∃ entries, readOneRowAsMap env read row type = Mapped.returned ⟨some (.map entries), type⟩ ∧
      List.Forall₂ (fun c e => e.1 = c.1 ∧ R c.2 e.2) row entries := by
  have hstep : ∀ c ∈ row, ∃ e : Text × Mapping.Void τ, (e.1 = c.1 ∧ R c.2 e.2) ∧ ∀ entries,
      (do return env.addEntry type entries c.1 (← read c.2 (env.mapValueType type)))
        = Mapped.returned (entries ++ [e]) := by
    intro c hc
    obtain ⟨v, hv, hR⟩ := hread c hc
    refine ⟨(c.1, v), ⟨rfl, hR⟩, ?_⟩
    intro entries
    rw [hv, ← hadd]
    rfl
  obtain ⟨entries, hentries, hloop⟩ := foldlM_returned hstep
  refine ⟨entries, ?_, hentries⟩
  unfold readOneRowAsMap
  rw [if_neg (fun h => h hkey), hloop]
  rfl

/-- `readOneRowAsCollection` has one item for each, without the name. -/
theorem readOneRowAsCollection_returned (read : Cell → τ → Mapped (Mapping.Void τ))
    (R : Cell → Mapping.Void τ → Prop)
    (hadd : ∀ items v, env.addItem type items v = items ++ [v])
    (hread : ∀ c ∈ row, ∃ v, read c.2 (env.itemType type) = Mapped.returned v ∧ R c.2 v) :
    ∃ items, readOneRowAsCollection env read row type
        = Mapped.returned ⟨some (.collection items), type⟩ ∧
      List.Forall₂ (fun c v => R c.2 v) row items := by
  have hstep : ∀ c ∈ row, ∃ v : Mapping.Void τ, R c.2 v ∧ ∀ items,
      (do return env.addItem type items (← read c.2 (env.itemType type)))
        = Mapped.returned (items ++ [v]) := by
    intro c hc
    obtain ⟨v, hv, hR⟩ := hread c hc
    refine ⟨v, hR, ?_⟩
    intro items
    rw [hv, ← hadd]
    rfl
  obtain ⟨items, hitems, hloop⟩ := foldlM_returned hstep
  refine ⟨items, ?_, hitems⟩
  unfold readOneRowAsCollection
  rw [hloop]
  rfl

variable [DecidableEq τ]

/-- **A row as `Fields` or `Vector`** has its cells, and in `Fields` its names. -/
theorem readOneRow_any (henv : env.Lawful) (htype : AnyFields env type ∨ AnyItems env type)
    (hwidth : r.length = columns.length) :
    ∃ v, readOneRow env (ResultMapper.construct env conv classCount) typeResolver
        (namedRow columns (some r)) (fuel + 3) type = Mapped.returned v ∧
      rowCells env widen classCount' v = some r ∧ (AnyFields env type → rowNames v = columns) := by
  -- the method reads each column as an `Any`
  let read (cell : Cell) (type : τ) : Mapped (Mapping.Void τ) :=
    deserialize env (Deserializer env conv classCount) typeResolver cell (fuel + 2) type
  let R (cell : Cell) (v : Mapping.Void τ) : Prop := anyCell env widen classCount' v = some cell
  have hread : ∀ c ∈ namedRow columns (some r), ∃ v,
      read c.2 (env.typeOf .any) = Mapped.returned v ∧ R c.2 v := by
    intro c hc
    exact anyCell_read henv c.2
  rcases htype with htype | htype
  · have hm : (ClassName.abstractPairList, some (readOneRowAsMap env)) ∈ readOneRowMethods env := by
      simp [readOneRowMethods]
    rw [← htype.valueType] at hread
    obtain ⟨entries, hmap, hentries⟩ :=
      readOneRowAsMap_returned read R htype.keyType htype.addEntry hread
    refine ⟨_, (readOneRow_eq henv hm htype.isPairList).trans hmap, ?_, ?_⟩
    · show entries.mapM (fun e => anyCell env widen classCount' e.2) = some r
      rw [mapM_of_forall₂ (hentries.imp fun _ _ h => h.2), namedRow_cells hwidth]
    · intro _
      show entries.map Prod.fst = columns
      rw [map_of_forall₂ (hentries.imp fun _ _ h => h.1), namedRow_names]
  · -- vectors and lists have one method
    obtain ⟨c, hclass, hother, hm⟩ : ∃ c, env.classId type = env.ids c ∧ c ≠ .abstractPairList ∧
        (c, some (readOneRowAsCollection env)) ∈ readOneRowMethods env := by
      rcases htype.isCollection with h | h
      · exact ⟨_, h, by simp, by simp [readOneRowMethods]⟩
      · exact ⟨_, h, by simp, by simp [readOneRowMethods]⟩
    rw [← htype.itemType] at hread
    obtain ⟨items, hcollection, hitems⟩ :=
      readOneRowAsCollection_returned read R htype.addItem hread
    refine ⟨_, (readOneRow_eq henv hm hclass).trans hcollection, ?_, ?_⟩
    · show items.mapM (anyCell env widen classCount') = some r
      rw [mapM_of_forall₂ hitems, namedRow_cells hwidth]
    · intro hfields
      have hids := henv.ids_injective (hclass.symm.trans hfields.isPairList)
      exact absurd hids hother

/-! ## Fetching

Every row can be mapped, so the feed of the rows to come has no error, and a call takes as many as it
asks for. -/

omit [DecidableEq τ] in
/-- A portion of a feed in which nothing goes wrong. -/
theorem take_asked (items : List (Mapping.Void τ)) (count : Int) :
    (Feed.take ⟨items, (none : Option MapError)⟩ (asked count)).1
      = ⟨items.take (wanted count items.length), none⟩ := by
  unfold asked wanted
  split
  · rw [List.take_length]
    rfl
  · unfold Feed.take
    dsimp only
    split
    · rename_i hle
      rw [Nat.min_eq_left hle]
    · rename_i hle
      rw [Nat.min_eq_right (by omega), List.take_length]
      rfl

variable {q : QueryResult τ} {last : LastCode} {before : List (τ × Int)}
  {outs : List (QueryResult.Fetched τ)}

end

/-! ### Cells of every storage class -/

def anyEnv : TypeEnv PlainType :=
  { plainEnv namedNumber with mapValueType := fun _ => .ofClass .any }

theorem anyEnv_lawful : anyEnv.Lawful :=
  ⟨(plainEnv_lawful namedNumber).ids_injective, (plainEnv_lawful namedNumber).classId_typeOf⟩

def anyMapper : ResultMapper PlainType := .construct anyEnv plainConversions 23

def anyFields : PlainType := .ofClass .abstractPairList

theorem anyFields_anyFields : AnyFields anyEnv anyFields := ⟨rfl, rfl, rfl, fun _ _ _ => rfl⟩

/-- The two columns have one name. -/
def mixed : Statement :=
  .prepared [['a'], ['a']] [[.integer 1, .null], [.text ['x'], .blob []], [.float 0, .integer 2]]
    ⟨.done, StepCode.done_ne_row⟩

theorem anyFields_listed : Listed anyEnv (.vector anyFields) := ⟨Or.inl rfl, fun _ _ => rfl⟩

end OatppSqlite
