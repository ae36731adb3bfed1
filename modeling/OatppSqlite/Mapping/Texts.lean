import OatppSqlite.Mapping.ObjectRow

/-!
# A row that is read twice

A row that a call has thrown at is there for the next call, but not quite as it was: where a
`String` was read of a BLOB, SQLite shows a TEXT now (`textColumns`). For another type that may
make a difference, since an `Any` or a `Float64` goes by what SQLite shows. For the type that the
row was read as it makes none (`readOneRow_again`): a column is marked only where a string is
read of it, and that is the same string.
-/

set_option autoImplicit false

namespace OatppSqlite.Mapping

open Sqlite

variable {τ : Type}

/-! ## The marks -/

section

variable {marks marks' : List Bool} {row : List (Text × Cell)} {r : List Cell}
  {columns : List Text} {i : Nat}

theorem getElem?_columnsTextCalled (marks : List Bool) (row : List (Text × Cell)) (i : Nat) :
    (columnsTextCalled marks row)[i]?
      = row[i]?.map fun c => (c.1, c.2.textIf (marks[i]?.getD false)) := by
  induction row generalizing marks i with
  | nil => cases marks <;> rfl
  | cons c row ih =>
    cases marks with
    | nil =>
      show (c :: row)[i]? = _
      cases hi : (c :: row)[i]? with
      | none => rfl
      | some c' => rfl
    | cons mark marks =>
      cases i with
      | zero => rfl
      | succ i => exact ih marks i

theorem getElem?_textCalled (marks : List Bool) (r : List Cell) (i : Nat) :
    (textCalled marks r)[i]? = r[i]?.map fun data => data.textIf (marks[i]?.getD false) := by
  induction r generalizing marks i with
  | nil => cases marks <;> rfl
  | cons data r ih =>
    cases marks with
    | nil =>
      show (data :: r)[i]? = _
      cases hi : (data :: r)[i]? with
      | none => rfl
      | some data' => rfl
    | cons mark marks =>
      cases i with
      | zero => rfl
      | succ i => exact ih marks i

theorem getElem?_namedRow (columns : List Text) (r : List Cell) (i : Nat) :
    (namedRow columns (some r))[i]? = columns[i]?.map fun name => (name, r[i]?.getD .null) := by
  unfold namedRow
  rw [List.getElem?_map, List.getElem?_zipIdx]
  cases columns[i]? with
  | none => rfl
  | some name =>
    show some (name, (r[0 + i]?).getD .null) = _
    rw [Nat.zero_add]
    rfl

/-- The names make no difference. -/
theorem namedRow_textCalled (columns : List Text) (marks : List Bool) (r : List Cell) :
    namedRow columns (some (textCalled marks r))
      = columnsTextCalled marks (namedRow columns (some r)) := by
  apply List.ext_getElem?
  intro i
  rw [getElem?_columnsTextCalled, getElem?_namedRow, getElem?_namedRow, getElem?_textCalled]
  cases columns[i]? with
  | none => rfl
  | some name =>
    cases r[i]? with
    | some data => rfl
    | none =>
      -- there is no value to be made a text of
      cases marks[i]?.getD false <;> rfl

theorem columnsTextCalled_nil (row : List (Text × Cell)) : columnsTextCalled [] row = row := by
  cases row <;> rfl

theorem columnsTextCalled_eitherMark (marks marks' : List Bool) (row : List (Text × Cell)) :
    columnsTextCalled (eitherMark marks marks') row
      = columnsTextCalled marks' (columnsTextCalled marks row) := by
  induction row generalizing marks marks' with
  | nil => cases marks <;> cases marks' <;> rfl
  | cons c row ih =>
    cases marks with
    | nil => rfl
    | cons mark marks =>
      cases marks' with
      | nil => rfl
      | cons mark' marks' =>
        show (c.1, c.2.textIf (mark || mark')) :: columnsTextCalled (eitherMark marks marks') row
          = (c.1, (c.2.textIf mark).textIf mark') :: columnsTextCalled marks'
              (columnsTextCalled marks row)
        rw [ih, Cell.textIf_textIf]

end

/-! ## One column -/

section

variable {env : TypeEnv τ} {conv : Conversions} {classCount n : Nat}
  {typeResolver : TypeResolver τ} {type : τ}

/-- A string is the same whether it is read of a BLOB or of the text it is shown as. -/
theorem deserializeString_textIf (data : Cell) (called : Bool)
    (call call' : τ → Option (Except MapError (Void τ))) (type : τ) :
    deserializeString env conv call (data.textIf called) type
      = deserializeString env conv call' data type := by
  cases data <;> cases called <;> rfl

theorem readsText_enum (henv : env.Lawful) (henum : env.classId type = env.ids .abstractEnum) :
    readsText env (Deserializer env conv classCount) typeResolver (n + 1) type
      = readsText env (Deserializer env conv classCount) typeResolver n
          (env.enumDispatcher type).interpretationType := by
  have hm : (ClassName.abstractEnum, some (deserializeEnum env)) ∈ deserializerMethods env conv := by
    simp [deserializerMethods]
  have hstring : env.ids .abstractEnum ≠ env.ids .string := by
    intro h
    cases henv.ids_injective h
  have hslot : (Deserializer env conv classCount)[env.classId type]?
      = some (some (deserializeEnum env)) := by
    rw [henum]
    exact MethodTable.getElem?_build henv.ids_injective deserializerMethods_nodup hm
  rw [readsText, hslot]
  dsimp only
  rw [henum, if_neg hstring, if_pos rfl]

/-- **A column that is read again** as the same type is read as it was. -/
theorem deserialize_again (henv : env.Lawful) (data : Cell) (n : Nat) (type : τ) :
    deserialize env (Deserializer env conv classCount) typeResolver
        (data.textIf (readsText env (Deserializer env conv classCount) typeResolver n type)) n type
      = deserialize env (Deserializer env conv classCount) typeResolver data n type := by
  induction n generalizing type with
  | zero => rfl
  | succ n ih =>
    by_cases hstring : env.classId type = env.ids .string
    · have hm : (ClassName.string, some (deserializeString env conv))
          ∈ deserializerMethods env conv := by
        simp [deserializerMethods]
      rw [deserialize_eq henv hm hstring, deserialize_eq henv hm hstring]
      exact deserializeString_textIf data _ _ _ type
    by_cases henum : env.classId type = env.ids .abstractEnum
    · have hm : (ClassName.abstractEnum, some (deserializeEnum env))
          ∈ deserializerMethods env conv := by
        simp [deserializerMethods]
      rw [deserialize_eq henv hm henum, deserialize_eq henv hm henum, readsText_enum henv henum]
      unfold deserializeEnum
      dsimp only
      rw [ih]
    · -- the other methods mark nothing
      unfold readsText deserialize
      cases hentry : (Deserializer env conv classCount)[env.classId type]? with
      | none => rfl
      | some entry =>
        cases entry with
        | some method =>
          dsimp only
          rw [if_neg hstring, if_neg henum]
          rfl
        | none =>
          dsimp only
          cases typeResolver.findInterpretation type with
          | none => rfl
          | some interpretation =>
            dsimp only
            rw [ih]

end

/-! ## One row -/

section

variable {env : TypeEnv τ} {read : Cell → τ → Mapped (Void τ)} {texts : τ → Bool} {type : τ}
  {row : List (Text × Cell)}

/-- A loop over the columns, up to the one that throws. -/
theorem foldlM_again {β : Type} (f : β → Text → Void τ → β)
    (hread : ∀ cell type, read (cell.textIf (texts type)) type = read cell type) (type : τ)
    (row : List (Text × Cell)) (acc : β) :
    (columnsTextCalled (textsOfLoop read texts type row) row).foldlM
        (fun acc c => do return f acc c.1 (← read c.2 type)) acc
      = row.foldlM (fun acc c => do return f acc c.1 (← read c.2 type)) acc := by
  induction row generalizing acc with
  | nil => rfl
  | cons c row ih =>
    obtain ⟨name, cell⟩ := c
    rw [textsOfLoop, columnsTextCalled, List.foldlM_cons, List.foldlM_cons, hread]
    cases hcell : read cell type with
    | none => rfl
    | some r =>
      cases r with
      | error e => rfl
      | ok v => exact ih (f acc name v)

theorem readOneRowAsCollection_again
    (hread : ∀ cell type, read (cell.textIf (texts type)) type = read cell type) :
    readOneRowAsCollection env read (columnsTextCalled (textsOfCollection env read texts type row)
        row) type
      = readOneRowAsCollection env read row type := by
  unfold readOneRowAsCollection textsOfCollection
  rw [foldlM_again (fun items _ v => env.addItem type items v) hread]

theorem readOneRowAsMap_again
    (hread : ∀ cell type, read (cell.textIf (texts type)) type = read cell type) :
    readOneRowAsMap env read (columnsTextCalled (textsOfMap env read texts type row) row) type
      = readOneRowAsMap env read row type := by
  by_cases hkey : env.classId (env.keyType type) ≠ env.ids .string
  · -- it throws before it reads anything
    have htexts : textsOfMap env read texts type row = [] := if_pos hkey
    rw [htexts, columnsTextCalled_nil]
  · have htexts : textsOfMap env read texts type row
        = textsOfLoop read texts (env.mapValueType type) row := if_neg hkey
    unfold readOneRowAsMap
    rw [htexts, foldlM_again (fun entries name v => env.addEntry type entries name v) hread]

/-! ## A row as an object -/

variable [DecidableEq τ] {name : Text} {cell : Cell} {field : Property τ}

/-- The marks of the first pass, by the field of the first column. -/
theorem textsOfColumns_none (h : columnField env type name = none) :
    textsOfColumns env read texts type ((name, cell) :: row) = [] := by
  unfold columnField at h
  rw [textsOfColumns, h]

theorem textsOfColumns_polymorphic (h : columnField env type name = some field)
    (hpoly : field.Polymorphic env) :
    textsOfColumns env read texts type ((name, cell) :: row)
      = false :: textsOfColumns env read texts type row := by
  unfold columnField at h
  rw [textsOfColumns, h]
  exact if_pos hpoly

theorem textsOfColumns_ordinary (h : columnField env type name = some field)
    (hpoly : ¬ field.Polymorphic env) :
    textsOfColumns env read texts type ((name, cell) :: row)
      = texts field.type :: whenRead (read cell field.type) fun _ =>
          textsOfColumns env read texts type row := by
  unfold columnField at h
  rw [textsOfColumns, h]
  exact if_neg hpoly

/-- And those of the second one. -/
theorem textsOfPolymorphs_none {object : Object τ} (h : columnField env type name = none) :
    textsOfPolymorphs env read texts type ((name, cell) :: row) object = [] := by
  unfold columnField at h
  rw [textsOfPolymorphs, h]

theorem textsOfPolymorphs_ordinary {object : Object τ} (h : columnField env type name = some field)
    (hpoly : ¬ field.Polymorphic env) :
    textsOfPolymorphs env read texts type ((name, cell) :: row) object
      = false :: textsOfPolymorphs env read texts type row object := by
  unfold columnField at h
  rw [textsOfPolymorphs, h]
  dsimp only
  by_cases hany : field.type = env.typeOf .any
  · rw [if_pos hany]
    cases hsel : field.typeSelector with
    | none => rfl
    | some selectType => exact absurd ⟨by rw [hsel]; rfl, hany⟩ hpoly
  · rw [if_neg hany]

theorem textsOfPolymorphs_polymorphic {object : Object τ} {selectType : Object τ → τ}
    (h : columnField env type name = some field) (hpoly : field.Polymorphic env)
    (hsel : field.typeSelector = some selectType) :
    textsOfPolymorphs env read texts type ((name, cell) :: row) object
      = texts (selectType object) :: whenRead (read cell (selectType object)) fun value =>
          textsOfPolymorphs env read texts type row
            (object.set field.name ⟨some (.anyHandle value), field.type⟩) := by
  unfold columnField at h
  rw [textsOfPolymorphs, h]
  dsimp only
  rw [if_pos hpoly.2, hsel]

/-- **The first pass** reads the columns again as it did. -/
theorem setColumns_again (hread : ∀ cell type, read (cell.textIf (texts type)) type = read cell type)
    (row : List (Text × Cell)) (object : Object τ) (polymorphs : List (Property τ × Cell)) :
    setColumns env read type (columnsTextCalled (textsOfColumns env read texts type row) row) object
        polymorphs
      = setColumns env read type row object polymorphs := by
  induction row generalizing object polymorphs with
  | nil => rfl
  | cons c row ih =>
    obtain ⟨name, cell⟩ := c
    cases hfield : columnField env type name with
    | none => rw [textsOfColumns_none hfield, columnsTextCalled_nil]
    | some field =>
      by_cases hpoly : field.Polymorphic env
      · rw [textsOfColumns_polymorphic hfield hpoly, columnsTextCalled,
          setColumns_polymorphic hfield hpoly, setColumns_polymorphic hfield hpoly]
        exact ih _ _
      · rw [textsOfColumns_ordinary hfield hpoly, columnsTextCalled,
          setColumns_ordinary hfield hpoly, setColumns_ordinary hfield hpoly, hread]
        cases hcell : read cell field.type with
        | none => rfl
        | some r =>
          cases r with
          | error e => rfl
          | ok v => exact ih _ _

/-- Two rows that are the same in the columns of ordinary fields. -/
def SameOrdinary (env : TypeEnv τ) (type : τ) : List (Text × Cell) → List (Text × Cell) → Prop :=
  List.Forall₂ fun c c' => c'.1 = c.1 ∧
    ((∀ field, columnField env type c.1 = some field → ¬ field.Polymorphic env) → c' = c)

omit [DecidableEq τ] in
theorem SameOrdinary.refl (row : List (Text × Cell)) : SameOrdinary env type row row := by
  apply List.forall₂_same.mpr
  intro c _
  exact ⟨rfl, fun _ => rfl⟩

/-- The second pass marks no column of an ordinary field. -/
theorem sameOrdinary_textsOfPolymorphs (row : List (Text × Cell)) (object : Object τ) :
    SameOrdinary env type row
      (columnsTextCalled (textsOfPolymorphs env read texts type row object) row) := by
  induction row generalizing object with
  | nil => exact .nil
  | cons c row ih =>
    obtain ⟨name, cell⟩ := c
    cases hfield : columnField env type name with
    | none =>
      rw [textsOfPolymorphs_none hfield, columnsTextCalled_nil]
      exact .refl _
    | some field =>
      by_cases hpoly : field.Polymorphic env
      · obtain ⟨selectType, hsel⟩ := hpoly.selector
        rw [textsOfPolymorphs_polymorphic hfield hpoly hsel, columnsTextCalled]
        refine .cons ⟨rfl, fun hord => absurd hpoly (hord field hfield)⟩ ?_
        -- behind a column that throws there are no marks
        have hnil : SameOrdinary env type row (columnsTextCalled [] row) := by
          rw [columnsTextCalled_nil]
          exact .refl row
        cases read cell (selectType object) with
        | none => exact hnil
        | some r =>
          cases r with
          | error e => exact hnil
          | ok v => exact ih _
      · rw [textsOfPolymorphs_ordinary hfield hpoly, columnsTextCalled]
        exact .cons ⟨rfl, fun _ => rfl⟩ (ih object)

/-- **The first pass** makes the same object of two such rows, and puts off what is in each. -/
theorem setColumns_sameOrdinary {row' : List (Text × Cell)} {object o : Object τ}
    {polymorphs polymorphs' ps : List (Property τ × Cell)} (hsame : SameOrdinary env type row row')
    (h : setColumns env read type row object polymorphs = Mapped.returned (o, ps)) :
    setColumns env read type row' object polymorphs'
      = Mapped.returned (o, polymorphs' ++ row'.filterMap (polymorphColumn env type)) := by
  induction hsame generalizing object polymorphs polymorphs' with
  | nil =>
    cases h
    rw [List.filterMap_nil, List.append_nil]
    rfl
  | @cons c c' row row' hc _ ih =>
    obtain ⟨name, cell⟩ := c
    obtain ⟨name', cell'⟩ := c'
    obtain ⟨rfl, hcell⟩ : name' = name ∧ _ := hc
    cases hfield : columnField env type name' with
    | none =>
      obtain ⟨e, he⟩ : ∃ e, setColumns env read type ((name', cell) :: row) object polymorphs
          = throw e := setColumns_none hfield
      rw [he] at h
      cases h
    | some field =>
      by_cases hpoly : field.Polymorphic env
      · rw [setColumns_polymorphic hfield hpoly] at h ⊢
        rw [List.filterMap_cons_some (polymorphColumn_eq_some hfield hpoly), ih h,
          List.append_assoc]
        rfl
      · have hord : ∀ field', columnField env type name' = some field' →
            ¬ field'.Polymorphic env := by
          intro field' hfield'
          rw [hfield] at hfield'
          cases hfield'
          exact hpoly
        cases hcell hord
        rw [setColumns_ordinary hfield hpoly] at h ⊢
        obtain ⟨v, hv, h⟩ := Mapped.bind_returned h
        rw [hv, List.filterMap_cons_none (polymorphColumn_eq_none hord)]
        exact ih h

/-- **The second pass** reads what was put off again as it did. -/
theorem setPolymorphs_again
    (hread : ∀ cell type, read (cell.textIf (texts type)) type = read cell type)
    (row : List (Text × Cell)) (object : Object τ) :
    setPolymorphs read ((columnsTextCalled (textsOfPolymorphs env read texts type row object)
        row).filterMap (polymorphColumn env type)) object
      = setPolymorphs read (row.filterMap (polymorphColumn env type)) object := by
  induction row generalizing object with
  | nil => rfl
  | cons c row ih =>
    obtain ⟨name, cell⟩ := c
    cases hfield : columnField env type name with
    | none => rw [textsOfPolymorphs_none hfield, columnsTextCalled_nil]
    | some field =>
      by_cases hpoly : field.Polymorphic env
      · obtain ⟨selectType, hsel⟩ := hpoly.selector
        rw [textsOfPolymorphs_polymorphic hfield hpoly hsel, columnsTextCalled,
          List.filterMap_cons_some (polymorphColumn_eq_some hfield hpoly),
          List.filterMap_cons_some (polymorphColumn_eq_some hfield hpoly), setPolymorphs,
          setPolymorphs, hsel]
        dsimp only
        rw [hread]
        cases hcell : read cell (selectType object) with
        | none => rfl
        | some r =>
          cases r with
          | error e => rfl
          | ok v => exact ih _
      · have hnone : ∀ cell, polymorphColumn env type (name, cell) = none := by
          intro cell
          apply polymorphColumn_eq_none
          intro field' hfield'
          rw [hfield] at hfield'
          cases hfield'
          exact hpoly
        rw [textsOfPolymorphs_ordinary hfield hpoly, columnsTextCalled,
          List.filterMap_cons_none (hnone _), List.filterMap_cons_none (hnone _)]
        exact ih object

theorem readOneRowAsObject_again
    (hread : ∀ cell type, read (cell.textIf (texts type)) type = read cell type) :
    readOneRowAsObject env read (columnsTextCalled (textsOfObject env read texts type row) row) type
      = readOneRowAsObject env read row type := by
  -- the columns as the first loop leaves them, which it reads as it did
  obtain ⟨row₁, hrow₁⟩ : ∃ row₁,
      columnsTextCalled (textsOfColumns env read texts type row) row = row₁ := ⟨_, rfl⟩
  have hfirst : setColumns env read type row₁ (env.createObject type) []
      = setColumns env read type row (env.createObject type) [] := by
    rw [← hrow₁]
    exact setColumns_again hread row _ _
  unfold readOneRowAsObject textsOfObject
  dsimp only
  rw [columnsTextCalled_eitherMark, hrow₁]
  cases hcolumns : setColumns env read type row (env.createObject type) [] with
  | none =>
    show setColumns env read type (columnsTextCalled [] row₁) _ _ >>= _ = _
    rw [columnsTextCalled_nil, hfirst, hcolumns]
  | some r =>
    cases r with
    | error e =>
      show setColumns env read type (columnsTextCalled [] row₁) _ _ >>= _ = _
      rw [columnsTextCalled_nil, hfirst, hcolumns]
    | ok r =>
      obtain ⟨object, polymorphs⟩ := r
      rw [hcolumns] at hfirst
      -- the second loop starts with the same object, and with what was put off of these columns
      have hput := hfirst.symm.trans (setColumns_sameOrdinary (.refl row₁) hfirst)
      cases hput
      show setColumns env read type (columnsTextCalled
        (textsOfPolymorphs env read texts type row₁ object) row₁) _ _ >>= _ = _
      rw [setColumns_sameOrdinary (sameOrdinary_textsOfPolymorphs row₁ object) hfirst]
      show (setPolymorphs read ((columnsTextCalled (textsOfPolymorphs env read texts type row₁ object)
        row₁).filterMap (polymorphColumn env type)) object >>= _) = _
      rw [setPolymorphs_again hread]
      rfl

end

/-! ## A row -/

section

variable [DecidableEq τ] {env : TypeEnv τ} {conv : Conversions} {classCount : Nat}
  {typeResolver : TypeResolver τ} {c : ClassName} {method : ReadOneRowMethod τ}

/-- Each method's own marks. -/
theorem readOneRowMethods_again (henv : env.Lawful) {read : Cell → τ → Mapped (Void τ)}
    {texts : τ → Bool} {row : List (Text × Cell)} {type : τ}
    (hm : (c, some method) ∈ readOneRowMethods env) (hc : env.classId type = env.ids c)
    (hread : ∀ cell type, read (cell.textIf (texts type)) type = read cell type) :
    method read (columnsTextCalled
        (if env.classId type = env.ids .abstractObject then textsOfObject env read texts type row
        else if env.classId type = env.ids .abstractPairList ∨
            env.classId type = env.ids .abstractUnorderedMap then
          textsOfMap env read texts type row
        else textsOfCollection env read texts type row) row) type
      = method read row type := by
  have hne : ∀ c', c ≠ c' → env.classId type ≠ env.ids c' := by
    intro c' hcc' h
    exact hcc' (henv.ids_injective (hc.symm.trans h))
  -- the three kinds of collections have one method
  have hcollection (hobject : c ≠ .abstractObject) (hpairs : c ≠ .abstractPairList)
      (hmap : c ≠ .abstractUnorderedMap) :
      (if env.classId type = env.ids .abstractObject then textsOfObject env read texts type row
        else if env.classId type = env.ids .abstractPairList ∨
            env.classId type = env.ids .abstractUnorderedMap then
          textsOfMap env read texts type row
        else textsOfCollection env read texts type row)
        = textsOfCollection env read texts type row := by
    rw [if_neg (hne _ hobject), if_neg (not_or.mpr ⟨hne _ hpairs, hne _ hmap⟩)]
  simp only [readOneRowMethods, List.mem_cons, Prod.mk.injEq, Option.some.injEq,
    List.not_mem_nil, or_false] at hm
  rcases hm with ⟨rfl, rfl⟩ | ⟨rfl, rfl⟩ | ⟨rfl, rfl⟩ | ⟨rfl, rfl⟩ | ⟨rfl, rfl⟩ | ⟨rfl, rfl⟩
  · rw [if_pos hc]
    exact readOneRowAsObject_again hread
  · rw [hcollection (by decide) (by decide) (by decide)]
    exact readOneRowAsCollection_again hread
  · rw [hcollection (by decide) (by decide) (by decide)]
    exact readOneRowAsCollection_again hread
  · rw [hcollection (by decide) (by decide) (by decide)]
    exact readOneRowAsCollection_again hread
  · rw [if_neg (hne .abstractObject (by decide)), if_pos (Or.inl hc)]
    exact readOneRowAsMap_again hread
  · rw [if_neg (hne .abstractObject (by decide)), if_pos (Or.inr hc)]
    exact readOneRowAsMap_again hread

/-- **A row that is read again** as the same type is read as it was. -/
theorem readOneRow_again (henv : env.Lawful) (row : List (Text × Cell)) (n : Nat) (type : τ) :
    readOneRow env (ResultMapper.construct env conv classCount) typeResolver
        (columnsTextCalled (textColumns env (ResultMapper.construct env conv classCount)
          typeResolver row n type) row) n type
      = readOneRow env (ResultMapper.construct env conv classCount) typeResolver row n type := by
  induction n generalizing type with
  | zero => rfl
  | succ n ih =>
    unfold readOneRow textColumns
    dsimp only [ResultMapper.construct] at ih ⊢
    cases hentry : (MethodTable.build classCount env.ids
      (readOneRowMethods env))[env.classId type]? with
    | none => rfl
    | some entry =>
      cases entry with
      | some method =>
        obtain ⟨c, hm, hid⟩ := MethodTable.mem_of_getElem?_build hentry
        exact readOneRowMethods_again henv hm hid.symm fun cell type =>
          deserialize_again henv cell n type
      | none =>
        cases hfind : typeResolver.findInterpretation type with
        | none => rfl
        | some interpretation =>
          dsimp only
          rw [ih]

end

end OatppSqlite.Mapping
