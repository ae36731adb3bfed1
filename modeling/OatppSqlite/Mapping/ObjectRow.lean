import OatppSqlite.Mapping.ResultMapper

/-!
# A row as an object

`readOneRowAsObject` makes two passes: the columns of ordinary fields are set in the order of
the row, and the columns of `Any` fields with a type selector are put off until all of these
are set. So the selector of such a field sees the same object wherever its column stands
(`ordinaryObject`), and what is made of a row does not depend on the order of its columns.

The description of the outcome is by column, not by pass: `columnValue` is what a column gives
its field, and `Object.setAll` sets every field that a column names.

Each pass has its theorem, an equivalence: what the pass returns, and of which rows
(`setColumns_returned_iff`, `setPolymorphs_returned_iff`). They are proved by induction on the row,
with one lemma for each way a column can go, and put together they say the same of the whole call
(`readOneRowAsObject_returned_iff`). That a row is refused otherwise is not a third induction: a call
returns, throws, or does not end, and the last is traced to a column (`readOneRowAsObject_endless`).

Two assumptions are made throughout. The columns have distinct names, as otherwise the last one
of a name wins and the order matters; and a selector reads ordinary fields only, as otherwise it
may see an `Any` field set or not set, by the order of the columns.
-/

set_option autoImplicit false

namespace OatppSqlite.Mapping

variable {τ : Type}

/-! ## Fields by column

`setAll` looks from the field to the column, and the loops of the source go from the column to the
field. With distinct names it is the same, and one column may be split off (`setAll_cons_some`,
`setAll_cons_none`), which is how the inductions below go. -/

section

variable {val val' : Text × Cell → Option (Void τ)} {row row' : List (Text × Cell)}
  {o : Object τ} {c : Text × Cell} {v : Void τ}

/-- The value of the column that has a field's name, if there is one and it has a value. -/
def columnOf (val : Text × Cell → Option (Void τ)) (row : List (Text × Cell)) (name : Text) :
    Option (Void τ) :=
  (row.lookup name).bind fun cell => val (name, cell)

/-- Every field that a column of the row names takes the value of the column. -/
def Object.setAll (val : Text × Cell → Option (Void τ)) (row : List (Text × Cell))
    (o : Object τ) : Object τ :=
  o.map fun f => (f.1, (columnOf val row f.1).getD f.2)

theorem lookup_eq_some_iff_mem (hnodup : (row.map Prod.fst).Nodup) {name : Text} {cell : Cell} :
    row.lookup name = some cell ↔ (name, cell) ∈ row := by
  induction row with
  | nil => simp
  | cons c row ih =>
    obtain ⟨name', cell'⟩ := c
    obtain ⟨hc, hrow⟩ := List.nodup_cons.mp hnodup
    by_cases hname : name = name'
    · subst hname
      have hout : (name, cell) ∉ row := fun hmem => hc (List.mem_map.mpr ⟨_, hmem, rfl⟩)
      rw [List.lookup_cons_self, Option.some.injEq, List.mem_cons, Prod.mk.injEq]
      simp [hout, eq_comm]
    · rw [List.lookup_cons, beq_false_of_ne hname, List.mem_cons, Prod.mk.injEq]
      simp [hname, ih hrow]

theorem lookup_eq_none {name : Text} (h : name ∉ row.map Prod.fst) : row.lookup name = none := by
  rw [List.lookup_eq_none_iff]
  rintro ⟨name', cell⟩ hmem
  exact bne_iff_ne.mpr (fun heq => h (heq ▸ List.mem_map_of_mem hmem))

/-- Columns with distinct names are found in any order. -/
theorem lookup_perm (hperm : row'.Perm row) (hnodup : (row.map Prod.fst).Nodup) (name : Text) :
    row'.lookup name = row.lookup name := by
  have hnodup' : (row'.map Prod.fst).Nodup := (hperm.map Prod.fst).nodup_iff.mpr hnodup
  refine Option.ext fun cell => ?_
  rw [lookup_eq_some_iff_mem hnodup, lookup_eq_some_iff_mem hnodup', hperm.mem_iff]

theorem Object.setAll_perm (hperm : row'.Perm row) (hnodup : (row.map Prod.fst).Nodup) :
    o.setAll val row' = o.setAll val row := by
  unfold Object.setAll columnOf
  simp only [lookup_perm hperm hnodup]

theorem Object.setAll_nil : o.setAll val [] = o := List.map_id' o

/-- A column without a value sets nothing. -/
theorem Object.setAll_cons_none (hval : val c = none) (hc : c.1 ∉ row.map Prod.fst) :
    o.setAll val (c :: row) = o.setAll val row := by
  refine List.map_congr_left fun f _ => ?_
  have hcolumn : columnOf val (c :: row) f.1 = columnOf val row f.1 := by
    unfold columnOf
    by_cases hf : f.1 = c.1
    · rw [hf, List.lookup_cons_self, lookup_eq_none hc, Option.bind_some, hval, Option.bind_none]
    · rw [List.lookup_cons, beq_false_of_ne hf]
  rw [hcolumn]

/-- The first column can be set first. -/
theorem Object.setAll_cons_some (hval : val c = some v) (hc : c.1 ∉ row.map Prod.fst) :
    o.setAll val (c :: row) = (o.set c.1 v).setAll val row := by
  unfold Object.setAll Object.set columnOf
  rw [List.map_map]
  refine List.map_congr_left fun f _ => ?_
  by_cases hf : f.1 = c.1
  · simp only [Function.comp_apply, if_pos hf]
    rw [hf, List.lookup_cons_self, lookup_eq_none hc, Option.bind_some, hval]
    rfl
  · simp only [Function.comp_apply, if_neg hf]
    rw [List.lookup_cons, beq_false_of_ne hf]

theorem Object.setAll_setAll :
    (o.setAll val row).setAll val' row = o.setAll (fun c => (val' c).or (val c)) row := by
  unfold Object.setAll columnOf
  rw [List.map_map]
  refine List.map_congr_left fun f _ => ?_
  simp only [Function.comp_apply]
  cases row.lookup f.1 with
  | none => rfl
  | some cell =>
    simp only [Option.bind_some]
    cases val' (f.1, cell) <;> rfl

end

/-! ## What a column gives its field -/

/-- The field a column is for. -/
def columnField (env : TypeEnv τ) (type : τ) (colName : Text) : Option (Property τ) :=
  (env.properties type).find? (·.name = colName)

theorem columnField_name {env : TypeEnv τ} {type : τ} {name : Text} {field : Property τ}
    (h : columnField env type name = some field) : field.name = name := by
  simpa using List.find?_some h

/-- A field of type `Any` with a type selector; all others are ordinary. -/
def Property.Polymorphic (env : TypeEnv τ) (field : Property τ) : Prop :=
  field.typeSelector.isSome ∧ field.type = env.typeOf .any

theorem Property.Polymorphic.selector {env : TypeEnv τ} {field : Property τ}
    (h : field.Polymorphic env) : ∃ selectType, field.typeSelector = some selectType :=
  Option.isSome_iff_exists.mp h.1

/-- Two objects that are the same in all ordinary fields. -/
def AgreeOrdinary (env : TypeEnv τ) (type : τ) (o o' : Object τ) : Prop :=
  List.Forall₂ (fun f f' => f.1 = f'.1 ∧
    ((∀ field, columnField env type f.1 = some field → ¬ field.Polymorphic env) → f.2 = f'.2)) o o'

/-- The type selectors of an object's fields read its ordinary fields only. -/
def SelectsOnOrdinary (env : TypeEnv τ) (type : τ) : Prop :=
  ∀ field ∈ env.properties type, ∀ selectType, field.typeSelector = some selectType →
    ∀ o o', AgreeOrdinary env type o o' → selectType o = selectType o'

theorem AgreeOrdinary.refl {env : TypeEnv τ} {type : τ} (o : Object τ) :
    AgreeOrdinary env type o o :=
  List.forall₂_same.mpr fun _ _ => ⟨rfl, fun _ => rfl⟩

/-- A change of a polymorphic field no selector looks at. -/
theorem AgreeOrdinary.set {env : TypeEnv τ} {type : τ} {base object : Object τ} {name : Text}
    {v : Void τ} {field : Property τ} (h : AgreeOrdinary env type base object)
    (hfield : columnField env type name = some field) (hpoly : field.Polymorphic env) :
    AgreeOrdinary env type base (object.set name v) := by
  unfold AgreeOrdinary Object.set
  rw [List.forall₂_map_right_iff]
  refine List.Forall₂.imp (fun f f' hf => ?_) h
  obtain ⟨hname, hvalue⟩ := hf
  by_cases hset : f'.1 = name
  · rw [if_pos hset]
    refine ⟨hname.trans hset, fun hord => absurd hpoly (hord field ?_)⟩
    rw [hname, hset, hfield]
  · rw [if_neg hset]
    exact ⟨hname, hvalue⟩

/-- An ordinary field looks the same in two objects that agree. -/
theorem AgreeOrdinary.lookup_eq {env : TypeEnv τ} {type : τ} {o o' : Object τ} {name : Text}
    (h : AgreeOrdinary env type o o')
    (hord : ∀ field, columnField env type name = some field → ¬ field.Polymorphic env) :
    o.lookup name = o'.lookup name := by
  induction h with
  | nil => rfl
  | @cons f f' o o' hf h ih =>
    obtain ⟨hname, hvalue⟩ := hf
    rw [List.lookup_cons, List.lookup_cons, ← hname, ih]
    by_cases heq : name = f.1
    · subst heq
      rw [hvalue hord]
    · rw [beq_false_of_ne heq]

variable [DecidableEq τ]

instance (env : TypeEnv τ) (field : Property τ) : Decidable (field.Polymorphic env) :=
  inferInstanceAs (Decidable (_ ∧ _))

/-- The cell as the field's type; for a polymorphic field an `Any` that wraps the cell as the
    type the selector picks on `base`. -/
def fieldValue (env : TypeEnv τ) (read : Cell → τ → Mapped (Void τ)) (base : Object τ)
    (field : Property τ) (cell : Cell) : Mapped (Void τ) :=
  match field.typeSelector with
  | some selectType =>
    if field.type = env.typeOf .any then do
      let value ← read cell (selectType base)
      return ⟨some (.anyHandle value), field.type⟩
    else read cell field.type
  | none => read cell field.type

/-- What a column gives its field; none when it has no field. -/
def columnValue (env : TypeEnv τ) (read : Cell → τ → Mapped (Void τ)) (type : τ)
    (base : Object τ) (c : Text × Cell) : Option (Mapped (Void τ)) :=
  (columnField env type c.1).map fun field => fieldValue env read base field c.2

/-- The result of a call that returned. -/
def Mapped.result? {α : Type} (x : Mapped α) : Option α :=
  match x.run with
  | some (.ok a) => some a
  | _ => none

/-- The value of a column that is for an ordinary field. -/
def ordinaryColumn (env : TypeEnv τ) (read : Cell → τ → Mapped (Void τ)) (type : τ)
    (c : Text × Cell) : Option (Void τ) :=
  (columnField env type c.1).bind fun field =>
    if field.Polymorphic env then none else Mapped.result? (read c.2 field.type)

/-- The object with all ordinary columns of the row already set. -/
def ordinaryObject (env : TypeEnv τ) (read : Cell → τ → Mapped (Void τ)) (type : τ)
    (row : List (Text × Cell)) : Object τ :=
  (env.createObject type).setAll (ordinaryColumn env read type) row

/-- The object with all columns of the row set. -/
def rowObject (env : TypeEnv τ) (read : Cell → τ → Mapped (Void τ)) (type : τ)
    (row : List (Text × Cell)) : Object τ :=
  (env.createObject type).setAll
    (fun c => (columnValue env read type (ordinaryObject env read type row) c).bind
      Mapped.result?) row

section

variable {env : TypeEnv τ} {read : Cell → τ → Mapped (Void τ)} {type : τ}
  {row : List (Text × Cell)} {o object base : Object τ} {field : Property τ} {cell : Cell}
  {name : Text} {polymorphs rest : List (Property τ × Cell)} {v : Void τ}

theorem fieldValue_ordinary (h : ¬ field.Polymorphic env) :
    fieldValue env read base field cell = read cell field.type := by
  unfold fieldValue
  cases hsel : field.typeSelector with
  | none => rfl
  | some selectType => exact if_neg fun htype => h ⟨by rw [hsel]; rfl, htype⟩

theorem fieldValue_polymorphic {selectType : Object τ → τ} (h : field.Polymorphic env)
    (hsel : field.typeSelector = some selectType) :
    fieldValue env read base field cell
      = read cell (selectType base) >>= fun value =>
          return ⟨some (.anyHandle value), field.type⟩ := by
  unfold fieldValue
  rw [hsel]
  exact if_pos h.2

omit [DecidableEq τ] in
theorem Mapped.result?_returned {α : Type} {x : Mapped α} {a : α} :
    x.result? = some a ↔ x = Mapped.returned a := by
  cases x with
  | none => exact ⟨nofun, nofun⟩
  | some r =>
    cases r with
    | error e => exact ⟨nofun, nofun⟩
    | ok a' =>
      constructor
      · rintro ⟨⟩
        rfl
      · rintro ⟨⟩
        rfl

/-! ## The first pass

What a column does in it depends on its field alone: none, and it throws; a polymorphic one, and
the column is put off; an ordinary one, and its cell is read now. -/

/-- A column that the first pass gets by: its field is polymorphic, or its cell is read. -/
def GetsBy (env : TypeEnv τ) (read : Cell → τ → Mapped (Void τ)) (type : τ) (c : Text × Cell) :
    Prop :=
  ∃ field, columnField env type c.1 = some field ∧
    (field.Polymorphic env ∨ ∃ v, read c.2 field.type = Mapped.returned v)

/-- A column that the first pass puts off. -/
def polymorphColumn (env : TypeEnv τ) (type : τ) (c : Text × Cell) :
    Option (Property τ × Cell) :=
  (columnField env type c.1).bind fun field =>
    if field.Polymorphic env then some (field, c.2) else none

theorem polymorphColumn_eq_some (hfield : columnField env type name = some field)
    (hpoly : field.Polymorphic env) :
    polymorphColumn env type (name, cell) = some (field, cell) := by
  simp [polymorphColumn, hfield, hpoly]

theorem polymorphColumn_eq_none
    (h : ∀ field, columnField env type name = some field → ¬ field.Polymorphic env) :
    polymorphColumn env type (name, cell) = none := by
  unfold polymorphColumn
  cases hfield : columnField env type name with
  | none => rfl
  | some field => simp [h field hfield]

theorem setColumns_none (hfield : columnField env type name = none) :
    ∃ e, setColumns env read type ((name, cell) :: row) object polymorphs = throw e := by
  unfold setColumns
  unfold columnField at hfield
  rw [hfield]
  exact ⟨_, rfl⟩

theorem setColumns_polymorphic (hfield : columnField env type name = some field)
    (hpoly : field.Polymorphic env) :
    setColumns env read type ((name, cell) :: row) object polymorphs
      = setColumns env read type row object (polymorphs ++ [(field, cell)]) := by
  unfold columnField at hfield
  rw [setColumns, hfield]
  exact if_pos hpoly

theorem setColumns_ordinary (hfield : columnField env type name = some field)
    (hpoly : ¬ field.Polymorphic env) :
    setColumns env read type ((name, cell) :: row) object polymorphs
      = read cell field.type >>= fun value =>
          setColumns env read type row (object.set name value) polymorphs := by
  have hname := columnField_name hfield
  unfold columnField at hfield
  rw [setColumns, hfield, ← hname]
  exact if_neg hpoly

/-- **The first pass returns** if it gets by every column, with the ordinary ones set and the
    others put off in their order. -/
theorem setColumns_returned_iff (hnodup : (row.map Prod.fst).Nodup) :
    setColumns env read type row object polymorphs = Mapped.returned (o, rest) ↔
      (∀ c ∈ row, GetsBy env read type c) ∧
      o = object.setAll (ordinaryColumn env read type) row ∧
      rest = polymorphs ++ row.filterMap (polymorphColumn env type) := by
  induction row generalizing object polymorphs with
  | nil =>
    rw [Object.setAll_nil, List.filterMap_nil, List.append_nil]
    constructor
    · rintro ⟨⟩
      exact ⟨by simp, rfl, rfl⟩
    · rintro ⟨-, rfl, rfl⟩
      rfl
  | cons c row ih =>
    obtain ⟨name, cell⟩ := c
    obtain ⟨hc, hrow⟩ := List.nodup_cons.mp hnodup
    rw [List.forall_mem_cons]
    cases hfield : columnField env type name with
    | none =>
      -- it throws, and no column without a field is got by
      obtain ⟨e, he⟩ : ∃ e, setColumns env read type ((name, cell) :: row) object polymorphs
          = throw e := setColumns_none hfield
      rw [he]
      constructor
      · intro h
        cases h
      · rintro ⟨⟨⟨field, hsome, -⟩, -⟩, -⟩
        rw [hfield] at hsome
        cases hsome
    | some field =>
      by_cases hpoly : field.Polymorphic env
      · -- put off: it sets nothing here
        have hoff : polymorphColumn env type (name, cell) = some (field, cell) :=
          polymorphColumn_eq_some hfield hpoly
        have hunset : ordinaryColumn env read type (name, cell) = none := by
          simp [ordinaryColumn, hfield, hpoly]
        have hby : GetsBy env read type (name, cell) := ⟨field, hfield, Or.inl hpoly⟩
        rw [setColumns_polymorphic hfield hpoly, ih hrow, List.filterMap_cons_some hoff,
          Object.setAll_cons_none hunset hc, List.append_assoc, List.singleton_append,
          and_iff_right hby]
      · have hoff : polymorphColumn env type (name, cell) = none := by
          refine polymorphColumn_eq_none fun field' hfield' => ?_
          rw [hfield] at hfield'
          cases hfield'
          exact hpoly
        rw [setColumns_ordinary hfield hpoly, List.filterMap_cons_none hoff]
        constructor
        · intro h
          obtain ⟨value, hread, hset⟩ := Mapped.bind_returned h
          have hvalue : ordinaryColumn env read type (name, cell) = some value := by
            simp [ordinaryColumn, hfield, hpoly, Mapped.result?_returned, hread]
          rw [ih hrow, ← Object.setAll_cons_some hvalue hc] at hset
          exact ⟨⟨⟨field, hfield, Or.inr ⟨value, hread⟩⟩, hset.1⟩, hset.2⟩
        · rintro ⟨⟨⟨field', hfield', hby⟩, hall⟩, ho, hrest⟩
          rw [hfield] at hfield'
          cases hfield'
          obtain ⟨value, hread⟩ := hby.resolve_left hpoly
          have hvalue : ordinaryColumn env read type (name, cell) = some value := by
            simp [ordinaryColumn, hfield, hpoly, Mapped.result?_returned, hread]
          rw [Object.setAll_cons_some hvalue hc] at ho
          rw [hread]
          exact (ih hrow).mpr ⟨hall, ho, hrest⟩

/-! ## The second pass

It runs on an object that changes under it, and asks the selectors of that object. But what it
changes are polymorphic fields, so every selector answers as it did on `base`
(`AgreeOrdinary.set`), the object that the first pass has left. -/

/-- The value of a column that is for a polymorphic field. -/
def selectedColumn (env : TypeEnv τ) (read : Cell → τ → Mapped (Void τ)) (type : τ)
    (base : Object τ) (c : Text × Cell) : Option (Void τ) :=
  (columnField env type c.1).bind fun field =>
    if field.Polymorphic env then (fieldValue env read base field c.2).result? else none

theorem setPolymorphs_cons (hsel : SelectsOnOrdinary env type)
    (hagree : AgreeOrdinary env type base object) (hfield : columnField env type name = some field)
    (hpoly : field.Polymorphic env) :
    setPolymorphs read ((field, cell) :: rest) object
      = fieldValue env read base field cell >>= fun value =>
          setPolymorphs read rest (object.set name value) := by
  obtain ⟨selectType, hselect⟩ := hpoly.selector
  have hsame : selectType base = selectType object :=
    hsel field (List.mem_of_find?_eq_some hfield) selectType hselect base object hagree
  rw [fieldValue_polymorphic hpoly hselect, hsame, bind_assoc]
  simp only [setPolymorphs, hselect, columnField_name hfield, pure_bind]

/-- **The second pass returns** if every column put off is read as the type selected on `base`. -/
theorem setPolymorphs_returned_iff (hnodup : (row.map Prod.fst).Nodup)
    (hsel : SelectsOnOrdinary env type) (hagree : AgreeOrdinary env type base object) :
    setPolymorphs read (row.filterMap (polymorphColumn env type)) object = Mapped.returned o ↔
      (∀ c ∈ row, ∀ field, columnField env type c.1 = some field → field.Polymorphic env →
        ∃ v, fieldValue env read base field c.2 = Mapped.returned v) ∧
      o = object.setAll (selectedColumn env read type base) row := by
  induction row generalizing object with
  | nil =>
    rw [Object.setAll_nil]
    constructor
    · rintro ⟨⟩
      exact ⟨by simp, rfl⟩
    · rintro ⟨-, rfl⟩
      rfl
  | cons c row ih =>
    obtain ⟨name, cell⟩ := c
    obtain ⟨hc, hrow⟩ := List.nodup_cons.mp hnodup
    rw [List.forall_mem_cons]
    by_cases hoff : ∃ field, columnField env type name = some field ∧ field.Polymorphic env
    · obtain ⟨field, hfield, hpoly⟩ := hoff
      rw [List.filterMap_cons_some (polymorphColumn_eq_some hfield hpoly),
        setPolymorphs_cons hsel hagree hfield hpoly]
      constructor
      · intro h
        obtain ⟨value, hread, hset⟩ := Mapped.bind_returned h
        have hvalue : selectedColumn env read type base (name, cell) = some value := by
          simp [selectedColumn, hfield, hpoly, Mapped.result?_returned, hread]
        rw [ih hrow (hagree.set hfield hpoly), ← Object.setAll_cons_some hvalue hc] at hset
        refine ⟨⟨fun field' hfield' _ => ⟨value, ?_⟩, hset.1⟩, hset.2⟩
        rw [hfield] at hfield'
        cases hfield'
        exact hread
      · rintro ⟨⟨hby, hall⟩, ho⟩
        obtain ⟨value, hread⟩ := hby field hfield hpoly
        have hvalue : selectedColumn env read type base (name, cell) = some value := by
          simp [selectedColumn, hfield, hpoly, Mapped.result?_returned, hread]
        rw [Object.setAll_cons_some hvalue hc] at ho
        rw [hread]
        exact (ih hrow (hagree.set hfield hpoly)).mpr ⟨hall, ho⟩
    · have hnone : ∀ field, columnField env type name = some field → ¬ field.Polymorphic env :=
        fun field hfield hpoly => hoff ⟨field, hfield, hpoly⟩
      have hvalue : selectedColumn env read type base (name, cell) = none := by
        unfold selectedColumn
        cases hfield : columnField env type name with
        | none => rfl
        | some field => simp [hnone field hfield]
      rw [List.filterMap_cons_none (polymorphColumn_eq_none hnone),
        Object.setAll_cons_none hvalue hc, ih hrow hagree,
        and_iff_right fun field hfield hpoly => absurd hpoly (hnone field hfield)]

/-! ## Calls that do not end

Only a column can be read without end, by a chain of interpretations that has none; the loops over
the row do end. -/

omit [DecidableEq τ] in
theorem Mapped.bind_endless {α β : Type} {x : Mapped α} {f : α → Mapped β}
    (h : x >>= f = ExceptT.mk none) :
    x = ExceptT.mk none ∨ ∃ a, x = Mapped.returned a ∧ f a = ExceptT.mk none := by
  cases x with
  | none => exact Or.inl rfl
  | some r =>
    cases r with
    | error e => cases h
    | ok a => exact Or.inr ⟨a, rfl, h⟩

omit [DecidableEq τ] in
/-- A call returns, throws or does not end. -/
theorem Mapped.throws_iff {α : Type} {x : Mapped α} (h : x ≠ ExceptT.mk none) :
    (∃ e, x = throw e) ↔ ¬ ∃ a, x = Mapped.returned a := by
  cases x with
  | none => exact absurd rfl h
  | some r =>
    cases r with
    | error e =>
      refine ⟨fun _ hret => ?_, fun _ => ⟨e, rfl⟩⟩
      obtain ⟨a, ha⟩ := hret
      cases ha
    | ok a =>
      refine ⟨fun hthrow => ?_, fun hret => absurd ⟨a, rfl⟩ hret⟩
      obtain ⟨e, he⟩ := hthrow
      cases he

theorem setColumns_endless
    (h : setColumns env read type row object polymorphs = ExceptT.mk none) :
    ∃ c ∈ row, ∃ field, columnField env type c.1 = some field ∧ ¬ field.Polymorphic env ∧
      read c.2 field.type = ExceptT.mk none := by
  induction row generalizing object polymorphs with
  | nil => cases h
  | cons c row ih =>
    obtain ⟨name, cell⟩ := c
    cases hfield : columnField env type name with
    | none =>
      obtain ⟨e, he⟩ : ∃ e, setColumns env read type ((name, cell) :: row) object polymorphs
          = throw e := setColumns_none hfield
      rw [he] at h
      cases h
    | some field =>
      have hlater : (∃ c ∈ row, ∃ field, columnField env type c.1 = some field ∧
            ¬ field.Polymorphic env ∧ read c.2 field.type = ExceptT.mk none) →
          ∃ c ∈ (name, cell) :: row, ∃ field, columnField env type c.1 = some field ∧
            ¬ field.Polymorphic env ∧ read c.2 field.type = ExceptT.mk none := by
        rintro ⟨c, hmem, hc⟩
        exact ⟨c, List.mem_cons_of_mem _ hmem, hc⟩
      by_cases hpoly : field.Polymorphic env
      · rw [setColumns_polymorphic hfield hpoly] at h
        exact hlater (ih h)
      · rw [setColumns_ordinary hfield hpoly] at h
        rcases Mapped.bind_endless h with hread | ⟨value, -, hset⟩
        · exact ⟨_, List.mem_cons_self, field, hfield, hpoly, hread⟩
        · exact hlater (ih hset)

theorem setPolymorphs_endless (hsel : SelectsOnOrdinary env type)
    (hagree : AgreeOrdinary env type base object)
    (h : setPolymorphs read (row.filterMap (polymorphColumn env type)) object
      = ExceptT.mk none) :
    ∃ c ∈ row, ∃ field, columnField env type c.1 = some field ∧
      fieldValue env read base field c.2 = ExceptT.mk none := by
  induction row generalizing object with
  | nil => cases h
  | cons c row ih =>
    obtain ⟨name, cell⟩ := c
    by_cases hoff : ∃ field, columnField env type name = some field ∧ field.Polymorphic env
    · obtain ⟨field, hfield, hpoly⟩ := hoff
      rw [List.filterMap_cons_some (polymorphColumn_eq_some hfield hpoly),
        setPolymorphs_cons hsel hagree hfield hpoly] at h
      rcases Mapped.bind_endless h with hread | ⟨value, -, hset⟩
      · exact ⟨_, List.mem_cons_self, field, hfield, hread⟩
      · obtain ⟨c, hmem, hc⟩ := ih (hagree.set hfield hpoly) hset
        exact ⟨c, List.mem_cons_of_mem _ hmem, hc⟩
    · have hnone : ∀ field, columnField env type name = some field → ¬ field.Polymorphic env :=
        fun field hfield hpoly => hoff ⟨field, hfield, hpoly⟩
      rw [List.filterMap_cons_none (polymorphColumn_eq_none hnone)] at h
      obtain ⟨c, hmem, hc⟩ := ih hagree h
      exact ⟨c, List.mem_cons_of_mem _ hmem, hc⟩

/-! ## Both passes -/

theorem columnValue_eq (c : Text × Cell) :
    (selectedColumn env read type base c).or (ordinaryColumn env read type c)
      = (columnValue env read type base c).bind Mapped.result? := by
  unfold selectedColumn ordinaryColumn columnValue
  cases columnField env type c.1 with
  | none => rfl
  | some field =>
    simp only [Option.bind_some, Option.map_some]
    by_cases hpoly : field.Polymorphic env
    · rw [if_pos hpoly, if_pos hpoly, Option.or_none]
    · rw [if_neg hpoly, if_neg hpoly, fieldValue_ordinary hpoly]
      rfl

/-- The columns are read in two passes, or each for itself. -/
theorem columns_read_iff :
    ((∀ c ∈ row, GetsBy env read type c) ∧
      ∀ c ∈ row, ∀ field, columnField env type c.1 = some field → field.Polymorphic env →
        ∃ v, fieldValue env read base field c.2 = Mapped.returned v) ↔
    ∀ c ∈ row, ∃ v, columnValue env read type base c = some (Mapped.returned v) := by
  constructor
  · rintro ⟨hby, hselected⟩ c hmem
    obtain ⟨field, hfield, hread⟩ := hby c hmem
    unfold columnValue
    rw [hfield, Option.map_some]
    by_cases hpoly : field.Polymorphic env
    · obtain ⟨v, hv⟩ := hselected c hmem field hfield hpoly
      exact ⟨v, congrArg some hv⟩
    · obtain ⟨v, hv⟩ := hread.resolve_left hpoly
      exact ⟨v, congrArg some ((fieldValue_ordinary hpoly).trans hv)⟩
  · intro hall
    have hfields : ∀ c ∈ row, ∃ field v, columnField env type c.1 = some field ∧
        fieldValue env read base field c.2 = Mapped.returned v := by
      intro c hmem
      obtain ⟨v, hv⟩ := hall c hmem
      obtain ⟨field, hfield, hvalue⟩ := Option.map_eq_some_iff.mp hv
      exact ⟨field, v, hfield, hvalue⟩
    refine ⟨fun c hmem => ?_, fun c hmem field hfield _ => ?_⟩
    · obtain ⟨field, v, hfield, hvalue⟩ := hfields c hmem
      refine ⟨field, hfield, or_iff_not_imp_left.mpr fun hpoly => ⟨v, ?_⟩⟩
      exact (fieldValue_ordinary hpoly).symm.trans hvalue
    · obtain ⟨field', v, hfield', hvalue⟩ := hfields c hmem
      rw [hfield] at hfield'
      cases hfield'
      exact ⟨v, hvalue⟩

/-- **What a row is read as**: the object with every column set, if every column has a field and
    can be read. -/
theorem readOneRowAsObject_returned_iff (hnodup : (row.map Prod.fst).Nodup)
    (hsel : SelectsOnOrdinary env type) :
    readOneRowAsObject env read row type = Mapped.returned v ↔
      (∀ c ∈ row, ∃ w, columnValue env read type (ordinaryObject env read type row) c
        = some (Mapped.returned w)) ∧
      v = ⟨some (.object (rowObject env read type row)), type⟩ := by
  have hset : (ordinaryObject env read type row).setAll
      (selectedColumn env read type (ordinaryObject env read type row)) row
        = rowObject env read type row := by
    unfold rowObject
    rw [← funext columnValue_eq]
    exact Object.setAll_setAll
  rw [← columns_read_iff]
  unfold readOneRowAsObject
  constructor
  · intro h
    -- both passes have returned, so each of the two equivalences can be read from left to right
    obtain ⟨⟨object, rest⟩, hfirst, h⟩ := Mapped.bind_returned h
    obtain ⟨object', hsecond, h⟩ := Mapped.bind_returned h
    obtain ⟨hby, hobject, hrest⟩ := (setColumns_returned_iff hnodup).mp hfirst
    rw [List.nil_append] at hrest
    change object = ordinaryObject env read type row at hobject
    subst hobject hrest
    obtain ⟨hselected, hobject'⟩ :=
      (setPolymorphs_returned_iff hnodup hsel (.refl _)).mp hsecond
    rw [hset] at hobject'
    subst hobject'
    cases h
    exact ⟨⟨hby, hselected⟩, rfl⟩
  · -- and here from right to left
    rintro ⟨⟨hby, hselected⟩, rfl⟩
    have hfirst : setColumns env read type row (env.createObject type) []
        = Mapped.returned (ordinaryObject env read type row,
            row.filterMap (polymorphColumn env type)) :=
      (setColumns_returned_iff hnodup).mpr ⟨hby, rfl, rfl⟩
    have hsecond : setPolymorphs read (row.filterMap (polymorphColumn env type))
        (ordinaryObject env read type row) = Mapped.returned (rowObject env read type row) :=
      (setPolymorphs_returned_iff hnodup hsel (.refl _)).mpr ⟨hselected, hset.symm⟩
    rw [hfirst]
    change setPolymorphs read (row.filterMap (polymorphColumn env type))
      (ordinaryObject env read type row) >>= _ = _
    rw [hsecond]
    rfl

/-- A row that is read without end has a column whose chain of interpretations has none. -/
theorem readOneRowAsObject_endless (hnodup : (row.map Prod.fst).Nodup)
    (hsel : SelectsOnOrdinary env type)
    (h : readOneRowAsObject env read row type = ExceptT.mk none) :
    ∃ c ∈ row, columnValue env read type (ordinaryObject env read type row) c
      = some (ExceptT.mk none) := by
  unfold readOneRowAsObject at h
  rcases Mapped.bind_endless h with hfirst | ⟨⟨object, rest⟩, hfirst, h⟩
  · obtain ⟨c, hmem, field, hfield, hpoly, hread⟩ := setColumns_endless hfirst
    refine ⟨c, hmem, ?_⟩
    unfold columnValue
    rw [hfield, Option.map_some, fieldValue_ordinary hpoly, hread]
  · obtain ⟨-, hobject, hrest⟩ := (setColumns_returned_iff hnodup).mp hfirst
    rw [List.nil_append] at hrest
    change object = ordinaryObject env read type row at hobject
    subst hobject hrest
    rcases Mapped.bind_endless h with hsecond | ⟨object', -, h⟩
    · obtain ⟨c, hmem, field, hfield, hread⟩ := setPolymorphs_endless hsel (.refl _) hsecond
      refine ⟨c, hmem, ?_⟩
      unfold columnValue
      rw [hfield, Option.map_some, hread]
    · cases h

theorem ordinaryObject_perm {row' : List (Text × Cell)} (hperm : row'.Perm row)
    (hnodup : (row.map Prod.fst).Nodup) :
    ordinaryObject env read type row' = ordinaryObject env read type row :=
  Object.setAll_perm hperm hnodup

theorem rowObject_perm {row' : List (Text × Cell)} (hperm : row'.Perm row)
    (hnodup : (row.map Prod.fst).Nodup) :
    rowObject env read type row' = rowObject env read type row := by
  unfold rowObject
  rw [ordinaryObject_perm hperm hnodup]
  exact Object.setAll_perm hperm hnodup

/-- Where every chain of interpretations ends, a row is refused for one of its columns. -/
theorem readOneRowAsObject_throws_iff (hnodup : (row.map Prod.fst).Nodup)
    (hsel : SelectsOnOrdinary env type)
    (hends : ∀ c ∈ row, columnValue env read type (ordinaryObject env read type row) c
      ≠ some (ExceptT.mk none)) :
    (∃ e, readOneRowAsObject env read row type = throw e) ↔
      ∃ c ∈ row, columnValue env read type (ordinaryObject env read type row) c = none ∨
        ∃ e, columnValue env read type (ordinaryObject env read type row) c
          = some (throw e) := by
  have hend : readOneRowAsObject env read row type ≠ ExceptT.mk none := by
    intro h
    obtain ⟨c, hmem, hc⟩ := readOneRowAsObject_endless hnodup hsel h
    exact hends c hmem hc
  have hcolumn : ∀ c ∈ row,
      (columnValue env read type (ordinaryObject env read type row) c = none ∨
        ∃ e, columnValue env read type (ordinaryObject env read type row) c = some (throw e)) ↔
      ¬ ∃ w, columnValue env read type (ordinaryObject env read type row) c
        = some (Mapped.returned w) := by
    intro c hmem
    have hne := hends c hmem
    cases hx : columnValue env read type (ordinaryObject env read type row) c with
    | none => simp
    | some x =>
      rw [hx] at hne
      have hthrows := Mapped.throws_iff fun h => hne (congrArg some h)
      simpa using hthrows
  rw [Mapped.throws_iff hend]
  constructor
  · intro hnot
    by_contra hall
    refine hnot ⟨_, (readOneRowAsObject_returned_iff hnodup hsel).mpr ⟨fun c hmem => ?_, rfl⟩⟩
    by_contra hc
    exact hall ⟨c, hmem, (hcolumn c hmem).mpr hc⟩
  · rintro ⟨c, hmem, hc⟩ ⟨v, hv⟩
    exact (hcolumn c hmem).mp hc (((readOneRowAsObject_returned_iff hnodup hsel).mp hv).1 c hmem)

/-- **The outcome does not depend on the order of the columns.** A row is read as the object in
    which every field that a column names holds the column's value, if every column has a field
    and can be read; where every chain of interpretations ends it is refused otherwise; and the
    columns in any other order come to the same. -/
theorem readOneRowAsObject_order (hnodup : (row.map Prod.fst).Nodup)
    (hsel : SelectsOnOrdinary env type) :
    (∀ v, readOneRowAsObject env read row type = Mapped.returned v ↔
      (∀ c ∈ row, ∃ w, columnValue env read type (ordinaryObject env read type row) c
        = some (Mapped.returned w)) ∧
      v = ⟨some (.object (rowObject env read type row)), type⟩) ∧
    ((∀ c ∈ row, columnValue env read type (ordinaryObject env read type row) c
        ≠ some (ExceptT.mk none)) →
      ((∃ e, readOneRowAsObject env read row type = throw e) ↔
        ∃ c ∈ row, columnValue env read type (ordinaryObject env read type row) c = none ∨
          ∃ e, columnValue env read type (ordinaryObject env read type row) c
            = some (throw e))) ∧
    ∀ row' : List (Text × Cell), row'.Perm row →
      (∀ v, readOneRowAsObject env read row' type = Mapped.returned v ↔
        readOneRowAsObject env read row type = Mapped.returned v) ∧
      ((∀ c ∈ row, columnValue env read type (ordinaryObject env read type row) c
          ≠ some (ExceptT.mk none)) →
        ((∃ e, readOneRowAsObject env read row' type = throw e) ↔
          ∃ e, readOneRowAsObject env read row type = throw e)) := by
  refine ⟨fun v => readOneRowAsObject_returned_iff hnodup hsel,
    readOneRowAsObject_throws_iff hnodup hsel, fun row' hperm => ?_⟩
  have hnodup' : (row'.map Prod.fst).Nodup := (hperm.map Prod.fst).nodup_iff.mpr hnodup
  -- the selectors are asked of the same object, so each column is worth the same in both orders
  have hbase : ordinaryObject env read type row' = ordinaryObject env read type row :=
    ordinaryObject_perm hperm hnodup
  refine ⟨fun v => ?_, fun hends => ?_⟩
  · rw [readOneRowAsObject_returned_iff hnodup hsel, readOneRowAsObject_returned_iff hnodup' hsel,
      hbase, rowObject_perm hperm hnodup]
    simp only [hperm.mem_iff]
  · rw [readOneRowAsObject_throws_iff hnodup hsel hends,
      readOneRowAsObject_throws_iff hnodup' hsel (by
        intro c hmem
        rw [hbase]
        exact hends c (hperm.mem_iff.mp hmem)), hbase]
    simp only [hperm.mem_iff]

end

/-! ## An object with a polymorphic field -/

/-- The type of the field `value` goes by what the field `kind` says. -/
def kindSelector (o : Object PlainType) : PlainType :=
  match o.lookup "kind".toList with
  | some ⟨some (.string s), _⟩ => if s = "text".toList then .ofClass .string else .ofClass .blob
  | _ => .ofClass (.int .int64)

def kindProperties : List (Property PlainType) :=
  [⟨"kind".toList, .ofClass .string, none⟩, ⟨"value".toList, .ofClass .any, some kindSelector⟩]

theorem kindProperties_selectsOnOrdinary :
    SelectsOnOrdinary (plainEnv kindProperties) .object := by
  intro field hmem selectType hsel o o' hagree
  have hlookup : o.lookup "kind".toList = o'.lookup "kind".toList := by
    refine hagree.lookup_eq fun field hfield => ?_
    have hfirst : columnField (plainEnv kindProperties) .object "kind".toList
        = some ⟨"kind".toList, .ofClass .string, none⟩ := rfl
    rw [hfirst] at hfield
    cases hfield
    exact fun hpoly => Bool.false_ne_true hpoly.1
  rcases List.mem_cons.mp hmem with rfl | hmem
  · cases hsel
  · obtain rfl := List.mem_singleton.mp hmem
    cases hsel
    unfold kindSelector
    rw [hlookup]

/-- The polymorphic column comes first, and its selector sees the ordinary one. -/
theorem readOneRowAsObject_order_kind :
    readOneRowAsObject (plainEnv kindProperties)
        (fun cell type => deserialize (plainEnv kindProperties)
          (Deserializer (plainEnv kindProperties) plainConversions 22) plainResolver cell 2 type)
        [("value".toList, .text "b".toList), ("kind".toList, .text "text".toList)] .object
      = Mapped.returned ⟨some (.object
          [("kind".toList, ⟨some (.string "text".toList), .ofClass .string⟩),
           ("value".toList, ⟨some (.anyHandle ⟨some (.string "b".toList), .ofClass .string⟩),
              .ofClass .any⟩)]), .object⟩ :=
  (((readOneRowAsObject_order (by decide) kindProperties_selectsOnOrdinary).2.2 _
    (.swap ("kind".toList, .text "text".toList) ("value".toList, .text "b".toList) [])).1 _).mpr rfl

end OatppSqlite.Mapping
