import OatppSqlite.Executor.Insert
import OatppSqlite.Mapping.Copies

/-!
# A row into an object and into a row again

A program that copies a table reads each row as an object and inserts the object. Here the
mappers meet from the other side than in `Executor.Insert`: the row comes first, and nothing is
known of the storage classes of its cells. `insert_copies_row` says what the new row is: cell by
cell the copy (`copied`) under the class of the field that the column names. It is the same row
exactly if every cell is one that its field keeps, but it always reads as the same object.

The row that is read and the row that is stored may have their columns in different orders, so they
are compared as they are named.
-/

set_option autoImplicit false

namespace OatppSqlite.Executor

open Caret Mapping Template Sqlite

/-! ## Objects of scalars -/

/-- An object type with fields of these names, each of a type of its scalar class. -/
structure ScalarObject {τ : Type} (env : TypeEnv τ) (type : τ) (names : List Text)
    (classOf : Text → ClassName) : Prop where
  distinct : names.Nodup
  named : ∀ name ∈ names, name ≠ [] ∧ ∀ a ∈ name, nameChar a = true
  scalar : ∀ name ∈ names, ScalarClass (classOf name)
  properties : (env.properties type).map (fun p => (p.name, env.classId p.type))
    = names.map fun name => (name, env.ids (classOf name))
  created : (env.createObject type).map Prod.fst = names

/-- The column of a copy, under the class of its field. -/
def copiedColumn (widen : BitVec 32 → BitVec 64) (conv : Conversions)
    (classOf : Text → ClassName) (column : Text × Cell) : Option (Text × Cell) :=
  (copied widen conv (classOf column.1) column.2).map fun data => (column.1, data)

/-- A cell read as a type, with a bound on the interpretations. -/
def readAs {τ : Type} (env : TypeEnv τ) (conv : Conversions) (classCount : Nat)
    (typeResolver : TypeResolver τ) (m : Nat) (data : Cell) (type : τ) : Mapped (Mapping.Void τ) :=
  ExceptT.mk (deserialize env (Deserializer env conv classCount) typeResolver data m type)

/-! ## Reading

Every column of the row names a field of a scalar class, so the first pass over the columns reads
them all, and the second, which is for the polymorphic fields, finds none. -/

section

variable {τ : Type} {env : TypeEnv τ} {type : τ} {names : List Text}
  {classOf : Text → ClassName} {row row' : List (Text × Cell)} {widen : BitVec 32 → BitVec 64}
  {conv : Conversions} {name : Text} {c : ClassName} {classCount n m : Nat}
  {typeResolver : TypeResolver τ} {data data' : Cell}

/-- A choice for each column, when the names are distinct. -/
theorem exists_choice {β : Type} {P : Text × Cell → β → Prop} (hnodup : (row.map Prod.fst).Nodup)
    (default : β) (h : ∀ column ∈ row, ∃ b, P column b) :
    ∃ val : Text → β, ∀ column ∈ row, P column (val column.1) := by
  have hone : ∀ name : Text, ∃ b : β, ∀ column ∈ row, column.1 = name → P column b := by
    intro name
    by_cases hmem : ∃ column ∈ row, column.1 = name
    · obtain ⟨column, hcolumn, rfl⟩ := hmem
      obtain ⟨b, hb⟩ := h column hcolumn
      refine ⟨b, fun column' hcolumn' hname => ?_⟩
      rw [List.inj_on_of_nodup_map hnodup hcolumn' hcolumn hname]
      exact hb
    · exact ⟨default, fun column hcolumn hname => absurd ⟨column, hcolumn, hname⟩ hmem⟩
  obtain ⟨val, hval⟩ := Classical.skolem.mp hone
  exact ⟨val, fun column hcolumn => hval column.1 column hcolumn rfl⟩

/-- A column of a field's name finds the field, and it is an ordinary one. -/
theorem ScalarObject.columnField_eq (henv : env.Lawful) (ho : ScalarObject env type names classOf)
    (hname : name ∈ names) :
    ∃ field, columnField env type name = some field ∧
      env.classId field.type = env.ids (classOf name) ∧ ¬ field.Polymorphic env := by
  have hnames : (env.properties type).map Property.name = names := by
    have hfst := congrArg (List.map Prod.fst) ho.properties
    simpa [List.map_map, Function.comp_def] using hfst
  obtain ⟨p, hp, heq⟩ := List.mem_map.mp (hnames.symm ▸ hname)
  cases hfind : columnField env type name with
  | none =>
    have hnone := List.find?_eq_none.mp hfind p hp
    simp [heq] at hnone
  | some field =>
    have hfield : field.name = name := columnField_name hfind
    have hpair : (field.name, env.classId field.type)
        ∈ names.map fun name => (name, env.ids (classOf name)) := by
      rw [← ho.properties]
      exact List.mem_map.mpr ⟨field, List.mem_of_find?_eq_some hfind, rfl⟩
    obtain ⟨name', -, hpair⟩ := List.mem_map.mp hpair
    obtain ⟨hname', hid⟩ := Prod.mk.inj hpair
    rw [hname', hfield] at hid
    refine ⟨field, rfl, hid.symm, fun hpoly => ?_⟩
    -- an `Any` is no scalar
    have hany : classOf name = .any := by
      rw [hpoly.2, henv.classId_typeOf] at hid
      exact henv.ids_injective hid
    have hscalar := ho.scalar name hname
    rw [hany] at hscalar
    rcases hscalar with ⟨⟨⟩⟩

/-- What is read of a scalar column is written as its copy, or it is not read. -/
theorem readAs_scalar (henv : env.Lawful) (hc : ScalarClass c)
    (htype : env.classId type = env.ids c) (widen : BitVec 32 → BitVec 64)
    (conv : Conversions) (classCount : Nat) (typeResolver : TypeResolver τ) (m : Nat)
    (data : Cell) :
    match copied widen conv c data with
    | some data' => ∃ v, readAs env conv classCount typeResolver (m + 1) data type
        = Mapped.returned v ∧ WrittenAs env widen v data'
    | none => ∃ e, readAs env conv classCount typeResolver (m + 1) data type = throw e := by
  obtain ⟨method, hm, hwrites⟩ := exists_writesCopy henv hc widen conv type data
  cases hcopy : copied widen conv c data with
  | none =>
    rw [hcopy] at hwrites
    obtain ⟨what, hwhat⟩ := hwrites
    refine ⟨.runtimeError what, ?_⟩
    unfold readAs
    rw [deserialize_eq henv hm htype, hwhat]
    rfl
  | some data' =>
    rw [hcopy] at hwrites
    obtain ⟨v, hv, -, hwritten⟩ := hwrites
    refine ⟨v, ?_, hwritten⟩
    unfold readAs
    rw [deserialize_eq henv hm htype, hv]

variable [DecidableEq τ]

/-- The first loop reads every ordinary column. -/
theorem setColumns_reads {read : Cell → τ → Mapped (Mapping.Void τ)} {object : Object τ}
    {polymorphs : List (Property τ × Cell)} {r : Object τ × List (Property τ × Cell)}
    (h : setColumns env read type row object polymorphs = Mapped.returned r) :
    ∀ column ∈ row, ∀ field, columnField env type column.1 = some field →
      ¬ field.Polymorphic env → ∃ v, read column.2 field.type = Mapped.returned v := by
  induction row generalizing object polymorphs with
  | nil => exact fun _ hmem => absurd hmem List.not_mem_nil
  | cons column row ih =>
    obtain ⟨colName, cell⟩ := column
    cases hfield : columnField env type colName with
    | none =>
      obtain ⟨e, he⟩ := setColumns_none hfield
      rw [he] at h
      cases h
    | some field =>
      by_cases hpoly : field.Polymorphic env
      · rw [setColumns_polymorphic hfield hpoly] at h
        rintro column (_ | ⟨_, hmem⟩) field' hfield' hord
        · rw [hfield] at hfield'
          cases hfield'
          exact absurd hpoly hord
        · exact ih h column hmem field' hfield' hord
      · rw [setColumns_ordinary hfield hpoly] at h
        obtain ⟨v, hv, h⟩ := Mapped.bind_returned h
        rintro column (_ | ⟨_, hmem⟩) field' hfield' hord
        · rw [hfield] at hfield'
          cases hfield'
          exact ⟨v, hv⟩
        · exact ih h column hmem field' hfield' hord

/-- A row that names every field is read as the object of what its columns are read as. -/
theorem readOneRowAsObject_scalars {read : Cell → τ → Mapped (Mapping.Void τ)}
    {val : Text → Mapping.Void τ} (henv : env.Lawful) (ho : ScalarObject env type names classOf)
    (hrow : (row.map Prod.fst).Perm names)
    (hread : ∀ column ∈ row, ∀ field, columnField env type column.1 = some field →
      read column.2 field.type = Mapped.returned (val column.1)) :
    readOneRowAsObject env read row type
      = Mapped.returned ⟨some (.object (names.map fun name => (name, val name))), type⟩ := by
  have hcolumn : ∀ column ∈ row, ColumnReads env read type val column := by
    intro column hmem
    obtain ⟨field, hfield, -, hord⟩ :=
      ho.columnField_eq henv (hrow.mem_iff.mp (List.mem_map.mpr ⟨column, hmem, rfl⟩))
    exact ⟨field, hfield, columnField_name hfield, hord, hread column hmem field hfield⟩
  have hobject : (row.foldl (fun o column => Object.set o column.1 (val column.1))
      (env.createObject type)) = names.map fun name => (name, val name) := by
    rw [foldl_set, ← ho.created, List.map_map]
    refine List.map_congr_left fun f hf => ?_
    have hmem : f.1 ∈ row.map Prod.fst := by
      rw [hrow.mem_iff, ← ho.created]
      exact List.mem_map.mpr ⟨f, hf, rfl⟩
    rw [if_pos hmem]
    rfl
  unfold readOneRowAsObject
  rw [setColumns_returned _ [] hcolumn, ← hobject]
  rfl

end

/-! ## Writing

As in `Executor.Insert`, but from the properties of an object that was read: what is bound is the
copy and not a value that is known beforehand. -/

section

variable {κ τ : Type} [Caret κ] [LawfulCaret κ] {env : TypeEnv τ} {names : List Text}
  {widen : BitVec 32 → BitVec 64} {typeResolver : TypeResolver τ} {name queryName : Text}
  {var : Variable} {v w : Mapping.Void τ} {b : Bind} {data : Cell} {classCount n fuel : Nat}
  {serializer : MethodTable (SerializerMethod τ)} {row : List (Text × Cell)}

/-- The variable `row.f` binds what `serialize` makes of the property. -/
theorem bindParam_property (hne : name ≠ []) (hname : ∀ a ∈ name, nameChar a = true)
    (hresolve : typeResolver.resolveObjectPropertyValue v [name] = .ok w)
    (hvoid : env.classId w.valueType ≠ env.ids .void) (hvar : var.name = some (rowName name))
    (hb : serialize env serializer fuel w = some (.ok b)) :
    bindParam κ ⟨env, serializer, fuel, typeResolver, [("row".toList, v)]⟩ queryName var
      = Mapped.returned b := by
  have hparam : parseQueryParameter κ (rowName name) = some ⟨some "row".toList, [name]⟩ :=
    parseQueryParameter_rowName hne hname
  unfold bindParam
  rw [hvar]
  show ((parseQueryParameter κ (rowName name) : Option QueryParameter) : Mapped QueryParameter)
    >>= _ = _
  rw [hparam]
  show ((typeResolver.resolveObjectPropertyValue v [name] : Except MapError (Mapping.Void τ)) :
    Mapped (Mapping.Void τ)) >>= _ = _
  rw [hresolve]
  show (if env.classId w.valueType = env.ids .void then _ else _) = _
  rw [if_neg hvoid]
  exact hb

omit [LawfulCaret κ] in
/-- **Binding** goes through when every variable does, and gives each its place. -/
theorem bindVariables_each {ctx : BindContext τ} {vars : List Variable} {bindOf : Nat → Bind}
    (h : ∀ j var, vars[j]? = some var →
      bindParam κ ctx queryName var = Mapped.returned (bindOf j)) :
    ∃ binds, bindVariables κ ctx queryName 0 vars = Mapped.returned binds ∧
      ∀ j < vars.length, boundTo binds (j + 1) = (bindOf j).cell := by
  have hall : ∀ var ∈ vars, ∃ bind, bindParam κ ctx queryName var = Mapped.returned bind := by
    intro var hmem
    obtain ⟨j, hj⟩ := List.mem_iff_getElem?.mp hmem
    exact ⟨_, h j var hj⟩
  obtain ⟨binds, hbinds⟩ := bindVariables_of_forall (i := 0) hall
  obtain ⟨hlen, hget⟩ := bindVariables_returned hbinds
  have hat : ∀ j < vars.length, binds[j]? = some (j + 1, bindOf j) := by
    intro j hj
    obtain ⟨bind, hbind, hbound⟩ := hget j vars[j] (List.getElem?_eq_getElem hj)
    rw [h j _ (List.getElem?_eq_getElem hj)] at hbind
    cases hbind
    rwa [Nat.zero_add] at hbound
  have hkeys : ∀ j e, binds[j]? = some e → e.1 = j + 1 := by
    intro j e he
    have hj := (List.getElem?_eq_some_iff.mp he).1
    rw [hat j (hlen ▸ hj), Option.some.injEq] at he
    rw [← he]
  exact ⟨binds, hbinds, fun j hj => boundTo_eq hkeys (hat j hj)⟩

/-- Every property that is written as a cell is bound to it, under its number. -/
theorem bindParams_written {val : Text → Mapping.Void τ} {cell : Text → Cell}
    (henv : env.Lawful) (hnames : ∀ name ∈ names, name ≠ [] ∧ ∀ a ∈ name, nameChar a = true)
    (hresolve : ∀ name ∈ names, typeResolver.resolveObjectPropertyValue v [name] = .ok (val name))
    (hwritten : ∀ name ∈ names, WrittenAs env widen (val name) (cell name))
    (templateName : Option Text) (prepare : Bool) :
    ∃ binds, bindParams κ ⟨env, Serializer env widen classCount, n + 1, typeResolver,
        [("row".toList, v)]⟩
        ⟨⟨insertTemplate names, assembledVariables 0 (insertSegments names)⟩,
         ⟨templateName, insertSql names, prepare⟩⟩ = Mapped.returned binds ∧
      ∀ i name, names[i]? = some name → boundTo binds (i + 1) = cell name := by
  have hlen : (assembledVariables 0 (insertSegments names)).length = names.length := by
    rw [← length_placeholders 0 0, placeholders_assembled, length_assembledPlaceholders,
      length_insertSegments]
  have hbind : ∀ i : Nat, ∃ b : Bind, ∀ name, names[i]? = some name →
      serialize env (Serializer env widen classCount) (n + 1) (val name) = some (.ok b) ∧
        b.cell = cell name := by
    intro i
    cases hi : names[i]? with
    | none => exact ⟨.null, fun name h => by cases h⟩
    | some name =>
      obtain ⟨b, hb, hcell⟩ :=
        (hwritten name (List.mem_of_getElem? hi)).serialize_eq henv classCount n
      exact ⟨b, fun name' h => by cases h; exact ⟨hb, hcell⟩⟩
  obtain ⟨bindOf, hbindOf⟩ := Classical.skolem.mp hbind
  have hvars : ∀ j var, (assembledVariables 0 (insertSegments names))[j]? = some var →
      bindParam κ ⟨env, Serializer env widen classCount, n + 1, typeResolver,
        [("row".toList, v)]⟩ (templateName.getD "UnNamed".toList) var
          = Mapped.returned (bindOf j) := by
    intro j var hj
    have hlt : j < names.length := hlen ▸ (List.getElem?_eq_some_iff.mp hj).1
    have hname : names[j]? = some names[j] := List.getElem?_eq_getElem hlt
    have hmem : names[j] ∈ names := List.getElem_mem hlt
    obtain ⟨segment, hs, hsegment⟩ := name_of_insertSegments hname
    have hvar : var.name = some (rowName names[j]) := by
      rw [name_of_assembledVariables hs hj, hsegment]
    exact bindParam_property (hnames _ hmem).1 (hnames _ hmem).2 (hresolve _ hmem)
      ((hwritten _ hmem).classId_ne henv) hvar (hbindOf j _ hname).1
  obtain ⟨binds, hbinds, hbound⟩ := bindVariables_each hvars
  refine ⟨binds, hbinds, fun i name hi => ?_⟩
  rw [hbound i (hlen ▸ (List.getElem?_eq_some_iff.mp hi).1)]
  exact (hbindOf i name hi).2

/-- The row that is stored has these cells. -/
theorem Stores.perm {cell : Text → Cell} {binds : List (Nat × Bind)} (hdistinct : names.Nodup)
    (hnames : ∀ name ∈ names, ∀ a ∈ name, nameChar a = true)
    (hbound : ∀ i name, names[i]? = some name → boundTo binds (i + 1) = cell name)
    (hrow : Stores (insertSql names) names binds row) :
    row.Perm (names.map fun name => (name, cell name)) := by
  have hmem : ∀ name ∈ names, (name, cell name) ∈ row := by
    intro name hname
    obtain ⟨i, hi⟩ := List.mem_iff_getElem?.mp hname
    have hlt : i < names.length := (List.getElem?_eq_some_iff.mp hi).1
    rw [← hbound i name hi]
    exact hrow.values i name (i + 1) hi
      (parameterNumber_insert hnames hrow.accepted hrow.limit hlt)
  have hnodup : (row.map Prod.fst).Nodup := hrow.columns.nodup_iff.mpr hdistinct
  have hcells : (names.map fun name => (name, cell name)).Nodup :=
    hdistinct.map fun _ _ h => (Prod.mk.inj h).1
  rw [List.perm_ext_iff_of_nodup hnodup.of_map hcells]
  rintro ⟨name, data⟩
  constructor
  · intro h
    have hname : name ∈ names := hrow.columns.mem_iff.mp (List.mem_map.mpr ⟨_, h, rfl⟩)
    rw [List.inj_on_of_nodup_map hnodup h (hmem name hname) rfl]
    exact List.mem_map.mpr ⟨name, hname, rfl⟩
  · intro h
    obtain ⟨name', hname, heq⟩ := List.mem_map.mp h
    rw [← heq]
    exact hmem name' hname

end

/-! ## The copy of a row

`CopiedTo` puts the columns side by side: what each is read as, and the cell that this is written as.
It exists exactly if the row can be read, and then the layers of `Executor.Insert` take it to the
stored row. -/

section

variable {κ τ : Type} [Caret κ] [LawfulCaret κ] [DecidableEq τ] {env : TypeEnv τ} {type : τ}
  {names : List Text} {classOf : Text → ClassName} {row : List (Text × Cell)}
  {widen : BitVec 32 → BitVec 64} {conv : Conversions} {typeResolver : TypeResolver τ}
  {classCount classCount' n m : Nat} {format : FormatFn}

/-- **What is relied on of the resolver**: it finds the properties of an object. -/
def ResolvesProperties (typeResolver : TypeResolver τ) (type : τ) : Prop :=
  ∀ (o : Object τ) (name : Text) (v : Mapping.Void τ), (name, v) ∈ o → (o.map Prod.fst).Nodup →
    typeResolver.resolveObjectPropertyValue ⟨some (.object o), type⟩ [name] = .ok v

omit [DecidableEq τ] in
/-- A column that has a copy is read, and so is the copy, as a value that is written as it. -/
theorem column_reads {column : Text × Cell} {data : Cell} (henv : env.Lawful)
    (ho : ScalarObject env type names classOf) (hname : column.1 ∈ names)
    (hcopy : copied widen conv (classOf column.1) column.2 = some data) :
    ∃ v, WrittenAs env widen v data ∧ ∀ field, columnField env type column.1 = some field →
      readAs env conv classCount' typeResolver (m + 1) column.2 field.type = Mapped.returned v ∧
      (WidensExactly widen conv →
        readAs env conv classCount' typeResolver (m + 1) data field.type = Mapped.returned v) := by
  obtain ⟨field, hfield, hid, -⟩ := ho.columnField_eq henv hname
  have hc := ho.scalar column.1 hname
  have hreads := readAs_scalar henv hc hid widen conv classCount' typeResolver m column.2
  rw [hcopy] at hreads
  obtain ⟨v, hv, hwritten⟩ := hreads
  refine ⟨v, hwritten, fun field' hfield' => ?_⟩
  rw [hfield, Option.some.injEq] at hfield'
  subst hfield'
  refine ⟨hv, fun hround => ?_⟩
  rw [← hv]
  unfold readAs
  rw [deserialize_of_copied henv hround hc hid hcopy]

/-- A row is read exactly if every column has a copy. -/
theorem copied_of_readOneRowAsObject (henv : env.Lawful)
    (ho : ScalarObject env type names classOf) (hrow : (row.map Prod.fst).Perm names)
    {v : Mapping.Void τ} (widen : BitVec 32 → BitVec 64)
    (h : readOneRowAsObject env (readAs env conv classCount' typeResolver (m + 1)) row type
      = Mapped.returned v) :
    ∀ column ∈ row, ∃ data, copied widen conv (classOf column.1) column.2 = some data := by
  intro column hmem
  have hname : column.1 ∈ names := hrow.mem_iff.mp (List.mem_map.mpr ⟨column, hmem, rfl⟩)
  obtain ⟨field, hfield, hid, hord⟩ := ho.columnField_eq henv hname
  unfold readOneRowAsObject at h
  obtain ⟨r, hset, -⟩ := Mapped.bind_returned h
  obtain ⟨w, hw⟩ := setColumns_reads hset column hmem field hfield hord
  have hreads := readAs_scalar henv (ho.scalar column.1 hname) hid widen conv classCount'
    typeResolver m column.2
  cases hcopy : copied widen conv (classOf column.1) column.2 with
  | some data => exact ⟨data, rfl⟩
  | none =>
    rw [hcopy] at hreads
    obtain ⟨e, he⟩ := hreads
    rw [he] at hw
    cases hw

/-- The columns of a row that has copies are these. -/
theorem filterMap_copiedColumn {cell : Text → Cell} (hrow : (row.map Prod.fst).Perm names)
    (hcopy : ∀ column ∈ row, copied widen conv (classOf column.1) column.2
      = some (cell column.1)) :
    (names.map fun name => (name, cell name)).Perm
      (row.filterMap (copiedColumn widen conv classOf)) := by
  have hmap : row.filterMap (copiedColumn widen conv classOf)
      = (row.map Prod.fst).map fun name => (name, cell name) := by
    rw [List.map_map, ← List.filterMap_eq_map]
    refine List.filterMap_congr fun column hmem => ?_
    rw [copiedColumn, hcopy column hmem]
    rfl
  rw [hmap]
  exact (hrow.map _).symm

/-- It is the row itself where each column is kept. -/
theorem perm_row_iff {cell : Text → Cell}
    (hscalar : ∀ name ∈ names, ScalarClass (classOf name))
    (hrow : (row.map Prod.fst).Perm names)
    (hcopy : ∀ column ∈ row, copied widen conv (classOf column.1) column.2
      = some (cell column.1)) :
    (names.map fun name => (name, cell name)).Perm row ↔
      ∀ column ∈ row, Keeps widen conv (classOf column.1) column.2 := by
  have hname : ∀ column ∈ row, column.1 ∈ names := fun column h =>
    hrow.mem_iff.mp (List.mem_map.mpr ⟨column, h, rfl⟩)
  have hsame : ∀ column ∈ row, Keeps widen conv (classOf column.1) column.2 ↔
      cell column.1 = column.2 := by
    intro column hmem
    rw [← copied_eq_self_iff (hscalar _ (hname column hmem)), hcopy column hmem,
      Option.some.injEq]
  constructor
  · intro hperm column hmem
    obtain ⟨name, -, heq⟩ := List.mem_map.mp (hperm.mem_iff.mpr hmem)
    rw [hsame column hmem, ← heq]
  · intro hkept
    have hmap : (row.map Prod.fst).map (fun name => (name, cell name)) = row := by
      rw [List.map_map]
      calc row.map ((fun name => (name, cell name)) ∘ Prod.fst)
          = row.map id := List.map_congr_left fun column hmem => by
            rw [Function.comp_apply, (hsame column hmem).mp (hkept column hmem)]
            rfl
        _ = row := List.map_id row
    have hperm := hrow.symm.map fun name => (name, cell name)
    rwa [hmap] at hperm

/-- What the columns of a row are read as (`val`), and the cells that this is written as, which
    are read as the same. -/
structure CopiedTo (env : TypeEnv τ) (type : τ) (classOf : Text → ClassName)
    (widen : BitVec 32 → BitVec 64) (conv : Conversions) (read : Cell → τ → Mapped (Mapping.Void τ))
    (row : List (Text × Cell)) (val : Text → Mapping.Void τ) (cell : Text → Cell) : Prop where
  copy : ∀ column ∈ row, copied widen conv (classOf column.1) column.2 = some (cell column.1)
  written : ∀ column ∈ row, WrittenAs env widen (val column.1) (cell column.1)
  reads : ∀ column ∈ row, ∀ field, columnField env type column.1 = some field →
    read column.2 field.type = Mapped.returned (val column.1) ∧
    read (cell column.1) field.type = Mapped.returned (val column.1)

omit [DecidableEq τ] in
theorem exists_copiedTo (henv : env.Lawful) (hround : WidensExactly widen conv)
    (ho : ScalarObject env type names classOf) (hrow : (row.map Prod.fst).Perm names)
    (hcopies : ∀ column ∈ row, ∃ data, copied widen conv (classOf column.1) column.2 = some data)
    (classCount : Nat) (typeResolver : TypeResolver τ) (m : Nat) :
    ∃ val cell, CopiedTo env type classOf widen conv
      (readAs env conv classCount typeResolver (m + 1)) row val cell := by
  have hnodup : (row.map Prod.fst).Nodup := hrow.nodup_iff.mpr ho.distinct
  obtain ⟨pair, hpair⟩ := exists_choice (P := fun column (p : Mapping.Void τ × Cell) =>
      copied widen conv (classOf column.1) column.2 = some p.2 ∧ WrittenAs env widen p.1 p.2 ∧
      ∀ field, columnField env type column.1 = some field →
        readAs env conv classCount typeResolver (m + 1) column.2 field.type
          = Mapped.returned p.1 ∧
        readAs env conv classCount typeResolver (m + 1) p.2 field.type = Mapped.returned p.1)
    hnodup (⟨none, type⟩, .null) (by
      intro column hmem
      have hname : column.1 ∈ names := hrow.mem_iff.mp (List.mem_map.mpr ⟨column, hmem, rfl⟩)
      obtain ⟨data, hdata⟩ := hcopies column hmem
      obtain ⟨v, hwritten, hread⟩ := column_reads henv ho hname hdata
      exact ⟨(v, data), hdata, hwritten, fun field hfield =>
        ⟨(hread field hfield).1, (hread field hfield).2 hround⟩⟩)
  exact ⟨fun name => (pair name).1, fun name => (pair name).2, fun column h => (hpair column h).1,
    fun column h => (hpair column h).2.1, fun column h => (hpair column h).2.2⟩

end

/-! ## Two columns -/

theorem plainResolver_properties : ResolvesProperties plainResolver .object := by
  intro o name v hmem hnodup
  have hlookup : o.lookup name = some v := by
    induction o with
    | nil => cases hmem
    | cons f o ih =>
      obtain ⟨hf, ho⟩ := List.nodup_cons.mp hnodup
      rcases List.mem_cons.mp hmem with rfl | hmem
      · exact List.lookup_cons_self
      · have hne : name ≠ f.1 := by
          rintro rfl
          exact hf (List.mem_map.mpr ⟨_, hmem, rfl⟩)
        rw [List.lookup_cons, beq_false_of_ne hne]
        exact ih hmem ho
  show Except.ok ((o.lookup name).getD _) = _
  rw [hlookup]
  rfl

/-- A signed byte and a blob. -/
def twoClasses (name : Text) : ClassName := if name = "id".toList then .int .int8 else .blob

def twoProperties : List (Property PlainType) :=
  ["id".toList, "data".toList].map fun name => ⟨name, .ofClass (twoClasses name), none⟩

theorem twoProperties_scalarObject : ScalarObject (plainEnv twoProperties) .object
    ["id".toList, "data".toList] twoClasses where
  distinct := by decide
  named := by
    intro name hname
    rcases List.mem_cons.mp hname with rfl | hname
    · exact ⟨nofun, List.all_eq_true.mp (by decide)⟩
    · rw [List.mem_singleton.mp hname]
      exact ⟨nofun, List.all_eq_true.mp (by decide)⟩
  scalar := by
    intro name hname
    rcases List.mem_cons.mp hname with rfl | hname
    · exact .plain (.int .int8)
    · rw [List.mem_singleton.mp hname]
      exact .plain .blob
  properties := rfl
  created := rfl

/-- A number that does not fit, and a text in the place of a blob. -/
def twoColumns : List (Text × Cell) :=
  [("data".toList, .text "abc".toList), ("id".toList, .integer 300)]

example : twoColumns.filterMap (copiedColumn plainWiden plainConversions twoClasses)
    = [("data".toList, .blob "abc".toList), ("id".toList, .integer 44)] := by
  decide

/-- What they are read as. -/
def twoObject : Mapping.Void PlainType :=
  ⟨some (.object [("id".toList, ⟨some (.int .int8 44), .ofClass (.int .int8)⟩),
    ("data".toList, ⟨some (.string "abc".toList), .ofClass .blob⟩)]), .object⟩

def twoTemplate : QueryTemplate :=
  ⟨⟨insertTemplate ["id".toList, "data".toList],
    assembledVariables 0 (insertSegments ["id".toList, "data".toList])⟩,
   ⟨none, "INSERT INTO t (id,data) VALUES (?,?);".toList, true⟩⟩

/-- The row that is stored, in a table whose columns stand in the other order. -/
def twoRow : List (Text × Cell) := [("data".toList, .blob "abc".toList), ("id".toList, .integer 44)]

theorem twoRow_stores : Stores "INSERT INTO t (id,data) VALUES (?,?);".toList
    ["id".toList, "data".toList] [(1, .int 44), (2, .blob "abc".toList)] twoRow where
  accepted := by decide +kernel
  limit := by decide
  columns := by decide
  values := by
    intro i name number hname hnumber
    have hlt : i < 2 := (List.getElem?_eq_some_iff.mp hname).1
    have hall : ∀ i < 2, ∀ name ∈ ["id".toList, "data".toList][i]?,
        ∀ number ∈ parameterNumber "INSERT INTO t (id,data) VALUES (?,?);".toList
          (valuePosition ["id".toList, "data".toList] i),
        (name, boundTo [(1, .int 44), (2, .blob "abc".toList)] number) ∈ twoRow := by
      decide +kernel
    exact hall i hlt name hname number hnumber

end OatppSqlite.Executor
