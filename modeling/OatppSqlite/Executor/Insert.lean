import OatppSqlite.Executor.PropertyPath
import OatppSqlite.Sqlite.Insert
import OatppSqlite.Mapping.RoundTrip

/-!
# An object into a row and back

The template that inserts an object names each of its fields twice, as a column and as the
variable `row.f`. From the parser through the split of the dotted name, the bind calls, SQLite's
numbering and the column names back to the fields, `insert_reads_back` puts the layers together:
whatever row SQLite stores, reading it gives the object again.

Nothing of this is assumed of the text that SQLite gets. What the parser makes of the template is
computed (`parseQueryTemplate_insert`), from the template as a program would write it, and SQLite is
relied on for what a prepared INSERT stores, and no more (`Stores`).
-/

set_option autoImplicit false

namespace OatppSqlite.Executor

open Caret Mapping Template Sqlite

/-! ## The template

The template, the prepared text and the places of the `?`s in it all come from one list of segments,
each a text and the name of the variable behind it (`assemble` and its kin). -/

/-- `row.f` -/
def rowName (name : Text) : Text := "row".toList ++ '.' :: name

/-- `INSERT INTO t (f1,…,fn) VALUES (:row.f1,…,:row.fn);` -/
def insertTemplate (names : List Text) : Text :=
  insertColumns names ++ commaSeparated (names.map fun name => ':' :: rowName name) ++ ");".toList

/-- The bytes of a field name. -/
def nameChar (a : Char) : Bool := isLetter a || isDigit a || a == '_'

/-- The segments of the template, -/
def insertSegments : List Text → List (Text × Text)
  | [] => []
  | f :: fs => (insertColumns (f :: fs), rowName f) :: fs.map fun g => ([','], rowName g)

/-- and what stands behind them. -/
def insertAfter : List Text → Text
  | [] => insertColumns [] ++ ");".toList
  | _ :: _ => ");".toList

section

variable {names : List Text} {after : Text} {fs : List Text} {i : Nat} {name : Text} {a : Char}

theorem assemble_commas : assemble after (fs.map fun g => ([','], rowName g))
    = (fs.map fun g => ':' :: rowName g).flatMap (',' :: ·) ++ after := by
  induction fs with
  | nil => rfl
  | cons f fs ih =>
    rw [List.map_cons, assemble, ih]
    simp

theorem assemblePrepared_commas : assemblePrepared after (fs.map fun g => ([','], rowName g))
    = (fs.map fun _ => ['?']).flatMap (',' :: ·) ++ after := by
  induction fs with
  | nil => rfl
  | cons f fs ih =>
    rw [List.map_cons, assemblePrepared, ih]
    simp

theorem assemble_insert :
    assemble (insertAfter names) (insertSegments names) = insertTemplate names := by
  cases names with
  | nil => rfl
  | cons f fs =>
    rw [insertTemplate, List.map_cons, commaSeparated_cons, insertSegments, assemble, insertAfter,
      assemble_commas]
    simp

theorem assemblePrepared_insert :
    assemblePrepared (insertAfter names) (insertSegments names) = insertSql names := by
  cases names with
  | nil => rfl
  | cons f fs =>
    rw [insertSql, List.map_cons, commaSeparated_cons, insertSegments, assemblePrepared,
      insertAfter, assemblePrepared_commas]
    simp

theorem assembledPlaceholders_commas (out : Nat) (hi : i < fs.length) :
    (assembledPlaceholders out (fs.map fun g => ([','], rowName g)))[i]?
      = some (out + 1 + 2 * i) := by
  induction fs generalizing out i with
  | nil => exact absurd hi (Nat.not_lt_zero _)
  | cons f fs ih =>
    rw [List.map_cons, assembledPlaceholders]
    cases i with
    | zero => rfl
    | succ i =>
      rw [List.getElem?_cons_succ, ih _ (Nat.lt_of_succ_lt_succ hi)]
      show some (out + 1 + 1 + 1 + 2 * i) = _
      congr 1
      omega

/-- The `i`-th placeholder stands where the `i`-th value of the statement does. -/
theorem assembledPlaceholders_insert (hi : i < names.length) :
    (assembledPlaceholders 0 (insertSegments names))[i]? = some (valuePosition names i) := by
  cases names with
  | nil => exact absurd hi (Nat.not_lt_zero _)
  | cons f fs =>
    rw [insertSegments, assembledPlaceholders]
    cases i with
    | zero =>
      rw [List.getElem?_cons_zero, valuePosition]
      simp
    | succ i =>
      rw [List.getElem?_cons_succ, assembledPlaceholders_commas _ (Nat.lt_of_succ_lt_succ hi),
        valuePosition]
      congr 1
      omega

theorem length_insertSegments : (insertSegments names).length = names.length := by
  cases names with
  | nil => rfl
  | cons f fs => simp [insertSegments]

/-- The variables of the template, in order. -/
theorem name_of_insertSegments (hname : names[i]? = some name) :
    ∃ segment, (insertSegments names)[i]? = some segment ∧ segment.2 = rowName name := by
  cases names with
  | nil => cases hname
  | cons f fs =>
    cases i with
    | zero =>
      cases hname
      exact ⟨_, rfl, rfl⟩
    | succ i =>
      rw [List.getElem?_cons_succ] at hname
      refine ⟨([','], rowName name), ?_, rfl⟩
      rw [insertSegments, List.getElem?_cons_succ, List.getElem?_map, hname]
      rfl

/-- The variables of the template: the `i`-th has the `i`-th segment's name. -/
theorem name_of_assembledVariables {p : Nat} {segments : List (Text × Text)}
    {segment : Text × Text} {v : Variable} (hs : segments[i]? = some segment)
    (hv : (assembledVariables p segments)[i]? = some v) : v.name = some segment.2 := by
  induction segments generalizing p i with
  | nil => cases hs
  | cons s segments ih =>
    cases i with
    | zero =>
      cases hs
      cases hv
      rfl
    | succ i => exact ih hs hv

/-! ## It is plain, and calm

The parser must see no string, section or marker in the text around the variables (`Plain`), and
SQLite no parameter, string or comment (`calm`). Bytes of names, blanks, brackets and commas are
both. -/

theorem isAllowedChar_of_nameChar (h : nameChar a = true) : isAllowedChar a = true := by
  simp only [nameChar, isLetter, isDigit, Bool.or_eq_true, Bool.and_eq_true,
    decide_eq_true_eq, beq_iff_eq] at h
  simp only [isAllowedChar, Bool.or_eq_true, Bool.and_eq_true, decide_eq_true_eq, beq_iff_eq]
  tauto

theorem calm_of_nameChar (h : nameChar a = true) : calm a = true := by
  simp only [nameChar, Bool.or_eq_true] at h
  simp only [calm, Bool.or_eq_true]
  tauto

theorem plain_of_calm {t : Text} (h : ∀ a ∈ t, calm a = true) : Plain t := by
  intro a ha
  have hcalm := h a ha
  refine ⟨?_, ?_, ?_, ?_⟩ <;> rintro rfl <;> revert hcalm <;> decide

theorem calm_commaSeparated {words : List Text} (h : ∀ w ∈ words, ∀ a ∈ w, calm a = true) :
    ∀ a ∈ commaSeparated words, calm a = true := by
  cases words with
  | nil => exact fun a ha => by cases ha
  | cons w words =>
    intro a ha
    rw [commaSeparated_cons] at ha
    rcases List.mem_append.mp ha with ha | ha
    · exact h w List.mem_cons_self a ha
    · obtain ⟨u, hu, ha⟩ := List.mem_flatMap.mp ha
      rcases List.mem_cons.mp ha with rfl | ha
      · decide
      · exact h u (List.mem_cons_of_mem _ hu) a ha

theorem calm_insertColumns (h : ∀ f ∈ names, ∀ a ∈ f, nameChar a = true) :
    ∀ a ∈ insertColumns names, calm a = true := by
  intro a ha
  rcases List.mem_append.mp ha with ha | ha
  · rcases List.mem_append.mp ha with ha | ha
    · exact List.all_eq_true.mp (by decide : "INSERT INTO t (".toList.all calm = true) a ha
    · exact calm_commaSeparated (fun f hf a ha => calm_of_nameChar (h f hf a ha)) a ha
  · exact List.all_eq_true.mp (by decide : ") VALUES (".toList.all calm = true) a ha

theorem rowName_allowed (h : ∀ a ∈ name, nameChar a = true) :
    ∀ a ∈ rowName name, isAllowedChar a = true := by
  intro a ha
  rcases List.mem_append.mp ha with ha | ha
  · exact List.all_eq_true.mp (by decide : "row".toList.all isAllowedChar = true) a ha
  · rcases List.mem_cons.mp ha with rfl | ha
    · decide
    · exact isAllowedChar_of_nameChar (h a ha)

theorem plain_end : Plain ");".toList := by decide

theorem segmented_commas (h : ∀ f ∈ fs, ∀ a ∈ f, nameChar a = true) :
    Segmented ");".toList (fs.map fun g => ([','], rowName g)) ∧
    (∀ a, (assemble ");".toList (fs.map fun g => ([','], rowName g))).head? = some a →
      isAllowedChar a = false) := by
  induction fs with
  | nil => exact ⟨plain_end, fun a ha => by cases ha; rfl⟩
  | cons f fs ih =>
    obtain ⟨hseg, hstop⟩ := ih fun g hg => h g (List.mem_cons_of_mem _ hg)
    refine ⟨⟨?_, rowName_allowed (h f List.mem_cons_self), hstop, hseg⟩,
      fun a ha => by cases ha; rfl⟩
    intro a ha
    rw [List.mem_singleton.mp ha]
    decide

theorem segmented_insert (h : ∀ f ∈ names, ∀ a ∈ f, nameChar a = true) :
    Segmented (insertAfter names) (insertSegments names) := by
  have hcolumns := plain_of_calm (calm_insertColumns h)
  cases names with
  | nil =>
    intro a ha
    rcases List.mem_append.mp ha with ha | ha
    · exact hcolumns a ha
    · exact plain_end a ha
  | cons f fs =>
    obtain ⟨hseg, hstop⟩ := segmented_commas fun g hg => h g (List.mem_cons_of_mem _ hg)
    exact ⟨hcolumns, rowName_allowed (h f List.mem_cons_self), hstop, hseg⟩

theorem calmSegments_commas : CalmSegments ");".toList (fs.map fun g => ([','], rowName g)) ∧
    (assemblePrepared ");".toList (fs.map fun g => ([','], rowName g))).head?.any isDigit
      = false := by
  induction fs with
  | nil => exact ⟨⟨[')'], rfl, List.all_eq_true.mp (by decide)⟩, rfl⟩
  | cons f fs ih => exact ⟨⟨by intro a ha; rw [List.mem_singleton.mp ha]; decide, ih.2, ih.1⟩, rfl⟩

theorem calmSegments_insert (h : ∀ f ∈ names, ∀ a ∈ f, nameChar a = true) :
    CalmSegments (insertAfter names) (insertSegments names) := by
  have hcolumns := calm_insertColumns h
  cases names with
  | nil =>
    refine ⟨insertColumns [] ++ [')'], by rw [List.append_assoc]; rfl, fun a ha => ?_⟩
    rcases List.mem_append.mp ha with ha | ha
    · exact hcolumns a ha
    · rw [List.mem_singleton.mp ha]
      decide
  | cons f fs => exact ⟨hcolumns, calmSegments_commas.2, calmSegments_commas.1⟩

end

/-! ## The layers, one by one

Parser, dotted names, bind calls and SQLite's numbers, each in terms of the index of a field. -/

section

variable {κ τ : Type} [Caret κ] [LawfulCaret κ] {format : FormatFn} {templateName : Option Text}
  {prepare : Bool} {names : List Text} {ctx : BindContext τ} {queryName : Text} {i : Nat}
  {vars : List Variable} {binds : List (Nat × Bind)} {name : Text}

/-- **The parser** finds the variables, and prepares the statement. -/
theorem parseQueryTemplate_insert (hformat : LawfulFormat format)
    (hnames : ∀ f ∈ names, ∀ a ∈ f, nameChar a = true) :
    parseQueryTemplate κ format templateName (insertTemplate names) prepare = some (.ok
      ⟨⟨insertTemplate names, assembledVariables 0 (insertSegments names)⟩,
       ⟨templateName, insertSql names, prepare⟩⟩) := by
  have hscan := scan_assemble (segmented_insert hnames)
  rw [assemble_insert] at hscan
  have hbytes : bytes (scan false (insertTemplate names)).1 = insertTemplate names := by
    rw [hscan, bytes_map_chr]
  have hvars : variablesOf (insertTemplate names) = assembledVariables 0 (insertSegments names) := by
    rw [variablesOf, hscan, ← assemble_insert]
    exact foundVariables_assemble (segmented_insert hnames)
  have hprepared : preparedText (insertTemplate names) = insertSql names := by
    rw [preparedText, hvars, hbytes, ← assemblePrepared_insert]
    exact weave_assemble (by rw [List.drop_zero, assemble_insert])
  have hparse := parseQueryTemplate_eq κ templateName (insertTemplate names) prepare
    hformat
  rwa [if_pos (by rw [hscan]), hbytes, hvars, hprepared] at hparse

/-- **The dotted name** of a field is split into the parameter and the field. -/
theorem parseQueryParameter_rowName (hne : name ≠ []) (hname : ∀ a ∈ name, nameChar a = true) :
    parseQueryParameter κ (rowName name) = some ⟨some "row".toList, [name]⟩ := by
  have hdot : '.' ∉ name := fun h => absurd (hname _ h) (by decide)
  rw [rowName, parseQueryParameter_append (by decide), if_neg hne, List.splitOn_eq_singleton hdot]

omit [LawfulCaret κ] in
/-- **Binding** goes through when every variable does. -/
theorem bindVariables_of_forall (h : ∀ var ∈ vars, ∃ bind,
    bindParam κ ctx queryName var = Mapped.returned bind) :
    ∃ binds, bindVariables κ ctx queryName i vars = Mapped.returned binds := by
  induction vars generalizing i with
  | nil => exact ⟨[], rfl⟩
  | cons var vars ih =>
    obtain ⟨bind, hbind⟩ := h var List.mem_cons_self
    obtain ⟨binds, hbinds⟩ := ih (i := i + 1) fun var hv => h var (List.mem_cons_of_mem _ hv)
    refine ⟨(i + 1, bind) :: binds, ?_⟩
    rw [bindVariables, hbind]
    show bindVariables κ ctx queryName (i + 1) vars >>= _ = _
    rw [hbinds]
    rfl

/-- **SQLite's numbering** follows the places in the template. -/
theorem parameterNumber_insert (hnames : ∀ f ∈ names, ∀ a ∈ f, nameChar a = true)
    (haccepted : ∀ k ∈ tokens (insertSql names), k.type ≠ .illegal)
    (hlimit : names.length ≤ variableLimit) (hi : i < names.length) :
    parameterNumber (insertSql names) (valuePosition names i) = some (i + 1) := by
  rw [← assemblePrepared_insert] at haccepted ⊢
  refine parameterNumber_assembled (calmSegments_insert hnames) ?_ haccepted ?_
    (assembledPlaceholders_insert hi)
  · rw [assemblePrepared_insert]
    exact createsVirtual_insertSql names
  · rwa [length_insertSegments]

/-- With one bind call for each number, what is bound is what was given last and first. -/
theorem boundTo_eq {b : Bind} (hkeys : ∀ j e, binds[j]? = some e → e.1 = j + 1)
    (hi : binds[i]? = some (i + 1, b)) : boundTo binds (i + 1) = b.cell := by
  obtain ⟨hlt, hget⟩ := List.getElem?_eq_some_iff.mp hi
  have hlookup : binds.reverse.lookup (i + 1) = some b := by
    refine List.lookup_eq_some_iff.mpr
      ⟨(binds.drop (i + 1)).reverse, (binds.take i).reverse, ?_, fun e he => ?_⟩
    · calc binds.reverse = (binds.take i ++ binds.drop i).reverse := by rw [List.take_append_drop]
        _ = _ := by
          rw [List.drop_eq_getElem_cons hlt, hget, List.reverse_append, List.reverse_cons,
            List.append_assoc, List.singleton_append]
    · obtain ⟨j, hj⟩ := List.mem_iff_getElem?.mp (List.mem_reverse.mp he)
      rw [List.getElem?_drop] at hj
      have hkey := hkeys _ _ hj
      refine bne_iff_ne.mpr ?_
      omega
  rw [boundTo, hlookup]
  rfl

end

/-! ## The round trip

The table may have its columns in any order, and the row is read by the names of its columns, so all
is said by the field: the cell in its column is the value bound to its number, which is what
`serialize` makes of it. -/

/-- An object of a DTO type: its fields are the type's properties, and their names and values
    are of the kinds that are written and read. -/
structure RowObject {τ : Type} (env : TypeEnv τ) (type : τ) (o : Object τ) : Prop where
  distinct : (o.map Prod.fst).Nodup
  named : ∀ f ∈ o, f.1 ≠ [] ∧ ∀ a ∈ f.1, nameChar a = true
  value : ∀ f ∈ o, FieldValue env f.2
  properties : (env.properties type).map (fun p => (p.name, p.type))
    = o.map fun f => (f.1, f.2.valueType)
  created : (env.createObject type).map Prod.fst = o.map Prod.fst

section

variable {κ τ : Type} [Caret κ] [LawfulCaret κ] {env : TypeEnv τ} {type : τ} {o : Object τ}
  {f : Text × Mapping.Void τ}

/-- A column of a field's name finds the field's property. -/
theorem RowObject.find?_property (ho : RowObject env type o) (hf : f ∈ o) :
    ∃ field, (env.properties type).find? (·.name = f.1) = some field ∧ field.name = f.1 ∧
      field.type = f.2.valueType := by
  obtain ⟨p, hp, heq⟩ : ∃ p ∈ env.properties type, (p.name, p.type) = (f.1, f.2.valueType) := by
    have hmem : (f.1, f.2.valueType) ∈ o.map fun f => (f.1, f.2.valueType) :=
      List.mem_map.mpr ⟨f, hf, rfl⟩
    rw [← ho.properties] at hmem
    exact List.mem_map.mp hmem
  obtain ⟨hname, htype⟩ := Prod.mk.inj heq
  have hnodup : ((env.properties type).map Property.name).Nodup := by
    have hnames : (env.properties type).map Property.name = o.map Prod.fst := by
      have := congrArg (List.map Prod.fst) ho.properties
      simpa [List.map_map, Function.comp_def] using this
    rw [hnames]
    exact ho.distinct
  cases hfind : (env.properties type).find? (·.name = f.1) with
  | none =>
    have := List.find?_eq_none.mp hfind p hp
    simp [hname] at this
  | some field =>
    have hfield : field.name = f.1 := by simpa using List.find?_some hfind
    have hsame : field = p := List.inj_on_of_nodup_map hnodup (List.mem_of_find?_eq_some hfind) hp
      (hfield.trans hname.symm)
    exact ⟨field, rfl, hfield, hsame ▸ htype⟩

/-- The variable `row.f` binds what `serialize` makes of the field. -/
theorem bindParam_rowName {serializer : MethodTable (SerializerMethod τ)} {fuel : Nat}
    {typeResolver : TypeResolver τ} {queryName : Text} {var : Variable} {b : Bind}
    (henv : env.Lawful) (ho : RowObject env type o) (hf : f ∈ o)
    (hresolve : typeResolver.resolveObjectPropertyValue ⟨some (.object o), type⟩ [f.1] = .ok f.2)
    (hvar : var.name = some (rowName f.1))
    (hb : serialize env serializer fuel f.2 = some (.ok b)) :
    bindParam κ ⟨env, serializer, fuel, typeResolver,
      [("row".toList, ⟨some (.object o), type⟩)]⟩ queryName var = Mapped.returned b := by
  obtain ⟨hne, hname⟩ := ho.named f hf
  have hvoid : env.classId f.2.valueType ≠ env.ids .void := (ho.value f hf).classId_ne henv
    (fun h => by cases h) (by decide)
  have hparam : parseQueryParameter κ (rowName f.1) = some ⟨some "row".toList, [f.1]⟩ :=
    parseQueryParameter_rowName hne hname
  unfold bindParam
  rw [hvar]
  show ((parseQueryParameter κ (rowName f.1) : Option QueryParameter) : Mapped QueryParameter)
    >>= _ = _
  rw [hparam]
  show ((typeResolver.resolveObjectPropertyValue ⟨some (.object o), type⟩ [f.1]
    : Except MapError (Mapping.Void τ)) : Mapped (Mapping.Void τ)) >>= _ = _
  rw [hresolve]
  show (if env.classId f.2.valueType = env.ids .void then _ else _) = _
  rw [if_neg hvoid]
  exact hb

/-- What `bindParams` makes of the template: the fields, in order, under the numbers from 1. -/
theorem bindParams_insert {serializer : MethodTable (SerializerMethod τ)} {fuel : Nat}
    {typeResolver : TypeResolver τ} (templateName : Option Text) (prepare : Bool)
    (henv : env.Lawful) (ho : RowObject env type o)
    (hresolve : ∀ f ∈ o, typeResolver.resolveObjectPropertyValue ⟨some (.object o), type⟩ [f.1]
      = .ok f.2)
    (hserialize : ∀ f ∈ o, ∃ b, serialize env serializer fuel f.2 = some (.ok b)) :
    ∃ binds, bindParams κ ⟨env, serializer, fuel, typeResolver,
        [("row".toList, ⟨some (.object o), type⟩)]⟩
        ⟨⟨insertTemplate (o.map Prod.fst),
          assembledVariables 0 (insertSegments (o.map Prod.fst))⟩,
         ⟨templateName, insertSql (o.map Prod.fst), prepare⟩⟩ = Mapped.returned binds ∧
      ∀ i f b, o[i]? = some f → serialize env serializer fuel f.2 = some (.ok b) →
        boundTo binds (i + 1) = b.cell := by
  obtain ⟨vars, hvars⟩ : ∃ vars,
      assembledVariables 0 (insertSegments (o.map Prod.fst)) = vars := ⟨_, rfl⟩
  rw [hvars]
  have hlen : vars.length = o.length := by
    rw [← hvars, ← length_placeholders 0 0, placeholders_assembled, length_assembledPlaceholders,
      length_insertSegments, List.length_map]
  -- the variable of a field, and what it binds
  have hvar : ∀ (i : Nat) (f : Text × Mapping.Void τ) (var : Variable), o[i]? = some f →
      vars[i]? = some var → var.name = some (rowName f.1) := by
    intro i f var hf hvar
    have hf' : (o.map Prod.fst)[i]? = some f.1 := by rw [List.getElem?_map, hf]; rfl
    obtain ⟨segment, hs, hname⟩ := name_of_insertSegments hf'
    rw [name_of_assembledVariables hs (hvars ▸ hvar), hname]
  have hbind : ∀ (queryName : Text) (i : Nat) (f : Text × Mapping.Void τ) (var : Variable)
      (b : Bind), o[i]? = some f → vars[i]? = some var →
      serialize env serializer fuel f.2 = some (.ok b) →
      bindParam κ ⟨env, serializer, fuel, typeResolver,
        [("row".toList, ⟨some (.object o), type⟩)]⟩ queryName var = Mapped.returned b := by
    intro queryName i f var b hf hv hb
    have hmem : f ∈ o := List.mem_of_getElem? hf
    exact bindParam_rowName henv ho hmem (hresolve f hmem) (hvar i f var hf hv) hb
  obtain ⟨binds, hbinds⟩ : ∃ binds, bindVariables κ ⟨env, serializer, fuel, typeResolver,
      [("row".toList, ⟨some (.object o), type⟩)]⟩ (templateName.getD "UnNamed".toList) 0 vars
      = Mapped.returned binds := by
    refine bindVariables_of_forall fun var hv => ?_
    obtain ⟨i, hi⟩ := List.mem_iff_getElem?.mp hv
    obtain ⟨f, hf⟩ : ∃ f, o[i]? = some f := by
      have hlt := (List.getElem?_eq_some_iff.mp hi).1
      exact ⟨_, List.getElem?_eq_getElem (hlen ▸ hlt)⟩
    obtain ⟨b, hb⟩ := hserialize f (List.mem_of_getElem? hf)
    exact ⟨b, hbind _ i f var b hf hi hb⟩
  obtain ⟨hcount, hall⟩ := bindVariables_returned hbinds
  refine ⟨binds, hbinds, fun i f b hf hb => ?_⟩
  -- the bind calls are numbered from 1, and the one of the field is `b`
  have hkeys : ∀ j e, binds[j]? = some e → e.1 = j + 1 := by
    intro j e he
    obtain ⟨var, hv⟩ : ∃ var, vars[j]? = some var := by
      have hlt := (List.getElem?_eq_some_iff.mp he).1
      exact ⟨_, List.getElem?_eq_getElem (hcount ▸ hlt)⟩
    obtain ⟨bind, -, hget⟩ := hall j var hv
    rw [hget, Option.some.injEq] at he
    rw [← he]
    exact congrArg (· + 1) (Nat.zero_add j)
  obtain ⟨var, hv⟩ : ∃ var, vars[i]? = some var := by
    have hlt := (List.getElem?_eq_some_iff.mp hf).1
    exact ⟨_, List.getElem?_eq_getElem (hlen.symm ▸ hlt)⟩
  obtain ⟨bind, hbind', hget⟩ := hall i var hv
  rw [hbind _ i f var b hf hv hb] at hbind'
  cases hbind'
  rw [Nat.zero_add] at hget
  exact boundTo_eq hkeys hget

variable [DecidableEq τ]

/-- A row with the fields as columns, in any order, each holding what reads back as the field,
    is read as the object. -/
theorem readOneRowAsObject_returned {row : List (Text × Cell)} {val : Text → Mapping.Void τ}
    {read : Cell → τ → Mapped (Mapping.Void τ)} (henv : env.Lawful) (ho : RowObject env type o)
    (hcolumns : (row.map Prod.fst).Perm (o.map Prod.fst))
    (hval : ∀ f ∈ o, (val f.1).ptr = f.2.ptr)
    (hread : ∀ f ∈ o, ∀ cell, (f.1, cell) ∈ row →
      read cell f.2.valueType = Mapped.returned (val f.1)) :
    ∃ o' : Object τ,
      readOneRowAsObject env read row type = Mapped.returned ⟨some (.object o'), type⟩ ∧
      o'.map (fun f => (f.1, f.2.ptr)) = o.map fun f => (f.1, f.2.ptr) := by
  have hcolumn : ∀ c ∈ row, ColumnReads env read type val c := by
    rintro ⟨name, cell⟩ hc
    obtain ⟨f, hf, rfl⟩ : ∃ f ∈ o, f.1 = name :=
      List.mem_map.mp (hcolumns.mem_iff.mp (List.mem_map.mpr ⟨_, hc, rfl⟩))
    obtain ⟨field, hfind, hname, htype⟩ := ho.find?_property hf
    refine ⟨field, hfind, hname, fun hany => ?_, ?_⟩
    · have hne := (ho.value f hf).classId_ne henv (c := .any) (fun h => by cases h) (by decide)
      rw [← htype, hany.2, henv.classId_typeOf] at hne
      exact hne rfl
    · rw [htype]
      exact hread f hf cell hc
  have hset := setColumns_returned (env.createObject type) [] hcolumn
  refine ⟨row.foldl (fun o c => Object.set o c.1 (val c.1)) (env.createObject type), ?_, ?_⟩
  · unfold readOneRowAsObject
    rw [hset]
    rfl
  · rw [foldl_set, List.map_map]
    calc ((env.createObject type).map ((fun f => (f.1, f.2.ptr)) ∘ fun f =>
            if f.1 ∈ row.map Prod.fst then (f.1, val f.1) else f))
        = ((env.createObject type).map Prod.fst).map fun name => (name, (val name).ptr) := by
          rw [List.map_map]
          refine List.map_congr_left fun f hf => ?_
          have hmem : f.1 ∈ row.map Prod.fst := by
            rw [hcolumns.mem_iff, ← ho.created]
            exact List.mem_map.mpr ⟨f, hf, rfl⟩
          simp only [Function.comp_apply, if_pos hmem]
      _ = o.map fun f => (f.1, (val f.1).ptr) := by rw [ho.created, List.map_map]; rfl
      _ = o.map fun f => (f.1, f.2.ptr) :=
          List.map_congr_left fun f hf => by rw [hval f hf]

/-- **An inserted object reads back.** The text that SQLite gets is the INSERT of the object's
    fields with a `?` for each variable. -/
theorem insert_reads_back {format : FormatFn} (hformat : LawfulFormat format)
    (widen : BitVec 32 → BitVec 64) (conv : Conversions) (classCount classCount' n m : Nat)
    {typeResolver : TypeResolver τ} (templateName : Option Text) (prepare : Bool)
    (henv : env.Lawful) (ho : RowObject env type o)
    (hresolve : ∀ f ∈ o, typeResolver.resolveObjectPropertyValue ⟨some (.object o), type⟩ [f.1]
      = .ok f.2) :
    ∃ t binds,
      parseQueryTemplate κ format templateName (insertTemplate (o.map Prod.fst)) prepare
        = some (.ok t) ∧
      t.extra.preparedTemplate = insertSql (o.map Prod.fst) ∧
      bindParams κ ⟨env, Serializer env widen classCount, n + 2, typeResolver,
        [("row".toList, ⟨some (.object o), type⟩)]⟩ t = Mapped.returned binds ∧
      ∀ row, Stores t.extra.preparedTemplate (o.map Prod.fst) binds row →
        ∃ o' : Object τ,
          readOneRowAsObject env (fun cell type => ExceptT.mk (deserialize env
              (Deserializer env conv classCount') typeResolver cell (m + 2) type)) row type
            = Mapped.returned ⟨some (.object o'), type⟩ ∧
          o'.map (fun f => (f.1, f.2.ptr)) = o.map fun f => (f.1, f.2.ptr) := by
  have hnames : ∀ f ∈ o.map Prod.fst, ∀ a ∈ f, nameChar a = true := by
    intro name hname
    obtain ⟨f, hf, rfl⟩ := List.mem_map.mp hname
    exact (ho.named f hf).2
  obtain ⟨val, hval⟩ := exists_val ho.distinct type
    (P := fun _ v v' => v'.ptr = v.ptr ∧ ReadsBack env widen conv classCount classCount'
      typeResolver (n + 2) (m + 2) v v.valueType v') fun f hf => serialize_field henv (ho.value f hf)
  obtain ⟨binds, hbinds, hbound⟩ := bindParams_insert (κ := κ) templateName prepare henv ho
    hresolve fun f hf => (hval f hf).2.imp fun _ h => h.1
  refine ⟨_, binds, parseQueryTemplate_insert hformat hnames, rfl, hbinds, fun row hrow => ?_⟩
  have hrownodup : (row.map Prod.fst).Nodup := hrow.columns.nodup_iff.mpr ho.distinct
  refine readOneRowAsObject_returned henv ho hrow.columns (fun f hf => (hval f hf).1)
    fun f hf cell hcell => ?_
  obtain ⟨-, b, hwrite, hread⟩ := hval f hf
  obtain ⟨i, hi⟩ := List.mem_iff_getElem?.mp hf
  have hname : (o.map Prod.fst)[i]? = some f.1 := by rw [List.getElem?_map, hi]; rfl
  have hlt : i < (o.map Prod.fst).length := (List.getElem?_eq_some_iff.mp hname).1
  -- the cell of the column is the value bound to the field's number
  have hstored := hrow.values i f.1 (i + 1) hname
    (parameterNumber_insert hnames hrow.accepted hrow.limit hlt)
  rw [hbound i f b hi hwrite] at hstored
  have hcell' : cell = b.cell :=
    congrArg Prod.snd (List.inj_on_of_nodup_map hrownodup hcell hstored rfl)
  rw [hcell', hread]

end

/-- A small object: a number, an enum and a null blob. -/
def threeFields : Object PlainType :=
  [("id".toList, ⟨some (.int .uint8 200), .ofClass (.int .uint8)⟩),
   ("kind".toList, ⟨some (.enumerator 7), .ofClass .abstractEnum⟩),
   ("data".toList, ⟨none, .ofClass .blob⟩)]

/-- Its type's properties. -/
def threeProperties : List (Property PlainType) :=
  threeFields.map fun f => ⟨f.1, f.2.valueType, none⟩

theorem threeFields_rowObject : RowObject (plainEnv threeProperties) .object threeFields where
  distinct := by decide
  named := by
    intro f hf
    simp only [threeFields, List.mem_cons, List.not_mem_nil, or_false] at hf
    rcases hf with rfl | rfl | rfl <;> exact ⟨nofun, List.all_eq_true.mp (by decide)⟩
  value := by
    intro f hf
    simp only [threeFields, List.mem_cons, List.not_mem_nil, or_false] at hf
    rcases hf with rfl | rfl | rfl
    · exact Or.inl ⟨_, .int .uint8, rfl, fun p hp => by cases hp; exact .int .uint8 200⟩
    · refine Or.inr ⟨rfl, .int .int32, _, _, .int .int32, by decide, rfl, rfl, rfl, fun p hp => ?_,
        rfl, rfl⟩
      cases hp
      exact .int .int32 _
    · exact Or.inl ⟨_, .blob, rfl, fun p hp => by cases hp⟩
  properties := rfl
  created := rfl

/-- What the template is parsed into. -/
def threeTemplate : QueryTemplate :=
  ⟨⟨insertTemplate (threeFields.map Prod.fst),
    assembledVariables 0 (insertSegments (threeFields.map Prod.fst))⟩,
   ⟨none, "INSERT INTO t (id,kind,data) VALUES (?,?,?);".toList, true⟩⟩

def threeBinds : List (Nat × Mapping.Bind) := [(1, .int 200), (2, .int 7), (3, .null)]

/-- The row of a table whose columns stand in another order. -/
def threeRow : List (Text × Cell) :=
  [("data".toList, .null), ("id".toList, .integer 200), ("kind".toList, .integer 7)]

theorem threeRow_stores : Stores "INSERT INTO t (id,kind,data) VALUES (?,?,?);".toList
    (threeFields.map Prod.fst) threeBinds threeRow where
  accepted := by decide +kernel
  limit := by decide
  columns := by decide
  values := by
    intro i name number hname hnumber
    have hlt : i < 3 := (List.getElem?_eq_some_iff.mp hname).1
    have hall : ∀ i < 3, ∀ name ∈ (threeFields.map Prod.fst)[i]?,
        ∀ number ∈ parameterNumber "INSERT INTO t (id,kind,data) VALUES (?,?,?);".toList
          (valuePosition (threeFields.map Prod.fst) i),
        (name, boundTo threeBinds number) ∈ threeRow := by
      decide +kernel
    exact hall i hlt name hname number hnumber

theorem threeFields_resolved : ∀ f ∈ threeFields,
    plainResolver.resolveObjectPropertyValue ⟨some (.object threeFields), .object⟩ [f.1]
      = .ok f.2 := by
  intro f hf
  simp only [threeFields, List.mem_cons, List.not_mem_nil, or_false] at hf
  rcases hf with rfl | rfl | rfl <;> rfl

/-- An object is inserted, stored with its columns in another order, and read. -/
theorem insert_reads_back_threeFields :
    parseQueryTemplate TextCaret weaveFormat none
        "INSERT INTO t (id,kind,data) VALUES (:row.id,:row.kind,:row.data);".toList true
      = some (.ok threeTemplate) ∧
    threeTemplate.extra.preparedTemplate
      = "INSERT INTO t (id,kind,data) VALUES (?,?,?);".toList ∧
    bindParams TextCaret ⟨plainEnv threeProperties,
        Serializer (plainEnv threeProperties) (fun v => v.setWidth 64) 23, 2, plainResolver,
        [("row".toList, ⟨some (.object threeFields), .object⟩)]⟩ threeTemplate
      = Mapped.returned [(1, .int 200), (2, .int 7), (3, .null)] ∧
    Stores threeTemplate.extra.preparedTemplate ["id".toList, "kind".toList, "data".toList]
      [(1, .int 200), (2, .int 7), (3, .null)]
      [("data".toList, .null), ("id".toList, .integer 200), ("kind".toList, .integer 7)] ∧
    ∃ o' : Object PlainType,
      readOneRowAsObject (plainEnv threeProperties) (fun cell type => ExceptT.mk (deserialize
          (plainEnv threeProperties) (Deserializer (plainEnv threeProperties) plainConversions
            23) plainResolver cell 2 type))
          [("data".toList, .null), ("id".toList, .integer 200), ("kind".toList, .integer 7)] .object
        = Mapped.returned ⟨some (.object o'), .object⟩ ∧
      o'.map (fun f => (f.1, f.2.ptr)) = [("id".toList, some (.int .uint8 200)),
        ("kind".toList, some (.enumerator 7)), ("data".toList, none)] := by
  obtain ⟨t, binds, ht, hprepared, hbinds, hread⟩ :=
    insert_reads_back (κ := TextCaret) (fun _ _ _ => rfl) (fun v => v.setWidth 64)
      plainConversions 23 23 0 0 none true (plainEnv_lawful _) threeFields_rowObject
      threeFields_resolved
  have htemplate : parseQueryTemplate TextCaret weaveFormat none
      (insertTemplate (threeFields.map Prod.fst)) true = some (.ok threeTemplate) := by
    decide +kernel
  have hsame : some (.ok threeTemplate) = some (Except.ok t) := htemplate.symm.trans ht
  cases hsame
  have hbound : Mapped.returned binds = Mapped.returned threeBinds := hbinds.symm.trans (by rfl)
  cases hbound
  exact ⟨htemplate, rfl, hbinds, threeRow_stores, hread threeRow threeRow_stores⟩

end OatppSqlite.Executor
