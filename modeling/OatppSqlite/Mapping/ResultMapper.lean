import OatppSqlite.Lib.Loop
import OatppSqlite.Sqlite.Statement

/-!
# `mapping/ResultMapper.cpp`

`ResultData` is the cursor: its constructor takes the first step, so it always stands one step
ahead of the rows that were delivered. A row is read by the method of the type asked for
(`readOneRow`), and several rows by `readRowsAsCollection`, whose loop is the only other place
that steps.

The methods of `readOneRow` are given the deserializer, the cursor and the type; the result is
that of `deserialize`, a chain bound included. What a `throw` leaves behind matters for the rows,
so the loop returns the cursor and the collection it had built with it. The row that it threw at
has been read up to there, and a BLOB of it that was read as a text is shown as one to whoever
reads the row next; `textColumns` are the columns that were.
-/

set_option autoImplicit false

namespace OatppSqlite.Mapping

open Sqlite

variable {τ : Type}

/-! ## The cursor -/

/-- `ResultMapper::ResultData`; the column indices are read by nobody. -/
structure ResultData where
  stmt : Statement
  colNames : List Text
  rowIndex : Nat
  hasMore : Bool
  isSuccess : Bool

/-- `ResultData::next`. -/
def ResultData.next (d : ResultData) : ResultData :=
  let (res, stmt) := d.stmt.step
  match res with
  | .row => { d with stmt, hasMore := true, isSuccess := true }
  | .done => { d with stmt, hasMore := false, isSuccess := true }
  | .error _ => { d with stmt, hasMore := false, isSuccess := false }

section

variable {d : ResultData}

theorem ResultData.next_rowIndex : d.next.rowIndex = d.rowIndex := by
  unfold ResultData.next
  rcases d.stmt.step with ⟨⟨⟩, stmt⟩ <;> rfl

theorem ResultData.next_row {r : List Cell} (h : d.stmt.rows[d.stmt.next]? = some r) :
    d.next = { d with stmt := d.stmt.step.2, hasMore := true, isSuccess := true } := by
  unfold ResultData.next
  rw [Statement.step_row h]

theorem ResultData.next_last (h : d.stmt.rows[d.stmt.next]? = none) :
    d.next = { d with stmt := d.stmt.step.2, hasMore := false,
                      isSuccess := decide (d.stmt.last.val = .done) } := by
  unfold ResultData.next
  rw [Statement.step_last h]
  obtain ⟨last, hne⟩ := d.stmt.last
  cases last with
  | row => exact absurd rfl hne
  | done => rfl
  | error message => rfl

end

/-- `ResultData::ResultData`: the two flags are set by `next`. -/
def ResultData.construct (stmt : Statement) : ResultData :=
  { ResultData.next ⟨stmt, [], 0, false, false⟩ with rowIndex := 0, colNames := stmt.columns }

/-- The columns of a row, in order, with their names; NULL where there is none. -/
def namedRow (colNames : List Text) (row : Option (List Cell)) : List (Text × Cell) :=
  colNames.zipIdx.map fun c => (c.1, ((row.getD [])[c.2]?).getD .null)

/-- The columns of the current row. -/
def ResultData.row (d : ResultData) : List (Text × Cell) := namedRow d.colNames d.stmt.current

/-! ## One row -/

/-- `ExceptT` over the chain bound, for the methods that read several columns. -/
abbrev Mapped (α : Type) := ExceptT MapError Option α

/-- A call that returned. -/
abbrev Mapped.returned {α : Type} (a : α) : Mapped α := ExceptT.mk (some (.ok a))

/-- A sequence that returned is two calls that did. -/
theorem Mapped.bind_returned {α β : Type} {x : Mapped α} {f : α → Mapped β} {b : β}
    (h : x >>= f = Mapped.returned b) : ∃ a, x = Mapped.returned a ∧ f a = Mapped.returned b := by
  cases x with
  | none => cases h
  | some r =>
    cases r with
    | error e => cases h
    | ok a => exact ⟨a, rfl, h⟩

abbrev ReadOneRowMethod (τ : Type) :=
  (Cell → τ → Mapped (Void τ)) → List (Text × Cell) → τ → Mapped (Void τ)

def readOneRowAsCollection (env : TypeEnv τ) : ReadOneRowMethod τ := fun deserialize row type => do
  let items ← row.foldlM (fun items c => do
    return env.addItem type items (← deserialize c.2 (env.itemType type))) []
  return ⟨some (.collection items), type⟩

def readOneRowAsMap (env : TypeEnv τ) : ReadOneRowMethod τ := fun deserialize row type => do
  if env.classId (env.keyType type) ≠ env.ids .string then
    throw (.runtimeError
      "[oatpp::sqlite::mapping::ResultMapper::readOneRowAsMap()]: Invalid map key. Key should be String")
  let entries ← row.foldlM (fun entries c => do
    return env.addEntry type entries c.1 (← deserialize c.2 (env.mapValueType type))) []
  return ⟨some (.map entries), type⟩

variable [DecidableEq τ]

/-- The first loop of `readOneRowAsObject`: ordinary fields are set, polymorphic ones put off. -/
def setColumns (env : TypeEnv τ) (deserialize : Cell → τ → Mapped (Void τ)) (type : τ) :
    List (Text × Cell) → Object τ → List (Property τ × Cell) →
      Mapped (Object τ × List (Property τ × Cell))
  | [], object, polymorphs => return (object, polymorphs)
  | (colName, cell) :: row, object, polymorphs =>
    match (env.properties type).find? (·.name = colName) with
    | some field =>
      if field.typeSelector.isSome ∧ field.type = env.typeOf .any then
        setColumns env deserialize type row object (polymorphs ++ [(field, cell)])
      else do
        let value ← deserialize cell field.type
        setColumns env deserialize type row (object.set field.name value) polymorphs
    | none =>
      throw (.runtimeError ("[oatpp::sqlite::mapping::ResultMapper::readOneRowAsObject]: Error. "
        ++ "The object of type " ++ env.nameQualifier type ++ " has no field to map column "
        ++ String.ofList colName ++ "."))

/-- The second loop: each polymorphic field takes the type its selector picks on the object as
    it is by then. -/
def setPolymorphs (deserialize : Cell → τ → Mapped (Void τ)) :
    List (Property τ × Cell) → Object τ → Mapped (Object τ)
  | [], object => return object
  | (field, cell) :: polymorphs, object =>
    match field.typeSelector with
    | none => setPolymorphs deserialize polymorphs object
    | some selectType => do
      let value ← deserialize cell (selectType object)
      setPolymorphs deserialize polymorphs
        (object.set field.name ⟨some (.anyHandle value), field.type⟩)

def readOneRowAsObject (env : TypeEnv τ) : ReadOneRowMethod τ := fun deserialize row type => do
  let (object, polymorphs) ← setColumns env deserialize type row (env.createObject type) []
  let object ← setPolymorphs deserialize polymorphs object
  return ⟨some (.object object), type⟩

/-- The setter calls of the constructor. -/
def readOneRowMethods (env : TypeEnv τ) : List (ClassName × Option (ReadOneRowMethod τ)) :=
  [(.abstractObject, some (readOneRowAsObject env)),
   (.abstractVector, some (readOneRowAsCollection env)),
   (.abstractList, some (readOneRowAsCollection env)),
   (.abstractUnorderedSet, some (readOneRowAsCollection env)),
   (.abstractPairList, some (readOneRowAsMap env)),
   (.abstractUnorderedMap, some (readOneRowAsMap env))]

/-- The mapper: its deserializer, and its two tables (of the second only the classes count:
    every method in it is `readRowsAsCollection`). -/
structure ResultMapper (τ : Type) where
  deserializer : MethodTable (DeserializerMethod τ)
  readOneRowMethods : MethodTable (ReadOneRowMethod τ)
  readRowsMethods : MethodTable Unit

def readRowsMethods : List (ClassName × Option Unit) :=
  [(.abstractVector, some ()), (.abstractList, some ()), (.abstractUnorderedSet, some ())]

/-- `ResultMapper::ResultMapper`, when `classCount` classes are registered. -/
def ResultMapper.construct (env : TypeEnv τ) (conv : Conversions) (classCount : Nat) :
    ResultMapper τ :=
  ⟨Deserializer env conv classCount,
   MethodTable.build classCount env.ids (Mapping.readOneRowMethods env),
   MethodTable.build classCount env.ids Mapping.readRowsMethods⟩

/-- `ResultMapper::readOneRow`; `fuel` bounds the chains of interpretations. -/
def readOneRow (env : TypeEnv τ) (mapper : ResultMapper τ) (typeResolver : TypeResolver τ)
    (row : List (Text × Cell)) : Nat → τ → Mapped (Void τ)
  | 0, _ => ExceptT.mk none
  | fuel + 1, type =>
    match mapper.readOneRowMethods[env.classId type]? with
    | none => throw .undefined
    | some (some method) =>
      method (fun cell type => deserialize env mapper.deserializer typeResolver cell fuel type)
        row type
    | some none =>
      match typeResolver.findInterpretation type with
      | some interpretation => do
        let value ← readOneRow env mapper typeResolver row fuel interpretation.interpretationType
        return interpretation.fromInterpretation value
      | none => throw (.runtimeError ("[oatpp::sqlite::mapping::ResultMapper::readOneRow()]: "
        ++ "Error. Invalid result container type. Allowed types are oatpp::Vector, oatpp::List, "
        ++ "oatpp::UnorderedSet, oatpp::Fields, oatpp::UnorderedFields, oatpp::Object"))

section

variable {env : TypeEnv τ} {conv : Conversions} {classCount fuel : Nat}
  {typeResolver : TypeResolver τ} {type : τ} {c : ClassName} {row : List (Text × Cell)}
  {method : ReadOneRowMethod τ}

theorem readOneRowMethods_nodup : ((readOneRowMethods env).map Prod.fst).Nodup := by
  simp [readOneRowMethods]

/-- A row of a type that has a method is read by it. -/
theorem readOneRow_eq (henv : env.Lawful) (hm : (c, some method) ∈ readOneRowMethods env)
    (hc : env.classId type = env.ids c) :
    readOneRow env (ResultMapper.construct env conv classCount) typeResolver row (fuel + 1) type
      = method (fun cell type => deserialize env (Deserializer env conv classCount) typeResolver
          cell fuel type) row type := by
  have hmethod : (ResultMapper.construct env conv classCount).readOneRowMethods[env.classId type]?
      = some (some method) := by
    rw [hc]
    exact MethodTable.getElem?_build henv.ids_injective readOneRowMethods_nodup hm
  unfold readOneRow
  rw [hmethod]
  dsimp only [ResultMapper.construct]

end

/-! ## The columns that are read as texts

A `throw` unwinds the call, but not what SQLite has done to the row meanwhile. These follow the
methods of `readOneRow` column by column and collect a mark for each one that was come to before the
exception: whether `sqlite3_column_text` was called on it, as far as it held a BLOB. -/

/-- The marks behind what was read; none where it throws. -/
def whenRead {α : Type} (read : Mapped α) (marks : α → List Bool) : List Bool :=
  match read with
  | some (.ok a) => marks a
  | _ => []

/-- The columns after `sqlite3_column_text` was called on those that are marked. -/
def columnsTextCalled : List Bool → List (Text × Cell) → List (Text × Cell)
  | mark :: marks, c :: row => (c.1, c.2.textIf mark) :: columnsTextCalled marks row
  | _, row => row

/-- The columns that are marked in either of two lists. -/
def eitherMark : List Bool → List Bool → List Bool
  | mark :: marks, mark' :: marks' => (mark || mark') :: eitherMark marks marks'
  | [], marks' => marks'
  | marks, [] => marks

section

variable (env : TypeEnv τ) (deserialize : Cell → τ → Mapped (Void τ)) (readsText : τ → Bool)
  (type : τ)

/-- In a loop over the columns that deserializes each as one type: those up to the one that
    throws. -/
def textsOfLoop (itemType : τ) : List (Text × Cell) → List Bool
  | [] => []
  | (_, cell) :: row =>
    readsText itemType :: whenRead (deserialize cell itemType) fun _ => textsOfLoop itemType row

def textsOfCollection (row : List (Text × Cell)) : List Bool :=
  textsOfLoop deserialize readsText (env.itemType type) row

def textsOfMap (row : List (Text × Cell)) : List Bool :=
  if env.classId (env.keyType type) ≠ env.ids .string then []
  else textsOfLoop deserialize readsText (env.mapValueType type) row

/-- In the first loop of `readOneRowAsObject`. -/
def textsOfColumns : List (Text × Cell) → List Bool
  | [] => []
  | (colName, cell) :: row =>
    match (env.properties type).find? (·.name = colName) with
    | some field =>
      if field.typeSelector.isSome ∧ field.type = env.typeOf .any then
        false :: textsOfColumns row
      else
        readsText field.type :: whenRead (deserialize cell field.type) fun _ => textsOfColumns row
    | none => []

/-- In the second loop, which reads the columns that the first one has put off. -/
def textsOfPolymorphs : List (Text × Cell) → Object τ → List Bool
  | [], _ => []
  | (colName, cell) :: row, object =>
    match (env.properties type).find? (·.name = colName) with
    | some field =>
      if field.type = env.typeOf .any then
        match field.typeSelector with
        | some selectType =>
          readsText (selectType object) :: whenRead (deserialize cell (selectType object)) fun value =>
            textsOfPolymorphs row (object.set field.name ⟨some (.anyHandle value), field.type⟩)
        | none => false :: textsOfPolymorphs row object
      else false :: textsOfPolymorphs row object
    | none => []

/-- The second loop finds the columns as the first one leaves them. -/
def textsOfObject (row : List (Text × Cell)) : List Bool :=
  let columns := textsOfColumns env deserialize readsText type row
  eitherMark columns <|
    whenRead (setColumns env deserialize type row (env.createObject type) []) fun r =>
      textsOfPolymorphs env deserialize readsText type (columnsTextCalled columns row) r.1

end

/-- The columns that `readOneRow` calls `sqlite3_column_text` on, of those that hold BLOBs, when the
    methods in the tables are those that the constructors set. -/
def textColumns (env : TypeEnv τ) (mapper : ResultMapper τ) (typeResolver : TypeResolver τ)
    (row : List (Text × Cell)) : Nat → τ → List Bool
  | 0, _ => []
  | fuel + 1, type =>
    let read (cell : Cell) (type : τ) : Mapped (Void τ) :=
      deserialize env mapper.deserializer typeResolver cell fuel type
    let texts := readsText env mapper.deserializer typeResolver fuel
    match mapper.readOneRowMethods[env.classId type]? with
    | none => []
    | some (some _) =>
      if env.classId type = env.ids .abstractObject then textsOfObject env read texts type row
      else if env.classId type = env.ids .abstractPairList ∨
          env.classId type = env.ids .abstractUnorderedMap then
        textsOfMap env read texts type row
      else textsOfCollection env read texts type row
    | some none =>
      match typeResolver.findInterpretation type with
      | some interpretation =>
        textColumns env mapper typeResolver row fuel interpretation.interpretationType
      | none => []

/-! ## Several rows

The loop of `readRowsAsCollection` reads a row, appends the item, counts, and only then steps. So an
exception leaves the cursor on the row that it was thrown at. -/

/-- The locals of the loop of `readRowsAsCollection`. -/
structure FetchState (τ : Type) where
  dbData : ResultData
  collection : List (Void τ)
  counter : Int

/-- The cursor, and the row it stands on, as a `throw` out of `readOneRow` leaves them. -/
def ResultData.thrownAt (d : ResultData) (texts : List Bool) : ResultData :=
  { d with stmt := d.stmt.columnText texts }

/-- One pass over the loop. Leaving it with an error is a throw out of `readOneRow`. -/
def readRowsBody (env : TypeEnv τ) (mapper : ResultMapper τ) (typeResolver : TypeResolver τ)
    (fuel : Nat) (type : τ) (count : Int) (s : FetchState τ) :
    Option (Loop.Step (FetchState τ) (FetchState τ × Option MapError)) :=
  if s.dbData.hasMore then
    match readOneRow env mapper typeResolver s.dbData.row fuel (env.itemType type) with
    | none => none
    | some (.error e) =>
      let texts := textColumns env mapper typeResolver s.dbData.row fuel (env.itemType type)
      some (.exit ({ s with dbData := s.dbData.thrownAt texts }, some e))
    | some (.ok item) =>
      let s := { s with
        collection := env.addItem type s.collection item
        dbData := ResultData.next { s.dbData with rowIndex := s.dbData.rowIndex + 1 } }
      if count > 0 then
        let s := { s with counter := s.counter + 1 }
        if s.counter = count then some (.exit (s, none)) else some (.next s)
      else some (.next s)
  else some (.exit (s, none))

/-- `ResultMapper::readRowsAsCollection`: the cursor and the collection it ends with, and the
    error if it throws. The bound is the number of rows that are left. -/
def readRowsAsCollection (env : TypeEnv τ) (mapper : ResultMapper τ)
    (typeResolver : TypeResolver τ) (fuel : Nat) (dbData : ResultData) (type : τ) (count : Int) :
    Option (FetchState τ × Option MapError) :=
  if count ≠ 0 then
    Loop.run (readRowsBody env mapper typeResolver fuel type count)
      (dbData.stmt.rows.length - dbData.stmt.next + 2) ⟨dbData, [], 0⟩
  else some (⟨dbData, [], 0⟩, none)

/-- `ResultMapper::readRows`. -/
def readRows (env : TypeEnv τ) (mapper : ResultMapper τ) (typeResolver : TypeResolver τ)
    (fuel : Nat) (dbData : ResultData) (type : τ) (count : Int) :
    Option (FetchState τ × Option MapError) :=
  match mapper.readRowsMethods[env.classId type]? with
  | none => some (⟨dbData, [], 0⟩, some .undefined)
  | some (some ()) => readRowsAsCollection env mapper typeResolver fuel dbData type count
  | some none =>
    some (⟨dbData, [], 0⟩, some (.runtimeError
      ("[oatpp::sqlite::mapping::ResultMapper::readRows()]: Error. Invalid result container type. "
        ++ "Allowed types are oatpp::Vector, oatpp::List, oatpp::UnorderedSet")))

end OatppSqlite.Mapping
