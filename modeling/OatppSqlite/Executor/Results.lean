import OatppSqlite.AnyRows
import OatppSqlite.Executor.Crashes
import OatppSqlite.Mapping.ObjectRow

/-!
# The answers are query results

In the runs of the clients a statement is answered with an `Answer`, which is what the executor
looks at of a `QueryResult`. Here the answers are query results: SQLite steps the statement
(`Stepped`), `exec` makes a result of it, and what is seen of the result are its flags, its
message and the rows that are fetched as `VersionRow`s (`RowReader.seen`).

`results_refine` says that this makes no difference, as long as versions are `v_int64`s. So what
holds of the runs over answers holds of the runs over results.
-/

set_option autoImplicit false

namespace OatppSqlite.Executor

open Mapping Sqlite

/-! ## Reading versions

The executor does with a result of its own what any caller does: it asks for the flags, and fetches
the rows of the SELECT as objects with one field. -/

section

variable {τ : Type}

/-- The type `oatpp::Vector<oatpp::Object<VersionRow>>`; a `VersionRow` has the one field
    `Int64 version`. -/
structure VersionRows (env : TypeEnv τ) (type : τ) : Prop extends Listed env type where
  isObject : env.classId (env.itemType type) = env.ids .abstractObject
  properties : env.properties (env.itemType type)
    = [⟨"version".toList, env.typeOf (.int .int64), none⟩]
  created : env.createObject (env.itemType type)
    = [("version".toList, ⟨none, env.typeOf (.int .int64)⟩)]

/-- What the executor reads rows with. -/
structure RowReader (τ : Type) where
  env : TypeEnv τ
  lawful : env.Lawful
  conv : Conversions
  classCount : Nat
  typeResolver : TypeResolver τ
  type : τ
  versionRows : VersionRows env type

/-- `row->version`; there is none of something that is no `VersionRow`. -/
def rowVersion (row : Mapping.Void τ) : Option (Option Int) :=
  match row.ptr with
  | some (.object fields) =>
    match fields.lookup "version".toList with
    | some ⟨none, _⟩ => some none
    | some ⟨some (.int .int64 v), _⟩ => some (some v.toInt)
    | _ => none
  | _ => none

/-- How SQLite stores a version. -/
def versionCell : Option Int → Cell
  | none => .null
  | some version => .integer (BitVec.ofInt 64 version)

/-- The columns of a statement; only a SELECT has any. -/
def queryColumns : Query → List Text
  | .select _ => ["version".toList]
  | _ => []

/-- The rows that SQLite gives for a statement, and what it answers after them. -/
inductive Stepped {δ : Type} (s : Store δ) :
    Query → Choice → List (Option Int) → LastCode → Prop
  | rows {table : Text} {rows : List (Option Int)} (hrows : s.table table = some rows) :
      Stepped s (.select table) .succeeds rows ⟨.done, StepCode.done_ne_row⟩
  | brokenOff {table : Text} {row : Option Int} {rows : List (Option Int)} (n : Nat)
      (message : String) (hrows : s.table table = some (row :: rows)) :
      Stepped s (.select table) (.breaksOff n) (row :: rows.take n)
        ⟨.error message, StepCode.error_ne_row message⟩
  | done {q : Query} (hq : ∀ table, q ≠ .select table) :
      Stepped s q .succeeds [] ⟨.done, StepCode.done_ne_row⟩
  | failed (q : Query) (message : String) (rollsBack : Bool) :
      Stepped s q (.fails message rollsBack) [] ⟨.error message, StepCode.error_ne_row message⟩

variable [DecidableEq τ]

/-- The result that `exec` makes. -/
def RowReader.result (R : RowReader τ) (q : Query) (rows : List (Option Int)) (last : LastCode) :
    QueryResult τ :=
  .construct (.prepared (queryColumns q) (rows.map fun version => [versionCell version]) last)
    (.construct R.env R.conv R.classCount) R.typeResolver

/-- What the executor sees of a result. There is nothing to see if the rows cannot be fetched. -/
def RowReader.seen (R : RowReader τ) (fuel : Nat) (q : QueryResult τ) : Option Answer :=
  -- the code only fetches after a SELECT; the other statements have no rows
  match q.fetch R.env fuel R.type (-1) with
  | some (⟨rows, none⟩, _) => do
    let versions ← rows.mapM rowVersion
    return ⟨q.isSuccess, q.getErrorMessage, q.hasMoreToFetch, versions⟩
  | _ => none

end

/-! ## One statement

What `Sqlite.perform` answers is what is seen of a result whose rows and last code SQLite gives for
the same choice; and for every choice there are such rows (`exists_stepped`). -/

/-- A version is a `v_int64`. -/
def IsInt64 (version : Int) : Prop :=
  -9223372036854775808 ≤ version ∧ version ≤ 9223372036854775807

instance (version : Int) : Decidable (IsInt64 version) := inferInstanceAs (Decidable (_ ∧ _))

/-- If there is one. -/
def VersionFits (row : Option Int) : Prop := ∀ version ∈ row, IsInt64 version

instance (row : Option Int) : Decidable (VersionFits row) :=
  inferInstanceAs (Decidable (∀ version ∈ row, IsInt64 version))

section

variable {τ : Type} {R : RowReader τ} {fuel : Nat} {row : Option Int} {rows : List (Option Int)}
  {q : Query} {last : LastCode}

theorem toInt_ofInt_int64 {version : Int} (h : IsInt64 version) :
    (BitVec.ofInt 64 version).toInt = version := by
  obtain ⟨hlow, hhigh⟩ := h
  apply BitVec.toInt_ofInt_eq_self (by decide)
  · exact hlow
  · show version < 9223372036854775808
    omega

/-- The value of a stored version. -/
def versionValue (env : TypeEnv τ) (row : Option Int) : Mapping.Void τ :=
  ⟨row.map fun version => .int .int64 (BitVec.ofInt 64 version), env.typeOf (.int .int64)⟩

theorem deserialize_versionCell (R : RowReader τ) (fuel : Nat) (row : Option Int) :
    deserialize R.env (Deserializer R.env R.conv R.classCount) R.typeResolver (versionCell row)
        (fuel + 1) (R.env.typeOf (.int .int64))
      = some (.ok (versionValue R.env row)) := by
  rw [deserialize_eq R.lawful (mem_deserializerMethods_int .int64) (R.lawful.classId_typeOf _)]
  cases row with
  | none => rfl
  | some version =>
    show some (Except.ok (intWrapper R.env .int64 (BitVec.ofInt 64 version))) = _
    unfold intWrapper
    have hwidth : (BitVec.ofInt 64 version).setWidth IntKind.int64.width
        = BitVec.ofInt 64 version := BitVec.setWidth_eq _
    rw [hwidth]
    rfl

/-- A row of the version table, as it is read. -/
def RowReader.versionRow (R : RowReader τ) (row : Option Int) : Mapping.Void τ :=
  ⟨some (.object [("version".toList, versionValue R.env row)]), R.env.itemType R.type⟩

theorem rowVersion_versionRow (R : RowReader τ) (h : VersionFits row) :
    rowVersion (R.versionRow row) = some row := by
  cases row with
  | none => rfl
  | some version =>
    show some (some (BitVec.ofInt 64 version).toInt) = some (some version)
    rw [toInt_ofInt_int64 (h version rfl)]

variable [DecidableEq τ]

/-- **A row of the version table** is read as an object whose one field is the one column. -/
theorem readRow_version (R : RowReader τ) (fuel : Nat) (row : Option Int) :
    readRow R.env (.construct R.env R.conv R.classCount) R.typeResolver (fuel + 2)
        ["version".toList] R.type [versionCell row] = some (.ok (R.versionRow row)) := by
  have hm : (ClassName.abstractObject, some (readOneRowAsObject R.env))
      ∈ readOneRowMethods R.env := by
    simp [readOneRowMethods]
  unfold readRow
  rw [readOneRow_eq R.lawful hm R.versionRows.isObject]
  have hfield : columnField R.env (R.env.itemType R.type) "version".toList
      = some ⟨"version".toList, R.env.typeOf (.int .int64), none⟩ := by
    unfold columnField
    rw [R.versionRows.properties, List.find?_cons_of_pos (by simp)]
  -- the one column is the one field
  show readOneRowAsObject R.env _ [("version".toList, versionCell row)] _ = _
  unfold readOneRowAsObject
  rw [setColumns_ordinary hfield (fun hpoly => Bool.false_ne_true hpoly.1), deserialize_versionCell,
    R.versionRows.created]
  rfl

/-- **All rows of a result** are fetched, whatever the statement answers in the end. -/
theorem fetch_result (R : RowReader τ) (fuel : Nat)
    (hcolumns : rows ≠ [] → queryColumns q = ["version".toList]) (last : LastCode) :
    ∃ q', (R.result q rows last).fetch R.env (fuel + 2) R.type (-1)
      = some (⟨rows.map R.versionRow, none⟩, q') := by
  have hof : Feed.Of (readRow R.env (.construct R.env R.conv R.classCount) R.typeResolver
      (fuel + 2) (queryColumns q) R.type) (rows.map fun version => [versionCell version])
      ⟨rows.map R.versionRow, none⟩ := by
    apply Feed.Of.map
    intro row hrow
    rw [hcolumns (List.ne_nil_of_mem hrow)]
    exact readRow_version R fuel row
  -- a new result has all rows to come
  obtain ⟨hstart, hrest⟩ := @construct_stands (.prepared (queryColumns q)
    (rows.map fun version => [versionCell version]) last) rfl rfl
  have hrest' : (R.result q rows last).rest = rows.map fun version => [versionCell version] := hrest
  rw [← hrest'] at hof
  obtain ⟨d, hfetch, -⟩ := fetch_takes (q := R.result q rows last) R.lawful (-1) rfl hstart
    R.versionRows.toListed hof
  exact ⟨_, hfetch⟩

theorem seen_result (R : RowReader τ) (fuel : Nat) (h : ∀ row ∈ rows, VersionFits row)
    (hcolumns : rows ≠ [] → queryColumns q = ["version".toList]) (last : LastCode) :
    R.seen (fuel + 2) (R.result q rows last)
      = some ⟨(R.result q rows last).isSuccess, (R.result q rows last).getErrorMessage,
          (R.result q rows last).hasMoreToFetch, rows⟩ := by
  obtain ⟨q', hfetch⟩ := fetch_result R fuel hcolumns last
  have hversions : (rows.map R.versionRow).mapM rowVersion = some rows := by
    have hall : List.Forall₂ (fun row v => rowVersion v = some row) rows
        (rows.map R.versionRow) := by
      rw [List.forall₂_map_right_iff, List.forall₂_same]
      exact fun row hrow => rowVersion_versionRow R (h row hrow)
    simpa using mapM_of_forall₂ (g := id) hall
  unfold RowReader.seen
  simp only [hfetch, hversions]
  rfl

variable {ι δ : Type} [DecidableEq ι] {i : ι} {db db' : Db ι δ} {choice : Choice} {answer : Answer}

omit [DecidableEq τ] in
/-- A statement that succeeds and has no rows. -/
theorem perform_answer_done (hq : ∀ table, q ≠ .select table)
    (hE : perform i db q .succeeds = some (answer, db')) : answer = .done := by
  have hwrite : ∀ q : Query, (if q.isDone (db.store i) then some (Answer.done, db)
      else if db.mayWrite i then (q.write (db.store i)).map fun s => (.done, db.written i s)
      else none) = some (answer, db') → answer = .done := by
    intro q hE
    split at hE
    · cases hE
      rfl
    split at hE
    · obtain ⟨s, -, heq⟩ := Option.map_eq_some_iff.mp hE
      cases heq
      rfl
    · cases hE
  cases q with
  | select table => exact absurd rfl (hq table)
  | begin | commit | rollback =>
    unfold perform at hE
    dsimp only at hE
    split at hE
    · cases hE <;> rfl
    · cases hE <;> rfl
  | createTable table => exact hwrite (.createTable table) hE
  | insertZero table => exact hwrite (.insertZero table) hE
  | update table version => exact hwrite (.update table version) hE

/-- **The answer of a statement** that gives these rows and ends like that is what is seen of its
    result, -/
theorem seen_of_stepped (R : RowReader τ) (fuel : Nat)
    (hstepped : Stepped (db.store i) q choice rows last) (h : ∀ row ∈ rows, VersionFits row)
    (hE : perform i db q choice = some (answer, db')) :
    R.seen (fuel + 2) (R.result q rows last) = some answer := by
  cases hstepped with
  | @rows table rows hrows =>
    rw [seen_result R fuel h fun _ => rfl]
    simp only [perform, hrows] at hE
    cases hE
    cases rows with
    | nil => rfl
    | cons row rows => rfl
  | @brokenOff table row rows n message hrows =>
    rw [seen_result R fuel h fun _ => rfl]
    simp only [perform, hrows] at hE
    cases hE
    rfl
  | done hq =>
    rw [seen_result R fuel h fun hnil => absurd rfl hnil, perform_answer_done hq hE]
    rfl
  | failed q message rollsBack =>
    rw [seen_result R fuel h fun hnil => absurd rfl hnil]
    obtain ⟨rfl, -⟩ := perform_fails hE
    rfl

omit [DecidableEq τ] in
/-- and every statement that is answered is stepped in such a way. -/
theorem exists_stepped (hE : perform i db q choice = some (answer, db')) :
    ∃ rows last, Stepped (db.store i) q choice rows last := by
  cases choice with
  | fails message rollsBack => exact ⟨_, _, .failed q message rollsBack⟩
  | breaksOff n =>
    obtain ⟨table, row, rows, rfl, hrows, -, -⟩ := perform_breaksOff hE
    exact ⟨_, _, .brokenOff n "" hrows⟩
  | readsBefore => cases hE
  | succeeds =>
    cases q with
    | select table =>
      obtain ⟨-, -, rows, -, hrows, -⟩ := perform_succeeds hE
      exact ⟨_, _, .rows hrows⟩
    | _ => exact ⟨_, _, .done nofun⟩

end

/-! ## Versions that fit

A version is stored as a 64-bit integer, so what is read is what was written as long as it is one.
Every store of the database has to be looked at, the committed one and the copy of a transaction. -/

section

variable {ι σ δ : Type} {P : Store δ → Prop} {s : Store δ}

/-- It holds of what is committed, and of what a transaction is about to commit. -/
structure Everywhere (P : Store δ → Prop) (db : Db ι δ) : Prop where
  committed : P db.committed
  copy : ∀ i w, db.writer = some (i, w) → P w

/-- The rows of the version tables. -/
def VersionsFit (s : Store δ) : Prop :=
  ∀ table rows, s.table table = some rows → ∀ row ∈ rows, VersionFits row

theorem VersionsFit.setTable {table : Text} {rows : List (Option Int)} (h : VersionsFit s)
    (hrows : ∀ row ∈ rows, VersionFits row) : VersionsFit (s.setTable table rows) := by
  intro t rows' hrows'
  by_cases ht : tableKey t = tableKey table
  · have hset : (s.setTable table rows).table t = some rows := if_pos ht
    rw [hset, Option.some.injEq] at hrows'
    rwa [← hrows']
  · have hset : (s.setTable table rows).table t = s.table t := if_neg ht
    rw [hset] at hrows'
    exact h t rows' hrows'

/-- **A statement that writes** versions that fit keeps it. -/
theorem VersionsFit.write {q : Query} {s' : Store δ} (h : VersionsFit s)
    (hupdate : ∀ table version, q = .update table version → IsInt64 version)
    (hs : q.write s = some s') : VersionsFit s' := by
  cases q with
  | createTable table =>
    simp only [Query.write] at hs
    split at hs
    · cases hs
    · cases hs
      exact h.setTable fun row hrow => absurd hrow List.not_mem_nil
  | insertZero table =>
    obtain ⟨rows, hrows, rfl⟩ := Option.map_eq_some_iff.mp hs
    apply h.setTable
    intro row hrow
    rcases List.mem_append.mp hrow with hrow | hrow
    · exact h table rows hrows row hrow
    · rw [List.mem_singleton.mp hrow]
      intro version hversion
      cases hversion
      decide
  | update table version =>
    obtain ⟨rows, hrows, rfl⟩ := Option.map_eq_some_iff.mp hs
    apply h.setTable
    intro row hrow
    obtain ⟨-, -, rfl⟩ := List.mem_map.mp hrow
    intro version hversion
    cases hversion
    exact hupdate _ _ rfl
  | _ => cases hs

variable [DecidableEq ι] {i : ι} {db db' : Db ι δ}

theorem Everywhere.store (h : Everywhere P db) (i : ι) : P (db.store i) := by
  unfold Db.store
  split
  · split
    · exact h.copy _ _ ‹_›
    · exact h.committed
  · exact h.committed

theorem Everywhere.close (h : Everywhere P db) : Everywhere P (db.close i) where
  committed := h.committed
  copy j w hw := h.copy j w (Option.eq_some_of_filter_eq_some hw)

omit [DecidableEq ι] in
theorem Everywhere.written (h : Everywhere P db) (hs : P s) : Everywhere P (db.written i s) := by
  unfold Db.written
  split
  · refine ⟨h.committed, fun j w hw => ?_⟩
    cases hw
    exact hs
  · exact ⟨hs, h.copy⟩

/-- **What a statement moves** keeps what its write keeps. -/
theorem Everywhere.moved {q : Query} (h : Everywhere P db) (hmoved : Moved i db q db')
    (hwrite : ∀ s, q.write (db.store i) = some s → P s) : Everywhere P db' := by
  cases hmoved with
  | same => exact h
  | closed => exact h.close
  | begun hq => exact ⟨h.committed, h.copy⟩
  | committed => exact ⟨h.store i, h.close.copy⟩
  | written s hmay hs => exact h.written (hwrite s hs)

theorem Everywhere.performScript {effect : σ → δ → Effect δ} {statement : σ} {choice : Choice}
    {errmsg : Option String} (h : Everywhere VersionsFit db)
    (hE : Sqlite.performScript effect i db statement choice = some (errmsg, db')) :
    Everywhere VersionsFit db' := by
  rcases performScript_cases hE with ⟨-, rfl | rfl⟩ | ⟨-, hran⟩
  · exact h
  · exact h.close
  cases hran with
  | read => exact h
  | before => exact h
  | wrote =>
    -- a script leaves the version tables alone
    exact h.written (h.store i)

end

/-! ## Clients that get results -/

variable {κ ι σ δ τ : Type} [DecidableEq ι] [DecidableEq τ]

/-- How the database serves a request, where `exec` makes a result of the statement. -/
def RowReader.Serves (R : RowReader τ) (fuel : Nat) (effect : σ → δ → Effect δ) (choice : Choice)
    (db : Db ι δ) : (q : Request ι σ) → Reply q → Db ι δ → Prop
  | .exec connection query, answer, db' => ∃ rows last,
      Stepped (db.store connection) query choice rows last ∧
      (perform connection db query choice).map Prod.snd = some db' ∧
      R.seen fuel (R.result query rows last) = some answer
  | q, answer, db' => serve effect choice db q = some (answer, db')

/-- The same clients, in the middle of the same calls. -/
def Components.resultThreads (C : Components κ ι σ δ) (G : Guard κ ι σ δ) (R : RowReader τ)
    (fuel : Nat) : Threads (Request ι σ) Reply String ι (Job κ) (Shared κ ι σ δ) :=
  { C.threads G with
    env := fun i job s q answer s' => ∃ choice db', G i job s q choice ∧
      R.Serves fuel C.effect choice s.db q answer db' ∧ s' = s.answered job q answer db' }

section

variable {R : RowReader τ} {fuel : Nat} {choice : Choice} {db db' : Db ι δ}
  {effect : σ → δ → Effect δ}

/-- The rows that are stepped are rows of the store. -/
theorem Stepped.fits {s : Store δ} {q : Query} {rows : List (Option Int)} {last : LastCode}
    (h : Stepped s q choice rows last) (hs : VersionsFit s) : ∀ row ∈ rows, VersionFits row := by
  cases h with
  | rows hrows => exact hs _ _ hrows
  | brokenOff n message hrows =>
    intro row hrow
    apply hs _ _ hrows row
    rcases List.mem_cons.mp hrow with rfl | hrow
    · exact List.mem_cons_self
    · exact List.mem_cons_of_mem _ (List.mem_of_mem_take hrow)
  | done hq => exact fun row hrow => absurd hrow List.not_mem_nil
  | failed q message rollsBack => exact fun row hrow => absurd hrow List.not_mem_nil

/-- **One answer.** -/
theorem serves_iff (h : Everywhere VersionsFit db) (q : Request ι σ) (answer : Reply q) :
    R.Serves (fuel + 2) effect choice db q answer db'
      ↔ serve effect choice db q = some (answer, db') := by
  cases q with
  | getConnection => exact Iff.rfl
  | scriptStatement connection statement => exact Iff.rfl
  | exec connection query =>
    constructor
    · rintro ⟨rows, last, hstepped, hmoved, hseen⟩
      obtain ⟨⟨answer', db''⟩, hE, rfl⟩ := Option.map_eq_some_iff.mp hmoved
      have hseen' := seen_of_stepped R fuel hstepped (hstepped.fits (h.store connection)) hE
      cases hseen.symm.trans hseen'
      exact hE
    · intro hE
      change perform connection db query choice = some (answer, db') at hE
      obtain ⟨rows, last, hstepped⟩ := exists_stepped hE
      refine ⟨rows, last, hstepped, ?_, ?_⟩
      · rw [hE]
        rfl
      · exact seen_of_stepped R fuel hstepped (hstepped.fits (h.store connection)) hE

end

/-! ## Runs -/

variable {C : Components κ ι σ δ} {G : Guard κ ι σ δ} {w w₀ : Clients κ ι σ δ}
  {moves : List (ι × Threads.Move (Job κ))}

/-- Only calls for versions that are `v_int64`s go on. -/
def Guard.fits : Guard κ ι σ δ := fun _ job _ _ _ => VersionFits job.call.version?

instance (i : ι) (job : Job κ) (s : Shared κ ι σ δ) (q : Request ι σ) (choice : Choice) :
    Decidable (Guard.fits i job s q choice) :=
  inferInstanceAs (Decidable (VersionFits job.call.version?))

/-- The stages of the calls; all that is relied on is that versions fit. -/
def fitsOutline (C : Components κ ι σ δ) :
    Threads.Outline (Request ι σ) Reply ι (Job κ) (Shared κ ι σ δ) (Stage σ) where
  Asks := Stages C
  start := .outside
  AtRest stage := stage = .outside
  Shared s := Everywhere VersionsFit s.db
  Stands _ _ _ _ := True

omit [DecidableEq τ] in
theorem fitsOutline_valid (C : Components κ ι σ δ)
    (hG : ∀ i job s q choice, G i job s q choice → VersionFits job.call.version?) :
    (fitsOutline C).Valid (C.threads G) where
  start_atRest := rfl
  follows := program_stages C
  answer := by
    rintro i job stage q next s answer s' hq hfits - ⟨choice, db', hguard, hserve, rfl⟩
    refine ⟨?_, trivial⟩
    have hversion := hG i job s q choice hguard
    cases q with
    | getConnection => cases hserve
    | scriptStatement connection statement => exact Everywhere.performScript hfits hserve
    | exec connection query =>
      apply hfits.moved (perform_moved hserve)
      intro s hs
      refine (hfits.store connection).write ?_ hs
      -- an UPDATE is for the version of the call
      rintro table version rfl
      cases hq with
      | update version hcall => exact hversion version hcall
      | look q hq => rcases hq with hq | hq | hq <;> cases hq
  apart := fun _ _ _ _ _ _ => trivial
  atRest := fun _ _ => trivial
  lost := fun hfits _ => ⟨hfits.close, trivial⟩
  lost_apart := fun _ _ => trivial

/-- **Results instead of answers** make no difference to the clients: they have the same runs, as
    long as versions are `v_int64`s; and they are, if they were at the start. -/
theorem results_refine (C : Components κ ι σ δ)
    (hG : ∀ i job s q choice, G i job s q choice → VersionFits job.call.version?)
    (R : RowReader τ) (fuel : Nat) (hended : ∀ i, (w₀.thread i).running.question = none)
    (hfits : Everywhere VersionsFit w₀.shared.db) :
    ((C.resultThreads G R (fuel + 2)).Run w₀ moves w ↔ (C.threads G).Run w₀ moves w) ∧
      ((C.threads G).Run w₀ moves w → Everywhere VersionsFit w.shared.db) := by
  have hvalid := fitsOutline_valid C hG
  have hmet : (fitsOutline C).Met w₀ := hvalid.met hfits hended fun _ => trivial
  constructor
  · refine hvalid.run_iff rfl rfl ?_ hmet
    rintro i job stage q next s answer s' hq hshared -
    constructor
    · rintro ⟨choice, db', hguard, hserves, hanswered⟩
      exact ⟨choice, db', hguard, (serves_iff hshared q answer).mp hserves, hanswered⟩
    · rintro ⟨choice, db', hguard, hserve, hanswered⟩
      exact ⟨choice, db', hguard, (serves_iff hshared q answer).mpr hserve, hanswered⟩
  · exact fun hrun => (hvalid.run hmet hrun).shared

/-- Rows are read in the plain framework. -/
def plainReader : RowReader PlainType where
  env := plainEnv [⟨"version".toList, .ofClass (.int .int64), none⟩]
  lawful := plainEnv_lawful _
  conv := plainConversions
  classCount := 22
  typeResolver := plainResolver
  type := .vector .object
  versionRows := ⟨⟨Or.inl rfl, fun _ _ => rfl⟩, rfl, rfl, rfl⟩

example : plainReader.seen 2 (plainReader.result (.select []) [some (-7), none]
    ⟨.done, StepCode.done_ne_row⟩) = some (.ofRows [some (-7), none]) := by decide

theorem results_refine_lostClient :
    ∃ (w : Clients Bool Bool Nat (List Nat)) (moves : List (Bool × Threads.Move (Job Bool))),
      (plainComponents.resultThreads .fits plainReader 2).Run newClients moves w ∧
      w.shared.committed = [(true, 1)] ∧ w.shared.db.committed.data = [11] ∧
      Everywhere VersionsFit w.shared.db := by
  obtain ⟨moves, hrun⟩ := schedule_run (C := plainComponents) (G := .fits) newClients lostClient rfl
  have hfits : Everywhere VersionsFit newClients.shared.db := by
    constructor
    · intro table rows hrows
      cases hrows
    · intro i w hw
      cases hw
  obtain ⟨hiff, hall⟩ := results_refine plainComponents (fun _ _ _ _ _ h => h) plainReader 0
    newClients_resting.ended hfits
  exact ⟨_, moves, hiff.mpr hrun, rfl, rfl, hall hrun⟩

end OatppSqlite.Executor
