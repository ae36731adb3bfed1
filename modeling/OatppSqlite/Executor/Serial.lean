import OatppSqlite.Executor.OneRow

/-!
# One version after the other

`migrateSchema` compares the version before its transaction begins, and its UPDATE does not look
at the version it replaces. A client that compared early may commit a script again, or an older
version: `migrations_twice`. `migrations_serial` is what holds of every run in which
a transaction starts to write only while the version is the one that the client compared. What
the transaction has read by then makes no difference, as reading locks nobody out.

What a client may rely on between its steps is `Standing`, phase by phase; what a step does to
the version table is `RowsStep`. Another client's step leaves the first alone
(`Standing.untouched`), and its own step leads to the next phase (`Standing.serve`).

The one place where the condition is used is the step with which a transaction becomes the writer
(`Standing.begun_store`). From there on SQLite's lock does the rest: nobody else commits, so the
committed version is still the one that was compared when the transaction's own COMMIT comes, and
that COMMIT is the only step that adds to the log (`RowsStep.committed`). Before it the client
relies on nothing that another client could change, except that there is a row.

Two clients may both have inserted a version row (`versionTable_twoRows`). New rows go to the end
of the table, so the version is read off its first row here, and a row more does not change it.
The condition can leave the INSERTs alone for that reason.
-/

set_option autoImplicit false

namespace OatppSqlite.Executor

open Sqlite

variable {ι σ δ : Type} {table : Text} {n : Int} {v : Option Int}

/-! ## The version table

A version is a fact about the first row. The others may be anything, as the `UPDATE` has no `WHERE`
and gives all of them the new version, and a `getSchemaVersion` that sees them throws. -/

/-- The first row has version `n`. -/
def FirstRow (n : Int) (rows : Option (List (Option Int))) : Prop :=
  ∃ others, rows = some (some n :: others)

/-- The version table is at version `n`: its first row says so, or there is none yet. -/
inductive AtVersion : Int → Option (List (Option Int)) → Prop
  | absent : AtVersion 0 none
  | empty : AtVersion 0 (some [])
  | row (n : Int) (others : List (Option Int)) : AtVersion n (some (some n :: others))

section

variable {rows rows' : Option (List (Option Int))} {log : List Int}

theorem AtVersion.storedVersion_eq (h : AtVersion n rows) : storedVersion rows = n := by
  cases h with
  | absent => rfl
  | empty => rfl
  | row => rfl

theorem Versioned.atVersion (h : Versioned n rows) : AtVersion n rows := by
  cases h with
  | absent => exact .absent
  | empty => exact .empty
  | row => exact .row n []

/-- Where there is a first row, it has the version. -/
theorem AtVersion.firstRow {m : Int} (h : AtVersion n rows) (hrow : FirstRow m rows) :
    FirstRow n rows := by
  obtain ⟨others, rfl⟩ := hrow
  cases h with
  | row => exact ⟨others, rfl⟩

/-- A table at a version that has one row at most. -/
theorem AtVersion.versioned (h : AtVersion n rows)
    (hone : ∀ l, rows = some l → l.length ≤ 1) : Versioned n rows := by
  cases h with
  | absent => exact .absent
  | empty => exact .empty
  | row n others =>
    have hlen := hone _ rfl
    obtain rfl : others = [] := by
      apply List.eq_nil_of_length_eq_zero
      rw [List.length_cons] at hlen
      omega
    exact .row n

/-- What one step does to the rows of the version table, and to the committed versions. It is said
    without the phase of the client, so that the others can be told what happened to them. -/
inductive RowsStep : Option (List (Option Int)) → Option (List (Option Int)) → List Int → Prop
  | same (rows : Option (List (Option Int))) : RowsStep rows rows []
  | created : RowsStep none (some []) []
  | inserted (rows : List (Option Int)) : RowsStep (some rows) (some (rows ++ [some 0])) []
  | committed (n : Int) (others others' : List (Option Int)) :
      RowsStep (some (some n :: others)) (some (some (n + 1) :: others')) [n + 1]

theorem RowsStep.atVersion (h : RowsStep rows rows' log) (hv : AtVersion n rows) :
    (log = [] ∧ AtVersion n rows') ∨ (log = [n + 1] ∧ AtVersion (n + 1) rows') := by
  cases h with
  | same => exact Or.inl ⟨rfl, hv⟩
  | created =>
    cases hv
    exact Or.inl ⟨rfl, .empty⟩
  | inserted rows =>
    cases hv with
    | empty => exact Or.inl ⟨rfl, .row 0 []⟩
    | row n others => exact Or.inl ⟨rfl, .row n _⟩
  | committed n' others others' =>
    cases hv
    exact Or.inr ⟨rfl, .row _ others'⟩

/-- There is a first row from then on. -/
theorem RowsStep.row (h : RowsStep rows rows' log) (hrow : ∃ n, FirstRow n rows) :
    ∃ n, FirstRow n rows' := by
  obtain ⟨n, others, rfl⟩ := hrow
  cases h with
  | same => exact ⟨n, others, rfl⟩
  | inserted => exact ⟨n, _, rfl⟩
  | committed => exact ⟨n + 1, _, rfl⟩

end

/-! ## Between the steps

Outside of a transaction a client knows at most that the table has a row, which no step takes
away. In it the client knows a version from its first write on, and not before: what it compared
in `getSchemaVersion` may be out of date by then, and no clause speaks of it. -/

/-- The client has no transaction. -/
def Closed (db : Db ι δ) (i : ι) : Prop := db.inTx i = false ∧ ∀ w, db.writer ≠ some (i, w)

/-- What a client may rely on in a phase of a call for version `v`. -/
def Standing (table : Text) (v : Option Int) (db : Db ι δ) (i : ι) : Phase → Prop
  | .free | .vacant | .doomed => Closed db i
  | .ready => Closed db i ∧ ∃ n, FirstRow n (db.committed.table table)
  | .begun => db.inTx i = true ∧ (∃ n, FirstRow n (db.committed.table table)) ∧
      ∀ w, db.writer = some (i, w) → ∃ n, FirstRow n (db.committed.table table) ∧
        FirstRow n (w.table table) ∧ v = some (n + 1)
  | .updated => db.inTx i = true ∧ ∃ w n, db.writer = some (i, w) ∧
      FirstRow n (db.committed.table table) ∧ FirstRow (n + 1) (w.table table) ∧
      v = some (n + 1)
  | .failed => (db.inTx i = false → ∀ w, db.writer ≠ some (i, w)) ∧
      ∃ n, FirstRow n (db.committed.table table)

/-- Another client's step leaves a client's transaction alone, and what is committed while that
    client writes. -/
structure Untouched (j : ι) (db db' : Db ι δ) : Prop where
  inTx : db'.inTx j = db.inTx j
  writer : ∀ w, db'.writer = some (j, w) ↔ db.writer = some (j, w)
  committed : ∀ w, db.writer = some (j, w) → db'.committed = db.committed

variable {db db' : Db ι δ} {i j : ι} {phase : Phase}

theorem Untouched.closed (hd : Untouched j db db') (h : Closed db j) : Closed db' j :=
  ⟨hd.inTx.trans h.1, fun w hw => h.2 w ((hd.writer w).mp hw)⟩

theorem Standing.untouched {log : List Int} (h : Standing table v db j phase)
    (hd : Untouched j db db')
    (hrows : RowsStep (db.committed.table table) (db'.committed.table table) log) :
    Standing table v db' j phase := by
  cases phase with
  | free => exact hd.closed h
  | vacant => exact hd.closed h
  | doomed => exact hd.closed h
  | ready => exact ⟨hd.closed h.1, hrows.row h.2⟩
  | begun =>
    obtain ⟨hin, hrow, hcopy⟩ := h
    refine ⟨hd.inTx.trans hin, hrows.row hrow, fun w hw => ?_⟩
    -- if this client writes, the step has committed nothing
    have hw' := (hd.writer w).mp hw
    rw [hd.committed w hw']
    exact hcopy w hw'
  | updated =>
    obtain ⟨hin, w, n, hw, hrow, hcopy⟩ := h
    refine ⟨hd.inTx.trans hin, w, n, (hd.writer w).mpr hw, ?_, hcopy⟩
    rw [hd.committed w hw]
    exact hrow
  | failed =>
    refine ⟨fun hin w hw => ?_, hrows.row h.2⟩
    exact h.1 (hd.inTx.symm.trans hin) w ((hd.writer w).mp hw)

variable [DecidableEq ι]

omit [DecidableEq ι] in
theorem Untouched.refl (j : ι) (db : Db ι δ) : Untouched j db db :=
  ⟨rfl, fun _ => Iff.rfl, fun _ _ => rfl⟩

theorem Untouched.close (hj : j ≠ i) (db : Db ι δ) : Untouched j db (db.close i) where
  inTx := if_neg hj
  writer w := by
    show db.writer.filter _ = some (j, w) ↔ _
    rw [Option.filter_eq_some_iff]
    simp [hj]
  committed _ _ := rfl

theorem Untouched.commit (hj : j ≠ i) (db : Db ι δ) : Untouched j db (db.commit i) where
  inTx := if_neg hj
  writer w := (Untouched.close hj db).writer w
  committed w hw := by
    show db.store i = db.committed
    unfold Db.store
    rw [hw]
    exact if_neg hj

theorem Untouched.written (hj : j ≠ i) (hwrite : db.mayWrite i = true) (s : Store δ) :
    Untouched j db (db.written i s) := by
  -- who may write has no other writer beside it
  have hother : ∀ w, db.writer ≠ some (j, w) := by
    intro w hw
    unfold Db.mayWrite at hwrite
    rw [hw] at hwrite
    exact hj (by simpa using hwrite)
  unfold Db.written
  split
  · refine ⟨rfl, fun w => ⟨fun hw => ?_, fun hw => absurd hw (hother w)⟩,
      fun w hw => absurd hw (hother w)⟩
    cases hw
    exact absurd rfl hj
  · exact ⟨rfl, fun _ => Iff.rfl, fun w hw => absurd hw (hother w)⟩

theorem Untouched.failed (hj : j ≠ i) (hdb : db' = db ∨ db' = db.close i) :
    Untouched j db db' := by
  rcases hdb with rfl | rfl
  · exact .refl j _
  · exact .close hj db

theorem perform_untouched {q : Query} {choice : Choice} {answer : Answer} (hj : j ≠ i)
    (hE : perform i db q choice = some (answer, db')) : Untouched j db db' := by
  cases perform_moved hE with
  | same => exact .refl j db
  | closed => exact .close hj db
  | begun hq => exact ⟨if_neg hj, fun _ => Iff.rfl, fun _ _ => rfl⟩
  | committed => exact .commit hj db
  | written s hwrite hs => exact .written hj hwrite s

theorem performScript_untouched {effect : σ → δ → Effect δ} {statement : σ} {choice : Choice}
    {errmsg : Option String} (hj : j ≠ i)
    (hE : performScript effect i db statement choice = some (errmsg, db')) :
    Untouched j db db' := by
  rcases performScript_cases hE with ⟨-, hdb⟩ | ⟨-, hran⟩
  · exact .failed hj hdb
  cases hran with
  | read => exact .refl j db
  | before => exact .refl j db
  | wrote d heffect hwrite => exact .written hj hwrite _

theorem serve_untouched {effect : σ → δ → Effect δ} {choice : Choice} {q : Request ι σ}
    {next : Reply q → Phase} {answer : Reply q} (hj : j ≠ i)
    (hq : Protocol i table v phase q next)
    (hE : serve effect choice db q = some (answer, db')) : Untouched j db db' := by
  cases hq with
  | scriptStatement => exact performScript_untouched hj hE
  | _ => exact perform_untouched hj hE

/-! ## A client's own step -/

theorem Closed.of_close (db : Db ι δ) (i : ι) : Closed (db.close i) i :=
  ⟨if_pos rfl, close_notWriter db i⟩

theorem Closed.failed (h : Closed db i) (hdb : db' = db ∨ db' = db.close i) : Closed db' i := by
  rcases hdb with rfl | rfl
  · exact h
  · exact .of_close db i

theorem Closed.store (h : Closed db i) : db.store i = db.committed :=
  Db.NotWriter.store_eq h.2

omit [DecidableEq ι] in
theorem Closed.written (h : Closed db i) (s : Store δ) :
    db.written i s = { db with committed := s } := by
  unfold Db.written
  rw [if_neg (by rw [h.1]; exact Bool.false_ne_true)]

theorem committed_failed (hdb : db' = db ∨ db' = db.close i) : db'.committed = db.committed := by
  rcases hdb with rfl | rfl
  · rfl
  · rfl

theorem Standing.failed (hrow : ∃ n, FirstRow n (db.committed.table table))
    (hin : db.inTx i = true) (hdb : db' = db ∨ db' = db.close i) :
    Standing table v db' i .failed := by
  rcases hdb with rfl | rfl
  · exact ⟨fun hc => absurd hin (by rw [hc]; exact Bool.false_ne_true), hrow⟩
  · exact ⟨fun _ => (Closed.of_close db i).2, hrow⟩

/-- What a transaction sees when it writes: it goes on with its copy, or it starts one, and then
    the version is the one that was compared. -/
theorem Standing.begun_store (h : Standing table v db i .begun) (hmay : db.mayWrite i = true)
    (hversioned : AtVersion n (db.committed.table table))
    (hstart : db.writer = none → v = some (n + 1)) :
    ∃ n, FirstRow n (db.committed.table table) ∧
      FirstRow n ((db.store i).table table) ∧ v = some (n + 1) := by
  obtain ⟨hin, ⟨n', hrow⟩, hcopy⟩ := h
  cases hwriter : db.writer with
  | none =>
    -- nobody writes, so the transaction still sees what is committed
    have hstore : db.store i = db.committed := by
      unfold Db.store
      rw [hwriter]
    have hfirst := hversioned.firstRow hrow
    exact ⟨n, hfirst, hstore ▸ hfirst, hstart hwriter⟩
  | some w =>
    -- the writer is this client, whose version was compared when it became one
    obtain ⟨k, w⟩ := w
    unfold Db.mayWrite at hmay
    rw [hwriter] at hmay
    obtain rfl : k = i := by simpa using hmay
    have hstore : db.store k = w := by
      unfold Db.store
      rw [hwriter]
      exact if_pos rfl
    rw [hstore]
    exact hcopy w hwriter

omit [DecidableEq ι] in
theorem written_inTx (hin : db.inTx i = true) (s : Store δ) :
    db.written i s = { db with writer := some (i, s) } := by
  unfold Db.written
  exact if_pos hin

section

variable {choice : Choice} {answer : Answer}

theorem Closed.createTable (h : Closed db i)
    (hE : perform i db (.createTable table) choice = some (answer, db')) :
    Closed db' i ∧ RowsStep (db.committed.table table) (db'.committed.table table) [] := by
  rcases perform_cases hE with ⟨-, -, hdb, -⟩ | ⟨-, -, ⟨-, rfl⟩ | ⟨-, s, hs, rfl⟩⟩
  · exact ⟨h.failed hdb, committed_failed hdb ▸ .same _⟩
  · exact ⟨h, .same _⟩
  -- outside of a transaction what is written is committed
  rw [h.written]
  rw [h.store] at hs
  refine ⟨h, ?_⟩
  simp only [Query.write] at hs
  split at hs
  · cases hs
  · rename_i hnone
    cases hs
    rw [hnone, Store.table_setTable]
    exact .created

theorem Closed.select (h : Closed db i) (hversioned : AtVersion n (db.committed.table table))
    (hE : perform i db (.select table) choice = some (answer, db')) :
    Standing table v db' i (if answer.isSuccess then .ofVersions answer.versions else .free) ∧
      RowsStep (db.committed.table table) (db'.committed.table table) [] := by
  rcases perform_cases hE with ⟨ha, -, hdb, -⟩ | ⟨ha, -, rfl, rows, k, hrows, hversions⟩
  · rw [ha, if_neg Bool.false_ne_true]
    exact ⟨h.failed hdb, committed_failed hdb ▸ .same _⟩
  rw [h.store] at hrows
  rw [hrows] at hversioned
  refine ⟨?_, .same _⟩
  rw [ha, if_pos rfl, hversions]
  cases hversioned with
  | empty =>
    rw [List.take_nil]
    exact h
  | row n others =>
    -- of a row more than one, the client only learns that there are several
    cases k with
    | zero => exact h
    | succ k =>
      rw [List.take_succ_cons]
      cases others.take k with
      | nil => exact ⟨h, n, others, hrows⟩
      | cons => exact h

theorem Closed.insertZero (h : Closed db i) (hversioned : AtVersion n (db.committed.table table))
    (hE : perform i db (.insertZero table) choice = some (answer, db')) :
    Standing table v db' i (if answer.isSuccess then .ready else .free) ∧
      RowsStep (db.committed.table table) (db'.committed.table table) [] := by
  rcases perform_cases hE with ⟨ha, -, hdb, -⟩ | ⟨ha, -, ⟨hdone, -⟩ | ⟨-, s, hs, rfl⟩⟩
  · rw [ha, if_neg Bool.false_ne_true]
    exact ⟨h.failed hdb, committed_failed hdb ▸ .same _⟩
  · cases hdone
  · obtain ⟨rows, hrows, rfl⟩ := Option.map_eq_some_iff.mp hs
    rw [h.store] at hrows
    rw [hrows] at hversioned
    rw [ha, if_pos rfl, h.written, hrows, h.store]
    refine ⟨⟨h, ?_⟩, by rw [Store.table_setTable]; exact .inserted rows⟩
    rw [Store.table_setTable]
    -- behind a row of another client the new one does not count
    cases hversioned with
    | empty => exact ⟨0, [], rfl⟩
    | row n others => exact ⟨n, _, rfl⟩

theorem Closed.begin (h : Closed db i) (hrow : ∃ n, FirstRow n (db.committed.table table))
    (hE : perform i db .begin choice = some (answer, db')) :
    Standing table v db' i (if answer.isSuccess then .begun else .ready) ∧
      RowsStep (db.committed.table table) (db'.committed.table table) [] := by
  rcases perform_cases hE with ⟨ha, -, hdb, -⟩ | ⟨ha, -, -, rfl⟩
  · rw [ha, if_neg Bool.false_ne_true, committed_failed hdb]
    exact ⟨⟨h.failed hdb, committed_failed hdb ▸ hrow⟩, .same _⟩
  · rw [ha, if_pos rfl]
    exact ⟨⟨if_pos rfl, hrow, fun w hw => absurd hw (h.2 w)⟩, .same _⟩

theorem Standing.scriptStatement {effect : σ → δ → Effect δ} {statement : σ}
    {errmsg : Option String} (h : Standing table v db i .begun)
    (hversioned : AtVersion n (db.committed.table table))
    (hstart : (effect statement (db.store i).data).isWrites = true → choice = .succeeds →
      db.writer = none → v = some (n + 1))
    (hE : performScript effect i db statement choice = some (errmsg, db')) :
    Standing table v db' i (if errmsg = none then .begun else .failed) ∧
      RowsStep (db.committed.table table) (db'.committed.table table) [] := by
  rcases performScript_cases hE with ⟨herrmsg, hdb⟩ | ⟨herrmsg, hran⟩
  · rw [if_neg herrmsg, committed_failed hdb]
    exact ⟨.failed h.2.1 h.1 hdb, .same _⟩
  rw [if_pos herrmsg]
  cases hran with
  | read => exact ⟨h, .same _⟩
  | before => exact ⟨h, .same _⟩
  | wrote d heffect hmay =>
    -- from now on the client has a copy, with the version that it compared
    have hwrites : (effect statement (db.store i).data).isWrites = true := by
      rw [heffect]
      rfl
    obtain ⟨n', hrow, hcopy, hv⟩ := h.begun_store hmay hversioned (hstart hwrites rfl)
    rw [written_inTx h.1]
    refine ⟨⟨h.1, h.2.1, fun w hw => ?_⟩, .same _⟩
    cases hw
    exact ⟨n', hrow, hcopy, hv⟩

theorem Standing.update {version : Int} (h : Standing table v db i .begun)
    (hversion : v = some version) (hversioned : AtVersion n (db.committed.table table))
    (hstart : choice = .succeeds → db.writer = none → v = some (n + 1))
    (hE : perform i db (.update table version) choice = some (answer, db')) :
    Standing table v db' i
        (if !answer.isSuccess || answer.hasMoreToFetch then .failed else .updated) ∧
      RowsStep (db.committed.table table) (db'.committed.table table) [] := by
  rcases perform_cases hE with
    ⟨ha, -, hdb, -⟩ | ⟨ha, hchoice | ⟨t, ht⟩, ⟨hdone, -⟩ | ⟨hmay, s, hs, rfl⟩⟩
  · rw [ha, Bool.not_false, Bool.true_or, if_pos rfl, committed_failed hdb]
    exact ⟨.failed h.2.1 h.1 hdb, .same _⟩
  · cases hdone
  · obtain ⟨rows, hrows, rfl⟩ := Option.map_eq_some_iff.mp hs
    obtain ⟨n', hrow, ⟨others, hcopy⟩, hv⟩ := h.begun_store hmay hversioned (hstart hchoice)
    rw [hcopy, Option.some.injEq] at hrows
    subst hrows
    -- the new version is the next one, whether the script wrote before or not
    obtain rfl : version = n' + 1 := Option.some.inj (hversion.symm.trans hv)
    rw [written_inTx h.1]
    refine ⟨?_, .same _⟩
    split
    · exact ⟨fun hc => absurd h.1 fun hin => Bool.false_ne_true (hc.symm.trans hin), n', hrow⟩
    · exact ⟨h.1, _, n', rfl, hrow, ⟨_, Store.table_setTable _ _ _⟩, hv⟩
  · cases ht
  · cases ht

theorem Standing.commit {call : ClientCall} (h : Standing table call.version? db i .updated)
    (hE : perform i db .commit choice = some (answer, db')) :
    Standing table call.version? db' i (if answer.isSuccess then .ready else .failed) ∧
      RowsStep (db.committed.table table) (db'.committed.table table)
        (if answer.isSuccess then call.version?.toList else []) := by
  obtain ⟨hin, w, n', hwriter, hrow, hcopy, hv⟩ := h
  rcases perform_cases hE with ⟨ha, -, hdb, -⟩ | ⟨ha, -, -, rfl⟩
  · rw [ha, if_neg Bool.false_ne_true, if_neg Bool.false_ne_true, committed_failed hdb]
    exact ⟨.failed ⟨n', hrow⟩ hin hdb, .same _⟩
  · -- the copy becomes the database, and its first row is one version further
    have hstore : (db.commit i).committed = w := by
      show db.store i = w
      unfold Db.store
      rw [hwriter]
      exact if_pos rfl
    obtain ⟨others, hrow⟩ := hrow
    obtain ⟨others', hcopy⟩ := hcopy
    rw [ha, if_pos rfl, if_pos rfl, hstore, hrow, hcopy, hv]
    exact ⟨⟨Closed.of_close db i, n' + 1, others', by rw [hstore, hcopy]⟩,
      .committed n' others others'⟩

theorem Standing.rollback (h : Standing table v db i .failed)
    (hE : perform i db .rollback choice = some (answer, db')) :
    Standing table v db' i .ready ∧
      RowsStep (db.committed.table table) (db'.committed.table table) [] := by
  obtain ⟨hclosed, hrow⟩ := h
  rcases perform_cases hE with ⟨-, -, hdb, hin⟩ | ⟨-, -, -, rfl⟩
  · rw [committed_failed hdb]
    exact ⟨⟨Closed.failed ⟨hin rfl, hclosed (hin rfl)⟩ hdb, committed_failed hdb ▸ hrow⟩, .same _⟩
  · exact ⟨⟨.of_close db i, hrow⟩, .same _⟩

end

/-- A statement of a transaction that writes, where the transaction sees these data. -/
def Request.writes (effect : σ → δ → Effect δ) (d : δ) : Request ι σ → Bool
  | .scriptStatement _ statement => (effect statement d).isWrites
  | .exec _ (.update _ _) => true
  | _ => false

/-- **A client's own step** leads to the next phase. -/
theorem Standing.serve {effect : σ → δ → Effect δ} {choice : Choice} {call : ClientCall}
    {q : Request ι σ} {next : Reply q → Phase} {answer : Reply q}
    (h : Standing table call.version? db i phase)
    (hq : Protocol i table call.version? phase q next)
    (hversioned : AtVersion n (db.committed.table table))
    (hstart : q.writes effect (db.store i).data = true → choice = .succeeds → db.inTx i = true →
      db.writer = none → call.version? = some (n + 1))
    (hE : serve effect choice db q = some (answer, db')) :
    Standing table call.version? db' i (next answer) ∧
      RowsStep (db.committed.table table) (db'.committed.table table) (call.commits q answer) := by
  cases hq with
  | createTable => exact Closed.createTable h hE
  | select => exact Closed.select h hversioned hE
  | insertZero => exact Closed.insertZero h hversioned hE
  | begin => exact Closed.begin h.1 h.2 hE
  | scriptStatement statement =>
    exact h.scriptStatement hversioned (fun hwrites hchoice => hstart hwrites hchoice h.1) hE
  | update version hv => exact h.update hv hversioned (fun hchoice => hstart rfl hchoice h.1) hE
  | commit => exact h.commit hE
  | rollback => exact h.rollback hE

/-! ## Runs -/

/-- The stored schema version. -/
def Deployment.version (D : Deployment ι σ δ) (sys : System ι σ δ) : Int :=
  storedVersion (sys.db.committed.table D.table)

/-- When a client's transaction starts to write, the stored version is still the one before the
    version of its call: its check was not outrun by another client. -/
def Deployment.Serial (D : Deployment ι σ δ) (sys : System ι σ δ) (i : ι) (choice : Choice) :
    Prop :=
  (sys.client i).running.question.any (Request.writes D.effect (sys.db.store i).data) = true →
    choice = .succeeds → sys.db.inTx i = true → sys.db.writer.isNone = true →
    (sys.client i).call.version? = some (D.version sys + 1)

instance (D : Deployment ι σ δ) (sys : System ι σ δ) (i : ι) (choice : Choice) :
    Decidable (D.Serial sys i choice) :=
  inferInstanceAs (Decidable (_ → _ → _ → _ → _))

structure SerialInvariant (D : Deployment ι σ δ) (sys : System ι σ δ) : Prop where
  versioned : AtVersion (D.version sys) (sys.db.committed.table D.table)
  phases : ∀ i, ∃ phase, sys.InPhase D i phase ∧
    Standing D.table (sys.client i).call.version? sys.db i phase
  ordered : sys.committed.Pairwise (· > ·)
  bounded : ∀ v ∈ sys.committed, v ≤ D.version sys

variable {D : Deployment ι σ δ} {sys sys' : System ι σ δ}

omit [DecidableEq ι] in
theorem Standing.of_outside (h : Standing table v db i phase) (hphase : phase.Outside) :
    Closed db i := by
  cases phase with
  | free => exact h
  | vacant => exact h
  | doomed => exact h
  | ready => exact h.1
  | _ => exact hphase.elim

omit [DecidableEq ι] in
/-- The committed versions stay in order, and below the stored one. -/
theorem SerialInvariant.log {log : List Int} (h : SerialInvariant D sys)
    (hrows : RowsStep (sys.db.committed.table D.table) (sys'.db.committed.table D.table) log)
    (hlog : sys'.committed = log ++ sys.committed) :
    AtVersion (D.version sys') (sys'.db.committed.table D.table) ∧
      sys'.committed.Pairwise (· > ·) ∧ (∀ v ∈ sys'.committed, v ≤ D.version sys') ∧
      D.version sys ≤ D.version sys' := by
  rcases hrows.atVersion h.versioned with ⟨rfl, hv⟩ | ⟨rfl, hv⟩
  · have hsame : D.version sys' = D.version sys := hv.storedVersion_eq
    rw [hlog, hsame]
    exact ⟨hv, h.ordered, h.bounded, Int.le_refl _⟩
  · -- the new version is above the stored one, and so above all that were committed
    have hnext : D.version sys' = D.version sys + 1 := hv.storedVersion_eq
    rw [hlog, hnext]
    refine ⟨hv, List.pairwise_cons.mpr ⟨fun v hv => ?_, h.ordered⟩, fun v hv => ?_, by omega⟩
    · have := h.bounded v hv
      omega
    · rcases List.mem_cons.mp hv with rfl | hv
      · exact Int.le_refl _
      · have := h.bounded v hv
        omega

theorem SerialInvariant.step (h : SerialInvariant D sys) (hstep : D.Step D.Serial sys sys') :
    SerialInvariant D sys' ∧ D.version sys ≤ D.version sys' := by
  obtain ⟨i, choice, hstarts, hadvance⟩ := hstep
  obtain ⟨phase, hin, hstanding⟩ := h.phases i
  obtain ⟨hothers, hcases⟩ := advance_cases hin hadvance
  rcases hcases with
    ⟨q, k, next, answer, hrunning, hq, hserve, hin', hcall, hlog⟩ | ⟨hout, hdb, hlog, hin'⟩
  · have hquestion : (sys.client i).running.question = some q := by
      rw [hrunning]
      rfl
    obtain ⟨hstanding', hrows⟩ := hstanding.serve hq h.versioned
      (fun hw hchoice hi hwriter => hstarts (by rw [hquestion]; exact hw) hchoice hi
        (by rw [hwriter]; rfl)) hserve
    obtain ⟨hversioned, hordered, hbounded, hle⟩ := h.log hrows hlog
    refine ⟨⟨hversioned, fun j => ?_, hordered, hbounded⟩, hle⟩
    -- the client of the step is in the next phase, and the others are where they were
    by_cases hj : j = i
    · subst hj
      exact ⟨_, hin', hcall ▸ hstanding'⟩
    · obtain ⟨phase', hin, hstanding⟩ := h.phases j
      refine ⟨phase', inPhase_of_client_eq (hothers j hj) hin, ?_⟩
      rw [hothers j hj]
      exact hstanding.untouched (serve_untouched hj hq hserve) hrows
  · -- the next call begins: the database is as it was
    have hversion : D.version sys' = D.version sys := by
      unfold Deployment.version
      rw [hdb]
    refine ⟨⟨?_, fun j => ?_, hlog ▸ h.ordered, ?_⟩, hversion ▸ Int.le_refl _⟩
    · rw [hversion, hdb]
      exact h.versioned
    · rw [hdb]
      by_cases hj : j = i
      · subst hj
        exact ⟨.free, hin', hstanding.of_outside hout⟩
      · obtain ⟨phase', hin, hstanding⟩ := h.phases j
        refine ⟨phase', inPhase_of_client_eq (hothers j hj) hin, ?_⟩
        rw [hothers j hj]
        exact hstanding
    · rw [hlog, hversion]
      exact h.bounded

theorem SerialInvariant.reaches (h : SerialInvariant D sys)
    (hrun : D.Reaches D.Serial sys sys') :
    SerialInvariant D sys' ∧ D.version sys ≤ D.version sys' := by
  induction hrun with
  | refl => exact ⟨h, Int.le_refl _⟩
  | tail _ hstep ih =>
    obtain ⟨h', hle⟩ := ih
    obtain ⟨h'', hle'⟩ := h'.step hstep
    exact ⟨h'', Int.le_trans hle hle'⟩

/-- **Each script once, and no version back**, in every run in which no client's check is
    outrun, whatever its script reads before it writes. -/
theorem migrations_serial (D : Deployment ι σ δ) {sys₀ : System ι σ δ} (hquiet : sys₀.Quiet)
    (hversioned : Versioned n (sys₀.db.committed.table D.table)) (hnew : sys₀.committed = [])
    (hrun : D.Reaches D.Serial sys₀ sys) :
    sys.committed.Nodup ∧
      ∀ sys', D.Reaches D.Serial sys sys' → D.version sys ≤ D.version sys' := by
  have hstart : SerialInvariant D sys₀ := by
    have hversion : D.version sys₀ = n := hversioned.storedVersion_eq
    refine ⟨by rw [hversion]; exact hversioned.atVersion, fun i => ⟨.free, hquiet.inPhase i, ?_⟩,
      by rw [hnew]; exact .nil, ?_⟩
    · refine ⟨hquiet.inTx i, fun w hw => ?_⟩
      rw [hquiet.writer] at hw
      cases hw
    · rw [hnew]
      exact nofun
  obtain ⟨h, -⟩ := hstart.reaches hrun
  exact ⟨h.ordered.imp fun hgt => Int.ne_of_gt hgt, fun sys' hrun' => (h.reaches hrun').2⟩

/-- The second client compares the version, which is 0, before the first one commits the
    versions 1 and 2, and commits version 1 after it. -/
def outrun : List (Bool × Choice) :=
  .replicate 4 (false, .succeeds) ++ .replicate 3 (true, .succeeds) ++
    .replicate 13 (false, .succeeds)

theorem migrations_twice : ∃ sys sys' : System Bool Nat (List Nat),
    plainDeployment.Reaches (fun _ _ _ => True)
      (newSystem fun i => if i then [.migrateSchema 1] else [.migrateSchema 1, .migrateSchema 2])
      sys ∧
    plainDeployment.Reaches (fun _ _ _ => True) sys sys' ∧
    plainDeployment.version sys = 2 ∧ plainDeployment.version sys' = 1 ∧
    sys'.committed = [1, 2, 1] ∧ sys'.db.committed.data = [1, 2, 1] :=
  ⟨_, _, run_reaches _ outrun rfl, run_reaches _ (.replicate 5 (true, .succeeds)) rfl,
    rfl, rfl, rfl, rfl⟩

/-- Both clients have compared the version and read in their transactions. The first one fails at
    its first write, so the second one may go on. -/
def bothRead : List (Bool × Choice) :=
  .replicate 6 (false, .succeeds) ++ .replicate 5 (true, .succeeds) ++
    [(false, .fails "database is locked" false), (false, .succeeds)] ++
    .replicate 11 (true, .succeeds)

theorem migrations_serial_twoClients : ∃ sys : System Bool Nat (List Nat),
    plainDeployment.Reaches plainDeployment.Serial
      (newSystem fun i => if i then [.migrateSchema 1, .migrateSchema 2] else [.migrateSchema 1])
      sys ∧
    sys.committed = [2, 1] ∧ sys.committed.Nodup ∧
    ∀ sys', plainDeployment.Reaches plainDeployment.Serial sys sys' →
      plainDeployment.version sys ≤ plainDeployment.version sys' := by
  have hrun := run_reaches (D := plainDeployment) (G := plainDeployment.Serial)
    (newSystem fun i =>
      if i then [.migrateSchema 1, .migrateSchema 2] else [.migrateSchema 1])
    bothRead rfl
  obtain ⟨honce, hversion⟩ := migrations_serial plainDeployment (newSystem_quiet _)
    (by exact .absent) rfl hrun
  exact ⟨_, hrun, rfl, honce, hversion⟩

end OatppSqlite.Executor
