import OatppSqlite.Executor.Components

/-!
# Migrations that are cut short

Any number of clients make calls for any number of components, any statement may fail, and any
client may be lost in the middle of a call. Nothing is assumed here about who goes first.

`Stages` is the protocol of a call as far as its transaction goes, and it keeps the statements of
the script that have run. What a client has of a transaction in a stage is `Holding`, which needs
nothing of the database but that it serves it: `calls_close`.

The statements before the first write of a transaction have only read, and where SQLite keeps
transactions isolated what they have read is still so when the transaction writes. From then on
the client's copy is ahead of the committed data by exactly the statements that have run
(`Ahead`), so a COMMIT adds a whole script, together with its version: `migrations_atomic`.
-/

set_option autoImplicit false

namespace OatppSqlite.Executor

open Sqlite

variable {κ ι σ δ : Type}

/-! ## The transaction of a call

The phases of `Protocol` in `Executor.Clients` follow the version table; these follow the
transaction, and they are coarser outside of it and finer inside. What the version table holds is
of no interest here, so CREATE TABLE, SELECT and INSERT need not be told apart. The statements of the
script are counted, because a COMMIT may come only after the last of them. -/

/-- Where a call is with its transaction; `begun` has the statements of the script that have run,
    and `failed` has a transaction to roll back. -/
inductive Stage (σ : Type) where
  | outside
  | begun (done : List σ)
  | updated
  | failed

/-- Which statement may come next, of client `c` in a call. -/
inductive Stages (C : Components κ ι σ δ) (c : ι) (job : Job κ) :
    Stage σ → (q : Request ι σ) → (Reply q → Stage σ) → Prop
  | look (q : Query) (hq : q = .createTable (C.table job.component) ∨
        q = .select (C.table job.component) ∨ q = .insertZero (C.table job.component)) :
      Stages C c job .outside (.exec c q) fun _ => .outside
  | begin : Stages C c job .outside (.exec c .begin)
      fun (answer : Answer) => if answer.isSuccess then .begun [] else .outside
  | scriptStatement (done : List σ) (statement : σ)
      (hscript : done ++ [statement] <+: C.script job) :
      Stages C c job (.begun done) (.scriptStatement c statement)
        fun (errmsg : Option String) =>
          if errmsg = none then .begun (done ++ [statement]) else .failed
  | update (version : Int) (hversion : job.call.version? = some version) :
      Stages C c job (.begun (C.script job)) (.exec c (.update (C.table job.component) version))
        fun (answer : Answer) =>
          if !answer.isSuccess || answer.hasMoreToFetch then .failed else .updated
  | commit : Stages C c job .updated (.exec c .commit)
      fun (answer : Answer) => if answer.isSuccess then .outside else .failed
  | rollback : Stages C c job .failed (.exec c .rollback) fun _ => .outside

section

variable {C : Components κ ι σ δ} {c : ι} {job : Job κ} {a : κ} {version : Int}

/-- The same statements, to the protocol of one component. -/
theorem Stages.protocol {stage : Stage σ} {q : Request ι σ} {next : Reply q → Stage σ}
    (hq : Stages C c job stage q next) :
    ∃ v phase next', Protocol c (C.table job.component) v phase q next' := by
  cases hq with
  | look q hq =>
    rcases hq with rfl | rfl | rfl
    · exact ⟨none, _, _, .createTable⟩
    · exact ⟨none, _, _, .select⟩
    · exact ⟨none, _, _, .insertZero⟩
  | begin => exact ⟨none, _, _, .begin⟩
  | scriptStatement done statement => exact ⟨none, _, _, .scriptStatement statement⟩
  | update version => exact ⟨some version, _, _, .update version rfl⟩
  | commit => exact ⟨none, _, _, .commit⟩
  | rollback => exact ⟨none, _, _, .rollback⟩

theorem getSchemaVersion_stages :
    Prog.wp (Prog.following (Stages C c job)) (fun _ stage => stage = .outside)
      (getSchemaVersion (C.suffix job.component) (some c)) .outside := by
  simp only [getSchemaVersion, exec_bind]
  -- CREATE TABLE
  refine ⟨_, .look _ (Or.inl rfl), fun answer => ?_⟩
  cases ha : Answer.isSuccess answer with
  | false =>
    simp only [ha, Bool.false_eq_true, if_false]
    rfl
  | true =>
  simp only [ha, if_true]
  -- SELECT
  refine ⟨_, .look _ (Or.inr (Or.inl rfl)), fun answer => ?_⟩
  cases ha : Answer.isSuccess answer with
  | false =>
    simp only [ha, Bool.false_eq_true, if_false]
    rfl
  | true =>
  simp only [ha, if_true]
  generalize Answer.versions answer = versions
  rcases versions with - | ⟨- | version, - | ⟨row, rows⟩⟩
  · -- no row: INSERT
    refine ⟨_, .look _ (Or.inr (Or.inr rfl)), fun answer => ?_⟩
    cases ha : Answer.isSuccess answer with
    | false =>
      simp only [ha, Bool.false_eq_true, if_false]
      rfl
    | true =>
      simp only [ha, if_true]
      rfl
  · rfl
  · rfl
  · rfl
  · rfl

/-- The rest of a script runs after what has run of it. -/
theorem sqlite3_exec_stages (done rest : List σ) (hscript : C.script job = done ++ rest) :
    Prog.wp (Prog.following (Stages C c job))
      (fun r stage => ∃ errmsg, r = .ok errmsg ∧
        stage = if errmsg = none then .begun (C.script job) else .failed)
      (sqlite3_exec c rest) (.begun done) := by
  induction rest generalizing done with
  | nil =>
    rw [List.append_nil] at hscript
    exact ⟨none, rfl, by rw [hscript]; rfl⟩
  | cons statement rest ih =>
    have hnext : C.script job = done ++ [statement] ++ rest := by
      rw [hscript, List.append_assoc, List.singleton_append]
    refine ⟨_, .scriptStatement done statement ⟨rest, hnext.symm⟩, fun errmsg => ?_⟩
    cases errmsg with
    | none => exact ih _ hnext
    | some what => exact ⟨some what, rfl, rfl⟩

theorem migrateInTransaction_stages :
    Prog.wp (Prog.following (Stages C c ⟨a, .migrateSchema version⟩))
      (fun r stage => ∃ outcome transaction, r = .ok (outcome, transaction) ∧
        ((transaction = C.transactions.closed ∧ stage = .outside) ∨
          (transaction = C.transactions.opened c ∧ stage = .failed)))
      (migrateInTransaction C.transactions (C.scripts a version) version (C.suffix a) c
        (C.transactions.opened c)) (.begun []) := by
  unfold migrateInTransaction
  refine Prog.wp_bind.mpr (Prog.wp_mono Prog.following_monotone ?_
    (sqlite3_exec_stages [] (C.scripts a version) rfl))
  rintro _ _ ⟨errmsg, rfl, rfl⟩
  cases errmsg with
  | some what => exact ⟨_, _, rfl, Or.inr ⟨rfl, rfl⟩⟩
  | none =>
  -- the whole script has run
  simp only [Prog.andThen, updateSchemaVersion, exec_bind, C.lawful.commit_eq, commit,
    Prog.ask_bind_eq, Prog.pure_bind_eq, if_true]
  refine ⟨_, .update version rfl, fun answer => ?_⟩
  dsimp only
  split
  · exact ⟨_, _, rfl, Or.inr ⟨rfl, rfl⟩⟩
  refine ⟨_, .commit, fun answer => ?_⟩
  cases ha : Answer.isSuccess answer with
  | false =>
    simp only [ha, Bool.not_false, if_true, Bool.false_eq_true, if_false]
    exact ⟨_, _, rfl, Or.inr ⟨rfl, rfl⟩⟩
  | true =>
    simp only [ha, Bool.not_true, Bool.false_eq_true, if_false, if_true]
    exact ⟨_, _, rfl, Or.inl ⟨rfl, rfl⟩⟩

/-- **The programs keep to the stages.** -/
theorem program_stages (C : Components κ ι σ δ) (c : ι) (job : Job κ) :
    Prog.wp (Prog.following (Stages C c job)) (fun _ stage => stage = .outside)
      (job.call.program (C.deployment job.component) c) .outside := by
  obtain ⟨a, call⟩ := job
  cases call with
  | getSchemaVersion =>
    refine Prog.wp_bind.mpr (Prog.wp_mono Prog.following_monotone ?_ getSchemaVersion_stages)
    rintro (what | version) stage rfl
    · rfl
    · rfl
  | migrateSchema version =>
    show Prog.wp _ _ (migrateSchema C.transactions (some (C.scripts a version)) version (C.suffix a)
      (some c)) _
    refine Prog.wp_bind.mpr (Prog.wp_mono Prog.following_monotone ?_ getSchemaVersion_stages)
    rintro (what | currVersion) stage rfl
    · rfl
    show Prog.wp _ _ (if version ≤ currVersion then pure () else _) _
    split
    · -- the version is there already
      rfl
    split
    · -- it is not the next one
      rfl
    obtain ⟨what, -, hconstruct⟩ := C.lawful.construct_eq
    simp only [hconstruct, begin, exec_bind, Prog.ask_bind_eq]
    refine ⟨_, .begin, fun answer => ?_⟩
    cases ha : Answer.isSuccess answer with
    | false =>
      simp only [ha, Bool.false_eq_true, if_false]
      rfl
    | true =>
    simp only [ha, if_true, Prog.pure_bind_eq]
    refine Prog.wp_bind.mpr (Prog.wp_mono Prog.following_monotone ?_ migrateInTransaction_stages)
    rintro _ stage ⟨outcome, transaction, rfl, ⟨rfl, rfl⟩ | ⟨rfl, rfl⟩⟩
    · simp only [Prog.andThen, C.lawful.destroy_closed, Prog.pure_bind_eq]
      cases outcome with
      | ok _ => rfl
      | error what => rfl
    · -- the destructor of a transaction that is still open rolls it back
      simp only [Prog.andThen, C.lawful.destroy_opened, rollback, exec_bind, Prog.ask_bind_eq,
        Prog.pure_bind_eq]
      refine ⟨_, .rollback, fun _ => ?_⟩
      cases outcome with
      | ok _ => rfl
      | error what => rfl

end

/-! ## What a client has of a transaction

SQLite may end a transaction by itself when a statement fails in it, so a client that has failed may
be outside already; its ROLLBACK then fails, which changes nothing. What must not happen is that it
keeps a copy while it is outside. -/

/-- No transaction outside of it, and one in it; a transaction that failed may be over, and has no
    copy then. -/
def Holding (db : Db ι δ) (c : ι) : Stage σ → Prop
  | .outside => Closed db c
  | .begun _ | .updated => db.inTx c = true
  | .failed => db.inTx c = false → db.NotWriter c

section

variable {C : Components κ ι σ δ} {c j : ι} {job : Job κ} {stage : Stage σ} {db db' : Db ι δ}

/-- Another client's step leaves it. -/
theorem Holding.untouched (h : Holding db j stage) (hd : Untouched j db db') :
    Holding db' j stage := by
  cases stage with
  | outside => exact hd.closed h
  | begun done => exact hd.inTx.trans h
  | updated => exact hd.inTx.trans h
  | failed => exact fun hin s hs => h (hd.inTx.symm.trans hin) s ((hd.writer s).mp hs)

variable [DecidableEq ι] {choice : Choice}

theorem Holding.of_failed (hin : db.inTx c = true) (hdb : db' = db ∨ db' = db.close c) :
    Holding (σ := σ) db' c .failed := by
  rcases hdb with rfl | rfl
  · exact fun hout => absurd (hout.symm.trans hin) Bool.false_ne_true
  · exact fun _ => close_notWriter db c

theorem Holding.scriptStatement {done : List σ} {statement : σ} {errmsg : Option String}
    (h : db.inTx c = true)
    (hE : Sqlite.performScript C.effect c db statement choice = some (errmsg, db')) :
    Holding db' c (if errmsg = none then .begun (done ++ [statement]) else .failed) := by
  rcases performScript_cases hE with ⟨herrmsg, hdb⟩ | ⟨rfl, hran⟩
  · rw [if_neg herrmsg]
    exact .of_failed h hdb
  rw [if_pos rfl]
  cases hran with
  | read => exact h
  | before => exact h
  | wrote => exact (congrFun (Db.inTx_written db c _) c).trans h

/-- **A client's own step** leads to what it has in its next stage. -/
theorem Holding.serve {q : Request ι σ} {next : Reply q → Stage σ} {answer : Reply q}
    (h : Holding db c stage) (hq : Stages C c job stage q next)
    (hE : serve C.effect choice db q = some (answer, db')) : Holding db' c (next answer) := by
  cases hq with
  | look q hq =>
    apply Closed.perform h hE
    rintro rfl
    rcases hq with hq | hq | hq <;> cases hq
  | begin =>
    show Holding db' c (if Answer.isSuccess answer then .begun [] else .outside)
    rcases perform_cases hE with ⟨ha, -, hdb, -⟩ | ⟨ha, -, -, rfl⟩
    · rw [ha, if_neg Bool.false_ne_true]
      exact Closed.failed h hdb
    · rw [ha, if_pos rfl]
      exact if_pos rfl
  | scriptStatement done statement hscript => exact Holding.scriptStatement h hE
  | update version hversion =>
    show Holding db' c (if !Answer.isSuccess answer || Answer.hasMoreToFetch answer then _ else _)
    rcases perform_cases hE with ⟨ha, -, hdb, -⟩ | ⟨-, -, ⟨hdone, -⟩ | ⟨-, s, hs, rfl⟩⟩
    · rw [ha, Bool.not_false, Bool.true_or, if_pos rfl]
      exact .of_failed h hdb
    · cases hdone
    · have hin : (db.written c s).inTx c = true := (congrFun (Db.inTx_written db c s) c).trans h
      split
      · exact .of_failed hin (Or.inl rfl)
      · exact hin
  | commit =>
    show Holding db' c (if Answer.isSuccess answer then .outside else .failed)
    rcases perform_cases hE with ⟨ha, -, hdb, -⟩ | ⟨ha, -, -, rfl⟩
    · rw [ha, if_neg Bool.false_ne_true]
      exact .of_failed h hdb
    · rw [ha, if_pos rfl]
      exact Closed.of_close db c
  | rollback =>
    rcases perform_cases hE with ⟨-, -, hdb, hin⟩ | ⟨-, -, -, rfl⟩
    · exact Closed.failed ⟨hin rfl, h (hin rfl)⟩ hdb
    · exact Closed.of_close db c

end

/-- What the clients have of their transactions. -/
def holdingOutline (C : Components κ ι σ δ) :
    Threads.Outline (Request ι σ) Reply ι (Job κ) (Shared κ ι σ δ) (Stage σ) where
  Asks := Stages C
  start := .outside
  AtRest stage := stage = .outside
  Shared _ := True
  Stands c _ stage s := Holding s.db c stage

theorem holdingOutline_valid [DecidableEq ι] (C : Components κ ι σ δ) (G : Guard κ ι σ δ) :
    (holdingOutline C).Valid (C.threads G) where
  start_atRest := rfl
  follows := program_stages C
  answer := by
    rintro i job stage q next s answer s' hq - hstands ⟨choice, db', -, hserve, rfl⟩
    exact ⟨trivial, Holding.serve hstands hq hserve⟩
  apart := by
    rintro i job stage q next s answer s' j job' stage' hj hq - - ⟨choice, db', -, hserve, rfl⟩
      hstands
    obtain ⟨v, phase, next', hprotocol⟩ := hq.protocol
    exact Holding.untouched hstands (serve_untouched hj hprotocol hserve)
  atRest := by
    rintro i job job' stage s rfl hstands
    exact hstands
  lost := fun _ _ => ⟨trivial, Closed.of_close _ _⟩
  lost_apart := fun hj hstands => Holding.untouched hstands (.close hj _)

/-! ## How far a transaction is ahead

The copy of a transaction is compared with the committed data of now and not with those of the time
it began, since a COMMIT replaces them by the copy. Nobody else can commit while there is a copy, so
the two comparisons differ only before the first write. -/

/-- The copy of a transaction is the committed data with the statements `done`, if it has one. -/
def Ahead (effect : σ → δ → Effect δ) (done : List σ) (db : Db ι δ) (c : ι) : Prop :=
  ∀ w, db.writer = some (c, w) → applyScript effect done db.committed.data = some w.data

/-- Every row of the version table has this version. -/
def AllRows (table : Text) (version : Int) (s : Store δ) : Prop :=
  ∀ rows, s.table table = some rows → ∀ row ∈ rows, row = some version

/-- What a client relies on in a stage of its call, if it is to commit a whole script. -/
def Transacting (C : Components κ ι σ δ) (c : ι) (job : Job κ) (s : Shared κ ι σ δ) :
    Stage σ → Prop
  | .begun done => s.ran c = done ∧ Ahead C.effect done s.db c
  | .updated => ∃ w version, s.db.writer = some (c, w) ∧ job.call.version? = some version ∧
      applyScript C.effect (C.script job) s.db.committed.data = some w.data ∧
      AllRows (C.table job.component) version w
  | .outside | .failed => True

/-- What a statement of a call does to the committed store: nothing but new rows of version 0, or
    all of the migration. -/
inductive Recorded (C : Components κ ι σ δ) (job : Job κ) (s s' : Store δ) : List Int → Prop
  | kept (hdata : s'.data = s.data)
      (hrows : ∀ rows', s'.table (C.table job.component) = some rows' → ∀ row ∈ rows',
        row = some 0 ∨ ∃ rows, s.table (C.table job.component) = some rows ∧ row ∈ rows) :
      Recorded C job s s' []
  | migrated (version : Int) (hversion : job.call.version? = some version)
      (hscript : applyScript C.effect (C.script job) s.data = some s'.data)
      (hrows : AllRows (C.table job.component) version s') :
      Recorded C job s s' [version]

section

variable {C : Components κ ι σ δ} {c j : ι} {job : Job κ} {stage : Stage σ} {db db' : Db ι δ}
  {s s' w : Store δ} {done : List σ} {version : Int} {effect : σ → δ → Effect δ} {d d' d'' : δ}

theorem Recorded.same (C : Components κ ι σ δ) (job : Job κ) (s : Store δ) :
    Recorded C job s s [] :=
  .kept rfl fun rows hrows _ hrow => Or.inr ⟨rows, hrows, hrow⟩

/-- The table has these rows now, which were there before or are new. -/
theorem Recorded.setTable {rows' : List (Option Int)}
    (h : ∀ row ∈ rows', row = some 0 ∨
      ∃ rows, s.table (C.table job.component) = some rows ∧ row ∈ rows) :
    Recorded C job s (s.setTable (C.table job.component) rows') [] := by
  refine .kept rfl fun rows hrows row hrow => ?_
  rw [Store.table_setTable, Option.some.injEq] at hrows
  subst hrows
  exact h row hrow

theorem applyScript_snoc {statement : σ} (h : applyScript effect done d = some d')
    (hstatement : (effect statement d').after d' = some d'') :
    applyScript effect (done ++ [statement]) d = some d'' := by
  unfold applyScript at h ⊢
  rw [List.foldlM_append, h]
  simpa using hstatement

/-- Statements that only read leave the data as they are. -/
theorem applyScript_reads (h : ∀ statement ∈ done, (effect statement d).isReads = true) :
    applyScript effect done d = some d := by
  induction done with
  | nil => rfl
  | cons statement done ih =>
    have hread : effect statement d = .reads := Effect.isReads_iff.mp (h _ List.mem_cons_self)
    unfold applyScript
    rw [List.foldlM_cons, hread]
    exact ih fun statement' hmem => h statement' (List.mem_cons_of_mem _ hmem)

theorem Ahead.of_notWriter (h : db.NotWriter c) : Ahead effect done db c :=
  fun w hw => absurd hw (h w)

theorem Ahead.untouched (h : Ahead effect done db j) (hd : Untouched j db db') :
    Ahead effect done db' j := by
  intro w hw
  have hwriter := (hd.writer w).mp hw
  rw [hd.committed w hwriter]
  exact h w hwriter

/-- **Another client's step** leaves a client what it relies on. -/
theorem Transacting.untouched {s s' : Shared κ ι σ δ} (h : Transacting C j job s stage)
    (hd : Untouched j s.db s'.db) (hran : s'.ran j = s.ran j) : Transacting C j job s' stage := by
  cases stage with
  | outside => trivial
  | begun done => exact ⟨hran.trans h.1, h.2.untouched hd⟩
  | updated =>
    obtain ⟨w, version, hwriter, hversion, hscript, hrows⟩ := h
    refine ⟨w, version, (hd.writer w).mpr hwriter, hversion, ?_, hrows⟩
    rwa [hd.committed w hwriter]
  | failed => trivial

variable [DecidableEq ι]

/-- **What a transaction sees when it writes**: the committed data with what has run of the script.
    At its first write that has only read, and reads the same now. -/
theorem Ahead.store (h : Ahead effect done db c) (hmay : db.mayWrite c = true)
    (hreads : db.writer = none →
      ∀ statement ∈ done, (effect statement db.committed.data).isReads = true) :
    applyScript effect done db.committed.data = some (db.store c).data := by
  unfold Db.store
  cases hwriter : db.writer with
  | none => exact applyScript_reads (hreads hwriter)
  | some writer =>
    obtain ⟨j, w⟩ := writer
    unfold Db.mayWrite at hmay
    rw [hwriter] at hmay
    obtain rfl : j = c := by simpa using hmay
    dsimp only
    rw [if_pos rfl]
    exact h w hwriter

/-- A statement that only reads adds nothing. -/
theorem Ahead.read {statement : σ} (h : Ahead effect done db c)
    (hread : effect statement (db.store c).data = .reads) :
    Ahead effect (done ++ [statement]) db c := by
  intro w hw
  have hstore : db.store c = w := by
    unfold Db.store
    rw [hw]
    exact if_pos rfl
  rw [hstore] at hread
  refine applyScript_snoc (h w hw) ?_
  rw [hread]
  rfl

/-- A statement that failed has recorded nothing. -/
theorem Recorded.failed (C : Components κ ι σ δ) (job : Job κ)
    (hdb : db' = db ∨ db' = db.close c) : Recorded C job db.committed db'.committed [] := by
  rw [committed_failed hdb]
  exact .same C job _

/-! ## A client's own step

Only the COMMIT of a migration adds anything. CREATE TABLE and INSERT run outside of a transaction
and take effect at once, but all they make are rows of version 0; the script and the UPDATE stay in
the copy. -/

variable {choice : Choice} {q : Query} {answer : Answer}

/-- Outside a transaction: CREATE TABLE, SELECT and INSERT. -/
theorem Closed.look (h : Closed db c)
    (hq : q = .createTable (C.table job.component) ∨ q = .select (C.table job.component) ∨
      q = .insertZero (C.table job.component))
    (hE : Sqlite.perform c db q choice = some (answer, db')) :
    Recorded C job db.committed db'.committed [] := by
  rcases perform_cases hE with ⟨-, -, hdb, -⟩ | ⟨-, -, hdone⟩
  · exact .failed C job hdb
  rcases hq with rfl | rfl | rfl
  · rcases hdone with ⟨-, rfl⟩ | ⟨-, s, hs, rfl⟩
    · -- the table exists
      exact .same C job _
    · rw [h.store] at hs
      rw [h.written]
      cases htable : db.committed.table (C.table job.component) with
      | some rows =>
        simp only [Query.write, htable] at hs
        cases hs
      | none =>
        simp only [Query.write, htable] at hs
        cases hs
        exact .setTable fun row hrow => absurd hrow List.not_mem_nil
  · obtain ⟨rfl, -⟩ := hdone
    exact .same C job _
  · rcases hdone with ⟨hdone, -⟩ | ⟨-, s, hs, rfl⟩
    · cases hdone
    · rw [h.store] at hs
      rw [h.written]
      obtain ⟨rows, hrows, rfl⟩ := Option.map_eq_some_iff.mp hs
      refine .setTable fun row hrow => ?_
      rcases List.mem_append.mp hrow with hrow | hrow
      · exact Or.inr ⟨rows, hrows, hrow⟩
      · exact Or.inl (List.mem_singleton.mp hrow)

/-- What a client's own step comes to: what it records, and what the client relies on next. -/
def Leads (C : Components κ ι σ δ) (c : ι) (job : Job κ) (s s' : Shared κ ι σ δ)
    (versions : List Int) (stage : Stage σ) : Prop :=
  Recorded C job s.db.committed s'.db.committed versions ∧ Transacting C c job s' stage

variable {sh : Shared κ ι σ δ}

theorem Transacting.begins (hclosed : Closed sh.db c)
    (hE : Sqlite.perform c sh.db .begin choice = some (answer, db')) :
    Leads C c job sh (sh.answered job (.exec c .begin) answer db') []
      (if answer.isSuccess then .begun [] else .outside) := by
  rcases perform_cases hE with ⟨ha, -, hdb, -⟩ | ⟨ha, -, -, rfl⟩
  · rw [ha, if_neg Bool.false_ne_true]
    exact ⟨.failed C job hdb, trivial⟩
  · rw [ha, if_pos rfl]
    exact ⟨.same C job _, Function.update_self _ _ _, .of_notWriter hclosed.2⟩

theorem Transacting.scriptStatement {statement : σ} {errmsg : Option String}
    (h : Transacting C c job sh (.begun done)) (hin : sh.db.inTx c = true)
    (hisolated : C.isolated c job sh (.scriptStatement c statement) choice)
    (hE : Sqlite.performScript C.effect c sh.db statement choice = some (errmsg, db')) :
    Leads C c job sh (sh.answered job (.scriptStatement c statement) errmsg db') []
      (if errmsg = none then .begun (done ++ [statement]) else .failed) := by
  obtain ⟨rfl, hahead⟩ := h
  rcases performScript_cases hE with ⟨herrmsg, hdb⟩ | ⟨rfl, hran⟩
  · rw [if_neg herrmsg]
    exact ⟨.failed C job hdb, trivial⟩
  rw [if_pos rfl]
  have hdone : (sh.answered job (.scriptStatement c statement) (none : Option String) db').ran c
      = sh.ran c ++ [statement] := Function.update_self _ _ _
  cases hran with
  | read heffect => exact ⟨.same C job _, hdone, hahead.read heffect⟩
  | before hnot => exact ⟨.same C job _, hdone, .of_notWriter hnot⟩
  | wrote d heffect hmay =>
    have hwrites : Request.writes C.effect (sh.db.store c).data
        (.scriptStatement c statement : Request ι σ) = true := by
      show (C.effect statement (sh.db.store c).data).isWrites = true
      rw [heffect]
      rfl
    have hstore := hahead.store hmay fun hnone =>
      hisolated hwrites rfl hin (by rw [hnone]; rfl)
    refine ⟨?_, hdone, fun w hw => ?_⟩
    · show Recorded C job sh.db.committed (sh.db.written c _).committed []
      rw [written_inTx hin]
      exact .same C job _
    · change (sh.db.written c _).writer = _ at hw
      show applyScript _ _ (sh.db.written c _).committed.data = _
      rw [written_inTx hin] at hw ⊢
      cases hw
      refine applyScript_snoc hstore ?_
      rw [heffect]
      rfl

theorem Transacting.update (h : Transacting C c job sh (.begun (C.script job)))
    (hin : sh.db.inTx c = true)
    (hisolated : C.isolated c job sh (.exec c (.update (C.table job.component) version)) choice)
    (hversion : job.call.version? = some version)
    (hE : Sqlite.perform c sh.db (.update (C.table job.component) version) choice
      = some (answer, db')) :
    Leads C c job sh
      (sh.answered job (.exec c (.update (C.table job.component) version)) answer db') []
      (if !answer.isSuccess || answer.hasMoreToFetch then .failed else .updated) := by
  obtain ⟨hran, hahead⟩ := h
  rcases perform_cases hE with
    ⟨ha, -, hdb, -⟩ | ⟨-, hchoice | ⟨t, ht⟩, ⟨hdone, -⟩ | ⟨hmay, s, hs, rfl⟩⟩
  · rw [ha, Bool.not_false, Bool.true_or, if_pos rfl]
    exact ⟨.failed C job hdb, trivial⟩
  · cases hdone
  · obtain ⟨rows, hrows, rfl⟩ := Option.map_eq_some_iff.mp hs
    have hstore := hahead.store hmay fun hnone statement hmem =>
      hisolated rfl hchoice hin (by rw [hnone]; rfl) statement (by rwa [hran])
    rw [written_inTx hin]
    refine ⟨.same C job _, ?_⟩
    split
    · trivial
    · -- an UPDATE without a WHERE, so all rows are of this version
      refine ⟨_, version, rfl, hversion, hstore, fun rows' hrows' row hrow => ?_⟩
      rw [Store.table_setTable, Option.some.injEq] at hrows'
      subst hrows'
      obtain ⟨-, -, rfl⟩ := List.mem_map.mp hrow
      rfl
  · cases ht
  · cases ht

theorem Transacting.commit (h : Transacting C c job sh .updated)
    (hE : Sqlite.perform c sh.db .commit choice = some (answer, db')) :
    Leads C c job sh (sh.answered job (.exec c .commit) answer db')
      (if answer.isSuccess then job.call.version?.toList else [])
      (if answer.isSuccess then .outside else .failed) := by
  obtain ⟨w, version, hwriter, hversion, hscript, hrows⟩ := h
  rcases perform_cases hE with ⟨ha, -, hdb, -⟩ | ⟨ha, -, -, rfl⟩
  · rw [ha, if_neg Bool.false_ne_true, if_neg Bool.false_ne_true]
    exact ⟨.failed C job hdb, trivial⟩
  · have hstore : (sh.db.commit c).committed = w := by
      show sh.db.store c = w
      unfold Db.store
      rw [hwriter]
      exact if_pos rfl
    rw [ha, if_pos rfl, if_pos rfl, hversion]
    refine ⟨?_, trivial⟩
    show Recorded C job sh.db.committed (sh.db.commit c).committed [version]
    rw [hstore]
    exact .migrated version hversion hscript hrows

/-- **A client's own step** leads to its next stage, and only its COMMIT migrates. -/
theorem Transacting.serve {q : Request ι σ} {next : Reply q → Stage σ} {answer : Reply q}
    (h : Transacting C c job sh stage) (hholding : Holding sh.db c stage)
    (hq : Stages C c job stage q next) (hisolated : C.isolated c job sh q choice)
    (hE : serve C.effect choice sh.db q = some (answer, db')) :
    Leads C c job sh (sh.answered job q answer db') (job.call.commits q answer) (next answer) := by
  cases hq with
  | look q hq =>
    have hcommits : job.call.commits (Request.exec c q : Request ι σ) answer = [] := by
      rcases hq with rfl | rfl | rfl
      · rfl
      · rfl
      · rfl
    rw [hcommits]
    exact ⟨Closed.look hholding hq hE, trivial⟩
  | begin => exact Transacting.begins hholding hE
  | scriptStatement done statement hscript => exact h.scriptStatement hholding hisolated hE
  | update version hversion => exact h.update hholding hisolated hversion hE
  | commit => exact h.commit hE
  | rollback =>
    refine ⟨?_, trivial⟩
    rcases perform_cases hE with ⟨-, -, hdb, -⟩ | ⟨-, -, -, rfl⟩
    · exact .failed C job hdb
    · exact .same C job _

end

/-! ## What is committed

`Whole` compares the committed store with the one of the beginning: the scripts of the migrations
since then make the data out of its data, in the order of their COMMITs, and the rows of each table
are those that its own migrations leave. -/

/-- Whole scripts, one after the other. -/
def Components.applyMigrations (C : Components κ ι σ δ) (migrations : List (κ × Int)) (d : δ) :
    Option δ :=
  migrations.foldlM (fun d m => applyScript C.effect (C.scripts m.1 m.2) d) d

theorem Components.applyMigrations_snoc {C : Components κ ι σ δ} {added : List (κ × Int)}
    {m : κ × Int} {d d' d'' : δ} (h : C.applyMigrations added.reverse d = some d')
    (hscript : applyScript C.effect (C.scripts m.1 m.2) d' = some d'') :
    C.applyMigrations (m :: added).reverse d = some d'' := by
  unfold Components.applyMigrations at h ⊢
  rw [List.reverse_cons, List.foldlM_append, h]
  simpa using hscript

/-- The rows that a version table may have after these migrations, the last one first: of a new
    table, of the last migration, or from before the first one. -/
def versionRows (rows : List (Option Int)) : List Int → List (Option Int)
  | [] => some 0 :: rows
  | version :: _ => [some 0, some version]

section

variable [DecidableEq κ]

/-- The migrations of a component. -/
def versionsOf (a : κ) (migrations : List (κ × Int)) : List Int :=
  (migrations.filter fun m => m.1 = a).map Prod.snd

theorem versionsOf_cons_self (a : κ) (version : Int) (added : List (κ × Int)) :
    versionsOf a ((a, version) :: added) = version :: versionsOf a added := by
  simp [versionsOf]

theorem versionsOf_cons_of_ne {a b : κ} (hab : a ≠ b) (version : Int) (added : List (κ × Int)) :
    versionsOf a ((b, version) :: added) = versionsOf a added := by
  simp [versionsOf, Ne.symm hab]

/-- The committed store has the whole scripts of the migrations that were committed since `s₀`,
    and of no other, and their versions. -/
structure Whole (C : Components κ ι σ δ) (s₀ : Store δ) (added : List (κ × Int)) (s : Store δ) :
    Prop where
  data : C.applyMigrations added.reverse s₀.data = some s.data
  rows : ∀ a rows, s.table (C.table a) = some rows → ∀ row ∈ rows,
    row ∈ versionRows ((s₀.table (C.table a)).getD []) (versionsOf a added)

variable {C : Components κ ι σ δ} {s s' s₀ : Store δ} {added : List (κ × Int)} {job : Job κ}
  {versions : List Int}

theorem Whole.start (C : Components κ ι σ δ) (s : Store δ) : Whole C s [] s where
  data := rfl
  rows a rows hrows row hrow := by
    rw [hrows]
    exact List.mem_cons_of_mem _ hrow

omit [DecidableEq κ] in
theorem zero_mem_versionRows (rows : List (Option Int)) (versions : List Int) :
    some 0 ∈ versionRows rows versions := by
  cases versions with
  | nil => exact List.mem_cons_self
  | cons version versions => exact List.mem_cons_self

/-- **One more step** that a client records, and that leaves the other tables alone. -/
theorem Whole.recorded (hC : C.Apart) (h : Whole C s₀ added s)
    (hrecorded : Recorded C job s s' versions) (hframe : SameBut (C.table job.component) s s') :
    Whole C s₀ ((versions.map fun version => (job.component, version)) ++ added) s' := by
  cases hrecorded with
  | kept hdata hrows =>
    refine ⟨h.data.trans (congrArg some hdata.symm), fun a rows hrows' row hrow => ?_⟩
    by_cases ha : a = job.component
    · subst ha
      rcases hrows rows hrows' row hrow with rfl | ⟨rows, hbefore, hrow⟩
      · exact zero_mem_versionRows _ _
      · exact h.rows _ rows hbefore row hrow
    · rw [hframe _ (hC.table_ne ha)] at hrows'
      exact h.rows a rows hrows' row hrow
  | migrated version hversion hscript hrows =>
    constructor
    · refine C.applyMigrations_snoc (m := (job.component, version)) h.data ?_
      obtain ⟨a, call⟩ := job
      cases call with
      | getSchemaVersion => cases hversion
      | migrateSchema newVersion =>
        cases hversion
        exact hscript
    · intro a rows hrows' row hrow
      show row ∈ versionRows _ (versionsOf a ((job.component, version) :: added))
      by_cases ha : a = job.component
      · subst ha
        rw [versionsOf_cons_self, hrows rows hrows' row hrow]
        exact List.mem_cons_of_mem _ List.mem_cons_self
      · rw [versionsOf_cons_of_ne ha]
        rw [hframe _ (hC.table_ne ha)] at hrows'
        exact h.rows a rows hrows' row hrow

end

/-! ## Runs -/

variable [DecidableEq ι] {C : Components κ ι σ δ} {G : Guard κ ι σ δ} {w w₀ : Clients κ ι σ δ}
  {moves : List (ι × Threads.Move (Job κ))}

/-- In every state of every run nothing is open of a client that is between two calls. -/
theorem run_closed (hrest : Resting w₀) (hrun : (C.threads G).Run w₀ moves w) (i : ι)
    (hended : (w.thread i).running.question = none) : Closed w.shared.db i := by
  have hvalid := holdingOutline_valid C G
  have hstart : (holdingOutline C).Met w₀ :=
    hvalid.met trivial hrest.ended fun i => hrest.closed i
  have hclosed := hvalid.rests (hvalid.run hstart hrun) hended (w.thread i).job
  exact hclosed

variable [DecidableEq κ]

/-- What the clients rely on, and what holds of the committed store since `s₀`. -/
def transactionOutline (C : Components κ ι σ δ) (s₀ : Shared κ ι σ δ) :
    Threads.Outline (Request ι σ) Reply ι (Job κ) (Shared κ ι σ δ) (Stage σ) where
  Asks := Stages C
  start := .outside
  AtRest stage := stage = .outside
  Shared s := ∃ added, s.committed = added ++ s₀.committed ∧
    Whole C s₀.db.committed added s.db.committed
  Stands c job stage s :=
    Holding s.db c stage ∧ Transacting C c job s stage ∧ OwnTable (C.table job.component) s.db c

omit [DecidableEq κ] in
/-- Only a client's own answers count as run in its transaction. -/
theorem Stages.ran_eq {i j : ι} {job : Job κ} {stage : Stage σ} {q : Request ι σ}
    {next : Reply q → Stage σ} (hq : Stages C i job stage q next) (hj : j ≠ i) (ran : ι → List σ)
    (answer : Reply q) : ranAfter ran q answer j = ran j := by
  cases hq with
  | look q hq => rcases hq with rfl | rfl | rfl <;> rfl
  | begin => exact Function.update_of_ne hj _ _
  | scriptStatement done statement hscript =>
    cases answer with
    | none => exact Function.update_of_ne hj _ _
    | some what => rfl
  | update => rfl
  | commit => rfl
  | rollback => rfl

theorem transactionOutline_valid (hC : C.Apart) (s₀ : Shared κ ι σ δ) :
    (transactionOutline C s₀).Valid (C.threads C.isolated) where
  start_atRest := rfl
  follows := program_stages C
  answer := by
    rintro i job stage q next s answer s' hq ⟨added, hadded, hwhole⟩ ⟨hholding, hstands, hown⟩
      ⟨choice, db', hisolated, hserve, rfl⟩
    obtain ⟨v, phase, next', hprotocol⟩ := hq.protocol
    obtain ⟨hrecorded, hnext⟩ := hstands.serve hholding hq hisolated hserve
    obtain ⟨hframe, hown'⟩ := serve_frame hprotocol hown hserve
    refine ⟨⟨_, ?_, hwhole.recorded hC hrecorded hframe⟩, hholding.serve hq hserve, hnext, hown'⟩
    show _ ++ s.committed = _
    rw [hadded, List.append_assoc]
    rfl
  apart := by
    rintro i job stage q next s answer s' j job' stage' hj hq - - ⟨choice, db', -, hserve, rfl⟩
      ⟨hholding, hstands, hown⟩
    obtain ⟨v, phase, next', hprotocol⟩ := hq.protocol
    have huntouched := serve_untouched hj hprotocol hserve
    exact ⟨hholding.untouched huntouched,
      hstands.untouched huntouched (hq.ran_eq hj s.ran answer), hown.untouched huntouched⟩
  atRest := by
    rintro i job job' stage s rfl ⟨hholding, -, -⟩
    exact ⟨hholding, trivial, Closed.ownTable hholding⟩
  lost := fun hshared _ =>
    ⟨hshared, Closed.of_close _ _, trivial, (Closed.of_close _ _).ownTable⟩
  lost_apart := fun hj ⟨hholding, hstands, hown⟩ =>
    ⟨hholding.untouched (.close hj _), hstands.untouched (.close hj _) rfl,
      hown.untouched (.close hj _)⟩

/-- Every state of a run has the whole scripts of what was committed since the start. -/
theorem run_whole (hC : C.Apart) (hrest : Resting w₀)
    (hrun : (C.threads C.isolated).Run w₀ moves w) :
    ∃ added, w.shared.committed = added ++ w₀.shared.committed ∧
      Whole C w₀.shared.db.committed added w.shared.db.committed := by
  have hvalid := transactionOutline_valid hC w₀.shared
  have hstart : (transactionOutline C w₀.shared).Met w₀ :=
    hvalid.met ⟨[], rfl, .start C _⟩ hrest.ended
      fun i => ⟨hrest.closed i, trivial, (hrest.closed i).ownTable⟩
  exact (hvalid.run hstart hrun).shared

/-- **Whole scripts, with their versions.** In every state of every run, whoever is lost and
    whatever fails, the committed data are those of the start with the whole scripts of the
    committed migrations, in the order of their commits; and a row of a component's version table
    is new, or has the version of its last migration, or is from before the first one. -/
theorem migrations_atomic (C : Components κ ι σ δ) (hC : C.Apart) (hrest : Resting w₀)
    (hrun : (C.threads C.isolated).Run w₀ moves w) :
    ∃ added, w.shared.committed = added ++ w₀.shared.committed ∧
      C.applyMigrations added.reverse w₀.shared.db.committed.data
        = some w.shared.db.committed.data ∧
      ∀ a rows, w.shared.db.committed.table (C.table a) = some rows → ∀ row ∈ rows,
        row ∈ versionRows ((w₀.shared.db.committed.table (C.table a)).getD [])
          (versionsOf a added) := by
  obtain ⟨added, hadded, hwhole⟩ := run_whole hC hrest hrun
  exact ⟨added, hadded, hwhole.data, hwhole.rows⟩

/-- The first client has read in its transaction when the second one migrates the same component,
    and is lost between its script and its UPDATE. -/
def lostClient : List (Bool × Act Bool) :=
  wholeCall false true 1 5 ++ wholeCall true true 1 7 ++
    [(false, .choose .succeeds), (false, .lose ⟨true, .getSchemaVersion⟩)]

theorem migrations_atomic_lostClient :
    ∃ (w : Clients Bool Bool Nat (List Nat)) (added : List (Bool × Int)),
      w.shared.committed = [(true, 1)] ∧ w.shared.db.committed.data = [11] ∧
      w.shared.committed = added ++ [] ∧
      plainComponents.applyMigrations added.reverse [] = some w.shared.db.committed.data := by
  obtain ⟨moves, hrun⟩ := schedule_run (C := plainComponents) (G := plainComponents.isolated)
    newClients lostClient rfl
  obtain ⟨added, hadded, hdata, -⟩ := migrations_atomic plainComponents plainComponents_apart
    newClients_resting hrun
  exact ⟨_, added, rfl, rfl, hadded, hdata⟩

end OatppSqlite.Executor
