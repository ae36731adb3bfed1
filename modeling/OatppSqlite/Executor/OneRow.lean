import OatppSqlite.Executor.Clients

/-!
# One version row

`getSchemaVersion` inserts the row of the version table after it has seen that there is none. Two
clients may both have seen that, and then there are two rows, for good: `versionTable_twoRows`.
`versionTable_oneRow` is what holds of every run in which no INSERT succeeds but into an empty
table.

Rows come into the table in one way only, by that INSERT. CREATE TABLE makes a table without rows,
UPDATE gives the rows that are there another version, and a COMMIT brings the rows of a copy. So
the invariant is about the committed table and the copy alike (`OneRow`), and one lemma says of
every statement of the protocol that it keeps it (`serve_oneRow`).

The error over several rows is a matter of the clients. A client throws it only in phase `doomed`,
and it comes to that phase only by a SELECT that gave several rows.
-/

set_option autoImplicit false

namespace OatppSqlite.Executor

open Sqlite

variable {ι σ δ : Type} {table : Text} {s : Store δ}

/-! ## The invariant -/

/-- The version table has at most one row, if there is one. -/
def HasOneRow (table : Text) (s : Store δ) : Prop :=
  ∀ rows, s.table table = some rows → rows.length ≤ 1

theorem HasOneRow.setTable {rows : List (Option Int)} (h : rows.length ≤ 1) :
    HasOneRow table (s.setTable table rows) := by
  intro rows' hrows'
  rw [Store.table_setTable, Option.some.injEq] at hrows'
  rwa [← hrows']

theorem Versioned.hasOneRow {n : Int} (h : Versioned n (s.table table)) : HasOneRow table s := by
  intro rows hrows
  rw [hrows] at h
  cases h with
  | empty => exact Nat.zero_le 1
  | row => exact Nat.le_refl 1

/-- In what is committed, and in what a transaction is about to commit. -/
structure OneRow (table : Text) (db : Db ι δ) : Prop where
  committed : HasOneRow table db.committed
  copy : ∀ i w, db.writer = some (i, w) → HasOneRow table w

variable [DecidableEq ι] {i : ι} {db db' : Db ι δ}

theorem OneRow.store (h : OneRow table db) (i : ι) : HasOneRow table (db.store i) := by
  unfold Db.store
  split
  · split
    · exact h.copy _ _ ‹_›
    · exact h.committed
  · exact h.committed

theorem OneRow.close (h : OneRow table db) : OneRow table (db.close i) where
  committed := h.committed
  copy j w hw := h.copy j w (Option.eq_some_of_filter_eq_some hw)

theorem OneRow.commit (h : OneRow table db) : OneRow table (db.commit i) where
  committed := h.store i
  copy := h.close.copy

omit [DecidableEq ι] in
theorem OneRow.written (h : OneRow table db) (hs : HasOneRow table s) :
    OneRow table (db.written i s) := by
  unfold Db.written
  split
  · refine ⟨h.committed, fun j w hw => ?_⟩
    cases hw
    exact hs
  · exact ⟨hs, h.copy⟩

variable {q : Query} {choice : Choice} {answer : Answer} {version : Int}

/-- A failed statement keeps it. -/
theorem OneRow.failed (h : OneRow table db) (hdb : db' = db ∨ db' = db.close i) :
    OneRow table db' := by
  rcases hdb with rfl | rfl
  · exact h
  · exact h.close

variable (version) in
theorem write_oneRow {s' : Store δ} (h : HasOneRow table s)
    (hq : q = .createTable table ∨ q = .update table version ∨
      q = .insertZero table ∧ (s.table table).getD [] = [])
    (hwrite : q.write s = some s') : HasOneRow table s' := by
  rcases hq with rfl | rfl | ⟨rfl, hempty⟩
  · simp only [Query.write] at hwrite
    split at hwrite
    · cases hwrite
    · cases hwrite
      exact .setTable (Nat.zero_le 1)
  · obtain ⟨rows, hrows, rfl⟩ := Option.map_eq_some_iff.mp hwrite
    exact .setTable (by rw [List.length_map]; exact h rows hrows)
  · obtain ⟨rows, hrows, rfl⟩ := Option.map_eq_some_iff.mp hwrite
    rw [hrows, Option.getD_some] at hempty
    subst hempty
    exact .setTable (Nat.le_refl 1)

variable (version) in
/-- What a statement that may write keeps, if it is no INSERT beside another row. -/
theorem perform_oneRow (h : OneRow table db)
    (hq : q = .createTable table ∨ q = .update table version ∨ q = .insertZero table)
    (hinsert : q = .insertZero table → choice = .succeeds →
      ((db.store i).table table).getD [] = [])
    (hE : perform i db q choice = some (answer, db')) : OneRow table db' := by
  rcases perform_cases hE with ⟨-, -, hdb, -⟩ | ⟨-, hchoice, hdone⟩
  · exact h.failed hdb
  -- only a SELECT may break off
  have hsucceeds : choice = .succeeds := by
    rcases hchoice with hchoice | ⟨t, rfl⟩
    · exact hchoice
    · rcases hq with hq | hq | hq <;> cases hq
  have hwritten : (q.isDone (db.store i) = true ∧ db' = db) ∨ (db.mayWrite i = true ∧
      ∃ s, q.write (db.store i) = some s ∧ db' = db.written i s) := by
    rcases hq with rfl | rfl | rfl
    · exact hdone
    · exact hdone
    · exact hdone
  rcases hwritten with ⟨-, rfl⟩ | ⟨-, s, hs, rfl⟩
  · exact h
  · refine h.written (write_oneRow version (h.store i) ?_ hs)
    rcases hq with hq | hq | hq
    · exact Or.inl hq
    · exact Or.inr (Or.inl hq)
    · exact Or.inr (Or.inr ⟨hq, hinsert hq hsucceeds⟩)

/-- **A statement of the protocol keeps it**, and gives no client several rows. -/
theorem serve_oneRow {effect : σ → δ → Effect δ} {v : Option Int} {phase : Phase}
    {q : Request ι σ} {next : Reply q → Phase} {answer : Reply q} (h : OneRow table db)
    (hphase : phase ≠ .doomed) (hq : Protocol i table v phase q next)
    (hinsert : q = .exec i (.insertZero table) → choice = .succeeds →
      ((db.store i).table table).getD [] = [])
    (hE : serve effect choice db q = some (answer, db')) :
    OneRow table db' ∧ next answer ≠ .doomed := by
  cases hq with
  | createTable =>
    exact ⟨perform_oneRow 0 h (Or.inl rfl) (fun hq => nomatch hq) hE, nofun⟩
  | select =>
    -- it may break off early, but it gives no rows that are not there
    rcases perform_cases hE with ⟨ha, -, hdb, -⟩ | ⟨ha, -, rfl, rows, n, hrows, hversions⟩
    · refine ⟨h.failed hdb, ?_⟩
      dsimp only
      rw [ha, if_neg Bool.false_ne_true]
      exact nofun
    · refine ⟨h, ?_⟩
      dsimp only
      rw [ha, if_pos rfl]
      have hlen : (rows.take n).length ≤ 1 :=
        Nat.le_trans (List.length_take_le' n rows) (h.store i rows hrows)
      rw [hversions]
      match rows.take n, hlen with
      | [], _ => exact nofun
      | [_], _ => exact nofun
  | insertZero =>
    refine ⟨perform_oneRow 0 h (Or.inr (Or.inr rfl)) (fun _ => hinsert rfl) hE, ?_⟩
    dsimp only
    split
    · exact nofun
    · exact nofun
  | begin =>
    refine ⟨?_, by dsimp only; split <;> exact nofun⟩
    rcases perform_cases hE with ⟨-, -, hdb, -⟩ | ⟨-, -, -, rfl⟩
    · exact h.failed hdb
    · exact ⟨h.committed, h.copy⟩
  | scriptStatement statement =>
    refine ⟨?_, by dsimp only; split <;> exact nofun⟩
    rcases performScript_cases hE with ⟨-, hdb⟩ | ⟨-, hran⟩
    · exact h.failed hdb
    cases hran with
    | read => exact h
    | before => exact h
    | wrote => exact h.written (h.store i)
  | update version hv =>
    exact ⟨perform_oneRow _ h (Or.inr (Or.inl rfl)) (fun hq => nomatch hq) hE,
      by dsimp only; split <;> exact nofun⟩
  | commit =>
    refine ⟨?_, by dsimp only; split <;> exact nofun⟩
    rcases perform_cases hE with ⟨-, -, hdb, -⟩ | ⟨-, -, -, rfl⟩
    · exact h.failed hdb
    · exact h.commit
  | rollback =>
    refine ⟨?_, nofun⟩
    rcases perform_cases hE with ⟨-, -, hdb, -⟩ | ⟨-, -, -, rfl⟩
    · exact h.failed hdb
    · exact h.close

/-! ## Runs -/

/-- No INSERT of the version row succeeds while the client sees a row already. -/
def Deployment.InsertsIntoEmpty (D : Deployment ι σ δ) (sys : System ι σ δ) (i : ι)
    (choice : Choice) : Prop :=
  (sys.client i).running.question = some (.exec i (.insertZero D.table)) → choice = .succeeds →
    ((sys.db.store i).table D.table).getD [] = []

instance [DecidableEq σ] (D : Deployment ι σ δ) (sys : System ι σ δ) (i : ι) (choice : Choice) :
    Decidable (D.InsertsIntoEmpty sys i choice) :=
  inferInstanceAs (Decidable (_ → _ → _))

structure RowInvariant (D : Deployment ι σ δ) (sys : System ι σ δ) : Prop where
  oneRow : OneRow D.table sys.db
  phases : ∀ i, ∃ phase, phase ≠ .doomed ∧ sys.InPhase D i phase

variable {D : Deployment ι σ δ} {sys sys' : System ι σ δ}

theorem RowInvariant.step (h : RowInvariant D sys) (hstep : D.Step D.InsertsIntoEmpty sys sys') :
    RowInvariant D sys' := by
  obtain ⟨i, choice, hguard, hadvance⟩ := hstep
  obtain ⟨phase, hphase, hin⟩ := h.phases i
  obtain ⟨hothers, hcases⟩ := advance_cases hin hadvance
  have hkept : ∀ j, j ≠ i → ∃ phase, phase ≠ .doomed ∧ sys'.InPhase D j phase := by
    intro j hj
    obtain ⟨phase, hphase, hin⟩ := h.phases j
    exact ⟨phase, hphase, inPhase_of_client_eq (hothers j hj) hin⟩
  rcases hcases with ⟨q, k, next, answer, hrunning, hq, hserve, hin', -, -⟩ | ⟨-, hdb, -, hin'⟩
  · have hinsert : q = .exec i (.insertZero D.table) → choice = .succeeds →
        ((sys.db.store i).table D.table).getD [] = [] := by
      rintro rfl
      exact hguard (by rw [hrunning]; rfl)
    obtain ⟨hrow, hnext⟩ := serve_oneRow h.oneRow hphase hq hinsert hserve
    refine ⟨hrow, fun j => ?_⟩
    by_cases hj : j = i
    · subst hj
      exact ⟨_, hnext, hin'⟩
    · exact hkept j hj
  · refine ⟨hdb ▸ h.oneRow, fun j => ?_⟩
    by_cases hj : j = i
    · subst hj
      exact ⟨.free, nofun, hin'⟩
    · exact hkept j hj

theorem RowInvariant.reaches {sys₀ : System ι σ δ} (h : RowInvariant D sys₀)
    (hrun : D.Reaches D.InsertsIntoEmpty sys₀ sys) : RowInvariant D sys := by
  induction hrun with
  | refl => exact h
  | tail _ hstep ih => exact ih.step hstep

/-- **One version row**, in every state of every run without an INSERT beside another row, and
    so no call comes to the error over several rows. -/
theorem versionTable_oneRow (D : Deployment ι σ δ) {sys₀ : System ι σ δ} (hquiet : sys₀.Quiet)
    (hnone : sys₀.db.committed.table D.table = none)
    (hrun : D.Reaches D.InsertsIntoEmpty sys₀ sys) :
    (HasOneRow D.table sys.db.committed ∧ ∀ i, HasOneRow D.table (sys.db.store i)) ∧
      ∀ i, (sys.client i).running ≠ .throw multipleVersionRows := by
  have hstart : RowInvariant D sys₀ := by
    refine ⟨⟨fun rows hrows => ?_, fun i w hw => ?_⟩, fun i =>
      ⟨.free, nofun, hquiet.inPhase i⟩⟩
    · rw [hnone] at hrows
      cases hrows
    · rw [hquiet.writer] at hw
      cases hw
  have h := hstart.reaches hrun
  refine ⟨⟨h.oneRow.committed, h.oneRow.store⟩, fun i hthrow => ?_⟩
  -- a call that ends in this error is in phase `doomed`
  obtain ⟨phase, hphase, hin⟩ := h.phases i
  unfold System.InPhase at hin
  rw [hthrow] at hin
  rcases hin with hdoomed | ⟨-, hwhat⟩
  · exact hphase hdoomed
  · exact hwhat rfl

/-- Both clients look for the row before either has inserted it, and the second call of the first
    client comes to the error. -/
def twoInserts : List (Bool × Choice) :=
  [(false, .succeeds), (false, .succeeds), (false, .succeeds),
   (true, .succeeds), (true, .succeeds), (true, .succeeds),
   (false, .succeeds), (true, .succeeds),
   (false, .succeeds), (false, .succeeds), (false, .succeeds)]

theorem versionTable_twoRows : ∃ sys : System Bool Nat (List Nat),
    plainDeployment.Reaches (fun _ _ _ => True)
      (newSystem fun _ => [.getSchemaVersion, .getSchemaVersion]) sys ∧
    sys.db.committed.table (getSchemaVersionTableName none) = some [some 0, some 0] ∧
    (sys.client false).running = .throw multipleVersionRows :=
  ⟨_, run_reaches _ twoInserts rfl, rfl, rfl⟩

/-- Here the second client looks for the row when the first one has inserted it. -/
theorem versionTable_oneRow_twoClients : ∃ sys : System Bool Nat (List Nat),
    plainDeployment.Reaches plainDeployment.InsertsIntoEmpty
      (newSystem fun _ => [.getSchemaVersion]) sys ∧
    sys.db.committed.table (getSchemaVersionTableName none) = some [some 0] ∧
    HasOneRow (getSchemaVersionTableName none) sys.db.committed ∧
    ∀ i, (sys.client i).running ≠ .throw multipleVersionRows := by
  have hrun := run_reaches (D := plainDeployment) (G := plainDeployment.InsertsIntoEmpty)
    (newSystem fun _ => [.getSchemaVersion])
    (.replicate 4 (false, .succeeds) ++ .replicate 3 (true, .succeeds)) rfl
  obtain ⟨⟨hrow, -⟩, hthrow⟩ := versionTable_oneRow plainDeployment (newSystem_quiet _) rfl hrun
  exact ⟨_, hrun, rfl, hrow, hthrow⟩

end OatppSqlite.Executor
