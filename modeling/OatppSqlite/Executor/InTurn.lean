import OatppSqlite.Executor.Suffixes

/-!
# Looking for the version row in turn

A client that finds no version row inserts one, by a SELECT and an INSERT that are two statements
to SQLite. `Deployment.InsertsIntoEmpty` is a condition on the table that the INSERT finds.
`Deployment.InTurn` is one on the order of the clients: no INSERT of one client succeeds between
the SELECT by which another one found no row and its own INSERT. `reaches_inTurn` says that it is
enough, so that what holds of every run of the first kind holds of every run of the second.

The invariant is that a client that waits to insert the row still has no row before it. Its own
SELECT begins that. A step of another client could end it by an INSERT, which the order excludes,
or by the COMMIT of a copy with a row; and no copy has a row before the committed table has one
(`CopiesFollow`), because the row is inserted outside of any transaction.
-/

set_option autoImplicit false

namespace OatppSqlite.Executor

open Sqlite

variable {ι σ δ : Type} {table : Text} {s : Store δ} {db db' : Db ι δ} {v : Option Int}

/-! ## A table without rows -/

/-- The version table has no row, or there is no such table yet. -/
def HasNoRow (table : Text) (s : Store δ) : Prop := (s.table table).getD [] = []

/-- A copy has a row only after the committed table has one. -/
def CopiesFollow (table : Text) (db : Db ι δ) : Prop :=
  HasNoRow table db.committed → ∀ i w, db.writer = some (i, w) → HasNoRow table w

theorem write_noRow {i : ι} {phase : Phase} {q : Query}
    {next : Reply (.exec i q : Request ι σ) → Phase} {s' : Store δ}
    (hq : Protocol i table v phase (.exec i q) next) (hinsert : q ≠ .insertZero table)
    (h : HasNoRow table s) (hwrite : q.write s = some s') : HasNoRow table s' := by
  unfold HasNoRow at h ⊢
  cases hq with
  | createTable =>
    simp only [Query.write] at hwrite
    split at hwrite
    · cases hwrite
    · cases hwrite
      rw [Store.table_setTable, Option.getD_some]
  | update version =>
    obtain ⟨rows, hrows, rfl⟩ := Option.map_eq_some_iff.mp hwrite
    rw [hrows, Option.getD_some] at h
    rw [Store.table_setTable, Option.getD_some, h, List.map_nil]
  | insertZero => exact absurd rfl hinsert
  | _ => cases hwrite

variable [DecidableEq ι] {i : ι}

theorem CopiesFollow.store (h : CopiesFollow table db) (hnone : HasNoRow table db.committed)
    (i : ι) : HasNoRow table (db.store i) := by
  unfold Db.store
  split
  · split
    · exact h hnone _ _ ‹_›
    · exact hnone
  · exact hnone

theorem CopiesFollow.close (h : CopiesFollow table db) (i : ι) :
    CopiesFollow table (db.close i) :=
  fun hnone j w hw => h hnone j w (Option.eq_some_of_filter_eq_some hw)

theorem CopiesFollow.failed (h : CopiesFollow table db) (hdb : db' = db ∨ db' = db.close i) :
    CopiesFollow table db' := by
  rcases hdb with rfl | rfl
  · exact h
  · exact h.close i

theorem CopiesFollow.commit (h : CopiesFollow table db) (i : ι) :
    CopiesFollow table (db.commit i) := by
  intro hnone j w hw
  obtain ⟨hwriter, hj⟩ := Option.filter_eq_some_iff.mp hw
  -- the copy is another client's, so what was committed is what was committed before
  have hstore : db.store i = db.committed := by
    unfold Db.store
    rw [hwriter]
    exact if_neg (by simpa using hj)
  exact h (hstore ▸ hnone) j w hwriter

theorem CopiesFollow.written (h : CopiesFollow table db) (hdb : db.WriterInTx)
    (hmay : db.mayWrite i = true)
    (hs : db.inTx i = true → HasNoRow table (db.store i) → HasNoRow table s) :
    CopiesFollow table (db.written i s) := by
  unfold Db.written
  split
  · rename_i hin
    intro hnone j w hw
    cases hw
    exact hs hin (h.store hnone i)
  · rename_i hin
    intro hnone j w hw
    have hji : j = i := by
      unfold Db.mayWrite at hmay
      rw [hw] at hmay
      simpa using hmay
    subst hji
    exact absurd hw (hdb j (by simpa using hin) w)

omit [DecidableEq ι] in
theorem noRow_written (hnone : HasNoRow table db.committed) (hs : HasNoRow table s) :
    HasNoRow table (db.written i s).committed := by
  unfold Db.written
  split
  · exact hnone
  · exact hs

/-! ## A statement -/

section

variable {effect : σ → δ → Effect δ} {choice : Choice} {phase : Phase} {q : Request ι σ}
  {next : Reply q → Phase} {answer : Reply q}

theorem serve_writerInTx (hq : Protocol i table v phase q next) (hdb : db.WriterInTx)
    (hE : serve effect choice db q = some (answer, db')) : db'.WriterInTx := by
  cases hq with
  | scriptStatement => exact performScript_writerInTx hdb hE
  | _ => exact perform_writerInTx hdb hE

theorem perform_copiesFollow {q : Query} {next : Reply (.exec i q : Request ι σ) → Phase}
    {answer : Answer} (hq : Protocol i table v phase (.exec i q) next)
    (h : CopiesFollow table db) (hdb : db.WriterInTx) (hphase : phase.Outside → Closed db i)
    (hE : perform i db q choice = some (answer, db')) : CopiesFollow table db' := by
  cases perform_moved hE with
  | same => exact h
  | closed => exact h.close i
  | begun => exact h
  | committed => exact h.commit i
  | written s hmay hs =>
    refine h.written hdb hmay fun hin hnone => write_noRow hq ?_ hnone hs
    -- an INSERT of the row is in no transaction
    rintro rfl
    cases hq
    exact Bool.false_ne_true ((hphase trivial).1.symm.trans hin)

theorem serve_copiesFollow (hq : Protocol i table v phase q next) (h : CopiesFollow table db)
    (hdb : db.WriterInTx) (hphase : phase.Outside → Closed db i)
    (hE : serve effect choice db q = some (answer, db')) : CopiesFollow table db' := by
  cases q with
  | getConnection => cases hq
  | exec j query =>
    obtain rfl : j = i := by cases hq <;> rfl
    exact perform_copiesFollow hq h hdb hphase hE
  | scriptStatement j statement =>
    obtain rfl : j = i := by
      cases hq
      rfl
    rcases performScript_cases hE with ⟨-, hfailed⟩ | ⟨-, hran⟩
    · exact h.failed hfailed
    cases hran with
    | read => exact h
    | before => exact h
    | wrote d heffect hmay => exact h.written hdb hmay fun _ hnone => hnone

/-- **Only an INSERT of the row brings a row.** -/
theorem serve_noRow (hq : Protocol i table v phase q next) (h : CopiesFollow table db)
    (hnone : HasNoRow table db.committed)
    (hinsert : q = .exec i (.insertZero table) → choice ≠ .succeeds)
    (hE : serve effect choice db q = some (answer, db')) : HasNoRow table db'.committed := by
  cases q with
  | getConnection => cases hq
  | exec j query =>
    obtain rfl : j = i := by cases hq <;> rfl
    by_cases hquery : query = .insertZero table
    · subst hquery
      rcases perform_cases hE with ⟨-, -, hfailed, -⟩ | ⟨-, hchoice | ⟨t, ht⟩, -⟩
      · rw [committed_failed hfailed]
        exact hnone
      · exact absurd hchoice (hinsert rfl)
      · cases ht
    · cases perform_moved hE with
      | same => exact hnone
      | closed => exact hnone
      | begun => exact hnone
      | committed => exact h.store hnone j
      | written s hmay hs => exact noRow_written hnone (write_noRow hq hquery (h.store hnone j) hs)
  | scriptStatement j statement =>
    rcases performScript_cases hE with ⟨-, hfailed⟩ | ⟨-, hran⟩
    · rw [committed_failed hfailed]
      exact hnone
    cases hran with
    | read => exact hnone
    | before => exact hnone
    | wrote d heffect hmay => exact noRow_written hnone (h.store hnone j)

/-- A SELECT that gave no row has found none. -/
theorem select_noRow {answer : Answer} (hE : perform i db (.select table) choice
      = some (answer, db')) (ha : answer.isSuccess = true) (hversions : answer.versions = []) :
    db' = db ∧ HasNoRow table (db.store i) := by
  cases choice with
  | succeeds =>
    obtain ⟨rows, hrows, heq⟩ := Option.map_eq_some_iff.mp hE
    cases heq
    rw [Answer.ofRows_versions] at hversions
    refine ⟨rfl, ?_⟩
    unfold HasNoRow
    rw [hrows, hversions, Option.getD_some]
  | fails message rollsBack =>
    obtain ⟨rfl, -⟩ := perform_fails hE
    cases ha
  | breaksOff n =>
    obtain ⟨t, row, l, -, -, rfl, -⟩ := perform_breaksOff hE
    cases hversions
  | readsBefore => cases hE

theorem Phase.ofVersions_eq_vacant {versions : List (Option Int)}
    (h : ofVersions versions = .vacant) : versions = [] := by
  match versions with
  | [] => rfl
  | [_] => cases h
  | _ :: _ :: _ => cases h

/-- **What a client waits with**: its SELECT has found the committed table without a row. -/
theorem serve_vacant (hq : Protocol i table v phase q next) (hphase : phase.Outside → Closed db i)
    (hE : serve effect choice db q = some (answer, db')) (hvacant : next answer = .vacant) :
    HasNoRow table db'.committed := by
  cases hq with
  | createTable => cases hvacant
  | rollback => cases hvacant
  | select =>
    dsimp only at hvacant
    split at hvacant
    · obtain ⟨rfl, hnone⟩ := select_noRow hE ‹_› (Phase.ofVersions_eq_vacant hvacant)
      rwa [(hphase trivial).store] at hnone
    · cases hvacant
  | _ =>
    dsimp only at hvacant
    split at hvacant
    · cases hvacant
    · cases hvacant

end

/-! ## Runs -/

/-- The client has found no version row, and its INSERT is next. -/
def Deployment.Inserting (D : Deployment ι σ δ) (sys : System ι σ δ) (i : ι) : Prop :=
  (sys.client i).running.question = some (.exec i (.insertZero D.table))

/-- No INSERT of the version row succeeds between the SELECT by which another client found no row
    and the INSERT of that client. -/
def Deployment.InTurn (D : Deployment ι σ δ) (sys : System ι σ δ) (i : ι) (choice : Choice) :
    Prop :=
  D.Inserting sys i → choice = .succeeds → ∀ j, D.Inserting sys j → j = i

variable {D : Deployment ι σ δ} {sys sys' : System ι σ δ}

omit [DecidableEq ι] in
/-- A client waits to insert in one phase only. -/
theorem inserting_iff {phase : Phase} (h : sys.InPhase D i phase) :
    D.Inserting sys i ↔ phase = .vacant := by
  unfold System.InPhase at h
  unfold Deployment.Inserting
  cases hr : (sys.client i).running with
  | pure a =>
    rw [hr] at h
    rcases h with rfl | rfl
    · exact iff_of_false nofun nofun
    · exact iff_of_false nofun nofun
  | throw what =>
    rw [hr] at h
    rcases h with rfl | ⟨rfl | rfl, -⟩
    · exact iff_of_false nofun nofun
    · exact iff_of_false nofun nofun
    · exact iff_of_false nofun nofun
  | ask q k =>
    rw [hr] at h
    obtain ⟨next, hq, -⟩ := h
    cases hq with
    | insertZero => exact iff_of_true rfl rfl
    | _ => exact iff_of_false nofun nofun

structure TurnInvariant (D : Deployment ι σ δ) (sys : System ι σ δ) : Prop where
  writerInTx : sys.db.WriterInTx
  copies : CopiesFollow D.table sys.db
  phases : ∀ i, ∃ phase, sys.InPhase D i phase ∧ (phase.Outside → Closed sys.db i) ∧
    (phase = .vacant → HasNoRow D.table sys.db.committed)

omit [DecidableEq ι] in
theorem System.Quiet.turnInvariant (h : sys.Quiet) : TurnInvariant D sys := by
  have hwriter : ∀ i w, sys.db.writer ≠ some (i, w) := by
    intro i w hw
    rw [h.writer] at hw
    cases hw
  exact ⟨fun i _ w => hwriter i w, fun _ i w hw => absurd hw (hwriter i w),
    fun i => ⟨.free, h.inPhase i, fun _ => ⟨h.inTx i, hwriter i⟩, nofun⟩⟩

/-- Who waits to insert the row has no row before it. -/
theorem TurnInvariant.insertsIntoEmpty {choice : Choice} (h : TurnInvariant D sys) (i : ι) :
    D.InsertsIntoEmpty sys i choice := by
  intro hinserting _
  obtain ⟨phase, hin, hclosed, hnone⟩ := h.phases i
  obtain rfl := (inserting_iff hin).mp hinserting
  rw [(hclosed trivial).store]
  exact hnone rfl

theorem TurnInvariant.step (h : TurnInvariant D sys) (hstep : D.Step D.InTurn sys sys') :
    TurnInvariant D sys' := by
  obtain ⟨i, choice, hturn, hadvance⟩ := hstep
  obtain ⟨phase, hin, hclosed, hnone⟩ := h.phases i
  obtain ⟨hothers, hcases⟩ := advance_cases hin hadvance
  rcases hcases with ⟨q, k, next, answer, hrunning, hq, hserve, hin', -, -⟩ | ⟨hout, hdb, -, hin'⟩
  · refine ⟨serve_writerInTx hq h.writerInTx hserve,
      serve_copiesFollow hq h.copies h.writerInTx hclosed hserve, fun j => ?_⟩
    by_cases hj : j = i
    · subst hj
      exact ⟨_, hin', serve_outside D.effect hq h.writerInTx hclosed hserve,
        serve_vacant hq hclosed hserve⟩
    · obtain ⟨phase', hin', hclosed', hnone'⟩ := h.phases j
      refine ⟨phase', inPhase_of_client_eq (hothers j hj) hin',
        fun hout => (serve_untouched hj hq hserve).closed (hclosed' hout), fun hvacant => ?_⟩
      -- the other client waits to insert the row, so this one does not insert it now
      refine serve_noRow hq h.copies (hnone' hvacant) ?_ hserve
      intro hinsert hchoice
      have hinserting : D.Inserting sys i := by
        unfold Deployment.Inserting
        rw [hrunning]
        exact congrArg some hinsert
      exact hj (hturn hinserting hchoice j ((inserting_iff hin').mpr hvacant))
  · refine ⟨hdb ▸ h.writerInTx, hdb ▸ h.copies, fun j => ?_⟩
    rw [hdb]
    by_cases hj : j = i
    · subst hj
      exact ⟨.free, hin', fun _ => hclosed hout, nofun⟩
    · obtain ⟨phase', hin', hclosed', hnone'⟩ := h.phases j
      exact ⟨phase', inPhase_of_client_eq (hothers j hj) hin', hclosed', hnone'⟩

/-- **The order of the clients is enough**: in every run in which they look for the row in turn,
    no INSERT meets a row. -/
theorem reaches_inTurn {sys₀ : System ι σ δ} (hquiet : sys₀.Quiet)
    (hrun : D.Reaches D.InTurn sys₀ sys) : D.Reaches D.InsertsIntoEmpty sys₀ sys := by
  suffices h : D.Reaches D.InsertsIntoEmpty sys₀ sys ∧ TurnInvariant D sys from h.1
  induction hrun with
  | refl => exact ⟨.refl, hquiet.turnInvariant⟩
  | tail _ hstep ih =>
    obtain ⟨hreaches, h⟩ := ih
    have h' := h.step hstep
    obtain ⟨i, choice, -, hadvance⟩ := hstep
    exact ⟨hreaches.tail ⟨i, choice, h.insertsIntoEmpty i, hadvance⟩, h'⟩

end OatppSqlite.Executor
