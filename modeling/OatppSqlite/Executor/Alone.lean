import OatppSqlite.Executor.Version

/-!
# A client alone with its database

One connection, and any statement on it may fail. Between two calls the client is `Idle`; a call
goes through a transaction (`Inside`), and after a failure in it there is only the rollback left
to do (`Broken`). For each statement there is one lemma that says where it leads, from the state
it is asked in; the programs are put together from these alone.
-/

set_option autoImplicit false

namespace OatppSqlite.Executor

open Sqlite

variable {ι σ δ : Type} [DecidableEq ι]

/-! ## The environment -/

/-- The database as the environment of a program; `allowed` are the choices it makes. Nobody else
    commits meanwhile, so what a transaction has read before is what is committed. -/
def Environment (effect : σ → δ → Effect δ) (allowed : Choice → Prop) :
    Db ι δ → (q : Request ι σ) → Reply q → Db ι δ → Prop
  | _, .getConnection, _, _ => False
  | db, .exec c q, answer, db' =>
    ∃ choice, allowed choice ∧ perform c db q choice = some (answer, db')
  | db, .scriptStatement c s, errmsg, db' =>
    ∃ choice, (allowed choice ∧ choice ≠ .readsBefore) ∧
      performScript effect c db s choice = some (errmsg, db')

theorem Environment.of_serve {effect : σ → δ → Effect δ} {allowed : Choice → Prop}
    {choice : Choice} {db db' : Db ι δ} {q : Request ι σ} {answer : Reply q}
    (hallowed : allowed choice) (hnow : choice ≠ .readsBefore)
    (h : serve effect choice db q = some (answer, db')) :
    Environment effect allowed db q answer db' := by
  cases q with
  | getConnection => cases h
  | exec c q => exact ⟨choice, hallowed, h⟩
  | scriptStatement c s => exact ⟨choice, ⟨hallowed, hnow⟩, h⟩

/-- Any statement may fail, at any point. -/
abbrev Disturbed (effect : σ → δ → Effect δ) :
    Db ι δ → (q : Request ι σ) → Reply q → Db ι δ → Prop := Environment effect fun _ => True

/-- No statement fails that can succeed. -/
abbrev Undisturbed (effect : σ → δ → Effect δ) :
    Db ι δ → (q : Request ι σ) → Reply q → Db ι δ → Prop := Environment effect (· = .succeeds)

/-- A script as a whole: all of its statements, in order. -/
def applyScript (effect : σ → δ → Effect δ) (script : List σ) (d : δ) : Option δ :=
  script.foldlM (fun d s => (effect s d).after d) d

/-! ## The states of a call

Three states are enough, since the client knows from its answers which of them it is in; only whether
SQLite has ended a transaction after a failure it does not know, and `Broken` leaves that open. -/

variable {c : ι} {table : Text} {s w : Store δ} {db db' : Db ι δ}

/-- No transaction is open, and `s` is committed. -/
structure Idle (c : ι) (s : Store δ) (db : Db ι δ) : Prop where
  inTx : db.inTx c = false
  writer : db.writer = none
  committed : db.committed = s

/-- After a failure: the copy, if there is one, is the client's own. -/
structure Broken (c : ι) (s : Store δ) (db : Db ι δ) : Prop where
  mayWrite : db.mayWrite c = true
  writer : db.inTx c = false → db.writer = none
  committed : db.committed = s

/-- In the transaction, which sees `w`. -/
structure Inside (c : ι) (s w : Store δ) (db : Db ι δ) : Prop extends Broken c s db where
  inTx : db.inTx c = true
  store : db.store c = w

theorem Idle.mayWrite (h : Idle c s db) : db.mayWrite c = true := by
  rw [Db.mayWrite, h.writer]
  rfl

theorem Idle.store (h : Idle c s db) : db.store c = s := by
  rw [Db.store, h.writer]
  exact h.committed

theorem Idle.broken (h : Idle c s db) : Broken c s db :=
  ⟨h.mayWrite, fun _ => h.writer, h.committed⟩

theorem writer_close (h : db.mayWrite c = true) : (db.close c).writer = none := by
  show db.writer.filter _ = none
  unfold Db.mayWrite at h
  cases hw : db.writer with
  | none => rfl
  | some w =>
    rw [hw] at h
    have hc : w.1 = c := by simpa using h
    simp [Option.filter, hc]

/-- Dropping the copy leads back. -/
theorem Broken.close (h : Broken c s db) : Idle c s (db.close c) :=
  ⟨if_pos rfl, writer_close h.mayWrite, h.committed⟩

/-! ## What a statement leads to

The lemmas come in pairs: where a statement leads, whatever the answer is, and that it has an answer
where nothing fails (`createTable_answered` and so on). -/

variable {effect : σ → δ → Effect δ} {allowed : Choice → Prop} {q : Query} {answer : Answer}
  {statement : σ} {errmsg : Option String} {version : Int} {l : List (Option Int)}

/-- The environment may let a statement fail. -/
def CanFail (allowed : Choice → Prop) : Prop := ∃ message rollsBack, allowed (.fails message rollsBack)

theorem not_canFail : ¬ CanFail (· = .succeeds) := fun ⟨_, _, h⟩ => Choice.noConfusion h

theorem Idle.fails {message : String} {rollsBack : Bool} (hdb : Idle c s db)
    (h : perform c db q (.fails message rollsBack) = some (answer, db')) :
    answer.isSuccess = false ∧ Idle c s db' := by
  obtain ⟨rfl, rfl | rfl, -⟩ := perform_fails h
  · exact ⟨rfl, hdb⟩
  · exact ⟨rfl, hdb.broken.close⟩

theorem Broken.fails {message : String} {rollsBack : Bool} (hdb : Broken c s db)
    (h : perform c db q (.fails message rollsBack) = some (answer, db')) :
    answer.isSuccess = false ∧ Broken c s db' := by
  obtain ⟨rfl, rfl | rfl, -⟩ := perform_fails h
  · exact ⟨rfl, hdb⟩
  · exact ⟨rfl, hdb.close.broken⟩

/-- Only a SELECT can be answered in part: another statement fails, or it is done. -/
theorem Environment.cases_choice (hE : Environment effect allowed db (.exec c q) answer db')
    (hq : ∀ t, q ≠ .select t) :
    (∃ message rollsBack, allowed (.fails message rollsBack) ∧
      perform c db q (.fails message rollsBack) = some (answer, db')) ∨
      perform c db q .succeeds = some (answer, db') := by
  obtain ⟨choice, hallowed, hE⟩ := hE
  cases choice with
  | succeeds => exact Or.inr hE
  | fails message rollsBack => exact Or.inl ⟨message, rollsBack, hallowed, hE⟩
  | breaksOff n =>
    obtain ⟨t, row, l, ht, -⟩ := perform_breaksOff hE
    exact absurd ht (hq t)
  | readsBefore => cases hE

theorem Idle.failed_or_succeeds (h : Idle c s db)
    (hE : Environment effect allowed db (.exec c q) answer db') (hq : ∀ t, q ≠ .select t) :
    (answer.isSuccess = false ∧ CanFail allowed ∧ Idle c s db') ∨
      perform c db q .succeeds = some (answer, db') := by
  rcases hE.cases_choice hq with ⟨message, rollsBack, hallowed, hE⟩ | hE
  · obtain ⟨ha, hdb⟩ := h.fails hE
    exact Or.inl ⟨ha, ⟨message, rollsBack, hallowed⟩, hdb⟩
  · exact Or.inr hE

omit [DecidableEq ι] in
/-- Outside a transaction, what is written is committed. -/
theorem Idle.written (h : Idle c s db) : Idle c w (db.written c w) := by
  rw [Db.written, if_neg (by rw [h.inTx]; exact Bool.false_ne_true)]
  exact ⟨h.inTx, h.writer, rfl⟩

/-- The store once it has a table. -/
def created (table : Text) (s : Store δ) : Store δ :=
  if (s.table table).isSome then s else s.setTable table []

/-- CREATE TABLE IF NOT EXISTS: there is a table then. -/
theorem Idle.createTable (h : Idle c s db)
    (hE : Environment effect allowed db (.exec c (.createTable table)) answer db') :
    (answer.isSuccess = false ∧ CanFail allowed ∧ Idle c s db') ∨
      (answer.isSuccess = true ∧ Idle c (created table s) db') := by
  rcases h.failed_or_succeeds hE nofun with hfailed | hE
  · exact Or.inl hfailed
  · unfold perform at hE
    simp only [Query.isDone, Query.write, h.store, h.mayWrite, if_true] at hE
    unfold created
    cases hrows : s.table table with
    | none =>
      rw [hrows] at hE
      cases hE
      exact Or.inr ⟨rfl, h.written⟩
    | some l =>
      rw [hrows] at hE
      cases hE
      exact Or.inr ⟨rfl, h⟩

/-- SELECT gives the rows; one row it gives whole. -/
theorem Idle.select (h : Idle c s db) (hrows : s.table table = some l) (hl : l.length ≤ 1)
    (hE : Environment effect allowed db (.exec c (.select table)) answer db') :
    (answer.isSuccess = false ∧ CanFail allowed ∧ Idle c s db') ∨
      (answer.isSuccess = true ∧ answer.versions = l ∧ Idle c s db') := by
  obtain ⟨choice, hallowed, hE⟩ := hE
  cases choice with
  | fails message rollsBack =>
    obtain ⟨ha, hdb⟩ := h.fails hE
    exact Or.inl ⟨ha, ⟨_, _, hallowed⟩, hdb⟩
  | breaksOff n =>
    obtain ⟨t, row, l', hq, hrows', rfl, rfl⟩ := perform_breaksOff hE
    cases hq
    rw [h.store, hrows, Option.some.injEq] at hrows'
    subst hrows'
    have hnil : l' = [] := List.eq_nil_of_length_eq_zero (Nat.le_zero.mp (Nat.le_of_succ_le_succ hl))
    subst hnil
    exact Or.inr ⟨rfl, by simp [Answer.ofRows], h⟩
  | readsBefore => cases hE
  | succeeds =>
    unfold perform at hE
    simp only [h.store, hrows, Option.map_some] at hE
    cases hE
    exact Or.inr ⟨Answer.ofRows_isSuccess l, Answer.ofRows_versions l, h⟩

/-- INSERT adds a row with version 0. -/
theorem Idle.insertZero (h : Idle c s db) (hrows : s.table table = some l)
    (hE : Environment effect allowed db (.exec c (.insertZero table)) answer db') :
    (answer.isSuccess = false ∧ CanFail allowed ∧ Idle c s db') ∨
      (answer.isSuccess = true ∧ Idle c (s.setTable table (l ++ [some 0])) db') := by
  rcases h.failed_or_succeeds hE nofun with hfailed | hE
  · exact Or.inl hfailed
  · unfold perform at hE
    simp only [Query.isDone, Query.write, h.store, hrows, h.mayWrite, if_true, Option.map_some,
      Bool.false_eq_true, if_false] at hE
    cases hE
    exact Or.inr ⟨rfl, h.written⟩

section

variable (effect)

theorem Idle.createTable_answered (h : Idle c s db) (table : Text) :
    ∃ answer db', Undisturbed effect db (.exec c (.createTable table)) answer db' := by
  have hperform : ∃ r, perform c db (.createTable table) .succeeds = some r := by
    unfold perform
    simp only [Query.isDone, Query.write, h.store, h.mayWrite, if_true]
    cases s.table table with
    | none => exact ⟨_, rfl⟩
    | some l => exact ⟨_, rfl⟩
  obtain ⟨⟨answer, db'⟩, hperform⟩ := hperform
  exact ⟨answer, db', .succeeds, rfl, hperform⟩

theorem Idle.select_answered (h : Idle c s db) (hrows : s.table table = some l) :
    ∃ answer db', Undisturbed effect db (.exec c (.select table)) answer db' := by
  refine ⟨.ofRows l, db, .succeeds, rfl, ?_⟩
  unfold perform
  simp only [h.store, hrows, Option.map_some]
  rfl

theorem Idle.insertZero_answered (h : Idle c s db) (hrows : s.table table = some l) :
    ∃ answer db', Undisturbed effect db (.exec c (.insertZero table)) answer db' := by
  refine ⟨.done, db.written c (s.setTable table (l ++ [some 0])), .succeeds, rfl, ?_⟩
  unfold perform
  simp only [Query.isDone, Query.write, h.store, hrows, h.mayWrite, if_true, Option.map_some,
    Bool.false_eq_true, if_false]
  rfl

end

/-- BEGIN opens a transaction, which sees what is committed. -/
theorem Idle.begin (h : Idle c s db)
    (hE : Environment effect allowed db (.exec c .begin) answer db') :
    (answer.isSuccess = false ∧ CanFail allowed ∧ Idle c s db') ∨
      (answer.isSuccess = true ∧ Inside c s s db') := by
  rcases h.failed_or_succeeds hE nofun with hfailed | hE
  · exact Or.inl hfailed
  · unfold perform at hE
    simp only [h.inTx, Bool.false_eq_true, if_false] at hE
    cases hE
    refine Or.inr ⟨rfl, ⟨h.mayWrite, fun _ => h.writer, h.committed⟩, if_pos rfl, ?_⟩
    unfold Db.store
    rw [h.writer]
    exact h.committed

/-- In a transaction, what is written is seen by it, and only by it. -/
theorem Inside.written {w' : Store δ} (h : Inside c s w db) : Inside c s w' (db.written c w') := by
  rw [Db.written, if_pos h.inTx]
  refine ⟨⟨decide_eq_true rfl, fun hc => ?_, h.committed⟩, h.inTx, if_pos rfl⟩
  exact absurd h.inTx (by rw [show db.inTx c = false from hc]; exact Bool.false_ne_true)

/-- A statement of the script does what it does to the data, or nothing. -/
theorem Inside.scriptStatement (h : Inside c s w db)
    (hE : Environment effect allowed db (.scriptStatement c statement) errmsg db') :
    (∃ what, errmsg = some what ∧ Broken c s db') ∨
      (errmsg = none ∧ ∃ d, (effect statement w.data).after w.data = some d ∧
        Inside c s { w with data := d } db') := by
  obtain ⟨choice, ⟨-, hnow⟩, hE⟩ := hE
  rcases performScript_cases hE with ⟨herrmsg, hdb⟩ | ⟨rfl, hran⟩
  · obtain ⟨what, rfl⟩ := Option.ne_none_iff_exists'.mp herrmsg
    refine Or.inl ⟨what, rfl, ?_⟩
    rcases hdb with rfl | rfl
    · exact h.toBroken
    · exact h.close.broken
  refine Or.inr ⟨rfl, ?_⟩
  cases hran with
  | read heffect =>
    -- the data are as they were
    rw [h.store] at heffect
    exact ⟨w.data, by rw [heffect]; rfl, h⟩
  | before => exact absurd rfl hnow
  | wrote d heffect =>
    rw [h.store] at heffect ⊢
    exact ⟨d, by rw [heffect]; rfl, h.written⟩

/-- UPDATE sets the version in the copy. -/
theorem Inside.update (h : Inside c s w db) (hrows : w.table table = some l)
    (hE : Environment effect allowed db (.exec c (.update table version)) answer db') :
    (answer.isSuccess = false ∧ Broken c s db') ∨
      (answer = .done ∧ Inside c s (w.setTable table (l.map fun _ => some version)) db') := by
  rcases hE.cases_choice nofun with ⟨message, rollsBack, -, hE⟩ | hE
  · exact Or.inl (h.toBroken.fails hE)
  · unfold perform at hE
    simp only [Query.isDone, Query.write, h.store, hrows, h.mayWrite, if_true, Option.map_some,
      Bool.false_eq_true, if_false] at hE
    cases hE
    exact Or.inr ⟨rfl, h.written⟩

/-- COMMIT makes the copy the database. -/
theorem Inside.commit (h : Inside c s w db)
    (hE : Environment effect allowed db (.exec c .commit) answer db') :
    (answer.isSuccess = false ∧ Broken c s db') ∨ (answer.isSuccess = true ∧ Idle c w db') := by
  rcases hE.cases_choice nofun with ⟨message, rollsBack, -, hE⟩ | hE
  · exact Or.inl (h.toBroken.fails hE)
  · unfold perform at hE
    simp only [h.inTx, if_true] at hE
    cases hE
    exact Or.inr ⟨rfl, if_pos rfl, writer_close h.mayWrite, h.store⟩

section

variable (effect)

theorem Idle.begin_answered (h : Idle c s db) :
    ∃ db', Undisturbed effect db (.exec c .begin) Answer.done db' := by
  refine ⟨_, .succeeds, rfl, if_neg ?_⟩
  rw [h.inTx]
  exact Bool.false_ne_true

theorem Inside.update_answered (h : Inside c s w db) (hrows : w.table table = some l)
    (version : Int) :
    ∃ db', Undisturbed effect db (.exec c (.update table version)) Answer.done db' := by
  refine ⟨db.written c (w.setTable table (l.map fun _ => some version)), .succeeds, rfl, ?_⟩
  unfold perform
  simp only [Query.isDone, Query.write, h.store, hrows, h.mayWrite, if_true, Option.map_some,
    Bool.false_eq_true, if_false]
  rfl

theorem Inside.commit_answered (h : Inside c s w db) :
    ∃ db', Undisturbed effect db (.exec c .commit) Answer.done db' :=
  ⟨db.commit c, .succeeds, rfl, if_pos h.inTx⟩

end

/-- ROLLBACK leads back from wherever a failure led. -/
theorem Broken.rollback (h : Broken c s db)
    (hE : Environment effect allowed db (.exec c .rollback) answer db') : Idle c s db' := by
  rcases hE.cases_choice nofun with ⟨message, rollsBack, -, hE⟩ | hE
  · obtain ⟨-, rfl | rfl, hin⟩ := perform_fails hE
    · exact ⟨hin rfl, h.writer (hin rfl), h.committed⟩
    · exact h.close
  · unfold perform at hE
    dsimp only at hE
    split_ifs at hE
    cases hE
    exact h.close

end OatppSqlite.Executor
