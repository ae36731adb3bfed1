import OatppSqlite.Executor.Crashes

/-!
# How long a call may take

A call asks its database for a bounded number of statements, whatever the answers are: there is
nothing in it that is tried again. So it ends after that many steps of its own, however many steps
the other clients take in between, and it never stands before a statement that has no answer
(`calls_bounded`).
-/

set_option autoImplicit false

namespace OatppSqlite.Executor

open Sqlite

variable {ι σ δ : Type}

/-! ## The statements of a call

A budget is spent by each question (`Prog.Spends`), so that the bounds of the parts of a program add
up. A script has one statement after the other, and its length is part of the bound. -/

/-- The most statements that a call may come to. For a migration these are the three of
    `getSchemaVersion`, BEGIN, its script, UPDATE, COMMIT and, if that fails, ROLLBACK. -/
def ClientCall.bound (D : Deployment ι σ δ) : ClientCall → Nat
  | .getSchemaVersion => 3
  | .migrateSchema newVersion => (D.scripts newVersion).length + 7

section

variable {D : Deployment ι σ δ} {c : ι} {version : Int} {suffix : Option Text} {n : Nat}

/-- Spending a statement. -/
theorem wp_spends {α : Type} {q : Request ι σ} {k : Reply q → Program ι σ α}
    {Post : Except String α → Nat → Prop}
    (hk : ∀ answer, Prog.wp (Prog.following Prog.Spends) Post (k answer) n) :
    Prog.wp (Prog.following Prog.Spends) Post (.ask q k) (n + 1) :=
  ⟨_, .ask n q, hk⟩

theorem getSchemaVersion_spends :
    Prog.wp (Prog.following Prog.Spends) (fun _ rest => n ≤ rest)
      (getSchemaVersion suffix (some c) : Program ι σ Int) (n + 3) := by
  simp only [getSchemaVersion, exec_bind]
  -- each of the three may be the last one
  refine wp_spends fun answer => ?_
  split
  swap
  · exact Nat.le_add_right n 2
  refine wp_spends fun answer => ?_
  split
  swap
  · exact Nat.le_add_right n 1
  split
  · refine wp_spends fun answer => ?_
    split
    · exact Nat.le_refl n
    · exact Nat.le_refl n
  · exact Nat.le_add_right n 1
  · exact Nat.le_add_right n 1
  · exact Nat.le_add_right n 1

theorem sqlite3_exec_spends (script : List σ) :
    Prog.wp (Prog.following Prog.Spends) (fun r rest => (∃ errmsg, r = .ok errmsg) ∧ n ≤ rest)
      (sqlite3_exec c script) (n + script.length) := by
  induction script with
  | nil => exact ⟨⟨none, rfl⟩, Nat.le_refl n⟩
  | cons statement script ih =>
    refine wp_spends fun errmsg => ?_
    cases errmsg with
    | none => exact ih
    | some what => exact ⟨⟨some what, rfl⟩, Nat.le_add_right n _⟩

/-- The script, UPDATE and COMMIT; the transaction object is one of the two it can be. -/
theorem migrateInTransaction_spends :
    Prog.wp (Prog.following Prog.Spends)
      (fun r rest => (∃ outcome transaction, r = .ok (outcome, transaction) ∧
        (transaction = D.transactions.closed ∨ transaction = D.transactions.opened c)) ∧ n ≤ rest)
      (migrateInTransaction D.transactions (D.scripts version) version suffix c
        (D.transactions.opened c)) (n + 2 + (D.scripts version).length) := by
  unfold migrateInTransaction
  refine Prog.wp_bind.mpr (Prog.wp_mono Prog.following_monotone ?_
    (sqlite3_exec_spends (n := n + 2) (D.scripts version)))
  rintro _ rest ⟨⟨errmsg, rfl⟩, hrest⟩
  obtain ⟨rest, rfl⟩ := Nat.exists_eq_add_of_le' hrest
  cases errmsg with
  | some what => exact ⟨⟨_, _, rfl, Or.inr rfl⟩, by omega⟩
  | none =>
  simp only [Prog.andThen, updateSchemaVersion, exec_bind, D.lawful.commit_eq, commit,
    Prog.ask_bind_eq, Prog.pure_bind_eq]
  refine wp_spends (n := rest + n + 1) fun answer => ?_
  split
  · exact ⟨⟨_, _, rfl, Or.inr rfl⟩, by omega⟩
  refine wp_spends (n := rest + n) fun answer => ?_
  cases ha : Answer.isSuccess answer with
  | false =>
    simp only [Bool.not_false, if_true, Bool.false_eq_true, if_false]
    exact ⟨⟨_, _, rfl, Or.inr rfl⟩, by omega⟩
  | true =>
    simp only [Bool.not_true, Bool.false_eq_true, if_false, if_true]
    exact ⟨⟨_, _, rfl, Or.inl rfl⟩, by omega⟩

/-- **No call asks for more.** -/
theorem program_atMost (D : Deployment ι σ δ) (c : ι) (call : ClientCall) :
    (call.program D c).AtMost (call.bound D) := by
  suffices h : Prog.wp (Prog.following Prog.Spends) (fun _ _ => True) (call.program D c)
      (call.bound D) from Prog.atMost_of_spends h
  cases call with
  | getSchemaVersion =>
    refine Prog.wp_bind.mpr (Prog.wp_mono Prog.following_monotone ?_
      (getSchemaVersion_spends (n := 0)))
    rintro (what | currVersion) rest -
    · trivial
    · trivial
  | migrateSchema version =>
    show Prog.wp _ _ (migrateSchema D.transactions (some (D.scripts version)) version D.suffix
      (some c)) ((D.scripts version).length + 4 + 3)
    refine Prog.wp_bind.mpr (Prog.wp_mono Prog.following_monotone ?_ getSchemaVersion_spends)
    rintro (what | currVersion) rest hrest
    · trivial
    obtain ⟨rest, rfl⟩ := Nat.exists_eq_add_of_le' hrest
    show Prog.wp _ _ (if version ≤ currVersion then pure () else _) _
    split
    · trivial
    split
    · trivial
    obtain ⟨what, -, hconstruct⟩ := D.lawful.construct_eq
    simp only [hconstruct, begin, exec_bind, Prog.ask_bind_eq]
    refine wp_spends (n := rest + ((D.scripts version).length + 3)) fun answer => ?_
    cases ha : Answer.isSuccess answer with
    | false =>
      simp only [Bool.false_eq_true, if_false]
      trivial
    | true =>
    -- what is left is enough for the script, UPDATE and COMMIT, and one more
    have hspare : rest + ((D.scripts version).length + 3)
        = rest + 1 + 2 + (D.scripts version).length := by omega
    simp only [if_true, Prog.pure_bind_eq]
    rw [hspare]
    refine Prog.wp_bind.mpr (Prog.wp_mono Prog.following_monotone ?_ migrateInTransaction_spends)
    rintro _ rest' ⟨⟨outcome, transaction, rfl, rfl | rfl⟩, hrest'⟩
    · simp only [Prog.andThen, D.lawful.destroy_closed, Prog.pure_bind_eq]
      cases outcome with
      | ok _ => trivial
      | error what => trivial
    · obtain ⟨rest', rfl⟩ := Nat.exists_eq_add_of_le' hrest'
      simp only [Prog.andThen, D.lawful.destroy_opened, rollback, exec_bind, Prog.ask_bind_eq,
        Prog.pure_bind_eq]
      refine wp_spends (n := rest' + rest) fun _ => ?_
      cases outcome with
      | ok _ => trivial
      | error what => trivial

end

/-! ## Every statement is answered -/

variable {κ : Type} [DecidableEq ι] {C : Components κ ι σ δ} {c i : ι}
  {job : Job κ} {w₀ w₁ w₂ w₃ : Clients κ ι σ δ} {moves moves' : List (ι × Threads.Move (Job κ))}

/-- A statement can always fail, or else it is the ROLLBACK of a transaction, which cannot. -/
theorem perform_answered (c : ι) (db : Db ι δ) (q : Query) :
    ∃ choice answer db', perform c db q choice = some (answer, db') := by
  by_cases hrollback : q = .rollback ∧ db.inTx c = true
  · obtain ⟨rfl, hin⟩ := hrollback
    exact ⟨.succeeds, .done, db.close c, if_pos hin⟩
  · exact ⟨.fails "" false, .failed "", db, if_neg hrollback⟩

theorem Stages.answered {stage : Stage σ} {q : Request ι σ} {next : Reply q → Stage σ}
    (hq : Stages C c job stage q next) (db : Db ι δ) :
    ∃ choice answer db', serve C.effect choice db q = some (answer, db') := by
  cases hq with
  | scriptStatement done statement => exact ⟨.fails "" false, some "", db, rfl⟩
  | _ => exact perform_answered c db _

/-- **A call ends after a bounded number of its own steps**, in every run: `answers i moves'` of
    them have been taken since it began, there are never more than its statements, and as long
    as it has not ended there is a next one, whatever the other clients and the lost ones did. -/
theorem calls_bounded (C : Components κ ι σ δ) (hrest : Resting w₀)
    (hbefore : (C.threads .any).Run w₀ moves w₁)
    (hstart : (C.threads .any).Step w₁ i (.start job) w₂)
    (hrun : (C.threads .any).Run w₂ moves' w₃) (hstays : Threads.Stays i moves') :
    Threads.answers i moves' ≤ job.call.bound (C.deployment job.component) ∧
      ((w₃.thread i).running.question ≠ none →
        Threads.answers i moves' < job.call.bound (C.deployment job.component) ∧
          ∃ w₄, (C.threads .any).Step w₃ i .answer w₄) := by
  have hbound : (w₂.thread i).running.AtMost (job.call.bound (C.deployment job.component)) := by
    cases hstart with
    | start job hended =>
      rw [Threads.State.set_thread_self]
      exact program_atMost (C.deployment job.component) i job.call
  obtain ⟨hle, hrest'⟩ := hrun.answers_le hstays hbound
  refine ⟨hle, fun hasks => ?_⟩
  cases hr : (w₃.thread i).running with
  | pure a =>
    rw [hr] at hasks
    exact absurd rfl hasks
  | throw e =>
    rw [hr] at hasks
    exact absurd rfl hasks
  | ask q k =>
    constructor
    · -- a program that asks has a bound that is not used up
      rw [hr] at hrest'
      by_contra hnot
      rw [Nat.sub_eq_zero_of_le (Nat.not_lt.mp hnot)] at hrest'
      exact hrest'
    · have hvalid := holdingOutline_valid C .any
      have hresting : (holdingOutline C).Met w₀ :=
        hvalid.met trivial hrest.ended fun i => hrest.closed i
      have hmet := hvalid.run hresting (hbefore.append (.cons hstart hrun))
      obtain ⟨stage, hphase, -⟩ := hmet.stands i
      unfold Threads.Outline.InPhase at hphase
      rw [hr] at hphase
      obtain ⟨next, hasks, -⟩ := hphase
      obtain ⟨choice, answer, db', hserve⟩ := Stages.answered hasks w₃.shared.db
      exact ⟨_, .answer hr ⟨choice, db', trivial, hserve, rfl⟩⟩

/-- The second client is lost before the first one, in its second statement, goes on. -/
theorem calls_bounded_twoClients :
    ∃ (w₃ : Clients Bool Bool Nat (List Nat)) (moves' : List (Bool × Threads.Move (Job Bool))),
      moves' = [(false, .answer), (true, .lost ⟨true, .getSchemaVersion⟩)] ∧
      Threads.answers false moves' < 9 ∧
      ∃ w₄, (plainComponents.threads .any).Step w₃ false .answer w₄ := by
  have hstart : (plainComponents.threads .any).Step newClients false
      (.start ⟨false, .migrateSchema 1⟩) _ := .start _ rfl
  have hfirst : (plainComponents.threads .any).Step
      (Threads.State.set newClients false ⟨emptyDb, [], fun _ => []⟩
        ⟨⟨false, .migrateSchema 1⟩,
          (ClientCall.migrateSchema 1).program (plainComponents.deployment false) false⟩)
      false .answer _ :=
    .answer (q := .exec false (.createTable (getSchemaVersionTableName none))) rfl
      ⟨.succeeds, _, trivial, rfl, rfl⟩
  have hrun := Threads.Run.cons hfirst (.cons (.lost (i := true) ⟨true, .getSchemaVersion⟩) (.nil _))
  obtain ⟨-, hnext⟩ := calls_bounded plainComponents newClients_resting (.nil _) hstart hrun (by
    intro move hmove hi
    simp only [List.mem_cons, List.not_mem_nil, or_false] at hmove
    rcases hmove with rfl | rfl
    · rfl
    · cases hi)
  exact ⟨_, _, rfl, hnext (fun hended => by cases hended)⟩

end OatppSqlite.Executor
