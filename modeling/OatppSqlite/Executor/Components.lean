import OatppSqlite.Lib.Threads
import OatppSqlite.Executor.Suffixes

/-!
# Components that share a database

Each component of an application keeps a schema of its own, with its suffix and its scripts, and
any number of clients make calls for any of them, in any order. A client may be lost in the middle
of a call: its process ends, its connection is gone, and SQLite drops what its transaction had not
committed.

The clients are threads over the database. One that runs a call for a component leaves the version
tables of the others alone (`serve_frame`), and what the other clients have in their transactions.

Which choices the environment has for a statement is a `Guard`. `Components.isolated` is the one
of SQLite: where another client has changed what a transaction has read, the transaction does not
get to write any more (`SQLITE_BUSY_SNAPSHOT`), or the other client does not get to commit.
-/

set_option autoImplicit false

namespace OatppSqlite.Executor

open Sqlite

variable {κ ι σ δ : Type}

/-! ## Components and clients -/

/-- The components, and what their clients have in common. -/
structure Components (κ ι σ δ : Type) where
  transactions : TransactionClass ι σ
  lawful : LawfulTransaction transactions
  effect : σ → δ → Effect δ
  suffix : κ → Option Text
  scripts : κ → Int → List σ

/-- One component by itself. -/
def Components.deployment (C : Components κ ι σ δ) (a : κ) : Deployment ι σ δ :=
  ⟨C.transactions, C.lawful, C.scripts a, C.suffix a, C.effect⟩

/-- The version table of a component. -/
def Components.table (C : Components κ ι σ δ) (a : κ) : Text := (C.deployment a).table

/-- The suffixes are over `[A-Za-z0-9_]`, as those of a `Suffix`, and SQLite tells them apart: no two
    of them are the same when letters are compared without regard to case. -/
structure Components.Apart (C : Components κ ι σ δ) : Prop where
  plain : ∀ a, ((C.suffix a).getD []).all (fun x => isLetter x || isDigit x || x == '_') = true
  apart : ∀ a b, a ≠ b → foldCase ((C.suffix a).getD []) ≠ foldCase ((C.suffix b).getD [])

/-- A call for a component. -/
structure Job (κ : Type) where
  component : κ
  call : ClientCall
  deriving DecidableEq

/-- The script of a call. -/
def Components.script (C : Components κ ι σ δ) (job : Job κ) : List σ :=
  match job.call with
  | .getSchemaVersion => []
  | .migrateSchema newVersion => C.scripts job.component newVersion

/-- The database; the versions whose transaction was committed, the last one first, each with its
    component; and what has run of the script in the transaction of each client. -/
structure Shared (κ ι σ δ : Type) where
  db : Db ι δ
  committed : List (κ × Int)
  ran : ι → List σ

/-- What a successful COMMIT of a call adds to `committed`. -/
def Job.commits (job : Job κ) (q : Request ι σ) (answer : Reply q) : List (κ × Int) :=
  (job.call.commits q answer).map fun version => (job.component, version)

/-- What an answer adds to `ran`: a transaction begins without a statement of its script. -/
def ranAfter [DecidableEq ι] (ran : ι → List σ) : (q : Request ι σ) → Reply q → ι → List σ
  | .exec c .begin, _ => Function.update ran c []
  | .scriptStatement c statement, errmsg =>
    if Option.isNone errmsg then Function.update ran c (ran c ++ [statement]) else ran
  | _, _ => ran

/-- A statement of a call is answered, and leads to the database `db'`. -/
def Shared.answered [DecidableEq ι] (s : Shared κ ι σ δ) (job : Job κ) (q : Request ι σ)
    (answer : Reply q) (db' : Db ι δ) : Shared κ ι σ δ :=
  ⟨db', job.commits q answer ++ s.committed, ranAfter s.ran q answer⟩

/-- Which choices there are for a statement of a client. -/
abbrev Guard (κ ι σ δ : Type) := ι → Job κ → Shared κ ι σ δ → Request ι σ → Choice → Prop

/-- Any choice. -/
def Guard.any : Guard κ ι σ δ := fun _ _ _ _ _ => True

instance (i : ι) (job : Job κ) (s : Shared κ ι σ δ) (q : Request ι σ) (choice : Choice) :
    Decidable (Guard.any i job s q choice) := inferInstanceAs (Decidable True)

/-- A transaction starts to write only while what its statements have read is still so. -/
def Components.isolated [DecidableEq ι] (C : Components κ ι σ δ) : Guard κ ι σ δ :=
  fun i _ s q choice =>
    q.writes C.effect (s.db.store i).data = true → choice = .succeeds → s.db.inTx i = true →
      s.db.writer.isNone = true →
      ∀ statement ∈ s.ran i, (C.effect statement s.db.committed.data).isReads = true

instance [DecidableEq ι] (C : Components κ ι σ δ) (i : ι) (job : Job κ) (s : Shared κ ι σ δ)
    (q : Request ι σ) (choice : Choice) : Decidable (C.isolated i job s q choice) :=
  inferInstanceAs (Decidable (_ → _ → _ → _ → _))

/-- Clients, each at its own point of a call. -/
abbrev Clients (κ ι σ δ : Type) :=
  Threads.State (Request ι σ) Reply String ι (Job κ) (Shared κ ι σ δ)

/-- What the clients do, and what becomes of the transaction of one that is lost. -/
def Components.threads [DecidableEq ι] (C : Components κ ι σ δ) (G : Guard κ ι σ δ) :
    Threads (Request ι σ) Reply String ι (Job κ) (Shared κ ι σ δ) where
  program i job := job.call.program (C.deployment job.component) i
  env i job s q answer s' := ∃ choice db', G i job s q choice ∧
    serve C.effect choice s.db q = some (answer, db') ∧ s' = s.answered job q answer db'
  lost i s := { s with db := s.db.close i }

/-- No client is in a call, and no transaction is open. -/
structure Resting (w : Clients κ ι σ δ) : Prop where
  ended : ∀ i, (w.thread i).running.question = none
  inTx : ∀ i, w.shared.db.inTx i = false
  writer : w.shared.db.writer = none

theorem Resting.closed {w : Clients κ ι σ δ} (h : Resting w) (i : ι) : Closed w.shared.db i := by
  refine ⟨h.inTx i, fun s hs => ?_⟩
  rw [h.writer] at hs
  cases hs

/-- The components have tables of their own. -/
theorem Components.Apart.table_ne {C : Components κ ι σ δ} (h : C.Apart) {a b : κ} (hab : a ≠ b) :
    tableKey (C.table a) ≠ tableKey (C.table b) := by
  intro hkey
  exact h.apart a b hab ((Suffix.tableKey_eq_iff ⟨_, h.plain a⟩ ⟨_, h.plain b⟩).mp hkey)

/-- Clients that may choose more have all the runs. -/
theorem run_mono [DecidableEq ι] {C : Components κ ι σ δ} {G G' : Guard κ ι σ δ}
    {w₀ w : Clients κ ι σ δ} {moves : List (ι × Threads.Move (Job κ))}
    (hG : ∀ i job s q choice, G i job s q choice → G' i job s q choice)
    (hrun : (C.threads G).Run w₀ moves w) : (C.threads G').Run w₀ moves w := by
  refine Threads.Run.mono (T := C.threads G) rfl rfl (fun i job s q a s' hE => ?_) hrun
  obtain ⟨choice, db', hguard, hserve⟩ := hE
  exact ⟨choice, db', hG i job s q choice hguard, hserve⟩

/-! ## Schedules -/

section

variable [DecidableEq ι] {C : Components κ ι σ δ} {G : Guard κ ι σ δ} {w w' : Clients κ ι σ δ}

/-- What happens to a client: its next statement is answered, it starts a call, or it is lost. -/
inductive Act (κ : Type) where
  | choose (choice : Choice)
  | start (job : Job κ)
  | lose (job : Job κ)

def Components.act (C : Components κ ι σ δ) (G : Guard κ ι σ δ)
    [∀ i job s q choice, Decidable (G i job s q choice)] (w : Clients κ ι σ δ) (i : ι) :
    Act κ → Option (Clients κ ι σ δ)
  | .choose choice =>
    match (w.thread i).running with
    | .ask q k =>
      if G i (w.thread i).job w.shared q choice then
        match serve C.effect choice w.shared.db q with
        | some (answer, db') => some (w.set i
            (w.shared.answered (w.thread i).job q answer db') ⟨(w.thread i).job, k answer⟩)
        | none => none
      else none
    | _ => none
  | .start job =>
    if (w.thread i).running.question.isNone then
      some (w.set i w.shared ⟨job, job.call.program (C.deployment job.component) i⟩)
    else none
  | .lose job => some (w.set i { w.shared with db := w.shared.db.close i } ⟨job, .pure ()⟩)

/-- One act after the other, as long as `G` allows them. -/
def Components.schedule (C : Components κ ι σ δ) (G : Guard κ ι σ δ)
    [∀ i job s q choice, Decidable (G i job s q choice)] (w : Clients κ ι σ δ) :
    List (ι × Act κ) → Option (Clients κ ι σ δ)
  | [] => some w
  | (i, act) :: acts =>
    match C.act G w i act with
    | some w' => C.schedule G w' acts
    | none => none

theorem act_step [∀ i job s q choice, Decidable (G i job s q choice)] {i : ι} {act : Act κ}
    (h : C.act G w i act = some w') : ∃ move, (C.threads G).Step w i move w' := by
  cases act with
  | choose choice =>
    unfold Components.act at h
    dsimp only at h
    split at h
    · split at h
      · split at h
        · cases h
          exact ⟨_, .answer ‹_› ⟨choice, _, ‹_›, ‹_›, rfl⟩⟩
        · cases h
      · cases h
    · cases h
  | start job =>
    unfold Components.act at h
    dsimp only at h
    split at h
    · cases h
      exact ⟨_, .start job (Option.isNone_iff_eq_none.mp ‹_›)⟩
    · cases h
  | lose job =>
    cases h
    exact ⟨_, .lost job⟩

variable (w) in
/-- **A schedule is a run.** -/
theorem schedule_run [∀ i job s q choice, Decidable (G i job s q choice)]
    (acts : List (ι × Act κ)) (h : C.schedule G w acts = some w') :
    ∃ moves, (C.threads G).Run w moves w' := by
  induction acts generalizing w with
  | nil =>
    cases h
    exact ⟨[], .nil _⟩
  | cons act acts ih =>
    obtain ⟨i, act⟩ := act
    rw [Components.schedule] at h
    split at h
    · obtain ⟨move, hstep⟩ := act_step ‹_›
      obtain ⟨moves, hrun⟩ := ih _ h
      exact ⟨_, .cons hstep hrun⟩
    · cases h

end

/-! ## A `System` has one component -/

def Deployment.component (D : Deployment ι σ δ) : Components Unit ι σ δ where
  transactions := D.transactions
  lawful := D.lawful
  effect := D.effect
  suffix _ := D.suffix
  scripts _ := D.scripts

/-- The clients of a `System`, which does not keep what has run in their transactions. -/
def System.clients (sys : System ι σ δ) (ran : ι → List σ) : Clients Unit ι σ δ :=
  ⟨⟨sys.db, sys.committed.map fun version => ((), version), ran⟩,
    fun i => ⟨⟨(), (sys.client i).call⟩, (sys.client i).running⟩⟩

theorem System.Quiet.resting {sys : System ι σ δ} (h : sys.Quiet) (ran : ι → List σ) :
    Resting (sys.clients ran) where
  ended i := by
    show (sys.client i).running.question = none
    rw [h.running i]
    rfl
  inTx := h.inTx
  writer := h.writer

section

variable [DecidableEq ι] {D : Deployment ι σ δ} {G : Guard Unit ι σ δ} {sys sys' : System ι σ δ}
  {i : ι} {choice : Choice} {ran : ι → List σ}

theorem System.clients_update (sys : System ι σ δ) (ran : ι → List σ) (i : ι) (db : Db ι δ)
    (c : Client ι σ) (committed : List Int) :
    (⟨db, Function.update sys.client i c, committed⟩ : System ι σ δ).clients ran
      = (sys.clients ran).set i ⟨db, committed.map fun version => ((), version), ran⟩
        ⟨⟨(), c.call⟩, c.running⟩ := by
  unfold Threads.State.set System.clients
  congr 1
  funext j
  by_cases hj : j = i
  · subst hj
    simp
  · simp [hj]

/-- `G` allows the choice for the statement that the client stands before. -/
def System.Allows (G : Guard Unit ι σ δ) (sys : System ι σ δ) (i : ι) (choice : Choice) : Prop :=
  ∀ q k ran, (sys.client i).running = .ask q k →
    G i ⟨(), (sys.client i).call⟩ (sys.clients ran).shared q choice

variable (ran) in
/-- **A step of the system** is a step of its clients. -/
theorem advance_clients (hG : sys.Allows G i choice) (h : D.advance sys i choice = some sys') :
    ∃ move ran', (D.component.threads G).Step (sys.clients ran) i move (sys'.clients ran') := by
  unfold Deployment.advance at h
  split at h
  · rename_i q k hrunning
    split at h
    · rename_i answer db' hserve
      cases h
      refine ⟨.answer, ranAfter ran q answer, ?_⟩
      -- what has run is all that the clients have more than the system
      have hset := System.clients_update sys (ranAfter ran q answer) i db'
        { sys.client i with running := k answer }
        ((sys.client i).call.commits q answer ++ sys.committed)
      rw [hset]
      refine .answer hrunning ⟨choice, db', hG q k ran hrunning, hserve, ?_⟩
      unfold Shared.answered
      rw [List.map_append]
      rfl
    · cases h
  · rename_i hrunning
    split at h
    · cases h
    · rename_i call calls hcalls
      cases h
      refine ⟨.start ⟨(), call⟩, ran, ?_⟩
      have hended : ((sys.clients ran).thread i).running.question = none := by
        show (sys.client i).running.question = none
        cases hr : (sys.client i).running with
        | pure a => rfl
        | throw e => rfl
        | ask q k => exact absurd hr (hrunning q k)
      rw [System.clients_update]
      exact .start ⟨(), call⟩ hended

variable (ran) in
/-- **So is a run.** -/
theorem reaches_clients {G' : System ι σ δ → ι → Choice → Prop}
    (hG : ∀ sys i choice, G' sys i choice → sys.Allows G i choice) (h : D.Reaches G' sys sys') :
    ∃ moves ran', (D.component.threads G).Run (sys.clients ran) moves (sys'.clients ran') := by
  induction h with
  | refl => exact ⟨[], ran, .nil _⟩
  | tail _ hstep ih =>
    obtain ⟨moves, ran', hrun⟩ := ih
    obtain ⟨i, choice, hguard, hadvance⟩ := hstep
    obtain ⟨move, ran'', hstep⟩ := advance_clients ran' (hG _ _ _ hguard) hadvance
    exact ⟨_, ran'', hrun.append (.cons hstep (.nil _))⟩

end

/-! ## The other tables -/

section

variable [DecidableEq ι] {c : ι} {table : Text} {v : Option Int} {phase : Phase} {db db' : Db ι δ}
  {effect : σ → δ → Effect δ} {choice : Choice} {q : Request ι σ} {next : Reply q → Phase}
  {answer : Reply q}

/-- The copy of a connection is the committed store but for its data and this table. -/
def OwnTable (table : Text) (db : Db ι δ) (c : ι) : Prop :=
  ∀ w, db.writer = some (c, w) → SameBut table db.committed w

omit [DecidableEq ι] in
theorem Closed.ownTable (h : Closed db c) : OwnTable table db c := fun w hw => absurd hw (h.2 w)

omit [DecidableEq ι] in
theorem OwnTable.untouched (h : OwnTable table db c) (hd : Untouched c db db') :
    OwnTable table db' c := by
  intro w hw
  have hw' := (hd.writer w).mp hw
  rw [hd.committed w hw']
  exact h w hw'

/-- **A statement of a call leaves the other tables alone**, in what is committed and in the copy
    of its transaction. -/
theorem serve_frame (hq : Protocol c table v phase q next) (h : OwnTable table db c)
    (hE : serve effect choice db q = some (answer, db')) :
    SameBut table db.committed db'.committed ∧ OwnTable table db' c := by
  -- since now, nothing has changed yet
  have hstart : Kept c table db db := ⟨fun j _ => .refl j db, .refl _, h⟩
  have hkept : Kept c table db db' := by
    cases q with
    | getConnection => cases hE
    | exec c' q =>
      obtain rfl : c' = c := by cases hq <;> rfl
      exact hstart.perform hq hE
    | scriptStatement c' statement =>
      obtain rfl : c' = c := by cases hq; rfl
      exact hstart.performScript hE
  exact ⟨hkept.committed, fun w hw t ht =>
    (hkept.copy w hw t ht).trans (hkept.committed t ht).symm⟩

end

/-! ## Two components -/

/-- A component that numbers its statements from 10 on, with the suffix `a`, and one without
    a suffix. Their scripts read before they write. -/
def plainComponents : Components Bool Bool Nat (List Nat) where
  transactions := plainTransaction
  lawful := plainTransaction_lawful
  effect := logged
  suffix a := if a then some ['a'] else none
  scripts a version := [0, (if a then 10 else 0) + version.toNat]

theorem plainComponents_apart : plainComponents.Apart := ⟨by decide, by decide⟩

/-- Nobody is in a call, and nothing is in the database. -/
def newClients : Clients Bool Bool Nat (List Nat) :=
  ⟨⟨emptyDb, [], fun _ => []⟩, fun _ => ⟨⟨false, .getSchemaVersion⟩, .pure ()⟩⟩

theorem newClients_resting : Resting newClients := ⟨fun _ => rfl, fun _ => rfl, rfl⟩

/-- A call from its start on, all of whose statements succeed. -/
def wholeCall (client component : Bool) (version : Int) (statements : Nat) :
    List (Bool × Act Bool) :=
  (client, .start ⟨component, .migrateSchema version⟩) ::
    .replicate statements (client, .choose .succeeds)

end OatppSqlite.Executor
