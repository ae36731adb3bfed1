import OatppSqlite.Executor.Crashes

/-!
# The clients as one sequence of migrations

What migrations are for needs no clients: each component has a version, there are data, and the
next migration of a component applies its next script (`Components.Migrates`). `migrations_refine`
says that any number of clients come to just that, if no transaction starts to write after another
client has changed the version that was compared: every version of a component once, in order, with
the whole of its script, whoever is lost on the way.

The proof puts two outlines together: `transactionOutline` for the data, and the phases of
`Protocol` with what a client may rely on in them (`Standing`) for the order of the versions. That
the tables have one row is `OneRow`, and a client's step keeps it of every table: of its own by
`serve_oneRow`, and of the others as it leaves them alone.
-/

set_option autoImplicit false

namespace OatppSqlite.Executor

open Sqlite

variable {κ ι σ δ : Type} [DecidableEq κ]

/-! ## The sequence

What happened is a list of migrations, the last one first, as the runs of the clients record it
(`Shared.committed`). In order it is a run of `Migrates`, one step for each. -/

/-- The next migration of a component. -/
inductive Components.Migrates (C : Components κ ι σ δ) : (κ → Int) × δ → (κ → Int) × δ → Prop
  | next (a : κ) {n : κ → Int} {d d' : δ}
      (hscript : applyScript C.effect (C.scripts a (n a + 1)) d = some d') :
      C.Migrates (n, d) (Function.update n a (n a + 1), d')

/-- Migrations, the last one first, each of which is the next one of its component; they lead from
    the versions `n` to these. -/
inductive InOrder (n : κ → Int) : List (κ × Int) → (κ → Int) → Prop
  | nil : InOrder n [] n
  | cons (a : κ) {added : List (κ × Int)} {m : κ → Int} (h : InOrder n added m) :
      InOrder n ((a, m a + 1) :: added) (Function.update m a (m a + 1))

/-- The versions of the `k` migrations after version `n`, the last one first. -/
def versionsAfter (n : Int) : Nat → List Int
  | 0 => []
  | k + 1 => (n + k + 1) :: versionsAfter n k

section

variable {C : Components κ ι σ δ} {n m : κ → Int} {added : List (κ × Int)} {d d' : δ}

/-- **Each version of a component once**, and none left out. -/
theorem InOrder.versionsOf (h : InOrder n added m) (a : κ) :
    ∃ k : Nat, versionsOf a added = versionsAfter (n a) k ∧ m a = n a + k := by
  induction h with
  | nil => exact ⟨0, rfl, by omega⟩
  | @cons b added m h ih =>
    obtain ⟨k, hversions, hm⟩ := ih
    by_cases hab : a = b
    · subst hab
      refine ⟨k + 1, ?_, ?_⟩
      · rw [versionsOf_cons_self, hversions, hm, versionsAfter]
      · rw [Function.update_self, hm]
        omega
    · exact ⟨k, by rw [versionsOf_cons_of_ne hab, hversions],
        by rw [Function.update_of_ne hab, hm]⟩

/-- Their scripts, one after the other, are that many migrations. -/
theorem InOrder.migrates (h : InOrder n added m)
    (hdata : C.applyMigrations added.reverse d = some d') :
    Relation.ReflTransGen C.Migrates (n, d) (m, d') := by
  induction h generalizing d' with
  | nil =>
    cases hdata
    exact .refl
  | @cons a added m h ih =>
    unfold Components.applyMigrations at hdata
    rw [List.reverse_cons, List.foldlM_append] at hdata
    obtain ⟨d₁, hfirst, hlast⟩ := Option.bind_eq_some_iff.mp hdata
    have hscript : applyScript C.effect (C.scripts a (m a + 1)) d₁ = some d' := by
      simpa using hlast
    exact (ih hfirst).tail (.next a hscript)

end

/-! ## Taking turns

Two conditions are put together here: the isolation that SQLite has, and that no check of a call is
outrun. For the versions alone the second one is enough. -/

variable [DecidableEq ι] {C : Components κ ι σ δ} {w w₀ : Clients κ ι σ δ}
  {moves : List (ι × Threads.Move (Job κ))} {n : κ → Int} {committed : List (κ × Int)}

omit [DecidableEq κ] in
/-- Neither check of a call is outrun: no INSERT of the version row beside another one, and no
    transaction that starts to write after the version it compared has changed. -/
def Components.checked (C : Components κ ι σ δ) : Guard κ ι σ δ :=
  fun i job s q choice =>
    (q = .exec i (.insertZero (C.table job.component)) → choice = .succeeds →
      ((s.db.store i).table (C.table job.component)).getD [] = []) ∧
    (q.writes C.effect (s.db.store i).data = true → choice = .succeeds → s.db.inTx i = true →
      s.db.writer.isNone = true → job.call.version?
        = some (storedVersion (s.db.committed.table (C.table job.component)) + 1))

omit [DecidableEq κ] in
instance [DecidableEq σ] (C : Components κ ι σ δ) (i : ι) (job : Job κ) (s : Shared κ ι σ δ)
    (q : Request ι σ) (choice : Choice) : Decidable (C.checked i job s q choice) :=
  inferInstanceAs (Decidable ((_ → _ → _) ∧ (_ → _ → _ → _ → _)))

omit [DecidableEq κ] in
/-- The clients write in turn, on a database that keeps transactions isolated. -/
def Components.inTurn (C : Components κ ι σ δ) : Guard κ ι σ δ :=
  fun i job s q choice => C.isolated i job s q choice ∧ C.checked i job s q choice

omit [DecidableEq κ] in
instance [DecidableEq σ] (C : Components κ ι σ δ) (i : ι) (job : Job κ) (s : Shared κ ι σ δ)
    (q : Request ι σ) (choice : Choice) : Decidable (C.inTurn i job s q choice) :=
  inferInstanceAs (Decidable (_ ∧ _))

omit [DecidableEq κ] in
/-- It is what the two conditions on a step of a system ask for. -/
theorem Deployment.Serial.allows {D : Deployment ι σ δ} {sys : System ι σ δ} {i : ι}
    {choice : Choice} (hinserts : D.InsertsIntoEmpty sys i choice)
    (hserial : D.Serial sys i choice) : sys.Allows D.component.checked i choice := by
  intro q k ran hrunning
  have hquestion : (sys.client i).running.question = some q := by
    rw [hrunning]
    rfl
  refine ⟨fun hq => hinserts (by rw [hquestion, hq]; rfl), fun hwrites => hserial ?_⟩
  rw [hquestion]
  exact hwrites

/-- The committed versions of every component follow one another from `n` on, and its version
    table has the last one, in the one row that it has at most. -/
structure Consecutive (C : Components κ ι σ δ) (n : κ → Int) (committed : List (κ × Int))
    (added : List (κ × Int)) (m : κ → Int) (s : Shared κ ι σ δ) : Prop where
  committed : s.committed = added ++ committed
  inOrder : InOrder n added m
  atVersion : ∀ a, AtVersion (m a) (s.db.committed.table (C.table a))
  oneRow : ∀ a, OneRow (C.table a) s.db

omit [DecidableEq ι] in
theorem Consecutive.versioned {added : List (κ × Int)} {m : κ → Int} {s : Shared κ ι σ δ}
    (h : Consecutive C n committed added m s) (a : κ) :
    Versioned (m a) (s.db.committed.table (C.table a)) :=
  (h.atVersion a).versioned (h.oneRow a).committed

omit [DecidableEq κ] in
/-- A table that a client's step leaves alone keeps its one row. -/
theorem OneRow.other {table t : Text} {i : ι} {db db' : Db ι δ} (h : OneRow t db)
    (ht : tableKey t ≠ tableKey table) (hframe : SameBut table db.committed db'.committed)
    (hown : OwnTable table db' i) (huntouched : ∀ j, j ≠ i → Untouched j db db') :
    OneRow t db' := by
  have hcommitted : HasOneRow t db'.committed := by
    intro rows hrows
    rw [hframe t ht] at hrows
    exact h.committed rows hrows
  refine ⟨hcommitted, fun j w hw => ?_⟩
  by_cases hj : j = i
  · subst hj
    intro rows hrows
    rw [hown w hw t ht] at hrows
    exact hcommitted rows hrows
  · exact h.copy j w (((huntouched j hj).writer w).mp hw)

omit [DecidableEq ι] in
theorem Consecutive.next (hC : C.Apart) {added : List (κ × Int)} {m : κ → Int} {job : Job κ}
    {log : List Int} {s s' : Shared κ ι σ δ} (h : Consecutive C n committed added m s)
    (hrows : RowsStep (s.db.committed.table (C.table job.component))
      (s'.db.committed.table (C.table job.component)) log)
    (hframe : SameBut (C.table job.component) s.db.committed s'.db.committed)
    (hone : ∀ a, OneRow (C.table a) s'.db)
    (hlog : s'.committed = (log.map fun version => (job.component, version)) ++ s.committed) :
    ∃ added' m', Consecutive C n committed added' m' s' := by
  have hothers : ∀ a, a ≠ job.component →
      AtVersion (m a) (s'.db.committed.table (C.table a)) := by
    intro a ha
    rw [hframe _ (hC.table_ne ha)]
    exact h.atVersion a
  rcases hrows.atVersion (h.atVersion job.component) with ⟨rfl, hv⟩ | ⟨rfl, hv⟩
  · -- nothing was migrated
    refine ⟨added, m, hlog.trans h.committed, h.inOrder, fun a => ?_, hone⟩
    by_cases ha : a = job.component
    · subst ha
      exact hv
    · exact hothers a ha
  · -- the next version of this component was
    refine ⟨_, _, ?_, h.inOrder.cons job.component, fun a => ?_, hone⟩
    · rw [hlog, h.committed]
      rfl
    · by_cases ha : a = job.component
      · subst ha
        rw [Function.update_self]
        exact hv
      · rw [Function.update_of_ne ha]
        exact hothers a ha

/-- The phases of a call, and the versions since the start. No client is given several rows. -/
def versionOutline (C : Components κ ι σ δ) (n : κ → Int) (committed : List (κ × Int)) :
    Threads.Outline (Request ι σ) Reply ι (Job κ) (Shared κ ι σ δ) Phase where
  Asks i job := Protocol i (C.table job.component) job.call.version?
  start := .free
  AtRest := Phase.Outside
  Shared s := ∃ added m, Consecutive C n committed added m s
  Stands i job phase s := Standing (C.table job.component) job.call.version? s.db i phase ∧
    OwnTable (C.table job.component) s.db i ∧ phase ≠ .doomed

/-- **A client's step**, when no check was outrun. -/
theorem Consecutive.answered (hC : C.Apart) {i : ι} {job : Job κ} {phase : Phase}
    {q : Request ι σ} {next : Reply q → Phase} {answer : Reply q} {s s' : Shared κ ι σ δ}
    {added : List (κ × Int)} {m : κ → Int} (h : Consecutive C n committed added m s)
    (hq : Protocol i (C.table job.component) job.call.version? phase q next)
    (hstands : (versionOutline C n committed).Stands i job phase s)
    (hE : (C.threads C.checked).env i job s q answer s') :
    (versionOutline C n committed).Stands i job (next answer) s' ∧
      RowsStep (s.db.committed.table (C.table job.component))
        (s'.db.committed.table (C.table job.component)) (job.call.commits q answer) ∧
      SameBut (C.table job.component) s.db.committed s'.db.committed ∧
      ∀ a, OneRow (C.table a) s'.db := by
  obtain ⟨hstanding, hown, hphase⟩ := hstands
  obtain ⟨choice, db', ⟨hinsert, hstart⟩, hserve, rfl⟩ := hE
  have hversion := h.atVersion job.component
  obtain ⟨hnext, hrows⟩ := hstanding.serve hq hversion (fun hwrites hchoice hin hwriter => by
    rw [hstart hwrites hchoice hin (by rw [hwriter]; rfl), hversion.storedVersion_eq]) hserve
  obtain ⟨hframe, hown'⟩ := serve_frame hq hown hserve
  obtain ⟨hone, hphase'⟩ := serve_oneRow (h.oneRow job.component) hphase hq hinsert hserve
  refine ⟨⟨hnext, hown', hphase'⟩, hrows, hframe, fun a => ?_⟩
  by_cases ha : a = job.component
  · subst ha
    exact hone
  · exact (h.oneRow a).other (hC.table_ne ha) hframe hown'
      fun j hj => serve_untouched hj hq hserve

theorem versionOutline_valid (hC : C.Apart) (n : κ → Int) (committed : List (κ × Int)) :
    (versionOutline C n committed).Valid (C.threads C.checked) where
  start_atRest := trivial
  follows i job := Prog.wp_mono Prog.following_monotone (fun _ _ h => h.outside)
    (job.call.program_follows (C.deployment job.component) i)
  answer := by
    rintro i job phase q next s answer s' hq ⟨added, m, hshared⟩ hstands hE
    obtain ⟨hnext, hrows, hframe, hone⟩ := hshared.answered hC hq hstands hE
    obtain ⟨choice, db', -, -, rfl⟩ := hE
    exact ⟨hshared.next hC hrows hframe hone rfl, hnext⟩
  apart := by
    rintro i job phase q next s answer s' j job' phase' hj hq ⟨added, m, hshared⟩ hstands
      hE ⟨hother, hown', hphase'⟩
    obtain ⟨-, hrows, hframe, -⟩ := hshared.answered hC hq hstands hE
    obtain ⟨choice, db', -, hserve, rfl⟩ := hE
    have huntouched := serve_untouched hj hq hserve
    refine ⟨?_, hown'.untouched huntouched, hphase'⟩
    by_cases ha : job'.component = job.component
    · rw [ha] at hother ⊢
      exact hother.untouched huntouched hrows
    · -- the table of another component is as it was
      have hsame := hframe _ (hC.table_ne ha)
      refine hother.untouched huntouched (?_ : RowsStep _ _ [])
      rw [hsame]
      exact .same _
  atRest := fun hphase ⟨hstands, _, _⟩ =>
    ⟨Standing.of_outside hstands hphase, (Standing.of_outside hstands hphase).ownTable, nofun⟩
  lost := fun ⟨added, m, hshared⟩ _ =>
    ⟨⟨added, m, hshared.committed, hshared.inOrder, hshared.atVersion,
      fun a => (hshared.oneRow a).close⟩, Closed.of_close _ _, (Closed.of_close _ _).ownTable, nofun⟩
  lost_apart := fun hj ⟨hstands, hown, hphase⟩ =>
    ⟨hstands.untouched (.close hj _) (RowsStep.same _), hown.untouched (.close hj _), hphase⟩

/-- Every state of a run in which no check is outrun has what was committed since the start in
    order. -/
theorem run_consecutive (hC : C.Apart) (hrest : Resting w₀)
    (hversioned : ∀ a, Versioned (n a) (w₀.shared.db.committed.table (C.table a)))
    (hrun : (C.threads C.checked).Run w₀ moves w) :
    ∃ added m, Consecutive C n w₀.shared.committed added m w.shared := by
  have hvalid := versionOutline_valid hC n w₀.shared.committed
  have hone : ∀ a, OneRow (C.table a) w₀.shared.db := by
    intro a
    refine ⟨(hversioned a).hasOneRow, fun i w hw => ?_⟩
    rw [hrest.writer] at hw
    cases hw
  have hstart : (versionOutline C n w₀.shared.committed).Met w₀ :=
    hvalid.met ⟨[], n, rfl, .nil, fun a => (hversioned a).atVersion, hone⟩ hrest.ended
      fun i => ⟨hrest.closed i, (hrest.closed i).ownTable, nofun⟩
  exact (hvalid.run hstart hrun).shared

/-- On a database that keeps transactions isolated, its data are the result of it. -/
theorem run_inTurn (hC : C.Apart) (hrest : Resting w₀)
    (hversioned : ∀ a, Versioned (n a) (w₀.shared.db.committed.table (C.table a)))
    (hrun : (C.threads C.inTurn).Run w₀ moves w) :
    ∃ added m, Consecutive C n w₀.shared.committed added m w.shared ∧
      C.applyMigrations added.reverse w₀.shared.db.committed.data
        = some w.shared.db.committed.data := by
  obtain ⟨added, m, hshared⟩ :=
    run_consecutive hC hrest hversioned (run_mono (fun _ _ _ _ _ h => h.2) hrun)
  -- both outlines speak of the same commits
  obtain ⟨added', hadded, hwhole⟩ := run_whole hC hrest (run_mono (fun _ _ _ _ _ h => h.1) hrun)
  obtain rfl : added' = added := List.append_cancel_right (hadded.symm.trans hshared.committed)
  exact ⟨_, m, hshared, hwhole.data⟩

/-- **The clients are one sequence of migrations**, in every run in which they write in turn:
    from the versions `n` on every version of a component was committed once and in order, its
    version table has the last one, and the data are the result of just these migrations. -/
theorem migrations_refine (C : Components κ ι σ δ) (hC : C.Apart) (hrest : Resting w₀)
    (hversioned : ∀ a, Versioned (n a) (w₀.shared.db.committed.table (C.table a)))
    (hrun : (C.threads C.inTurn).Run w₀ moves w) :
    ∃ added m, w.shared.committed = added ++ w₀.shared.committed ∧
      (∀ a, ∃ k : Nat, versionsOf a added = versionsAfter (n a) k ∧ m a = n a + k) ∧
      (∀ a, Versioned (m a) (w.shared.db.committed.table (C.table a))) ∧
      Relation.ReflTransGen C.Migrates (n, w₀.shared.db.committed.data)
        (m, w.shared.db.committed.data) := by
  obtain ⟨added, m, hshared, hdata⟩ := run_inTurn hC hrest hversioned hrun
  exact ⟨added, m, hshared.committed, hshared.inOrder.versionsOf, hshared.versioned,
    hshared.inOrder.migrates hdata⟩

/-- The first client is lost in its transaction, and comes back when the second one has migrated
    both components. -/
def lostInTurn : List (Bool × Act Bool) :=
  wholeCall false true 1 6 ++ (false, .lose ⟨true, .getSchemaVersion⟩) :: wholeCall true true 1 7
    ++ wholeCall true false 1 8 ++ wholeCall false true 2 7

theorem migrations_refine_lostInTurn :
    ∃ (w : Clients Bool Bool Nat (List Nat)) (added : List (Bool × Int)) (m : Bool → Int),
      w.shared.committed = [(true, 2), (false, 1), (true, 1)] ∧
      w.shared.db.committed.data = [11, 1, 12] ∧
      w.shared.committed = added ++ [] ∧
      Relation.ReflTransGen plainComponents.Migrates (fun _ => 0, [])
        (m, w.shared.db.committed.data) := by
  obtain ⟨moves, hrun⟩ := schedule_run (C := plainComponents) (G := plainComponents.inTurn)
    newClients lostInTurn rfl
  obtain ⟨added, m, hadded, -, -, hrefine⟩ := migrations_refine (n := fun _ => 0) plainComponents
    plainComponents_apart newClients_resting (fun _ => by exact .absent) hrun
  exact ⟨_, added, m, rfl, rfl, hadded, hrefine⟩

omit [DecidableEq κ] [DecidableEq ι] in
theorem versionsOf_unit (added : List (Unit × Int)) : versionsOf () added = added.map Prod.snd := by
  unfold versionsOf
  rw [List.filter_eq_self.mpr fun m _ => decide_eq_true rfl]

omit [DecidableEq κ] in
/-- A `System` commits the versions one after the other, in its runs in which neither check is
    outrun: what it knows of its clients is enough for that. -/
theorem serial_versions (D : Deployment ι σ δ) {sys₀ sys : System ι σ δ} {n : Int}
    (hC : D.component.Apart) (hquiet : sys₀.Quiet)
    (hversioned : Versioned n (sys₀.db.committed.table D.table))
    (hrun : D.Reaches (fun sys i choice =>
      D.InsertsIntoEmpty sys i choice ∧ D.Serial sys i choice) sys₀ sys) :
    ∃ k : Nat, sys.committed = versionsAfter n k ++ sys₀.committed ∧ D.version sys = n + k := by
  obtain ⟨moves, ran, hclients⟩ := reaches_clients (fun _ => [])
    (fun _ _ _ h => Deployment.Serial.allows h.1 h.2) hrun
  obtain ⟨added, m, hshared⟩ := run_consecutive (C := D.component) (n := fun _ => n) hC
    (hquiet.resting _) (fun _ => hversioned) hclients
  obtain ⟨k, hversions, hk⟩ := hshared.inOrder.versionsOf ()
  refine ⟨k, ?_, (hshared.atVersion ()).storedVersion_eq.trans hk⟩
  have hcommitted := congrArg (List.map Prod.snd) hshared.committed
  rw [List.map_append, ← versionsOf_unit added, hversions] at hcommitted
  have hsnd : ∀ versions : List Int,
      (versions.map fun version => ((), version)).map Prod.snd = versions := by
    intro versions
    rw [List.map_map]
    exact List.map_id versions
  exact (hsnd _).symm.trans (hcommitted.trans (congrArg _ (hsnd _)))

end OatppSqlite.Executor
