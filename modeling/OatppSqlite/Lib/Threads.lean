import OatppSqlite.Lib.Prog
import Mathlib.Logic.Function.Basic

/-!
# Programs over one state

Any number of threads run over one shared state, and each does one job after the other. A step of
the system is the answer to one question of one thread, the start of a job, or the loss of
a thread, which is given up wherever it stands and starts again between two jobs.

The rule is that of rely and guarantee. An `Outline` says which question of a job may come next,
as a protocol over phases, and what a thread may rely on in each phase. `Outline.Valid` is about
one answer at a time: to the thread itself it leads from what it relied on to what it relies on
next, and to every other thread it changes nothing that thread relies on. `Outline.Valid.run` is
what that comes to over whole runs.

`Prog.AtMost` bounds the questions of a program, and `Run.answers_le` the steps of a thread in
a job, whatever the others do in between.
-/

set_option autoImplicit false

/-! ## Bounded programs -/

namespace Prog

variable {Q : Type} {A : Q → Type} {ε α : Type}

/-- At most `n` questions, whatever the answers are. -/
def AtMost : Prog Q A ε α → Nat → Prop
  | .pure _, _ => True
  | .throw _, _ => True
  | .ask _ _, 0 => False
  | .ask _ k, n + 1 => ∀ a, AtMost (k a) n

/-- The protocol of a budget, which every question takes one off. -/
inductive Spends : Nat → (q : Q) → (A q → Nat) → Prop
  | ask (n : Nat) (q : Q) : Spends (n + 1) q fun _ => n

variable {p : Prog Q A ε α} {n : Nat}

/-- A program that keeps to its budget. Through `wp`, the budgets of programs that follow one
    another add up. -/
theorem atMost_of_spends {Post : Except ε α → Nat → Prop} (h : wp (following Spends) Post p n) :
    p.AtMost n := by
  induction p generalizing n with
  | pure a => trivial
  | throw e => trivial
  | ask q k ih =>
    obtain ⟨next, hspends, hk⟩ := h
    cases hspends with
    | ask n => exact fun a => ih a (hk a)

end Prog

/-! ## The system

The loss of a thread is no answer to it: its program does not go on, with an exception or otherwise,
so nothing that the program would still have done is done. What the state makes of that is up to
`lost`. -/

/-- What the threads do: the program of each job, what a question of a thread may be answered,
    and what the loss of a thread does to the state. -/
structure Threads (Q : Type) (A : Q → Type) (ε ι κ σ : Type) where
  program : ι → κ → Prog Q A ε Unit
  env : ι → κ → σ → (q : Q) → A q → σ → Prop
  lost : ι → σ → σ

namespace Threads

/-- A thread, in the middle of its job. -/
structure Thread (Q : Type) (A : Q → Type) (ε κ : Type) where
  job : κ
  running : Prog Q A ε Unit

structure State (Q : Type) (A : Q → Type) (ε ι κ σ : Type) where
  shared : σ
  thread : ι → Thread Q A ε κ

/-- What one thread does in a step. -/
inductive Move (κ : Type) where
  | answer
  | start (job : κ)
  | lost (job : κ)
  deriving DecidableEq

variable {Q : Type} {A : Q → Type} {ε ι κ σ : Type} [DecidableEq ι]

def State.set (w : State Q A ε ι κ σ) (i : ι) (s : σ) (t : Thread Q A ε κ) : State Q A ε ι κ σ :=
  ⟨s, Function.update w.thread i t⟩

@[simp] theorem State.set_shared (w : State Q A ε ι κ σ) (i : ι) (s : σ) (t : Thread Q A ε κ) :
    (w.set i s t).shared = s := rfl

@[simp] theorem State.set_thread_self (w : State Q A ε ι κ σ) (i : ι) (s : σ)
    (t : Thread Q A ε κ) : (w.set i s t).thread i = t := by
  simp [State.set]

theorem State.set_thread_of_ne (w : State Q A ε ι κ σ) {i j : ι} (hj : j ≠ i) (s : σ)
    (t : Thread Q A ε κ) : (w.set i s t).thread j = w.thread j := by
  simp [State.set, hj]

/-- A job starts when the one before it has ended. A thread that is lost has no program left. -/
inductive Step (T : Threads Q A ε ι κ σ) :
    State Q A ε ι κ σ → ι → Move κ → State Q A ε ι κ σ → Prop
  | answer {w : State Q A ε ι κ σ} {i : ι} {q : Q} {k : A q → Prog Q A ε Unit} {a : A q} {s : σ}
      (hrunning : (w.thread i).running = .ask q k)
      (henv : T.env i (w.thread i).job w.shared q a s) :
      Step T w i .answer (w.set i s ⟨(w.thread i).job, k a⟩)
  | start {w : State Q A ε ι κ σ} {i : ι} (job : κ)
      (hended : (w.thread i).running.question = none) :
      Step T w i (.start job) (w.set i w.shared ⟨job, T.program i job⟩)
  | lost {w : State Q A ε ι κ σ} {i : ι} (job : κ) :
      Step T w i (.lost job) (w.set i (T.lost i w.shared) ⟨job, .pure ()⟩)

/-- Any interleaving of steps, with who did what. -/
inductive Run (T : Threads Q A ε ι κ σ) :
    State Q A ε ι κ σ → List (ι × Move κ) → State Q A ε ι κ σ → Prop
  | nil (w : State Q A ε ι κ σ) : Run T w [] w
  | cons {w w' w'' : State Q A ε ι κ σ} {i : ι} {move : Move κ} {moves : List (ι × Move κ)}
      (hstep : T.Step w i move w') (hrun : Run T w' moves w'') : Run T w ((i, move) :: moves) w''

variable {T : Threads Q A ε ι κ σ} {w w' w'' : State Q A ε ι κ σ} {i j : ι} {move : Move κ}
  {moves moves' : List (ι × Move κ)}

theorem Run.append (h : T.Run w moves w') (h' : T.Run w' moves' w'') :
    T.Run w (moves ++ moves') w'' := by
  induction h with
  | nil => exact h'
  | cons hstep _ ih => exact .cons hstep (ih h')

/-- Threads that do the same, in an environment that has these answers, too. -/
theorem Run.mono {T' : Threads Q A ε ι κ σ} (hprogram : T'.program = T.program)
    (hlost : T'.lost = T.lost)
    (henv : ∀ i job s q a s', T.env i job s q a s' → T'.env i job s q a s')
    (h : T.Run w moves w') : T'.Run w moves w' := by
  induction h with
  | nil w => exact .nil w
  | cons hstep _ ih =>
    refine .cons ?_ ih
    cases hstep with
    | answer hrunning hE => exact .answer hrunning (henv _ _ _ _ _ _ hE)
    | start job hended => exact hprogram ▸ .start job hended
    | lost job => exact hlost ▸ .lost job

/-- A thread has its own program for itself. -/
theorem Step.thread_eq (h : T.Step w i move w') (hj : j ≠ i) : w'.thread j = w.thread j := by
  cases h with
  | answer => exact w.set_thread_of_ne hj _ _
  | start => exact w.set_thread_of_ne hj _ _
  | lost => exact w.set_thread_of_ne hj _ _

/-! ## Rely and guarantee

Phases belong to the proof and not to the program: a thread that runs has no phase written down, and
`InPhase` says that its program, as it is now, keeps to the protocol from that phase on. So
a program is looked at once, from its start (`follows`), and whatever remains of it after an answer
is in the phase that the answer leads to. -/

/-- `Asks i job φ q next` allows thread `i` in phase `φ` of its job the question `q`, and `next`
    says which phase the answer leads to. `Stands` is what the thread relies on, and `Shared`
    what everybody does. -/
structure Outline (Q : Type) (A : Q → Type) (ι κ σ P : Type) where
  Asks : ι → κ → P → (q : Q) → (A q → P) → Prop
  start : P
  AtRest : P → Prop
  Shared : σ → Prop
  Stands : ι → κ → P → σ → Prop

variable {P : Type}

/-- Thread `i` is in this phase of its job. -/
def Outline.InPhase (O : Outline Q A ι κ σ P) (w : State Q A ε ι κ σ) (i : ι) (φ : P) : Prop :=
  Prog.wp (Prog.following (O.Asks i (w.thread i).job)) (fun _ φ => O.AtRest φ)
    (w.thread i).running φ

/-- The outline is met in this state. -/
structure Outline.Met (O : Outline Q A ι κ σ P) (w : State Q A ε ι κ σ) : Prop where
  shared : O.Shared w.shared
  stands : ∀ i, ∃ φ, O.InPhase w i φ ∧ O.Stands i (w.thread i).job φ w.shared

/-- **What has to be shown** of an outline: its programs keep to the protocol, an answer leads
    a thread to its next phase, and no thread disturbs another one. -/
structure Outline.Valid (O : Outline Q A ι κ σ P) (T : Threads Q A ε ι κ σ) : Prop where
  start_atRest : O.AtRest O.start
  follows : ∀ i job, Prog.wp (Prog.following (O.Asks i job)) (fun _ φ => O.AtRest φ)
    (T.program i job) O.start
  answer : ∀ {i job φ q next s a s'}, O.Asks i job φ q next → O.Shared s → O.Stands i job φ s →
    T.env i job s q a s' → O.Shared s' ∧ O.Stands i job (next a) s'
  apart : ∀ {i job φ q next s a s' j job' ψ}, j ≠ i → O.Asks i job φ q next → O.Shared s →
    O.Stands i job φ s → T.env i job s q a s' → O.Stands j job' ψ s → O.Stands j job' ψ s'
  atRest : ∀ {i job job' φ s}, O.AtRest φ → O.Stands i job φ s → O.Stands i job' O.start s
  lost : ∀ {i job job' φ s}, O.Shared s → O.Stands i job φ s →
    O.Shared (T.lost i s) ∧ O.Stands i job' O.start (T.lost i s)
  lost_apart : ∀ {i j job φ s}, j ≠ i → O.Stands j job φ s → O.Stands j job φ (T.lost i s)

section

variable {O : Outline Q A ι κ σ P}

/-- One thread goes on, and the others stand where they stood. -/
theorem Outline.Met.set {s : σ} {t : Thread Q A ε κ} {φ : P} (h : O.Met w) (hshared : O.Shared s)
    (hphase : Prog.wp (Prog.following (O.Asks i t.job)) (fun _ φ => O.AtRest φ) t.running φ)
    (hstands : O.Stands i t.job φ s)
    (hapart : ∀ j job ψ, j ≠ i → O.Stands j job ψ w.shared → O.Stands j job ψ s) :
    O.Met (w.set i s t) := by
  refine ⟨hshared, fun j => ?_⟩
  unfold Outline.InPhase
  by_cases hj : j = i
  · subst hj
    rw [State.set_thread_self]
    exact ⟨φ, hphase, hstands⟩
  · -- another thread has its program still
    rw [w.set_thread_of_ne hj]
    obtain ⟨ψ, hphase', hstands'⟩ := h.stands j
    exact ⟨ψ, hphase', hapart j _ ψ hj hstands'⟩

omit [DecidableEq ι] in
/-- No thread is in a job. -/
theorem Outline.Valid.met (hO : O.Valid T) (hshared : O.Shared w.shared)
    (hended : ∀ i, (w.thread i).running.question = none)
    (hstands : ∀ i, O.Stands i (w.thread i).job O.start w.shared) : O.Met w := by
  refine ⟨hshared, fun i => ⟨O.start, ?_, hstands i⟩⟩
  have hend := hended i
  unfold Outline.InPhase
  cases hr : (w.thread i).running with
  | pure a => exact hO.start_atRest
  | throw e => exact hO.start_atRest
  | ask q k =>
    rw [hr] at hend
    cases hend

omit [DecidableEq ι] in
/-- A thread that has ended rests. -/
theorem Outline.Valid.rests (hO : O.Valid T) (h : O.Met w)
    (hended : (w.thread i).running.question = none) (job : κ) : O.Stands i job O.start w.shared := by
  obtain ⟨φ, hphase, hstands⟩ := h.stands i
  unfold Outline.InPhase at hphase
  cases hr : (w.thread i).running with
  | pure a =>
    rw [hr] at hphase
    exact hO.atRest hphase hstands
  | throw e =>
    rw [hr] at hphase
    exact hO.atRest hphase hstands
  | ask q k =>
    rw [hr] at hended
    cases hended

theorem Outline.Valid.step (hO : O.Valid T) (h : O.Met w) (hstep : T.Step w i move w') :
    O.Met w' := by
  obtain ⟨φ, hphase, hstands⟩ := h.stands i
  cases hstep with
  | @answer q k a s hrunning henv =>
    -- the question is one that the protocol allows in this phase
    unfold Outline.InPhase at hphase
    rw [hrunning] at hphase
    obtain ⟨next, hasks, hk⟩ := hphase
    obtain ⟨hshared, hnext⟩ := hO.answer hasks h.shared hstands henv
    exact h.set hshared (hk a) hnext fun j job ψ hj => hO.apart hj hasks h.shared hstands henv
  | start job hended =>
    exact h.set h.shared (hO.follows i job) (hO.rests h hended job) fun _ _ _ _ hψ => hψ
  | lost job =>
    have hstart : O.Shared _ ∧ O.Stands i job O.start _ := hO.lost h.shared hstands
    exact h.set hstart.1 hO.start_atRest hstart.2 fun j job ψ hj => hO.lost_apart hj

/-- **An outline is met in every state of every run.** -/
theorem Outline.Valid.run (hO : O.Valid T) (h : O.Met w) (hrun : T.Run w moves w') : O.Met w' := by
  induction hrun with
  | nil => exact h
  | cons hstep _ ih => exact ih (hO.step h hstep)

section

variable {T' : Threads Q A ε ι κ σ} (hprogram : T'.program = T.program) (hlost : T'.lost = T.lost)
  (henv : ∀ {i job φ q next s} a s', O.Asks i job φ q next → O.Shared s → O.Stands i job φ s →
    (T'.env i job s q a s' ↔ T.env i job s q a s'))

include hprogram hlost henv

/-- An environment that answers as this one does wherever the outline is met: the steps are the
    same there, -/
theorem Outline.Met.step_iff (h : O.Met w) : T'.Step w i move w' ↔ T.Step w i move w' := by
  obtain ⟨φ, hphase, hstands⟩ := h.stands i
  constructor
  · intro hstep
    cases hstep with
    | answer hrunning hE =>
      unfold Outline.InPhase at hphase
      rw [hrunning] at hphase
      obtain ⟨next, hasks, -⟩ := hphase
      exact .answer hrunning ((henv _ _ hasks h.shared hstands).mp hE)
    | start job hended => exact hprogram ▸ .start job hended
    | lost job => exact hlost ▸ .lost job
  · intro hstep
    cases hstep with
    | answer hrunning hE =>
      unfold Outline.InPhase at hphase
      rw [hrunning] at hphase
      obtain ⟨next, hasks, -⟩ := hphase
      exact .answer hrunning ((henv _ _ hasks h.shared hstands).mpr hE)
    | start job hended => exact hprogram ▸ .start job hended
    | lost job => exact hlost ▸ .lost job

/-- and so are **the runs**. -/
theorem Outline.Valid.run_iff (hO : O.Valid T) (h : O.Met w) :
    T'.Run w moves w' ↔ T.Run w moves w' := by
  have hsame : ∀ {w w' : State Q A ε ι κ σ} {i move}, O.Met w →
      (T'.Step w i move w' ↔ T.Step w i move w') := fun h => h.step_iff hprogram hlost henv
  constructor
  · intro hrun
    induction hrun with
    | nil w => exact .nil w
    | cons hstep _ ih =>
      have hstep' := (hsame h).mp hstep
      exact .cons hstep' (ih (hO.step h hstep'))
  · intro hrun
    induction hrun with
    | nil w => exact .nil w
    | cons hstep _ ih => exact .cons ((hsame h).mpr hstep) (ih (hO.step h hstep))

end

end

/-! ## Bounded jobs

A bound on the questions of a program is one on the steps of its thread and not on those of a run,
in which the other threads may take any number of steps. -/

/-- The thread stays in its job. -/
def Stays (i : ι) (moves : List (ι × Move κ)) : Prop := ∀ move ∈ moves, move.1 = i → move.2 = .answer

/-- How many of a thread's questions were answered. -/
def answers (i : ι) (moves : List (ι × Move κ)) : Nat :=
  moves.countP fun move => move.1 = i

omit [DecidableEq ι] in
theorem Stays.tail {move : ι × Move κ} (h : Stays i (move :: moves)) :
    (move.1 = i → move.2 = .answer) ∧ Stays i moves :=
  ⟨h move List.mem_cons_self, fun move' hmove' => h move' (List.mem_cons_of_mem _ hmove')⟩

/-- **The steps of a job.** The answers a thread has had, and the questions it has still to ask,
    keep within the bound of its program: the other threads cannot make it go on for longer. -/
theorem Run.answers_le {n : Nat} (hrun : T.Run w moves w') (hstays : Stays i moves)
    (h : (w.thread i).running.AtMost n) :
    answers i moves ≤ n ∧ (w'.thread i).running.AtMost (n - answers i moves) := by
  induction hrun generalizing n with
  | nil => exact ⟨Nat.zero_le n, h⟩
  | @cons w w' w'' j move moves hstep _ ih =>
    obtain ⟨hmove, hstays'⟩ := hstays.tail
    unfold answers
    by_cases hj : j = i
    · subst hj
      obtain rfl : move = .answer := hmove rfl
      rw [List.countP_cons_of_pos (by simp)]
      cases hstep with
      | @answer q k a s hrunning henv =>
        rw [hrunning] at h
        cases n with
        | zero => exact h.elim
        | succ n =>
          rw [State.set_thread_self] at ih
          obtain ⟨hle, hrest⟩ := ih hstays' (h a)
          refine ⟨Nat.succ_le_succ hle, ?_⟩
          rw [Nat.succ_sub_succ]
          exact hrest
    · rw [List.countP_cons_of_neg (by simpa using hj)]
      refine ih hstays' ?_
      rwa [hstep.thread_eq (Ne.symm hj)]

end Threads
