import Mathlib.Logic.Relation

/-!
# `while` loops with an early exit

The loops of an imperative scanner all have one shape: look at the state, then either change
it and go round again, or leave with a result. `Step` is the outcome of one pass over the
body, `run` is the loop.

`run` takes a bound on the number of passes so that it is structurally recursive and can be
evaluated. A bound is not a semantics: a loop that runs out of passes answers `none`, and a
body may answer `none` itself, when a loop inside it does. `run_total` is the rule that turns
an invariant and a measure into "the loop ends, well inside its bound, in a state the
postcondition accepts"; everything said about a loop here goes through it, or through the two
unfolding equations below it.
-/

set_option autoImplicit false

namespace Loop

variable {σ ρ : Type}

/-- What one pass over a loop body does: go round again, or leave with a result. -/
inductive Step (σ ρ : Type) where
  | next (s : σ)
  | exit (r : ρ)

/-- Runs `body` from a state, for at most the given number of passes. -/
def run (body : σ → Option (Step σ ρ)) : Nat → σ → Option ρ
  | 0, _ => none
  | n + 1, s =>
    match body s with
    | none => none
    | some (.next s') => run body n s'
    | some (.exit r) => some r

variable {body : σ → Option (Step σ ρ)} {n : Nat} {s s' : σ} {r : ρ}

theorem run_next (h : body s = some (.next s')) : run body (n + 1) s = run body n s' := by
  rw [run, h]

theorem run_exit (h : body s = some (.exit r)) : run body (n + 1) s = some r := by
  rw [run, h]

/-- The same two equations at a positive bound, the form in which a bound that is computed
from the state is met. -/
theorem run_next_pos (h : body s = some (.next s')) (hn : 0 < n) :
    run body n s = run body (n - 1) s' := by
  obtain ⟨k, rfl⟩ := Nat.exists_eq_add_one.mpr hn
  exact run_next h

theorem run_exit_pos (h : body s = some (.exit r)) (hn : 0 < n) : run body n s = some r := by
  obtain ⟨k, rfl⟩ := Nat.exists_eq_add_one.mpr hn
  exact run_exit h

/-! ## The invariant rule -/

/-- One pass from a state of the invariant: it does not get stuck, a pass that goes on keeps
    the invariant and lowers the measure, and a pass that leaves meets the postcondition. -/
def Keeps (body : σ → Option (Step σ ρ)) (Inv : σ → Prop) (m : σ → Nat) (Post : ρ → Prop) :
    Prop :=
  ∀ s, Inv s →
    (∃ s', body s = some (.next s') ∧ Inv s' ∧ m s' < m s) ∨
    (∃ r, body s = some (.exit r) ∧ Post r)

/-- **Total correctness of a loop.** An invariant that every pass keeps while the measure
    falls ends the loop within `m s + 1` passes, with a result of the postcondition. -/
theorem run_total {Inv : σ → Prop} {m : σ → Nat} {Post : ρ → Prop}
    (hk : Keeps body Inv m Post) :
    ∀ {n : Nat} {s : σ}, Inv s → m s < n → ∃ r, run body n s = some r ∧ Post r
  | 0, _, _, hm => absurd hm (Nat.not_lt_zero _)
  | n + 1, s, hi, hm => by
    rcases hk s hi with ⟨s', hb, hi', hlt⟩ | ⟨r, hb, hp⟩
    · rw [run_next hb]
      exact run_total hk hi' (by omega)
    · exact ⟨r, run_exit hb, hp⟩

/-- **Partial correctness of a loop.** What every pass that goes on keeps, and every pass that
    leaves turns into the postcondition, is what a loop that ended ended with. -/
theorem run_keeps (Inv : σ → Prop) (Post : ρ → Prop)
    (hnext : ∀ s s', Inv s → body s = some (.next s') → Inv s')
    (hexit : ∀ s r, Inv s → body s = some (.exit r) → Post r) :
    ∀ {n : Nat} {s : σ} {r : ρ}, Inv s → run body n s = some r → Post r
  | 0, _, _, _, hrun => by simp [run] at hrun
  | n + 1, s, r, hi, hrun => by
    cases hb : body s with
    | none => simp [run, hb] at hrun
    | some o =>
      cases o with
      | next s' =>
        rw [run_next hb] at hrun
        exact run_keeps Inv Post hnext hexit (hnext s s' hi hb) hrun
      | exit r' =>
        rw [run_exit hb, Option.some.injEq] at hrun
        exact hrun ▸ hexit s r' hi hb

/-! ## The result of a loop, whatever its bound -/

/-- With enough passes, the loop leaves with `r`. -/
def Ends (body : σ → Option (Step σ ρ)) (s : σ) (r : ρ) : Prop := ∃ n, run body n s = some r

theorem ends_next (h : body s = some (.next s')) : Ends body s r ↔ Ends body s' r := by
  constructor
  · rintro ⟨n, hn⟩
    cases n with
    -- a loop of no passes has no result
    | zero => simp [run] at hn
    | succ n =>
      rw [run_next h] at hn
      exact ⟨n, hn⟩
  · rintro ⟨n, hn⟩
    exact ⟨n + 1, by rw [run_next h, hn]⟩

theorem ends_exit (h : body s = some (.exit r)) {r' : ρ} : Ends body s r' ↔ r' = r := by
  constructor
  · rintro ⟨n, hn⟩
    cases n with
    | zero => simp [run] at hn
    | succ n =>
      rw [run_exit h, Option.some.injEq] at hn
      exact hn.symm
  · rintro rfl
    exact ⟨1, run_exit h⟩

/-- A loop ends in one way: the bound only says whether it gets there. -/
theorem Ends.unique : ∀ {n : Nat} {s : σ} {r' : ρ},
    Ends body s r → run body n s = some r' → r = r'
  | 0, _, _, _, hn => by simp [run] at hn
  | n + 1, s, r', he, hn => by
    cases hb : body s with
    | none => simp [run, hb] at hn
    | some o =>
      cases o with
      | next s' =>
        rw [run_next hb] at hn
        exact ((ends_next hb).mp he).unique hn
      | exit r₀ =>
        rw [run_exit hb, Option.some.injEq] at hn
        exact ((ends_exit hb).mp he).trans hn

/-! ## The states a loop passes through

A result says nothing of how it came about. What holds at the head of every pass, as that a scanner
stays inside its text, is said of these states. -/

/-- The states the loop stands in at the head of a pass, from `s` on. -/
def Reaches (body : σ → Option (Step σ ρ)) : σ → σ → Prop :=
  Relation.ReflTransGen fun s s' => body s = some (.next s')

theorem Reaches.head (h : body s = some (.next s')) {t : σ} (ht : Reaches body s' t) :
    Reaches body s t :=
  Relation.ReflTransGen.head h ht

/-- What holds of every state reached: it holds here, and of whatever the next pass reaches. -/
theorem forall_reaches_iff {P : σ → Prop} (h : body s = some (.next s')) :
    (∀ t, Reaches body s t → P t) ↔ P s ∧ ∀ t, Reaches body s' t → P t := by
  constructor
  · intro hall
    exact ⟨hall s .refl, fun t ht => hall t (ht.head h)⟩
  · rintro ⟨hs, hall⟩ t ht
    rcases Relation.ReflTransGen.cases_head ht with rfl | ⟨u, hu, hut⟩
    · exact hs
    · rw [h] at hu
      simp only [Option.some.injEq, Step.next.injEq] at hu
      subst hu
      exact hall t hut

theorem forall_reaches_of_exit {P : σ → Prop} (h : body s = some (.exit r)) :
    (∀ t, Reaches body s t → P t) ↔ P s := by
  constructor
  · intro hall
    exact hall s .refl
  · intro hs t ht
    rcases Relation.ReflTransGen.cases_head ht with rfl | ⟨u, hu, -⟩
    · exact hs
    · rw [h] at hu
      simp at hu

/-- What every pass keeps holds of every state reached. -/
theorem Reaches.keeps {P : σ → Prop} (hP : ∀ s s', P s → body s = some (.next s') → P s')
    (hs : P s) {t : σ} (ht : Reaches body s t) : P t := by
  induction ht with
  | refl => exact hs
  | tail _ hnext ih => exact hP _ _ ih hnext

/-! ## Two bodies that agree -/

/-- Bodies that agree wherever an invariant holds, which their passes keep, make the same
    loop. -/
theorem run_congr {body' : σ → Option (Step σ ρ)} {P : σ → Prop}
    (heq : ∀ s, P s → body s = body' s)
    (hP : ∀ s s', P s → body s = some (.next s') → P s') :
    ∀ (n : Nat) (s : σ), P s → run body n s = run body' n s
  | 0, _, _ => rfl
  | n + 1, s, hs => by
    rw [run, run, ← heq s hs]
    cases hb : body s with
    | none => rfl
    | some o =>
      cases o with
      | next s' => exact run_congr heq hP n s' (hP s s' hs hb)
      | exit r => rfl

theorem ends_congr {body' : σ → Option (Step σ ρ)} {P : σ → Prop}
    (heq : ∀ s, P s → body s = body' s)
    (hP : ∀ s s', P s → body s = some (.next s') → P s') (hs : P s) :
    Ends body s r ↔ Ends body' s r := by
  simp only [Ends, run_congr heq hP _ s hs]

/-! ## Simulation

One direction of this is enough for results and both are needed for states, since a state that the
second loop reaches has to be found among those of the first one. -/

/-- Reads one pass over a body through a change of states and of results. -/
def Step.map {σ' ρ' : Type} (f : σ → σ') (g : ρ → ρ') : Step σ ρ → Step σ' ρ'
  | .next s => .next (f s)
  | .exit r => .exit (g r)

/-- A change of states that commutes with the bodies commutes with the loops. -/
theorem run_map {σ' ρ' : Type} {body' : σ' → Option (Step σ' ρ')} {f : σ → σ'} {g : ρ → ρ'}
    (h : ∀ s, (body s).map (Step.map f g) = body' (f s)) :
    ∀ (n : Nat) (s : σ), (run body n s).map g = run body' n (f s)
  | 0, _ => rfl
  | n + 1, s => by
    have hs := h s
    rw [run, run, ← hs]
    cases body s with
    | none => rfl
    | some o =>
      cases o with
      | next s' => exact run_map h n s'
      | exit r => rfl

/-- The states the second loop reaches are those of the first one, changed. -/
theorem reaches_map {σ' ρ' : Type} {body' : σ' → Option (Step σ' ρ')} {f : σ → σ'} {g : ρ → ρ'}
    (h : ∀ s, (body s).map (Step.map f g) = body' (f s)) {t' : σ'} :
    Reaches body' (f s) t' ↔ ∃ t, Reaches body s t ∧ f t = t' := by
  constructor
  · intro ht
    induction ht with
    | refl => exact ⟨s, .refl, rfl⟩
    | tail _ hnext ih =>
      obtain ⟨t, ht, rfl⟩ := ih
      -- the pass is the image of one, which goes on as well
      rw [← h t] at hnext
      obtain ⟨o, ho, hmap⟩ := Option.map_eq_some_iff.mp hnext
      cases o with
      | next u =>
        simp only [Step.map, Step.next.injEq] at hmap
        exact ⟨u, ht.tail ho, hmap⟩
      | exit r => simp [Step.map] at hmap
  · rintro ⟨t, ht, rfl⟩
    induction ht with
    | refl => exact .refl
    | tail _ hnext ih =>
      refine ih.tail ?_
      rw [← h, hnext]
      rfl

end Loop
