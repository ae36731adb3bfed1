import Mathlib.Data.Finset.Card
import Mathlib.Data.Finset.Dedup

/-!
# Chains

`next` leads from one thing to another, or nowhere. A chain that never ends comes back to where it
was, if it stays among finitely many things (`endless_iff_cycles`); and one that ends does so in as
many steps as there are things.

A function that calls itself along such a chain (`Along`) needs as many calls as the chain is
long, and what it answers is the answer at the end of the chain, taken back step by step.
-/

set_option autoImplicit false

namespace Chain

variable {α β : Type} {next : α → Option α} {a b : α} {m n : Nat}

/-- Where the chain is after so many steps, if it has not ended. -/
def walk (next : α → Option α) : Nat → α → Option α
  | 0, a => some a
  | n + 1, a => (next a).bind (walk next n)

theorem walk_add (m n : Nat) (a : α) :
    walk next (m + n) a = (walk next m a).bind (walk next n) := by
  induction m generalizing a with
  | zero => simp [walk]
  | succ m ih =>
    rw [Nat.succ_add, walk, walk]
    cases next a with
    | none => rfl
    | some b => exact ih b

/-- A chain that has ended stays so. -/
theorem walk_none_of_le (h : walk next m a = none) (hle : m ≤ n) : walk next n a = none := by
  obtain ⟨k, rfl⟩ := Nat.exists_eq_add_of_le hle
  rw [walk_add, h]
  rfl

/-- The chain comes back to where it was. -/
def Cycles (next : α → Option α) (a : α) : Prop :=
  ∃ m n b, walk next m a = some b ∧ 0 < n ∧ walk next n b = some b

theorem walk_mul_cycle (h : walk next n b = some b) (k : Nat) : walk next (n * k) b = some b := by
  induction k with
  | zero => rfl
  | succ k ih =>
    rw [Nat.mul_succ, walk_add, ih]
    exact h

theorem Cycles.endless (h : Cycles next a) (k : Nat) : walk next k a ≠ none := by
  intro hnone
  obtain ⟨m, n, b, hreach, hpos, hback⟩ := h
  have hround : walk next (m + n * k) a = some b := by
    rw [walk_add, hreach]
    exact walk_mul_cycle hback k
  have hle : k ≤ m + n * k :=
    Nat.le_trans (Nat.le_mul_of_pos_left k hpos) (Nat.le_add_left _ _)
  rw [walk_none_of_le hnone hle] at hround
  cases hround

/-- Things that the chain does not leave. -/
def Closed (next : α → Option α) (l : List α) : Prop :=
  ∀ a ∈ l, ∀ b, next a = some b → b ∈ l

theorem Closed.walk {l : List α} (hl : Closed next l) (ha : a ∈ l) (h : walk next n a = some b) :
    b ∈ l := by
  induction n generalizing a with
  | zero =>
    cases h
    exact ha
  | succ n ih =>
    obtain ⟨c, hc, h⟩ := Option.bind_eq_some_iff.mp h
    exact ih (hl a ha c hc) h

/-- **The pigeonhole**: a chain that has not ended when it has seen everything has seen something
    twice. -/
theorem Closed.ends_or_cycles {l : List α} (hl : Closed next l) (ha : a ∈ l) :
    Chain.walk next l.length a = none ∨ Cycles next a := by
  classical
  by_cases hend : Chain.walk next l.length a = none
  · exact Or.inl hend
  right
  have hsome : ∀ i : Nat, i ≤ l.length → ∃ b, Chain.walk next i a = some b := by
    intro i hi
    apply Option.ne_none_iff_exists'.mp
    intro hnone
    exact hend (walk_none_of_le hnone hi)
  -- one more step than there are things
  have hcard : l.toFinset.card < (Finset.range (l.length + 1)).card := by
    rw [Finset.card_range]
    exact Nat.lt_succ_of_le l.toFinset_card_le
  obtain ⟨i, hi, j, hj, hne, heq⟩ := Finset.exists_ne_map_eq_of_card_lt_of_maps_to hcard
    (f := fun i => (Chain.walk next i a).getD a) (by
      intro i hi
      obtain ⟨b, hb⟩ := hsome i (Nat.lt_succ_iff.mp (Finset.mem_range.mp hi))
      apply List.mem_toFinset.mpr
      show (Chain.walk next i a).getD a ∈ l
      rw [hb]
      exact hl.walk ha hb)
  -- the earlier of the two is on the circle, and the way to the later one is once around
  have hback : ∀ i j, i < j → j ≤ l.length →
      (Chain.walk next i a).getD a = (Chain.walk next j a).getD a → Cycles next a := by
    intro i j hij hj heq
    obtain ⟨b, hb⟩ := hsome i (by omega)
    obtain ⟨c, hc⟩ := hsome j hj
    rw [hb, hc] at heq
    obtain rfl : b = c := heq
    have hsum : i + (j - i) = j := by omega
    rw [← hsum, walk_add, hb] at hc
    exact ⟨i, j - i, b, hb, by omega, hc⟩
  have hi' := Nat.lt_succ_iff.mp (Finset.mem_range.mp hi)
  have hj' := Nat.lt_succ_iff.mp (Finset.mem_range.mp hj)
  rcases Nat.lt_or_gt_of_ne hne with hlt | hlt
  · exact hback i j hlt hj' heq
  · exact hback j i hlt hi' heq.symm

theorem Closed.endless_iff_cycles {l : List α} (hl : Closed next l) (ha : a ∈ l) :
    (∀ n, Chain.walk next n a ≠ none) ↔ Cycles next a := by
  constructor
  · intro h
    exact (hl.ends_or_cycles ha).resolve_left (h _)
  · intro h
    exact h.endless

/-! ## Calls along a chain -/

/-- `f` calls itself for what `next` leads to, and answers `last` at the end; `up` is what it makes
    of the answer it gets. Its bound on the calls is the first argument. -/
structure Along (next : α → Option α) (last : α → β) (up : α → β → β) (f : Nat → α → Option β) :
    Prop where
  zero : ∀ a, f 0 a = none
  ended : ∀ n a, next a = none → f (n + 1) a = some (last a)
  step : ∀ n a b, next a = some b → f (n + 1) a = (f n b).map (up a)

/-- The answer at the end of the chain, taken back to its start. -/
inductive Answer (next : α → Option α) (last : α → β) (up : α → β → β) : α → β → Prop
  | ended {a : α} (h : next a = none) : Answer next last up a (last a)
  | step {a b : α} {r : β} (h : next a = some b) (hr : Answer next last up b r) :
      Answer next last up a (up a r)

section

variable {last : α → β} {up : α → β → β} {f : Nat → α → Option β} {r : β}

/-- **As many calls as the chain is long.** -/
theorem Along.eq_none_iff (hf : Along next last up f) : f n a = none ↔ walk next n a ≠ none := by
  induction n generalizing a with
  | zero => simp [hf.zero, walk]
  | succ n ih =>
    rw [walk]
    cases ha : next a with
    | none => simp [hf.ended n a ha]
    | some b =>
      rw [hf.step n a b ha, Option.map_eq_none_iff, ih]
      rfl

/-- **What it answers**, however large the bound is, as long as it is large enough. -/
theorem Along.eq_some_iff (hf : Along next last up f) :
    f n a = some r ↔ walk next n a = none ∧ Answer next last up a r := by
  induction n generalizing a r with
  | zero => simp [hf.zero, walk]
  | succ n ih =>
    rw [walk]
    cases ha : next a with
    | none =>
      rw [hf.ended n a ha]
      constructor
      · intro h
        cases h
        exact ⟨rfl, .ended ha⟩
      · rintro ⟨-, h⟩
        cases h with
        | ended => rfl
        | step h => cases ha.symm.trans h
    | some b =>
      rw [hf.step n a b ha, Option.map_eq_some_iff]
      constructor
      · rintro ⟨r', hr', rfl⟩
        obtain ⟨hend, hanswer⟩ := ih.mp hr'
        exact ⟨hend, .step ha hanswer⟩
      · rintro ⟨hend, h⟩
        cases h with
        | ended h => cases ha.symm.trans h
        | step h hr =>
          cases ha.symm.trans h
          exact ⟨_, ih.mpr ⟨hend, hr⟩, rfl⟩

end

end Chain
