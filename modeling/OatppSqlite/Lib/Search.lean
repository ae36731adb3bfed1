import Mathlib.Data.List.Basic
import Mathlib.Data.List.TakeWhile
import Mathlib.Order.Lattice.Nat

/-!
# The first occurrence of a word in a list

`afterFirst w t` is what `t` has after the first place where `w` stands in it. The scan for a
terminator is this function, and what a scanner needs to know of it is that the answer does
not depend on what comes later: `exists_append_of_afterFirst` hands out the stretch that was
passed, and says that the same stretch is passed in front of anything else.

The same by places, for a reader who has the list and an index into it: `occurrences w t start`
are the places from `start` on at which `w` stands in `t`, overlapping ones included, and
`afterFirst` finds the least of them (`afterFirst_drop_eq_some_iff`).
-/

set_option autoImplicit false

theorem Nat.exists_isLeast_of_nonempty {s : Set Nat} (h : s.Nonempty) : ∃ i, IsLeast s i :=
  ⟨sInf s, Nat.sInf_mem h, fun _ hi => Nat.sInf_le hi⟩

namespace List

variable {α : Type}

/-! ## Occurrences, by their places -/

/-- The places from `start` on at which `w` stands in `t`. -/
def occurrences (w t : List α) (start : Nat) : Set Nat :=
  {i | start ≤ i ∧ w <+: t.drop i}

theorem singleton_prefix_drop {a : α} {t : List α} {i : Nat} :
    [a] <+: t.drop i ↔ t[i]? = some a := by
  rw [List.singleton_prefix_iff_head?_eq_some, List.head?_drop]

theorem drop_eq_cons_iff {a : α} {t u : List α} {i : Nat} :
    t.drop i = a :: u ↔ t[i]? = some a ∧ t.drop (i + 1) = u := by
  constructor
  · intro h
    rw [← List.head?_drop, ← List.drop_drop, h]
    exact ⟨rfl, rfl⟩
  · rintro ⟨h, rfl⟩
    obtain ⟨hlt, rfl⟩ := List.getElem?_eq_some_iff.mp h
    exact List.drop_eq_getElem_cons hlt

theorem occurrences_nonempty {a : α} {t : List α} {start : Nat} (h : a ∈ t.drop start) :
    (occurrences [a] t start).Nonempty := by
  obtain ⟨j, hj⟩ := List.mem_iff_getElem?.mp h
  rw [List.getElem?_drop] at hj
  exact ⟨start + j, Nat.le_add_right _ _, singleton_prefix_drop.mpr hj⟩

/-- The first occurrence of a letter, as a split of the list there. -/
theorem exists_append_of_isLeast {a : α} {t : List α} {start i : Nat}
    (h : IsLeast (occurrences [a] t start) i) :
    ∃ pre, a ∉ pre ∧ t.drop start = pre ++ a :: t.drop (i + 1) ∧ start + pre.length = i := by
  obtain ⟨⟨hle, hat⟩, hleast⟩ := h
  have hbehind : (t.drop start).drop (i - start) = a :: t.drop (i + 1) := by
    rw [List.drop_drop, Nat.add_sub_cancel' hle]
    exact drop_eq_cons_iff.mpr ⟨singleton_prefix_drop.mp hat, rfl⟩
  have hlt : i < t.length := (List.getElem?_eq_some_iff.mp (singleton_prefix_drop.mp hat)).1
  refine ⟨(t.drop start).take (i - start), fun hm => ?_, ?_, ?_⟩
  · -- one before `i` would be the first
    obtain ⟨j, hj, hget⟩ := List.mem_take_iff_getElem.mp hm
    have hget' : t[start + j]? = some a := by
      rw [← List.getElem?_drop]
      exact List.getElem?_eq_some_iff.mpr ⟨_, hget⟩
    have := hleast ⟨Nat.le_add_right start j, singleton_prefix_drop.mpr hget'⟩
    omega
  · rw [← hbehind, List.take_append_drop]
  · rw [List.length_take, List.length_drop]
    omega

/-! ## The scan -/

variable [DecidableEq α]

/-- What follows the first occurrence of `w`; `none` when `w` does not occur. -/
def afterFirst (w : List α) : List α → Option (List α)
  | [] => if w = [] then some [] else none
  | a :: t => if w <+: a :: t then some ((a :: t).drop w.length) else afterFirst w t

theorem afterFirst_cons {w : List α} {a : α} {t : List α} (h : ¬ w <+: a :: t) :
    afterFirst w (a :: t) = afterFirst w t := by
  rw [afterFirst, if_neg h]

theorem afterFirst_append (w X : List α) : afterFirst w (w ++ X) = some X := by
  cases h : w ++ X with
  | nil =>
    obtain ⟨rfl, rfl⟩ := List.append_eq_nil_iff.mp h
    rfl
  | cons a t =>
    have hp : w <+: a :: t := h ▸ List.prefix_append w X
    rw [afterFirst, if_pos hp, ← h, List.drop_left]

/-- Nothing before the first possible first letter is looked at twice. -/
theorem afterFirst_skip {a : α} {w : List α} :
    ∀ {pre : List α} {t : List α}, a ∉ pre →
      afterFirst (a :: w) (pre ++ t) = afterFirst (a :: w) t
  | [], _, _ => rfl
  | b :: pre, t, h => by
    have hb : ¬ (a :: w) <+: b :: (pre ++ t) := by
      rw [List.cons_prefix_cons]
      rintro ⟨rfl, -⟩
      exact h List.mem_cons_self
    rw [List.cons_append, afterFirst_cons hb]
    exact afterFirst_skip fun hm => h (List.mem_cons_of_mem _ hm)

theorem afterFirst_eq_none_of_not_mem {a : α} {w t : List α} (h : a ∉ t) :
    afterFirst (a :: w) t = none := by
  have := afterFirst_skip (w := w) (t := []) h
  simpa [afterFirst] using this

/-- The stretch up to and including the first occurrence: it ends `t`'s known part, and in
    front of any other text it is passed just the same. -/
theorem exists_append_of_afterFirst {w : List α} :
    ∀ {t r : List α}, afterFirst w t = some r →
      ∃ b, t = b ++ r ∧ w.length ≤ b.length ∧ ∀ X, afterFirst w (b ++ X) = some X
  | [], r, h => by
    by_cases hw : w = []
    · subst hw
      simp only [afterFirst, if_true, Option.some.injEq] at h
      subst h
      exact ⟨[], rfl, Nat.le_refl _, afterFirst_append []⟩
    · simp [afterFirst, hw] at h
  | a :: t, r, h => by
    by_cases hp : w <+: a :: t
    · rw [afterFirst, if_pos hp, Option.some.injEq] at h
      obtain ⟨s, hs⟩ := hp
      rw [← hs, List.drop_left] at h
      subst h
      exact ⟨w, hs.symm, Nat.le_refl _, afterFirst_append w⟩
    · rw [afterFirst_cons hp] at h
      obtain ⟨b, rfl, hlen, hX⟩ := exists_append_of_afterFirst h
      refine ⟨a :: b, rfl, by simp only [List.length_cons]; omega, fun X => ?_⟩
      -- an occurrence at `a` would lie inside `a :: b`, hence also in the original text
      have hb : ¬ w <+: a :: (b ++ X) := by
        intro hw
        have hin : w <+: a :: b :=
          List.prefix_of_prefix_length_le hw (List.prefix_append (a :: b) X)
            (by simp only [List.length_cons]; omega)
        exact hp (hin.trans (List.prefix_append (a :: b) r))
      rw [List.cons_append, afterFirst_cons hb]
      exact hX X

theorem length_le_of_afterFirst {w t r : List α} (h : afterFirst w t = some r) :
    r.length ≤ t.length := by
  obtain ⟨b, rfl, -, -⟩ := exists_append_of_afterFirst h
  simp

/-- The scan stops at the first place: it passes the ones before it, one by one. -/
theorem afterFirst_drop_of_isLeast {w t : List α} {start i : Nat}
    (h : IsLeast (occurrences w t start) i) :
    afterFirst w (t.drop start) = some (t.drop (i + w.length)) := by
  induction hn : i - start generalizing start with
  | zero =>
    obtain rfl : start = i := Nat.le_antisymm h.1.1 (Nat.sub_eq_zero_iff_le.mp hn)
    obtain ⟨r, hr⟩ := h.1.2
    have hdrop : t.drop (start + w.length) = r := by
      rw [← List.drop_drop, ← hr, List.drop_left]
    rw [← hr, afterFirst_append, hdrop]
  | succ n ih =>
    have hlt : start < i := by omega
    have hhere : ¬ w <+: t.drop start := fun hw => Nat.not_le.mpr hlt (h.2 ⟨Nat.le_refl _, hw⟩)
    have hnext : IsLeast (occurrences w t (start + 1)) i :=
      ⟨⟨hlt, h.1.2⟩, fun j hj => h.2 ⟨Nat.le_of_succ_le hj.1, hj.2⟩⟩
    cases hd : t.drop start with
    | nil =>
      -- nothing is left here, so nothing is left at `i`, and what stands there stands here too
      have hnil : t.drop i = t.drop start := by
        rw [hd]
        exact List.drop_eq_nil_of_le (Nat.le_trans (List.drop_eq_nil_iff.mp hd) h.1.1)
      exact absurd (hnil ▸ h.1.2) hhere
    | cons a u =>
      rw [afterFirst_cons (hd ▸ hhere), ← (drop_eq_cons_iff.mp hd).2]
      exact ih hnext (by omega)

theorem exists_drop_of_afterFirst {w : List α} :
    ∀ {t r : List α}, afterFirst w t = some r → ∃ i, w <+: t.drop i
  | [], r, h => by
    by_cases hw : w = []
    · exact ⟨0, hw ▸ List.nil_prefix⟩
    · simp [afterFirst, hw] at h
  | a :: t, r, h => by
    by_cases hp : w <+: a :: t
    · exact ⟨0, hp⟩
    · rw [afterFirst_cons hp] at h
      obtain ⟨i, hi⟩ := exists_drop_of_afterFirst h
      exact ⟨i + 1, hi⟩

/-- **The scan finds the first occurrence**, and misses none. -/
theorem afterFirst_drop_eq_some_iff {w t r : List α} {start : Nat} :
    afterFirst w (t.drop start) = some r ↔
      ∃ i, IsLeast (occurrences w t start) i ∧ r = t.drop (i + w.length) := by
  constructor
  · intro h
    obtain ⟨j, hj⟩ := exists_drop_of_afterFirst h
    rw [List.drop_drop] at hj
    obtain ⟨i, hi⟩ := Nat.exists_isLeast_of_nonempty (s := occurrences w t start)
      ⟨start + j, Nat.le_add_right _ _, hj⟩
    rw [afterFirst_drop_of_isLeast hi, Option.some.injEq] at h
    exact ⟨i, hi, h.symm⟩
  · rintro ⟨i, hi, rfl⟩
    exact afterFirst_drop_of_isLeast hi

end List
