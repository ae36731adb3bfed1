import Mathlib.Data.List.Basic

/-!
# Feeds

A feed is what is left of items that are made one by one, each of its own source: the items that
can be made, and what goes wrong at the first one that cannot. `take` takes so many of them off,
or all; nothing gets past an error, so every later attempt meets it again.

`takes_append` says that it does not matter in how many portions a feed is taken.

The items are known beforehand here, while a program makes them as it goes. `Of` connects the two:
it follows the list of sources, so what is said of a feed is said of the sources by induction on it.
-/

set_option autoImplicit false

structure Feed (α ε : Type) where
  items : List α
  error : Option ε

namespace Feed

variable {ρ α ε : Type} {make : ρ → Option (Except ε α)} {rows : List ρ} {feed : Feed α ε}

/-- The feed of these sources. Making an item may not end, but the feed only has items that are
    made. -/
inductive Of (make : ρ → Option (Except ε α)) : List ρ → Feed α ε → Prop
  | nil : Of make [] ⟨[], none⟩
  | ok {r : ρ} {a : α} {rows : List ρ} {feed : Feed α ε} (hmake : make r = some (.ok a))
      (h : Of make rows feed) : Of make (r :: rows) ⟨a :: feed.items, feed.error⟩
  | error {r : ρ} {e : ε} {rows : List ρ} (hmake : make r = some (.error e)) :
      Of make (r :: rows) ⟨[], some e⟩

/-- Where every item is made, nothing goes wrong. -/
theorem Of.all {R : ρ → α → Prop} (h : ∀ r ∈ rows, ∃ a, make r = some (.ok a) ∧ R r a) :
    ∃ items, Of make rows ⟨items, none⟩ ∧ List.Forall₂ R rows items := by
  induction rows with
  | nil => exact ⟨[], .nil, .nil⟩
  | cons r rows ih =>
    obtain ⟨a, hmake, hR⟩ := h r List.mem_cons_self
    obtain ⟨items, hof, hitems⟩ := ih fun r hr => h r (List.mem_cons_of_mem _ hr)
    exact ⟨a :: items, .ok hmake hof, .cons hR hitems⟩

/-- Where it is known what is made of each source. -/
theorem Of.map {β : Type} {f : β → ρ} {g : β → α} {l : List β}
    (h : ∀ b ∈ l, make (f b) = some (.ok (g b))) : Of make (l.map f) ⟨l.map g, none⟩ := by
  induction l with
  | nil => exact .nil
  | cons b l ih =>
    exact .ok (h b List.mem_cons_self) (ih fun b hb => h b (List.mem_cons_of_mem _ hb))

/-- If making each item ends, there is a feed. -/
theorem Of.exists_feed (h : ∀ r ∈ rows, make r ≠ none) : ∃ feed, Of make rows feed := by
  induction rows with
  | nil => exact ⟨_, .nil⟩
  | cons r rows ih =>
    cases hmake : make r with
    | none => exact absurd hmake (h r List.mem_cons_self)
    | some result =>
      cases result with
      -- nothing behind it counts
      | error e => exact ⟨_, .error hmake⟩
      | ok a =>
        obtain ⟨feed, hof⟩ := ih fun r hr => h r (List.mem_cons_of_mem _ hr)
        exact ⟨_, .ok hmake hof⟩

/-- Each item is made of its own source, -/
theorem Of.map_take (h : Of make rows feed) {n : Nat} (hn : n ≤ feed.items.length) :
    (rows.take n).map make = (feed.items.take n).map fun a => some (.ok a) := by
  induction h generalizing n with
  | nil =>
    obtain rfl := Nat.le_zero.mp hn
    rfl
  | @ok r a rows feed hmake _ ih =>
    cases n with
    | zero => rfl
    | succ n =>
      rw [List.take_succ_cons, List.take_succ_cons, List.map_cons, List.map_cons, hmake,
        ih (Nat.le_of_succ_le_succ hn)]
  | error hmake =>
    obtain rfl := Nat.le_zero.mp hn
    rfl

theorem Of.length_le (h : Of make rows feed) : feed.items.length ≤ rows.length := by
  induction h with
  | nil => exact Nat.le_refl _
  | ok _ _ ih => exact Nat.succ_le_succ ih
  | error _ => exact Nat.zero_le _

/-- there is one for each source if nothing goes wrong, -/
theorem Of.length_eq (h : Of make rows feed) (herror : feed.error = none) :
    feed.items.length = rows.length := by
  induction h with
  | nil => rfl
  | ok _ _ ih => exact congrArg (· + 1) (ih herror)
  | error _ => cases herror

/-- and the error is that of the source behind them. -/
theorem Of.error_source {e : ε} (h : Of make rows feed) (herror : feed.error = some e) :
    ∃ r, rows[feed.items.length]? = some r ∧ make r = some (.error e) := by
  induction h with
  | nil => cases herror
  | ok _ _ ih => exact ih herror
  | error hmake =>
    cases herror
    exact ⟨_, rfl, hmake⟩

/-- The first source may be another one of which the same is made. -/
theorem Of.modifyHead {f : ρ → ρ} (hf : ∀ r, make (f r) = make r) (h : Of make rows feed) :
    Of make (rows.modifyHead f) feed := by
  cases h with
  | nil => exact .nil
  | ok hmake hrest => exact .ok ((hf _).trans hmake) hrest
  | error hmake => exact .error ((hf _).trans hmake)

theorem Of.drop (h : Of make rows feed) {n : Nat} (hn : n ≤ feed.items.length) :
    Of make (rows.drop n) ⟨feed.items.drop n, feed.error⟩ := by
  induction n generalizing rows feed with
  | zero => exact h
  | succ n ih =>
    cases h with
    | nil => cases hn
    | ok hmake hrest => exact ih hrest (Nat.le_of_succ_le_succ hn)
    | error hmake => cases hn

/-- A portion: its items, and the error if it wanted more. -/
structure Portion (α ε : Type) where
  items : List α
  error : Option ε

/-- Everything that is left. -/
def takeAll (feed : Feed α ε) : Portion α ε × Feed α ε :=
  (⟨feed.items, feed.error⟩, ⟨[], feed.error⟩)

/-- So many items, or all. -/
def take (feed : Feed α ε) : Option Nat → Portion α ε × Feed α ε
  | none => feed.takeAll
  | some n =>
    if n ≤ feed.items.length then
      (⟨feed.items.take n, none⟩, ⟨feed.items.drop n, feed.error⟩)
    else feed.takeAll

/-- One portion after the other. -/
def takes (feed : Feed α ε) : List (Option Nat) → List (Portion α ε) × Feed α ε
  | [] => ([], feed)
  | n :: counts =>
    ((feed.take n).1 :: ((feed.take n).2.takes counts).1, ((feed.take n).2.takes counts).2)

section

variable {n : Option Nat} {counts : List (Option Nat)} {items : List α} {a : α}

/-- A portion that the next item fills. -/
theorem take_full (rest : Feed α ε) :
    take ⟨items ++ a :: rest.items, rest.error⟩ (some (items.length + 1))
      = (⟨items ++ [a], none⟩, rest) := by
  have hle : items.length + 1 ≤ (items ++ a :: rest.items).length := by
    rw [List.length_append, List.length_cons]
    omega
  rw [take, if_pos hle, List.take_length_add_append, List.drop_length_add_append]
  rfl

/-- A portion that wants more than there is. -/
theorem take_short (h : ∀ k, n = some k → feed.items.length < k) : feed.take n = feed.takeAll := by
  cases n with
  | none => rfl
  | some k => exact if_neg (Nat.not_le.mpr (h k rfl))

theorem take_zero (feed : Feed α ε) : feed.take (some 0) = (⟨[], none⟩, feed) := by
  rw [take, if_pos (Nat.zero_le _)]
  rfl

/-- **A portion**: nothing is left out, and the error only comes when the items are gone. -/
theorem take_spec (feed : Feed α ε) (n : Option Nat) :
    (feed.take n).1.items ++ (feed.take n).2.items = feed.items ∧
      (feed.take n).2.error = feed.error ∧
      ((feed.take n).1.error = none ∨
        (feed.take n).1.error = feed.error ∧ (feed.take n).2.items = []) := by
  cases n with
  | none => exact ⟨List.append_nil _, rfl, Or.inr ⟨rfl, rfl⟩⟩
  | some n =>
    by_cases hn : n ≤ feed.items.length
    · rw [take, if_pos hn]
      exact ⟨List.take_append_drop n feed.items, rfl, Or.inl rfl⟩
    · rw [take, if_neg hn]
      exact ⟨List.append_nil _, rfl, Or.inr ⟨rfl, rfl⟩⟩

/-- A portion's items are the first ones, -/
theorem take_items (feed : Feed α ε) (n : Option Nat) :
    (feed.take n).1.items.length ≤ feed.items.length ∧
      (feed.take n).1.items = feed.items.take (feed.take n).1.items.length := by
  obtain ⟨happend, -⟩ := feed.take_spec n
  constructor
  · rw [← happend, List.length_append]
    exact Nat.le_add_right _ _
  · conv_rhs => rw [← happend]
    exact List.take_left.symm

/-- and what is left is the feed of the sources behind them. -/
theorem Of.take (h : Of make rows feed) (n : Option Nat) :
    Of make (rows.drop (feed.take n).1.items.length) (feed.take n).2 := by
  obtain ⟨hle, hitems⟩ := feed.take_items n
  obtain ⟨happend, herror, -⟩ := feed.take_spec n
  have hdrop : feed.items.drop (feed.take n).1.items.length = (feed.take n).2.items := by
    conv_lhs => rw [← happend]
    exact List.drop_left
  have hof := h.drop hle
  rw [hdrop, ← herror] at hof
  exact hof

/-- A portion with an error has all items, and the error of the feed. -/
theorem take_error {e : ε} (h : (feed.take n).1.error = some e) :
    (feed.take n).1.items = feed.items ∧ feed.error = some e := by
  obtain ⟨happend, -, hnone | ⟨herror, hrest⟩⟩ := feed.take_spec n
  · rw [hnone] at h
    cases h
  · rw [hrest, List.append_nil] at happend
    exact ⟨happend, herror.symm.trans h⟩

/-- **Portions**, one after the other. -/
theorem takes_spec (feed : Feed α ε) (counts : List (Option Nat)) :
    ((feed.takes counts).1.map Portion.items).flatten ++ (feed.takes counts).2.items = feed.items ∧
      (feed.takes counts).2.error = feed.error ∧
      ∀ portion ∈ (feed.takes counts).1, portion.error = none ∨ portion.error = feed.error := by
  induction counts generalizing feed with
  | nil => exact ⟨rfl, rfl, fun portion hportion => absurd hportion List.not_mem_nil⟩
  | cons n counts ih =>
    obtain ⟨hitems, herror, hportion⟩ := feed.take_spec n
    obtain ⟨hitems', herror', hportions⟩ := ih (feed.take n).2
    refine ⟨?_, herror'.trans herror, fun portion hmem => ?_⟩
    · show ((feed.take n).1.items ++ (((feed.take n).2.takes counts).1.map Portion.items).flatten)
        ++ ((feed.take n).2.takes counts).2.items = feed.items
      rw [List.append_assoc, hitems', hitems]
    · rcases List.mem_cons.mp hmem with rfl | hmem
      · exact hportion.imp_right And.left
      · rw [← herror]
        exact hportions portion hmem

theorem takes_append (feed : Feed α ε) (counts counts' : List (Option Nat)) :
    feed.takes (counts ++ counts') = ((feed.takes counts).1 ++ ((feed.takes counts).2.takes counts').1,
      ((feed.takes counts).2.takes counts').2) := by
  induction counts generalizing feed with
  | nil => rfl
  | cons n counts ih =>
    rw [List.cons_append, takes, ih, takes, List.cons_append]

/-! The last portion takes what is left, so nothing depends on where the ones before it ended. -/

/-- **In however many portions**: if the last one is all that is left, together they have the items
    of the feed, and the last one has its error. -/
theorem takes_all (feed : Feed α ε) (counts : List (Option Nat)) :
    ∃ portions last, feed.takes (counts ++ [none]) = (portions ++ [last], ⟨[], feed.error⟩) ∧
      ((portions ++ [last]).map Portion.items).flatten = feed.items ∧ last.error = feed.error ∧
      ∀ portion ∈ portions, portion.error = none ∨ portion.error = feed.error := by
  obtain ⟨hitems, herror, hportions⟩ := feed.takes_spec counts
  refine ⟨(feed.takes counts).1, ⟨(feed.takes counts).2.items, feed.error⟩, ?_, ?_, rfl, hportions⟩
  · rw [takes_append, ← herror]
    rfl
  · rw [List.map_append, List.flatten_append, ← hitems]
    exact congrArg _ (List.append_nil _)

end

end Feed
