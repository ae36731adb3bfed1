import OatppSqlite.Template.Literal

/-!
# Where a literal closes, by places in the text

`quoteClose` and `dollarClose` (`Template/Literal.lean`) read a literal from the left, as the
scanners do. Here is what they come to, said of the text alone and with no scan in it: where a
literal ends is the least place in the text with a property.

* A dollar-enclosed string: the first `$` behind the opening one completes the tag, and the
  first place behind it at which the whole `$tag$` stands is where the string closes. Places
  that overlap count like any others.
* A quote-enclosed string: two quotes side by side are a pair, pairs being taken from the left;
  the first quote that is in no pair closes the string.

`skipString_closes` is the theorem: each scanner sets an error exactly when there is no such
place, and otherwise leaves the caret right behind it.
-/

set_option autoImplicit false

namespace OatppSqlite.Template

open Caret
open List (occurrences)

/-! ## Quotes in pairs

A quote may close a string only at the head of a pair: of three quotes in a row, the first two are
a pair and the third one closes. So the recursion goes two bytes at a time. -/

/-- Two quotes that stand for one begin at the place. The opening quote is in no pair, and
    neither is a quote that is the second of one already. -/
def pairAt (text : Text) (opening : Nat) : Nat → Bool
  | 0 => false
  | i + 1 => decide (opening < i + 1) && text[i + 1]? == some '\'' && text[i + 2]? == some '\''
      && !pairAt text opening i

/-- The place is one half of a doubled quote: the first of the two, or the second. -/
def halfAt (text : Text) (opening : Nat) : Nat → Bool
  | 0 => false
  | i + 1 => pairAt text opening (i + 1) || pairAt text opening i

/-- The quotes behind `opening` that are not one half of a doubled one. -/
def singleQuotes (text : Text) (opening : Nat) : Set Nat :=
  {k | opening < k ∧ text[k]? = some '\'' ∧ halfAt text opening k = false}

section Quotes

variable {text : Text} {opening n : Nat} {a : Char} {o : Option Text}

/-- A pair begins at a byte that no pair has reached, if it and the next are quotes. -/
theorem pairAt_succ (hopen : opening ≤ n) (hfree : pairAt text opening n = false) :
    pairAt text opening (n + 1)
      = (text[n + 1]? == some '\'' && text[n + 2]? == some '\'') := by
  simp [pairAt, hfree, Nat.lt_succ_of_le hopen]

theorem pairAt_self : ∀ opening, pairAt text opening opening = false
  | 0 => rfl
  | opening + 1 => by simp [pairAt]

theorem pairAt_after (hpair : pairAt text opening n = true) :
    pairAt text opening (n + 1) = false := by
  rw [pairAt, hpair, Bool.not_true, Bool.and_false]

/-- What the bytes behind the place `n` come to: no single quote is among them, or the first one
    is where the string closes. -/
def ClosedBehind (text : Text) (opening n : Nat) : Option Text → Prop
  | none => ∀ k ∈ singleQuotes text opening, k ≤ n
  | some r => ∃ k, IsLeast {k ∈ singleQuotes text opening | n < k} k ∧ r = text.drop (k + 1)

/-- A byte that is no single quote is passed. -/
theorem ClosedBehind.pass (hpass : n + 1 ∉ singleQuotes text opening)
    (h : ClosedBehind text opening (n + 1) o) : ClosedBehind text opening n o := by
  have hlt : ∀ k ∈ singleQuotes text opening, n < k → n + 1 < k := fun k hk hn =>
    Nat.lt_of_le_of_ne hn fun heq => hpass (heq ▸ hk)
  cases o with
  | none =>
    intro k hk
    by_contra hn
    exact Nat.not_le.mpr (hlt k hk (Nat.not_le.mp hn)) (h k hk)
  | some r =>
    obtain ⟨k, ⟨⟨hk, hn⟩, hleast⟩, hr⟩ := h
    exact ⟨k, ⟨⟨hk, Nat.lt_of_succ_lt hn⟩, fun j hj => hleast ⟨hj.1, hlt j hj.1 hj.2⟩⟩, hr⟩

/-- **What `quoteClose` reads from the left** is the first quote that is in no pair. The
    induction is the one of `quoteClose`; at each of its calls no pair reaches over the place
    it stands at. -/
theorem quoteClose_drop (hopen : opening ≤ n) (hfree : pairAt text opening n = false) :
    ClosedBehind text opening n (quoteClose (text.drop (n + 1))) := by
  have hpair := pairAt_succ hopen hfree
  induction hu : text.drop (n + 1) using quoteClose.induct generalizing n with
  | case1 =>
    rw [quoteClose]
    rintro k ⟨-, hquote, -⟩
    by_contra hn
    have hlen : text.length ≤ n + 1 := List.drop_eq_nil_iff.mp hu
    rw [List.getElem?_eq_none (by omega)] at hquote
    cases hquote
  | case2 t ih =>
    -- a doubled quote: both halves are passed, and it reaches no further
    obtain ⟨hquote, hrest⟩ := List.drop_eq_cons_iff.mp hu
    obtain ⟨hquote', hrest'⟩ := List.drop_eq_cons_iff.mp hrest
    have hfirst : pairAt text opening (n + 1) = true := by
      rw [hpair, hquote, hquote']
      rfl
    have hsecond : pairAt text opening (n + 2) = false := pairAt_after hfirst
    rw [quoteClose]
    refine ClosedBehind.pass (fun h => ?_) (ClosedBehind.pass (fun h => ?_)
      (ih (by omega) hsecond (pairAt_succ (by omega) hsecond) hrest'))
    · exact absurd h.2.2 (by simp [halfAt, hfirst])
    · exact absurd h.2.2 (by simp [halfAt, hfirst])
  | case3 t hne =>
    -- the closing quote
    obtain ⟨hquote, hrest⟩ := List.drop_eq_cons_iff.mp hu
    have hhead : t.head? ≠ some '\'' := by
      intro hh
      obtain ⟨t', rfl⟩ := List.head?_eq_some_iff.mp hh
      exact hne t' rfl
    have hnext : text[n + 2]? ≠ some '\'' := by
      rwa [← List.head?_drop, hrest]
    rw [quoteClose_quote, afterQuote_of_head_ne hhead]
    refine ⟨n + 1, ⟨⟨⟨Nat.lt_succ_of_le hopen, hquote, ?_⟩, Nat.lt_succ_self n⟩,
      fun k hk => hk.2⟩, hrest.symm⟩
    simp [halfAt, hfree, hpair, hnext]
  | case4 a t _ ha ih =>
    obtain ⟨hbyte, hrest⟩ := List.drop_eq_cons_iff.mp hu
    have hfree' : pairAt text opening (n + 1) = false := by
      rw [hpair, hbyte]
      simp [show a ≠ '\'' from ha]
    rw [quoteClose_cons ha]
    refine ClosedBehind.pass (fun h => ?_)
      (ih (by omega) hfree' (pairAt_succ (by omega) hfree') hrest)
    exact ha (Option.some.inj (hbyte.symm.trans h.2.1))

/-- The place right behind the quote-enclosed string that is opened at `opening`. -/
def QuoteEnds (text : Text) (opening e : Nat) : Prop :=
  ∃ k, IsLeast (singleQuotes text opening) k ∧ e = k + 1

theorem quoteClose_eq_some_iff {r : Text} :
    quoteClose (text.drop (opening + 1)) = some r ↔
      ∃ e, QuoteEnds text opening e ∧ r = text.drop e := by
  have hclosed : ClosedBehind text opening opening (quoteClose (text.drop (opening + 1))) :=
    quoteClose_drop (Nat.le_refl opening) (pairAt_self opening)
  have hbehind : {k ∈ singleQuotes text opening | opening < k} = singleQuotes text opening :=
    Set.sep_eq_self_iff_mem_true.mpr fun k hk => hk.1
  cases hc : quoteClose (text.drop (opening + 1)) with
  | none =>
    rw [hc] at hclosed
    constructor
    · intro h
      cases h
    · rintro ⟨-, ⟨k, hk, -⟩, -⟩
      exact absurd (hclosed k hk.1) (Nat.not_le.mpr hk.1.1)
  | some r' =>
    rw [hc, ClosedBehind, hbehind] at hclosed
    obtain ⟨k, hk, rfl⟩ := hclosed
    rw [Option.some.injEq]
    constructor
    · rintro rfl
      exact ⟨k + 1, ⟨k, hk, rfl⟩, rfl⟩
    · rintro ⟨-, ⟨k', hk', rfl⟩, rfl⟩
      rw [hk.unique hk']

theorem QuoteEnds.bounds {e : Nat} (h : QuoteEnds text opening e) :
    opening ≤ e ∧ e ≤ text.length := by
  obtain ⟨k, ⟨⟨hlt, hquote, -⟩, -⟩, rfl⟩ := h
  obtain ⟨hk, -⟩ := List.getElem?_eq_some_iff.mp hquote
  omega

end Quotes

/-! ## The tag

A tag may hold any byte but a `$`, a blank included, and it may be empty. The closer is searched from
right behind the opener on. -/

/-- `$tag$`, from the `$` at `opening` to the `$` at `tagEnd`. -/
def delimiter (text : Text) (opening tagEnd : Nat) : Text :=
  (text.take (tagEnd + 1)).drop opening

/-- The place right behind the dollar-enclosed string that is opened at `opening`: behind the
    first `$tag$` that follows the one that opens the string. -/
def DollarEnds (text : Text) (opening e : Nat) : Prop :=
  ∃ tagEnd i, IsLeast (occurrences ['$'] text (opening + 1)) tagEnd ∧
    IsLeast (occurrences (delimiter text opening tagEnd) text (tagEnd + 1)) i ∧
    e = i + (delimiter text opening tagEnd).length

section Dollars

variable {text : Text} {opening tagEnd : Nat}

/-- The tag, and what stands around it. -/
theorem exists_tag (hpos : text[opening]? = some '$')
    (htag : IsLeast (occurrences ['$'] text (opening + 1)) tagEnd) :
    ∃ tag, '$' ∉ tag ∧ text.drop (opening + 1) = tag ++ '$' :: text.drop (tagEnd + 1) ∧
      delimiter text opening tagEnd = '$' :: (tag ++ ['$']) := by
  obtain ⟨tag, hnot, hsplit, hlen⟩ := List.exists_append_of_isLeast htag
  refine ⟨tag, hnot, hsplit, ?_⟩
  have hsize : tagEnd + 1 - opening = tag.length + 2 := by omega
  have hdrop := List.drop_eq_cons_iff.mpr ⟨hpos, hsplit⟩
  rw [delimiter, List.drop_take, hdrop, hsize, List.take_succ_cons, List.take_append,
    List.take_of_length_le (Nat.le_succ _)]
  simp

/-- **What `dollarClose` reads from the left** ends behind the first `$tag$`. -/
theorem dollarClose_eq_some_iff (hpos : text[opening]? = some '$') {r : Text} :
    dollarClose (text.drop (opening + 1)) = some r ↔
      ∃ e, DollarEnds text opening e ∧ r = text.drop e := by
  constructor
  · intro h
    have hm : '$' ∈ text.drop (opening + 1) := by
      by_contra hm
      rw [dollarClose_eq_none_of_not_mem hm] at h
      cases h
    obtain ⟨tagEnd, htag⟩ := Nat.exists_isLeast_of_nonempty (List.occurrences_nonempty hm)
    obtain ⟨tag, hnot, hsplit, hdelim⟩ := exists_tag hpos htag
    rw [hsplit, dollarClose_tag hnot, ← hdelim] at h
    obtain ⟨i, hi, rfl⟩ := List.afterFirst_drop_eq_some_iff.mp h
    exact ⟨_, ⟨tagEnd, i, htag, hi, rfl⟩, rfl⟩
  · rintro ⟨-, ⟨tagEnd, i, htag, hi, rfl⟩, rfl⟩
    obtain ⟨tag, hnot, hsplit, hdelim⟩ := exists_tag hpos htag
    rw [hsplit, dollarClose_tag hnot, ← hdelim]
    exact List.afterFirst_drop_eq_some_iff.mpr ⟨i, hi, rfl⟩

theorem DollarEnds.bounds (hpos : text[opening]? = some '$') {e : Nat}
    (h : DollarEnds text opening e) : opening ≤ e ∧ e ≤ text.length := by
  obtain ⟨tagEnd, i, htag, ⟨⟨hle, hstands⟩, -⟩, rfl⟩ := h
  obtain ⟨tag, -, -, hdelim⟩ := exists_tag hpos htag
  have hlong : 0 < (delimiter text opening tagEnd).length := by simp [hdelim]
  have hin := hstands.length_le
  rw [List.length_drop] at hin
  have := htag.1.1
  omega

end Dollars

/-! ## The scanners -/

section Scanners

variable {κ : Type} [Caret κ] {text : Text} {position : Nat} {caret : κ}

theorem stringEnd_drop {msg : String} {e : Nat} (h : position ≤ e ∧ e ≤ text.length) :
    stringEnd msg ⟨text, position, none⟩ (some (text.drop e)) = ⟨text, e, none⟩ := by
  have hend : position + ((text.drop position).length - (text.drop e).length) = e := by
    rw [List.length_drop, List.length_drop]
    omega
  show TextCaret.mk text (position + ((text.drop position).length - (text.drop e).length)) none = _
  rw [hend]

/-- A scanner that does what `stringEnd` says, by places: where `Ends` is where the literal ends,
    there is no error exactly if there is such a place, and the caret is left there. -/
theorem ends_of_stringEnd {skip : κ → Option κ} {msg : String} {close : Option Text}
    {Ends : Nat → Prop} (hcaret : view caret = ⟨text, position, none⟩)
    (hskip : (skip caret).map view = some (stringEnd msg (view caret) close))
    (hclose : ∀ r, close = some r ↔ ∃ e, Ends e ∧ r = text.drop e)
    (hbounds : ∀ e, Ends e → position ≤ e ∧ e ≤ text.length) :
    ∃ caret', skip caret = some caret' ∧ (hasError caret' = false ↔ ∃ e, Ends e) ∧
      ∀ e, Ends e → view caret' = ⟨text, e, none⟩ := by
  obtain ⟨caret', hrun, hview⟩ := Option.map_eq_some_iff.mp hskip
  rw [hcaret] at hview
  have hends : ∀ e, Ends e → view caret' = ⟨text, e, none⟩ := by
    intro e he
    rw [hview, (hclose _).mpr ⟨e, he, rfl⟩, stringEnd_drop (hbounds e he)]
  refine ⟨caret', hrun, ⟨fun hnone => ?_, ?_⟩, hends⟩
  · cases hc : close with
    | none =>
      rw [hc] at hview
      rw [← hasError_view, hview] at hnone
      cases hnone
    | some r =>
      obtain ⟨e, he, -⟩ := (hclose r).mp hc
      exact ⟨e, he⟩
  · rintro ⟨e, he⟩
    rw [← hasError_view, hends e he]
    rfl

variable [LawfulCaret κ]

theorem skipStringInDollars_ends (hcaret : view caret = ⟨text, position, none⟩)
    (hpos : text[position]? = some '$') :
    ∃ caret', skipStringInDollars caret = some caret' ∧
      (hasError caret' = false ↔ ∃ e, DollarEnds text position e) ∧
      ∀ e, DollarEnds text position e → view caret' = ⟨text, e, none⟩ := by
  have hskip : (skipStringInDollars caret).map view = some (stringEnd
      "Invalid dollar-enclosed string" (view caret) (dollarClose (text.drop (position + 1)))) := by
    rw [skipStringInDollars_view, hcaret]
    exact skipStringInDollars_eq rfl (List.drop_eq_cons_iff.mpr ⟨hpos, rfl⟩)
  exact ends_of_stringEnd hcaret hskip (fun _ => dollarClose_eq_some_iff hpos)
    fun _ he => he.bounds hpos

theorem skipStringInQuotes_ends (hcaret : view caret = ⟨text, position, none⟩)
    (hpos : text[position]? = some '\'') :
    ∃ caret', skipStringInQuotes caret = some caret' ∧
      (hasError caret' = false ↔ ∃ e, QuoteEnds text position e) ∧
      ∀ e, QuoteEnds text position e → view caret' = ⟨text, e, none⟩ := by
  have hskip : (skipStringInQuotes caret).map view = some (stringEnd
      "Invalid quote-enclosed string" (view caret) (quoteClose (text.drop (position + 1)))) := by
    rw [skipStringInQuotes_view, hcaret]
    exact skipStringInQuotes_eq rfl (List.drop_eq_cons_iff.mpr ⟨hpos, rfl⟩)
  exact ends_of_stringEnd hcaret hskip (fun _ => quoteClose_eq_some_iff) fun _ he => he.bounds

/-- **A literal is skipped to its end**, from wherever it opens in whatever text, by a caret
    without an error (both passes ask `canContinue` first). A dollar-enclosed string needs a
    second `$`, and behind it the whole `$tag$` once more: the caret is left behind the first one,
    whatever candidates it overlaps. A quote-enclosed string needs a quote that is not half of a
    doubled one, and the caret is left behind the first of these, be it the last byte of the
    text. -/
theorem skipString_closes (hcaret : view caret = ⟨text, position, none⟩) :
    (text[position]? = some '$' → ∃ caret', skipStringInDollars caret = some caret' ∧
      (hasError caret' = false ↔ ∃ tagEnd, IsLeast (occurrences ['$'] text (position + 1)) tagEnd ∧
        (occurrences (delimiter text position tagEnd) text (tagEnd + 1)).Nonempty) ∧
      ∀ tagEnd i, IsLeast (occurrences ['$'] text (position + 1)) tagEnd →
        IsLeast (occurrences (delimiter text position tagEnd) text (tagEnd + 1)) i →
        view caret' = ⟨text, i + (delimiter text position tagEnd).length, none⟩) ∧
    (text[position]? = some '\'' → ∃ caret', skipStringInQuotes caret = some caret' ∧
      (hasError caret' = false ↔ (singleQuotes text position).Nonempty) ∧
      ∀ k, IsLeast (singleQuotes text position) k → view caret' = ⟨text, k + 1, none⟩) := by
  constructor
  · intro hpos
    obtain ⟨caret', hskip, herror, hends⟩ := skipStringInDollars_ends hcaret hpos
    refine ⟨caret', hskip, herror.trans ⟨?_, ?_⟩, fun tagEnd i htag hi =>
      hends _ ⟨tagEnd, i, htag, hi, rfl⟩⟩
    · rintro ⟨-, tagEnd, i, htag, hi, -⟩
      exact ⟨tagEnd, htag, i, hi.1⟩
    · rintro ⟨tagEnd, htag, hsome⟩
      obtain ⟨i, hi⟩ := Nat.exists_isLeast_of_nonempty hsome
      exact ⟨_, tagEnd, i, htag, hi, rfl⟩
  · intro hpos
    obtain ⟨caret', hskip, herror, hends⟩ := skipStringInQuotes_ends hcaret hpos
    refine ⟨caret', hskip, herror.trans ⟨?_, ?_⟩, fun k hk => hends _ ⟨k, hk, rfl⟩⟩
    · rintro ⟨-, k, hk, -⟩
      exact ⟨k, hk.1⟩
    · intro hsome
      obtain ⟨k, hk⟩ := Nat.exists_isLeast_of_nonempty hsome
      exact ⟨_, k, hk, rfl⟩

/-- A terminator that overlaps a candidate that fails, and a quote that is the last byte. -/
theorem skipString_closes_overlap :
    (∃ caret', skipStringInDollars (⟨"$ab$ $a$ab$".toList, 0, none⟩ : TextCaret) = some caret' ∧
      hasError caret' = false ∧ view caret' = ⟨"$ab$ $a$ab$".toList, 11, none⟩) ∧
    ∃ caret', skipStringInQuotes (⟨"'it''s'".toList, 0, none⟩ : TextCaret) = some caret' ∧
      hasError caret' = false ∧ view caret' = ⟨"'it''s'".toList, 7, none⟩ := by
  constructor
  · have htag : IsLeast (occurrences ['$'] "$ab$ $a$ab$".toList 1) 3 := by
      refine ⟨⟨by decide, by decide⟩, fun j hj => Nat.not_lt.mp fun hlt => ?_⟩
      have hbefore : ∀ j < 3, ¬ (1 ≤ j ∧ ['$'] <+: "$ab$ $a$ab$".toList.drop j) := by decide
      exact hbefore j hlt hj
    have hterm : IsLeast (occurrences "$ab$".toList "$ab$ $a$ab$".toList 4) 7 := by
      refine ⟨⟨by decide, by decide⟩, fun j hj => Nat.not_lt.mp fun hlt => ?_⟩
      have hbefore : ∀ j < 7, ¬ (4 ≤ j ∧ "$ab$".toList <+: "$ab$ $a$ab$".toList.drop j) := by
        decide
      exact hbefore j hlt hj
    have hcaret : view (⟨"$ab$ $a$ab$".toList, 0, none⟩ : TextCaret)
        = ⟨"$ab$ $a$ab$".toList, 0, none⟩ := rfl
    obtain ⟨caret', hskip, herror, hends⟩ := (skipString_closes hcaret).1 rfl
    exact ⟨caret', hskip, herror.mpr ⟨3, htag, 7, hterm.1⟩, hends 3 7 htag hterm⟩
  · have hclosing : IsLeast (singleQuotes "'it''s'".toList 0) 6 := by
      refine ⟨⟨by decide, by decide, by decide⟩, fun j hj => Nat.not_lt.mp fun hlt => ?_⟩
      have hbefore : ∀ j < 6, ¬ (0 < j ∧ "'it''s'".toList[j]? = some '\'' ∧
          halfAt "'it''s'".toList 0 j = false) := by decide
      exact hbefore j hlt hj
    have hcaret : view (⟨"'it''s'".toList, 0, none⟩ : TextCaret) = ⟨"'it''s'".toList, 0, none⟩ :=
      rfl
    obtain ⟨caret', hskip, herror, hends⟩ := (skipString_closes hcaret).2 rfl
    exact ⟨caret', hskip, herror.mpr ⟨6, hclosing.1⟩, hends 6 hclosing⟩

end Scanners

end OatppSqlite.Template
