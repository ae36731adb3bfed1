import OatppSqlite.Lib.Search
import OatppSqlite.Template.View

/-!
# The string literals of a template, and the scanners that skip them

What a literal *is*, first, on plain text and with no caret in sight: `quoteClose` and
`dollarClose` say what follows the literal whose opening byte was just read, or that it is
never closed. Then the three scanners of `Parser.cpp` on a `TextCaret`, each with one equation
that says everything it does: `skipStringInQuotes_eq`, `skipStringInDollars_eq` and
`parseIdentifier_eq`. No later file unfolds a scanner again.

The other thing a tokeniser's proof needs is here too: a closed literal is closed *by itself*.
`DollarLit` and `QuoteLit` say what a skipped stretch does in front of an arbitrary text — the
dollar literal ends where it ended, the quote literal goes on exactly when the next byte is a
quote. Erasing a marker changes what a literal stands in front of, so this is the fact both
passes are compared by.
-/

set_option autoImplicit false

namespace OatppSqlite.Template

open Caret

/-! ## What a literal is -/

/-- What follows the quote-enclosed string whose opening quote was just read: the closing
    quote is the first that is not half of a doubled pair. -/
def quoteClose : Text → Option Text
  | [] => none
  | '\'' :: '\'' :: t => quoteClose t
  | '\'' :: t => some t
  | _ :: t => quoteClose t

/-- What follows the dollar-enclosed string whose first `$` was just read: the next `$`
    completes the tag, and the first `$tag$` after it closes the string. -/
def dollarClose (t : Text) : Option Text :=
  match t.dropWhile (· ≠ '$') with
  | [] => none
  | _ :: t' => List.afterFirst ('$' :: t.takeWhile (· ≠ '$') ++ ['$']) t'

/-- A quote that closed a piece closes the string too, unless another quote follows. -/
def afterQuote : Text → Option Text
  | '\'' :: t => quoteClose t
  | t => some t

@[simp] theorem afterQuote_quote (t : Text) : afterQuote ('\'' :: t) = quoteClose t := rfl

theorem afterQuote_of_head_ne {t : Text} (h : t.head? ≠ some '\'') : afterQuote t = some t := by
  unfold afterQuote
  split
  · exact absurd rfl h
  · rfl

@[simp] theorem quoteClose_quote (t : Text) : quoteClose ('\'' :: t) = afterQuote t := by
  cases t with
  | nil => rfl
  | cons a t =>
    by_cases ha : a = '\''
    · subst ha
      rfl
    · rw [afterQuote_of_head_ne (by simpa using ha)]
      exact quoteClose.eq_3 _ fun _ h => ha (by simp_all)

theorem quoteClose_cons {a : Char} (ha : a ≠ '\'') (t : Text) :
    quoteClose (a :: t) = quoteClose t :=
  quoteClose.eq_4 _ _ (fun _ h => absurd h ha) ha

theorem quoteClose_skip : ∀ {pre : Text} {t : Text}, '\'' ∉ pre →
    quoteClose (pre ++ t) = quoteClose t
  | [], _, _ => rfl
  | a :: pre, t, h => by
    rw [List.cons_append, quoteClose_cons (fun ha => h (by simp [ha]))]
    exact quoteClose_skip fun hm => h (List.mem_cons_of_mem _ hm)

theorem quoteClose_eq_none_of_not_mem {t : Text} (h : '\'' ∉ t) : quoteClose t = none := by
  have := quoteClose_skip (t := []) h
  simpa [quoteClose] using this

theorem dollarClose_tag {tag t : Text} (htag : '$' ∉ tag) :
    dollarClose (tag ++ '$' :: t) = List.afterFirst ('$' :: (tag ++ ['$'])) t := by
  have htag' : ∀ a ∈ tag, decide (a ≠ '$') = true := fun a ha => by
    simpa using fun h : a = '$' => htag (h ▸ ha)
  unfold dollarClose
  rw [List.takeWhile_append_of_pos htag', List.dropWhile_append_of_pos htag']
  simp

theorem dollarClose_eq_none_of_not_mem {t : Text} (h : '$' ∉ t) : dollarClose t = none := by
  have hall : t.dropWhile (· ≠ '$') = [] := by
    rw [List.dropWhile_eq_nil_iff]
    intro a ha
    simpa using fun hd : a = '$' => h (hd ▸ ha)
  rw [dollarClose, hall]

/-! ## A closed literal in front of other text -/

/-- A quote-enclosed string, as text: it runs on when the byte behind it is a quote, and only
    then. -/
def QuoteLit (s : Text) : Prop :=
  ∃ b, s = '\'' :: b ∧ ∀ X, quoteClose (b ++ X) = afterQuote X

/-- A dollar-enclosed string, as text: it ends where it ends. -/
def DollarLit (s : Text) : Prop :=
  ∃ b, s = '$' :: b ∧ ∀ X, dollarClose (b ++ X) = some X

theorem exists_of_quoteClose : ∀ {t r : Text}, quoteClose t = some r →
    r.head? ≠ some '\'' ∧ ∃ b, t = b ++ r ∧ ∀ X, quoteClose (b ++ X) = afterQuote X := by
  intro t
  induction t using quoteClose.induct with
  | case1 => intro r h; simp [quoteClose] at h
  | case2 t ih =>
    intro r h
    obtain ⟨hr, b, rfl, hX⟩ := ih h
    exact ⟨hr, '\'' :: '\'' :: b, rfl, fun X => by simp [hX]⟩
  | case3 t hne =>
    intro r h
    have ht : t.head? ≠ some '\'' := by
      intro hh
      obtain ⟨t', rfl⟩ := List.head?_eq_some_iff.mp hh
      exact hne t' rfl
    rw [quoteClose_quote, afterQuote_of_head_ne ht, Option.some.injEq] at h
    subst h
    exact ⟨ht, ['\''], rfl, fun X => by simp⟩
  | case4 a t _ ha ih =>
    intro r h
    rw [quoteClose_cons ha] at h
    obtain ⟨hr, b, rfl, hX⟩ := ih h
    exact ⟨hr, a :: b, rfl, fun X => by rw [List.cons_append, quoteClose_cons ha, hX]⟩

theorem exists_of_dollarClose {t r : Text} (h : dollarClose t = some r) :
    ∃ b, t = b ++ r ∧ ∀ X, dollarClose (b ++ X) = some X := by
  unfold dollarClose at h
  cases hd : t.dropWhile (· ≠ '$') with
  | nil => rw [hd] at h; simp at h
  | cons d t' =>
    rw [hd] at h
    obtain ⟨b, rfl, -, hX⟩ := List.exists_append_of_afterFirst h
    have hdollar : d = '$' := by
      have := List.head?_dropWhile_not (fun a : Char => a ≠ '$') t
      rw [hd] at this
      simpa using this
    have htag : ∀ a ∈ t.takeWhile (· ≠ '$'), a ≠ '$' := fun a ha => by
      simpa using List.mem_takeWhile_imp ha
    refine ⟨t.takeWhile (· ≠ '$') ++ d :: b, ?_, fun X => ?_⟩
    · rw [List.append_assoc, List.cons_append, ← hd, List.takeWhile_append_dropWhile]
    · -- the tag is read the same whatever follows it
      have htake : (t.takeWhile (· ≠ '$') ++ d :: b ++ X).takeWhile (· ≠ '$')
          = t.takeWhile (· ≠ '$') := by
        rw [List.append_assoc, List.takeWhile_append_of_pos (by simpa using htag)]
        simp [hdollar]
      have hdrop : (t.takeWhile (· ≠ '$') ++ d :: b ++ X).dropWhile (· ≠ '$')
          = d :: (b ++ X) := by
        rw [List.append_assoc, List.dropWhile_append_of_pos (by simpa using htag)]
        simp [hdollar]
      rw [dollarClose, hdrop, htake]
      exact hX X

/-- The literal a byte opens, and what follows it. -/
def closeLit (q : Char) (t : Text) : Option Text :=
  if q = '\'' then quoteClose t else dollarClose t

theorem closeLit_eq_some {q : Char} (hq : q = '\'' ∨ q = '$') {t r : Text}
    (h : closeLit q t = some r) :
    ∃ b, t = b ++ r ∧
      (QuoteLit (q :: b) ∧ r.head? ≠ some '\'' ∨ DollarLit (q :: b)) := by
  unfold closeLit at h
  split at h
  · rename_i hq'
    subst hq'
    obtain ⟨hr, b, rfl, hX⟩ := exists_of_quoteClose h
    exact ⟨b, rfl, Or.inl ⟨⟨b, rfl, hX⟩, hr⟩⟩
  · rename_i hq'
    obtain rfl := hq.resolve_left hq'
    obtain ⟨b, rfl, hX⟩ := exists_of_dollarClose h
    exact ⟨b, rfl, Or.inr ⟨b, rfl, hX⟩⟩

theorem length_le_of_closeLit {q : Char} (hq : q = '\'' ∨ q = '$') {t r : Text}
    (h : closeLit q t = some r) : r.length ≤ t.length := by
  obtain ⟨b, rfl, -⟩ := closeLit_eq_some hq h
  simp

/-! ## A `TextCaret`, read through what is left of its text -/

section TextCaret

variable {c : TextCaret}

@[simp] theorem caret_inc (n : Nat) : Caret.inc c n = c.inc n := rfl
@[simp] theorem caret_setError (msg : String) : Caret.setError c msg = c.setError msg := rfl
@[simp] theorem caret_getPosition : getPosition c = c.position := rfl

@[simp] theorem rest_ofText (t : Text) : (ofText t : TextCaret).rest = t := rfl

@[simp] theorem inc_error (n : Nat) : (c.inc n).error = c.error := rfl
@[simp] theorem inc_data (n : Nat) : (c.inc n).data = c.data := rfl
@[simp] theorem inc_position (n : Nat) : (c.inc n).position = c.position + n := rfl
@[simp] theorem inc_zero : c.inc 0 = c := rfl

@[simp] theorem inc_inc (m n : Nat) : (c.inc m).inc n = c.inc (m + n) := by
  simp [TextCaret.inc, Nat.add_assoc]

@[simp] theorem rest_inc (n : Nat) : (c.inc n).rest = c.rest.drop n := by
  simp [TextCaret.rest, List.drop_drop]

theorem length_rest : c.rest.length = c.data.length - c.position := List.length_drop

@[simp] theorem passes_eq : passes c = c.rest.length + 1 := by
  rw [length_rest]
  rfl

theorem canContinue_textCaret (he : c.error = none) :
    canContinue c = !c.rest.isEmpty := by
  show (decide (c.position < c.data.length) && c.error.isNone) = _
  rw [he, TextCaret.rest]
  by_cases h : c.position < c.data.length
  · simp [h]
  · simp [h, List.drop_of_length_le (Nat.le_of_not_lt h)]

theorem canContinue_of_error (he : c.error ≠ none) : canContinue c = false := by
  show (decide (c.position < c.data.length) && c.error.isNone) = _
  cases h : c.error with
  | none => exact absurd h he
  | some msg => simp

theorem getCurrData_textCaret {a : Char} {t : Text} (hr : c.rest = a :: t) :
    getCurrData c = a := by
  show c.rest.headD '\x00' = a
  rw [hr]
  rfl

theorem canContinueAtChar_pos {a : Char} {t : Text} (n : Nat) (he : c.error = none)
    (hr : c.rest = a :: t) : canContinueAtChar c a n = (true, c.inc n) := by
  show c.canContinueAtChar a n = _
  rw [TextCaret.canContinueAtChar, if_pos ⟨by rw [hr]; rfl, he⟩]

theorem canContinueAtChar_neg {a : Char} (n : Nat) (hr : c.rest.head? ≠ some a) :
    canContinueAtChar c a n = (false, c) := by
  show c.canContinueAtChar a n = _
  rw [TextCaret.canContinueAtChar, if_neg fun hh => hr hh.1]

theorem findChar_found {a : Char} {pre t : Text} (ha : a ∉ pre) (hr : c.rest = pre ++ a :: t) :
    findChar c a = (true, c.inc pre.length) := by
  show c.findChar a = _
  rw [TextCaret.findChar, hr, List.idxOf_append, if_neg ha]
  simp

theorem findChar_missing {a : Char} (ha : a ∉ c.rest) :
    findChar c a = (false, c.inc c.rest.length) := by
  show c.findChar a = _
  rw [TextCaret.findChar, List.idxOf_eq_length ha]
  simp [ha]

theorem isAtText_pos {w : Text} (h : w <+: c.rest) :
    isAtText c w = (true, c.inc w.length) :=
  if_pos h

theorem isAtText_neg {w : Text} (h : ¬ w <+: c.rest) : isAtText c w = (false, c) :=
  if_neg h

/-- The text a label took in: the bytes passed since. -/
theorem labelText_inc (n : Nat) :
    labelText (c.inc n) c.position = c.rest.take n := by
  show (c.data.take (c.position + n)).drop c.position = _
  rw [TextCaret.rest, List.drop_take, Nat.add_sub_cancel_left]

end TextCaret

/-! ## The three scanners -/

/-- Where `findChar` finds a byte: what is passed over, and what is behind it. -/
theorem findChar_split {c : TextCaret} {a : Char} (hm : a ∈ c.rest) :
    ∃ pre t, a ∉ pre ∧ c.rest = pre ++ a :: t ∧ findChar c a = (true, c.inc pre.length) ∧
      (c.inc (pre.length + 1)).rest = t ∧ c.rest.length = pre.length + 1 + t.length := by
  obtain ⟨pre, t, ht, hpre⟩ := List.eq_append_cons_of_mem hm
  refine ⟨pre, t, hpre, ht, findChar_found hpre ht, ?_, ?_⟩
  · rw [rest_inc, ht, ← List.drop_drop, List.drop_left]
    rfl
  · rw [ht]
    simp only [List.length_append, List.length_cons]
    omega

/-- Where a skipped string leaves the caret: behind it, or at the end with an error. -/
def stringEnd (msg : String) (c : TextCaret) : Option Text → TextCaret
  | some r => c.inc (c.rest.length - r.length)
  | none => (c.inc c.rest.length).setError msg

theorem length_le_of_afterQuote {t r : Text} (h : afterQuote t = some r) :
    r.length ≤ t.length := by
  cases t with
  | nil => simp_all [afterQuote]
  | cons a t =>
    by_cases ha : a = '\''
    · subst ha
      have := length_le_of_closeLit (Or.inl rfl) h
      simp only [List.length_cons]
      omega
    · rw [afterQuote_of_head_ne (by simpa using ha), Option.some.injEq] at h
      subst h
      exact Nat.le_refl _

/-- The loop of `skipStringInQuotes` from the head of a pass: one closed piece after another,
    as long as the next byte is a quote. -/
theorem run_skipStringInQuotesBody : ∀ {n : Nat} {c : TextCaret}, c.error = none →
    c.rest.length < n → Loop.run skipStringInQuotesBody n (false, c) =
      some (match afterQuote c.rest with
        | some r => (false, c.inc (c.rest.length - r.length))
        | none => (true, c.inc c.rest.length))
  | 0, _, _, hn => absurd hn (Nat.not_lt_zero _)
  | n + 1, c, he, hn => by
    by_cases hq : c.rest.head? = some '\''
    · obtain ⟨t, ht⟩ := List.head?_eq_some_iff.mp hq
      have hat := canContinueAtChar_pos 1 he ht
      have hdrop : (c.inc 1).rest = t := by simp [ht]
      rw [ht, List.length_cons] at hn
      by_cases hm : '\'' ∈ t
      · -- the piece is closed: go round again behind its closing quote
        rw [← hdrop] at hm
        obtain ⟨pre, t', hpre, ht', hfind, hrest, hlen⟩ := findChar_split hm
        rw [hdrop] at ht' hlen
        rw [inc_inc] at hrest
        have hbody : skipStringInQuotesBody (false, c)
            = some (.next (false, c.inc (1 + (pre.length + 1)))) := by
          simp [skipStringInQuotesBody, hat, hfind, Nat.add_assoc]
        have hlen' : c.rest.length = 1 + (pre.length + 1) + t'.length := by
          rw [ht, List.length_cons]
          omega
        rw [Loop.run_next hbody,
          run_skipStringInQuotesBody (c := c.inc (1 + (pre.length + 1))) he (by rw [hrest]; omega),
          hrest]
        have hafter : afterQuote c.rest = afterQuote t' := by
          rw [ht, ht', afterQuote_quote, quoteClose_skip hpre, quoteClose_quote]
        rw [hafter]
        cases ha : afterQuote t' with
        | none => simp [hlen']
        | some r =>
          have hle := length_le_of_afterQuote ha
          simp only [inc_inc, hlen']
          congr 3
          omega
      · -- no closing quote: the caret stands at the end, and the next pass leaves
        have hfind : findChar (c.inc 1) '\'' = (false, c.inc (1 + t.length)) := by
          rw [findChar_missing (by rwa [hdrop]), hdrop, inc_inc]
        have hbody : skipStringInQuotesBody (false, c)
            = some (.next (true, c.inc (1 + t.length))) := by
          simp [skipStringInQuotesBody, hat, hfind]
        have hend : (c.inc (1 + t.length)).rest = [] := by
          rw [rest_inc, ht, Nat.add_comm 1]
          simp
        have hbody' : skipStringInQuotesBody (true, c.inc (1 + t.length))
            = some (.exit (true, c.inc (1 + t.length))) := by
          simp [skipStringInQuotesBody, canContinueAtChar_neg 1 (a := '\'')
            (show (c.inc (1 + t.length)).rest.head? ≠ _ by simp [hend])]
        have hnone : afterQuote c.rest = none := by
          rw [ht, afterQuote_quote, quoteClose_eq_none_of_not_mem hm]
        rw [Loop.run_next hbody, Loop.run_exit_pos hbody' (by omega), hnone, ht]
        simp [Nat.add_comm]
    · have hbody : skipStringInQuotesBody (false, c) = some (.exit (false, c)) := by
        simp [skipStringInQuotesBody, canContinueAtChar_neg 1 hq]
      rw [Loop.run_exit hbody, afterQuote_of_head_ne hq]
      simp

/-- **`skipStringInQuotes`**, all of it: it ends behind the literal, or at the end of the text
    with an error when the literal is not closed. -/
theorem skipStringInQuotes_eq {c : TextCaret} {t : Text} (he : c.error = none)
    (hr : c.rest = '\'' :: t) :
    skipStringInQuotes c
      = some (stringEnd "Invalid quote-enclosed string" c (quoteClose t)) := by
  have hrun := run_skipStringInQuotesBody (n := passes c) he (by simp)
  have hq : afterQuote c.rest = quoteClose t := by rw [hr, afterQuote_quote]
  unfold skipStringInQuotes
  rw [hrun, hq]
  cases quoteClose t <;> rfl

/-- The loop of `skipStringInDollars`: it tries every `$` from the left, so it stops at the
    first `$tag$`. -/
theorem run_skipStringInDollarsBody (term : Text) :
    ∀ {n : Nat} {c : TextCaret}, c.error = none →
    c.rest.length < n → Loop.run (skipStringInDollarsBody term) n c =
      some (match List.afterFirst ('$' :: term) c.rest with
        | some r => (true, c.inc (c.rest.length - r.length))
        | none => (false, c.inc c.rest.length))
  | 0, _, _, hn => absurd hn (Nat.not_lt_zero _)
  | n + 1, c, he, hn => by
    by_cases hnil : c.rest = []
    · have hbody : skipStringInDollarsBody term c = some (.exit (false, c)) := by
        simp [skipStringInDollarsBody, canContinue_textCaret he, hnil]
      rw [Loop.run_exit hbody, hnil]
      simp [List.afterFirst]
    · have hgo : canContinue c = true := by simp [canContinue_textCaret he, hnil]
      by_cases hm : '$' ∈ c.rest
      · obtain ⟨pre, t, hpre, ht, hfind, hrest, hlen⟩ := findChar_split hm
        rw [ht, List.afterFirst_skip hpre, ← ht]
        by_cases hterm : term <+: t
        · -- the candidate is the terminator
          have hat : isAtText (c.inc (pre.length + 1)) term
              = (true, c.inc (pre.length + 1 + term.length)) := by
            rw [isAtText_pos (by rwa [hrest]), inc_inc]
          have hbody : skipStringInDollarsBody term c
              = some (.exit (true, c.inc (pre.length + 1 + term.length))) := by
            simp [skipStringInDollarsBody, hgo, hfind, hat]
          obtain ⟨r, rfl⟩ := hterm
          have hfirst : List.afterFirst ('$' :: term) ('$' :: (term ++ r)) = some r :=
            List.afterFirst_append ('$' :: term) r
          rw [Loop.run_exit hbody, hfirst, hlen]
          simp only [List.length_append]
          congr 3
          omega
        · -- it is not: go on one byte behind its `$`
          have hat : isAtText (c.inc (pre.length + 1)) term = (false, c.inc (pre.length + 1)) :=
            isAtText_neg (by rwa [hrest])
          have hbody : skipStringInDollarsBody term c
              = some (.next (c.inc (pre.length + 1))) := by
            simp [skipStringInDollarsBody, hgo, hfind, hat]
          have hne : ¬ ('$' :: term) <+: '$' :: t := by
            rwa [List.cons_prefix_cons, and_iff_right rfl]
          rw [Loop.run_next hbody, List.afterFirst_cons hne,
            run_skipStringInDollarsBody term (c := c.inc (pre.length + 1)) he
              (by rw [hrest]; omega), hrest]
          cases ha : List.afterFirst ('$' :: term) t with
          | none => simp [hlen]
          | some r =>
            have := List.length_le_of_afterFirst ha
            simp only [inc_inc, hlen]
            congr 3
            omega
      · -- no `$` left: the caret goes to the end, and the next pass leaves
        have hbody : skipStringInDollarsBody term c = some (.next (c.inc c.rest.length)) := by
          simp [skipStringInDollarsBody, hgo, findChar_missing hm]
        have hend : (c.inc c.rest.length).rest = [] := by simp
        have hbody' : skipStringInDollarsBody term (c.inc c.rest.length)
            = some (.exit (false, c.inc c.rest.length)) := by
          simp [skipStringInDollarsBody,
            canContinue_textCaret (c := c.inc c.rest.length) he, hend]
        have hpos : 0 < c.rest.length := List.length_pos_of_ne_nil hnil
        rw [Loop.run_next hbody, Loop.run_exit_pos hbody' (by omega),
          List.afterFirst_eq_none_of_not_mem hm]

/-- **`skipStringInDollars`**, all of it. -/
theorem skipStringInDollars_eq {c : TextCaret} {t : Text} (he : c.error = none)
    (hr : c.rest = '$' :: t) :
    skipStringInDollars c
      = some (stringEnd "Invalid dollar-enclosed string" c (dollarClose t)) := by
  have hat := canContinueAtChar_pos 1 he hr
  have hdrop : (c.inc 1).rest = t := by simp [hr]
  unfold skipStringInDollars
  rw [hat]
  by_cases hm : '$' ∈ t
  · rw [← hdrop] at hm
    obtain ⟨tag, t', htag, ht, hfind, hrest, hlen⟩ := findChar_split hm
    rw [hdrop] at ht hlen
    subst ht
    rw [inc_inc] at hrest
    have hlabel : labelText ((c.inc 1).inc (tag.length + 1)) (c.inc 1).position
        = tag ++ ['$'] := by
      rw [labelText_inc, hdrop, List.take_append, List.take_of_length_le (Nat.le_succ _)]
      simp
    have hrun := run_skipStringInDollarsBody (tag ++ ['$'])
      (n := passes (c.inc (1 + (tag.length + 1)))) (c := c.inc (1 + (tag.length + 1))) he
      (by simp)
    have hlen' : c.rest.length = 1 + (tag.length + 1) + t'.length := by
      rw [hr, List.length_cons]
      omega
    simp only [hfind, caret_inc, caret_getPosition, inc_inc (c := c.inc 1) tag.length 1, hlabel]
    rw [inc_inc, hrun, hrest, dollarClose_tag htag]
    cases ha : List.afterFirst ('$' :: (tag ++ ['$'])) t' with
    | none =>
      show some (((c.inc _).inc _).setError _) = some ((c.inc _).setError _)
      rw [inc_inc, hlen']
    | some r =>
      have hle := List.length_le_of_afterFirst ha
      show some ((c.inc _).inc _) = some (c.inc _)
      rw [inc_inc, hlen']
      congr 2
      omega
  · have hfind : findChar (c.inc 1) '$' = (false, c.inc c.rest.length) := by
      rw [findChar_missing (by rwa [hdrop]), hdrop, inc_inc, hr, List.length_cons, Nat.add_comm]
    simp only [hfind, dollarClose_eq_none_of_not_mem hm]
    rfl

/-- The loop of `parseIdentifier` takes the allowed bytes ahead of the caret. -/
theorem run_parseIdentifierBody {c : TextCaret} {p : Nat} (he : c.error = none) :
    Loop.run (parseIdentifierBody p c.position) (passes c) c
      = some (⟨p, c.position + (c.rest.takeWhile isAllowedChar).length - 1,
          some (c.rest.takeWhile isAllowedChar)⟩,
        c.inc (c.rest.takeWhile isAllowedChar).length) := by
  -- the caret at the head of a pass is some allowed bytes further on
  have hinv : Loop.Keeps (parseIdentifierBody p c.position)
      (fun d => ∃ n, d = c.inc n ∧ n ≤ c.rest.length ∧ (c.rest.take n).all isAllowedChar)
      (fun d => d.rest.length)
      (fun r => r = (⟨p, c.position + (c.rest.takeWhile isAllowedChar).length - 1,
        some (c.rest.takeWhile isAllowedChar)⟩,
          c.inc (c.rest.takeWhile isAllowedChar).length)) := by
    rintro d ⟨n, rfl, hn, hall⟩
    have hsplit : c.rest = c.rest.take n ++ (c.inc n).rest := by
      rw [rest_inc, List.take_append_drop]
    -- the run of allowed bytes ends here as soon as the next byte is not one of them
    have hexit : ((c.inc n).rest.takeWhile isAllowedChar) = [] →
        c.rest.takeWhile isAllowedChar = c.rest.take n := by
      intro hstop
      rw [hsplit, List.takeWhile_append_of_pos (by simpa using hall), hstop]
      simp
    have hleave : ((c.inc n).rest.takeWhile isAllowedChar) = [] →
        ((⟨p, getPosition (c.inc n) - 1, some (labelText (c.inc n) c.position)⟩,
            c.inc n) : Variable × TextCaret)
          = (⟨p, c.position + (c.rest.takeWhile isAllowedChar).length - 1,
              some (c.rest.takeWhile isAllowedChar)⟩,
            c.inc (c.rest.takeWhile isAllowedChar).length) := by
      intro hstop
      rw [labelText_inc, hexit hstop, List.length_take, Nat.min_eq_left hn]
      rfl
    cases hr : (c.inc n).rest with
    | nil =>
      refine Or.inr ⟨_, ?_, hleave (by simp [hr])⟩
      have : canContinue (c.inc n) = false := by
        rw [canContinue_textCaret (c := c.inc n) he, hr]
        rfl
      simp [parseIdentifierBody, this]
    | cons a t =>
      have hgo : canContinue (c.inc n) = true := by
        rw [canContinue_textCaret (c := c.inc n) he, hr]
        rfl
      by_cases ha : isAllowedChar a
      · refine Or.inl ⟨c.inc (n + 1), ?_, ⟨n + 1, rfl, ?_, ?_⟩, ?_⟩
        · simp [parseIdentifierBody, hgo, getCurrData_textCaret hr, ha]
        · rw [hsplit, hr]
          simp only [List.length_append, List.length_take, List.length_cons]
          omega
        · have htake : c.rest.take (n + 1) = c.rest.take n ++ [a] := by
            rw [List.take_add_one]
            rw [rest_inc] at hr
            simp [← List.head?_drop, hr]
          simp [htake, List.all_append, hall, ha]
        · show (c.inc (n + 1)).rest.length < (c.inc n).rest.length
          rw [← inc_inc, rest_inc, hr]
          simp
      · refine Or.inr ⟨_, ?_, hleave (by rw [hr, List.takeWhile_cons_of_neg ha])⟩
        simp [parseIdentifierBody, hgo, getCurrData_textCaret hr, ha]
  obtain ⟨r, hrun, rfl⟩ := Loop.run_total hinv (n := passes c) (s := c)
    ⟨0, rfl, Nat.zero_le _, by simp⟩ (by simp)
  exact hrun

/-- **`parseIdentifier`** at a `:`, all of it: the name is the maximal run of allowed bytes. -/
theorem parseIdentifier_eq {c : TextCaret} {t : Text} (he : c.error = none)
    (hr : c.rest = ':' :: t) :
    parseIdentifier c =
      some (⟨c.position, c.position + (t.takeWhile isAllowedChar).length,
        some (t.takeWhile isAllowedChar)⟩, c.inc (1 + (t.takeWhile isAllowedChar).length)) := by
  have hdrop : (c.inc 1).rest = t := by simp [hr]
  have hrun := run_parseIdentifierBody (c := c.inc 1) (p := c.position) he
  unfold parseIdentifier
  rw [canContinueAtChar_pos 1 he hr]
  show Loop.run (parseIdentifierBody c.position (c.inc 1).position) _ _ = _
  rw [hrun, hdrop, inc_inc, inc_position]
  congr 3
  omega

end OatppSqlite.Template
