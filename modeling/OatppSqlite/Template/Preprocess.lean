import OatppSqlite.Template.Source

/-!
# The first pass

`preprocess` copies the pieces of the source and drops the markers: `preprocess_eq_scan` says
that the text it returns is `bytes` of the scan and the sections it records are `sections` of
it. When a literal is never closed the caret's error ends the loop with the rest of the text
already copied, so nothing is lost even then — which is why the error it drops can be found
again by the second pass.

The branches of the body come first, one lemma each, under the conditions that the scan has for its
pieces. So the loop is compared with the scan by its cases (`run_preprocessBody`): either both meet
a literal, or a marker, or a byte that is neither.
-/

set_option autoImplicit false

namespace OatppSqlite.Template

open Caret

variable {s : PreprocessState TextCaret} {t : Text}

/-! ## One pass over the body -/

theorem preprocessBody_nil (hr : s.caret.rest = []) :
    preprocessBody s = some (.exit (s.ss, s.cleanSections)) := by
  have hstop : canContinue s.caret = false := by
    cases he : s.caret.error with
    | none =>
      rw [canContinue_textCaret he, hr]
      rfl
    | some msg => exact canContinue_of_error (by simp [he])
  simp [preprocessBody, hstop]

theorem preprocessBody_error (he : s.caret.error ≠ none) :
    preprocessBody s = some (.exit (s.ss, s.cleanSections)) := by
  simp [preprocessBody, canContinue_of_error he]

theorem canContinue_cons {c : TextCaret} {a : Char} {t : Text} (he : c.error = none)
    (hr : c.rest = a :: t) : canContinue c = true := by
  rw [canContinue_textCaret he, hr]
  rfl

/-- The error message of the literal a byte opens. -/
def openMessage (q : Char) : String :=
  if q = '\'' then "Invalid quote-enclosed string" else "Invalid dollar-enclosed string"

theorem preprocessBody_lit {q : Char} (hq : q = '\'' ∨ q = '$') (he : s.caret.error = none)
    (hr : s.caret.rest = q :: t) :
    preprocessBody s
      = some (.next (s.copied (stringEnd (openMessage q) s.caret (closeLit q t)))) := by
  unfold preprocessBody
  rw [if_pos (canContinue_cons he hr), getCurrData_textCaret hr]
  -- the two kinds of literals have a scanner each
  rcases hq with rfl | rfl
  · simp [skipStringInQuotes_eq he hr, openMessage, closeLit]
  · simp [skipStringInDollars_eq he hr, openMessage, closeLit]

theorem preprocessBody_opn (he : s.caret.error = none) (hs : s.sectionStart = none)
    (hr : s.caret.rest = '<' :: '!' :: '!' :: t) :
    preprocessBody s
      = some (.next { s with caret := s.caret.inc 3, sectionStart := some s.ss.length }) := by
  unfold preprocessBody
  rw [if_pos (canContinue_cons he hr), getCurrData_textCaret hr]
  simp [hs, isAtText_pos (c := s.caret) (w := ['<', '!', '!']) (by simp [hr])]

theorem preprocessBody_cls {start : Nat} (he : s.caret.error = none)
    (hs : s.sectionStart = some start) (hr : s.caret.rest = '!' :: '!' :: '>' :: t) :
    preprocessBody s
      = some (.next ⟨s.ss, s.caret.inc 3, none,
          s.cleanSections ++ [⟨start, s.ss.length - start⟩]⟩) := by
  unfold preprocessBody
  rw [if_pos (canContinue_cons he hr), getCurrData_textCaret hr]
  simp [hs, isAtText_pos (c := s.caret) (w := ['!', '!', '>']) (by simp [hr])]

theorem preprocessBody_chr {c : Char} (he : s.caret.error = none) (hr : s.caret.rest = c :: t)
    (hq : ¬ (c = '\'' ∨ c = '$'))
    (ho : ¬ (s.sectionStart.isSome = false ∧ ['<', '!', '!'] <+: c :: t))
    (hc : ¬ (s.sectionStart.isSome = true ∧ ['!', '!', '>'] <+: c :: t)) :
    preprocessBody s = some (.next (s.plain c)) := by
  unfold preprocessBody
  rw [if_pos (canContinue_cons he hr), getCurrData_textCaret hr]
  rw [← hr] at ho hc
  split
  · exact absurd (Or.inl rfl) hq
  · exact absurd (Or.inr rfl) hq
  · -- a `<` that starts no marker, or one that does not count
    split
    · rename_i hs
      rw [isAtText_neg fun h => ho ⟨by simp [hs], h⟩]
    · rfl
  · split
    · rename_i hs
      rw [isAtText_neg fun h => hc ⟨by simp [hs], h⟩]
    · rfl
  · rfl

/-- A literal that is closed is copied as a whole. -/
theorem preprocessBody_closed {q : Char} {b r : Text} (hq : q = '\'' ∨ q = '$')
    (he : s.caret.error = none) (hr : s.caret.rest = q :: (b ++ r))
    (hc : closeLit q (b ++ r) = some r) :
    preprocessBody s = some (.next { s with
      ss := s.ss ++ q :: b, caret := s.caret.inc (q :: b).length }) := by
  have hpass : s.caret.rest.length - r.length = (q :: b).length := by
    rw [hr]
    simp only [List.length_cons, List.length_append]
    omega
  have hcopy : labelText (s.caret.inc (q :: b).length) s.caret.position = q :: b := by
    rw [labelText_inc, hr, ← List.cons_append, List.take_left]
  rw [preprocessBody_lit hq he hr, hc]
  simp only [stringEnd, hpass, PreprocessState.copied, caret_getPosition, hcopy]

/-- One that is never closed is copied, too, and the caret's error ends the loop. -/
theorem preprocessBody_open {q : Char} (hq : q = '\'' ∨ q = '$') (he : s.caret.error = none)
    (hr : s.caret.rest = q :: t) (hc : closeLit q t = none) :
    ∃ s', preprocessBody s = some (.next s') ∧
      preprocessBody s' = some (.exit (s.ss ++ q :: t, s.cleanSections)) := by
  have hnext := preprocessBody_lit hq he hr
  rw [hc] at hnext
  refine ⟨_, hnext, ?_⟩
  rw [preprocessBody_error (by simp [PreprocessState.copied, stringEnd, TextCaret.setError])]
  have hcopy : labelText ((s.caret.inc s.caret.rest.length).setError (openMessage q))
      s.caret.position = q :: t := by
    rw [← hr]
    exact (labelText_inc _).trans (List.take_length)
  simp only [PreprocessState.copied, stringEnd, caret_getPosition, hcopy]

/-! ## The whole pass -/

/-- **The loop of `preprocess` from the head of any pass.** Induction on the passes left; each
    case is one piece of the scan of what the caret has ahead. -/
theorem run_preprocessBody : ∀ {n : Nat} {s : PreprocessState TextCaret},
    s.caret.error = none → s.caret.rest.length < n →
    Loop.run preprocessBody n s =
      some (s.ss ++ (bytes (scan s.sectionStart.isSome s.caret.rest).1
              ++ (scan s.sectionStart.isSome s.caret.rest).2),
            s.cleanSections ++ sections s.ss.length s.sectionStart
              (scan s.sectionStart.isSome s.caret.rest).1)
  | 0, _, _, hn => absurd hn (Nat.not_lt_zero _)
  | n + 1, s, he, hn => by
    cases hr : s.caret.rest with
    | nil =>
      rw [Loop.run_exit (preprocessBody_nil hr)]
      simp [sections]
    | cons c t =>
      rw [hr, List.length_cons] at hn
      by_cases hq : c = '\'' ∨ c = '$'
      · cases hc : closeLit c t with
        | none =>
          -- one pass for the literal, and one in which the loop sees the error
          obtain ⟨s', hnext, hend⟩ := preprocessBody_open hq he hr hc
          rw [Loop.run_next hnext, Loop.run_exit_pos hend (by omega), scan_open hq hc]
          simp [sections]
        | some r =>
          obtain ⟨b, rfl, -⟩ := closeLit_eq_some hq hc
          have hrest : (s.caret.inc (c :: b).length).rest = r := by
            rw [rest_inc, hr, ← List.cons_append, List.drop_left]
          rw [Loop.run_next (preprocessBody_closed hq he hr hc), run_preprocessBody (by exact he)
            (by
              simp only [hrest]
              simp only [List.length_append] at hn
              omega)]
          simp only [hrest]
          rw [scan_lit hq hc]
          simp [sections]
      · by_cases ho : s.sectionStart.isSome = false ∧ ['<', '!', '!'] <+: c :: t
        · obtain ⟨hs, u, hu⟩ := ho
          obtain ⟨rfl, rfl⟩ : c = '<' ∧ t = '!' :: '!' :: u := by simpa using hu.symm
          have hs' : s.sectionStart = none := by simpa using hs
          have hrest : (s.caret.inc 3).rest = u := by simp [hr]
          rw [Loop.run_next (preprocessBody_opn he hs' hr), run_preprocessBody (by exact he) (by
            simp only [hrest]
            simp only [List.length_cons] at hn
            omega)]
          simp only [hrest, hs', Option.isSome_some, Option.isSome_none]
          rw [scan_opn]
          simp [sections]
        · by_cases hcl : s.sectionStart.isSome = true ∧ ['!', '!', '>'] <+: c :: t
          · obtain ⟨hs, u, hu⟩ := hcl
            obtain ⟨rfl, rfl⟩ : c = '!' ∧ t = '!' :: '>' :: u := by simpa using hu.symm
            obtain ⟨start, hs'⟩ := Option.isSome_iff_exists.mp hs
            have hrest : (s.caret.inc 3).rest = u := by simp [hr]
            rw [Loop.run_next (preprocessBody_cls he hs' hr), run_preprocessBody (by exact he)
              (by
                simp only [hrest]
                simp only [List.length_cons] at hn
                omega)]
            simp only [hrest, hs', Option.isSome_some, Option.isSome_none]
            rw [scan_cls]
            simp [sections]
          · have hrest : (s.caret.inc 1).rest = t := by simp [hr]
            rw [Loop.run_next (preprocessBody_chr he hr hq ho hcl), run_preprocessBody
              (by exact he) (by
                simp only [PreprocessState.plain, caret_inc, hrest]
                omega)]
            simp only [PreprocessState.plain, caret_inc, hrest]
            rw [scan_chr hq ho hcl]
            simp [sections]

/-- **What `preprocess` computes**: the bytes of the scan, an unclosed literal included, and
    its closed sections. -/
theorem preprocess_eq_scan (text : Text) :
    preprocess TextCaret text
      = some (bytes (scan false text).1 ++ (scan false text).2,
          sections 0 none (scan false text).1) := by
  have h := run_preprocessBody (n := passes (ofText text : TextCaret))
    (s := ⟨[], ofText text, none, []⟩) rfl (by simp)
  simpa [preprocess] using h

end OatppSqlite.Template
