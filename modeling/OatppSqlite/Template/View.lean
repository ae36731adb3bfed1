import OatppSqlite.Template.Parser

/-!
# The parser at any caret

What `preprocess` and `parseTemplate` compute does not depend on the caret they run on: each
scanner commutes with `view`, so running it on a lawful caret and then looking is looking and
then running it on a `TextCaret`. The two theorems the rest of the development uses are
`preprocess_eq` and `parseTemplate_eq`; the results hold no caret, so they are plain
equalities, and every proof after this file is about `TextCaret` alone.

A caret of the framework may keep more than its text, its position and its error, and the laws say
nothing of the rest. So the two carets of a comparison are never equal. What is carried along is that
one is the view of the other, and for the loops that is `Loop.run_map`: if one pass commutes with
`view` then the whole run does, for any bound on the passes, and the bounds agree because the view
has the same text (`passes_view`).

In each scanner the proof follows the source from call to call. An answer of the caret is the same
on both sides (the lemmas of the first section), and what is left of the caret afterwards is a
view again, so each branch is closed by the laws of the calls that are made in it.
-/

set_option autoImplicit false

namespace OatppSqlite.Template

open Caret

variable {κ : Type} [Caret κ]

/-! ## A caret and its view

The laws are stated as facts about `view`, read from the caret to its view; here they are turned
round, so that `simp` and `rw` move a `view` outwards through the calls of a scanner. -/

@[simp] theorem getData_view (c : κ) : getData (view c) = getData c := rfl
@[simp] theorem getPosition_view (c : κ) : getPosition (view c) = getPosition c := rfl
@[simp] theorem getErrorMessage_view (c : κ) : getErrorMessage (view c) = getErrorMessage c := rfl
@[simp] theorem getDataSize_view (c : κ) : getDataSize (view c) = getDataSize c := rfl
@[simp] theorem hasError_view (c : κ) : hasError (view c) = hasError c := rfl
@[simp] theorem passes_view (c : κ) : passes (view c) = passes c := rfl

variable [LawfulCaret κ]

theorem canContinueAtChar_fst (c : κ) (a : Char) (n : Nat) :
    canContinueAtChar (view c) a n
      = ((canContinueAtChar c a n).1, view (canContinueAtChar c a n).2) :=
  (LawfulCaret.canContinueAtChar_view c a n).symm

theorem findChar_fst (c : κ) (a : Char) :
    findChar (view c) a = ((findChar c a).1, view (findChar c a).2) :=
  (LawfulCaret.findChar_view c a).symm

theorem isAtText_fst (c : κ) (t : Text) :
    isAtText (view c) t = ((isAtText c t).1, view (isAtText c t).2) :=
  (LawfulCaret.isAtText_view c t).symm

theorem inc_view (c : κ) (n : Nat) : inc (view c) n = view (inc c n) :=
  (LawfulCaret.view_inc c n).symm

theorem setError_view (c : κ) (msg : String) : setError (view c) msg = view (setError c msg) :=
  (LawfulCaret.view_setError c msg).symm

theorem canContinue_eq (c : κ) : canContinue (view c) = canContinue c :=
  (LawfulCaret.canContinue_view c).symm

theorem labelText_eq (c : κ) (start : Nat) : labelText (view c) start = labelText c start :=
  (LawfulCaret.labelText_view c start).symm

/-! ## The scanners

What a scanner gives is a pair of what it found and the caret it leaves; only the second part is
viewed. Outside of `canContinue` the current byte is not defined, so `getCurrData_view` is only
there under that condition, and the branches are taken in the order in which the source tests. -/

theorem parseIdentifier_view (c : κ) :
    (parseIdentifier c).map (Prod.map id view) = parseIdentifier (view c) := by
  have hbody : ∀ (p l : Nat) (c : κ),
      (parseIdentifierBody p l c).map (Loop.Step.map view (Prod.map id view))
        = parseIdentifierBody p l (view c) := by
    intro p l c
    unfold parseIdentifierBody
    by_cases hc : canContinue c
    · -- there is a byte to look at, and it is the same one
      have ha := LawfulCaret.getCurrData_view c hc
      by_cases hal : isAllowedChar (getCurrData c)
      · simp [canContinue_eq, hc, ← ha, hal, inc_view, Loop.Step.map]
      · simp [canContinue_eq, hc, ← ha, hal, labelText_eq, Loop.Step.map]
    · simp [canContinue_eq, hc, labelText_eq, Loop.Step.map]
  unfold parseIdentifier
  rw [canContinueAtChar_fst]
  rcases canContinueAtChar c ':' 1 with ⟨⟨⟩, c'⟩
  · simp [setError_view]
  · exact Loop.run_map (hbody _ _) _ _

theorem skipStringInQuotes_view (c : κ) :
    (skipStringInQuotes c).map view = skipStringInQuotes (view c) := by
  have hbody : ∀ s : Bool × κ,
      (skipStringInQuotesBody s).map (Loop.Step.map (Prod.map id view) (Prod.map id view))
        = skipStringInQuotesBody (Prod.map id view s) := by
    rintro ⟨o, c⟩
    unfold skipStringInQuotesBody
    simp only [Prod.map, id, canContinueAtChar_fst]
    rcases canContinueAtChar c '\'' 1 with ⟨⟨⟩, c₁⟩
    · rfl
    · simp only [findChar_fst]
      rcases findChar c₁ '\'' with ⟨⟨⟩, c₂⟩
      · rfl
      · simp [Loop.Step.map, inc_view]
  -- the flag of the loop says whether an opening quote was found, and is no part of the caret
  have hrun := Loop.run_map hbody (passes c) (false, c)
  unfold skipStringInQuotes
  rw [passes_view, show ((false, view c) : Bool × TextCaret) = Prod.map id view (false, c)
    from rfl, ← hrun]
  rcases Loop.run skipStringInQuotesBody (passes c) (false, c) with - | ⟨⟨⟩, c'⟩
  · rfl
  · rfl
  · simp [setError_view]

theorem skipStringInDollars_view (c : κ) :
    (skipStringInDollars c).map view = skipStringInDollars (view c) := by
  have hbody : ∀ (t : Text) (c : κ),
      (skipStringInDollarsBody t c).map (Loop.Step.map view (Prod.map id view))
        = skipStringInDollarsBody t (view c) := by
    intro t c
    unfold skipStringInDollarsBody
    rw [canContinue_eq]
    split
    · simp only [findChar_fst]
      rcases findChar c '$' with ⟨⟨⟩, c₁⟩
      · rfl
      · simp only [inc_view, isAtText_fst]
        rcases isAtText (inc c₁ 1) t with ⟨⟨⟩, c₂⟩ <;> rfl
    · rfl
  unfold skipStringInDollars
  rw [canContinueAtChar_fst]
  rcases canContinueAtChar c '$' 1 with ⟨⟨⟩, c₁⟩
  · simp [setError_view]
  · simp only [findChar_fst, getPosition_view]
    rcases findChar c₁ '$' with ⟨⟨⟩, c₂⟩
    · simp [setError_view]
    · -- the tag is a label of the text, so the loops look for the same one
      have hrun := Loop.run_map (hbody (labelText (inc c₂ 1) (getPosition c₁)))
        (passes (inc c₂ 1)) (inc c₂ 1)
      simp only [inc_view, labelText_eq, passes_view, ← hrun]
      rcases Loop.run (skipStringInDollarsBody (labelText (inc c₂ 1) (getPosition c₁)))
        (passes (inc c₂ 1)) (inc c₂ 1) with - | ⟨⟨⟩, c'⟩
      · rfl
      · simp [setError_view]
      · rfl

/-! ## The two passes

The locals of the loops are a caret and values that do not depend on it: the text copied so far,
the sections, the variables. -/

/-- The view of `preprocess`'s locals. -/
def PreprocessState.view (s : PreprocessState κ) : PreprocessState TextCaret :=
  ⟨s.ss, Caret.view s.caret, s.sectionStart, s.cleanSections⟩

theorem preprocessBody_view (s : PreprocessState κ) :
    (preprocessBody s).map (Loop.Step.map PreprocessState.view id)
      = preprocessBody s.view := by
  obtain ⟨ss, c, start, secs⟩ := s
  unfold preprocessBody
  simp only [PreprocessState.view, canContinue_eq]
  by_cases hc : canContinue c
  · simp only [hc, if_true, ← LawfulCaret.getCurrData_view c hc]
    split
    · rw [← skipStringInQuotes_view]
      cases skipStringInQuotes c <;>
        simp [Loop.Step.map, PreprocessState.copied, PreprocessState.view, labelText_eq]
    · rw [← skipStringInDollars_view]
      cases skipStringInDollars c <;>
        simp [Loop.Step.map, PreprocessState.copied, PreprocessState.view, labelText_eq]
    · cases start with
      | none =>
        simp only [isAtText_fst]
        rcases isAtText c ['<', '!', '!'] with ⟨⟨⟩, c'⟩ <;>
          simp [Loop.Step.map, PreprocessState.plain, PreprocessState.view, inc_view]
      | some p =>
        simp [Loop.Step.map, PreprocessState.plain, PreprocessState.view, inc_view]
    · cases start with
      | none =>
        simp [Loop.Step.map, PreprocessState.plain, PreprocessState.view, inc_view]
      | some p =>
        simp only [isAtText_fst]
        rcases isAtText c ['!', '!', '>'] with ⟨⟨⟩, c'⟩ <;>
          simp [Loop.Step.map, PreprocessState.plain, PreprocessState.view, inc_view]
    · simp [Loop.Step.map, PreprocessState.plain, PreprocessState.view, inc_view]
  · simp [hc, Loop.Step.map]

theorem view_ofText (t : Text) : view (ofText t : κ) = ofText t :=
  LawfulCaret.view_ofText t

/-- **`preprocess` computes the same on every lawful caret.** -/
theorem preprocess_eq (text : Text) : preprocess κ text = preprocess TextCaret text := by
  have h := Loop.run_map (preprocessBody_view (κ := κ)) (passes (ofText text : κ))
    ⟨[], ofText text, none, []⟩
  simpa [preprocess, PreprocessState.view, view_ofText, ← passes_view] using h

/-- The view of `parseTemplate`'s locals. -/
def ParseState.view (s : ParseState κ) : ParseState TextCaret :=
  ⟨Caret.view s.caret, s.vars, s.currSection⟩

theorem parseTemplateBody_view (secs : List CleanSection) (s : ParseState κ) :
    (parseTemplateBody secs s).map (Loop.Step.map ParseState.view ParseState.view)
      = parseTemplateBody secs s.view := by
  obtain ⟨c, vars, k⟩ := s
  -- what a pass does once it is clear that it jumps over no section
  have hscan : canContinue c = true →
      (parseTemplateBody.scan ⟨c, vars, k⟩).map (Loop.Step.map ParseState.view ParseState.view)
        = parseTemplateBody.scan (ParseState.view ⟨c, vars, k⟩) := by
    intro hc
    unfold parseTemplateBody.scan
    simp only [ParseState.view, ← LawfulCaret.getCurrData_view c hc]
    split
    · rw [← parseIdentifier_view]
      rcases parseIdentifier c with - | ⟨⟨p, e, - | n⟩, c'⟩ <;>
        simp [Loop.Step.map, ParseState.view]
    · rw [← skipStringInQuotes_view]
      cases skipStringInQuotes c <;> simp [Loop.Step.map, ParseState.view]
    · rw [← skipStringInDollars_view]
      cases skipStringInDollars c <;> simp [Loop.Step.map, ParseState.view]
    · simp [Loop.Step.map, ParseState.view, inc_view]
  unfold parseTemplateBody
  simp only [ParseState.view, canContinue_eq] at hscan ⊢
  by_cases hc : canContinue c
  · simp only [hc, if_true]
    split
    · split
      · simp_all [Loop.Step.map, ParseState.view, inc_view]
      · simp_all
    · simp_all
  · simp [hc, Loop.Step.map, ParseState.view]

/-- **`parseTemplate` computes the same on every lawful caret.** -/
theorem parseTemplate_eq (text : Text) :
    parseTemplate κ text = parseTemplate TextCaret text := by
  unfold parseTemplate
  rw [preprocess_eq]
  rcases preprocess TextCaret text with - | ⟨processedText, secs⟩
  · rfl
  · -- the second loop starts at a fresh caret, over the text without the markers
    have h := Loop.run_map (parseTemplateBody_view (κ := κ) secs)
      (passes (ofText processedText : κ) + secs.length) ⟨ofText processedText, [], 0⟩
    simp only [ParseState.view, view_ofText, ← passes_view (ofText processedText : κ)] at h
    simp only [Option.bind_eq_bind, Option.bind_some, ← h,
      ← passes_view (ofText processedText : κ), view_ofText]
    rcases Loop.run (parseTemplateBody secs)
      (passes (ofText processedText : TextCaret) + secs.length)
      (⟨ofText processedText, [], 0⟩ : ParseState κ) with - | ⟨c, vars, k⟩
    · rfl
    · rfl

end OatppSqlite.Template
