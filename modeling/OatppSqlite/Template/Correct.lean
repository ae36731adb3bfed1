import OatppSqlite.Template.Follow

/-!
# What `parseTemplate` computes

`run_parseTemplateBody` puts the two passes together, at any lawful caret: the processed text is
`bytes` of the scan and the variables are `foundVariables`. Two questions about it are answered
here. Which texts are accepted: those whose literals are closed, for both passes agree on that
(`parseTemplate_throws_iff`). And when the variables are those of the source: `parseTemplate`
compares positions in a text in which the markers are already erased, so tokens that only
touch there are read as one, and `parseTemplate_reads_source_iff` says which templates pay
for it.
-/

set_option autoImplicit false

namespace OatppSqlite.Template

open Caret

variable {κ : Type} [Caret κ]

/-- **The loop of `parseTemplate`**, from its start: it ends within its bound, and no pass of
    it begins behind a section that is still to come exactly when `neverSkips` says so. -/
theorem run_parseTemplateBody (ps : List Piece) (tail : Text) (hs : Scanned tail false ps)
    (ho : OpenLit tail) :
    (∃ s, Loop.run (parseTemplateBody (sections 0 none ps))
        (passes (ofText (bytes ps ++ tail) : TextCaret) + (sections 0 none ps).length)
        ⟨ofText (bytes ps ++ tail), [], 0⟩ = some s ∧
      Outcome tail (foundVariables tail 0 false ps) s) ∧
    ((∀ t, Loop.Reaches (parseTemplateBody (sections 0 none ps))
        ⟨ofText (bytes ps ++ tail), [], 0⟩ t → AtOrBefore (sections 0 none ps) t)
      ↔ neverSkips tail false ps = true) := by
  have hfollow := (aligned_follows ho ps.length : FollowsBelow (sections 0 none ps) tail _) ps
    (ofText (bytes ps ++ tail)) [] 0 (Nat.le_refl _) ⟨rfl, rfl, rfl, hs⟩
  obtain ⟨⟨s, hends, hout⟩, hall⟩ := hfollow
  obtain ⟨s', hrun, -⟩ := Loop.run_total (parseTemplateBody_keeps (sections 0 none ps))
    (n := passes (ofText (bytes ps ++ tail) : TextCaret) + (sections 0 none ps).length)
    (s := ⟨ofText (bytes ps ++ tail), [], 0⟩) trivial
    (by rw [passes_eq]; simp)
  obtain rfl : s = s' := hends.unique hrun
  exact ⟨⟨s, hrun, hout⟩, hall⟩

/-- **`parseTemplate`, all of it**: the erased text with what the second pass found in it, or
    the error of the literal the source leaves open. -/
theorem parseTemplate_eq_found [LawfulCaret κ] (text : Text) :
    if (scan false text).2 = [] then
      parseTemplate κ text = some (.ok ⟨bytes (scan false text).1,
        foundVariables [] 0 false (scan false text).1⟩)
    else ∃ e, parseTemplate κ text = some (.error e) := by
  obtain ⟨hs, ho⟩ := scan_scanned false text
  obtain ⟨⟨s, hrun, hvars, herr⟩, -⟩ := run_parseTemplateBody _ _ hs ho
  rw [parseTemplate_eq, parseTemplate, preprocess_eq_scan]
  simp only [Option.bind_eq_bind, Option.bind_some, hrun]
  by_cases ht : (scan false text).2 = []
  · have hno : hasError s.caret = false := by
      show s.caret.error.isSome = false
      rw [herr.mpr ht]
      rfl
    rw [if_pos ht, hno, hvars, ht, List.append_nil]
    rfl
  · have hyes : hasError s.caret = true := by
      show s.caret.error.isSome = true
      rw [Option.isSome_iff_ne_none]
      exact fun h => ht (herr.mp h)
    rw [if_neg ht, hyes]
    exact ⟨_, rfl⟩

/-! ## Which texts are accepted -/

/-- **Acceptance.** `parseTemplate` throws exactly when a single scan of the source meets a
    literal that is not closed, and returns a template otherwise. -/
theorem parseTemplate_throws_iff [LawfulCaret κ] (text : Text) :
    ((∃ e, parseTemplate κ text = some (.error e)) ↔ literalsClosed text = false) ∧
    ((∃ st, parseTemplate κ text = some (.ok st)) ↔ literalsClosed text = true) := by
  have h := parseTemplate_eq_found (κ := κ) text
  unfold literalsClosed
  by_cases ht : (scan false text).2 = []
  · rw [if_pos ht] at h
    simp [h, ht]
  · rw [if_neg ht] at h
    obtain ⟨e, he⟩ := h
    simp [he, ht]

/-- A string that is left open, and the same one closed. -/
theorem parseTemplate_throws_iff_textCaret :
    ((∃ e, parseTemplate TextCaret "a 'b".toList = some (.error e))
        ↔ literalsClosed "a 'b".toList = false) ∧
    ((∃ st, parseTemplate TextCaret "a 'b'".toList = some (.ok st))
        ↔ literalsClosed "a 'b'".toList = true) :=
  ⟨(parseTemplate_throws_iff "a 'b".toList).1, (parseTemplate_throws_iff "a 'b'".toList).2⟩

/-! ## When the variables are those of the source -/

/-- Where the second pass and the source agree, read off the pieces. A `:` outside of a closed
    section must not be glued to the bytes behind a marker; and once a quote-enclosed string
    outside of one is glued to another (`lost`), no later section may hold a `:`. -/
def readsAsWritten (tail : Text) (inClosed lost : Bool) : List Piece → Bool
  | [] => true
  | .lit s :: ps => readsAsWritten tail inClosed (lost || !inClosed && quoteGlued tail s ps) ps
  | .opn :: ps => readsAsWritten tail (ps.contains .cls) lost ps
  | .cls :: ps => readsAsWritten tail false lost ps
  | .chr c :: ps =>
    (c != ':' || if inClosed then !lost else !nameGlued tail ps)
      && readsAsWritten tail inClosed lost ps

/-- `parseTemplate` at `text` never begins a pass behind the start of a section that it has
    not jumped over yet. -/
def SkipsNoSection (κ : Type) [Caret κ] (text : Text) : Prop :=
  ∀ processed secs, preprocess κ text = some (processed, secs) →
    ∀ t : ParseState κ, Loop.Reaches (parseTemplateBody secs) ⟨ofText processed, [], 0⟩ t →
      ∀ sec ∈ secs.drop t.currSection, getPosition t.caret ≤ sec.position

section

variable {tail : Text} {p q : Nat} {b sec : Bool} {ps : List Piece}

theorem le_posStart_of_mem {v : Variable} (hq : q ≤ p) (h : v ∈ sourceVariables p b ps) :
    q ≤ v.posStart := by
  induction ps generalizing p b with
  | nil => cases h
  | cons x ps ih =>
    cases x with
    | lit s => exact ih (Nat.le_add_right_of_le hq) h
    | opn => exact ih hq h
    | cls => exact ih hq h
    | chr a =>
      unfold sourceVariables at h
      split at h
      · rcases List.mem_cons.mp h with rfl | h
        · exact hq
        · exact ih (Nat.le_succ_of_le hq) h
      · exact ih (Nat.le_succ_of_le hq) h

/-- The variable read at an unglued `:` is the source's, and only there. -/
theorem variable_eq_iff (ho : OpenLit tail) (hs : Scanned tail sec ps) :
    (⟨p, p + (erasedName tail ps).length, some (erasedName tail ps)⟩ : Variable)
        = ⟨p, p + (identRun ps).length, some (identRun ps)⟩
      ↔ nameGlued tail ps = false := by
  rw [← Bool.not_eq_true, nameGlued_iff ho hs, not_not]
  constructor
  · intro h
    simpa using congrArg Variable.name h
  · intro h
    rw [h]

/-- Once the sections are lost, what is collected is the source's exactly when no section holds
    a `:` and no name is glued. -/
theorem allVariables_eq_iff (ho : OpenLit tail) (hs : Scanned tail sec ps) :
    allVariables tail p ps = sourceVariables p b ps ↔ readsAsWritten tail b true ps = true := by
  induction hs generalizing p b with
  | nil => simp [allVariables, sourceVariables, readsAsWritten]
  | quote _ _ _ _ ih => exact ih
  | dollar _ _ ih => exact ih
  | opn _ ih => exact ih
  | cls _ ih => exact ih
  | @chr sec a ps _ _ hs ih =>
    by_cases ha : a = ':'
    · subst ha
      cases b with
      | false =>
        simp only [allVariables, sourceVariables, readsAsWritten, if_true, and_self,
          List.cons.injEq, variable_eq_iff ho hs, ih]
        simp
      | true =>
        -- the source has no variable here, and all of its later ones start further on
        have hne : allVariables tail p (.chr ':' :: ps)
            ≠ sourceVariables p true (.chr ':' :: ps) := by
          intro h
          have hmem : (⟨p, p + (erasedName tail ps).length, some (erasedName tail ps)⟩ : Variable)
              ∈ sourceVariables (p + 1) true ps := by
            simp only [allVariables, sourceVariables, if_true, Bool.true_eq_false, and_false,
              if_false] at h
            rw [← h]
            exact List.mem_cons_self
          exact absurd (le_posStart_of_mem (Nat.le_refl _) hmem) (Nat.not_succ_le_self p)
        simp [hne, readsAsWritten]
    · have hne : (a != ':') = true := by simpa using ha
      simp [allVariables, sourceVariables, readsAsWritten, ha, hne, ih]

theorem foundVariables_eq_iff (ho : OpenLit tail) (hs : Scanned tail sec ps) :
    foundVariables tail p b ps = sourceVariables p b ps
      ↔ readsAsWritten tail b false ps = true := by
  induction hs generalizing p b with
  | nil => simp [foundVariables, sourceVariables, readsAsWritten]
  | @quote _ s ps _ _ _ hs ih | @dollar _ s ps _ hs ih =>
    by_cases hg : b = false ∧ quoteGlued tail s ps
    · obtain ⟨rfl, hg⟩ := hg
      simp [foundVariables, sourceVariables, readsAsWritten, hg, allVariables_eq_iff ho hs]
    · have hlost : (!b && quoteGlued tail s ps) = false := by
        cases b <;> simp_all
      simp [foundVariables, sourceVariables, readsAsWritten, hg, hlost, ih]
  | @opn ps _ ih =>
    by_cases hc : Piece.cls ∈ ps
    · simp [foundVariables, sourceVariables, readsAsWritten, hc, ih]
    · have hall := ih (p := p) (b := false)
      rw [foundVariables_eq_all p hc] at hall
      simpa [foundVariables, sourceVariables, readsAsWritten, hc] using hall
  | cls _ ih => exact ih
  | @chr _ a ps _ _ hs ih =>
    by_cases ha : a = ':' ∧ b = false
    · obtain ⟨rfl, rfl⟩ := ha
      simp only [foundVariables, sourceVariables, readsAsWritten, and_self, if_true,
        List.cons.injEq, variable_eq_iff ho hs]
      by_cases hg : nameGlued tail ps
      · simp [hg]
      · simp [hg, ih]
    · have hpass : (a != ':' || if b then !false else !nameGlued tail ps) = true := by
        cases b <;> simp_all
      unfold foundVariables sourceVariables readsAsWritten
      rw [if_neg ha, if_neg ha, hpass, Bool.true_and]
      exact ih

end

theorem skipsNoSection_textCaret (text : Text) : SkipsNoSection TextCaret text
    ↔ neverSkips (scan false text).2 false (scan false text).1 = true := by
  obtain ⟨hs, ho⟩ := scan_scanned false text
  rw [← (run_parseTemplateBody _ _ hs ho).2]
  constructor
  · intro h
    exact h _ _ (preprocess_eq_scan text)
  · intro h processed secs hpre
    rw [preprocess_eq_scan, Option.some.injEq, Prod.mk.injEq] at hpre
    obtain ⟨rfl, rfl⟩ := hpre
    exact h

theorem skipsNoSection_eq [LawfulCaret κ] (text : Text) :
    SkipsNoSection κ text ↔ SkipsNoSection TextCaret text := by
  have hstart : ∀ t : Text, ParseState.view (⟨ofText t, [], 0⟩ : ParseState κ)
      = ⟨ofText t, [], 0⟩ := fun t => by rw [ParseState.view, view_ofText]
  constructor
  · intro h processed secs hpre t ht
    rw [← preprocess_eq (κ := κ)] at hpre
    rw [← hstart, Loop.reaches_map (parseTemplateBody_view secs)] at ht
    obtain ⟨t, ht, rfl⟩ := ht
    exact h processed secs hpre t ht
  · intro h processed secs hpre t ht
    rw [preprocess_eq] at hpre
    refine h processed secs hpre t.view ?_
    rw [← hstart, Loop.reaches_map (parseTemplateBody_view secs)]
    exact ⟨t, ht, rfl⟩

/-- **When the variables are those of the source.** Both halves of the intent, at every text
    that is accepted: the variables are the source's exactly when no name is glued to the bytes
    behind a marker and no section that a glued string has lost holds a `:`; and the second
    pass keeps to the sections exactly when nothing is glued to a closed section. -/
theorem parseTemplate_reads_source_iff [LawfulCaret κ] {text : Text} {st : StringTemplate}
    (h : parseTemplate κ text = some (.ok st)) :
    (st.templateVariables = sourceVariables 0 false (scan false text).1
      ↔ readsAsWritten [] false false (scan false text).1 = true) ∧
    (SkipsNoSection κ text ↔ neverSkips [] false (scan false text).1 = true) := by
  have hfound := parseTemplate_eq_found (κ := κ) text
  by_cases ht : (scan false text).2 = []
  · rw [if_pos ht, h] at hfound
    simp only [Option.some.injEq, Except.ok.injEq] at hfound
    subst hfound
    obtain ⟨hs, ho⟩ := scan_scanned false text
    rw [ht] at hs ho
    exact ⟨foundVariables_eq_iff ho hs, by rw [skipsNoSection_eq, skipsNoSection_textCaret, ht]⟩
  · rw [if_neg ht, h] at hfound
    obtain ⟨e, he⟩ := hfound
    cases he

/-- A template with a section between two variables, read as it is written. -/
theorem parseTemplate_reads_source_iff_section :
    (([⟨0, 1, some ['a']⟩, ⟨4, 5, some ['c']⟩] : List Variable)
        = sourceVariables 0 false (scan false ":a<!!:b!!>:c".toList).1
      ↔ readsAsWritten [] false false (scan false ":a<!!:b!!>:c".toList).1 = true) ∧
    (SkipsNoSection TextCaret ":a<!!:b!!>:c".toList
      ↔ neverSkips [] false (scan false ":a<!!:b!!>:c".toList).1 = true) :=
  @parseTemplate_reads_source_iff TextCaret _ _ ":a<!!:b!!>:c".toList
    ⟨":a:b:c".toList, [⟨0, 1, some ['a']⟩, ⟨4, 5, some ['c']⟩]⟩ (by decide)

/-- Erasing the marker glues `a` to `b`: the variable is read as `ab`, and the caret runs past
    the start of the section. -/
theorem parseTemplate_misreads_source :
    ¬ ∀ (text : Text) (st : StringTemplate), parseTemplate TextCaret text = some (.ok st) →
      st.templateVariables = sourceVariables 0 false (scan false text).1 ∧
      SkipsNoSection TextCaret text := by
  intro h
  have hparse : parseTemplate TextCaret ":a<!!b!!>".toList
      = some (.ok ⟨":ab".toList, [⟨0, 2, some ['a', 'b']⟩]⟩) := by decide
  have hvars := (h _ _ hparse).1
  have hscan : (scan false ":a<!!b!!>".toList).1
      = [.chr ':', .chr 'a', .opn, .chr 'b', .cls] := by
    simp [scan]
  rw [hscan] at hvars
  revert hvars
  decide

end OatppSqlite.Template
