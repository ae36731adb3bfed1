import OatppSqlite.Template.Preprocess

/-!
# The second pass

`parseTemplate`'s loop on the erased text, read back in terms of the pieces of the source. It
does one of two things.

* While the caret keeps step with the recorded sections (`Aligned`), it jumps over each closed
  section and sees the bytes outside them.
* Once the caret has run past the start of a section it never meets that position again: the
  index stays where it is, no later section is skipped, and every `:` outside of a string is a
  variable (`ends_of_stuck`, `ends_free`).

A token runs past a section start only when erasing the marker glued it to what follows:
`nameGlued` and `quoteGlued` are the two ways. `foundVariables` is what the loop collects, glue
included, and `aligned_follows` is the theorem about every run of it; the loop stays in step
with every section exactly when `neverSkips` says so.
-/

set_option autoImplicit false

namespace OatppSqlite.Template

open Caret

/-! ## What the second pass collects

These recurse over the pieces of the source, which the second pass never sees: it has the erased
text and a list of positions. What they say of a name and of a quote is what it meets there, that
is, in the bytes of all pieces to come. -/

/-- The name the second pass reads: the run of allowed bytes in the *erased* text. -/
def erasedName (tail : Text) (ps : List Piece) : Text :=
  (bytes ps ++ tail).takeWhile isAllowedChar

/-- A name runs on behind an erased marker: it stops at a marker that counts, and the next byte
    behind the markers is again one of `[A-Za-z0-9_.]`. -/
def nameGlued (tail : Text) : List Piece → Bool
  | [] => false
  | .lit _ :: _ => false
  | .chr c :: ps => isAllowedChar c && nameGlued tail ps
  | .opn :: ps => (bytes ps ++ tail).head?.any isAllowedChar
  | .cls :: ps => (bytes ps ++ tail).head?.any isAllowedChar

/-- A quote-enclosed string runs on behind an erased marker: the next byte behind it is again a
    quote, which without a marker between them would belong to the string. -/
def quoteGlued (tail s : Text) (ps : List Piece) : Bool :=
  s.head? == some '\'' && (bytes ps ++ tail).head? == some '\''

/-- Every `:` outside of a string, sections or not. -/
def allVariables (tail : Text) (p : Nat) : List Piece → List Variable
  | [] => []
  | .lit s :: ps => allVariables tail (p + s.length) ps
  | .opn :: ps => allVariables tail p ps
  | .cls :: ps => allVariables tail p ps
  | .chr c :: ps =>
    if c = ':' then
      ⟨p, p + (erasedName tail ps).length, some (erasedName tail ps)⟩
        :: allVariables tail (p + 1) ps
    else allVariables tail (p + 1) ps

/-- What `parseTemplate` collects: it keeps to the sections until a glued token runs past a
    section's start, and collects every `:` from there on. -/
def foundVariables (tail : Text) (p : Nat) (inClosed : Bool) : List Piece → List Variable
  | [] => []
  | .lit s :: ps =>
    if inClosed = false ∧ quoteGlued tail s ps then allVariables tail (p + s.length) ps
    else foundVariables tail (p + s.length) inClosed ps
  | .opn :: ps =>
    if ps.contains .cls then foundVariables tail p true ps else allVariables tail p ps
  | .cls :: ps => foundVariables tail p false ps
  | .chr c :: ps =>
    if c = ':' ∧ inClosed = false then
      ⟨p, p + (erasedName tail ps).length, some (erasedName tail ps)⟩ ::
        if nameGlued tail ps then allVariables tail (p + 1) ps
        else foundVariables tail (p + 1) inClosed ps
    else foundVariables tail (p + 1) inClosed ps

/-- No token outside the closed sections is glued to the inside of one, or past one. -/
def neverSkips (tail : Text) (inClosed : Bool) : List Piece → Bool
  | [] => true
  | .lit s :: ps =>
    (inClosed || !(quoteGlued tail s ps && ps.contains .cls)) && neverSkips tail inClosed ps
  | .opn :: ps => neverSkips tail (ps.contains .cls) ps
  | .cls :: ps => neverSkips tail false ps
  | .chr c :: ps =>
    (inClosed || c != ':' || !(nameGlued tail ps && ps.contains .cls))
      && neverSkips tail inClosed ps

/-! ## One pass over the body

A pass looks at the list of sections first, and then at the byte. So there is one lemma for each
byte that starts something, under the condition that no section starts there (`NoSection`). -/

section

variable {secs : List CleanSection} {c : TextCaret} {l : List Variable} {k : Nat} {t : Text}

theorem isAllowedChar_ne {a : Char} (ha : isAllowedChar a) :
    a ≠ ':' ∧ a ≠ '\'' ∧ a ≠ '$' := by
  refine ⟨?_, ?_, ?_⟩ <;> rintro rfl <;> exact absurd ha (by decide)

theorem body_stop (h : c.rest = [] ∨ c.error ≠ none) :
    parseTemplateBody secs ⟨c, l, k⟩ = some (.exit ⟨c, l, k⟩) := by
  have hstop : canContinue c = false := by
    by_cases he : c.error = none
    · rw [canContinue_textCaret he, h.resolve_right (by simp [he])]
      rfl
    · exact canContinue_of_error he
  simp [parseTemplateBody, hstop]

theorem body_section {sec : CleanSection} (he : c.error = none) (hr : c.rest ≠ [])
    (hk : secs[k]? = some sec) (hp : sec.position = c.position) :
    parseTemplateBody secs ⟨c, l, k⟩ = some (.next ⟨c.inc sec.size, l, k + 1⟩) := by
  have hgo : canContinue c = true := by simp [canContinue_textCaret he, hr]
  simp [parseTemplateBody, hgo, hk, hp]

/-- No section starts where the caret stands. -/
def NoSection (secs : List CleanSection) (k p : Nat) : Prop :=
  ∀ sec, secs[k]? = some sec → sec.position ≠ p

theorem body_scan {a : Char} (he : c.error = none) (hr : c.rest = a :: t)
    (hn : NoSection secs k c.position) :
    parseTemplateBody secs ⟨c, l, k⟩ = parseTemplateBody.scan ⟨c, l, k⟩ := by
  unfold parseTemplateBody
  rw [if_pos (canContinue_cons he hr)]
  dsimp only
  split
  · -- the next section starts somewhere else
    rename_i sec hk
    exact if_neg (hn sec hk)
  · rfl

theorem scan_colon (he : c.error = none) (hr : c.rest = ':' :: t) :
    parseTemplateBody.scan ⟨c, l, k⟩ = some (.next
      ⟨c.inc (1 + (t.takeWhile isAllowedChar).length),
        l ++ [⟨c.position, c.position + (t.takeWhile isAllowedChar).length,
          some (t.takeWhile isAllowedChar)⟩], k⟩) := by
  unfold parseTemplateBody.scan
  simp [getCurrData_textCaret hr, parseIdentifier_eq he hr]

theorem scan_lit_byte {q : Char} (hq : q = '\'' ∨ q = '$') (he : c.error = none)
    (hr : c.rest = q :: t) :
    parseTemplateBody.scan ⟨c, l, k⟩
      = some (.next ⟨stringEnd (openMessage q) c (closeLit q t), l, k⟩) := by
  unfold parseTemplateBody.scan
  rw [getCurrData_textCaret hr]
  rcases hq with rfl | rfl
  · simp [skipStringInQuotes_eq he hr, openMessage, closeLit]
  · simp [skipStringInDollars_eq he hr, openMessage, closeLit]

theorem scan_byte {a : Char} (hr : c.rest = a :: t) (h : a ≠ ':' ∧ a ≠ '\'' ∧ a ≠ '$') :
    parseTemplateBody.scan ⟨c, l, k⟩ = some (.next ⟨c.inc 1, l, k⟩) := by
  unfold parseTemplateBody.scan
  rw [getCurrData_textCaret hr]
  split
  · exact absurd rfl h.1
  · exact absurd rfl h.2.1
  · exact absurd rfl h.2.2
  · rfl

theorem stringEnd_position_lt {msg : String} {q : Char} (hq : q = '\'' ∨ q = '$')
    (hr : c.rest = q :: t) : c.position < (stringEnd msg c (closeLit q t)).position := by
  cases hc : closeLit q t with
  | none =>
    show c.position < c.position + c.rest.length
    rw [hr, List.length_cons]
    omega
  | some r =>
    have := length_le_of_closeLit hq hc
    show c.position < c.position + (c.rest.length - r.length)
    rw [hr, List.length_cons]
    omega

/-- **One scanning pass**, whichever byte it meets: the caret moves forward in the same text,
    and what it does is the same at every section index. -/
theorem scan_step {a : Char} (he : c.error = none) (hr : c.rest = a :: t) :
    ∃ c' vs, c'.data = c.data ∧ c.position < c'.position ∧
      ∀ l k, parseTemplateBody.scan ⟨c, l, k⟩ = some (.next ⟨c', l ++ vs, k⟩) := by
  by_cases hq : a = '\'' ∨ a = '$'
  · refine ⟨stringEnd (openMessage a) c (closeLit a t), [], ?_,
      stringEnd_position_lt hq hr, fun l k => ?_⟩
    · cases closeLit a t <;> rfl
    · rw [scan_lit_byte hq he hr, List.append_nil]
  · by_cases ha : a = ':'
    · subst ha
      refine ⟨c.inc (1 + (t.takeWhile isAllowedChar).length), _, rfl, ?_,
        fun l k => scan_colon he hr⟩
      rw [inc_position]
      omega
    · refine ⟨c.inc 1, [], rfl, by simp, fun l k => ?_⟩
      rw [scan_byte hr ⟨ha, fun h => hq (Or.inl h), fun h => hq (Or.inr h)⟩, List.append_nil]

/-- **The loop always ends**: a pass either moves the caret forward in its text or takes up
    the next section (an empty one leaves the caret where it is). -/
theorem parseTemplateBody_keeps (secs : List CleanSection) :
    Loop.Keeps (parseTemplateBody secs) (fun _ => True)
      (fun s : ParseState TextCaret => s.caret.rest.length + (secs.length - s.currSection))
      (fun _ => True) := by
  rintro ⟨c, l, k⟩ -
  by_cases h : c.rest = [] ∨ c.error ≠ none
  · exact Or.inr ⟨_, body_stop h, trivial⟩
  · obtain ⟨hr, he⟩ := not_or.mp h
    have he' : c.error = none := by simpa using he
    obtain ⟨a, t, hr'⟩ := List.exists_cons_of_ne_nil hr
    refine Or.inl ?_
    by_cases hn : NoSection secs k c.position
    · obtain ⟨c', vs, hdata, hlt, hs⟩ := scan_step he' hr'
      refine ⟨_, (body_scan he' hr' hn).trans (hs l k), trivial, ?_⟩
      have hlen := length_rest (c := c)
      rw [hr', List.length_cons] at hlen
      show c'.rest.length + (secs.length - k) < c.rest.length + (secs.length - k)
      rw [length_rest, length_rest, hdata]
      omega
    · -- the caret may stay, but a section less is left
      simp only [NoSection, not_forall, not_not] at hn
      obtain ⟨sec, hk, hp⟩ := hn
      refine ⟨_, body_section he' hr hk hp, trivial, ?_⟩
      have hlt : k < secs.length := (List.getElem?_eq_some_iff.mp hk).1
      show (c.inc sec.size).rest.length + (secs.length - (k + 1))
        < c.rest.length + (secs.length - k)
      rw [rest_inc, List.length_drop]
      omega

end

end OatppSqlite.Template
