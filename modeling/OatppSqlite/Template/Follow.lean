import OatppSqlite.Template.SecondPass

/-!
# What the second pass follows

`aligned_follows` is the theorem about every run of `parseTemplate`'s loop: it ends, it collects
`foundVariables`, its caret carries an error exactly when the scan of the source stopped at an
unclosed literal, and no pass begins behind a section that is still to come exactly when
`neverSkips` says so.

The induction is on the pieces that are left. The loop is compared with them only where the
two stand at the same place (`Aligned`): a pass over a name takes the whole run of its bytes,
and a jump takes a whole section. Where a glued token runs past the start of a section the
comparison is given up for a simpler one: the index is stuck, so the loop behaves as with no
sections at all (`ends_of_stuck`), and what *that* loop collects needs no alignment
(`ends_free`).

That the index never comes free again is the point where the bug of the source is decided. The loop
compares the caret with the next section for equality, the caret only moves forwards, and so a
section whose start was run past is never jumped over, nor is any section behind it
(`stuck_keeps`). This is why one glued token is enough to change what is collected in all of the
rest, and why `foundVariables` and `neverSkips` give up at the first one.

One lemma stands for each kind of piece (`follows_closed`, `follows_chr`, `follows_name`,
`follows_opn` where the two go on together, `follows_glued`, `follows_glued_name` where they part),
and the theorem at the end only picks the one that applies.
-/

set_option autoImplicit false

namespace OatppSqlite.Template

open Caret

/-! ## The collections, piece by piece

`foundVariables` and `neverSkips` ask at each step whether a section is still to be closed. Where
none is, or no byte is left, they are the simpler collections, and the loop need not be followed
any further. -/

section Pieces

variable {tail : Text} {ps : List Piece}

theorem allVariables_of_bytes_nil (p : Nat) (h : bytes ps = []) : allVariables tail p ps = [] := by
  induction ps generalizing p with
  | nil => rfl
  | cons x ps ih =>
    obtain ⟨hx, hps⟩ := List.append_eq_nil_iff.mp h
    cases x with
    | lit s => exact ih _ hps
    | chr a => cases hx
    | opn => exact ih _ hps
    | cls => exact ih _ hps

theorem foundVariables_of_bytes_nil (p : Nat) (b : Bool) (h : bytes ps = []) :
    foundVariables tail p b ps = [] := by
  induction ps generalizing p b with
  | nil => rfl
  | cons x ps ih =>
    obtain ⟨hx, hps⟩ := List.append_eq_nil_iff.mp h
    cases x with
    | lit s =>
      unfold foundVariables
      rw [ih _ _ hps, allVariables_of_bytes_nil _ hps]
      exact ite_self _
    | chr a => cases hx
    | opn =>
      unfold foundVariables
      rw [ih _ _ hps, allVariables_of_bytes_nil _ hps]
      exact ite_self _
    | cls => exact ih _ _ hps

/-- With no section left to close, the two ways of collecting are one. -/
theorem foundVariables_eq_all (p : Nat) (h : Piece.cls ∉ ps) :
    foundVariables tail p false ps = allVariables tail p ps := by
  induction ps generalizing p with
  | nil => rfl
  | cons x ps ih =>
    have hps : Piece.cls ∉ ps := fun hm => h (List.mem_cons_of_mem _ hm)
    cases x with
    | lit s => simp [foundVariables, allVariables, ih _ hps]
    | chr a => simp [foundVariables, allVariables, ih _ hps]
    | opn => simp [foundVariables, allVariables, hps]
    | cls => exact absurd List.mem_cons_self h

theorem neverSkips_of_not_mem (b : Bool) (h : Piece.cls ∉ ps) : neverSkips tail b ps = true := by
  induction ps generalizing b with
  | nil => rfl
  | cons x ps ih =>
    have hps : Piece.cls ∉ ps := fun hm => h (List.mem_cons_of_mem _ hm)
    have hc : ps.contains Piece.cls = false := by simpa using hps
    cases x with
    | lit s => simp [neverSkips, ih b hps, hps]
    | chr a => simp [neverSkips, ih b hps, hps]
    | opn => simp [neverSkips, ih _ hps]
    | cls => exact absurd List.mem_cons_self h

theorem neverSkips_of_bytes_nil (b : Bool) (h : bytes ps = []) (hs : Scanned tail b ps) :
    neverSkips tail (b && ps.contains .cls) ps = true := by
  induction hs with
  | nil sec => rfl
  | quote hl _ _ _ _ =>
    obtain ⟨d, rfl, -⟩ := hl
    cases h
  | dollar hl _ _ =>
    obtain ⟨d, rfl, -⟩ := hl
    cases h
  | chr _ _ _ _ => cases h
  | opn hs ih => exact ih h
  | cls hs ih => exact ih h

theorem sections_of_not_mem (p : Nat) (start : Option Nat) (h : Piece.cls ∉ ps) :
    sections p start ps = [] := by
  induction ps generalizing p start with
  | nil => rfl
  | cons x ps ih =>
    have hps : Piece.cls ∉ ps := fun hm => h (List.mem_cons_of_mem _ hm)
    cases x with
    | lit s => exact ih _ _ hps
    | chr a => exact ih _ _ hps
    | opn => exact ih _ _ hps
    | cls => exact absurd List.mem_cons_self h

/-- Sections are recorded from left to right. -/
theorem le_of_mem_sections {p q : Nat} {start : Option Nat} {sec : CleanSection} (hp : q ≤ p)
    (hs : ∀ a, start = some a → q ≤ a) (h : sec ∈ sections p start ps) : q ≤ sec.position := by
  induction ps generalizing p start with
  | nil => cases h
  | cons x ps ih =>
    cases x with
    | lit s => exact ih (Nat.le_add_right_of_le hp) hs h
    | chr a => exact ih (Nat.le_add_right_of_le hp) hs h
    | opn =>
      refine ih hp (fun a ha => ?_) h
      cases ha
      exact hp
    | cls =>
      cases start with
      | none => exact ih hp hs h
      | some a =>
        rcases List.mem_cons.mp h with rfl | h
        · exact hs a rfl
        · exact ih hp (fun a ha => by cases ha) h

/-- What is left of an open section and what stands behind its closer. The bytes `b` up to there are
    jumped over, so they count for the position and for nothing else. -/
structure ClosesAt (tail : Text) (ps : List Piece) (b : Text) (qs : List Piece) : Prop where
  bytes_eq : bytes ps = b ++ bytes qs
  length_lt : qs.length < ps.length
  scanned : Scanned tail false qs
  sections_eq : ∀ p a, sections p (some a) ps
    = ⟨a, p + b.length - a⟩ :: sections (p + b.length) none qs
  found_eq : ∀ p, foundVariables tail p true ps = foundVariables tail (p + b.length) false qs
  skips_eq : neverSkips tail true ps = neverSkips tail false qs

theorem exists_closesAt (hs : Scanned tail true ps) (hc : Piece.cls ∈ ps) :
    ∃ b qs, ClosesAt tail ps b qs := by
  -- inside a section there is no opener, so the first marker is the closer
  generalize hsec : true = sec at hs
  induction hs with
  | nil => cases hc
  | @quote _ s ps _ _ _ _ ih | @dollar _ s ps _ _ ih =>
    obtain ⟨b, qs, h⟩ := ih (by simpa using hc) hsec
    refine ⟨s ++ b, qs, ?_, Nat.lt_succ_of_lt h.length_lt, h.scanned, fun p a => ?_,
      fun p => ?_, ?_⟩
    · rw [bytes_cons, h.bytes_eq, List.append_assoc]
      rfl
    · rw [List.length_append, ← Nat.add_assoc]
      exact h.sections_eq _ _
    · rw [List.length_append, ← Nat.add_assoc, ← h.found_eq]
      simp [foundVariables]
    · simp [neverSkips, h.skips_eq]
  | @chr _ a ps _ _ _ ih =>
    obtain ⟨b, qs, h⟩ := ih (by simpa using hc) hsec
    have hlen : ∀ p, p + (a :: b).length = p + 1 + b.length := fun p => by
      rw [List.length_cons]
      omega
    refine ⟨a :: b, qs, ?_, Nat.lt_succ_of_lt h.length_lt, h.scanned, fun p q => ?_,
      fun p => ?_, ?_⟩
    · rw [bytes_cons, h.bytes_eq]
      rfl
    · rw [hlen]
      exact h.sections_eq _ _
    · rw [hlen, ← h.found_eq]
      simp [foundVariables]
    · simp [neverSkips, h.skips_eq]
  | opn => cases hsec
  | @cls ps hps _ =>
    exact ⟨[], ps, rfl, Nat.lt_succ_self _, hps, fun p a => rfl, fun p => rfl, rfl⟩

/-! ## Glue, and the section it runs past

A token is glued when erasing a marker has put bytes next to it that carry it on. Behind the marker
a section begins, and it is still to be jumped over: so a glued token always runs past the start
of the next section, and not of some later one. -/

theorem erasedName_chr {a : Char} (ha : isAllowedChar a) :
    erasedName tail (.chr a :: ps) = a :: erasedName tail ps := by
  unfold erasedName
  rw [bytes_cons, Piece.bytes_chr, List.append_assoc, List.singleton_append,
    List.takeWhile_cons_of_pos ha]

theorem erasedName_of_head {q : Char} (hq : isAllowedChar q = false)
    (h : (bytes ps ++ tail).head? = some q) : erasedName tail ps = [] := by
  obtain ⟨t, ht⟩ := List.head?_eq_some_iff.mp h
  unfold erasedName
  rw [ht, List.takeWhile_cons_of_neg (by simp [hq])]

theorem identRun_chr {a : Char} (ha : isAllowedChar a) :
    identRun (.chr a :: ps) = a :: identRun ps := if_pos ha

theorem Scanned.head_of_lit {sec : Bool} {s : Text} (h : Scanned tail sec (.lit s :: ps)) :
    s.head? = some '\'' ∨ s.head? = some '$' := by
  cases h with
  | quote hl => exact Or.inl hl.head
  | dollar hl => exact Or.inr hl.head

/-- A name stops at a literal, with markers or without. -/
theorem erasedName_lit {sec : Bool} {s : Text} (h : Scanned tail sec (.lit s :: ps)) :
    erasedName tail (.lit s :: ps) = [] := by
  rcases h.head_of_lit with h | h <;> obtain ⟨b, rfl⟩ := List.head?_eq_some_iff.mp h
  · exact erasedName_of_head (q := '\'') rfl rfl
  · exact erasedName_of_head (q := '$') rfl rfl

theorem erasedName_eq_nil_iff :
    erasedName tail ps = [] ↔ (bytes ps ++ tail).head?.any isAllowedChar = false := by
  unfold erasedName
  cases bytes ps ++ tail with
  | nil => simp
  | cons a t => simp [List.takeWhile_cons]

/-- **A name is glued** exactly if the second pass reads another one than was written: behind
    the bytes that were written a marker was erased, for neither a literal nor the end of the
    scan starts with a byte of a name. -/
theorem nameGlued_iff {sec : Bool} (ho : OpenLit tail) (hs : Scanned tail sec ps) :
    nameGlued tail ps = true ↔ erasedName tail ps ≠ identRun ps := by
  induction hs with
  | nil =>
    have hnil : erasedName tail [] = [] := by
      rcases ho with rfl | ⟨q, t, rfl, rfl | rfl, -⟩ <;> rfl
    simp [nameGlued, identRun, hnil]
  | quote hl hnil hnext hs _ =>
    simp [nameGlued, identRun, erasedName_lit (.quote hl hnil hnext hs)]
  | dollar hl hs _ =>
    simp [nameGlued, identRun, erasedName_lit (.dollar hl hs)]
  | @chr sec a ps _ _ _ ih =>
    by_cases ha : isAllowedChar a
    · rw [nameGlued, ha, Bool.true_and, ih, erasedName_chr ha, identRun_chr ha]
      simp
    · have hnil : erasedName tail (.chr a :: ps) = [] :=
        erasedName_of_head (q := a) (by simpa using ha) rfl
      simp [nameGlued, identRun, ha, hnil]
  | @opn ps _ _ | @cls ps _ _ =>
    show (bytes ps ++ tail).head?.any isAllowedChar = true ↔ erasedName tail ps ≠ []
    rw [Ne, erasedName_eq_nil_iff, Bool.not_eq_false]

/-- A section that a marker opens right here starts right here. -/
theorem head_sections_opn {p : Nat} (hs : Scanned tail false (.opn :: ps))
    (hc : Piece.cls ∈ ps) : ∃ n, (sections p none (.opn :: ps)).head? = some ⟨p, n⟩ := by
  cases hs with
  | opn hs =>
    obtain ⟨b, qs, h⟩ := exists_closesAt hs hc
    refine ⟨p + b.length - p, ?_⟩
    show (sections p (some p) ps).head? = _
    rw [h.sections_eq]
    rfl

/-- A glued name runs past the start of the next section. -/
theorem nameGlued_section {p : Nat} (hs : Scanned tail false ps) (hc : Piece.cls ∈ ps)
    (hg : nameGlued tail ps) : ∃ sec, (sections p none ps).head? = some sec ∧
      sec.position < p + (erasedName tail ps).length := by
  induction ps generalizing p with
  | nil => cases hc
  | cons x ps ih =>
    cases x with
    | lit s => exact absurd hg Bool.false_ne_true
    | chr a =>
      cases hs with
      | chr h₁ h₂ hs =>
        rw [nameGlued, Bool.and_eq_true] at hg
        obtain ⟨ha, hg⟩ := hg
        obtain ⟨sec, hsec, hlt⟩ := ih (p := p + 1) hs (by simpa using hc) hg
        refine ⟨sec, hsec, ?_⟩
        rw [erasedName_chr ha, List.length_cons]
        omega
    | opn =>
      obtain ⟨n, hn⟩ := head_sections_opn (p := p) hs (by simpa using hc)
      refine ⟨_, hn, ?_⟩
      have hne : erasedName tail ps ≠ [] := by
        rw [Ne, erasedName_eq_nil_iff, Bool.not_eq_false]
        exact hg
      have := List.length_pos_of_ne_nil hne
      show p < p + (erasedName tail ps).length
      omega
    | cls => cases hs

/-- A quote that meets the closing quote of the string before it stands behind a marker, and
    the section that marker opens starts between the two. -/
theorem quoteGlued_section {p : Nat} (hs : Scanned tail false ps) (hc : Piece.cls ∈ ps)
    (hn : ∀ s' ps', ps = .lit s' :: ps' → ¬ QuoteLit s')
    (hg : (bytes ps ++ tail).head? = some '\'') :
    ∃ n, (sections p none ps).head? = some ⟨p, n⟩ := by
  cases hs with
  | nil => cases hc
  | quote hl => exact absurd hl (hn _ _ rfl)
  | @dollar _ s _ hl =>
    obtain ⟨b, rfl, -⟩ := hl
    simp at hg
  | chr h₁ h₂ =>
    have := Option.some.inj hg
    exact absurd this h₁
  | opn hs => exact head_sections_opn (.opn hs) (by simpa using hc)

/-! ## A name that is not glued

The loop takes a name in one pass, where the source scan has a piece for each byte. So the two meet
again behind all of them. -/

/-- What is left behind the bytes of a name: none of them is a variable or opens anything. -/
structure NameAt (tail : Text) (ps : List Piece) (w : Text) (qs : List Piece) : Prop where
  bytes_eq : bytes ps = w ++ bytes qs
  length_le : qs.length ≤ ps.length
  scanned : Scanned tail false qs
  sections_eq : ∀ p, sections p none ps = sections (p + w.length) none qs
  found_eq : ∀ p, foundVariables tail p false ps = foundVariables tail (p + w.length) false qs
  skips_eq : neverSkips tail false ps = neverSkips tail false qs

theorem exists_nameAt (hs : Scanned tail false ps) : ∃ qs, NameAt tail ps (identRun ps) qs := by
  induction ps with
  | nil => exact ⟨[], ⟨rfl, Nat.le_refl _, hs, fun _ => rfl, fun _ => rfl, rfl⟩⟩
  | cons x ps ih =>
    -- the run ends here unless the first piece is one of its bytes
    have hstop : identRun (x :: ps) = [] →
        ∃ qs, NameAt tail (x :: ps) (identRun (x :: ps)) qs := by
      intro h
      rw [h]
      exact ⟨x :: ps, ⟨rfl, Nat.le_refl _, hs, fun _ => rfl, fun _ => rfl, rfl⟩⟩
    cases x with
    | lit s => exact hstop rfl
    | opn => exact hstop rfl
    | cls => exact hstop rfl
    | chr a =>
      by_cases ha : isAllowedChar a
      · cases hs with
        | chr h₁ h₂ hs =>
          obtain ⟨qs, h⟩ := ih hs
          have hcolon : a ≠ ':' := (isAllowedChar_ne ha).1
          have hlen : ∀ p, p + (a :: identRun ps).length = p + 1 + (identRun ps).length :=
            fun p => by rw [List.length_cons]; omega
          rw [identRun_chr ha]
          refine ⟨qs, ?_, Nat.le_succ_of_le h.length_le, h.scanned, fun p => ?_, fun p => ?_, ?_⟩
          · rw [bytes_cons, h.bytes_eq]
            rfl
          · rw [hlen]
            exact h.sections_eq _
          · rw [hlen, ← h.found_eq]
            simp [foundVariables, hcolon]
          · simp [neverSkips, hcolon, h.skips_eq]
      · exact hstop (if_neg ha)

end Pieces

/-! ## The scan at each piece

What one pass does that jumps over nothing, by the piece in front of it. A quote-enclosed string
is the only piece whose pass depends on what comes behind: a quote there goes on with it. -/

section Scan

variable {c : TextCaret} {l : List Variable} {k : Nat} {s X : Text} {msg : String}

/-- A string that goes on ends where it ends, from wherever it is entered. -/
theorem stringEnd_inc {n : Nat} {o : Option Text} (hn : n ≤ c.rest.length)
    (ho : ∀ r, o = some r → r.length + n ≤ c.rest.length) :
    stringEnd msg (c.inc n) o = stringEnd msg c o := by
  cases o with
  | none =>
    unfold stringEnd
    rw [rest_inc, List.length_drop, inc_inc, Nat.add_sub_cancel' hn]
  | some r =>
    have hle := ho r rfl
    have hend : n + (c.rest.length - n - r.length) = c.rest.length - r.length := by omega
    show (c.inc n).inc ((c.inc n).rest.length - r.length) = c.inc (c.rest.length - r.length)
    rw [rest_inc, List.length_drop, inc_inc, hend]

theorem scan_closed (he : c.error = none) (hr : c.rest = s ++ X)
    (hs : (QuoteLit s ∧ X.head? ≠ some '\'') ∨ DollarLit s) :
    parseTemplateBody.scan ⟨c, l, k⟩ = some (.next ⟨c.inc s.length, l, k⟩) := by
  have hend : ∀ msg, stringEnd msg c (some X) = c.inc s.length := by
    intro msg
    show c.inc (c.rest.length - X.length) = c.inc s.length
    rw [hr, List.length_append, Nat.add_sub_cancel]
  rcases hs with ⟨⟨b, rfl, hb⟩, hX⟩ | ⟨b, rfl, hb⟩
  · have hclose : closeLit '\'' (b ++ X) = some X := (hb X).trans (afterQuote_of_head_ne hX)
    rw [scan_lit_byte (t := b ++ X) (Or.inl rfl) he hr, hclose, hend]
  · have hclose : closeLit '$' (b ++ X) = some X := hb X
    rw [scan_lit_byte (t := b ++ X) (Or.inr rfl) he hr, hclose, hend]

/-- Behind a quote-enclosed string another quote goes on with the same string. -/
theorem scan_glued (he : c.error = none) (hs : QuoteLit s) (hr : c.rest = s ++ '\'' :: X) :
    parseTemplateBody.scan ⟨c, l, k⟩
      = parseTemplateBody.scan ⟨c.inc s.length, l, k⟩ := by
  obtain ⟨b, rfl, hb⟩ := hs
  have hrest : (c.inc ('\'' :: b).length).rest = '\'' :: X := by
    rw [rest_inc, hr, List.drop_left]
  have hlen : c.rest.length = ('\'' :: b).length + (X.length + 1) := by
    rw [hr, List.length_append]
    rfl
  have hclose : closeLit '\'' (b ++ '\'' :: X) = closeLit '\'' X := hb ('\'' :: X)
  rw [scan_lit_byte (t := b ++ '\'' :: X) (Or.inl rfl) he hr,
    scan_lit_byte (c := c.inc _) (Or.inl rfl) he hrest, hclose, stringEnd_inc (by omega)]
  intro r hX
  have := length_le_of_closeLit (Or.inl rfl) hX
  omega

/-- At an unclosed literal the caret goes to the end and takes the error. -/
theorem scan_unclosed {q : Char} (hq : q = '\'' ∨ q = '$') (he : c.error = none)
    (hr : c.rest = q :: X) (hc : closeLit q X = none) :
    ∃ c' : TextCaret, c'.error ≠ none ∧
      parseTemplateBody.scan ⟨c, l, k⟩ = some (.next ⟨c', l, k⟩) := by
  refine ⟨(c.inc c.rest.length).setError (openMessage q), by simp [TextCaret.setError], ?_⟩
  rw [scan_lit_byte hq he hr, hc]
  rfl

end Scan

/-! ## The loop with no sections

Without sections the loop reads the text as it stands, and every piece may be an entry point: in
the middle of a name the bytes are passed one by one (`ends_walk`), and at a quote behind a string
both ways to read it end at the same place (`scan_glued`). So the induction is on the scan, with no
condition on where the caret came from. -/

section Free

variable {tail : Text} {c : TextCaret} {l : List Variable} {k : Nat} {ps : List Piece}

/-- The loop has collected `vs`, and its caret carries an error when a literal was left open. -/
def Outcome (tail : Text) (vs : List Variable) (s : ParseState TextCaret) : Prop :=
  s.vars = vs ∧ (s.caret.error = none ↔ tail = [])

theorem body_free {a : Char} {t : Text} (he : c.error = none) (hr : c.rest = a :: t) :
    parseTemplateBody [] ⟨c, l, k⟩ = parseTemplateBody.scan ⟨c, l, k⟩ :=
  body_scan he hr fun _ h => by cases h

/-- The bytes of a name are passed one by one to the same end. -/
theorem ends_walk {r : ParseState TextCaret} {n : Nat} (he : c.error = none)
    (hn : n ≤ (c.rest.takeWhile isAllowedChar).length) :
    Loop.Ends (parseTemplateBody []) ⟨c.inc n, l, k⟩ r
      ↔ Loop.Ends (parseTemplateBody []) ⟨c, l, k⟩ r := by
  induction n generalizing c with
  | zero => rfl
  | succ n ih =>
    cases hr : c.rest with
    | nil => simp [hr] at hn
    | cons a t =>
      by_cases ha : isAllowedChar a
      · rw [hr, List.takeWhile_cons_of_pos ha, List.length_cons] at hn
        have hwalk := ih (c := c.inc 1) he (by rw [rest_inc, hr]; exact Nat.le_of_succ_le_succ hn)
        have hnext : parseTemplateBody [] ⟨c, l, k⟩ = some (.next ⟨c.inc 1, l, k⟩) :=
          (body_free he hr).trans (scan_byte hr (isAllowedChar_ne ha))
        rw [Loop.ends_next hnext, ← hwalk, inc_inc, Nat.add_comm 1]
      · rw [hr, List.takeWhile_cons_of_neg ha] at hn
        cases hn

/-- **The loop with no sections** collects every `:` outside of a string. -/
theorem ends_free {sec : Bool} (ho : OpenLit tail) (hs : Scanned tail sec ps)
    (he : c.error = none) (hr : c.rest = bytes ps ++ tail) :
    ∃ s, Loop.Ends (parseTemplateBody []) ⟨c, l, k⟩ s ∧
      Outcome tail (l ++ allVariables tail c.position ps) s := by
  induction hs generalizing c l with
  | nil sec =>
    rw [allVariables, List.append_nil]
    rcases ho with rfl | ⟨q, t, rfl, hq, hc⟩
    · refine ⟨_, (Loop.ends_exit (body_stop (Or.inl hr))).mpr rfl, rfl, ?_⟩
      simp [he]
    · obtain ⟨c', he', hscan⟩ := scan_unclosed (l := l) (k := k) hq he hr hc
      have hnext := (body_free (l := l) (k := k) he hr).trans hscan
      refine ⟨⟨c', l, k⟩, (Loop.ends_next hnext).mpr
        ((Loop.ends_exit (body_stop (Or.inr he'))).mpr rfl), rfl, ?_⟩
      simp [he']
  | @quote sec s ps hl hnil hn hs ih =>
    have hr' : c.rest = s ++ (bytes ps ++ tail) := by rw [hr, ← List.append_assoc]; rfl
    obtain ⟨s', hends, hout⟩ := ih (c := c.inc s.length) (l := l) he
      (by rw [rest_inc, hr', List.drop_left])
    refine ⟨s', ?_, hout⟩
    obtain ⟨b, rfl, -⟩ := id hl
    by_cases hg : (bytes ps ++ tail).head? = some '\''
    · -- glued: both the loop here and the loop behind `s` make the same pass, and the
      -- induction hypothesis is about the loop behind it
      obtain ⟨X, hX⟩ := List.head?_eq_some_iff.mp hg
      rw [hX] at hr'
      have hrest : (c.inc ('\'' :: b).length).rest = '\'' :: X := by
        rw [rest_inc, hr', List.drop_left]
      obtain ⟨c', vs, -, -, hscan⟩ := scan_step (c := c.inc ('\'' :: b).length) he hrest
      have hthere := (body_free (l := l) (k := k) (c := c.inc _) he hrest).trans
        (hscan l k)
      have hhere := (body_free (l := l) (k := k) he hr').trans
        ((scan_glued he hl hr').trans (hscan l k))
      rw [Loop.ends_next hthere] at hends
      exact (Loop.ends_next hhere).mpr hends
    · exact (Loop.ends_next ((body_free he hr').trans
        (scan_closed he hr' (Or.inl ⟨hl, hg⟩)))).mpr hends
  | @dollar sec s ps hl hs ih =>
    have hr' : c.rest = s ++ (bytes ps ++ tail) := by rw [hr, ← List.append_assoc]; rfl
    obtain ⟨s', hends, hout⟩ := ih (c := c.inc s.length) (l := l) he
      (by rw [rest_inc, hr', List.drop_left])
    refine ⟨s', ?_, hout⟩
    obtain ⟨b, rfl, -⟩ := id hl
    exact (Loop.ends_next ((body_free he hr').trans
      (scan_closed he hr' (Or.inr hl)))).mpr hends
  | @chr sec a ps h₁ h₂ hs ih =>
    have hr' : c.rest = a :: (bytes ps ++ tail) := hr
    by_cases ha : a = ':'
    · subst ha
      have hnext := (body_free (l := l) (k := k) he hr').trans (scan_colon he hr')
      -- the pass takes the whole name, and the hypothesis is about the byte behind the colon
      obtain ⟨s', hends, hout⟩ := ih (c := c.inc 1) (l := l ++
        [⟨c.position, c.position + (erasedName tail ps).length, some (erasedName tail ps)⟩]) he
        (by rw [rest_inc, hr']; rfl)
      refine ⟨s', (Loop.ends_next hnext).mpr ?_, ?_⟩
      · rw [← inc_inc]
        refine (ends_walk (c := c.inc 1) he ?_).mpr hends
        rw [rest_inc, hr']
        exact Nat.le_refl _
      · rw [allVariables, if_pos rfl]
        rwa [List.append_assoc] at hout
    · have hnext := (body_free (l := l) (k := k) he hr').trans
        (scan_byte hr' ⟨ha, h₁, h₂⟩)
      obtain ⟨s', hends, hout⟩ := ih (c := c.inc 1) (l := l) he
        (by rw [rest_inc, hr']; rfl)
      refine ⟨s', (Loop.ends_next hnext).mpr hends, ?_⟩
      rwa [allVariables, if_neg ha]
  | opn hs ih => exact ih he hr
  | cls hs ih => exact ih he hr

end Free

/-! ## The loop with sections

`Follows` speaks of a state, not of a place in the source, so that it is handed from pass to pass
(`Follows.step`). Its second half is about every state that the loop comes through; a pass adds
its own state to those. -/

section Follows

variable {tail : Text} {secs : List CleanSection} {c c' : TextCaret}
  {l l' vs : List Variable} {k : Nat} {ps : List Piece}

/-- No section that is still to come starts behind the caret. -/
def AtOrBefore (secs : List CleanSection) (s : ParseState TextCaret) : Prop :=
  ∀ sec ∈ secs.drop s.currSection, s.caret.position ≤ sec.position

/-- Where the loop ends from here, and whether it keeps to the sections on the way. -/
def Follows (secs : List CleanSection) (tail : Text) (st : ParseState TextCaret)
    (vs : List Variable) (kept : Bool) : Prop :=
  (∃ s, Loop.Ends (parseTemplateBody secs) st s ∧ Outcome tail vs s) ∧
  ((∀ t, Loop.Reaches (parseTemplateBody secs) st t → AtOrBefore secs t) ↔ kept = true)

theorem Follows.step {st st' : ParseState TextCaret} {kept : Bool}
    (hf : Follows secs tail st' vs kept)
    (hb : parseTemplateBody secs st = some (.next st')) (hat : AtOrBefore secs st) :
    Follows secs tail st vs kept := by
  obtain ⟨⟨s, hends, hout⟩, hall⟩ := hf
  refine ⟨⟨s, (Loop.ends_next hb).mpr hends, hout⟩, ?_⟩
  rw [Loop.forall_reaches_iff hb, hall]
  exact and_iff_right hat

theorem follows_of_exit {st : ParseState TextCaret}
    (hb : parseTemplateBody secs st = some (.exit st)) (hat : AtOrBefore secs st)
    (hout : Outcome tail vs st) : Follows secs tail st vs true := by
  refine ⟨⟨st, (Loop.ends_exit hb).mpr rfl, hout⟩, ?_⟩
  rw [Loop.forall_reaches_of_exit hb]
  exact iff_of_true hat rfl

/-- The next section, if there is one, starts behind the caret. -/
def Stuck (secs : List CleanSection) (k : Nat) (s : ParseState TextCaret) : Prop :=
  s.currSection = k ∧ ∀ sec, secs[k]? = some sec → sec.position < s.caret.position

theorem body_of_stuck {s : ParseState TextCaret} (h : Stuck secs k s) :
    parseTemplateBody secs s = parseTemplateBody [] s := by
  obtain ⟨c, l, k'⟩ := s
  obtain ⟨rfl, hlt⟩ := h
  by_cases hstop : c.rest = [] ∨ c.error ≠ none
  · rw [body_stop hstop, body_stop hstop]
  · obtain ⟨hr, he⟩ := not_or.mp hstop
    have he' : c.error = none := by simpa using he
    obtain ⟨a, t, hr'⟩ := List.exists_cons_of_ne_nil hr
    rw [body_free he' hr', body_scan he' hr' fun sec hsec => Nat.ne_of_lt (hlt sec hsec)]

/-- A stuck index stays where it is: the caret only moves on. -/
theorem stuck_keeps (s s' : ParseState TextCaret) (h : Stuck secs k s)
    (hb : parseTemplateBody secs s = some (.next s')) : Stuck secs k s' := by
  rw [body_of_stuck h] at hb
  obtain ⟨c, l, k'⟩ := s
  obtain ⟨rfl, hlt⟩ := h
  by_cases hstop : c.rest = [] ∨ c.error ≠ none
  · rw [body_stop hstop] at hb
    cases hb
  · obtain ⟨hr, he⟩ := not_or.mp hstop
    have he' : c.error = none := by simpa using he
    obtain ⟨a, t, hr'⟩ := List.exists_cons_of_ne_nil hr
    obtain ⟨c', vs, -, hpos, hscan⟩ := scan_step he' hr'
    rw [body_free he' hr', hscan] at hb
    cases hb
    exact ⟨rfl, fun sec hsec => Nat.lt_trans (hlt sec hsec) hpos⟩

/-- **Stuck**: from here on the sections make no difference. -/
theorem ends_of_stuck {st s : ParseState TextCaret} (h : Stuck secs k st)
    (hends : Loop.Ends (parseTemplateBody []) st s) :
    Loop.Ends (parseTemplateBody secs) st s :=
  (Loop.ends_congr (fun _ hs => body_of_stuck hs) stuck_keeps h).mpr hends

/-- A pass that runs past the start of a section gets the loop stuck. -/
theorem follows_of_skip {st : ParseState TextCaret} {a : CleanSection}
    (hb : parseTemplateBody secs st = some (.next ⟨c', l', k⟩))
    (hsec : (secs.drop k).head? = some a) (hlt : a.position < c'.position)
    (hends : ∃ s, Loop.Ends (parseTemplateBody []) ⟨c', l', k⟩ s ∧ Outcome tail vs s) :
    Follows secs tail st vs false := by
  have hk : secs[k]? = some a := by rw [← hsec, List.head?_drop]
  have hstuck : Stuck secs k ⟨c', l', k⟩ := by
    refine ⟨rfl, fun sec' h => ?_⟩
    obtain rfl : a = sec' := Option.some.inj (hk.symm.trans h)
    exact hlt
  obtain ⟨s, hends, hout⟩ := hends
  refine ⟨⟨s, (Loop.ends_next hb).mpr (ends_of_stuck hstuck hends), hout⟩,
    iff_of_false (fun hall => ?_) Bool.false_ne_true⟩
  -- the state after the pass is one of those that the loop comes through
  have hat := hall _ (Loop.Reaches.head hb .refl) a (List.mem_of_mem_head? hsec)
  exact absurd hat (Nat.not_le_of_lt hlt)

/-- With no section to come there is none to run past. -/
theorem follows_of_none {st : ParseState TextCaret} (hk : secs.drop st.currSection = [])
    (hends : ∃ s, Loop.Ends (parseTemplateBody []) st s ∧ Outcome tail vs s) :
    Follows secs tail st vs true := by
  have hstuck : Stuck secs st.currSection st := by
    refine ⟨rfl, fun sec h => ?_⟩
    rw [← List.head?_drop, hk] at h
    cases h
  obtain ⟨s, hends, hout⟩ := hends
  refine ⟨⟨s, ends_of_stuck hstuck hends, hout⟩, iff_of_true (fun t ht => ?_) rfl⟩
  have hat : t.currSection = st.currSection :=
    (Loop.Reaches.keeps (P := Stuck secs st.currSection) stuck_keeps hstuck ht).1
  rw [AtOrBefore, hat, hk]
  exact fun sec h => by cases h

/-- The loop stands where the scan of the source stands: the pieces `ps` are ahead, and the
    sections still to come are theirs. -/
structure Aligned (secs : List CleanSection) (tail : Text) (ps : List Piece) (c : TextCaret)
    (k : Nat) : Prop where
  error : c.error = none
  rest : c.rest = bytes ps ++ tail
  sections : secs.drop k = sections c.position none ps
  scanned : Scanned tail false ps

theorem Aligned.atOrBefore (h : Aligned secs tail ps c k) : AtOrBefore secs ⟨c, l, k⟩ := by
  intro sec hsec
  rw [h.sections] at hsec
  exact le_of_mem_sections (Nat.le_refl _) (fun a ha => by cases ha) hsec

/-- A piece of one byte or more keeps the next section away from the caret. -/
theorem Aligned.noSection (h : Aligned secs tail ps c k) {p : Nat} {q : List Piece}
    (hs : OatppSqlite.Template.sections c.position none ps
      = OatppSqlite.Template.sections p none q) (hp : c.position < p) :
    NoSection secs k c.position := by
  intro sec hk
  have hmem : sec ∈ secs.drop k := List.mem_of_mem_head? (by rw [List.head?_drop, hk]; rfl)
  rw [h.sections, hs] at hmem
  have hle := le_of_mem_sections (q := p) (Nat.le_refl p) (fun a ha => by cases ha) hmem
  exact Nat.ne_of_gt (Nat.lt_of_lt_of_le hp hle)

/-- The theorem at scans of at most `n` pieces, the form the induction hands on. -/
def FollowsBelow (secs : List CleanSection) (tail : Text) (n : Nat) : Prop :=
  ∀ (ps : List Piece) (c : TextCaret) (l : List Variable) (k : Nat), ps.length ≤ n →
    Aligned secs tail ps c k →
    Follows secs tail ⟨c, l, k⟩ (l ++ foundVariables tail c.position false ps)
      (neverSkips tail false ps)

variable {n : Nat} {s : Text} {a : Char}

/-- A string that ends at its own end is passed whole. -/
theorem follows_closed (ih : FollowsBelow secs tail n) (hn : ps.length ≤ n)
    (h : Aligned secs tail (.lit s :: ps) c k) (hps : Scanned tail false ps)
    (hs : (QuoteLit s ∧ (bytes ps ++ tail).head? ≠ some '\'') ∨ DollarLit s) :
    Follows secs tail ⟨c, l, k⟩ (l ++ foundVariables tail (c.position + s.length) false ps)
      (neverSkips tail false ps) := by
  have hr : c.rest = s ++ (bytes ps ++ tail) := by rw [h.rest, ← List.append_assoc]; rfl
  have hpos : 0 < s.length := by
    rcases hs with ⟨⟨b, rfl, -⟩, -⟩ | ⟨b, rfl, -⟩ <;> exact Nat.succ_pos _
  obtain ⟨a, b, rfl⟩ := List.exists_cons_of_length_pos hpos
  have hns := h.noSection (p := c.position + (a :: b).length) (q := ps) rfl
    (Nat.lt_add_of_pos_right hpos)
  have hb := (body_scan (l := l) h.error hr hns).trans (scan_closed h.error hr hs)
  refine (ih ps (c.inc (a :: b).length) l k hn
    ⟨h.error, ?_, h.sections, hps⟩).step hb h.atOrBefore
  rw [rest_inc, hr, List.drop_left]

/-- A string that is glued to the next one runs past the start of the section between. -/
theorem follows_glued (ho : OpenLit tail) (h : Aligned secs tail (.lit s :: ps) c k)
    (hs : QuoteLit s) (hps : Scanned tail false ps)
    (hn : ∀ s' ps', ps = .lit s' :: ps' → ¬ QuoteLit s') (hc : Piece.cls ∈ ps)
    (hg : (bytes ps ++ tail).head? = some '\'') :
    Follows secs tail ⟨c, l, k⟩ (l ++ allVariables tail (c.position + s.length) ps)
      false := by
  obtain ⟨m, hsec⟩ := quoteGlued_section (p := c.position + s.length) hps hc hn hg
  obtain ⟨X, hX⟩ := List.head?_eq_some_iff.mp hg
  have hr : c.rest = s ++ '\'' :: X := by
    rw [h.rest, ← hX, ← List.append_assoc]
    rfl
  obtain ⟨b, rfl, -⟩ := id hs
  have hrest : (c.inc ('\'' :: b).length).rest = '\'' :: X := by rw [rest_inc, hr, List.drop_left]
  obtain ⟨c', vs, -, hpos, hscan⟩ := scan_step (c := c.inc ('\'' :: b).length) h.error hrest
  have hns := h.noSection (p := c.position + ('\'' :: b).length) (q := ps) rfl
    (Nat.lt_add_of_pos_right (Nat.succ_pos _))
  have hb := (body_scan (l := l) h.error hr hns).trans
    ((scan_glued h.error hs hr).trans (hscan l k))
  refine follows_of_skip hb (a := ⟨c.position + ('\'' :: b).length, m⟩) ?_ hpos ?_
  · rw [h.sections]
    exact hsec
  · -- the loop behind the string makes the same pass, and it meets every piece
    obtain ⟨s', hends, hout⟩ := ends_free (l := l) (k := k)
      (c := c.inc ('\'' :: b).length) ho hps h.error (by rw [hrest, hX])
    have hthere := (body_free (l := l) (k := k) (c := c.inc _) h.error hrest).trans
      (hscan l k)
    exact ⟨s', (Loop.ends_next hthere).mp hends, hout⟩

/-- A byte that opens nothing is passed. -/
theorem follows_chr (ih : FollowsBelow secs tail n) (hn : ps.length ≤ n)
    (h : Aligned secs tail (.chr a :: ps) c k) (hps : Scanned tail false ps)
    (ha : a ≠ ':' ∧ a ≠ '\'' ∧ a ≠ '$') :
    Follows secs tail ⟨c, l, k⟩ (l ++ foundVariables tail (c.position + 1) false ps)
      (neverSkips tail false ps) := by
  have hr : c.rest = a :: (bytes ps ++ tail) := h.rest
  have hns := h.noSection (p := c.position + 1) (q := ps) rfl (Nat.lt_succ_self _)
  have hb := (body_scan (l := l) h.error hr hns).trans (scan_byte hr ha)
  refine (ih ps (c.inc 1) l k hn ⟨h.error, ?_, h.sections, hps⟩).step hb h.atOrBefore
  rw [rest_inc, hr]
  rfl

/-- A variable whose name ends where it ends in the source. -/
theorem follows_name (ih : FollowsBelow secs tail n) (hn : ps.length ≤ n)
    (h : Aligned secs tail (.chr ':' :: ps) c k) (hps : Scanned tail false ps)
    (hg : erasedName tail ps = identRun ps) :
    Follows secs tail ⟨c, l, k⟩
      (l ++ ⟨c.position, c.position + (erasedName tail ps).length,
        some (erasedName tail ps)⟩ :: foundVariables tail (c.position + 1) false ps)
      (neverSkips tail false ps) := by
  have hr : c.rest = ':' :: (bytes ps ++ tail) := h.rest
  have hns := h.noSection (p := c.position + 1) (q := ps) rfl (Nat.lt_succ_self _)
  have hb := (body_scan (l := l) h.error hr hns).trans (scan_colon h.error hr)
  -- no piece of the name is a variable or opens anything, so nothing is missed on the way
  obtain ⟨qs, hq⟩ := exists_nameAt hps
  have hend : c.position + (1 + (identRun ps).length)
      = c.position + 1 + (identRun ps).length := by omega
  rw [hq.found_eq, hq.skips_eq, ← hend, ← hg, List.append_cons]
  refine (ih qs (c.inc (1 + (erasedName tail ps).length)) _ k (hq.length_le.trans hn)
    ⟨h.error, ?_, ?_, hq.scanned⟩).step hb h.atOrBefore
  · rw [rest_inc, hr, hg, hq.bytes_eq, Nat.add_comm 1, List.drop_succ_cons, List.append_assoc,
      List.drop_left]
  · rw [h.sections, inc_position, hg, hend]
    exact hq.sections_eq (c.position + 1)

/-- A variable whose name runs on past the start of a section. -/
theorem follows_glued_name (ho : OpenLit tail) (h : Aligned secs tail (.chr ':' :: ps) c k)
    (hps : Scanned tail false ps) (hc : Piece.cls ∈ ps) (hg : nameGlued tail ps) :
    Follows secs tail ⟨c, l, k⟩
      (l ++ ⟨c.position, c.position + (erasedName tail ps).length,
        some (erasedName tail ps)⟩ :: allVariables tail (c.position + 1) ps) false := by
  have hr : c.rest = ':' :: (bytes ps ++ tail) := h.rest
  have hns := h.noSection (p := c.position + 1) (q := ps) rfl (Nat.lt_succ_self _)
  have hb := (body_scan (l := l) h.error hr hns).trans (scan_colon h.error hr)
  obtain ⟨sec, hsec, hlt⟩ := nameGlued_section (p := c.position + 1) hps hc hg
  have hrest : (c.inc 1).rest = bytes ps ++ tail := by rw [rest_inc, hr]; rfl
  rw [List.append_cons]
  refine follows_of_skip hb (a := sec) ?_ ?_ ?_
  · rw [h.sections]
    exact hsec
  · rw [inc_position, ← Nat.add_assoc]
    exact hlt
  · obtain ⟨s', hends, hout⟩ := ends_free (k := k) (c := c.inc 1) ho hps h.error hrest
    refine ⟨s', ?_, hout⟩
    rw [← inc_inc]
    refine (ends_walk (c := c.inc 1) h.error ?_).mpr hends
    rw [hrest]

/-- The caret stands at a closed section and jumps over it. -/
theorem follows_opn (ih : FollowsBelow secs tail n) (hn : ps.length ≤ n)
    (h : Aligned secs tail (.opn :: ps) c k) (hps : Scanned tail true ps)
    (hc : Piece.cls ∈ ps) :
    Follows secs tail ⟨c, l, k⟩ (l ++ foundVariables tail c.position true ps)
      (neverSkips tail true ps) := by
  by_cases hnil : c.rest = []
  · -- only markers are left: the loop leaves without taking them up
    have hbytes : bytes ps = [] := (List.append_eq_nil_iff.mp (h.rest.symm.trans hnil)).1
    have htail : tail = [] := (List.append_eq_nil_iff.mp (h.rest.symm.trans hnil)).2
    have hskips : neverSkips tail true ps = true := by
      have := neverSkips_of_bytes_nil (b := true) hbytes hps
      rwa [List.contains_iff_mem.mpr hc] at this
    rw [foundVariables_of_bytes_nil _ _ hbytes, hskips, List.append_nil]
    exact follows_of_exit (body_stop (Or.inl hnil)) h.atOrBefore
      ⟨rfl, iff_of_true h.error htail⟩
  · obtain ⟨b, qs, hq⟩ := exists_closesAt hps hc
    have hdrop : secs.drop k = ⟨c.position, c.position + b.length - c.position⟩ ::
        sections (c.position + b.length) none qs := h.sections.trans (hq.sections_eq _ _)
    rw [Nat.add_sub_cancel_left] at hdrop
    obtain ⟨hk, hnext⟩ := List.drop_eq_cons_iff.mp hdrop
    have hb := body_section (l := l) h.error hnil hk rfl
    rw [hq.found_eq, hq.skips_eq]
    refine (ih qs (c.inc b.length) l (k + 1) (hq.length_lt.le.trans hn)
      ⟨h.error, ?_, ?_, hq.scanned⟩).step hb h.atOrBefore
    · have hr : c.rest = bytes ps ++ tail := h.rest
      rw [rest_inc, hr, hq.bytes_eq, List.append_assoc, List.drop_left]
    · exact hnext

/-- **What the second pass does**, from every place where it stands with the source. -/
theorem aligned_follows (ho : OpenLit tail) : ∀ n, FollowsBelow secs tail n
  | n, ps, c, l, k, hn, h => by
    -- by the number of pieces, as a pass takes several of them
    by_cases hc : Piece.cls ∈ ps
    · cases n with
      | zero =>
        rw [List.length_eq_zero_iff.mp (Nat.le_zero.mp hn)] at hc
        cases hc
      | succ n =>
        have ih := aligned_follows ho n
        cases h.scanned with
        | nil => cases hc
        | @quote _ s ps hl _ hnext hps =>
          have hc' : Piece.cls ∈ ps := by simpa using hc
          by_cases hg : (bytes ps ++ tail).head? = some '\''
          · have hglue : quoteGlued tail s ps = true := by rw [quoteGlued, hl.head, hg]; rfl
            have := follows_glued (l := l) ho h hl hps hnext hc' hg
            simpa [foundVariables, neverSkips, hglue, hc'] using this
          · have hglue : quoteGlued tail s ps = false := by
              rw [quoteGlued, beq_eq_false_iff_ne.mpr hg, Bool.and_false]
            have := follows_closed (l := l) ih (Nat.le_of_succ_le_succ hn) h hps
              (Or.inl ⟨hl, hg⟩)
            simpa [foundVariables, neverSkips, hglue] using this
        | @dollar _ s ps hl hps =>
          have hglue : quoteGlued tail s ps = false := by
            rw [quoteGlued, hl.head]
            rfl
          have := follows_closed (l := l) ih (Nat.le_of_succ_le_succ hn) h hps (Or.inr hl)
          simpa [foundVariables, neverSkips, hglue] using this
        | @chr _ a ps h₁ h₂ hps =>
          have hc' : Piece.cls ∈ ps := by simpa using hc
          by_cases ha : a = ':'
          · subst ha
            by_cases hg : nameGlued tail ps
            · have := follows_glued_name (l := l) ho h hps hc' hg
              simpa [foundVariables, neverSkips, hg, hc'] using this
            · have := follows_name (l := l) ih (Nat.le_of_succ_le_succ hn) h hps
                (not_not.mp (mt (nameGlued_iff ho hps).mpr hg))
              simpa [foundVariables, neverSkips, hg] using this
          · have := follows_chr (l := l) ih (Nat.le_of_succ_le_succ hn) h hps ⟨ha, h₁, h₂⟩
            have hne : (a != ':') = true := by simpa using ha
            simpa [foundVariables, neverSkips, ha, hne] using this
        | @opn ps hps =>
          have hc' : Piece.cls ∈ ps := by simpa using hc
          have := follows_opn (l := l) ih (Nat.le_of_succ_le_succ hn) h hps hc'
          simpa [foundVariables, neverSkips, hc'] using this
    · -- no section is closed any more, so none is recorded and there is none to jump over
      rw [foundVariables_eq_all _ hc, neverSkips_of_not_mem _ hc]
      refine follows_of_none ?_ (ends_free ho h.scanned h.error h.rest)
      rw [h.sections, sections_of_not_mem _ _ hc]

end Follows

end OatppSqlite.Template
