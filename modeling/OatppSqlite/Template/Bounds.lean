import OatppSqlite.Template.PutBack

/-!
# The scanners stay inside the text

Nothing in `Parser.cpp` compares a position with the size of the text: the scanners rely on the
caret to stop them. What they need of it is said once for each call, as how far the call moves
the caret (`Ahead`). A pass over a loop that goes on moves its caret forward (`Advances`); the
one exception is the jump over an empty clean section, which takes up the section instead, so
the measure of `parseTemplate`'s loop counts the sections too. The jump itself is not checked
either: it ends inside the text because `preprocess` recorded the section there.

What lies behind the end of the text is never looked at: with anything else read there
(`beyond`) both passes compute the same.

One predicate serves all loops but the last: `Advances` says of one pass that it moves the caret on
or leaves, and from it come the end of the loop (`Advances.run`), the bounds of every pass of
every run (`Advances.runsInside`) and, for a scanner that is called at its own byte, that it has
passed something. The scanners are called from the loops above them, so their lemmas come first and
the two passes only cite them.
-/

set_option autoImplicit false

namespace OatppSqlite.Template

open Caret

variable {κ : Type} [Caret κ]

/-! ## How far a call moves the caret

`inc` does not check its argument, so for it the bound is a hypothesis, and it is the callers that
have looked: at a byte, for a text, or for a byte that is found. -/

/-- The caret stands in `text`, at its end at most. -/
structure InText (text : Text) (c : κ) : Prop where
  getData_eq : getData c = text
  position_le : getPosition c ≤ text.length

/-- `c'` stands in the text, by at least `n` bytes further than `c`. -/
structure Ahead (text : Text) (n : Nat) (c c' : κ) : Prop where
  inText : InText text c'
  le : getPosition c + n ≤ getPosition c'

variable {text : Text} {c c' c'' : κ} {a : Char} {w : Text} {b : Bool} {n m : Nat}

theorem InText.ahead (h : InText text c) : Ahead text 0 c c := ⟨h, Nat.le_refl _⟩

/-- The first of two moves alone, and the second alone. -/
theorem Ahead.followed (h : Ahead text n c c') (h' : Ahead text m c' c'') : Ahead text n c c'' :=
  ⟨h'.inText, Nat.le_trans h.le (Nat.le_trans (Nat.le_add_right _ _) h'.le)⟩

theorem Ahead.after (h : Ahead text n c c') (h' : Ahead text m c' c'') : Ahead text m c c'' :=
  ⟨h'.inText, Nat.le_trans
    (Nat.add_le_add_right (Nat.le_trans (Nat.le_add_right _ _) h.le) _) h'.le⟩

theorem Ahead.weaken (h : Ahead text n c c') (hm : m ≤ n) : Ahead text m c c' :=
  ⟨h.inText, Nat.le_trans (Nat.add_le_add_left hm _) h.le⟩

theorem InText.moved (h : InText text c) (hdata : getData c' = getData c)
    (hposition : getPosition c' = getPosition c + n) (hn : getPosition c + n ≤ text.length) :
    Ahead text n c c' :=
  ⟨⟨hdata.trans h.getData_eq, hposition.trans_le hn⟩, hposition.ge⟩

theorem InText.of_view_inc (h : InText text c) (hview : view c' = (view c).inc n)
    (hn : n ≤ (view c).rest.length) : Ahead text n c c' := by
  rw [length_rest] at hn
  change n ≤ (getData c).length - getPosition c at hn
  rw [h.getData_eq] at hn
  have hle := h.position_le
  exact h.moved (congrArg TextCaret.data hview) (congrArg TextCaret.position hview) (by omega)

section

variable [LawfulCaret κ]

theorem inText_ofText (text : Text) : InText text (ofText text : κ) := by
  have hview : view (ofText text : κ) = ⟨text, 0, none⟩ := LawfulCaret.view_ofText text
  refine ⟨congrArg TextCaret.data hview, ?_⟩
  rw [show getPosition (ofText text : κ) = 0 from congrArg TextCaret.position hview]
  exact Nat.zero_le _

/-- The caret does not check a step. -/
theorem InText.inc_ahead (h : InText text c) (hn : getPosition c + n ≤ text.length) :
    Ahead text n c (inc c n) :=
  have hview := LawfulCaret.view_inc c n
  h.moved (congrArg TextCaret.data hview) (congrArg TextCaret.position hview) hn

theorem InText.setError_ahead (h : InText text c) (msg : String) :
    Ahead text 0 c (setError c msg) :=
  have hview := LawfulCaret.view_setError c msg
  h.moved (congrArg TextCaret.data hview) (congrArg TextCaret.position hview) h.position_le

theorem InText.position_lt (h : InText text c) (hc : canContinue c = true) :
    getPosition c < text.length := by
  rw [LawfulCaret.canContinue_view, TextCaret.canContinue, Bool.and_eq_true,
    decide_eq_true_eq] at hc
  exact h.getData_eq ▸ hc.1

/-- A byte that was looked at can be passed. -/
theorem InText.inc_one_ahead (h : InText text c) (hc : canContinue c = true) :
    Ahead text 1 c (inc c 1) :=
  h.inc_ahead (h.position_lt hc)

theorem InText.canContinueAtChar_ahead (h : InText text c)
    (hc : canContinueAtChar c a 1 = (b, c')) : Ahead text b.toNat c c' := by
  have hview := canContinueAtChar_fst c a 1
  rw [hc] at hview
  change (view c).canContinueAtChar a 1 = _ at hview
  unfold TextCaret.canContinueAtChar at hview
  split at hview
  · rename_i hat
    obtain ⟨rfl, hview⟩ := Prod.mk.inj hview
    obtain ⟨t, hrest⟩ := List.head?_eq_some_iff.mp hat.1
    refine h.of_view_inc hview.symm ?_
    rw [hrest]
    exact Nat.le_add_left 1 t.length
  · obtain ⟨rfl, hview⟩ := Prod.mk.inj hview
    exact h.of_view_inc hview.symm (Nat.zero_le _)

/-- The scanners are called at the byte they begin with. -/
theorem canContinueAtChar_of_getCurrData (hc : canContinue c = true) (ha : getCurrData c = a) :
    (canContinueAtChar c a 1).1 = true := by
  have hview := congrArg Prod.fst (canContinueAtChar_fst c a 1)
  rw [LawfulCaret.getCurrData_view c hc] at ha
  rw [LawfulCaret.canContinue_view, TextCaret.canContinue, Bool.and_eq_true,
    decide_eq_true_eq] at hc
  have hlen : (view c).rest.length ≠ 0 := by
    rw [length_rest]
    exact Nat.sub_ne_zero_of_lt hc.1
  obtain ⟨a', t, hrest⟩ := List.exists_cons_of_length_pos (Nat.pos_of_ne_zero hlen)
  rw [getCurrData_textCaret hrest] at ha
  rw [canContinueAtChar_pos 1 (Option.isNone_iff_eq_none.mp hc.2) (ha ▸ hrest)] at hview
  exact hview.symm

/-- It stops at the byte, or at the end. -/
theorem InText.findChar_ahead (h : InText text c) (hc : findChar c a = (b, c')) :
    Ahead text 0 c c' ∧ (b = true → getPosition c' < text.length) ∧
      (b = false → getPosition c' = text.length) := by
  have hview := findChar_fst c a
  rw [hc] at hview
  obtain ⟨hb, hview⟩ := Prod.mk.inj hview
  have hmoved : Ahead text ((view c).rest.idxOf a) c c' :=
    h.of_view_inc hview.symm List.idxOf_le_length
  have hposition : getPosition c' = getPosition c + (view c).rest.idxOf a :=
    congrArg TextCaret.position hview.symm
  have hlen : (view c).rest.length = text.length - getPosition c := by
    rw [length_rest, ← h.getData_eq]
    rfl
  have hle := h.position_le
  refine ⟨hmoved.weaken (Nat.zero_le _), fun htrue => ?_, fun hfalse => ?_⟩
  · -- the index of a byte that is there is below the length of what is left
    have hmem : a ∈ (view c).rest := by simpa using hb.trans htrue
    have hlt := List.idxOf_lt_length_of_mem hmem
    omega
  · have hmem : a ∉ (view c).rest := by simpa using hb.trans hfalse
    have hend := List.idxOf_eq_length hmem
    omega

theorem InText.isAtText_ahead (h : InText text c) (hc : isAtText c w = (b, c')) :
    Ahead text (if b then w.length else 0) c c' := by
  have hview := isAtText_fst c w
  rw [hc] at hview
  change (view c).isAtText w = _ at hview
  unfold TextCaret.isAtText at hview
  split at hview
  · rename_i hat
    obtain ⟨rfl, hview⟩ := Prod.mk.inj hview
    exact h.of_view_inc hview.symm hat.length_le
  · obtain ⟨rfl, hview⟩ := Prod.mk.inj hview
    exact h.of_view_inc hview.symm (Nat.zero_le _)

end

/-! ## Passes that advance -/

variable {σ ρ : Type} {caret : σ → κ} {body : σ → Option (Loop.Step σ ρ)}
  {Post : κ → ρ → Prop} {s : σ}

/-- One pass from any caret inside the text: it goes on with the caret moved forward in the text,
    or it leaves, with a result that `Post` accepts for the caret it stood at. -/
def Advances (text : Text) (caret : σ → κ) (body : σ → Option (Loop.Step σ ρ))
    (Post : κ → ρ → Prop) : Prop :=
  ∀ s, InText text (caret s) →
    (∃ s', body s = some (.next s') ∧ Ahead text 1 (caret s) (caret s')) ∨
    ∃ r, body s = some (.exit r) ∧ Post (caret s) r

/-- **A loop whose passes advance ends**, and the caret it ends at has moved forward. -/
theorem Advances.run (h : Advances text caret body Post) (hs : InText text (caret s))
    (hn : text.length - getPosition (caret s) < n) :
    ∃ r c', Loop.run body n s = some r ∧ Ahead text 0 (caret s) c' ∧ Post c' r := by
  -- the measure is the number of bytes that are left
  have hkeeps : Loop.Keeps body (fun t => Ahead text 0 (caret s) (caret t))
      (fun t => text.length - getPosition (caret t))
      (fun r => ∃ c', Ahead text 0 (caret s) c' ∧ Post c' r) := by
    intro t ht
    rcases h t ht.inText with ⟨t', hbody, hahead⟩ | ⟨r, hbody, hpost⟩
    · refine Or.inl ⟨t', hbody, ht.followed hahead, ?_⟩
      have hle := hahead.le
      have hend := hahead.inText.position_le
      show text.length - getPosition (caret t') < text.length - getPosition (caret t)
      omega
    · exact Or.inr ⟨r, hbody, _, ht, hpost⟩
  obtain ⟨r, hrun, c', hc', hpost⟩ := Loop.run_total hkeeps hs.ahead hn
  exact ⟨r, c', hrun, hc', hpost⟩

/-- Every pass over a loop that begins at `s`: its caret is inside the text, and where the loop
    goes on it has moved forward. -/
def RunsInside (text : Text) (caret : σ → κ) (body : σ → Option (Loop.Step σ ρ)) (s : σ) : Prop :=
  ∀ t, Loop.Reaches body s t → InText text (caret t) ∧
    ((∃ t', body t = some (.next t') ∧ getPosition (caret t) < getPosition (caret t')) ∨
      ∃ r, body t = some (.exit r))

theorem Advances.next (h : Advances text caret body Post) (hs : InText text (caret s)) {s' : σ}
    (hbody : body s = some (.next s')) : Ahead text 1 (caret s) (caret s') := by
  rcases h s hs with ⟨t, ht, hahead⟩ | ⟨r, hr, -⟩
  · rw [hbody, Option.some.injEq, Loop.Step.next.injEq] at ht
    exact ht ▸ hahead
  · rw [hbody] at hr
    cases hr

/-- Where the first pass goes on, the caret has moved. -/
theorem Advances.run_next (h : Advances text caret body Post) (hs : InText text (caret s))
    (hn : text.length - getPosition (caret s) < n) {s' : σ} (hbody : body s = some (.next s')) :
    ∃ r c', Loop.run body n s = some r ∧ Ahead text 1 (caret s) c' ∧ Post c' r := by
  have hahead := h.next hs hbody
  have hle := hahead.le
  have hend := hahead.inText.position_le
  obtain ⟨r, c', hrun, hc', hpost⟩ := h.run (n := n - 1) hahead.inText (by omega)
  exact ⟨r, c', by rw [Loop.run_next_pos hbody (by omega), hrun], hahead.followed hc', hpost⟩

/-- At the head of every pass the caret is inside the text. -/
theorem Advances.reaches (h : Advances text caret body Post) (hs : InText text (caret s)) {t : σ}
    (ht : Loop.Reaches body s t) : InText text (caret t) :=
  ht.keeps (P := fun t => InText text (caret t))
    (fun _ _ hin hbody => (h.next hin hbody).inText) hs

theorem Advances.runsInside (h : Advances text caret body Post) (hs : InText text (caret s)) :
    RunsInside text caret body s := by
  intro t ht
  have hin := h.reaches hs ht
  refine ⟨hin, ?_⟩
  rcases h t hin with ⟨t', hbody, hahead⟩ | ⟨r, hbody, -⟩
  · exact Or.inl ⟨t', hbody, hahead.le⟩
  · exact Or.inr ⟨r, hbody⟩

/-- The bound every loop is given. -/
theorem InText.lt_passes (h : InText text c) : text.length - getPosition c < passes c := by
  rw [passes, getDataSize, h.getData_eq]
  exact Nat.lt_succ_self _

/-- A pass over the loop of `parseTemplate` that goes on: the caret moves forward and the section
    index stays, or the caret jumps over the section that is recorded at its position, which may
    be empty, and the section is used up. -/
inductive Passes (text : Text) (secs : List CleanSection) : ParseState κ → ParseState κ → Prop
  | forward {s s' : ParseState κ} (h : Ahead text 1 s.caret s'.caret)
      (hk : s'.currSection = s.currSection) : Passes text secs s s'
  | jump {s : ParseState κ} {sec : CleanSection} (hk : secs[s.currSection]? = some sec)
      (hp : sec.position = getPosition s.caret)
      (h : Ahead text sec.size s.caret (inc s.caret sec.size)) :
      Passes text secs s { s with
        caret := inc s.caret sec.size, currSection := s.currSection + 1 }

theorem Passes.inText {secs : List CleanSection} {s s' : ParseState κ}
    (h : Passes text secs s s') : InText text s'.caret := by
  cases h with
  | forward h hk => exact h.inText
  | jump hk hp h => exact h.inText

/-- What the loop of `parseTemplate` has ahead: bytes, and sections. -/
def aheadOf (text : Text) (secs : List CleanSection) (s : ParseState κ) : Nat :=
  text.length - getPosition s.caret + (secs.length - s.currSection)

theorem Passes.aheadOf_lt {secs : List CleanSection} {s s' : ParseState κ}
    (h : Passes text secs s s') : aheadOf text secs s' < aheadOf text secs s := by
  unfold aheadOf
  cases h with
  | forward h hk =>
    have hle := h.le
    have hend := h.inText.position_le
    rw [hk]
    omega
  | jump hk hp h =>
    have hlt : s.currSection < secs.length := (List.getElem?_eq_some_iff.mp hk).1
    have hle := h.le
    dsimp only
    omega

/-! ## The scanners -/

variable [LawfulCaret κ]

/-- A scanner that is entered at its own byte passes it. -/
theorem Ahead.of_getCurrData (h : Ahead text (canContinueAtChar c a 1).1.toNat c c')
    (hgo : canContinue c = true) (ha : getCurrData c = a) : Ahead text 1 c c' := by
  rwa [canContinueAtChar_of_getCurrData hgo ha] at h

theorem parseIdentifierBody_advances (text : Text) (p l : Nat) :
    Advances text id (parseIdentifierBody p l : κ → _) (fun c r => Ahead text 0 c r.2) := by
  intro c hc
  unfold parseIdentifierBody
  split
  · rename_i hgo
    dsimp only
    split
    · exact Or.inr ⟨_, rfl, hc.ahead⟩
    · exact Or.inl ⟨_, rfl, hc.inc_one_ahead hgo⟩
  · exact Or.inr ⟨_, rfl, hc.ahead⟩

theorem skipStringInQuotesBody_advances (text : Text) :
    Advances text Prod.snd (skipStringInQuotesBody : Bool × κ → _)
      (fun c r => Ahead text 0 c r.2) := by
  rintro ⟨opened, c⟩ hc
  unfold skipStringInQuotesBody
  dsimp only
  rcases hat : canContinueAtChar c '\'' 1 with ⟨⟨⟩, c₁⟩
  · exact Or.inr ⟨_, rfl, hc.canContinueAtChar_ahead hat⟩
  · have h₁ : Ahead text 1 c c₁ := hc.canContinueAtChar_ahead hat
    rcases hfind : findChar c₁ '\'' with ⟨⟨⟩, c₂⟩
    · exact Or.inl ⟨(true, c₂), by simp only [hfind],
        h₁.followed (h₁.inText.findChar_ahead hfind).1⟩
    · obtain ⟨h₂, hlt, -⟩ := h₁.inText.findChar_ahead hfind
      exact Or.inl ⟨(false, inc c₂ 1), by simp only [hfind],
        (h₁.followed h₂).followed (h₂.inText.inc_ahead (hlt rfl))⟩

theorem skipStringInDollarsBody_advances (text term : Text) :
    Advances text id (skipStringInDollarsBody term : κ → _) (fun c r => Ahead text 0 c r.2) := by
  intro c hc
  unfold skipStringInDollarsBody
  split
  · rename_i hgo
    rcases hfind : findChar c '$' with ⟨⟨⟩, c₁⟩
    · -- the caret was not at the end, and it is now
      obtain ⟨h₁, -, hend⟩ := hc.findChar_ahead hfind
      have hlt := hc.position_lt hgo
      rw [← hend rfl] at hlt
      exact Or.inl ⟨_, rfl, h₁.inText, hlt⟩
    · obtain ⟨h₁, hlt, -⟩ := hc.findChar_ahead hfind
      have h₂ : Ahead text 1 c (inc c₁ 1) := h₁.after (h₁.inText.inc_ahead (hlt rfl))
      rcases hat : isAtText (inc c₁ 1) term with ⟨⟨⟩, c₂⟩
      · refine Or.inl ⟨c₂, ?_, h₂.followed (h₂.inText.isAtText_ahead hat)⟩
        simp only [hat]
      · refine Or.inr ⟨(true, c₂), ?_,
          (h₂.followed (h₂.inText.isAtText_ahead hat)).weaken (Nat.zero_le _)⟩
        simp only [hat]
  · exact Or.inr ⟨_, rfl, hc.ahead⟩

theorem parseIdentifier_ahead (hc : InText text c) :
    ∃ r, parseIdentifier c = some r ∧ Ahead text (canContinueAtChar c ':' 1).1.toNat c r.2 := by
  unfold parseIdentifier
  rcases hat : canContinueAtChar c ':' 1 with ⟨⟨⟩, c₁⟩
  · have h₁ : Ahead text 0 c c₁ := hc.canContinueAtChar_ahead hat
    exact ⟨_, rfl, h₁.followed (h₁.inText.setError_ahead _)⟩
  · have h₁ : Ahead text 1 c c₁ := hc.canContinueAtChar_ahead hat
    obtain ⟨r, c', hrun, hc', hpost⟩ :=
      (parseIdentifierBody_advances text (getPosition c) (getPosition c₁)).run h₁.inText
        h₁.inText.lt_passes
    exact ⟨r, hrun, (h₁.followed hc').followed hpost⟩

theorem skipStringInQuotes_ahead (hc : InText text c) :
    ∃ c', skipStringInQuotes c = some c' ∧
      Ahead text (canContinueAtChar c '\'' 1).1.toNat c c' := by
  have hbody := skipStringInQuotesBody_advances (κ := κ) text
  have hrun : ∃ r c', Loop.run skipStringInQuotesBody (passes c) (false, c) = some r ∧
      Ahead text (canContinueAtChar c '\'' 1).1.toNat c c' ∧ Ahead text 0 c' r.2 := by
    cases hat : (canContinueAtChar c '\'' 1).1 with
    | false => exact hbody.run hc hc.lt_passes
    | true =>
      rcases hbody (false, c) hc with ⟨s', hs', -⟩ | ⟨r, hr, -⟩
      · exact hbody.run_next hc hc.lt_passes hs'
      · -- the first pass does not leave, as the quote is there
        unfold skipStringInQuotesBody at hr
        dsimp only at hr
        split at hr
        · split at hr <;> cases hr
        · rename_i hfalse
          rw [hfalse] at hat
          cases hat
  obtain ⟨⟨opened, c₂⟩, c₁, hrun, h₁, h₂⟩ := hrun
  unfold skipStringInQuotes
  rw [hrun]
  cases opened with
  | false => exact ⟨c₂, rfl, h₁.followed h₂⟩
  | true => exact ⟨_, rfl, (h₁.followed h₂).followed (h₂.inText.setError_ahead _)⟩

theorem skipStringInDollars_ahead (hc : InText text c) :
    ∃ c', skipStringInDollars c = some c' ∧
      Ahead text (canContinueAtChar c '$' 1).1.toNat c c' := by
  unfold skipStringInDollars
  rcases hat : canContinueAtChar c '$' 1 with ⟨⟨⟩, c₁⟩
  · have h₁ : Ahead text 0 c c₁ := hc.canContinueAtChar_ahead hat
    exact ⟨_, rfl, h₁.followed (h₁.inText.setError_ahead _)⟩
  · have h₁ : Ahead text 1 c c₁ := hc.canContinueAtChar_ahead hat
    dsimp only
    rcases hfind : findChar c₁ '$' with ⟨⟨⟩, c₂⟩
    · have h₂ := h₁.followed (h₁.inText.findChar_ahead hfind).1
      exact ⟨_, rfl, h₂.followed (h₂.inText.setError_ahead _)⟩
    · obtain ⟨h₂, hlt, -⟩ := h₁.inText.findChar_ahead hfind
      have h₃ : Ahead text 1 c (inc c₂ 1) :=
        (h₁.followed h₂).followed (h₂.inText.inc_ahead (hlt rfl))
      obtain ⟨⟨closed, c₄⟩, c', hrun, hc', hpost⟩ :=
        (skipStringInDollarsBody_advances text
          (labelText (inc c₂ 1) (getPosition c₁))).run h₃.inText h₃.inText.lt_passes
      have h₄ : Ahead text 1 c c₄ := (h₃.followed hc').followed hpost
      simp only [hrun]
      cases closed with
      | true => exact ⟨c₄, rfl, h₄⟩
      | false => exact ⟨_, rfl, h₄.followed (h₄.inText.setError_ahead _)⟩

/-! ## The two passes -/

theorem preprocessBody_advances (text : Text) :
    Advances text PreprocessState.caret (preprocessBody : PreprocessState κ → _)
      (fun _ _ => True) := by
  rintro ⟨ss, c, start, secs⟩ hc
  dsimp only at hc
  unfold preprocessBody
  dsimp only
  split
  · rename_i hgo
    have hinc := hc.inc_one_ahead hgo
    split
    · rename_i ha
      obtain ⟨c', hskip, hc'⟩ := skipStringInQuotes_ahead hc
      rw [hskip]
      exact Or.inl ⟨_, rfl, hc'.of_getCurrData hgo ha⟩
    · rename_i ha
      obtain ⟨c', hskip, hc'⟩ := skipStringInDollars_ahead hc
      rw [hskip]
      exact Or.inl ⟨_, rfl, hc'.of_getCurrData hgo ha⟩
    · split
      · split
        · rename_i c' hat
          exact Or.inl ⟨_, rfl, (hc.isAtText_ahead hat).weaken (by decide)⟩
        · exact Or.inl ⟨_, rfl, hinc⟩
      · exact Or.inl ⟨_, rfl, hinc⟩
    · split
      · split
        · rename_i c' hat
          exact Or.inl ⟨_, rfl, (hc.isAtText_ahead hat).weaken (by decide)⟩
        · exact Or.inl ⟨_, rfl, hinc⟩
      · exact Or.inl ⟨_, rfl, hinc⟩
    · exact Or.inl ⟨_, rfl, hinc⟩
  · exact Or.inr ⟨_, rfl, trivial⟩

theorem parseTemplateBody_passes {secs : List CleanSection}
    (hsecs : ∀ sec ∈ secs, sec.position + sec.size ≤ text.length) (s : ParseState κ)
    (hs : InText text s.caret) :
    (∃ s', parseTemplateBody secs s = some (.next s') ∧ Passes text secs s s') ∨
    parseTemplateBody secs s = some (.exit s) := by
  obtain ⟨c, vs, k⟩ := s
  dsimp only at hs
  have hscan : canContinue c = true →
      ∃ s', parseTemplateBody.scan ⟨c, vs, k⟩ = some (.next s') ∧
        Passes text secs ⟨c, vs, k⟩ s' := by
    intro hgo
    unfold parseTemplateBody.scan
    dsimp only
    split
    · rename_i ha
      obtain ⟨⟨var, c'⟩, hid, hc'⟩ := parseIdentifier_ahead hs
      rw [hid]
      have hahead : Ahead text 1 c c' := hc'.of_getCurrData hgo ha
      cases hname : var.name with
      | none => exact ⟨⟨c', vs, k⟩, by simp [hname], .forward hahead rfl⟩
      | some name => exact ⟨⟨c', vs ++ [var], k⟩, by simp [hname], .forward hahead rfl⟩
    · rename_i ha
      obtain ⟨c', hskip, hc'⟩ := skipStringInQuotes_ahead hs
      rw [hskip]
      exact ⟨_, rfl, .forward (hc'.of_getCurrData hgo ha) rfl⟩
    · rename_i ha
      obtain ⟨c', hskip, hc'⟩ := skipStringInDollars_ahead hs
      rw [hskip]
      exact ⟨_, rfl, .forward (hc'.of_getCurrData hgo ha) rfl⟩
    · exact ⟨_, rfl, .forward (hs.inc_one_ahead hgo) rfl⟩
  unfold parseTemplateBody
  dsimp only
  split
  · rename_i hgo
    split
    · rename_i sec hk
      split
      · -- the jump, which ends where the recorded section ends
        rename_i hp
        have hend := hsecs sec (List.mem_of_getElem? hk)
        refine Or.inl ⟨_, rfl, .jump hk hp (hs.inc_ahead ?_)⟩
        rwa [← hp]
      · exact Or.inl (hscan hgo)
    · exact Or.inl (hscan hgo)
  · exact Or.inr rfl

/-! ## What is read

The loops on the two carets are compared pass by pass (`Loop.run_congr`), along the first of them,
whose bounds are known by now: within them every byte and every label is the same. -/

section

variable {readPast : κ → Char} {labelPast : κ → Nat → Text}

/-- The caret with something else to be read wherever its text is not: at the end and behind it,
    and in a label that is no part of the text passed. -/
@[reducible] def beyond (readPast : κ → Char) (labelPast : κ → Nat → Text) : Caret κ :=
  { ‹Caret κ› with
    getCurrData := fun c =>
      if getPosition c < getDataSize c then getCurrData c else readPast c
    labelText := fun c start =>
      if start ≤ getPosition c ∧ getPosition c ≤ getDataSize c then labelText c start
      else labelPast c start }

theorem InText.getCurrData_beyond (h : InText text c) (hgo : canContinue c = true) :
    @getCurrData κ (beyond readPast labelPast) c = getCurrData c := by
  refine if_pos ?_
  rw [getDataSize, h.getData_eq]
  exact h.position_lt hgo

omit [LawfulCaret κ] in
theorem InText.labelText_beyond (h : InText text c) {start : Nat} (hl : start ≤ getPosition c) :
    @labelText κ (beyond readPast labelPast) c start = labelText c start := by
  refine if_pos ⟨hl, ?_⟩
  rw [getDataSize, h.getData_eq]
  exact h.position_le

theorem parseIdentifierBody_beyond {p l : Nat} (hc : InText text c) (hl : l ≤ getPosition c) :
    parseIdentifierBody p l c = @parseIdentifierBody κ (beyond readPast labelPast) p l c := by
  unfold parseIdentifierBody
  rw [hc.labelText_beyond hl]
  by_cases hgo : canContinue c = true
  · rw [hc.getCurrData_beyond hgo]
    rfl
  · rw [if_neg hgo]
    exact (if_neg hgo).symm

theorem parseIdentifier_beyond (hc : InText text c) :
    parseIdentifier c = @parseIdentifier κ (beyond readPast labelPast) c := by
  rcases hat : canContinueAtChar c ':' 1 with ⟨b, c₁⟩
  have hat' : @canContinueAtChar κ (beyond readPast labelPast) c ':' 1 = (b, c₁) := hat
  have h₁ := hc.canContinueAtChar_ahead hat
  unfold parseIdentifier
  rw [hat, hat']
  cases b with
  | false => rfl
  | true =>
    have hbody := parseIdentifierBody_advances (κ := κ) text (getPosition c) (getPosition c₁)
    exact Loop.run_congr (P := fun t => Ahead text 0 c₁ t)
      (fun t ht => parseIdentifierBody_beyond ht.inText ht.le)
      (fun t t' ht hnext => ht.followed (hbody.next ht.inText hnext))
      (passes c₁) c₁ h₁.inText.ahead

theorem skipStringInDollars_beyond (hc : InText text c) :
    skipStringInDollars c = @skipStringInDollars κ (beyond readPast labelPast) c := by
  rcases hat : canContinueAtChar c '$' 1 with ⟨b, c₁⟩
  have hat' : @canContinueAtChar κ (beyond readPast labelPast) c '$' 1 = (b, c₁) := hat
  have h₁ := hc.canContinueAtChar_ahead hat
  unfold skipStringInDollars
  rw [hat, hat']
  cases b with
  | false => rfl
  | true =>
    rcases hfind : findChar c₁ '$' with ⟨b, c₂⟩
    have hfind' : @findChar κ (beyond readPast labelPast) c₁ '$' = (b, c₂) := hfind
    dsimp only
    rw [hfind, hfind']
    cases b with
    | false => rfl
    | true =>
      obtain ⟨h₂, hlt, -⟩ := h₁.inText.findChar_ahead hfind
      have h₃ := h₂.followed (h₂.inText.inc_ahead (n := 1) (hlt rfl))
      have hlabel : @labelText κ (beyond readPast labelPast) (inc c₂ 1) (getPosition c₁)
          = labelText (inc c₂ 1) (getPosition c₁) := h₃.inText.labelText_beyond h₃.le
      dsimp only
      rw [← hlabel]
      rfl

omit [LawfulCaret κ] in
theorem PreprocessState.copied_beyond {s : PreprocessState κ} {n : Nat}
    (h : Ahead text n s.caret c) :
    s.copied c = @PreprocessState.copied κ (beyond readPast labelPast) s c := by
  have hlabel : @labelText κ (beyond readPast labelPast) c (getPosition s.caret)
      = labelText c (getPosition s.caret) :=
    h.inText.labelText_beyond (Nat.le_trans (Nat.le_add_right _ _) h.le)
  unfold PreprocessState.copied
  rw [← hlabel]
  rfl

theorem preprocessBody_beyond {s : PreprocessState κ} (hs : InText text s.caret) :
    preprocessBody s = @preprocessBody κ (beyond readPast labelPast) s := by
  unfold preprocessBody
  by_cases hgo : canContinue s.caret = true
  · have hgo' : @canContinue κ (beyond readPast labelPast) s.caret = true := hgo
    rw [if_pos hgo, if_pos hgo', hs.getCurrData_beyond hgo]
    split
    · obtain ⟨c', hskip, hc'⟩ := skipStringInQuotes_ahead hs
      have hskip' : @skipStringInQuotes κ (beyond readPast labelPast) s.caret = some c' := hskip
      rw [hskip, hskip']
      exact congrArg (fun t => some (Loop.Step.next t)) (s.copied_beyond hc')
    · obtain ⟨c', hskip, hc'⟩ := skipStringInDollars_ahead hs
      rw [← skipStringInDollars_beyond hs, hskip]
      exact congrArg (fun t => some (Loop.Step.next t)) (s.copied_beyond hc')
    · rfl
    · rfl
    · rfl
  · rw [if_neg hgo]
    exact (if_neg hgo).symm

theorem parseTemplateBody_beyond {secs : List CleanSection} {s : ParseState κ}
    (hs : InText text s.caret) :
    parseTemplateBody secs s = @parseTemplateBody κ (beyond readPast labelPast) secs s := by
  unfold parseTemplateBody
  by_cases hgo : canContinue s.caret = true
  · have hgo' : @canContinue κ (beyond readPast labelPast) s.caret = true := hgo
    have hscan : parseTemplateBody.scan s
        = @parseTemplateBody.scan κ (beyond readPast labelPast) s := by
      unfold parseTemplateBody.scan
      rw [hs.getCurrData_beyond hgo, ← parseIdentifier_beyond hs, ← skipStringInDollars_beyond hs]
      rfl
    rw [if_pos hgo, if_pos hgo', ← hscan]
    rfl
  · rw [if_neg hgo]
    exact (if_neg hgo).symm

theorem preprocess_beyond (text : Text) :
    preprocess κ text = @preprocess κ (beyond readPast labelPast) text := by
  have hbody := preprocessBody_advances (κ := κ) text
  exact Loop.run_congr (P := fun s => InText text s.caret)
    (fun s hs => preprocessBody_beyond hs)
    (fun s s' hs hnext => (hbody.next hs hnext).inText) _ _ (inText_ofText text)

end

/-! ## Whole runs -/

/-- What `preprocess` hands on: its sections lie inside of the text it returns. -/
theorem preprocess_sections_le (text : Text) : ∃ processed secs,
    preprocess κ text = some (processed, secs) ∧
      ∀ sec ∈ secs, sec.position + sec.size ≤ processed.length :=
  ⟨_, _, by rw [preprocess_eq, preprocess_eq_scan], fun sec => sections_inside⟩

section

variable {secs : List CleanSection}

theorem parseTemplateBody_next (hsecs : ∀ sec ∈ secs, sec.position + sec.size ≤ text.length)
    {s s' : ParseState κ} (hs : InText text s.caret)
    (hbody : parseTemplateBody secs s = some (.next s')) : Passes text secs s s' := by
  rcases parseTemplateBody_passes hsecs s hs with ⟨t, ht, hpass⟩ | hexit
  · rw [hbody, Option.some.injEq, Loop.Step.next.injEq] at ht
    exact ht ▸ hpass
  · rw [hbody] at hexit
    cases hexit

/-- The loop of `parseTemplate` ends, although a pass over it may leave the caret in place. -/
theorem run_parseTemplateBody_ends (hsecs : ∀ sec ∈ secs, sec.position + sec.size ≤ text.length) :
    ∃ s : ParseState κ, Loop.run (parseTemplateBody secs)
      (passes (ofText text : κ) + secs.length) ⟨ofText text, [], 0⟩ = some s := by
  have hkeeps : Loop.Keeps (parseTemplateBody secs) (fun s : ParseState κ => InText text s.caret)
      (aheadOf text secs) (fun _ => True) := by
    intro s hs
    rcases parseTemplateBody_passes hsecs s hs with ⟨s', hbody, hpass⟩ | hexit
    · exact Or.inl ⟨s', hbody, hpass.inText, hpass.aheadOf_lt⟩
    · exact Or.inr ⟨s, hexit, trivial⟩
  have hstart := inText_ofText (κ := κ) text
  have hlt := hstart.lt_passes
  obtain ⟨s, hrun, -⟩ := Loop.run_total hkeeps (s := ⟨ofText text, [], 0⟩) hstart
    (n := passes (ofText text : κ) + secs.length) (by unfold aheadOf; dsimp only; omega)
  exact ⟨s, hrun⟩

theorem parseTemplate_beyond {readPast : κ → Char} {labelPast : κ → Nat → Text} (text : Text) :
    parseTemplate κ text = @parseTemplate κ (beyond readPast labelPast) text := by
  obtain ⟨processed, secs, hpre, hsecs⟩ := preprocess_sections_le (κ := κ) text
  have hpre' : @preprocess κ (beyond readPast labelPast) text = some (processed, secs) :=
    (preprocess_beyond text).symm.trans hpre
  obtain ⟨s, hrun⟩ := run_parseTemplateBody_ends (κ := κ) hsecs
  have hrun' : Loop.run (@parseTemplateBody κ (beyond readPast labelPast) secs)
      (passes (ofText processed : κ) + secs.length) ⟨ofText processed, [], 0⟩ = some s := by
    rw [← hrun]
    exact (Loop.run_congr (P := fun s : ParseState κ => InText processed s.caret)
      (fun s hs => parseTemplateBody_beyond hs)
      (fun s s' hs hnext => (parseTemplateBody_next hsecs hs hnext).inText) _ _
      (inText_ofText processed)).symm
  unfold parseTemplate
  rw [hpre, hpre']
  simp only [Option.bind_eq_bind, Option.bind_some]
  rw [hrun]
  exact (congrArg (fun o => Option.bind o _) hrun').symm

end

/-- Both passes over a text, with what the first one hands to the second: each loop and each of
    the scanners' loops gets on at every pass and keeps its caret inside its text, and nothing
    past a text is looked at. -/
structure StaysInside (κ : Type) [Caret κ] (text processed : Text) (secs : List CleanSection) :
    Prop where
  first_pass : RunsInside text PreprocessState.caret preprocessBody
    ⟨[], (ofText text : κ), none, []⟩
  second_pass (s : ParseState κ)
    (hs : Loop.Reaches (parseTemplateBody secs) ⟨ofText processed, [], 0⟩ s) :
    InText processed s.caret ∧
      ((∃ s', parseTemplateBody secs s = some (.next s') ∧ Passes processed secs s s') ∨
        parseTemplateBody secs s = some (.exit s))
  identifier (t : Text) (c : κ) (hc : InText t c) :
    (∀ p l, RunsInside t id (parseIdentifierBody p l) c) ∧
      ∃ r, parseIdentifier c = some r ∧ InText t r.2
  quotes (t : Text) (c : κ) (hc : InText t c) :
    (∀ opened, RunsInside t Prod.snd skipStringInQuotesBody (opened, c)) ∧
      ∃ c', skipStringInQuotes c = some c' ∧ InText t c'
  dollars (t : Text) (c : κ) (hc : InText t c) :
    (∀ term, RunsInside t id (skipStringInDollarsBody term) c) ∧
      ∃ c', skipStringInDollars c = some c' ∧ InText t c'
  nothing_past (readPast : κ → Char) (labelPast : κ → Nat → Text) :
    preprocess κ text = @preprocess κ (beyond readPast labelPast) text ∧
      parseTemplate κ text = @parseTemplate κ (beyond readPast labelPast) text

/-- **Both passes end, and stay inside their texts**, whatever the text. -/
theorem parseTemplate_stays_inside (text : Text) : ∃ processed secs r,
    preprocess κ text = some (processed, secs) ∧ parseTemplate κ text = some r ∧
      StaysInside κ text processed secs := by
  obtain ⟨processed, secs, hpre, hsecs⟩ := preprocess_sections_le (κ := κ) text
  obtain ⟨s, hrun⟩ := run_parseTemplateBody_ends (κ := κ) hsecs
  have hparse : ∃ r, parseTemplate κ text = some r := by
    unfold parseTemplate
    rw [hpre]
    simp only [Option.bind_eq_bind, Option.bind_some, hrun]
    cases hasError s.caret with
    | false => exact ⟨_, rfl⟩
    | true => exact ⟨_, rfl⟩
  obtain ⟨r, hr⟩ := hparse
  refine ⟨processed, secs, r, hpre, hr, ?_⟩
  constructor
  case first_pass => exact (preprocessBody_advances text).runsInside (inText_ofText text)
  case second_pass =>
    intro s hs
    have hin : InText processed s.caret :=
      hs.keeps (P := fun s : ParseState κ => InText processed s.caret)
        (fun _ _ hin hnext => (parseTemplateBody_next hsecs hin hnext).inText)
        (inText_ofText processed)
    exact ⟨hin, parseTemplateBody_passes hsecs s hin⟩
  case identifier =>
    intro t c hc
    obtain ⟨r, hr, hahead⟩ := parseIdentifier_ahead hc
    exact ⟨fun p l => (parseIdentifierBody_advances t p l).runsInside hc, r, hr, hahead.inText⟩
  case quotes =>
    intro t c hc
    obtain ⟨c', hskip, hahead⟩ := skipStringInQuotes_ahead hc
    exact ⟨fun opened => (skipStringInQuotesBody_advances t).runsInside hc, c', hskip,
      hahead.inText⟩
  case dollars =>
    intro t c hc
    obtain ⟨c', hskip, hahead⟩ := skipStringInDollars_ahead hc
    exact ⟨fun term => (skipStringInDollarsBody_advances t term).runsInside hc, c', hskip,
      hahead.inText⟩
  case nothing_past => exact fun _ _ => ⟨preprocess_beyond text, parseTemplate_beyond text⟩

theorem parseTemplate_stays_inside_sections : ∃ processed secs r,
    preprocess TextCaret "<!!!!><!!!!>:a<!!'!!>$b".toList = some (processed, secs) ∧
      parseTemplate TextCaret "<!!!!><!!!!>:a<!!'!!>$b".toList = some r ∧
      StaysInside TextCaret "<!!!!><!!!!>:a<!!'!!>$b".toList processed secs :=
  parseTemplate_stays_inside _

end OatppSqlite.Template
