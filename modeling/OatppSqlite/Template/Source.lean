import OatppSqlite.Template.Literal

/-!
# One scan of the source

What a template *says*, by a single left-to-right scan of the text as it was written: `scan`
cuts it into pieces — whole string literals, section markers, single bytes — and stops at a
literal that is never closed. The parser never makes this scan. It erases the markers first and
tokenises what is left a second time, so the two passes of `Parser.cpp` are each compared with
these pieces: `Template/Preprocess.lean` says that the first pass computes `bytes` and
`sections` of them, `Template/SecondPass.lean` what the second one makes of the bytes.

`sourceVariables` is the reading of the pieces that a template's author has in mind. Positions
are counted in the erased text, because that is the text the variables are positions in.
-/

set_option autoImplicit false

namespace OatppSqlite.Template

/-- A piece of the source: a closed string literal, a byte outside of any, or a marker that
    counts. -/
inductive Piece where
  | lit (s : Text)
  | chr (c : Char)
  | opn
  | cls
  deriving DecidableEq, Repr

/-- The pieces of a text, and the unclosed literal it ends with (empty when there is none).
    `sec` says whether the scan stands inside a section: an opener counts only outside one, a
    closer only inside. -/
def scan (sec : Bool) (t : Text) : List Piece × Text :=
  match t with
  | [] => ([], [])
  | c :: t =>
    if _hq : c = '\'' ∨ c = '$' then
      match _hc : closeLit c t with
      | none => ([], c :: t)
      | some r => (scan sec r).map (.lit (c :: t.take (t.length - r.length)) :: ·) id
    else if sec = false ∧ ['<', '!', '!'] <+: c :: t then
      (scan true (t.drop 2)).map (.opn :: ·) id
    else if sec = true ∧ ['!', '!', '>'] <+: c :: t then
      (scan false (t.drop 2)).map (.cls :: ·) id
    else
      (scan sec t).map (.chr c :: ·) id
termination_by t.length
decreasing_by
  · have := length_le_of_closeLit _hq _hc
    simp only [List.length_cons]
    omega
  all_goals
    simp only [List.length_cons, List.length_drop]
    omega

/-- The bytes a piece leaves in the erased text. -/
def Piece.bytes : Piece → Text
  | .lit s => s
  | .chr c => [c]
  | .opn => []
  | .cls => []

def bytes (ps : List Piece) : Text := ps.flatMap Piece.bytes

/-- The closed sections, in coordinates of the erased text: `p` bytes were written before the
    pieces, and `start` is where the open section began. -/
def sections (p : Nat) (start : Option Nat) : List Piece → List CleanSection
  | [] => []
  | .lit s :: ps => sections (p + s.length) start ps
  | .chr _ :: ps => sections (p + 1) start ps
  | .opn :: ps => sections p (some p) ps
  | .cls :: ps =>
    match start with
    | some q => ⟨q, p - q⟩ :: sections p none ps
    | none => sections p none ps

/-- The maximal run of `[A-Za-z0-9_.]` at the head of the pieces; a marker ends it. -/
def identRun : List Piece → Text
  | .chr c :: ps => if isAllowedChar c then c :: identRun ps else []
  | _ => []

/-- **The variables of the source.** Strings are skipped whole, nothing inside a closed section
    is a variable (`inClosed`), and every other `:` starts one. An opener that is never closed
    opens nothing. -/
def sourceVariables (p : Nat) (inClosed : Bool) : List Piece → List Variable
  | [] => []
  | .lit s :: ps => sourceVariables (p + s.length) inClosed ps
  | .opn :: ps => sourceVariables p (ps.contains .cls) ps
  | .cls :: ps => sourceVariables p false ps
  | .chr c :: ps =>
    if c = ':' ∧ inClosed = false then
      ⟨p, p + (identRun ps).length, some (identRun ps)⟩ :: sourceVariables (p + 1) inClosed ps
    else sourceVariables (p + 1) inClosed ps

/-- Every literal of the text is closed: the scan reads it to the end. -/
def literalsClosed (t : Text) : Bool := (scan false t).2.isEmpty

/-! ## The scan, case by case -/

section

variable {sec : Bool} {t r : Text}

@[simp] theorem scan_nil : scan sec [] = ([], []) := by rw [scan]

theorem scan_open {q : Char} (hq : q = '\'' ∨ q = '$') (hc : closeLit q t = none) :
    scan sec (q :: t) = ([], q :: t) := by
  rw [scan, dif_pos hq]
  split
  · rfl
  · rename_i h
    rw [hc] at h
    cases h

theorem scan_lit {q : Char} {b : Text} (hq : q = '\'' ∨ q = '$')
    (hc : closeLit q (b ++ r) = some r) :
    scan sec (q :: (b ++ r)) = (.lit (q :: b) :: (scan sec r).1, (scan sec r).2) := by
  rw [scan, dif_pos hq]
  split
  · rename_i h
    rw [hc] at h
    cases h
  · rename_i r' h
    rw [hc, Option.some.injEq] at h
    subst h
    simp [Prod.map]

theorem scan_opn : scan false ('<' :: '!' :: '!' :: t)
    = (.opn :: (scan true t).1, (scan true t).2) := by
  rw [scan, dif_neg (by simp), if_pos ⟨rfl, by simp⟩]
  rfl

theorem scan_cls : scan true ('!' :: '!' :: '>' :: t)
    = (.cls :: (scan false t).1, (scan false t).2) := by
  rw [scan, dif_neg (by simp), if_neg (by simp), if_pos ⟨rfl, by simp⟩]
  rfl

theorem scan_chr {c : Char} (hq : ¬ (c = '\'' ∨ c = '$'))
    (ho : ¬ (sec = false ∧ ['<', '!', '!'] <+: c :: t))
    (hc : ¬ (sec = true ∧ ['!', '!', '>'] <+: c :: t)) :
    scan sec (c :: t) = (.chr c :: (scan sec t).1, (scan sec t).2) := by
  rw [scan, dif_neg hq, if_neg ho, if_neg hc]
  rfl

end

@[simp] theorem bytes_nil : bytes [] = [] := rfl

@[simp] theorem bytes_cons (x : Piece) (ps : List Piece) :
    bytes (x :: ps) = x.bytes ++ bytes ps := rfl

@[simp] theorem Piece.bytes_lit (s : Text) : Piece.bytes (.lit s) = s := rfl
@[simp] theorem Piece.bytes_chr (c : Char) : Piece.bytes (.chr c) = [c] := rfl
@[simp] theorem Piece.bytes_opn : Piece.bytes .opn = [] := rfl
@[simp] theorem Piece.bytes_cls : Piece.bytes .cls = [] := rfl

/-! ## What every scan looks like -/

/-- What the scan stops at: nothing, or a literal that no later byte closes. -/
def OpenLit (tail : Text) : Prop :=
  tail = [] ∨ ∃ q t, tail = q :: t ∧ (q = '\'' ∨ q = '$') ∧ closeLit q t = none

/-- The shape of a scan's pieces: its literals are literals, its bytes are not their openers,
    its markers take turns, and two quote literals never stand side by side (they would have
    been one). -/
inductive Scanned (tail : Text) : Bool → List Piece → Prop
  | nil (sec : Bool) : Scanned tail sec []
  | quote {sec : Bool} {s : Text} {ps : List Piece} : QuoteLit s →
      (ps = [] → tail.head? ≠ some '\'') → (∀ s' ps', ps = .lit s' :: ps' → ¬ QuoteLit s') →
      Scanned tail sec ps → Scanned tail sec (.lit s :: ps)
  | dollar {sec : Bool} {s : Text} {ps : List Piece} : DollarLit s →
      Scanned tail sec ps → Scanned tail sec (.lit s :: ps)
  | chr {sec : Bool} {c : Char} {ps : List Piece} : c ≠ '\'' → c ≠ '$' →
      Scanned tail sec ps → Scanned tail sec (.chr c :: ps)
  | opn {ps : List Piece} : Scanned tail true ps → Scanned tail false (.opn :: ps)
  | cls {ps : List Piece} : Scanned tail false ps → Scanned tail true (.cls :: ps)

theorem QuoteLit.head {s : Text} (h : QuoteLit s) : s.head? = some '\'' := by
  obtain ⟨b, rfl, -⟩ := h
  rfl

theorem DollarLit.head {s : Text} (h : DollarLit s) : s.head? = some '$' := by
  obtain ⟨b, rfl, -⟩ := h
  rfl

/-- How a scan starts: it stops at once, or its first piece is a literal and shows the first
    byte, or its first piece is no literal. -/
theorem scan_starts (sec : Bool) (t : Text) :
    ((scan sec t).1 = [] ∧ (scan sec t).2 = t) ∨
    (∃ s ps, (scan sec t).1 = .lit s :: ps ∧ s.head? = t.head?) ∨
    (∃ x ps, (scan sec t).1 = x :: ps ∧ ∀ s, x ≠ .lit s) := by
  fun_induction scan sec t with
  | case1 | case2 => exact Or.inl ⟨rfl, rfl⟩
  | case3 => exact Or.inr (Or.inl ⟨_, _, rfl, rfl⟩)
  | case4 | case5 | case6 => exact Or.inr (Or.inr ⟨_, _, rfl, fun s h => by cases h⟩)

theorem scan_scanned (sec : Bool) (t : Text) :
    Scanned (scan sec t).2 sec (scan sec t).1 ∧ OpenLit (scan sec t).2 := by
  induction sec, t using scan.induct with
  | case1 sec => exact ⟨by rw [scan_nil]; exact .nil sec, Or.inl (by rw [scan_nil])⟩
  | case2 sec c t hq hc =>
    rw [scan_open hq hc]
    exact ⟨.nil sec, Or.inr ⟨c, t, rfl, hq, hc⟩⟩
  | case3 sec c t hq r hc ih =>
    obtain ⟨b, rfl, hlit⟩ := closeLit_eq_some hq hc
    rw [scan_lit hq hc]
    refine ⟨?_, ih.2⟩
    rcases hlit with ⟨hs, hr⟩ | hs
    · -- no quote stands behind a quote-enclosed string, so no other one starts there
      refine .quote hs (fun hnil => ?_) (fun s' ps' hps hs' => ?_) ih.1
      · rcases scan_starts sec r with ⟨-, ht⟩ | ⟨_, _, h, -⟩ | ⟨_, _, h, -⟩
        · rwa [ht]
        · rw [hnil] at h
          cases h
        · rw [hnil] at h
          cases h
      · rcases scan_starts sec r with ⟨h, -⟩ | ⟨_, _, h, hh⟩ | ⟨_, _, h, hx⟩
        · rw [hps] at h
          cases h
        · rw [hps] at h
          cases h
          exact hr (by rw [← hh, hs'.head])
        · rw [hps] at h
          cases h
          exact hx _ rfl
    · exact .dollar hs ih.1
  | case4 sec c t hq ho ih =>
    obtain ⟨rfl, r, hr⟩ := ho
    obtain ⟨rfl, rfl⟩ : c = '<' ∧ t = '!' :: '!' :: r := by simpa using hr.symm
    rw [scan_opn]
    exact ⟨.opn ih.1, ih.2⟩
  | case5 sec c t hq ho hcl ih =>
    obtain ⟨rfl, r, hr⟩ := hcl
    obtain ⟨rfl, rfl⟩ : c = '!' ∧ t = '!' :: '>' :: r := by simpa using hr.symm
    rw [scan_cls]
    exact ⟨.cls ih.1, ih.2⟩
  | case6 sec c t hq ho hcl ih =>
    rw [scan_chr hq ho hcl]
    exact ⟨.chr (fun h => hq (Or.inl h)) (fun h => hq (Or.inr h)) ih.1, ih.2⟩

end OatppSqlite.Template
