import OatppSqlite.Template.Correct

/-!
# Putting the markers back

`preprocess` returns the text without its markers and records where the sections were. What the
records are good for is `putBack`: a marker in front of each section and one behind it. Where
every section that was opened is closed this gives the source again
(`preprocess_putBack_iff`); an opener without a closer is dropped from the text and recorded
nowhere. The records are in order and inside the text either way.
-/

set_option autoImplicit false

namespace OatppSqlite.Template

open Caret

/-- The sections' markers put back into what is left of the text from position `p` on. -/
def putBack (p : Nat) (text : Text) : List CleanSection → Text
  | [] => text
  | sec :: secs =>
    let before := sec.position - p
    text.take before ++ ['<', '!', '!'] ++ (text.drop before).take sec.size ++ ['!', '!', '>']
      ++ putBack (sec.position + sec.size) (text.drop (before + sec.size)) secs

/-- The bytes of the source a piece stands for. -/
def Piece.source : Piece → Text
  | .lit s => s
  | .chr c => [c]
  | .opn => ['<', '!', '!']
  | .cls => ['!', '!', '>']

def source (ps : List Piece) : Text := ps.flatMap Piece.source

/-- The pieces end outside of a section, when they start inside of one or not (`sec`). -/
def endsOutside (sec : Bool) : List Piece → Bool
  | [] => !sec
  | .opn :: ps => endsOutside true ps
  | .cls :: ps => endsOutside false ps
  | _ :: ps => endsOutside sec ps

/-- Every section that the text opens is closed in it. -/
def sectionsClosed (text : Text) : Bool := endsOutside false (scan false text).1

@[simp] theorem source_cons (x : Piece) (ps : List Piece) :
    source (x :: ps) = x.source ++ source ps := rfl

/-- **The pieces are the source.** -/
theorem source_scan (sec : Bool) (t : Text) : source (scan sec t).1 ++ (scan sec t).2 = t := by
  induction sec, t using scan.induct with
  | case1 sec =>
    rw [scan_nil]
    rfl
  | case2 sec c t hq hc =>
    rw [scan_open hq hc]
    rfl
  | case3 sec c t hq r hc ih =>
    obtain ⟨b, rfl, -⟩ := closeLit_eq_some hq hc
    rw [scan_lit hq hc, source_cons, List.append_assoc, ih]
    rfl
  | case4 sec c t hq ho ih =>
    obtain ⟨rfl, r, hr⟩ := ho
    obtain ⟨rfl, rfl⟩ : c = '<' ∧ t = '!' :: '!' :: r := by simpa using hr.symm
    change source (scan true r).1 ++ (scan true r).2 = r at ih
    rw [scan_opn, source_cons, List.append_assoc, ih]
    rfl
  | case5 sec c t hq ho hcl ih =>
    obtain ⟨rfl, r, hr⟩ := hcl
    obtain ⟨rfl, rfl⟩ : c = '!' ∧ t = '!' :: '>' :: r := by simpa using hr.symm
    change source (scan false r).1 ++ (scan false r).2 = r at ih
    rw [scan_cls, source_cons, List.append_assoc, ih]
    rfl
  | case6 sec c t hq ho hcl ih =>
    rw [scan_chr hq ho hcl, source_cons, List.append_assoc, ih]
    rfl

/-! ## Pieces that are no markers -/

section

variable {x : Piece} {ps : List Piece} {tail pre t : Text} {sec : Bool} {p q : Nat}
  {start : Option Nat} {secs : List CleanSection}

/-- A piece the text keeps. -/
def Piece.Kept (x : Piece) : Prop := x ≠ .opn ∧ x ≠ .cls

theorem Piece.Kept.source_eq (h : x.Kept) : x.source = x.bytes := by
  cases x with
  | lit s => rfl
  | chr c => rfl
  | opn => exact absurd rfl h.1
  | cls => exact absurd rfl h.2

theorem Piece.Kept.sections_cons (h : x.Kept) (p : Nat) (start : Option Nat) :
    sections p start (x :: ps) = sections (p + x.bytes.length) start ps := by
  cases x with
  | lit s => rfl
  | chr c => rfl
  | opn => exact absurd rfl h.1
  | cls => exact absurd rfl h.2

theorem Piece.Kept.endsOutside_cons (h : x.Kept) :
    endsOutside sec (x :: ps) = endsOutside sec ps := by
  cases x with
  | lit s => rfl
  | chr c => rfl
  | opn => exact absurd rfl h.1
  | cls => exact absurd rfl h.2

/-- A scan's first piece is kept, or it is the marker that counts where the scan stands. -/
theorem Scanned.cons_cases (h : Scanned tail sec (x :: ps)) :
    (x.Kept ∧ Scanned tail sec ps) ∨ (x = .opn ∧ sec = false ∧ Scanned tail true ps) ∨
      (x = .cls ∧ sec = true ∧ Scanned tail false ps) := by
  cases h with
  | quote _ _ _ h => exact Or.inl ⟨⟨nofun, nofun⟩, h⟩
  | dollar _ h => exact Or.inl ⟨⟨nofun, nofun⟩, h⟩
  | chr _ _ h => exact Or.inl ⟨⟨nofun, nofun⟩, h⟩
  | opn h => exact Or.inr (Or.inl ⟨rfl, rfl, h⟩)
  | cls h => exact Or.inr (Or.inr ⟨rfl, rfl, h⟩)

/-! ## The records are in order

A section is recorded when it is closed, at the end of the list, and its end is where the next one may
start at the earliest. -/

theorem end_le_of_mem_sections (hstart : ∀ a, start = some a → a ≤ p)
    {s : CleanSection} (h : s ∈ sections p start ps) :
    s.position + s.size ≤ p + (bytes ps).length := by
  induction ps generalizing p start with
  | nil => cases h
  | cons x ps ih =>
    rw [bytes_cons, List.length_append, ← Nat.add_assoc]
    cases x with
    | lit s => exact ih (fun a ha => Nat.le_add_right_of_le (hstart a ha)) h
    | chr c => exact ih (fun a ha => Nat.le_add_right_of_le (hstart a ha)) h
    | opn => exact ih (fun a ha => by cases ha; exact Nat.le_refl _) h
    | cls =>
      cases start with
      | none => exact ih (fun _ ha => by cases ha) h
      | some a =>
        have ha := hstart a rfl
        rcases List.mem_cons.mp h with rfl | h
        · show a + (p - a) ≤ _
          omega
        · exact ih (fun _ ha => by cases ha) h

theorem pairwise_sections (hstart : ∀ a, start = some a → a ≤ p) :
    (sections p start ps).Pairwise fun s s' => s.position + s.size ≤ s'.position := by
  induction ps generalizing p start with
  | nil => exact .nil
  | cons x ps ih =>
    cases x with
    | lit s => exact ih fun a ha => Nat.le_add_right_of_le (hstart a ha)
    | chr c => exact ih fun a ha => Nat.le_add_right_of_le (hstart a ha)
    | opn => exact ih fun a ha => by cases ha; exact Nat.le_refl _
    | cls =>
      cases start with
      | none => exact ih fun _ ha => by cases ha
      | some a =>
        have ha := hstart a rfl
        refine .cons (fun s hs => ?_) (ih fun _ ha => by cases ha)
        show a + (p - a) ≤ s.position
        have hle : p ≤ s.position := le_of_mem_sections (Nat.le_refl p) (fun _ ha => by cases ha) hs
        omega

/-! ## The markers, put back -/

/-- What stands in front of the first section is left as it is. -/
theorem putBack_append (h : ∀ s ∈ secs, p + pre.length ≤ s.position) :
    putBack p (pre ++ t) secs = pre ++ putBack (p + pre.length) t secs := by
  cases secs with
  | nil => rfl
  | cons s secs =>
    have hle := h s List.mem_cons_self
    obtain ⟨k, hk⟩ := Nat.exists_eq_add_of_le hle
    have hbefore : s.position - p = pre.length + k := by omega
    have hbefore' : s.position - (p + pre.length) = k := by omega
    simp only [putBack, hbefore, hbefore', List.append_assoc]
    rw [List.take_length_add_append, List.drop_length_add_append, Nat.add_assoc,
      List.drop_length_add_append, List.append_assoc]

/-- **Closed sections come back**, from outside of a section and from inside of one, of which
    `pre` was read. -/
theorem putBack_sections (hs : Scanned tail sec ps) (hend : endsOutside sec ps = true) :
    (sec = false → ∀ p, putBack p (bytes ps ++ tail) (sections p none ps) = source ps ++ tail) ∧
    (sec = true → ∀ p pre, putBack p (pre ++ (bytes ps ++ tail))
        (sections (p + pre.length) (some p) ps)
      = ['<', '!', '!'] ++ (pre ++ (source ps ++ tail))) := by
  induction ps generalizing sec with
  | nil =>
    refine ⟨fun _ p => rfl, fun hsec => ?_⟩
    subst hsec
    cases hend
  | cons x ps ih =>
    rcases hs.cons_cases with ⟨hx, hps⟩ | ⟨rfl, rfl, hps⟩ | ⟨rfl, rfl, hps⟩
    · rw [hx.endsOutside_cons] at hend
      obtain ⟨hout, hin⟩ := ih hps hend
      constructor
      · intro hsec p
        rw [hx.sections_cons, bytes_cons, List.append_assoc, putBack_append, hout hsec,
          source_cons, hx.source_eq, List.append_assoc]
        exact fun s hmem => le_of_mem_sections (Nat.le_refl _) (fun _ ha => by cases ha) hmem
      · intro hsec p pre
        have h := hin hsec p (pre ++ x.bytes)
        rw [List.length_append, ← Nat.add_assoc] at h
        rw [hx.sections_cons, bytes_cons, source_cons, hx.source_eq]
        simpa only [List.append_assoc] using h
    · refine ⟨fun _ p => ?_, nofun⟩
      exact (ih hps hend).2 rfl p []
    · refine ⟨nofun, fun _ p pre => ?_⟩
      have hout := (ih hps hend).1 rfl (p + pre.length)
      have hsize : p + pre.length - p = pre.length := Nat.add_sub_cancel_left ..
      show putBack p (pre ++ (bytes ps ++ tail))
        (⟨p, p + pre.length - p⟩ :: sections (p + pre.length) none ps) = _
      simp only [putBack, hsize, Nat.sub_self, List.take_zero, List.drop_zero, Nat.zero_add,
        List.take_left, List.drop_left, hout]
      simp [Piece.source]

/-! ## Counting bytes

A marker has three bytes, so a text that comes back has as many markers as its scan; with an opener
that is never closed it has three bytes too few. -/

theorem length_putBack : (putBack p t secs).length = t.length + 6 * secs.length := by
  induction secs generalizing p t with
  | nil => rfl
  | cons s secs ih =>
    simp only [putBack, List.length_append, List.length_take, List.length_drop, ih,
      List.length_cons, List.length_nil]
    omega

/-- A section that is closed has two markers, one that is not has one. -/
theorem length_source (hs : Scanned tail sec ps) (hstart : start.isSome = sec) :
    (source ps).length + 3 * sec.toNat + 3 * (endsOutside sec ps).toNat
      = (bytes ps).length + 6 * (sections p start ps).length + 3 := by
  induction ps generalizing sec start p with
  | nil => cases sec <;> rfl
  | cons x ps ih =>
    rcases hs.cons_cases with ⟨hx, hps⟩ | ⟨rfl, rfl, hps⟩ | ⟨rfl, rfl, hps⟩
    · have h := ih (p := p + x.bytes.length) hps hstart
      rw [hx.sections_cons, hx.endsOutside_cons, source_cons, bytes_cons, hx.source_eq,
        List.length_append, List.length_append]
      omega
    · have h := @ih true p (some p) hps rfl
      simp only [sections, endsOutside, source_cons, bytes_cons, Piece.source, Piece.bytes_opn,
        List.length_append, List.length_cons, List.length_nil, Bool.toNat_true,
        Bool.toNat_false] at h ⊢
      omega
    · obtain ⟨a, rfl⟩ := Option.isSome_iff_exists.mp hstart
      have h := @ih false p none hps rfl
      simp only [sections, endsOutside, source_cons, bytes_cons, Piece.source, Piece.bytes_cls,
        List.length_append, List.length_cons, List.length_nil, Bool.toNat_true,
        Bool.toNat_false] at h ⊢
      omega

end

/-! ## The whole pass -/

/-- The recorded sections lie inside of the text that is returned. -/
theorem sections_inside {text : Text} {s : CleanSection}
    (hmem : s ∈ sections 0 none (scan false text).1) :
    s.position + s.size ≤ (bytes (scan false text).1 ++ (scan false text).2).length := by
  have hle := end_le_of_mem_sections (fun _ ha => by cases ha) hmem
  rw [List.length_append]
  omega

variable {κ : Type} [Caret κ]

/-- **`preprocess` and its records**: the sections are in order, do not overlap and lie inside
    the text that is returned; and their markers, put back, give the source exactly if the
    source closes every section that it opens. -/
theorem preprocess_putBack_iff [LawfulCaret κ] (text : Text) :
    ∃ processed cleanSections, preprocess κ text = some (processed, cleanSections) ∧
      cleanSections.Pairwise (fun s s' => s.position + s.size ≤ s'.position) ∧
      (∀ s ∈ cleanSections, s.position + s.size ≤ processed.length) ∧
      (putBack 0 processed cleanSections = text ↔ sectionsClosed text = true) := by
  obtain ⟨hs, -⟩ := scan_scanned false text
  have hsource := source_scan false text
  have heq : preprocess κ text = some (bytes (scan false text).1 ++ (scan false text).2,
      sections 0 none (scan false text).1) := by rw [preprocess_eq, preprocess_eq_scan]
  refine ⟨_, _, heq, pairwise_sections (fun _ ha => by cases ha), fun s => sections_inside, ?_⟩
  constructor
  · intro hback
    -- an opener that is recorded nowhere leaves the text three bytes short
    have hlen := congrArg List.length (hback.trans hsource.symm)
    rw [length_putBack, List.length_append, List.length_append] at hlen
    have hcount := @length_source _ _ _ 0 none hs rfl
    unfold sectionsClosed
    by_contra hopen
    rw [Bool.not_eq_true] at hopen
    rw [hopen, Bool.toNat_false] at hcount
    omega
  · intro hclosed
    rw [(putBack_sections hs hclosed).1 rfl 0, hsource]

theorem preprocess_putBack_iff_sections :
    ∃ processed cleanSections,
      preprocess TextCaret "<!!!!>a<!!'!!>'!!>".toList = some (processed, cleanSections) ∧
      cleanSections.Pairwise (fun s s' => s.position + s.size ≤ s'.position) ∧
      (∀ s ∈ cleanSections, s.position + s.size ≤ processed.length) ∧
      (putBack 0 processed cleanSections = "<!!!!>a<!!'!!>'!!>".toList ↔
        sectionsClosed "<!!!!>a<!!'!!>'!!>".toList = true) :=
  preprocess_putBack_iff _

/-- The section is never closed: its opener is gone, and nothing is recorded. -/
theorem preprocess_loses_opener :
    preprocess TextCaret "a<!!b".toList = some ("ab".toList, []) ∧
    putBack 0 "ab".toList [] ≠ "a<!!b".toList := by
  decide +kernel

end OatppSqlite.Template
