import OatppSqlite.Template.Correct
import OatppSqlite.Sqlite.Parameters

/-!
# The prepared template

oatpp's `StringTemplate::format` is not code of this repository, so it is a parameter
(`FormatFn`), relied on through its documentation: where the variables' spans lie in order inside
the text, it copies what stands between them and writes a value for each (`LawfulFormat`).

That the spans do lie so is a fact about `parseTemplate`, and it is proved here from what a
variable is (`IsVariable`): a `:` with the maximal run of allowed bytes behind it. Two of them
that start at different places cannot overlap. With the provider's value, which is `?` for
every variable, `weave` leaves one `?` per variable (`placeholders`), and no digit ever follows
it.
-/

set_option autoImplicit false

namespace OatppSqlite.Template

open Caret

/-! ## Formatting

`weave` is what the documentation of `StringTemplate::format` describes. Spans that overlap or are out
of order are not its concern, and for them nothing is assumed of `format`. -/

/-- `StringTemplate::format` with a value for each variable and its index; `none` is its
    "invalid variable position" exception. -/
abbrev FormatFn := StringTemplate → (Variable → Nat → Text) → Option Text

/-- The text between the spans, from `p` on, with the values in their places; `i` is the index
    of the next variable. -/
def weave (value : Variable → Nat → Text) (text : Text) (p i : Nat) : List Variable → Text
  | [] => text.drop p
  | v :: vs =>
    (text.drop p).take (v.posStart - p) ++ (value v i ++ weave value text (v.posEnd + 1) (i + 1) vs)

theorem weave_cons (value : Variable → Nat → Text) (text : Text) (p i : Nat) (v : Variable)
    (vs : List Variable) : weave value text p i (v :: vs) = (text.drop p).take (v.posStart - p)
      ++ (value v i ++ weave value text (v.posEnd + 1) (i + 1) vs) := rfl

/-- The spans lie inside the text, one behind the other. -/
def SpansInOrder (text : Text) (p : Nat) : List Variable → Prop
  | [] => p ≤ text.length
  | v :: vs => p ≤ v.posStart ∧ v.posStart ≤ v.posEnd ∧ SpansInOrder text (v.posEnd + 1) vs

/-- **What is relied on of `format`.** -/
def LawfulFormat (format : FormatFn) : Prop :=
  ∀ st value, SpansInOrder st.text 0 st.templateVariables →
    format st value = some (weave value st.text 0 0 st.templateVariables)

/-- `TemplateValueProvider::getValue`. -/
def getValue (_ : Variable) (_ : Nat) : Text := ['?']

/-- Where the values of `getValue` stand in the formatted text, when `out` bytes of it are
    written for the first `p` of the template. -/
def placeholders (p out : Nat) : List Variable → List Nat
  | [] => []
  | v :: vs =>
    (out + (v.posStart - p)) :: placeholders (v.posEnd + 1) (out + (v.posStart - p) + 1) vs

/-- The variables written back over the bytes at the given places of what is left of the text
    from position `p` on. -/
def nameBack (p : Nat) (text : Text) : List Nat → List Variable → Text
  | q :: qs, v :: vs =>
    text.take (q - p) ++ (':' :: v.name.getD []) ++ nameBack (q + 1) (text.drop (q - p + 1)) qs vs
  | _, _ => text

/-! ## What a variable is -/

/-- A `:` and the maximal run of `[A-Za-z0-9_.]` behind it. -/
def IsVariable (text : Text) (v : Variable) : Prop :=
  ∃ t, text.drop v.posStart = ':' :: t ∧
    v.posEnd = v.posStart + (t.takeWhile isAllowedChar).length ∧
    v.name = some (t.takeWhile isAllowedChar)

/-- The bytes of a span, the one at `posEnd` included. -/
def spanText (text : Text) (v : Variable) : Text :=
  (text.drop v.posStart).take (v.posEnd + 1 - v.posStart)

section

variable {text tail : Text} {ps : List Piece} {p : Nat} {b : Bool} {v w : Variable}
  {vs : List Variable}

theorem isVariable_of_drop (h : text.drop p = bytes (.chr ':' :: ps) ++ tail) :
    IsVariable text ⟨p, p + (erasedName tail ps).length, some (erasedName tail ps)⟩ :=
  ⟨bytes ps ++ tail, h, rfl, rfl⟩

theorem drop_lit {s : Text} (h : text.drop p = bytes (.lit s :: ps) ++ tail) :
    text.drop (p + s.length) = bytes ps ++ tail := by
  rw [← List.drop_drop, h, bytes_cons, Piece.bytes_lit, List.append_assoc, List.drop_left]

theorem drop_chr {a : Char} (h : text.drop p = bytes (.chr a :: ps) ++ tail) :
    text.drop (p + 1) = bytes ps ++ tail :=
  (List.drop_eq_cons_iff.mp h).2

theorem allVariables_spec (h : text.drop p = bytes ps ++ tail) :
    (∀ v ∈ allVariables tail p ps, IsVariable text v ∧ p ≤ v.posStart) ∧
    (allVariables tail p ps).Pairwise (fun v w => v.posStart < w.posStart) := by
  induction ps generalizing p with
  | nil => exact ⟨fun v hv => (by cases hv), .nil⟩
  | cons x ps ih =>
    cases x with
    | lit s =>
      obtain ⟨hmem, hpair⟩ := ih (drop_lit h)
      exact ⟨fun v hv => ⟨(hmem v hv).1, (Nat.le_add_right _ _).trans (hmem v hv).2⟩, hpair⟩
    | opn => exact ih h
    | cls => exact ih h
    | chr a =>
      obtain ⟨hmem, hpair⟩ := ih (drop_chr h)
      unfold allVariables
      split
      · rename_i ha
        subst ha
        refine ⟨fun v hv => ?_, .cons (fun v hv => (hmem v hv).2) hpair⟩
        rcases List.mem_cons.mp hv with rfl | hv
        · exact ⟨isVariable_of_drop h, Nat.le_refl p⟩
        · exact ⟨(hmem v hv).1, Nat.le_of_succ_le (hmem v hv).2⟩
      · exact ⟨fun v hv => ⟨(hmem v hv).1, Nat.le_of_succ_le (hmem v hv).2⟩, hpair⟩

theorem foundVariables_spec (h : text.drop p = bytes ps ++ tail) :
    (∀ v ∈ foundVariables tail p b ps, IsVariable text v ∧ p ≤ v.posStart) ∧
    (foundVariables tail p b ps).Pairwise (fun v w => v.posStart < w.posStart) := by
  induction ps generalizing p b with
  | nil => exact ⟨fun v hv => (by cases hv), .nil⟩
  | cons x ps ih =>
    cases x with
    | lit s =>
      unfold foundVariables
      split
      · obtain ⟨hmem, hpair⟩ := allVariables_spec (drop_lit h)
        exact ⟨fun v hv => ⟨(hmem v hv).1, (Nat.le_add_right _ _).trans (hmem v hv).2⟩, hpair⟩
      · obtain ⟨hmem, hpair⟩ := ih (b := b) (drop_lit h)
        exact ⟨fun v hv => ⟨(hmem v hv).1, (Nat.le_add_right _ _).trans (hmem v hv).2⟩, hpair⟩
    | opn =>
      unfold foundVariables
      split
      · exact ih h
      · exact allVariables_spec (show text.drop p = bytes ps ++ tail from h)
    | cls => exact ih h
    | chr a =>
      -- what follows starts behind this byte, whichever way it is collected
      have hrest : ∀ l, (l = allVariables tail (p + 1) ps ∨ l = foundVariables tail (p + 1) b ps) →
          (∀ v ∈ l, IsVariable text v ∧ p + 1 ≤ v.posStart) ∧
          l.Pairwise (fun v w => v.posStart < w.posStart) := by
        rintro l (rfl | rfl)
        · exact allVariables_spec (drop_chr h)
        · exact ih (drop_chr h)
      unfold foundVariables
      split
      · rename_i ha
        obtain ⟨rfl, -⟩ := ha
        obtain ⟨hmem, hpair⟩ := hrest (if nameGlued tail ps then allVariables tail (p + 1) ps
          else foundVariables tail (p + 1) b ps) (by split <;> simp)
        refine ⟨fun v hv => ?_, .cons (fun v hv => (hmem v hv).2) hpair⟩
        rcases List.mem_cons.mp hv with rfl | hv
        · exact ⟨isVariable_of_drop h, Nat.le_refl p⟩
        · exact ⟨(hmem v hv).1, Nat.le_of_succ_le (hmem v hv).2⟩
      · obtain ⟨hmem, hpair⟩ := hrest _ (Or.inr rfl)
        exact ⟨fun v hv => ⟨(hmem v hv).1, Nat.le_of_succ_le (hmem v hv).2⟩, hpair⟩

theorem IsVariable.posEnd_lt (h : IsVariable text v) : v.posEnd < text.length := by
  obtain ⟨t, hdrop, hend, -⟩ := h
  have hlen : (text.drop v.posStart).length = t.length + 1 := by rw [hdrop]; rfl
  have htake : (t.takeWhile isAllowedChar).length ≤ t.length :=
    (List.takeWhile_sublist _).length_le
  rw [List.length_drop] at hlen
  omega

/-- A name holds no `:`, so a variable that starts later starts behind the whole span. -/
theorem IsVariable.posEnd_lt_posStart (hv : IsVariable text v) (hw : IsVariable text w)
    (hlt : v.posStart < w.posStart) : v.posEnd < w.posStart := by
  obtain ⟨t, hdrop, hend, -⟩ := hv
  obtain ⟨u, hdrop', -, -⟩ := hw
  by_contra hle
  -- the `:` of `w` would be one of the allowed bytes behind the `:` of `v`
  obtain ⟨j, hj⟩ := Nat.exists_eq_add_of_lt hlt
  have hcolon : t.drop j = ':' :: u := by
    have hsplit : text.drop w.posStart = (text.drop v.posStart).drop (j + 1) := by
      rw [List.drop_drop, hj]
      congr 1
    rw [← hdrop', hsplit, hdrop, List.drop_succ_cons]
  have hlen : j < (t.takeWhile isAllowedChar).length := by omega
  have hmem : ':' ∈ t.takeWhile isAllowedChar := by
    obtain ⟨r, hr⟩ : t.takeWhile isAllowedChar <+: t := List.takeWhile_prefix _
    rw [← hr, List.drop_append_of_le_length hlen.le, List.drop_eq_getElem_cons hlen,
      List.cons_append] at hcolon
    rw [← (List.cons.inj hcolon).1]
    exact List.getElem_mem hlen
  exact absurd (List.mem_takeWhile_imp hmem) (by decide)

theorem IsVariable.drop_posEnd (h : IsVariable text v) :
    text.drop v.posStart = (':' :: v.name.getD []) ++ text.drop (v.posEnd + 1) := by
  obtain ⟨t, hdrop, hend, hname⟩ := h
  have hrest : text.drop (v.posEnd + 1) = t.drop (t.takeWhile isAllowedChar).length := by
    rw [hend, Nat.add_assoc, ← List.drop_drop, hdrop, List.drop_succ_cons]
  have hprefix : t.takeWhile isAllowedChar
      ++ t.drop (t.takeWhile isAllowedChar).length = t := by
    obtain ⟨r, hr⟩ := List.takeWhile_prefix isAllowedChar (l := t)
    calc t.takeWhile isAllowedChar ++ t.drop (t.takeWhile isAllowedChar).length
        = t.takeWhile isAllowedChar
            ++ (t.takeWhile isAllowedChar ++ r).drop (t.takeWhile isAllowedChar).length := by
          rw [hr]
      _ = t := by rw [List.drop_left, hr]
  rw [hdrop, hrest, hname, Option.getD_some, List.cons_append, hprefix]

theorem IsVariable.posEnd_eq (h : IsVariable text v) :
    v.posEnd + 1 - v.posStart = (':' :: v.name.getD []).length := by
  obtain ⟨t, -, hend, hname⟩ := h
  rw [hname, hend, Option.getD_some, List.length_cons]
  omega

/-- **A span is a `:` and its name,** which is the maximal run of the bytes a name may have. -/
theorem IsVariable.span (h : IsVariable text v) :
    v.posStart ≤ v.posEnd ∧ v.posEnd < text.length ∧ spanText text v = ':' :: v.name.getD [] ∧
      v.name = some ((text.drop (v.posStart + 1)).takeWhile isAllowedChar) := by
  refine ⟨?_, h.posEnd_lt, ?_, ?_⟩
  · obtain ⟨t, -, hend, -⟩ := h
    rw [hend]
    exact Nat.le_add_right _ _
  · rw [spanText, h.posEnd_eq, h.drop_posEnd, List.take_left]
  · obtain ⟨t, hdrop, -, hname⟩ := h
    rw [hname, ← List.drop_drop, hdrop]
    rfl

theorem pairwise_posEnd (hvs : ∀ v ∈ vs, IsVariable text v)
    (hpair : vs.Pairwise fun v w => v.posStart < w.posStart) :
    vs.Pairwise fun v w => v.posEnd < w.posStart :=
  hpair.imp_of_mem fun hv hw hlt => (hvs _ hv).posEnd_lt_posStart (hvs _ hw) hlt

/-- **The spans of the variables lie in order inside the text.** -/
theorem spansInOrder (hvs : ∀ v ∈ vs, IsVariable text v)
    (hpair : vs.Pairwise fun v w => v.posStart < w.posStart) (hp : p ≤ text.length)
    (hle : ∀ v ∈ vs, p ≤ v.posStart) : SpansInOrder text p vs := by
  induction vs generalizing p with
  | nil => exact hp
  | cons v vs ih =>
    have hv := hvs v List.mem_cons_self
    obtain ⟨hlt, hpair⟩ := List.pairwise_cons.mp hpair
    refine ⟨hle v List.mem_cons_self, ?_, ih (fun w hw => hvs w (List.mem_cons_of_mem _ hw)) hpair
      hv.posEnd_lt fun w hw => ?_⟩
    · obtain ⟨t, -, hend, -⟩ := hv
      rw [hend]
      exact Nat.le_add_right _ _
    · exact hv.posEnd_lt_posStart (hvs w (List.mem_cons_of_mem _ hw)) (hlt w hw)

/-! ## The placeholders of a prepared template -/

@[simp] theorem length_placeholders (p out : Nat) :
    (placeholders p out vs).length = vs.length := by
  induction vs generalizing p out with
  | nil => rfl
  | cons v vs ih => exact congrArg (· + 1) (ih _ _)

theorem le_of_mem_placeholders {out q : Nat} (h : q ∈ placeholders p out vs) : out ≤ q := by
  induction vs generalizing p out with
  | nil => cases h
  | cons v vs ih =>
    rcases List.mem_cons.mp h with rfl | h
    · exact Nat.le_add_right _ _
    · exact Nat.le_trans (Nat.le_add_right _ _) (Nat.le_of_succ_le (ih h))

theorem pairwise_placeholders (p out : Nat) : (placeholders p out vs).Pairwise (· < ·) := by
  induction vs generalizing p out with
  | nil => exact .nil
  | cons v vs ih => exact .cons (fun q hq => le_of_mem_placeholders hq) (ih _ _)

theorem isAllowedChar_of_isDigit {a : Char} (h : Sqlite.isDigit a = true) :
    isAllowedChar a = true := by
  simp only [Sqlite.isDigit, Bool.and_eq_true, decide_eq_true_eq] at h
  simp [isAllowedChar, h.1, h.2]

/-- What `weave` goes on with behind a variable is no digit: the name before it was maximal. -/
theorem head_weave (hv : IsVariable text v) (i : Nat) :
    (weave getValue text (v.posEnd + 1) i vs).head?.any Sqlite.isDigit = false := by
  have hstop : (text.drop (v.posEnd + 1)).head?.any Sqlite.isDigit = false := by
    obtain ⟨t, hdrop, hend, -⟩ := hv
    have hrest : text.drop (v.posEnd + 1) = t.dropWhile isAllowedChar := by
      have hsplit : text.drop (v.posEnd + 1)
          = (text.drop v.posStart).drop ((t.takeWhile isAllowedChar).length + 1) := by
        rw [List.drop_drop, hend, Nat.add_assoc]
      have ht := List.takeWhile_append_dropWhile (p := isAllowedChar) (l := t)
      rw [hsplit, hdrop, List.drop_succ_cons]
      calc t.drop (t.takeWhile isAllowedChar).length
          = (t.takeWhile isAllowedChar ++ t.dropWhile isAllowedChar).drop
              (t.takeWhile isAllowedChar).length := by rw [ht]
        _ = t.dropWhile isAllowedChar := List.drop_left
    rw [hrest]
    cases ht : t.dropWhile isAllowedChar with
    | nil => rfl
    | cons a u =>
      have ha : isAllowedChar a = false := by
        have := List.head?_dropWhile_not isAllowedChar t
        rw [ht] at this
        simpa using this
      show Sqlite.isDigit a = false
      cases hd : Sqlite.isDigit a with
      | false => rfl
      | true => exact absurd (isAllowedChar_of_isDigit hd) (by simp [ha])
  cases vs with
  | nil => exact hstop
  | cons w vs =>
    rw [weave_cons]
    cases hk : w.posStart - (v.posEnd + 1) with
    | zero => rfl
    | succ k =>
      cases ht : text.drop (v.posEnd + 1) with
      | nil => rfl
      | cons a u =>
        rw [ht] at hstop
        exact hstop

/-- **Each placeholder is a `?` with no digit behind it**, in whatever text the formatted one
    is written into. -/
theorem drop_placeholder (hvs : ∀ v ∈ vs, IsVariable text v) (pre : Text) (i : Nat)
    (hsp : SpansInOrder text p vs) {q : Nat} (hq : q ∈ placeholders p pre.length vs) :
    ∃ t, (pre ++ weave getValue text p i vs).drop q = '?' :: t ∧
      t.head?.any Sqlite.isDigit = false := by
  induction vs generalizing p pre i with
  | nil => cases hq
  | cons v vs ih =>
    have hv := hvs v List.mem_cons_self
    obtain ⟨hle, -, hsp⟩ := hsp
    have hlen : ((text.drop p).take (v.posStart - p)).length = v.posStart - p := by
      have hend := hv.posEnd_lt
      obtain ⟨t, -, hpos, -⟩ := hv
      rw [List.length_take, List.length_drop]
      omega
    rcases List.mem_cons.mp hq with rfl | hq
    · refine ⟨weave getValue text (v.posEnd + 1) (i + 1) vs, ?_, head_weave hv (i + 1)⟩
      rw [weave_cons, ← List.append_assoc]
      have hpre : pre.length + (v.posStart - p)
          = (pre ++ (text.drop p).take (v.posStart - p)).length := by
        rw [List.length_append, hlen]
      rw [hpre, List.drop_left]
      rfl
    · have hpre : (pre ++ ((text.drop p).take (v.posStart - p) ++ ['?'])).length
          = pre.length + (v.posStart - p) + 1 := by
        rw [List.length_append, List.length_append, hlen]
        rfl
      have := ih (fun w hw => hvs w (List.mem_cons_of_mem _ hw))
        (pre ++ ((text.drop p).take (v.posStart - p) ++ ['?'])) (i + 1) hsp (by rwa [hpre])
      simpa [weave, getValue] using this

/-- **The names put back give the text again**, from any place on. -/
theorem nameBack_weave (hvs : ∀ v ∈ vs, IsVariable text v) (hsp : SpansInOrder text p vs)
    (out i : Nat) :
    nameBack out (weave getValue text p i vs) (placeholders p out vs) vs = text.drop p := by
  induction vs generalizing p out i with
  | nil => rfl
  | cons v vs ih =>
    obtain ⟨hle, -, hsp⟩ := hsp
    have hv := hvs v List.mem_cons_self
    obtain ⟨k, hk⟩ := Nat.exists_eq_add_of_le hle
    have hbefore : v.posStart - p = k := by omega
    have hlen : ((text.drop p).take k).length = k := by
      have hend := hv.posEnd_lt
      have hspan := hv.span.1
      rw [List.length_take, List.length_drop]
      omega
    have hrest : nameBack (out + k + 1) (weave getValue text (v.posEnd + 1) (i + 1) vs)
        (placeholders (v.posEnd + 1) (out + k + 1) vs) vs = text.drop (v.posEnd + 1) :=
      ih (fun w hw => hvs w (List.mem_cons_of_mem _ hw)) hsp _ _
    have htake : ((text.drop p).take k
        ++ ('?' :: weave getValue text (v.posEnd + 1) (i + 1) vs)).take k
        = (text.drop p).take k := List.take_left' hlen
    have hdrop : ((text.drop p).take k
        ++ ('?' :: weave getValue text (v.posEnd + 1) (i + 1) vs)).drop (k + 1)
        = weave getValue text (v.posEnd + 1) (i + 1) vs := by
      rw [← List.drop_drop, List.drop_left' hlen]
      rfl
    rw [weave_cons, placeholders, hbefore, nameBack, Nat.add_sub_cancel_left]
    show ((text.drop p).take k
        ++ ('?' :: weave getValue text (v.posEnd + 1) (i + 1) vs)).take k ++ _
      ++ nameBack (out + k + 1) (((text.drop p).take k
        ++ ('?' :: weave getValue text (v.posEnd + 1) (i + 1) vs)).drop (k + 1)) _ _ = _
    rw [htake, hdrop, hrest, List.append_assoc, ← hv.drop_posEnd, hk, ← List.drop_drop,
      List.take_append_drop]

end

end OatppSqlite.Template
