import OatppSqlite.Template.Format

/-!
# Templates put together from segments

A program that builds its templates writes plain text and variables in turn: `assemble` is such
a text. As long as the plain stretches hold nothing the parser looks at, and each of them cuts
off the name in front of it (`Segmented`), the parser finds exactly the variables that were
written, and the prepared text has a `?` in the place of each.

A template without sections or strings is one text for both passes, so all there is to show is that
the scan of it meets single bytes (`scan_assemble`). The rest is by induction on the segments, with
the positions of variables and of `?`s counted along.
-/

set_option autoImplicit false

namespace OatppSqlite.Template

/-- For each segment its plain stretch, then `:` and its name; `after` is the rest. -/
def assemble (after : Text) : List (Text × Text) → Text
  | [] => after
  | (before, name) :: segments => before ++ ':' :: (name ++ assemble after segments)

/-- The same text with a `?` for each variable. -/
def assemblePrepared (after : Text) : List (Text × Text) → Text
  | [] => after
  | (before, _) :: segments => before ++ '?' :: assemblePrepared after segments

/-- Where the variables stand in the text, from `p` on. -/
def assembledVariables (p : Nat) : List (Text × Text) → List Variable
  | [] => []
  | (before, name) :: segments =>
    ⟨p + before.length, p + before.length + name.length, some name⟩ ::
      assembledVariables (p + before.length + name.length + 1) segments

/-- Where the `?`s stand in the prepared text, from `out` on. -/
def assembledPlaceholders (out : Nat) : List (Text × Text) → List Nat
  | [] => []
  | (before, _) :: segments =>
    (out + before.length) :: assembledPlaceholders (out + before.length + 1) segments

/-- Nothing in it starts a variable, a string or a section. -/
def Plain (t : Text) : Prop := ∀ a ∈ t, a ≠ ':' ∧ a ≠ '\'' ∧ a ≠ '$' ∧ a ≠ '<'

instance (t : Text) : Decidable (Plain t) := List.decidableBAll _ t

/-- The stretches are plain, the names are names, and each ends where it was meant to. -/
def Segmented (after : Text) : List (Text × Text) → Prop
  | [] => Plain after
  | (before, name) :: segments =>
    Plain before ∧ (∀ a ∈ name, isAllowedChar a = true) ∧
      (∀ a, (assemble after segments).head? = some a → isAllowedChar a = false) ∧
      Segmented after segments

section

variable {t u after name : Text} {segments : List (Text × Text)} {p : Nat} {a : Char}

theorem plain_of_allowed (h : ∀ a ∈ name, isAllowedChar a = true) : Plain name := by
  intro a ha
  have hal := h a ha
  refine ⟨?_, ?_, ?_, ?_⟩ <;> rintro rfl <;> revert hal <;> decide

/-- The scan passes a plain stretch byte by byte. -/
theorem scan_append_of_plain (h : ∀ a ∈ u, a ≠ '\'' ∧ a ≠ '$' ∧ a ≠ '<') :
    scan false (u ++ t) = (u.map .chr ++ (scan false t).1, (scan false t).2) := by
  induction u with
  | nil => rfl
  | cons a u ih =>
    obtain ⟨hq, hd, hl⟩ := h a List.mem_cons_self
    have hopen : ¬ (false = false ∧ ['<', '!', '!'] <+: a :: (u ++ t)) := by
      rintro ⟨-, hpre⟩
      exact hl (List.cons_prefix_cons.mp hpre).1.symm
    rw [List.cons_append, scan_chr (by rintro (h | h); exacts [hq h, hd h]) hopen (by simp),
      ih fun b hb => h b (List.mem_cons_of_mem _ hb)]
    rfl

/-- **The scan of an assembled text** meets bytes only. -/
theorem scan_assemble (h : Segmented after segments) :
    scan false (assemble after segments) = ((assemble after segments).map .chr, []) := by
  induction segments with
  | nil =>
    have := scan_append_of_plain (t := []) fun a ha => (h a ha).2
    simpa [assemble] using this
  | cons segment segments ih =>
    obtain ⟨before, name⟩ := segment
    obtain ⟨hbefore, hname, -, hrest⟩ := h
    have hhead : ∀ a ∈ before ++ ':' :: name, a ≠ '\'' ∧ a ≠ '$' ∧ a ≠ '<' := by
      intro a ha
      rcases List.mem_append.mp ha with ha | ha
      · exact (hbefore a ha).2
      · rcases List.mem_cons.mp ha with rfl | ha
        · decide
        · exact (plain_of_allowed hname a ha).2
    have htext : assemble after ((before, name) :: segments)
        = (before ++ ':' :: name) ++ assemble after segments := by
      simp [assemble]
    rw [htext, scan_append_of_plain hhead, ih hrest, ← List.map_append]

theorem foundVariables_append_of_plain (h : ∀ a ∈ u, a ≠ ':') :
    foundVariables [] p false ((u ++ t).map .chr)
      = foundVariables [] (p + u.length) false (t.map .chr) := by
  induction u generalizing p with
  | nil => rfl
  | cons a u ih =>
    have ha : ¬ (a = ':' ∧ (false : Bool) = false) := fun hc => h a List.mem_cons_self hc.1
    rw [List.cons_append, List.map_cons, foundVariables, if_neg ha,
      ih fun b hb => h b (List.mem_cons_of_mem _ hb), List.length_cons]
    congr 1
    omega

theorem bytes_map_chr (t : Text) : bytes (t.map .chr) = t := by
  induction t with
  | nil => rfl
  | cons a t ih => rw [List.map_cons, bytes_cons, ih]; rfl

/-- Where no marker was erased, no name is glued. -/
theorem nameGlued_map_chr (t : Text) : nameGlued [] (t.map .chr) = false := by
  induction t with
  | nil => rfl
  | cons a t ih => rw [List.map_cons, nameGlued, ih, Bool.and_false]

theorem takeWhile_name (hname : ∀ a ∈ name, isAllowedChar a = true)
    (hstop : ∀ a, t.head? = some a → isAllowedChar a = false) :
    (name ++ t).takeWhile isAllowedChar = name := by
  rw [List.takeWhile_append_of_pos hname]
  cases t with
  | nil => simp
  | cons a t => rw [List.takeWhile_cons_of_neg (by simp [hstop a rfl]), List.append_nil]

/-- **The parser finds the variables that were written.** -/
theorem foundVariables_assemble (h : Segmented after segments) :
    foundVariables [] p false ((assemble after segments).map .chr)
      = assembledVariables p segments := by
  induction segments generalizing p with
  | nil =>
    have := foundVariables_append_of_plain (t := []) (p := p) fun a ha => (h a ha).1
    simpa [assemble, foundVariables, assembledVariables] using this
  | cons segment segments ih =>
    obtain ⟨before, name⟩ := segment
    obtain ⟨hbefore, hname, hstop, hrest⟩ := h
    -- the name ends where its run of allowed bytes does
    have hrun := takeWhile_name hname hstop
    have herased : erasedName [] ((name ++ assemble after segments).map .chr) = name := by
      rw [erasedName, bytes_map_chr, List.append_nil, hrun]
    rw [assemble, foundVariables_append_of_plain fun a ha => (hbefore a ha).1, List.map_cons,
      foundVariables, if_pos ⟨rfl, rfl⟩, herased, nameGlued_map_chr, if_neg Bool.false_ne_true,
      foundVariables_append_of_plain fun a ha => (plain_of_allowed hname a ha).1, ih hrest,
      assembledVariables]
    congr 2
    omega

/-- **The prepared text** has a `?` for each variable, -/
theorem weave_assemble {text : Text} {i : Nat} (h : text.drop p = assemble after segments) :
    weave getValue text p i (assembledVariables p segments)
      = assemblePrepared after segments := by
  induction segments generalizing p i with
  | nil => exact h
  | cons segment segments ih =>
    obtain ⟨before, name⟩ := segment
    have hrest : text.drop (p + before.length + name.length + 1) = assemble after segments := by
      have hsum : p + before.length + name.length + 1 = p + (before ++ ':' :: name).length := by
        rw [List.length_append, List.length_cons]
        omega
      have htext : assemble after ((before, name) :: segments)
          = (before ++ ':' :: name) ++ assemble after segments := by
        simp [assemble]
      rw [hsum, ← List.drop_drop, h, htext, List.drop_left]
    rw [assembledVariables, weave_cons, ih hrest, h]
    show (before ++ _).take (p + before.length - p) ++ _ = _
    rw [Nat.add_sub_cancel_left, List.take_left]
    rfl

/-- and the placeholders stand where these `?`s are. -/
theorem placeholders_assembled (out : Nat) :
    placeholders p out (assembledVariables p segments) = assembledPlaceholders out segments := by
  induction segments generalizing p out with
  | nil => rfl
  | cons segment segments ih =>
    obtain ⟨before, name⟩ := segment
    rw [assembledVariables, placeholders, ih, assembledPlaceholders]
    show (out + (p + before.length - p)) :: assembledPlaceholders (out + (p + before.length - p) + 1)
      segments = _
    rw [Nat.add_sub_cancel_left]

end

end OatppSqlite.Template
