import OatppSqlite.Executor.Params

/-!
# Dotted names

`parseQueryParameter` cuts a name at its first dot, and the loop over the rest is
`List.splitOn`, one segment a pass. A name is of one of two kinds, and there is a lemma for each:
without a dot, and a segment with a dot behind it. A dot that is the last byte is what the guard
of the loop leaves out.
-/

set_option autoImplicit false

namespace OatppSqlite.Executor

open Caret Mapping Template

/-! ## At any caret -/

section

variable {κ : Type} [Caret κ] [LawfulCaret κ]

theorem propertyPathBody_view (s : κ × List Text) :
    (propertyPathBody s).map (Loop.Step.map (Prod.map view id) id)
      = propertyPathBody (Prod.map view id s) := by
  obtain ⟨c, path⟩ := s
  unfold propertyPathBody
  simp only [Prod.map, id, inc_view, findChar_fst, getPosition_view, getDataSize_view, labelText_eq]
  split <;> rfl

/-- **`parseQueryParameter` computes the same on every lawful caret.** -/
theorem parseQueryParameter_textCaret (paramName : Text) :
    parseQueryParameter κ paramName = parseQueryParameter TextCaret paramName := by
  unfold parseQueryParameter
  simp only [← view_ofText (κ := κ) paramName, findChar_fst, getPosition_view]
  rcases findChar (ofText paramName : κ) '.' with ⟨⟨⟩, c⟩
  · simp only [labelText_eq]
  · have hrun := Loop.run_map (propertyPathBody_view (κ := κ)) (passes c) (c, [])
    simp only [Prod.map, id] at hrun
    simp only [getPosition_view, getDataSize_view, labelText_eq, passes_view, ← hrun]
    split
    · cases Loop.run propertyPathBody (passes c) (c, []) <;> rfl
    · rfl

end

/-! ## The loop

Each pass steps over a dot and reads one segment, up to the next dot or to the end, and what is left
decides whether there is another pass. A dot at the end has an empty segment behind it, as it has for
`List.splitOn`. -/

section

variable {c : TextCaret} {path : List Text} {s r : Text} {n : Nat}

theorem length_of_drop (hc : c.data.drop c.position = '.' :: r) :
    c.data.length = c.position + 1 + r.length := by
  have := congrArg List.length hc
  rw [List.length_drop, List.length_cons] at this
  omega

variable (path) in
/-- One pass, with the caret at a dot: the label is put behind it, and what it names ends at the
    next dot or at the end. -/
theorem propertyPathBody_eq (hc : c.data.drop c.position = '.' :: r) :
    propertyPathBody (c, path) =
      if r.idxOf '.' < r.length then
        some (.next (⟨c.data, c.position + 1 + r.idxOf '.', c.error⟩,
          path ++ [r.take (r.idxOf '.')]))
      else some (.exit (path ++ [r.take (r.idxOf '.')])) := by
  have hr : c.data.drop (c.position + 1) = r := (List.drop_eq_cons_iff.mp hc).2
  have hlabel : (c.data.take (c.position + 1 + r.idxOf '.')).drop (c.position + 1)
      = r.take (r.idxOf '.') := by
    rw [List.drop_take, hr, Nat.add_sub_cancel_left]
  have hmore : c.position + 1 + r.idxOf '.' < c.data.length ↔ r.idxOf '.' < r.length := by
    rw [length_of_drop hc]
    exact Nat.add_lt_add_iff_left
  unfold propertyPathBody
  show (if c.position + 1 + (c.data.drop (c.position + 1)).idxOf '.' < c.data.length then
      some (Loop.Step.next ((⟨c.data, c.position + 1 + (c.data.drop (c.position + 1)).idxOf '.',
        c.error⟩ : TextCaret), path ++ [(c.data.take (c.position + 1
          + (c.data.drop (c.position + 1)).idxOf '.')).drop (c.position + 1)]))
    else some (.exit (path ++ [(c.data.take (c.position + 1
      + (c.data.drop (c.position + 1)).idxOf '.')).drop (c.position + 1)]))) = _
  rw [hr, hlabel]
  simp only [hmore]

theorem idxOf_append_dot (hs : '.' ∉ s) : (s ++ '.' :: r).idxOf '.' = s.length := by
  rw [List.idxOf_append_of_notMem hs, List.idxOf_cons_self, Nat.add_zero]

/-- **The loop splits at every dot.** -/
theorem run_propertyPathBody (hc : c.data.drop c.position = '.' :: r) (hn : r.length < n) :
    Loop.run propertyPathBody n (c, path) = some (path ++ r.splitOn '.') := by
  induction n generalizing c path r with
  | zero => exact absurd hn (Nat.not_lt_zero _)
  | succ n ih =>
    have hbody := propertyPathBody_eq path hc
    by_cases hd : '.' ∈ r
    · obtain ⟨s, r', rfl, hs⟩ := List.eq_append_cons_of_mem hd
      rw [idxOf_append_dot hs, if_pos (by simp), List.take_left] at hbody
      have hdrop : c.data.drop (c.position + 1 + s.length) = '.' :: r' := by
        rw [← List.drop_drop, (List.drop_eq_cons_iff.mp hc).2]
        exact List.drop_left
      have hlen : r'.length < n := by
        rw [List.length_append, List.length_cons] at hn
        omega
      rw [Loop.run_next hbody, ih hdrop hlen, List.splitOn_append_cons_self_of_not_mem hs,
        List.append_assoc]
      rfl
    · rw [List.idxOf_eq_length hd, if_neg (Nat.lt_irrefl _), List.take_length] at hbody
      rw [Loop.run_exit hbody, List.splitOn_eq_singleton hd]

end

/-! ## The whole name -/

section

variable {κ : Type} [Caret κ] [LawfulCaret κ] {s : Text}

/-- A name without a dot has no path. -/
theorem parseQueryParameter_of_not_mem (hs : '.' ∉ s) :
    parseQueryParameter κ s = some ⟨some s, []⟩ := by
  rw [parseQueryParameter_textCaret]
  have hfind : findChar (ofText s : TextCaret) '.' = (false, ⟨s, s.length, none⟩) := by
    show (s.contains '.', (⟨s, 0 + s.idxOf '.', none⟩ : TextCaret)) = _
    rw [List.idxOf_eq_length hs, Nat.zero_add]
    simpa using hs
  have hname : (s.take s.length).drop 0 = s := by rw [List.take_length, List.drop_zero]
  simp only [parseQueryParameter, hfind]
  show some (⟨some ((s.take s.length).drop 0), []⟩ : QueryParameter) = _
  rw [hname]

/-- **`parseQueryParameter`** on a name with a dot: what stands before the first one, and the
    segments behind it, unless nothing stands there. -/
theorem parseQueryParameter_append (hs : '.' ∉ s) (r : Text) :
    parseQueryParameter κ (s ++ '.' :: r)
      = some ⟨some s, if r = [] then [] else r.splitOn '.'⟩ := by
  rw [parseQueryParameter_textCaret]
  have hfind : findChar (ofText (s ++ '.' :: r) : TextCaret) '.'
      = (true, ⟨s ++ '.' :: r, s.length, none⟩) := by
    show ((s ++ '.' :: r).contains '.',
      (⟨s ++ '.' :: r, 0 + (s ++ '.' :: r).idxOf '.', none⟩ : TextCaret)) = _
    rw [idxOf_append_dot hs, Nat.zero_add]
    simp
  have hname : ((s ++ '.' :: r).take s.length).drop 0 = s := by
    rw [List.drop_zero, List.take_left]
  have hlen : (s ++ '.' :: r).length = s.length + 1 + r.length := by
    rw [List.length_append, List.length_cons]
    omega
  simp only [parseQueryParameter, hfind]
  show (if s.length < (s ++ '.' :: r).length - 1 then
      (Loop.run propertyPathBody (passes (⟨s ++ '.' :: r, s.length, none⟩ : TextCaret))
        ((⟨s ++ '.' :: r, s.length, none⟩ : TextCaret), [])).bind fun propertyPath =>
          some (⟨some (((s ++ '.' :: r).take s.length).drop 0), propertyPath⟩ : QueryParameter)
    else some ⟨some (((s ++ '.' :: r).take s.length).drop 0), []⟩) = _
  rw [hname, hlen]
  by_cases hr : r = []
  · -- the guard of the loop
    subst hr
    rw [if_neg (by simp), if_pos rfl]
  · have hpos := List.length_pos_iff.mpr hr
    have hpasses : r.length < passes (⟨s ++ '.' :: r, s.length, none⟩ : TextCaret) := by
      show r.length < (s ++ '.' :: r).length - s.length + 1
      omega
    have hdrop : (⟨s ++ '.' :: r, s.length, none⟩ : TextCaret).data.drop
        (⟨s ++ '.' :: r, s.length, none⟩ : TextCaret).position = '.' :: r := List.drop_left
    have hrun := @run_propertyPathBody _ [] _ _ hdrop hpasses
    rw [if_pos (by omega), if_neg hr, hrun]
    rfl

end

/-! ## What the parts tell of the name -/

/-- The name of the parameter and the segments of its path, as they stand between the dots. -/
def QueryParameter.parts (p : QueryParameter) : List Text := p.name.toList ++ p.propertyPath

/-- The split is one at every dot: the parts, joined with dots, are the name, and no part has
    a dot. -/
def SplitAtDots (paramName : Text) (p : QueryParameter) : Prop :=
  p.name.isSome ∧ ['.'].intercalate p.parts = paramName ∧ ∀ part ∈ p.parts, '.' ∉ part

/-- The first dot of the name is its last byte. -/
def endsAtFirstDot (paramName : Text) : Bool := paramName.idxOf '.' + 1 == paramName.length

section

variable {κ : Type} [Caret κ] [LawfulCaret κ] {s : Text}

theorem not_mem_of_mem_splitOn {part : Text} (h : part ∈ s.splitOn '.') : '.' ∉ part := by
  induction hn : s.length using Nat.strong_induction_on generalizing s with
  | _ n ih =>
    by_cases hd : '.' ∈ s
    · obtain ⟨u, r, rfl, hu⟩ := List.eq_append_cons_of_mem hd
      rw [List.splitOn_append_cons_self_of_not_mem hu] at h
      rcases List.mem_cons.mp h with rfl | h
      · exact hu
      · have hlt : r.length < n := by
          rw [← hn, List.length_append, List.length_cons]
          omega
        exact ih r.length hlt h rfl
    · rw [List.splitOn_eq_singleton hd] at h
      rwa [List.mem_singleton.mp h]

/-- There is one such split. -/
theorem splitAtDots_iff {p : QueryParameter} (hp : p.name.isSome) :
    SplitAtDots s p ↔ p.parts = s.splitOn '.' := by
  constructor
  · rintro ⟨-, hjoin, hparts⟩
    have hne : p.parts ≠ [] := by
      obtain ⟨name, hname⟩ := Option.isSome_iff_exists.mp hp
      simp [QueryParameter.parts, hname]
    rw [← hjoin, List.splitOn_intercalate '.' hparts hne]
  · intro h
    refine ⟨hp, ?_, ?_⟩
    · rw [h, List.intercalate_splitOn]
    · rw [h]
      exact fun part hpart => not_mem_of_mem_splitOn hpart

/-- What is split off is what `List.splitOn` gives, but that a dot at the end of a name without
    another dot is lost. -/
theorem parseQueryParameter_parts (s : Text) : ∃ p, parseQueryParameter κ s = some p ∧
    p.name.isSome ∧
    p.parts = if endsAtFirstDot s then (s.splitOn '.').dropLast else s.splitOn '.' := by
  by_cases hd : '.' ∈ s
  · obtain ⟨u, r, rfl, hu⟩ := List.eq_append_cons_of_mem hd
    refine ⟨_, parseQueryParameter_append hu r, rfl, ?_⟩
    rw [List.splitOn_append_cons_self_of_not_mem hu, endsAtFirstDot, idxOf_append_dot hu]
    cases r with
    | nil => simp [QueryParameter.parts]
    | cons a r => simp [QueryParameter.parts]
  · refine ⟨_, parseQueryParameter_of_not_mem hd, rfl, ?_⟩
    rw [List.splitOn_eq_singleton hd, endsAtFirstDot, List.idxOf_eq_length hd]
    simp [QueryParameter.parts]

theorem not_splitAtDots {p : QueryParameter} (hp : p.name.isSome)
    (hparts : p.parts = (s.splitOn '.').dropLast) : ¬ SplitAtDots s p := by
  intro h
  rw [splitAtDots_iff hp, hparts] at h
  have hpos := List.length_pos_iff.mpr (List.splitOn_ne_nil '.' s)
  have hlen := congrArg List.length h
  rw [List.length_dropLast] at hlen
  omega

/-- **Two names are split at every dot, and told apart,** exactly if neither is one whose first
    dot is its last byte. -/
theorem parseQueryParameter_splits_iff (s t : Text) :
    (∃ p q, parseQueryParameter κ s = some p ∧ parseQueryParameter κ t = some q ∧
        SplitAtDots s p ∧ SplitAtDots t q ∧ (s ≠ t → p ≠ q)) ↔
      endsAtFirstDot s = false ∧ endsAtFirstDot t = false := by
  obtain ⟨p, hs, hp, hpparts⟩ := parseQueryParameter_parts (κ := κ) s
  obtain ⟨q, ht, hq, hqparts⟩ := parseQueryParameter_parts (κ := κ) t
  constructor
  · rintro ⟨p', q', hs', ht', hsplit, hsplit', -⟩
    rw [hs] at hs'
    rw [ht] at ht'
    cases hs'
    cases ht'
    constructor
    · by_contra hend
      rw [Bool.not_eq_false] at hend
      rw [if_pos hend] at hpparts
      exact not_splitAtDots hp hpparts hsplit
    · by_contra hend
      rw [Bool.not_eq_false] at hend
      rw [if_pos hend] at hqparts
      exact not_splitAtDots hq hqparts hsplit'
  · rintro ⟨hend, hend'⟩
    rw [hend, if_neg Bool.false_ne_true] at hpparts
    rw [hend', if_neg Bool.false_ne_true] at hqparts
    refine ⟨p, q, hs, ht, (splitAtDots_iff hp).mpr hpparts, (splitAtDots_iff hq).mpr hqparts, ?_⟩
    rintro hne rfl
    refine hne ?_
    calc s = ['.'].intercalate (s.splitOn '.') := (List.intercalate_splitOn '.').symm
      _ = ['.'].intercalate (t.splitOn '.') := by rw [← hpparts, hqparts]
      _ = t := List.intercalate_splitOn '.'

theorem parseQueryParameter_splits_iff_dots :
    ∃ p q, parseQueryParameter TextCaret "a..".toList = some p ∧
      parseQueryParameter TextCaret ".a".toList = some q ∧
      SplitAtDots "a..".toList p ∧ SplitAtDots ".a".toList q ∧
      ("a..".toList ≠ ".a".toList → p ≠ q) :=
  (parseQueryParameter_splits_iff _ _).mpr ⟨by decide, by decide⟩

/-- Two variables of one template that name the same parameter and path. -/
theorem parseQueryParameter_merges :
    (∃ t, parseTemplate TextCaret "SELECT :a, :a.".toList = some (.ok t) ∧
      t.templateVariables.map (·.name) = [some "a".toList, some "a.".toList]) ∧
    parseQueryParameter TextCaret "a.".toList = parseQueryParameter TextCaret "a".toList ∧
    ∀ p, parseQueryParameter TextCaret "a.".toList = some p → ¬ SplitAtDots "a.".toList p := by
  refine ⟨⟨_, rfl, by decide +kernel⟩, by decide +kernel, fun p hp => ?_⟩
  obtain rfl : (⟨some "a".toList, []⟩ : QueryParameter) = p :=
    Option.some.inj ((by decide +kernel : _ = _).symm.trans hp)
  rintro ⟨-, hjoin, -⟩
  exact absurd hjoin (by decide +kernel)

end

end OatppSqlite.Executor
