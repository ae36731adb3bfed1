import OatppSqlite.Sqlite.Tokenizer
import Mathlib.Data.List.Pairwise
import Mathlib.Data.List.TakeWhile

/-!
# SQLite's parameter numbers

The loop of `sqlite3RunParser` hands the tokens to the grammar one by one, and every parameter
it meets is numbered on the spot by `sqlite3ExprAssignVarNumber`. `parameters` are the ones that
get that far: those of the first statement, up to a token SQLite does not accept; a CREATE VIRTUAL
TABLE has none (`parametersOf`). `numbers` is the numbering.

`lookup_numbers_iff` is what the numbering means for somebody who writes bare `?`s into a text
that is not entirely his own: they are numbered one after the other from 1 exactly when each of
them is a parameter at all and everything else numbered before the last of them is a `?N` that
points back at one of them.
-/

set_option autoImplicit false

namespace OatppSqlite.Sqlite

/-- `SQLITE_MAX_VARIABLE_NUMBER`, which is also the default limit. -/
def variableLimit : Nat := 32766

/-- The counter and the name list of a `Parse`. -/
structure VarState where
  nVar : Nat
  vList : List (Text × Nat)
  deriving DecidableEq, Repr

/-- The value of a run of digits (`sqlite3Atoi64`; what does not fit is over the limit). -/
def atoi (ds : Text) : Nat := ds.foldl (fun n d => n * 10 + (d.toNat - '0'.toNat)) 0

/-- A bare `?` takes the next number. -/
def assignBare (s : VarState) : Option (Nat × VarState) :=
  if s.nVar + 1 ≤ variableLimit then some (s.nVar + 1, ⟨s.nVar + 1, s.vList⟩) else none

/-- A `?N` takes the number `x` it names. -/
def assignNumbered (s : VarState) (z : Text) (x : Nat) : Option (Nat × VarState) :=
  if x < 1 ∨ variableLimit < x then none
  else if s.nVar < x then some (x, ⟨x, s.vList ++ [(z, x)]⟩)
  else if s.vList.any (·.2 = x) then some (x, s)
  else some (x, ⟨s.nVar, s.vList ++ [(z, x)]⟩)

/-- A name takes its old number, or the next one. -/
def assignNamed (s : VarState) (z : Text) : Option (Nat × VarState) :=
  -- `#1` is a register, which no text from outside may name
  if z.head? = some '#' ∧ z[1]?.any isDigit then none
  else match s.vList.lookup z with
    | some x => some (x, s)
    | none =>
      if s.nVar + 1 ≤ variableLimit then
        some (s.nVar + 1, ⟨s.nVar + 1, s.vList ++ [(z, s.nVar + 1)]⟩)
      else none

/-- `sqlite3ExprAssignVarNumber`; `none` is a parse error. -/
def assignVarNumber (s : VarState) : Text → Option (Nat × VarState)
  | ['?'] => assignBare s
  | '?' :: ds => assignNumbered s ('?' :: ds) (atoi ds)
  | z => assignNamed s z

/-- The parameters of the first statement, where they start and how they are written.
    `started` says that a token of the statement was met: a `;` before it is skipped. -/
def parameters (started : Bool) : List Token → List (Nat × Text)
  | [] => []
  | k :: ks =>
    match k.type with
    | .space => parameters started ks
    | .illegal => []
    | .semi => if started then [] else parameters false ks
    | .variable => (k.start, k.text) :: parameters true ks
    | .other => parameters true ks

/-- The words of the first statement, without regard to case. -/
def statementWords (ks : List Token) : List Text :=
  ((ks.dropWhile fun k => k.type = .space || k.type = .semi).filter (·.type ≠ .space)).map
    fun k => foldCase k.text

/-- The first statement is a CREATE VIRTUAL TABLE, explained or not. There are no expressions in
    it: what stands between its parentheses is for the module (`vtabargtoken ::= ANY`). -/
def createsVirtual (ks : List Token) : Bool :=
  [["create", "virtual"], ["explain", "create", "virtual"],
    ["explain", "query", "plan", "create", "virtual"]].any
      fun head => (head.map String.toList).isPrefixOf (statementWords ks)

/-- The parameters of the first statement of a text. -/
def parametersOf (sql : Text) : List (Nat × Text) :=
  if createsVirtual (tokens sql) then [] else parameters false (tokens sql)

/-- The numbers given to the parameters, by position. -/
def numbers (s : VarState) : List (Nat × Text) → List (Nat × Nat)
  | [] => []
  | (p, z) :: ps =>
    match assignVarNumber s z with
    | none => []
    | some (x, s') => (p, x) :: numbers s' ps

/-- The number SQLite gives to the parameter at a position of the text. -/
def parameterNumber (sql : Text) (p : Nat) : Option Nat :=
  (numbers ⟨0, []⟩ (parametersOf sql)).lookup p

example : parameterNumber "CREATE VIRTUAL TABLE t USING fts4(?)".toList 34 = none := by
  decide +kernel

/-! ## Where parameters stand

Tokens come in the order of the text, each of them at a place of its own. A parameter is a token that
the grammar would take for one, so its text can be read off at its place. -/

section Tokens

variable {z : Text} {n p : Nat} {tk : Token}

theorem le_of_mem_tokensFrom (h : tk ∈ tokensFrom n p z) : p ≤ tk.start := by
  induction n generalizing p z with
  | zero => cases h
  | succ n ih =>
    cases z with
    | nil => cases h
    | cons c t =>
      rcases List.mem_cons.mp h with rfl | h
      · exact Nat.le_refl p
      · exact Nat.le_trans (Nat.le_add_right p _) (ih h)

theorem pairwise_tokensFrom (hz : '\x00' ∉ z) :
    (tokensFrom n p z).Pairwise (fun a b => a.start < b.start) := by
  induction n generalizing p z with
  | zero => exact .nil
  | succ n ih =>
    cases z with
    | nil => exact .nil
    | cons c t =>
      have hc : c ≠ '\x00' := fun h => hz (h ▸ List.mem_cons_self)
      refine .cons (fun b hb => ?_) (ih fun h => hz (List.mem_of_mem_drop h))
      exact Nat.lt_of_lt_of_le (Nat.lt_add_of_pos_right (getToken_pos hc))
        (le_of_mem_tokensFrom hb)

/-- A token is what `sqlite3GetToken` reads at its start. -/
theorem getToken_of_mem (h : tk ∈ tokensFrom n p z) :
    ∃ c t, z.drop (tk.start - p) = c :: t ∧ tk.type = (getToken c t).1 ∧
      tk.text = (c :: t).take (getToken c t).2 := by
  induction n generalizing p z with
  | zero => cases h
  | succ n ih =>
    cases z with
    | nil => cases h
    | cons c t =>
      rcases List.mem_cons.mp h with rfl | h
      · exact ⟨c, t, by simp, rfl, rfl⟩
      · obtain ⟨c', t', hdrop, hk⟩ := ih h
        refine ⟨c', t', ?_, hk⟩
        have hle := le_of_mem_tokensFrom h
        rw [List.drop_drop] at hdrop
        rw [← hdrop]
        congr 1
        omega

theorem parameters_sublist (b : Bool) (ks : List Token) :
    (parameters b ks).Sublist (ks.map fun k => (k.start, k.text)) := by
  induction ks generalizing b with
  | nil => exact .slnil
  | cons k ks ih =>
    unfold parameters
    split
    · exact (ih b).cons _
    · exact List.nil_sublist _
    · split
      · exact List.nil_sublist _
      · exact (ih false).cons _
    · exact (ih true).cons_cons _
    · exact (ih true).cons _

theorem parametersOf_sublist (sql : Text) :
    (parametersOf sql).Sublist ((tokens sql).map fun k => (k.start, k.text)) := by
  unfold parametersOf
  split
  · exact List.nil_sublist _
  · exact parameters_sublist false (tokens sql)

theorem nul_not_mem_cString (t : Text) : '\x00' ∉ cString t := by
  intro h
  simpa using List.mem_takeWhile_imp h

/-- The parameters of a text stand one behind the other. -/
theorem pairwise_parameters (sql : Text) :
    (parametersOf sql).Pairwise (fun a b => a.1 < b.1) := by
  have h := pairwise_tokensFrom (n := (cString sql).length) (p := 0) (nul_not_mem_cString sql)
  refine (List.pairwise_map.mpr ?_).sublist (parametersOf_sublist sql)
  exact h

/-- A `?` with no digit behind it is written `?` wherever it is a parameter. -/
theorem text_of_mem_parameters {sql : Text} {q : Nat} {w t : Text}
    (h : (q, w) ∈ parametersOf sql) (hq : sql.drop q = '?' :: t)
    (ht : t.head?.any isDigit = false) : w = ['?'] := by
  obtain ⟨k, hk, heq⟩ := List.mem_map.mp ((parametersOf_sublist sql).subset h)
  cases heq
  obtain ⟨c, t', hdrop, -, htext⟩ := getToken_of_mem hk
  -- the C string is a prefix of the text
  obtain ⟨u, hu⟩ : cString sql <+: sql := List.takeWhile_prefix _
  have hlen : k.start ≤ (cString sql).length := by
    by_contra hlt
    rw [Nat.sub_zero, List.drop_of_length_le (by omega)] at hdrop
    cases hdrop
  rw [← hu, List.drop_append_of_le_length hlen, ← Nat.sub_zero k.start, hdrop,
    List.cons_append] at hq
  obtain ⟨rfl, rfl⟩ := List.cons.inj hq
  have hone : (getToken '?' t').2 = 1 := by
    show 1 + runLength isDigit t' = 1
    cases t' with
    | nil => rfl
    | cons d t'' =>
      have hd : isDigit d = false := by simpa using ht
      rw [runLength_cons_neg hd]
  rw [htext, hone]
  rfl

end Tokens

/-! ## Bare `?`s in a text

A text may hold parameters that its author did not count. Whatever takes a number before the last bare
`?` shifts it, and only a `?N` whose `N` was given out before takes none. -/

/-- Written `?N`, with an `N` that was given out before: it changes nothing. -/
def numberedUpTo (k : Nat) : Text → Bool
  | '?' :: d :: ds => 1 ≤ atoi (d :: ds) && atoi (d :: ds) ≤ k
  | _ => false

/-- Every position of `qs` is a parameter, and whatever is numbered before the last of them
    points back at one of them. `k` of them were met before. -/
def ownPlaceholders (k : Nat) : List (Nat × Text) → List Nat → Bool
  | _, [] => true
  | [], _ :: _ => false
  | (p, z) :: ps, q :: qs =>
    if p = q then decide (k < variableLimit) && ownPlaceholders (k + 1) ps qs
    else numberedUpTo k z && ownPlaceholders k ps (q :: qs)

section Numbers

variable {s s' : VarState} {x k q : Nat} {z : Text} {ps : List (Nat × Text)} {qs : List Nat}

theorem lookup_cons_ne {p y : Nat} {l : List (Nat × Nat)} (h : q ≠ p) :
    ((p, y) :: l).lookup q = l.lookup q := by
  rw [List.lookup_cons, beq_false_of_ne h]

theorem assignNumbered_eq (h : assignNumbered s z k = some (x, s')) :
    x = k ∧ 1 ≤ x ∧ s'.nVar = max s.nVar x ∧
      (s'.vList = s.vList ∨ s'.vList = s.vList ++ [(z, x)]) := by
  unfold assignNumbered at h
  split_ifs at h with hbad hlt hany
  · cases h
    exact ⟨rfl, by omega, (Nat.max_eq_right hlt.le).symm, Or.inr rfl⟩
  · cases h
    exact ⟨rfl, by omega, (Nat.max_eq_left (Nat.le_of_not_lt hlt)).symm, Or.inl rfl⟩
  · cases h
    exact ⟨rfl, by omega, (Nat.max_eq_left (Nat.le_of_not_lt hlt)).symm, Or.inr rfl⟩

theorem assignNamed_eq (h : assignNamed s z = some (x, s')) :
    (s.vList.lookup z = some x ∧ s' = s) ∨
    (x = s.nVar + 1 ∧ s' = ⟨x, s.vList ++ [(z, x)]⟩) := by
  unfold assignNamed at h
  by_cases hreg : z.head? = some '#' ∧ z[1]?.any isDigit
  · rw [if_pos hreg] at h
    cases h
  · rw [if_neg hreg] at h
    cases hl : s.vList.lookup z with
    | some y =>
      rw [hl] at h
      cases h
      exact Or.inl ⟨rfl, rfl⟩
    | none =>
      rw [hl] at h
      dsimp only at h
      split_ifs at h
      cases h
      exact Or.inr ⟨rfl, rfl⟩

/-- What a step of the numbering does when it may: a `?` and a new name take the next number, a
    `?N` takes its own, a listed name its old one. -/
theorem assignVarNumber_cases (h : assignVarNumber s z = some (x, s')) :
    (z = ['?'] ∧ x = s.nVar + 1 ∧ s' = ⟨x, s.vList⟩) ∨
    (∃ d ds, z = '?' :: d :: ds ∧ x = atoi (d :: ds) ∧ 1 ≤ x ∧ s'.nVar = max s.nVar x) ∨
    (z.head? ≠ some '?' ∧ s.vList.lookup z = some x ∧ s' = s) ∨
    (z.head? ≠ some '?' ∧ x = s.nVar + 1 ∧ s' = ⟨x, s.vList ++ [(z, x)]⟩) := by
  unfold assignVarNumber at h
  split at h
  · unfold assignBare at h
    split_ifs at h
    cases h
    exact Or.inl ⟨rfl, rfl, rfl⟩
  · rename_i ds hne
    obtain ⟨d, ds, rfl⟩ := List.exists_cons_of_ne_nil (fun hd : ds = [] => hne (by rw [hd]))
    obtain ⟨hx, hone, hmax, -⟩ := assignNumbered_eq h
    exact Or.inr (Or.inl ⟨d, ds, rfl, hx, hone, hmax⟩)
  · rename_i hbare hnum
    have hz : z.head? ≠ some '?' := by
      intro hz
      obtain ⟨ds, rfl⟩ := List.head?_eq_some_iff.mp hz
      exact hnum ds rfl
    rcases assignNamed_eq h with hold | hnew
    · exact Or.inr (Or.inr (Or.inl ⟨hz, hold⟩))
    · exact Or.inr (Or.inr (Or.inr ⟨hz, hnew⟩))

/-- The counter never goes down. -/
theorem nVar_le_of_assign (h : assignVarNumber s z = some (x, s')) : s.nVar ≤ s'.nVar := by
  rcases assignVarNumber_cases h with ⟨-, rfl, rfl⟩ | ⟨d, ds, -, -, -, hn⟩ | ⟨-, -, rfl⟩ |
    ⟨-, rfl, rfl⟩
  · exact Nat.le_succ _
  · rw [hn]
    exact Nat.le_max_left _ _
  · exact Nat.le_refl _
  · exact Nat.le_succ _

/-- A bare `?` is numbered behind everything that was numbered before it. -/
theorem lt_of_lookup_numbers (hq : ∀ w, (q, w) ∈ ps → w = ['?'])
    (h : (numbers s ps).lookup q = some x) : s.nVar < x := by
  induction ps generalizing s with
  | nil => cases h
  | cons e ps ih =>
    obtain ⟨p, z⟩ := e
    unfold numbers at h
    split at h
    · cases h
    · rename_i y s' hy
      by_cases hp : q = p
      · subst hp
        obtain rfl := hq z List.mem_cons_self
        rw [List.lookup_cons_self, Option.some.injEq] at h
        rcases assignVarNumber_cases hy with ⟨-, rfl, -⟩ | ⟨d, ds, hz, -⟩ | ⟨hz, -⟩ | ⟨hz, -⟩
        · omega
        · cases hz
        · exact absurd rfl hz
        · exact absurd rfl hz
      · rw [lookup_cons_ne hp] at h
        exact Nat.lt_of_le_of_lt (nVar_le_of_assign hy)
          (ih (fun w hw => hq w (List.mem_cons_of_mem _ hw)) h)

/-- A `?N` that points back is numbered `N` and leaves the counter alone. -/
theorem assign_of_numberedUpTo (hz : numberedUpTo s.nVar z = true) (hl : s.nVar ≤ variableLimit) :
    ∃ y s', assignVarNumber s z = some (y, s') ∧ s'.nVar = s.nVar ∧ z.head? = some '?' ∧
      (s'.vList = s.vList ∨ s'.vList = s.vList ++ [(z, y)]) := by
  unfold numberedUpTo at hz
  split at hz
  · rename_i d ds
    simp only [Bool.and_eq_true, decide_eq_true_eq] at hz
    obtain ⟨hone, hle⟩ := hz
    have hassign : assignVarNumber s ('?' :: d :: ds)
        = assignNumbered s ('?' :: d :: ds) (atoi (d :: ds)) := rfl
    have hbad : ¬ (atoi (d :: ds) < 1 ∨ variableLimit < atoi (d :: ds)) := by omega
    rw [hassign, assignNumbered, if_neg hbad, if_neg (Nat.not_lt.mpr hle)]
    split
    · exact ⟨_, _, rfl, rfl, rfl, Or.inl rfl⟩
    · exact ⟨_, _, rfl, rfl, rfl, Or.inr rfl⟩
  · cases hz

/-- Anything else that is numbered moves the counter, as long as no name is listed. -/
theorem nVar_lt_of_not_numberedUpTo (hn : ∀ e ∈ s.vList, e.1.head? = some '?')
    (hz : numberedUpTo s.nVar z = false) (h : assignVarNumber s z = some (x, s')) :
    s.nVar < s'.nVar := by
  rcases assignVarNumber_cases h with ⟨-, rfl, rfl⟩ | ⟨d, ds, rfl, rfl, hone, hmax⟩ |
    ⟨hq, hl, -⟩ | ⟨-, rfl, rfl⟩
  · exact Nat.lt_succ_self _
  · have hlt : s.nVar < atoi (d :: ds) := by
      simpa [numberedUpTo, hone] using hz
    rw [hmax]
    exact Nat.lt_of_lt_of_le hlt (Nat.le_max_right _ _)
  · obtain ⟨l₁, l₂, hlist, -⟩ := List.lookup_eq_some_iff.mp hl
    exact absurd (hn (z, x) (by rw [hlist]; exact List.mem_append_right _ List.mem_cons_self)) hq
  · exact Nat.lt_succ_self _

section

variable {l : List (Nat × Nat)} {p y : Nat}

/-- A position in front of the others has the first number. -/
theorem forall_lookup_cons_self (hlt : ∀ q ∈ qs, p < q) :
    (∀ i (h : i < (p :: qs).length), ((p, k + 1) :: l).lookup (p :: qs)[i] = some (k + i + 1))
      ↔ ∀ i (h : i < qs.length), l.lookup qs[i] = some (k + 1 + i + 1) := by
  have hne : ∀ {i} (hi : i < qs.length), qs[i] ≠ p :=
    fun hi => Nat.ne_of_gt (hlt _ (List.getElem_mem hi))
  have hsum : ∀ i, k + (i + 1) + 1 = k + 1 + i + 1 := by omega
  constructor
  · intro h i hi
    have hi' := h (i + 1) (Nat.succ_lt_succ hi)
    rwa [List.getElem_cons_succ, lookup_cons_ne (hne hi), hsum] at hi'
  · intro h i hi
    cases i with
    | zero => exact List.lookup_cons_self
    | succ i =>
      have hi' : i < qs.length := Nat.lt_of_succ_lt_succ hi
      rw [List.getElem_cons_succ, lookup_cons_ne (hne hi'), h i hi', hsum]

/-- A position that is none of them makes no difference. -/
theorem forall_lookup_cons_ne (hne : ∀ q ∈ qs, q ≠ p) :
    (∀ i (h : i < qs.length), ((p, y) :: l).lookup qs[i] = some (k + i + 1))
      ↔ ∀ i (h : i < qs.length), l.lookup qs[i] = some (k + i + 1) := by
  refine forall_congr' fun i => forall_congr' fun hi => ?_
  rw [lookup_cons_ne (hne _ (List.getElem_mem hi))]

end

/-- A bare `?` takes the next number, if there is one. -/
theorem assign_bare (hk : s.nVar = k) :
    assignVarNumber s ['?'] = if k < variableLimit then some (k + 1, ⟨k + 1, s.vList⟩) else none := by
  subst hk
  rfl

/-- A `?N` stays a `?N` in the list of names. -/
theorem head_of_assigned {s' : VarState} {y : Nat} (hn : ∀ e ∈ s.vList, e.1.head? = some '?')
    (hz : z.head? = some '?') (hs : s'.vList = s.vList ∨ s'.vList = s.vList ++ [(z, y)]) :
    ∀ e ∈ s'.vList, e.1.head? = some '?' := by
  intro e he
  rcases hs with hs | hs
  · exact hn e (hs ▸ he)
  · rw [hs] at he
    rcases List.mem_append.mp he with he | he
    · exact hn e he
    · rw [List.mem_singleton.mp he]
      exact hz

/-- **Bare `?`s are numbered one after the other** from `k + 1` exactly when each of them is a
    parameter and nothing else takes a number before the last of them. -/
theorem lookup_numbers_iff (hps : ps.Pairwise fun a b => a.1 < b.1) (hqs : qs.Pairwise (· < ·))
    (hbare : ∀ q ∈ qs, ∀ w, (q, w) ∈ ps → w = ['?']) (hk : s.nVar = k)
    (hl : k ≤ variableLimit) (hn : ∀ e ∈ s.vList, e.1.head? = some '?') :
    (∀ i (h : i < qs.length), (numbers s ps).lookup qs[i] = some (k + i + 1))
      ↔ ownPlaceholders k ps qs = true := by
  induction ps generalizing s k qs with
  | nil =>
    cases qs with
    | nil => exact iff_of_true (fun i h => by cases h) rfl
    | cons q qs =>
      refine iff_of_false (fun h => ?_) Bool.false_ne_true
      have h0 := h 0 (Nat.succ_pos _)
      cases h0
  | cons e ps ih =>
    obtain ⟨p, z⟩ := e
    have hps' := (List.pairwise_cons.mp hps).2
    cases qs with
    | nil => exact iff_of_true (fun i h => by cases h) (by unfold ownPlaceholders; rfl)
    | cons q qs =>
      obtain ⟨hlt, hqs'⟩ := List.pairwise_cons.mp hqs
      have hbare' : ∀ q' ∈ q :: qs, ∀ w, (q', w) ∈ ps → w = ['?'] :=
        fun q' hq' w hw => hbare q' hq' w (List.mem_cons_of_mem _ hw)
      by_cases hp : p = q
      · -- the placeholder itself: it takes the next number, if there is one
        subst hp
        obtain rfl := hbare p List.mem_cons_self z List.mem_cons_self
        rw [ownPlaceholders, if_pos rfl, numbers, assign_bare hk]
        by_cases hlim : k < variableLimit
        · rw [if_pos hlim, decide_eq_true hlim, Bool.true_and, forall_lookup_cons_self hlt]
          exact ih hps' hqs' (fun q hq => hbare' q (List.mem_cons_of_mem _ hq)) rfl hlim hn
        · rw [if_neg hlim, decide_eq_false hlim]
          refine iff_of_false (fun h => ?_) Bool.false_ne_true
          have h0 := h 0 (Nat.succ_pos _)
          cases h0
      rw [ownPlaceholders, if_neg hp]
      by_cases hz : numberedUpTo k z = true
      · -- a `?N` that points back
        subst hk
        obtain ⟨y, s', hassign, hsn, hzq, hsl⟩ := assign_of_numberedUpTo hz hl
        have hnot : ∀ q' ∈ q :: qs, q' ≠ p := by
          rintro q' hq' rfl
          obtain rfl := hbare q' hq' z List.mem_cons_self
          cases hz
        rw [hz, Bool.true_and, numbers, hassign, forall_lookup_cons_ne hnot]
        exact ih hps' hqs hbare' hsn hl (head_of_assigned hn hzq hsl)
      · -- it takes a number that the next placeholder misses
        have hz' : numberedUpTo k z = false := by simpa using hz
        rw [hz', Bool.false_and]
        refine iff_of_false (fun h => ?_) Bool.false_ne_true
        have h0 := h 0 (Nat.succ_pos _)
        rw [List.getElem_cons_zero, numbers] at h0
        split at h0
        · cases h0
        · rename_i y s' hassign
          rw [lookup_cons_ne (Ne.symm hp)] at h0
          have hlt' := lt_of_lookup_numbers (hbare' q List.mem_cons_self) h0
          have hmove := nVar_lt_of_not_numberedUpTo hn (hk ▸ hz') hassign
          omega

end Numbers

end OatppSqlite.Sqlite
