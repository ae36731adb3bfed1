import OatppSqlite.Sqlite.Parameters
import OatppSqlite.Template.Segments
import OatppSqlite.Mapping.Deserializer

/-!
# An INSERT of bare `?`s

The text of an INSERT that a program wrote is words, spaces, brackets and commas up to each
`?` of it: `calm` bytes, none of which starts a parameter, a string or a comment. The tokens of
such a stretch end where it ends (`tokensFrom_calm`), so the `?`s are the parameters, in their
order, as long as SQLite accepts the words in between, and they are numbered from 1.

`Stores` is what is then relied on of SQLite: the row holds in each column what is bound to the
number of the column's `?`.
-/

set_option autoImplicit false

namespace OatppSqlite.Sqlite

open Mapping Template

/-! ## Calm text

A calm stretch may be cut into tokens in any way; what counts is that a token which begins in it also
ends in it, so that the `?` behind it is the head of a token of its own. -/

/-- A byte of a word, a space, a bracket or a comma. -/
def calm (a : Char) : Bool :=
  isLetter a || isDigit a || a == '_' || a == ' ' || a == '(' || a == ')' || a == ','

/-- Where a calm stretch ends: at a `?`, at a `;` or at the end of the text. -/
def Boundary (v : Text) : Prop := ∀ a, v.head? = some a → a = '?' ∨ a = ';'

section

variable {u v w : Text} {a c : Char} {p n : Nat} {f : Char → Bool}

theorem runLength_append_le (hv : v.head?.any f = false) : runLength f (w ++ v) ≤ w.length := by
  induction w with
  | nil =>
    cases v with
    | nil => exact Nat.le_refl _
    | cons a v => rw [List.nil_append, runLength_cons_neg (by simpa using hv)]; exact Nat.le_refl _
  | cons a w ih =>
    by_cases ha : f a = true
    · rw [List.cons_append, runLength_cons_pos ha]
      exact Nat.succ_le_succ ih
    · rw [List.cons_append, runLength_cons_neg (by simpa using ha)]
      exact Nat.zero_le _

/-- No byte of a run stands at a boundary. -/
theorem Boundary.any_head (hv : Boundary v) (hq : f '?' = false) (hs : f ';' = false) :
    v.head?.any f = false := by
  cases v with
  | nil => rfl
  | cons a v =>
    rcases hv a rfl with rfl | rfl
    · exact hq
    · exact hs

theorem Boundary.head_ne (hv : Boundary v) (hq : a ≠ '?') (hs : a ≠ ';') :
    v.head? ≠ some a := by
  intro h
  rcases hv a h with rfl | rfl
  · exact hq rfl
  · exact hs rfl

/-- What is neither calm nor at a boundary does not come next. -/
theorem head_append_ne (hw : ∀ b ∈ w, calm b = true) (hv : Boundary v) (ha : calm a = false)
    (hq : a ≠ '?') (hs : a ≠ ';') : (w ++ v).head? ≠ some a := by
  cases w with
  | nil => exact hv.head_ne hq hs
  | cons b w =>
    intro h
    have hb := hw b List.mem_cons_self
    rw [List.cons_append, List.head?_cons, Option.some.injEq] at h
    rw [h, ha] at hb
    cases hb

theorem exponent_append_le (hw : ∀ b ∈ w, calm b = true) (hv : Boundary v) :
    exponent (w ++ v) ≤ w.length := by
  unfold exponent
  split_ifs with he hd
  · cases w with
    | nil =>
      rcases he with he | he
      · exact absurd he (hv.head_ne (by decide) (by decide))
      · exact absurd he (hv.head_ne (by decide) (by decide))
    | cons e w =>
      -- the digits, or a sign, stand behind the `e`
      have hsecond : (e :: w ++ v)[1]? = (w ++ v).head? := by
        rw [List.cons_append, List.getElem?_cons_succ, List.head?_eq_getElem?]
      have hplus := head_append_ne (a := '+') (fun b hb => hw b (List.mem_cons_of_mem _ hb)) hv
        (by decide) (by decide) (by decide)
      have hminus := head_append_ne (a := '-') (fun b hb => hw b (List.mem_cons_of_mem _ hb)) hv
        (by decide) (by decide) (by decide)
      rw [hsecond] at hd
      rcases hd with hd | ⟨hd | hd, -⟩
      · cases w with
        | nil =>
          rw [List.nil_append, hv.any_head (by decide) (by decide)] at hd
          cases hd
        | cons d w =>
          have hrun : runLength isDigit (w ++ v) ≤ w.length :=
            runLength_append_le (hv.any_head (by decide) (by decide))
          show 2 + runLength isDigit (w ++ v) ≤ w.length + 1 + 1
          omega
      · exact absurd hd hplus
      · exact absurd hd hminus
  · exact Nat.zero_le _
  · exact Nat.zero_le _

/-- A number does not run over the end of a calm stretch. -/
theorem number_append_le (hw : ∀ b ∈ w, calm b = true) (hne : w ≠ []) (hv : Boundary v) :
    (number (w ++ v)).2 ≤ w.length := by
  have hidle : ∀ i, (∀ b ∈ w.drop i, calm b = true) := fun i b hb => hw b (List.mem_of_mem_drop hb)
  unfold number
  split_ifs with hx
  · obtain ⟨⟨-, hx⟩, -⟩ := hx
    obtain ⟨a, w, rfl⟩ := List.exists_cons_of_ne_nil hne
    cases w with
    | nil =>
      have hsecond : ([a] ++ v)[1]? = v.head? := by
        rw [List.cons_append, List.getElem?_cons_succ, List.nil_append, List.head?_eq_getElem?]
      rw [hsecond] at hx
      rcases hx with hx | hx
      · exact absurd hx (hv.head_ne (by decide) (by decide))
      · exact absurd hx (hv.head_ne (by decide) (by decide))
    | cons b w =>
      have hrun : runLength isXdigit (w ++ v) ≤ w.length :=
        runLength_append_le (hv.any_head (by decide) (by decide))
      show 2 + runLength isXdigit (w ++ v) ≤ w.length + 1 + 1
      omega
  · -- digits, no point, perhaps an exponent, and whatever identifier bytes hang on
    have hdigits : runLength isDigit (w ++ v) ≤ w.length :=
      runLength_append_le (hv.any_head (by decide) (by decide))
    obtain ⟨i, hi⟩ : ∃ i, runLength isDigit (w ++ v) = i := ⟨_, rfl⟩
    rw [hi] at hdigits
    have hdrop : (w ++ v).drop i = w.drop i ++ v := List.drop_append_of_le_length hdigits
    have hpoint : ((w ++ v).drop i).head? ≠ some '.' := by
      rw [hdrop]
      exact head_append_ne (hidle i) hv (by decide) (by decide) (by decide)
    simp only [hi, if_neg hpoint]
    have hexp : exponent ((w ++ v).drop i) ≤ (w.drop i).length := by
      rw [hdrop]
      exact exponent_append_le (hidle i) hv
    obtain ⟨j, hj⟩ : ∃ j, i + exponent ((w ++ v).drop i) = j := ⟨_, rfl⟩
    have hjle : j ≤ w.length := by
      rw [List.length_drop] at hexp
      omega
    have hrun : runLength idChar ((w ++ v).drop j) ≤ (w.drop j).length := by
      rw [List.drop_append_of_le_length hjle]
      exact runLength_append_le (hv.any_head (by decide) (by decide))
    rw [List.length_drop] at hrun
    rw [hj]
    show j + runLength idChar ((w ++ v).drop j) ≤ w.length
    omega

theorem aiClass_of_calm (h : calm c = true) :
    aiClass c = .x ∨ aiClass c = .kywd ∨ aiClass c = .kywd0 ∨ aiClass c = .digit ∨
      aiClass c = .space ∨ aiClass c = .lp ∨ aiClass c = .rp ∨ aiClass c = .comma := by
  simp only [calm, Bool.or_eq_true, beq_iff_eq] at h
  rcases h with (((((h | h) | rfl) | rfl) | rfl) | rfl) | rfl
  · unfold aiClass
    split_ifs <;> simp
  · unfold aiClass
    split_ifs <;> simp
  all_goals decide

/-- **The first token of a calm stretch** is no parameter and no `;`, and ends inside it. -/
theorem getToken_calm (hc : calm c = true) (hu : ∀ b ∈ u, calm b = true) (hv : Boundary v) :
    ((getToken c (u ++ v)).1 ≠ .variable ∧ (getToken c (u ++ v)).1 ≠ .semi) ∧
      (getToken c (u ++ v)).2 ≤ u.length + 1 := by
  have hid : runLength idChar (u ++ v) ≤ u.length :=
    runLength_append_le (hv.any_head (by decide) (by decide))
  have hspace : runLength isSpace (u ++ v) ≤ u.length :=
    runLength_append_le (hv.any_head (by decide) (by decide))
  have hquote : (u ++ v).head? ≠ some '\'' :=
    head_append_ne hu hv (by decide) (by decide) (by decide)
  have hnumber : (number (c :: (u ++ v))).2 ≤ u.length + 1 :=
    number_append_le (w := c :: u) (List.forall_mem_cons.mpr ⟨hc, hu⟩) (List.cons_ne_nil _ _) hv
  have hother : TokenType.other ≠ .variable ∧ TokenType.other ≠ .semi := by decide
  unfold getToken
  rcases aiClass_of_calm hc with h | h | h | h | h | h | h | h <;> rw [h] <;> dsimp only
  · rw [if_neg hquote]
    exact ⟨hother, by omega⟩
  · exact ⟨hother, by omega⟩
  · exact ⟨hother, by omega⟩
  · refine ⟨?_, hnumber⟩
    unfold acceptIf
    dsimp only
    split_ifs
    · exact hother
    · decide
  · exact ⟨by decide, by omega⟩
  all_goals exact ⟨hother, by omega⟩

/-- **The tokens of a calm stretch** end where it ends. -/
theorem tokensFrom_calm (hu : ∀ b ∈ u, calm b = true) (hv : Boundary v)
    (hn : u.length + v.length ≤ n) :
    ∃ ks m, tokensFrom n p (u ++ v) = ks ++ tokensFrom m (p + u.length) v ∧ v.length ≤ m ∧
      ∀ k ∈ ks, k.type ≠ .variable ∧ k.type ≠ .semi := by
  induction n generalizing u p with
  | zero =>
    obtain rfl := List.eq_nil_of_length_eq_zero (Nat.eq_zero_of_add_eq_zero_right
      (Nat.le_zero.mp hn))
    exact ⟨[], 0, rfl, by omega, fun k hk => by cases hk⟩
  | succ n ih =>
    cases u with
    | nil => exact ⟨[], n + 1, rfl, by simpa using hn, fun k hk => by cases hk⟩
    | cons c u =>
      obtain ⟨hc, hu'⟩ := List.forall_mem_cons.mp hu
      obtain ⟨htype, hlen⟩ := getToken_calm hc hu' hv
      have hpos : 0 < (getToken c (u ++ v)).2 :=
        getToken_pos (by rintro rfl; revert hc; decide)
      obtain ⟨i, hi⟩ : ∃ i, (getToken c (u ++ v)).2 = i := ⟨_, rfl⟩
      rw [hi] at hlen hpos
      have hdrop : (c :: (u ++ v)).drop i = (c :: u).drop i ++ v := by
        rw [← List.cons_append]
        exact List.drop_append_of_le_length hlen
      have hshort : ((c :: u).drop i).length = u.length + 1 - i := by
        rw [List.length_drop, List.length_cons]
      obtain ⟨ks, m, hks, hm, hall⟩ := ih (u := (c :: u).drop i) (p := p + i)
        (fun b hb => hu b (List.mem_of_mem_drop hb))
        (by rw [hshort]; rw [List.length_cons] at hn; omega)
      refine ⟨⟨(getToken c (u ++ v)).1, p, (c :: (u ++ v)).take i⟩ :: ks, m, ?_, hm, ?_⟩
      · rw [List.cons_append, tokensFrom]
        show (⟨(getToken c (u ++ v)).1, p, (c :: (u ++ v)).take (getToken c (u ++ v)).2⟩ : Token)
          :: tokensFrom n (p + (getToken c (u ++ v)).2)
            ((c :: (u ++ v)).drop (getToken c (u ++ v)).2) = _
        rw [hi, hdrop, hks, hshort, List.length_cons, List.cons_append]
        congr 3
        omega
      · exact List.forall_mem_cons.mpr ⟨htype, hall⟩

end

/-! ## The parameters of a prepared text

The tokens of a text are found from the left, and each stretch hands the place over to the `?` behind
it. So the induction is on the segments, for tokens from any place on. -/

/-- Between its `?`s a prepared text is calm, and it ends in a `;`. -/
def CalmSegments (after : Text) : List (Text × Text) → Prop
  | [] => ∃ rest, after = rest ++ [';'] ∧ ∀ a ∈ rest, calm a = true
  | (before, _) :: segments =>
    (∀ a ∈ before, calm a = true) ∧
      (assemblePrepared after segments).head?.any isDigit = false ∧ CalmSegments after segments

section

variable {after : Text} {segments : List (Text × Text)} {ks ts : List Token} {n p k : Nat}
  {b : Bool} {qs : List Nat}

theorem parameters_of_no_variable (h : ∀ k ∈ ks, k.type ≠ .variable) : parameters b ks = [] := by
  induction ks generalizing b with
  | nil => rfl
  | cons k ks ih =>
    obtain ⟨hk, hks⟩ := List.forall_mem_cons.mp h
    unfold parameters
    split
    · exact ih hks
    · rfl
    · split
      · rfl
      · exact ih hks
    · exact absurd ‹_› hk
    · exact ih hks

variable (ts) in
theorem parameters_append (h : ∀ k ∈ ks, k.type ≠ .variable ∧ k.type ≠ .semi)
    (hok : ∀ k ∈ ks, k.type ≠ .illegal) :
    ∃ b', parameters b (ks ++ ts) = parameters b' ts := by
  induction ks generalizing b with
  | nil => exact ⟨b, rfl⟩
  | cons k ks ih =>
    obtain ⟨⟨hvar, hsemi⟩, hks⟩ := List.forall_mem_cons.mp h
    obtain ⟨hk, hoks⟩ := List.forall_mem_cons.mp hok
    rw [List.cons_append, parameters]
    split
    · exact ih hks hoks
    · exact absurd ‹_› hk
    · exact absurd ‹_› hsemi
    · exact absurd ‹_› hvar
    · exact ih hks hoks

/-- A `?` with no digit behind it is a token of its own. -/
theorem tokensFrom_question {t : Text} (h : t.head?.any isDigit = false) :
    tokensFrom (n + 1) p ('?' :: t) = ⟨.variable, p, ['?']⟩ :: tokensFrom n (p + 1) t := by
  have hrun : runLength isDigit t = 0 := by
    cases t with
    | nil => rfl
    | cons a t => exact runLength_cons_neg (by simpa using h)
  have htoken : getToken '?' t = (.variable, 1) := by
    show (TokenType.variable, 1 + runLength isDigit t) = _
    rw [hrun]
  rw [tokensFrom, htoken]
  rfl

/-- **The parameters are the `?`s**, if SQLite accepts every token. -/
theorem parameters_assembled (h : CalmSegments after segments)
    (hn : (assemblePrepared after segments).length ≤ n)
    (hok : ∀ k ∈ tokensFrom n p (assemblePrepared after segments), k.type ≠ .illegal) :
    parameters b (tokensFrom n p (assemblePrepared after segments))
      = (assembledPlaceholders p segments).map fun q => (q, ['?']) := by
  induction segments generalizing n p b with
  | nil =>
    obtain ⟨rest, rfl, hrest⟩ := h
    have hboundary : Boundary [';'] := fun a ha => Or.inr (Option.some.inj ha).symm
    obtain ⟨ks, m, hks, -, hall⟩ := tokensFrom_calm (p := p) hrest hboundary
      (by simpa [assemblePrepared] using hn)
    show parameters b (tokensFrom n p (rest ++ [';'])) = []
    rw [hks]
    refine parameters_of_no_variable fun k hk => ?_
    rcases List.mem_append.mp hk with hk | hk
    · exact (hall k hk).1
    · obtain ⟨c, t, hdrop, htype, -⟩ := getToken_of_mem hk
      -- the only token behind the rest is the `;`
      have hmem : c ∈ [';'] := List.mem_of_mem_drop (hdrop ▸ List.mem_cons_self)
      rw [List.mem_singleton] at hmem
      subst hmem
      rw [htype]
      exact TokenType.noConfusion
  | cons segment segments ih =>
    obtain ⟨before, name⟩ := segment
    obtain ⟨hbefore, hdigit, hrest⟩ := h
    have htext : assemblePrepared after ((before, name) :: segments)
        = before ++ '?' :: assemblePrepared after segments := rfl
    rw [htext] at hn hok ⊢
    have hboundary : Boundary ('?' :: assemblePrepared after segments) :=
      fun a ha => Or.inl (Option.some.inj ha).symm
    rw [List.length_append] at hn
    obtain ⟨ks, m, hks, hm, hall⟩ := tokensFrom_calm (n := n) (p := p) hbefore hboundary hn
    obtain ⟨m, rfl⟩ := Nat.exists_eq_add_one.mpr (Nat.lt_of_lt_of_le (Nat.succ_pos _) hm)
    rw [hks, tokensFrom_question hdigit] at hok ⊢
    obtain ⟨b', hb'⟩ := parameters_append (b := b)
      (⟨.variable, p + before.length, ['?']⟩ ::
        tokensFrom m (p + before.length + 1) (assemblePrepared after segments))
      hall fun k hk => hok k (List.mem_append_left _ hk)
    rw [hb', parameters]
    show (p + before.length, ['?']) :: parameters true _ = _
    rw [ih hrest (Nat.le_of_succ_le_succ hm)
      fun k hk => hok k (List.mem_append_right _ (List.mem_cons_of_mem _ hk))]
    rfl

/-- Bare `?`s alone count themselves. -/
theorem ownPlaceholders_self (h : k + qs.length ≤ variableLimit) :
    ownPlaceholders k (qs.map fun q => (q, ['?'])) qs = true := by
  induction qs generalizing k with
  | nil => rfl
  | cons q qs ih =>
    rw [List.length_cons] at h
    rw [List.map_cons, ownPlaceholders, if_pos rfl, decide_eq_true (by omega), Bool.true_and]
    exact ih (by omega)

theorem nul_not_mem_assemblePrepared (h : CalmSegments after segments) :
    '\x00' ∉ assemblePrepared after segments := by
  induction segments with
  | nil =>
    obtain ⟨rest, rfl, hrest⟩ := h
    intro hmem
    rcases List.mem_append.mp hmem with hmem | hmem
    · exact absurd (hrest _ hmem) (by decide)
    · exact absurd hmem (by decide)
  | cons segment segments ih =>
    obtain ⟨before, name⟩ := segment
    obtain ⟨hbefore, -, hrest⟩ := h
    intro hmem
    rcases List.mem_append.mp hmem with hmem | hmem
    · exact absurd (hbefore _ hmem) (by decide)
    · rcases List.mem_cons.mp hmem with hmem | hmem
      · exact absurd hmem (by decide)
      · exact ih hrest hmem

theorem length_assembledPlaceholders : (assembledPlaceholders p segments).length
    = segments.length := by
  induction segments generalizing p with
  | nil => rfl
  | cons segment segments ih => exact congrArg (· + 1) ih

/-- **The `?`s are numbered from 1.** -/
theorem parameterNumber_assembled (h : CalmSegments after segments)
    (hplain : createsVirtual (tokens (assemblePrepared after segments)) = false)
    (hok : ∀ k ∈ tokens (assemblePrepared after segments), k.type ≠ .illegal)
    (hlimit : segments.length ≤ variableLimit) {i q : Nat}
    (hq : (assembledPlaceholders 0 segments)[i]? = some q) :
    parameterNumber (assemblePrepared after segments) q = some (i + 1) := by
  have hstring : cString (assemblePrepared after segments) = assemblePrepared after segments := by
    refine List.takeWhile_eq_self_iff.mpr fun a ha => decide_eq_true ?_
    rintro rfl
    exact nul_not_mem_assemblePrepared h ha
  have htokens : tokens (assemblePrepared after segments)
      = tokensFrom (assemblePrepared after segments).length 0 (assemblePrepared after segments) := by
    unfold tokens
    rw [hstring]
  have hparams := parameters_assembled (b := false) (p := 0) h (Nat.le_refl _) (htokens ▸ hok)
  rw [← htokens] at hparams
  have hparams : parametersOf (assemblePrepared after segments) = _ :=
    (if_neg (by simp [hplain])).trans hparams
  have hpair : (assembledPlaceholders 0 segments).Pairwise (· < ·) := by
    rw [← placeholders_assembled (p := 0)]
    exact pairwise_placeholders 0 0
  have hnumbers := (lookup_numbers_iff (s := ⟨0, []⟩)
    (pairwise_parameters (assemblePrepared after segments)) hpair
    (fun q _ w hw => by
      rw [hparams] at hw
      obtain ⟨_, -, heq⟩ := List.mem_map.mp hw
      exact (congrArg Prod.snd heq).symm)
    rfl (Nat.zero_le _) (fun e he => by cases he)).mpr
    (by
      rw [hparams]
      refine ownPlaceholders_self ?_
      rw [length_assembledPlaceholders]
      exact (Nat.zero_add _).trans_le hlimit)
  obtain ⟨hi, rfl⟩ := List.getElem?_eq_some_iff.mp hq
  have hnum : _ = some (0 + i + 1) := hnumbers i hi
  rwa [Nat.zero_add] at hnum

end

/-! ## The statement -/

def commaSeparated (words : List Text) : Text := [','].intercalate words

/-- The part in front of the values. -/
def insertColumns (names : List Text) : Text :=
  "INSERT INTO t (".toList ++ commaSeparated names ++ ") VALUES (".toList

/-- `INSERT INTO t (f1,…,fn) VALUES (?,…,?);` -/
def insertSql (names : List Text) : Text :=
  insertColumns names ++ commaSeparated (names.map fun _ => ['?']) ++ ");".toList

/-- Where its `i`-th value stands. -/
def valuePosition (names : List Text) (i : Nat) : Nat := (insertColumns names).length + 2 * i

/-- What the parameter of a number is when the statement runs: the last value bound to it, or
    NULL. -/
def boundTo (binds : List (Nat × Bind)) (number : Nat) : Cell :=
  (binds.reverse.lookup number).elim .null Bind.cell

/-- **What is relied on of SQLite** when it runs the INSERT of these columns: it runs only a
    statement all of whose tokens it accepts, with no more parameters than it can number; and the
    row that is left has the columns that are named, in the table's own order, with the values of
    the parameters that stand for them. Nothing is said of what the text is: that it is the
    INSERT (`insertSql`), with a `?` where each value stands, is for the parser to see to. -/
structure Stores (sql : Text) (names : List Text) (binds : List (Nat × Bind))
    (row : List (Text × Cell)) : Prop where
  accepted : ∀ k ∈ tokens sql, k.type ≠ .illegal
  limit : names.length ≤ variableLimit
  columns : (row.map Prod.fst).Perm names
  values : ∀ i name number, names[i]? = some name →
    parameterNumber sql (valuePosition names i) = some number →
    (name, boundTo binds number) ∈ row

/-- A statement that starts with another word is no CREATE VIRTUAL TABLE. -/
theorem createsVirtual_of_head {k : Token} {ks : List Token} (htype : k.type = .other)
    (hcreate : foldCase k.text ≠ "create".toList) (hexplain : foldCase k.text ≠ "explain".toList) :
    createsVirtual (k :: ks) = false := by
  obtain ⟨words, hwords⟩ : ∃ words, statementWords (k :: ks) = foldCase k.text :: words := by
    simp [statementWords, htype]
  have hhead : ∀ (w : Text) (ws : List Text), foldCase k.text ≠ w →
      (w :: ws).isPrefixOf (foldCase k.text :: words) = false := by
    intro w ws hne
    rw [List.isPrefixOf_cons_cons, beq_false_of_ne hne.symm, Bool.false_and]
  simp only [createsVirtual, hwords, List.any_cons, List.any_nil, List.map_cons,
    hhead _ _ hcreate, hhead _ _ hexplain, Bool.or_false]

theorem createsVirtual_insertSql (names : List Text) :
    createsVirtual (tokens (insertSql names)) = false := by
  obtain ⟨ks, hks⟩ : ∃ ks, tokens (insertSql names) = ⟨.other, 0, "INSERT".toList⟩ :: ks :=
    ⟨_, rfl⟩
  rw [hks]
  exact createsVirtual_of_head rfl (by decide) (by decide)

theorem commaSeparated_cons (word : Text) (words : List Text) :
    commaSeparated (word :: words) = word ++ words.flatMap (',' :: ·) := by
  unfold commaSeparated
  induction words generalizing word with
  | nil => simp
  | cons w words ih => rw [List.intercalate_cons_cons, ih]; simp

end OatppSqlite.Sqlite
