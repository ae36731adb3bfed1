import OatppSqlite.Caret

/-!
# SQLite's tokenizer

`sqlite3GetToken` of the vendored `sqlite3.c`, as far as a question about parameters needs it:
how long the token at the head of the text is, and whether it is a space, a `;`, a parameter,
something SQLite does not accept, or anything else. A C string ends at its first NUL, so the
text given here has none, and reading past its end is reading NUL.

The keywords are not told apart: a keyword is as long as the identifier it looks like, because
every letter a keyword may have is an identifier byte.
-/

set_option autoImplicit false

namespace OatppSqlite.Sqlite

/-- The `TK_` codes that are told apart here; `other` is every further one. -/
inductive TokenType where
  | space
  | semi
  | variable
  | illegal
  | other
  deriving DecidableEq, Repr

/-- The `CC_` classes of a token's first byte. -/
inductive CharClass where
  | x | kywd0 | kywd | digit | dollar | varalpha | varnum | space | quote | quote2 | pipe | minus
  | lt | gt | eq | bang | slash | lp | rp | semi | plus | star | percent | comma | and | tilda
  | dot | id | illegal | nul | bom
  deriving DecidableEq, Repr

def isDigit (c : Char) : Bool := '0' ≤ c && c ≤ '9'

def isXdigit (c : Char) : Bool :=
  isDigit c || ('a' ≤ c && c ≤ 'f') || ('A' ≤ c && c ≤ 'F')

def isLetter (c : Char) : Bool := ('a' ≤ c && c ≤ 'z') || ('A' ≤ c && c ≤ 'Z')

/-- Keywords and names are compared without regard to ASCII case. -/
def foldCase (t : Text) : Text :=
  t.map fun a => if 'A' ≤ a ∧ a ≤ 'Z' then Char.ofNat (a.toNat + 32) else a

/-- `sqlite3Isspace`. -/
def isSpace (c : Char) : Bool := c == ' ' || ('\x09' ≤ c && c ≤ '\x0d')

/-- `IdChar`: letters, digits, `_`, `$` and every byte from 0x80 on. -/
def idChar (c : Char) : Bool :=
  isLetter c || isDigit c || c == '_' || c == '$' || '\x80' ≤ c

/-- The entries of the table `aiClass` below 0x80 that are no letters, digits or `_`; the other
    bytes below 0x80 are illegal. -/
def asciiClass : List (Char × CharClass) :=
  [('\x00', .nul), ('\x09', .space), ('\x0a', .space), ('\x0c', .space), ('\x0d', .space),
   (' ', .space), ('!', .bang), ('"', .quote), ('#', .varalpha), ('$', .dollar), ('%', .percent),
   ('&', .and), ('\'', .quote), ('(', .lp), (')', .rp), ('*', .star), ('+', .plus),
   (',', .comma), ('-', .minus), ('.', .dot), ('/', .slash), (':', .varalpha), (';', .semi),
   ('<', .lt), ('=', .eq), ('>', .gt), ('?', .varnum), ('@', .varalpha), ('[', .quote2),
   ('`', .quote), ('|', .pipe), ('~', .tilda)]

/-- The table `aiClass`. -/
def aiClass (c : Char) : CharClass :=
  if c = 'x' ∨ c = 'X' then .x
  else if c = 'y' ∨ c = 'Y' ∨ c = 'z' ∨ c = 'Z' ∨ c = '_' then .kywd
  else if isLetter c then .kywd0
  else if isDigit c then .digit
  else if c = '\xef' then .bom
  else if '\x80' ≤ c then .id
  else (asciiClass.lookup c).getD .illegal

/-! ## The loops of `sqlite3GetToken`

Each is given the text behind the bytes that were already read, and answers how many bytes it
reads. -/

/-- The length of the run of bytes that satisfy `p`. -/
def runLength (p : Char → Bool) (t : Text) : Nat := (t.takeWhile p).length

/-- A string or a quoted identifier behind its opening delimiter, and whether it is closed. -/
def quoted (delim : Char) : Text → Bool × Nat
  | [] => (false, 0)
  | c :: t =>
    if c = delim then
      match t with
      | [] => (true, 1)
      | c' :: t' => if c' = delim then (quoted delim t').map id (· + 2) else (true, 1)
    else (quoted delim t).map id (· + 1)

/-- A bracketed identifier behind its `[`. -/
def bracketed : Text → Bool × Nat
  | [] => (false, 0)
  | c :: t => if c = ']' then (true, 1) else (bracketed t).map id (· + 1)

/-- A C comment behind its opening; an unclosed one goes on to the end. -/
def blockComment : Text → Nat
  | [] => 0
  | c :: t => if ['*', '/'] <+: c :: t then 2 else blockComment t + 1

/-- A `:name`, `@name`, `#name` or `$name` behind its first byte; `n` identifier bytes were
    read. A Tcl suffix in parentheses belongs to the name, and so does every `::`. -/
def varAlpha (n : Nat) : Text → Bool × Nat
  | [] => (0 < n, 0)
  | c :: t =>
    if idChar c then (varAlpha (n + 1) t).map id (· + 1)
    else if c = '(' ∧ 0 < n then
      let k := runLength (fun a => !isSpace a && a != ')') t
      if (t.drop k).head? = some ')' then (true, k + 2) else (false, k + 1)
    else if c = ':' then
      match t with
      | [] => (0 < n, 0)
      | c' :: t' => if c' = ':' then (varAlpha n t').map id (· + 2) else (0 < n, 0)
    else (0 < n, 0)

/-- The exponent of a number, when there is one. -/
def exponent (t : Text) : Nat :=
  if t.head? = some 'e' ∨ t.head? = some 'E' then
    if t[1]?.any isDigit ∨ (t[1]? = some '+' ∨ t[1]? = some '-') ∧ t[2]?.any isDigit then
      2 + runLength isDigit (t.drop 2)
    else 0
  else 0

/-- A number, and whether identifier bytes hang on to it. -/
def number (z : Text) : Bool × Nat :=
  if (z.head? = some '0' ∧ (z[1]? = some 'x' ∨ z[1]? = some 'X')) ∧ z[2]?.any isXdigit then
    (true, 2 + runLength isXdigit (z.drop 2))
  else
    let i := runLength isDigit z
    let i := if (z.drop i).head? = some '.' then i + 1 + runLength isDigit (z.drop (i + 1)) else i
    let i := i + exponent (z.drop i)
    let k := runLength idChar (z.drop i)
    (k = 0, i + k)

/-- A blob literal behind its `x'`, and whether it is well formed. -/
def blob (t : Text) : Bool × Nat :=
  let k := runLength isXdigit t
  if (t.drop k).head? = some '\'' ∧ k % 2 = 0 then (true, k + 1)
  else
    let j := k + runLength (· ≠ '\'') (t.drop k)
    (false, if (t.drop j).head? = some '\'' then j + 1 else j)

/-- The type of a token that is accepted only if its scan says so. -/
def acceptIf (type : TokenType) (r : Bool × Nat) : TokenType × Nat :=
  (if r.1 then type else .illegal, r.2)

/-- `sqlite3GetToken` at `c :: t`: the type and the length of the token there. -/
def getToken (c : Char) (t : Text) : TokenType × Nat :=
  match aiClass c with
  | .space => (.space, 1 + runLength isSpace t)
  | .minus =>
    if t.head? = some '-' then (.space, 2 + runLength (· ≠ '\n') (t.drop 1))
    else if t.head? = some '>' then (.other, if t[1]? = some '>' then 3 else 2)
    else (.other, 1)
  | .semi => (.semi, 1)
  | .slash =>
    if t.head? ≠ some '*' ∨ t.drop 1 = [] then (.other, 1)
    else (.space, 2 + blockComment (t.drop 1))
  | .eq => (.other, if t.head? = some '=' then 2 else 1)
  | .lt =>
    (.other, if t.head? = some '=' ∨ t.head? = some '>' ∨ t.head? = some '<' then 2 else 1)
  | .gt => (.other, if t.head? = some '=' ∨ t.head? = some '>' then 2 else 1)
  | .bang => if t.head? = some '=' then (.other, 2) else (.illegal, 1)
  | .pipe => (.other, if t.head? = some '|' then 2 else 1)
  | .lp | .rp | .plus | .star | .percent | .comma | .and | .tilda => (.other, 1)
  | .quote => (acceptIf .other (quoted c t)).map id (· + 1)
  | .dot => if t.head?.any isDigit then acceptIf .other (number (c :: t)) else (.other, 1)
  | .digit => acceptIf .other (number (c :: t))
  | .quote2 => (acceptIf .other (bracketed t)).map id (· + 1)
  | .varnum => (.variable, 1 + runLength isDigit t)
  | .dollar | .varalpha => (acceptIf .variable (varAlpha 0 t)).map id (· + 1)
  | .x =>
    if t.head? = some '\'' then (acceptIf .other (blob (t.drop 1))).map id (· + 2)
    else (.other, 1 + runLength idChar t)
  | .kywd0 | .kywd | .id => (.other, 1 + runLength idChar t)
  | .bom =>
    if ['\xbb', '\xbf'] <+: t then (.space, 3) else (.other, 1 + runLength idChar t)
  | .nul => (.illegal, 0)
  | .illegal => (.illegal, 1)

/-- The text a C string shows: what stands before its first NUL. -/
def cString (t : Text) : Text := t.takeWhile (· ≠ '\x00')

/-- A token: its type, where it starts and its bytes. -/
structure Token where
  type : TokenType
  start : Nat
  text : Text
  deriving DecidableEq, Repr

/-- The tokens of a text, one `sqlite3GetToken` after another. The bound is the length of the
    text: every token is at least one byte long. -/
def tokensFrom : Nat → Nat → Text → List Token
  | 0, _, _ => []
  | _ + 1, _, [] => []
  | n + 1, p, c :: t =>
    let (type, k) := getToken c t
    ⟨type, p, (c :: t).take k⟩ :: tokensFrom n (p + k) ((c :: t).drop k)

def tokens (sql : Text) : List Token :=
  let z := cString sql
  tokensFrom z.length 0 z

example : (tokens "a=:b -- :c".toList).map (fun k => (k.type, k.start, k.text.length))
    = [(.other, 0, 1), (.other, 1, 1), (.variable, 2, 2), (.space, 4, 1), (.space, 5, 5)] := by
  decide +kernel

/-! ## Every token takes a byte -/

section

variable {c : Char} {t : Text} {k : CharClass}

theorem runLength_cons_pos {p : Char → Bool} (h : p c = true) :
    runLength p (c :: t) = runLength p t + 1 := by
  unfold runLength
  rw [List.takeWhile_cons_of_pos h, List.length_cons]

theorem runLength_cons_neg {p : Char → Bool} (h : p c = false) : runLength p (c :: t) = 0 := by
  unfold runLength
  rw [List.takeWhile_cons_of_neg (by simp [h])]
  rfl

/-- A run ends where a byte is not in it. -/
theorem runLength_append {p : Char → Bool} {rest : Text} (ht : ∀ x ∈ t, p x = true)
    (hrest : rest.head?.any p = false) : runLength p (t ++ rest) = t.length := by
  have hstop : rest.takeWhile p = [] := by
    cases rest with
    | nil => rfl
    | cons x rest => exact List.takeWhile_cons_of_neg (by simpa using hrest)
  unfold runLength
  rw [List.takeWhile_append_of_pos ht, hstop, List.append_nil]

theorem mem_of_lookup {l : List (Char × CharClass)} (h : l.lookup c = some k) : (c, k) ∈ l := by
  obtain ⟨l₁, l₂, rfl, -⟩ := List.lookup_eq_some_iff.mp h
  exact List.mem_append_right _ List.mem_cons_self

/-- A class that is neither a letter's nor a high byte's comes from the table. -/
theorem mem_asciiClass (h : aiClass c = k) (hx : k ≠ .x) (hk : k ≠ .kywd) (h0 : k ≠ .kywd0)
    (hd : k ≠ .digit) (hb : k ≠ .bom) (hi : k ≠ .id) (hn : k ≠ .illegal) :
    (c, k) ∈ asciiClass := by
  unfold aiClass at h
  split_ifs at h
  · exact absurd h.symm hx
  · exact absurd h.symm hk
  · exact absurd h.symm h0
  · exact absurd h.symm hd
  · exact absurd h.symm hb
  · exact absurd h.symm hi
  cases hl : asciiClass.lookup c with
  | none =>
    rw [hl] at h
    exact absurd h.symm hn
  | some k' =>
    rw [hl] at h
    obtain rfl : k' = k := h
    exact mem_of_lookup hl

theorem eq_of_aiClass_nul (h : aiClass c = .nul) : c = '\x00' := by
  have hm := mem_asciiClass h (by decide) (by decide) (by decide) (by decide) (by decide)
    (by decide) (by decide)
  simpa [asciiClass] using hm

theorem eq_of_aiClass_dot (h : aiClass c = .dot) : c = '.' := by
  have hm := mem_asciiClass h (by decide) (by decide) (by decide) (by decide) (by decide)
    (by decide) (by decide)
  simpa [asciiClass] using hm

theorem isDigit_of_aiClass (h : aiClass c = .digit) : isDigit c = true := by
  by_contra hd
  unfold aiClass at h
  split_ifs at h
  cases hl : asciiClass.lookup c with
  | none =>
    rw [hl] at h
    cases h
  | some k' =>
    rw [hl] at h
    obtain rfl : k' = .digit := h
    have hm := mem_of_lookup hl
    simp [asciiClass] at hm

theorem number_pos_of_digit (h : isDigit c = true) : 0 < (number (c :: t)).2 := by
  unfold number
  split_ifs
  · show 0 < 2 + _
    omega
  · simp only [runLength_cons_pos h]
    split <;> omega

theorem number_pos_of_dot : 0 < (number ('.' :: t)).2 := by
  have h0 : runLength isDigit ('.' :: t) = 0 := runLength_cons_neg (by decide)
  unfold number
  rw [if_neg (fun h => nomatch h.1.1)]
  simp only [h0, List.drop_zero, List.head?_cons, if_true]
  omega

/-- **Every token takes a byte**, except the one that is no token: the end of the text. -/
theorem getToken_pos (hc : c ≠ '\x00') : 0 < (getToken c t).2 := by
  unfold getToken
  cases hcl : aiClass c with
  | nul => exact absurd (eq_of_aiClass_nul hcl) hc
  | digit => exact number_pos_of_digit (isDigit_of_aiClass hcl)
  | dot =>
    obtain rfl := eq_of_aiClass_dot hcl
    dsimp only
    split
    · have hnumber : 0 < (number ('.' :: t)).2 := number_pos_of_dot
      exact hnumber
    · exact Nat.one_pos
  | minus | slash | eq | lt | gt | bang | pipe | x | bom =>
    dsimp only [Prod.map, acceptIf]
    split_ifs <;> first | exact Nat.succ_pos _ | exact Nat.add_pos_left (Nat.succ_pos _) _
  | _ =>
    dsimp only [Prod.map, acceptIf]
    omega

end

end OatppSqlite.Sqlite
