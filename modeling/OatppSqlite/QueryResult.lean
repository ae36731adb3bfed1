import OatppSqlite.Lib.Feed
import OatppSqlite.Lib.Search
import OatppSqlite.Mapping.Texts

/-!
# `QueryResult.cpp`

A query result owns a statement and the cursor over it, and `fetch` hands out its rows. The
cursor stands one step ahead of them, and `OnRow` / `AtEnd` say exactly where: on row number
`rowIndex` with that many rows delivered, or behind the last one. `next_stands` is the step
lemma.

What a call comes to is said of the rows that are still to come, as SQLite shows them
(`ResultData.rest`). They are the feed that a call takes its items of (`readRowsBody_takes`,
`fetch_takes`), and a call that throws leaves the row it threw at as the first of them, with the
BLOBs that it read as texts shown as texts (`leftRow`). `fetches_deliver` puts the calls of any
sequence together.

So much can be said only for types whose items can be made. Of all types, the cursor keeps its
place (`fetches_stands`), and that is what the flags and the message of a result depend on
(`getErrorMessage_iff`).
-/

set_option autoImplicit false

namespace OatppSqlite

open Mapping Sqlite

variable {τ : Type}

/-- `QueryResult`, but for the connection, which no method here reads. -/
structure QueryResult (τ : Type) where
  resultMapper : ResultMapper τ
  typeResolver : TypeResolver τ
  resultData : ResultData
  errorMessage : String

namespace QueryResult

/-- `QueryResult::QueryResult`: the message is `sqlite3_errmsg` after the first step. -/
def construct (stmt : Statement) (resultMapper : ResultMapper τ)
    (typeResolver : TypeResolver τ) : QueryResult τ :=
  ⟨resultMapper, typeResolver, ResultData.construct stmt, stmt.step.1.errmsg⟩

def isSuccess (q : QueryResult τ) : Bool := q.resultData.isSuccess

def getErrorMessage (q : QueryResult τ) : String := q.errorMessage

def getPosition (q : QueryResult τ) : Nat := q.resultData.rowIndex

def hasMoreToFetch (q : QueryResult τ) : Bool := q.resultData.hasMore

/-- What a call of `fetch` comes to: the collection that was built, and the error if it threw
    (a caller then never sees the collection). -/
structure Fetched (τ : Type) where
  collection : List (Mapping.Void τ)
  thrown : Option MapError

variable [DecidableEq τ]

/-- A portion, as the outcome of a call. -/
def Fetched.ofPortion (portion : Feed.Portion (Mapping.Void τ) MapError) : Fetched τ :=
  ⟨portion.items, portion.error⟩

/-- `QueryResult::fetch`; `fuel` bounds the chains of interpretations. -/
def fetch (env : TypeEnv τ) (fuel : Nat) (q : QueryResult τ) (type : τ) (count : Int) :
    Option (Fetched τ × QueryResult τ) := do
  let (s, thrown) ← readRows env q.resultMapper q.typeResolver fuel q.resultData type count
  return (⟨s.collection, thrown⟩, { q with resultData := s.dbData })

/-- A sequence of calls, each with its type and count. -/
def fetches (env : TypeEnv τ) (fuel : Nat) (q : QueryResult τ) :
    List (τ × Int) → Option (List (Fetched τ) × QueryResult τ)
  | [] => some ([], q)
  | (type, count) :: calls => do
    let (out, q) ← q.fetch env fuel type count
    let (outs, q) ← q.fetches env fuel calls
    return (out :: outs, q)

end QueryResult

/-! ## Where the cursor stands

SQLite's statement counts its own steps (`next`, `codes`), the cursor counts the rows that were
delivered, and the two are one apart as long as there are rows. The row that the statement stands
on is compared up to `ShownAs` only: a call that threw may have made a TEXT of a BLOB in it. The
rows behind it nobody has looked at. -/

/-- The rows that are still to come, as SQLite shows them: the one that the statement stands on,
    and those behind it. -/
def Mapping.ResultData.rest (d : ResultData) : List (List Cell) :=
  if d.hasMore then d.stmt.current.toList ++ d.stmt.rows.drop d.stmt.next else []

/-- Of a query result. -/
def QueryResult.rest (q : QueryResult τ) : List (List Cell) := q.resultData.rest

section Cursor

variable {stmt : Statement} {d : ResultData} {shown : List Cell}

/-- The cursor stands on row `rowIndex`: every step so far gave a row. -/
structure OnRow (rows : List (List Cell)) (d : ResultData) : Prop where
  hasMore : d.hasMore = true
  isSuccess : d.isSuccess = true
  lt : d.rowIndex < rows.length
  next : d.stmt.next = d.rowIndex + 1
  current : Option.Rel ShownAs rows[d.rowIndex]? d.stmt.current
  codes : d.stmt.codes = List.replicate (d.rowIndex + 1) .row

/-- The cursor stands behind the last row: the last step gave the last answer. -/
structure AtEnd (rows : List (List Cell)) (last : LastCode) (d : ResultData) : Prop where
  hasMore : d.hasMore = false
  isSuccess : d.isSuccess = decide (last.val = .done)
  rowIndex : d.rowIndex = rows.length
  current : d.stmt.current = none
  codes : d.stmt.codes = List.replicate rows.length .row ++ [last.val]

/-- The cursor over a statement: it belongs to it, and stands on a row or at the end. -/
structure Stands (stmt : Statement) (d : ResultData) : Prop where
  rows : d.stmt.rows = stmt.rows
  last : d.stmt.last = stmt.last
  colNames : d.colNames = stmt.columns
  place : OnRow stmt.rows d ∨ AtEnd stmt.rows stmt.last d

theorem Stands.rowIndex_le (h : Stands stmt d) : d.rowIndex ≤ stmt.rows.length := by
  rcases h.place with h | h
  · exact Nat.le_of_lt h.lt
  · exact Nat.le_of_eq h.rowIndex

/-- The row that the statement stands on, as it is shown. -/
theorem OnRow.exists_current {rows : List (List Cell)} (h : OnRow rows d) :
    ∃ r shown, rows[d.rowIndex]? = some r ∧ d.stmt.current = some shown ∧ ShownAs r shown := by
  have hcurrent := h.current
  cases hr : rows[d.rowIndex]? with
  | none => exact absurd h.lt (Nat.not_lt.mpr (List.getElem?_eq_none_iff.mp hr))
  | some r =>
    rw [hr] at hcurrent
    cases hshown : d.stmt.current with
    | none =>
      rw [hshown] at hcurrent
      cases hcurrent
    | some shown =>
      rw [hshown] at hcurrent
      cases hcurrent with
      | some hrow => exact ⟨r, shown, rfl, rfl, hrow⟩

theorem OnRow.rest_eq (h : OnRow stmt.rows d) (hrows : d.stmt.rows = stmt.rows)
    (hshown : d.stmt.current = some shown) :
    d.rest = shown :: stmt.rows.drop (d.rowIndex + 1) := by
  unfold ResultData.rest
  rw [if_pos h.hasMore, hshown, hrows, h.next]
  rfl

theorem AtEnd.rest_eq {rows : List (List Cell)} {last : LastCode} (h : AtEnd rows last d) :
    d.rest = [] :=
  if_neg (by rw [h.hasMore]; exact Bool.false_ne_true)

/-- The rows to come are those of the statement behind the delivered ones. -/
theorem Stands.rest_shown (h : Stands stmt d) :
    List.Forall₂ ShownAs (stmt.rows.drop d.rowIndex) d.rest := by
  rcases h.place with hon | hend
  · obtain ⟨r, shown, hr, hcurrent, hrow⟩ := hon.exists_current
    rw [hon.rest_eq h.rows hcurrent, List.drop_eq_cons_iff.mpr ⟨hr, rfl⟩]
    refine .cons hrow (List.forall₂_same.mpr ?_)
    intro r _
    exact ShownAs.refl r
  · rw [hend.rest_eq, hend.rowIndex, List.drop_length]
    exact .nil

/-- Only the row that it stands on may be shown as what it is not. -/
theorem Stands.tail_rest (h : Stands stmt d) :
    d.rest.tail = stmt.rows.drop (d.rowIndex + 1) := by
  rcases h.place with hon | hend
  · obtain ⟨r, shown, -, hcurrent, -⟩ := hon.exists_current
    rw [hon.rest_eq h.rows hcurrent]
    rfl
  · rw [hend.rest_eq, hend.rowIndex, List.drop_eq_nil_of_le (Nat.le_succ _)]
    rfl

/-- `next`, from a cursor all of whose steps gave rows: it stands on the row it counted to, or
    at the end, and shows the rows as they are. -/
theorem next_stands (hrows : d.stmt.rows = stmt.rows) (hlast : d.stmt.last = stmt.last)
    (hnames : d.colNames = stmt.columns) (hle : d.rowIndex ≤ stmt.rows.length)
    (hnext : d.stmt.next = d.rowIndex)
    (hcodes : d.stmt.codes = List.replicate d.rowIndex .row) :
    Stands stmt d.next ∧ d.next.rest = stmt.rows.drop d.rowIndex := by
  cases hr : stmt.rows[d.rowIndex]? with
  | some r =>
    have hrow : d.stmt.rows[d.stmt.next]? = some r := by rw [hrows, hnext, hr]
    have hlt : d.rowIndex < stmt.rows.length := (List.getElem?_eq_some_iff.mp hr).1
    rw [ResultData.next_row hrow, Statement.step_row hrow]
    have hon : OnRow stmt.rows { d with
        stmt := { d.stmt with
          next := d.stmt.next + 1, current := some r, codes := d.stmt.codes ++ [.row] },
        hasMore := true, isSuccess := true } := by
      refine ⟨rfl, rfl, hlt, congrArg (· + 1) hnext, ?_, ?_⟩
      · show Option.Rel ShownAs stmt.rows[d.rowIndex]? (some r)
        rw [hr]
        exact .some (ShownAs.refl r)
      · show d.stmt.codes ++ [.row] = List.replicate (d.rowIndex + 1) .row
        rw [hcodes, List.replicate_succ']
    refine ⟨⟨hrows, hlast, hnames, Or.inl hon⟩, ?_⟩
    rw [hon.rest_eq hrows rfl]
    exact (List.drop_eq_cons_iff.mpr ⟨hr, rfl⟩).symm
  | none =>
    have hlen : d.rowIndex = stmt.rows.length :=
      Nat.le_antisymm hle (List.getElem?_eq_none_iff.mp hr)
    have hnone : d.stmt.rows[d.stmt.next]? = none := by rw [hrows, hnext, hr]
    rw [ResultData.next_last hnone, Statement.step_last hnone, hlast]
    refine ⟨⟨hrows, rfl, hnames, Or.inr ⟨rfl, rfl, hlen, rfl, ?_⟩⟩, ?_⟩
    · show d.stmt.codes ++ [stmt.last.val]
        = List.replicate stmt.rows.length .row ++ [stmt.last.val]
      rw [hcodes, hlen]
    · rw [hlen, List.drop_length]
      rfl

/-- The constructor's step brings the cursor to the first row, or to the end. -/
theorem construct_stands (hnext : stmt.next = 0) (hcodes : stmt.codes = []) :
    Stands stmt (ResultData.construct stmt) ∧ (ResultData.construct stmt).rest = stmt.rows := by
  have h := @next_stands stmt ⟨stmt, stmt.columns, 0, false, false⟩ rfl rfl rfl (Nat.zero_le _)
    hnext hcodes
  have heq : ResultData.construct stmt
      = ResultData.next ⟨stmt, stmt.columns, 0, false, false⟩ := by
    unfold ResultData.construct ResultData.next
    rcases stmt.step with ⟨⟨⟩, stmt'⟩ <;> rfl
  rw [heq]
  exact h

/-- A row that was delivered is stepped past. -/
theorem OnRow.next_stands (h : OnRow stmt.rows d) (hstands : Stands stmt d) :
    Stands stmt (ResultData.next { d with rowIndex := d.rowIndex + 1 }) ∧
      (ResultData.next { d with rowIndex := d.rowIndex + 1 }).rest = d.rest.tail := by
  obtain ⟨r, shown, -, hcurrent, -⟩ := h.exists_current
  rw [h.rest_eq hstands.rows hcurrent]
  exact OatppSqlite.next_stands hstands.rows hstands.last hstands.colNames h.lt h.next h.codes

/-- A row that a call throws at stays, in its place. -/
theorem OnRow.thrownAt_stands (h : OnRow stmt.rows d) (hstands : Stands stmt d)
    (texts : List Bool) :
    Stands stmt (d.thrownAt texts) ∧
      (d.thrownAt texts).rest = d.rest.modifyHead (textCalled texts) := by
  obtain ⟨r, shown, hr, hcurrent, hrow⟩ := h.exists_current
  have hcurrent' : (d.thrownAt texts).stmt.current = some (textCalled texts shown) := by
    show d.stmt.current.map (textCalled texts) = _
    rw [hcurrent]
    rfl
  have hon : OnRow stmt.rows (d.thrownAt texts) := by
    refine ⟨h.hasMore, h.isSuccess, h.lt, h.next, ?_, h.codes⟩
    rw [hcurrent']
    show Option.Rel ShownAs stmt.rows[d.rowIndex]? _
    rw [hr]
    exact .some (hrow.textCalled texts)
  refine ⟨⟨hstands.rows, hstands.last, hstands.colNames, Or.inl hon⟩, ?_⟩
  rw [hon.rest_eq hstands.rows hcurrent', h.rest_eq hstands.rows hcurrent]
  rfl

end Cursor

/-! ## One call

A pass of the loop delivers a row, or it stops: with an exception, with the count, or at the end of
the rows. `Taking` is what the loop keeps, and a part of it is that what is left of the feed is the
feed of the rows that are left, so the row that is read next is the feed's next item. -/

section Fetch

variable {env : TypeEnv τ} {fuel : Nat} {stmt : Statement} {mapper : ResultMapper τ}
  {typeResolver : TypeResolver τ} {type : τ} {count : Int} {p : Nat}

/-- What `readOneRow` makes of a row, as it is shown. -/
def readRow (env : TypeEnv τ) (mapper : ResultMapper τ) (typeResolver : TypeResolver τ)
    (fuel : Nat) (columns : List Text) (type : τ) (r : List Cell) : Mapped (Mapping.Void τ) :=
  readOneRow env mapper typeResolver (namedRow columns (some r)) fuel (env.itemType type)

variable [DecidableEq τ]

/-- How a row is shown after a call has thrown at it. -/
def leftRow (env : TypeEnv τ) (mapper : ResultMapper τ) (typeResolver : TypeResolver τ)
    (fuel : Nat) (columns : List Text) (type : τ) (r : List Cell) : List Cell :=
  textCalled (textColumns env mapper typeResolver (namedRow columns (some r)) fuel
    (env.itemType type)) r

/-- **The next call for the type** finds the row as it was. -/
theorem readRow_leftRow (henv : env.Lawful) (conv : Conversions) (classCount : Nat)
    (columns : List Text) (r : List Cell) :
    readRow env (.construct env conv classCount) typeResolver fuel columns type
        (leftRow env (.construct env conv classCount) typeResolver fuel columns type r)
      = readRow env (.construct env conv classCount) typeResolver fuel columns type r := by
  unfold readRow leftRow
  rw [namedRow_textCalled, readOneRow_again henv]

/-- The rows that a call leaves of those behind the ones it has delivered. -/
def rowsLeft (leave : List Cell → List Cell) (thrown : Option MapError)
    (rows : List (List Cell)) : List (List Cell) :=
  if thrown.isSome then rows.modifyHead leave else rows

/-- How many rows a count asks for; a negative one asks for all. -/
def asked (count : Int) : Option Nat := if count < 0 then none else some count.toNat

/-- How many rows a call that returns delivers, out of `rest`. -/
def wanted (count : Int) (rest : Nat) : Nat := if count < 0 then rest else min count.toNat rest

/-- The loop of `readRowsAsCollection` at the head of a pass: what it has taken off the feed of
    the rows that were to come, and what is left of them. -/
structure Taking (read : List Cell → Mapped (Mapping.Void τ)) (stmt : Statement)
    (rest : List (List Cell)) (p : Nat) (feed : Feed (Mapping.Void τ) MapError) (count : Int)
    (s : FetchState τ) : Prop where
  stands : Stands stmt s.dbData
  position : s.dbData.rowIndex = p + s.collection.length
  counted : 0 < count → s.counter = s.collection.length ∧ s.counter < count
  rest : s.dbData.rest = rest.drop s.collection.length
  left : ∃ feed', Feed.Of read s.dbData.rest feed' ∧
    feed = ⟨s.collection ++ feed'.items, feed'.error⟩

/-- What it ends with: a portion of the feed. -/
structure Taken (leave : List Cell → List Cell) (stmt : Statement) (rest : List (List Cell))
    (p : Nat) (feed : Feed (Mapping.Void τ) MapError) (count : Int) (s : FetchState τ)
    (thrown : Option MapError) : Prop where
  stands : Stands stmt s.dbData
  position : s.dbData.rowIndex = p + s.collection.length
  rest : s.dbData.rest = rowsLeft leave thrown (rest.drop s.collection.length)
  portion : (feed.take (asked count)).1 = ⟨s.collection, thrown⟩

section

variable {read : List Cell → Mapped (Mapping.Void τ)} {rest : List (List Cell)}
  {feed : Feed (Mapping.Void τ) MapError} {d : ResultData}

omit [DecidableEq τ] in
/-- The loop has not taken what was asked for. -/
theorem Taking.short {s : FetchState τ} (hcount : count ≠ 0)
    (h : Taking read stmt rest p feed count s) :
    ∀ k, asked count = some k → s.collection.length < k := by
  intro k hk
  unfold asked at hk
  split at hk
  · cases hk
  · cases hk
    obtain ⟨hcounter, hlt⟩ := h.counted (by omega)
    omega

variable (env mapper typeResolver type fuel) in
/-- The row that the cursor stands on is the next one to come. -/
theorem OnRow.reads (hon : OnRow stmt.rows d) (hstands : Stands stmt d) :
    ∃ shown, d.rest = shown :: d.rest.tail ∧
      readOneRow env mapper typeResolver d.row fuel (env.itemType type)
        = readRow env mapper typeResolver fuel stmt.columns type shown ∧
      textCalled (textColumns env mapper typeResolver d.row fuel (env.itemType type)) shown
        = leftRow env mapper typeResolver fuel stmt.columns type shown := by
  obtain ⟨r, shown, -, hcurrent, -⟩ := hon.exists_current
  refine ⟨shown, ?_, ?_, ?_⟩
  · rw [hon.rest_eq hstands.rows hcurrent]
    rfl
  · unfold readRow ResultData.row
    rw [hcurrent, hstands.colNames]
  · unfold leftRow ResultData.row
    rw [hcurrent, hstands.colNames]

/-- **One pass of the loop.** -/
theorem readRowsBody_takes (hcount : count ≠ 0)
    (hadd : ∀ items v, env.addItem type items v = items ++ [v]) :
    Loop.Keeps (readRowsBody env mapper typeResolver fuel type count)
      (Taking (readRow env mapper typeResolver fuel stmt.columns type) stmt rest p feed count)
      (fun s => stmt.rows.length - s.dbData.rowIndex)
      (fun r => Taken (leftRow env mapper typeResolver fuel stmt.columns type) stmt rest p feed
        count r.1 r.2) := by
  rintro ⟨d, collection, counter⟩ h
  have hshort := h.short hcount
  obtain ⟨hstands, hposition, hcounted, hrest, feed', hof, rfl⟩ := h
  dsimp only at hstands hposition hcounted hrest hof hshort ⊢
  rcases hstands.place with hon | hend
  · obtain ⟨shown, hhead, hrow, hleft⟩ := hon.reads env fuel mapper typeResolver type hstands
    have hmore : d.hasMore = true := hon.hasMore
    rw [hhead] at hof
    cases hof with
    | @error _ e _ hmake =>
      -- the row stays where it is, as the call leaves it
      obtain ⟨hstands', hrest'⟩ := hon.thrownAt_stands hstands
        (textColumns env mapper typeResolver d.row fuel (env.itemType type))
      refine Or.inr ⟨(⟨d.thrownAt (textColumns env mapper typeResolver d.row fuel
        (env.itemType type)), collection, counter⟩, some e), ?_, ⟨hstands', hposition, ?_, ?_⟩⟩
      · simp only [readRowsBody, hmore, if_true, hrow, hmake]
      · show (d.thrownAt _).rest = (rest.drop collection.length).modifyHead _
        rw [hrest', ← hrest, hhead, List.modifyHead_cons, List.modifyHead_cons, hleft]
      · rw [List.append_nil, Feed.take_short hshort]
        rfl
    | @ok _ v _ feed' hmake hrest' =>
      obtain ⟨d', hd'⟩ : ∃ d', ResultData.next { d with rowIndex := d.rowIndex + 1 } = d' :=
        ⟨_, rfl⟩
      have hindex : d'.rowIndex = d.rowIndex + 1 := by
        rw [← hd']
        exact ResultData.next_rowIndex
      obtain ⟨hnext, htail⟩ := hon.next_stands hstands
      rw [hd'] at hnext htail
      have hposition' : d'.rowIndex = p + (collection ++ [v]).length := by
        rw [hindex, hposition, List.length_append, List.length_singleton, Nat.add_assoc]
      have hdrop : d'.rest = rest.drop (collection ++ [v]).length := by
        rw [htail, hrest, List.tail_drop, List.length_append, List.length_singleton]
      rw [← htail] at hrest'
      have hmeasure : stmt.rows.length - d'.rowIndex < stmt.rows.length - d.rowIndex := by
        have hlt := hon.lt
        omega
      rw [hmore] at hd'
      by_cases hpos : 0 < count
      · obtain ⟨hcounter, hlt⟩ := hcounted hpos
        by_cases hfull : counter + 1 = count
        · -- the last item that was asked for
          have hasked : asked count = some (collection.length + 1) := by
            rw [asked, if_neg (by omega)]
            congr 1
            omega
          refine Or.inr ⟨(⟨d', collection ++ [v], counter + 1⟩, none), ?_, ⟨hnext, hposition',
            hdrop, ?_⟩⟩
          · simp only [readRowsBody, hmore, if_true, hrow, hmake, hadd, hpos, hfull, hd']
          · rw [hasked, Feed.take_full]
        · refine Or.inl ⟨⟨d', collection ++ [v], counter + 1⟩, ?_, ⟨hnext, hposition', fun _ => ?_,
            hdrop, feed', hrest', ?_⟩, hmeasure⟩
          · simp only [readRowsBody, hmore, if_true, hrow, hmake, hadd, hpos, hfull, if_false, hd']
          · show counter + 1 = ((collection ++ [v]).length : Int) ∧ counter + 1 < count
            rw [List.length_append, List.length_singleton]
            omega
          · rw [List.append_assoc]
            rfl
      · refine Or.inl ⟨⟨d', collection ++ [v], counter⟩, ?_, ⟨hnext, hposition',
          fun h => absurd h hpos, hdrop, feed', hrest', ?_⟩, hmeasure⟩
        · simp only [readRowsBody, hmore, if_true, hrow, hmake, hadd, hpos, if_false, hd']
        · rw [List.append_assoc]
          rfl
  · -- the rows are all delivered
    have hmore : d.hasMore = false := hend.hasMore
    refine Or.inr ⟨(⟨d, collection, counter⟩, none), ?_, ⟨hstands, hposition, hrest, ?_⟩⟩
    · simp only [readRowsBody, hmore, Bool.false_eq_true, if_false]
    · rw [hend.rest_eq] at hof
      cases hof
      rw [List.append_nil, Feed.take_short hshort]
      rfl

variable (count) in
/-- **`readRowsAsCollection`** takes a portion, from wherever the cursor stands. -/
theorem readRowsAsCollection_takes (hstands : Stands stmt d)
    (hadd : ∀ items v, env.addItem type items v = items ++ [v])
    (hof : Feed.Of (readRow env mapper typeResolver fuel stmt.columns type) d.rest feed) :
    ∃ s thrown, readRowsAsCollection env mapper typeResolver fuel d type count
        = some (s, thrown) ∧
      Taken (leftRow env mapper typeResolver fuel stmt.columns type) stmt d.rest d.rowIndex feed
        count s thrown := by
  unfold readRowsAsCollection
  by_cases hcount : count = 0
  · subst hcount
    refine ⟨⟨d, [], 0⟩, none, if_neg (fun h => h rfl), hstands, rfl, rfl, ?_⟩
    exact congrArg Prod.fst feed.take_zero
  · rw [if_pos hcount]
    -- the bound covers the rows that are left
    have hfuel : stmt.rows.length - d.rowIndex < d.stmt.rows.length - d.stmt.next + 2 := by
      have hlength := congrArg List.length hstands.rows
      rcases hstands.place with h | h
      · have hnext := h.next
        omega
      · have hend := h.rowIndex
        omega
    have hstart : Taking (readRow env mapper typeResolver fuel stmt.columns type) stmt d.rest
        d.rowIndex feed count ⟨d, [], 0⟩ :=
      ⟨hstands, rfl, fun h => ⟨rfl, h⟩, rfl, feed, hof, rfl⟩
    obtain ⟨⟨s, thrown⟩, hrun, htaken⟩ :=
      Loop.run_total (readRowsBody_takes hcount hadd) hstart hfuel
    exact ⟨s, thrown, hrun, htaken⟩

end

end Fetch

/-! ## Calls

Each call finds what the one before it has left. Where that one threw, its row is the first of the
rest, under the marks of the strings that were read of it. Two calls may be for different types, so
what a row is mapped to is a matter of the call (`DeliverInTurn`). -/

/-- A type of collections that keep their items in order. -/
structure Listed (env : TypeEnv τ) (type : τ) : Prop where
  isCollection : env.classId type = env.ids .abstractVector ∨
    env.classId type = env.ids .abstractList
  addItem : ∀ items v, env.addItem type items v = items ++ [v]

theorem exists_of_forall₂ {α β : Type} {R : α → β → Prop} {l : List α} {bs : List β} {b : β}
    (h : List.Forall₂ R l bs) (hb : b ∈ bs) : ∃ a ∈ l, R a b := by
  induction h with
  | nil => cases hb
  | @cons a b' l bs hR _ ih =>
    rcases List.mem_cons.mp hb with rfl | hb
    · exact ⟨a, List.mem_cons_self, hR⟩
    · obtain ⟨a', ha', hR'⟩ := ih hb
      exact ⟨a', List.mem_cons_of_mem _ ha', hR'⟩

/-- What a call delivers of the rows that were to come: the next rows, mapped one by one; as many
    as it wants unless it throws, and then the row it threw at is the next one. -/
structure Delivers (read : List Cell → Mapped (Mapping.Void τ)) (rest : List (List Cell))
    (count : Int) (seg : List (List Cell)) (out : QueryResult.Fetched τ) : Prop where
  next_rows : seg = rest.take seg.length
  mapped : seg.map read = out.collection.map fun v => ExceptT.mk (some (.ok v))
  returned : out.thrown = none → seg.length = wanted count rest.length
  thrown : ∀ e, out.thrown = some e →
    ∃ r, rest[seg.length]? = some r ∧ read r = ExceptT.mk (some (.error e))

/-- What a sequence of calls delivers, call by call: each starts with the row that the one before
    it has stopped at. -/
inductive DeliverInTurn (read : τ → List Cell → Mapped (Mapping.Void τ))
    (leave : τ → List Cell → List Cell) : List (List Cell) → List (τ × Int) →
      List (List (List Cell)) → List (QueryResult.Fetched τ) → Prop
  | nil {rest : List (List Cell)} : DeliverInTurn read leave rest [] [] []
  | cons {rest : List (List Cell)} {type : τ} {count : Int} {calls : List (τ × Int)}
      {seg : List (List Cell)} {segs : List (List (List Cell))} {out : QueryResult.Fetched τ}
      {outs : List (QueryResult.Fetched τ)} :
      Delivers (read type) rest count seg out →
      DeliverInTurn read leave (rowsLeft (leave type) out.thrown (rest.drop seg.length)) calls segs
        outs →
      DeliverInTurn read leave rest ((type, count) :: calls) (seg :: segs) (out :: outs)

/-- Calls that all return deliver the rows as they are. -/
theorem DeliverInTurn.whole {read : τ → List Cell → Mapped (Mapping.Void τ)}
    {leave : τ → List Cell → List Cell} {rest : List (List Cell)} {calls : List (τ × Int)}
    {segs : List (List (List Cell))} {outs : List (QueryResult.Fetched τ)}
    (h : DeliverInTurn read leave rest calls segs outs)
    (hreturned : ∀ out ∈ outs, out.thrown = none) :
    segs.flatten = rest.take segs.flatten.length := by
  induction h with
  | nil => rfl
  | @cons rest type count calls seg segs out outs hdelivers _ ih =>
    have hout : out.thrown = none := hreturned out List.mem_cons_self
    have hrest := ih fun out h => hreturned out (List.mem_cons_of_mem _ h)
    rw [hout] at hrest
    change segs.flatten = (rest.drop seg.length).take segs.flatten.length at hrest
    rw [List.flatten_cons, List.length_append, List.take_add, ← hrest, ← hdelivers.next_rows]

section Calls

variable {env : TypeEnv τ} {fuel : Nat} {stmt : Statement} {typeResolver : TypeResolver τ}
  {type : τ} {count : Int} {read : List Cell → Mapped (Mapping.Void τ)}
  {rest : List (List Cell)} {feed : Feed (Mapping.Void τ) MapError}

/-- A portion has as many items as the call wants, unless it has the error. -/
theorem length_portion (hof : Feed.Of read rest feed)
    (hreturned : (feed.take (asked count)).1.error = none) :
    (feed.take (asked count)).1.items.length = wanted count rest.length := by
  have hle := hof.length_le
  unfold asked wanted at *
  split
  · rename_i hneg
    rw [if_pos hneg] at hreturned
    exact hof.length_eq hreturned
  · rename_i hneg
    rw [if_neg hneg] at hreturned
    unfold Feed.take at hreturned ⊢
    dsimp only at hreturned ⊢
    split
    · rw [List.length_take]
      omega
    · rename_i hshort
      rw [if_neg hshort] at hreturned
      have hall := hof.length_eq hreturned
      show feed.items.length = _
      omega

theorem length_take_portion (hof : Feed.Of read rest feed) (n : Option Nat) :
    (rest.take (feed.take n).1.items.length).length = (feed.take n).1.items.length := by
  rw [List.length_take]
  exact Nat.min_eq_left (Nat.le_trans (feed.take_items n).1 hof.length_le)

/-- **A portion of the feed** is the next rows, mapped. -/
theorem delivers_portion (hof : Feed.Of read rest feed) (count : Int) :
    Delivers read rest count (rest.take (feed.take (asked count)).1.items.length)
      (.ofPortion (feed.take (asked count)).1) := by
  obtain ⟨hle, hitems⟩ := feed.take_items (asked count)
  have hlength := length_take_portion hof (asked count)
  refine ⟨by rw [hlength], ?_, ?_, ?_⟩
  · rw [hof.map_take hle, ← hitems]
    rfl
  · intro hreturned
    rw [hlength]
    exact length_portion hof hreturned
  · intro e he
    obtain ⟨hall, herror⟩ := Feed.take_error he
    rw [hlength, hall]
    exact hof.error_source herror

variable [DecidableEq τ] {q : QueryResult τ} {conv : Conversions} {classCount : Nat}

theorem readRowsMethods_nodup : (Mapping.readRowsMethods.map Prod.fst).Nodup := by
  decide

/-- Both kinds of collections are filled by `readRowsAsCollection`. -/
theorem readRows_eq (henv : env.Lawful) {d : ResultData}
    (hclass : env.classId type = env.ids .abstractVector ∨
      env.classId type = env.ids .abstractList) :
    readRows env (ResultMapper.construct env conv classCount) typeResolver fuel d type count
      = readRowsAsCollection env (ResultMapper.construct env conv classCount) typeResolver fuel d
          type count := by
  have hmethod : (ResultMapper.construct env conv classCount).readRowsMethods[env.classId type]?
      = some (some ()) := by
    rcases hclass with h | h
    · rw [h]
      exact MethodTable.getElem?_build henv.ids_injective readRowsMethods_nodup
        (by simp [Mapping.readRowsMethods])
    · rw [h]
      exact MethodTable.getElem?_build henv.ids_injective readRowsMethods_nodup
        (by simp [Mapping.readRowsMethods])
  unfold readRows
  rw [hmethod]

/-- **One call** takes a portion off the feed of the rows to come. The rows that it leaves are
    those behind it, and what can be mapped of them for its type is what is left of the feed. -/
theorem fetch_takes (henv : env.Lawful) (count : Int)
    (hmapper : q.resultMapper = ResultMapper.construct env conv classCount)
    (hstands : Stands stmt q.resultData) (hlisted : Listed env type)
    (hof : Feed.Of (readRow env q.resultMapper q.typeResolver fuel stmt.columns type) q.rest feed) :
    ∃ d, q.fetch env fuel type count
        = some (.ofPortion (feed.take (asked count)).1, { q with resultData := d }) ∧
      Stands stmt d ∧
      d.rowIndex = q.getPosition + (feed.take (asked count)).1.items.length ∧
      d.rest = rowsLeft (leftRow env q.resultMapper q.typeResolver fuel stmt.columns type)
        (feed.take (asked count)).1.error
        (q.rest.drop (feed.take (asked count)).1.items.length) ∧
      Feed.Of (readRow env q.resultMapper q.typeResolver fuel stmt.columns type) d.rest
        (feed.take (asked count)).2 := by
  obtain ⟨s, thrown, hrun, htaken⟩ := readRowsAsCollection_takes count hstands hlisted.addItem hof
  have hleft := hof.take (asked count)
  rw [htaken.portion] at hleft ⊢
  refine ⟨s.dbData, ?_, htaken.stands, htaken.position, htaken.rest, ?_⟩
  · unfold QueryResult.fetch
    rw [hmapper, readRows_eq henv hlisted.isCollection, ← hmapper, hrun]
    rfl
  · -- the row that the call threw at is mapped as before
    rw [htaken.rest]
    unfold rowsLeft
    split
    · apply hleft.modifyHead
      intro r
      rw [hmapper]
      exact readRow_leftRow henv conv classCount stmt.columns r
    · exact hleft

/-- A type that `fetch` may be asked for: its items are appended, and mapping a row to an item
    comes to an end, with a value or with an exception, however the row is shown. -/
structure Fetchable (env : TypeEnv τ) (mapper : ResultMapper τ) (typeResolver : TypeResolver τ)
    (fuel : Nat) (stmt : Statement) (type : τ) : Prop extends Listed env type where
  read : ∀ r ∈ stmt.rows, ∀ shown, ShownAs r shown →
    readRow env mapper typeResolver fuel stmt.columns type shown ≠ ExceptT.mk none

/-- Any sequence of calls, from wherever the cursor stands. -/
theorem fetches_spec (henv : env.Lawful) (calls : List (τ × Int))
    (hmapper : q.resultMapper = ResultMapper.construct env conv classCount)
    (hstands : Stands stmt q.resultData)
    (hcalls : ∀ call ∈ calls, Fetchable env q.resultMapper q.typeResolver fuel stmt call.1) :
    ∃ outs q' segs, q.fetches env fuel calls = some (outs, q') ∧
      Stands stmt q'.resultData ∧
      DeliverInTurn (readRow env q.resultMapper q.typeResolver fuel stmt.columns)
        (leftRow env q.resultMapper q.typeResolver fuel stmt.columns) q.rest calls segs outs ∧
      List.Forall₂ ShownAs ((stmt.rows.drop q.getPosition).take segs.flatten.length)
        segs.flatten ∧
      q'.getPosition = q.getPosition + segs.flatten.length := by
  induction calls generalizing q with
  | nil => exact ⟨[], q, [], rfl, hstands, .nil, .nil, rfl⟩
  | cons call calls ih =>
    obtain ⟨type, count⟩ := call
    have htype := hcalls (type, count) List.mem_cons_self
    have hshown := hstands.rest_shown
    -- each row to come can be mapped, or not, so they are a feed
    have hmade : ∀ shown ∈ q.rest,
        readRow env q.resultMapper q.typeResolver fuel stmt.columns type shown ≠ none := by
      intro shown hmem
      obtain ⟨r, hr, hrow⟩ := exists_of_forall₂ hshown hmem
      exact htype.read r (List.mem_of_mem_drop hr) shown hrow
    obtain ⟨feed, hof⟩ := Feed.Of.exists_feed hmade
    obtain ⟨d, hfetch, hstands', hindex, hrest, -⟩ :=
      fetch_takes henv count hmapper hstands htype.toListed hof
    have hdelivers := delivers_portion hof count
    have hlength := length_take_portion hof (asked count)
    obtain ⟨k, hk⟩ : ∃ k, (feed.take (asked count)).1.items.length = k := ⟨_, rfl⟩
    rw [hk] at hindex hrest hdelivers hlength
    obtain ⟨outs, q', segs, hfetches, hend, hturn, hflat, hposition⟩ :=
      ih (q := { q with resultData := d }) hmapper hstands'
        fun call hc => hcalls call (List.mem_cons_of_mem _ hc)
    refine ⟨.ofPortion (feed.take (asked count)).1 :: outs, q', q.rest.take k :: segs, ?_, hend, ?_,
      ?_, ?_⟩
    · rw [QueryResult.fetches, hfetch]
      show (QueryResult.fetches env fuel { q with resultData := d } calls).bind _ = _
      rw [hfetches]
      rfl
    · refine .cons hdelivers ?_
      rw [hlength]
      change DeliverInTurn _ _ d.rest calls segs outs at hturn
      rw [hrest] at hturn
      exact hturn
    · -- the rows of the first call, and behind them those of the others
      change List.Forall₂ ShownAs ((stmt.rows.drop d.rowIndex).take segs.flatten.length)
        segs.flatten at hflat
      rw [hindex, ← List.drop_drop] at hflat
      rw [List.flatten_cons, List.length_append, hlength, List.take_add]
      exact List.rel_append (List.forall₂_take k hshown) hflat
    · rw [hposition]
      show d.rowIndex + segs.flatten.length = q.getPosition + (q.rest.take k ++ segs.flatten).length
      rw [hindex, List.length_append, hlength, Nat.add_assoc]

end Calls

/-- **Fetching, over any sequence of calls.** What they deliver, in order, are the statement's
    rows up to the position, as SQLite shows them; where every call returns, exactly these rows.
    While no step failed the statement stands on the row of that number, and there is more to
    fetch exactly when there is such a row; and no step follows one that did not give a row. -/
theorem fetches_deliver [DecidableEq τ] {env : TypeEnv τ} (henv : env.Lawful) {conv : Conversions}
    {classCount fuel : Nat} {typeResolver : TypeResolver τ} {columns : List Text}
    {rows : List (List Cell)} {last : LastCode} {calls : List (τ × Int)}
    (hcalls : ∀ call ∈ calls, Fetchable env (ResultMapper.construct env conv classCount)
      typeResolver fuel (Statement.prepared columns rows last) call.1) :
    ∃ outs q segs,
      (QueryResult.construct (Statement.prepared columns rows last)
        (ResultMapper.construct env conv classCount) typeResolver).fetches env fuel calls
          = some (outs, q) ∧
      DeliverInTurn
        (readRow env (ResultMapper.construct env conv classCount) typeResolver fuel columns)
        (leftRow env (ResultMapper.construct env conv classCount) typeResolver fuel columns)
        rows calls segs outs ∧
      List.Forall₂ ShownAs (rows.take q.getPosition) segs.flatten ∧
      ((∀ out ∈ outs, out.thrown = none) → segs.flatten = rows.take q.getPosition) ∧
      q.getPosition ≤ rows.length ∧
      (q.isSuccess → Option.Rel ShownAs rows[q.getPosition]? q.resultData.stmt.current ∧
        (q.hasMoreToFetch ↔ q.getPosition < rows.length)) ∧
      ∀ code ∈ q.resultData.stmt.codes.dropLast, code = .row := by
  obtain ⟨hstart, hrest⟩ := @construct_stands (.prepared columns rows last) rfl rfl
  obtain ⟨outs, q, segs, hfetches, hstands, hturn, hflat, hposition⟩ :=
    fetches_spec henv calls (q := .construct (.prepared columns rows last)
      (ResultMapper.construct env conv classCount) typeResolver) rfl hstart hcalls
  change DeliverInTurn _ _ (ResultData.construct (.prepared columns rows last)).rest calls segs
    outs at hturn
  rw [hrest] at hturn
  have hle : q.getPosition ≤ rows.length := hstands.rowIndex_le
  have hcount : q.getPosition = segs.flatten.length := hposition.trans (Nat.zero_add _)
  refine ⟨outs, q, segs, hfetches, hturn, ?_, ?_, hle, ?_, ?_⟩
  · rw [hcount]
    exact hflat
  · intro hreturned
    rw [hcount]
    exact hturn.whole hreturned
  · intro hsuccess
    rcases hstands.place with hon | hend
    · exact ⟨hon.current, iff_of_true hon.hasMore hon.lt⟩
    · have hlen : q.getPosition = rows.length := hend.rowIndex
      refine ⟨?_, iff_of_false ?_ ?_⟩
      · rw [hend.current, hlen, List.getElem?_eq_none (Nat.le_refl _)]
        exact .none
      · show ¬ q.resultData.hasMore = true
        rw [hend.hasMore]
        exact Bool.false_ne_true
      · rw [hlen]
        exact Nat.lt_irrefl _
  · intro code hcode
    rcases hstands.place with hon | hend
    · rw [hon.codes] at hcode
      exact List.eq_of_mem_replicate (List.dropLast_subset _ hcode)
    · rw [hend.codes, List.dropLast_concat] at hcode
      exact List.eq_of_mem_replicate hcode

/-! ### Three rows, the second of which cannot be mapped -/

def plainMapper : ResultMapper PlainType := .construct (plainEnv []) plainConversions 23

def integerRows : PlainType := .vector (.vector (.ofClass (.int .int64)))

/-- A row of one number, as it is mapped. -/
def integerRow (v : BitVec 64) : Mapping.Void PlainType :=
  ⟨some (.collection [⟨some (.int .int64 v), .ofClass (.int .int64)⟩]),
    .vector (.ofClass (.int .int64))⟩

/-- What is thrown at a row of something else. -/
def unknownOid : MapError :=
  .runtimeError "[oatpp::sqlite::mapping::Deserializer::deInt()]: Error. Unknown OID."

theorem integerRows_listed : Listed (plainEnv []) integerRows := ⟨Or.inl rfl, fun _ _ => rfl⟩

def badRow : List (List Cell) := [[.integer 1], [.text ['x']], [.integer 3]]

theorem integerRows_fetchable : Fetchable (plainEnv []) plainMapper plainResolver 2
    (.prepared [['n']] badRow ⟨.done, StepCode.done_ne_row⟩) integerRows := by
  refine ⟨integerRows_listed, fun r hr shown hshown => ?_⟩
  -- a row of one cell is read, or it throws
  obtain ⟨data, rfl⟩ : ∃ data, r = [data] := by
    simp only [badRow, Statement.prepared, List.mem_cons, List.not_mem_nil, or_false] at hr
    rcases hr with rfl | rfl | rfl <;> exact ⟨_, rfl⟩
  cases hshown with
  | cons hdata hrest =>
    cases hrest
    rename_i data'
    cases data' <;> exact Option.ne_none_iff_isSome.mpr rfl

theorem badRow_fetchable : ∀ call ∈ [(integerRows, (1 : Int)), (integerRows, 5), (integerRows, -1)],
    Fetchable (plainEnv []) plainMapper plainResolver 2
      (.prepared [['n']] badRow ⟨.done, StepCode.done_ne_row⟩) call.1 := by
  intro call hcall
  have htype : call.1 = integerRows := by
    simp only [List.mem_cons, List.not_mem_nil, or_false] at hcall
    rcases hcall with rfl | rfl | rfl <;> rfl
  rw [htype]
  exact integerRows_fetchable

/-- The first call takes one row, the second throws without consuming anything, and so does the
    third. -/
theorem fetches_deliver_badRow :
    ∃ q segs,
      (QueryResult.construct (.prepared [['n']] badRow ⟨.done, StepCode.done_ne_row⟩) plainMapper
        plainResolver).fetches (plainEnv []) 2
          [(integerRows, 1), (integerRows, 5), (integerRows, -1)]
        = some ([⟨[integerRow 1], none⟩, ⟨[], some unknownOid⟩, ⟨[], some unknownOid⟩], q) ∧
      DeliverInTurn (readRow (plainEnv []) plainMapper plainResolver 2 [['n']])
        (leftRow (plainEnv []) plainMapper plainResolver 2 [['n']]) badRow
        [(integerRows, 1), (integerRows, 5), (integerRows, -1)] segs
        [⟨[integerRow 1], none⟩, ⟨[], some unknownOid⟩, ⟨[], some unknownOid⟩] ∧
      List.Forall₂ ShownAs [[.integer 1]] segs.flatten ∧
      q.getPosition = 1 ∧ q.hasMoreToFetch = true ∧
      Option.Rel ShownAs (some [.text ['x']]) q.resultData.stmt.current ∧
      q.resultData.stmt.codes = [.row, .row] := by
  obtain ⟨outs, q, segs, hrun, hturn, hshown, -, -, hstands, -⟩ :=
    fetches_deliver (plainEnv_lawful []) badRow_fetchable
  obtain ⟨q', hconcrete, hposition, hmore, hsuccess, hcodes⟩ : ∃ q',
      (QueryResult.construct (.prepared [['n']] badRow ⟨.done, StepCode.done_ne_row⟩) plainMapper
        plainResolver).fetches (plainEnv []) 2
          [(integerRows, 1), (integerRows, 5), (integerRows, -1)]
        = some ([⟨[integerRow 1], none⟩, ⟨[], some unknownOid⟩, ⟨[], some unknownOid⟩], q') ∧
      q'.getPosition = 1 ∧ q'.hasMoreToFetch = true ∧ q'.isSuccess = true ∧
      q'.resultData.stmt.codes = [.row, .row] := ⟨_, rfl, rfl, rfl, rfl, rfl⟩
  have hsame := hrun.symm.trans hconcrete
  cases hsame
  rw [hposition] at hshown hstands
  exact ⟨q, segs, hconcrete, hturn, hshown, hposition, hmore, (hstands hsuccess).1, hcodes⟩

/-! ## Calls for any types

Here a type may have no method, and its items may throw or be put anywhere in the collection. The
cursor moves with the passes of the loop and not with what they make of a row. -/

section Any

variable {env : TypeEnv τ} {fuel : Nat} {stmt : Statement}
  {mapper : ResultMapper τ} {typeResolver : TypeResolver τ} {type : τ} {count : Int}

/-- The rows to come are shown as they are. -/
def Untouched (stmt : Statement) (d : ResultData) : Prop := d.rest = stmt.rows.drop d.rowIndex

theorem OnRow.next_untouched {d : ResultData} (hon : OnRow stmt.rows d) (hstands : Stands stmt d)
    (h : Untouched stmt d) :
    Untouched stmt (ResultData.next { d with rowIndex := d.rowIndex + 1 }) := by
  unfold Untouched at h ⊢
  rw [(hon.next_stands hstands).2, h, List.tail_drop, ResultData.next_rowIndex]

variable [DecidableEq τ]

/-- A pass over the rows keeps the cursor in its place, whatever it makes of a row; and only an
    exception touches one. -/
theorem readRowsBody_stands {s : FetchState τ}
    {o : Loop.Step (FetchState τ) (FetchState τ × Option MapError)} (hstands : Stands stmt s.dbData)
    (h : readRowsBody env mapper typeResolver fuel type count s = some o) :
    (∃ s', o = .next s' ∧ Stands stmt s'.dbData ∧
      (Untouched stmt s.dbData → Untouched stmt s'.dbData)) ∨
    (∃ r, o = .exit r ∧ Stands stmt r.1.dbData ∧
      (r.2 = none → Untouched stmt s.dbData → Untouched stmt r.1.dbData)) := by
  unfold readRowsBody at h
  rcases hstands.place with hon | hend
  · obtain ⟨hnext, -⟩ := hon.next_stands hstands
    have htouched := hon.next_untouched hstands
    rw [if_pos hon.hasMore] at h
    split at h
    · cases h
    · cases h
      exact Or.inr ⟨_, rfl, (hon.thrownAt_stands hstands _).1, nofun⟩
    · dsimp only at h
      split at h
      · split at h
        · cases h
          exact Or.inr ⟨_, rfl, hnext, fun _ => htouched⟩
        · cases h
          exact Or.inl ⟨_, rfl, hnext, htouched⟩
      · cases h
        exact Or.inl ⟨_, rfl, hnext, htouched⟩
  · rw [if_neg (by rw [hend.hasMore]; exact Bool.false_ne_true)] at h
    cases h
    exact Or.inr ⟨_, rfl, hstands, fun _ h => h⟩

/-- So does `readRows`, for any type. -/
theorem readRows_stands {d : ResultData} {s : FetchState τ} {thrown : Option MapError}
    (hstands : Stands stmt d)
    (h : readRows env mapper typeResolver fuel d type count = some (s, thrown)) :
    Stands stmt s.dbData ∧ (thrown = none → Untouched stmt d → Untouched stmt s.dbData) := by
  unfold readRows at h
  split at h
  · cases h
    exact ⟨hstands, fun _ h => h⟩
  · unfold readRowsAsCollection at h
    split at h
    · refine Loop.run_keeps
        (fun s => Stands stmt s.dbData ∧ (Untouched stmt d → Untouched stmt s.dbData))
        (fun r => Stands stmt r.1.dbData ∧
          (r.2 = none → Untouched stmt d → Untouched stmt r.1.dbData))
        ?_ ?_ ⟨hstands, fun h => h⟩ h
      · rintro s s' ⟨hs, htouched⟩ hb
        rcases readRowsBody_stands hs hb with ⟨s'', heq, hs', htouched'⟩ | ⟨r, heq, -⟩
        · cases heq
          exact ⟨hs', fun h => htouched' (htouched h)⟩
        · cases heq
      · rintro s r ⟨hs, htouched⟩ hb
        rcases readRowsBody_stands hs hb with ⟨s', heq, -⟩ | ⟨r', heq, hr, htouched'⟩
        · cases heq
        · cases heq
          exact ⟨hr, fun hnone h => htouched' hnone (htouched h)⟩
    · cases h
      exact ⟨hstands, fun _ h => h⟩
  · cases h
    exact ⟨hstands, fun _ h => h⟩

/-- Over any sequence of calls the cursor stands in its place, and the message stays; and if no
    call throws, the rows to come are shown as they are. -/
theorem fetches_stands {calls : List (τ × Int)} {q q' : QueryResult τ}
    {outs : List (QueryResult.Fetched τ)} (hstands : Stands stmt q.resultData)
    (h : q.fetches env fuel calls = some (outs, q')) :
    Stands stmt q'.resultData ∧ q'.errorMessage = q.errorMessage ∧
      ((∀ out ∈ outs, out.thrown = none) →
        Untouched stmt q.resultData → Untouched stmt q'.resultData) := by
  induction calls generalizing q outs with
  | nil =>
    cases h
    exact ⟨hstands, rfl, fun _ h => h⟩
  | cons call calls ih =>
    obtain ⟨type, count⟩ := call
    obtain ⟨⟨out, q₁⟩, hfetch, h⟩ := Option.bind_eq_some_iff.mp h
    obtain ⟨⟨outs', q₂⟩, hfetches, h⟩ := Option.bind_eq_some_iff.mp h
    cases h
    obtain ⟨⟨s, thrown⟩, hread, hout⟩ := Option.bind_eq_some_iff.mp hfetch
    cases hout
    obtain ⟨hstands', htouched⟩ := readRows_stands hstands hread
    obtain ⟨hend, hmessage, htouched'⟩ :=
      ih (q := { q with resultData := s.dbData }) hstands' hfetches
    refine ⟨hend, hmessage, fun hreturned h => ?_⟩
    obtain ⟨hfirst, hothers⟩ := List.forall_mem_cons.mp hreturned
    exact htouched' hothers (htouched hfirst h)

/-- **What any calls leave** of a new result: the statement's rows from the position on, as they
    are but for the first one, and that too if no call has thrown. -/
theorem fetches_rest {columns : List Text} {rows : List (List Cell)} {last : LastCode}
    {calls : List (τ × Int)} {outs : List (QueryResult.Fetched τ)} {q : QueryResult τ}
    (hrun : (QueryResult.construct (Statement.prepared columns rows last) mapper
      typeResolver).fetches env fuel calls = some (outs, q)) :
    List.Forall₂ ShownAs (rows.drop q.getPosition) q.rest ∧
      q.rest.tail = rows.drop (q.getPosition + 1) ∧
      ((∀ out ∈ outs, out.thrown = none) → q.rest = rows.drop q.getPosition) := by
  obtain ⟨hstart, hrest⟩ := @construct_stands (.prepared columns rows last) rfl rfl
  obtain ⟨hstands, -, htouched⟩ := fetches_stands hstart hrun
  exact ⟨hstands.rest_shown, hstands.tail_rest, fun hreturned => htouched hreturned hrest⟩

/-! ## The message of a failed step

The constructor takes the message once, from the connection, after the first step. Later steps are
taken by the mapper, which knows nothing of the message. -/

/-- **The message of a result that is not a success.** The last step failed, with a message of
    its own; what `getErrorMessage` gives is that message exactly if that step was the first
    one, or if the message is the one of a step that gives a row. -/
theorem getErrorMessage_iff {columns : List Text} {rows : List (List Cell)} {last : LastCode}
    {calls : List (τ × Int)} {outs : List (QueryResult.Fetched τ)} {q : QueryResult τ}
    (hrun : (QueryResult.construct (Statement.prepared columns rows last) mapper
      typeResolver).fetches env fuel calls = some (outs, q))
    (hfails : q.isSuccess = false) :
    ∃ message, q.resultData.stmt.codes.getLast? = some (.error message) ∧
      (q.getErrorMessage = message ↔ rows = [] ∨ message = StepCode.row.errmsg) := by
  have hstart : Stands (Statement.prepared columns rows last)
      (QueryResult.construct (Statement.prepared columns rows last) mapper
        typeResolver).resultData := (construct_stands rfl rfl).1
  obtain ⟨hstands, hmessage, -⟩ := fetches_stands hstart hrun
  rcases hstands.place with hon | hend
  · exact absurd hon.isSuccess (by rw [show q.resultData.isSuccess = false from hfails]; simp)
  have hcode : last.val ≠ .done := by
    exact of_decide_eq_false (hend.isSuccess.symm.trans hfails)
  obtain ⟨code, hne⟩ := last
  cases code with
  | row => exact absurd rfl hne
  | done => exact absurd rfl hcode
  | error message =>
    refine ⟨message, ?_, ?_⟩
    · rw [hend.codes, List.getLast?_concat]
      rfl
    · show q.errorMessage = message ↔ _
      rw [hmessage]
      cases rows with
      | nil => exact iff_of_true rfl (Or.inl rfl)
      | cons row rows =>
        show StepCode.row.errmsg = message ↔ _
        simp [eq_comm]

end Any

/-- The first step gives a row, and the second one fails. -/
def failsSecond : Statement :=
  .prepared [['n']] [[.integer 1]] ⟨.error "interrupted", StepCode.error_ne_row _⟩

theorem getErrorMessage_iff_failsFirst : ∃ outs q,
    (QueryResult.construct (Statement.prepared [] []
        ⟨.error "no such table: t", StepCode.error_ne_row _⟩)
      (ResultMapper.construct (plainEnv []) plainConversions 23) plainResolver).fetches
        (plainEnv []) 2 [(.vector (.vector (.ofClass (.int .int64))), -1)] = some (outs, q) ∧
    ∃ message, q.resultData.stmt.codes.getLast? = some (.error message) ∧
      (q.getErrorMessage = message ↔
        ([] : List (List Cell)) = [] ∨ message = StepCode.row.errmsg) := by
  obtain ⟨outs, q, hrun, hfails⟩ : ∃ outs q,
      (QueryResult.construct (Statement.prepared [] []
          ⟨.error "no such table: t", StepCode.error_ne_row _⟩)
        (ResultMapper.construct (plainEnv []) plainConversions 23) plainResolver).fetches
          (plainEnv []) 2 [(.vector (.vector (.ofClass (.int .int64))), -1)] = some (outs, q) ∧
      q.isSuccess = false := ⟨_, _, rfl, rfl⟩
  exact ⟨outs, q, hrun, getErrorMessage_iff hrun hfails⟩

/-- The fetch returns the one row, and the message is that of the step that gave it. -/
theorem getErrorMessage_stale : ∃ outs q,
    (QueryResult.construct failsSecond
      (ResultMapper.construct (plainEnv []) plainConversions 23) plainResolver).fetches
        (plainEnv []) 2 [(.vector (.vector (.ofClass (.int .int64))), -1)] = some (outs, q) ∧
    outs.map (·.thrown) = [none] ∧ q.isSuccess = false ∧
    q.resultData.stmt.codes.getLast? = some (.error "interrupted") ∧
    q.getErrorMessage = "another row available" :=
  ⟨_, _, rfl, rfl, rfl, rfl, rfl⟩

end OatppSqlite
