import OatppSqlite.QueryResult

/-!
# Fetching in portions

A query result is the feed of its rows, mapped to items of one type: `fetch` takes so many of
them, or with a negative count all that are left (`fetches_refine`). So rows that are fetched
in portions are those of one `fetch`, with the same exception at the same row, and SQLite is
stepped as often (`fetches_chunks`).

A call that throws has built items as well, which its caller never gets, and they are not read
again. So the portions that callers get are all the items only where the rows can all be mapped
(`fetches_chunks` says which calls throw).
-/

set_option autoImplicit false

namespace OatppSqlite

open Mapping Sqlite

variable {τ : Type}

/-- What the caller of `fetch` gets: a call that throws returns nothing. -/
def QueryResult.Fetched.delivered (out : QueryResult.Fetched τ) : List (Mapping.Void τ) :=
  if out.thrown.isSome then [] else out.collection

theorem QueryResult.Fetched.delivered_returned {out : QueryResult.Fetched τ}
    (h : out.thrown = none) : out.delivered = out.collection := by
  unfold QueryResult.Fetched.delivered
  rw [h]
  rfl

section

variable {env : TypeEnv τ} {fuel : Nat} {stmt : Statement} {typeResolver : TypeResolver τ}
  {type : τ} {feed : Feed (Mapping.Void τ) MapError} [DecidableEq τ] {q q' : QueryResult τ}
  {conv : Conversions} {classCount : Nat}

/-- **Calls for one type**, one after the other. -/
theorem fetches_take (henv : env.Lawful) (hlisted : Listed env type) (counts : List Int)
    (hmapper : q.resultMapper = ResultMapper.construct env conv classCount)
    (hstands : Stands stmt q.resultData)
    (hof : Feed.Of (readRow env q.resultMapper q.typeResolver fuel stmt.columns type) q.rest feed) :
    ∃ d, q.fetches env fuel (counts.map fun count => (type, count))
        = some ((feed.takes (counts.map asked)).1.map .ofPortion, { q with resultData := d }) ∧
      Stands stmt d ∧
      d.rowIndex = q.getPosition
        + ((feed.takes (counts.map asked)).1.map Feed.Portion.items).flatten.length ∧
      Feed.Of (readRow env q.resultMapper q.typeResolver fuel stmt.columns type) d.rest
        (feed.takes (counts.map asked)).2 := by
  induction counts generalizing q feed with
  | nil => exact ⟨q.resultData, rfl, hstands, rfl, hof⟩
  | cons count counts ih =>
    obtain ⟨d, hfetch, hstands', hindex, -, hof'⟩ := fetch_takes henv count hmapper hstands hlisted
      hof
    obtain ⟨d', hfetches, hstands'', hindex', hof''⟩ := ih (q := { q with resultData := d }) hmapper
      hstands' hof'
    refine ⟨d', ?_, hstands'', ?_, hof''⟩
    · rw [List.map_cons, QueryResult.fetches, hfetch]
      show (QueryResult.fetches env fuel { q with resultData := d } _).bind _ = _
      rw [hfetches]
      rfl
    · rw [hindex']
      show d.rowIndex + _ = _
      rw [hindex, List.map_cons, Feed.takes, List.map_cons, List.flatten_cons, List.length_append,
        Nat.add_assoc]

/-- Where two cursors have come as far, SQLite was stepped alike for both. -/
theorem Stands.same {d d' : ResultData} (h : Stands stmt d) (h' : Stands stmt d')
    (hindex : d.rowIndex = d'.rowIndex) :
    d.hasMore = d'.hasMore ∧ d.isSuccess = d'.isSuccess ∧ d.stmt.codes = d'.stmt.codes := by
  rcases h.place with hon | hend
  · rcases h'.place with hon' | hend'
    · exact ⟨hon.hasMore.trans hon'.hasMore.symm, hon.isSuccess.trans hon'.isSuccess.symm,
        by rw [hon.codes, hon'.codes, hindex]⟩
    · have hlt := hon.lt
      have hrowIndex := hend'.rowIndex
      omega
  · rcases h'.place with hon' | hend'
    · have hlt := hon'.lt
      have hrowIndex := hend.rowIndex
      omega
    · exact ⟨hend.hasMore.trans hend'.hasMore.symm, hend.isSuccess.trans hend'.isSuccess.symm,
        hend.codes.trans hend'.codes.symm⟩

omit [DecidableEq τ] in
theorem fetches_members [DecidableEq τ] {calls : List (τ × Int)}
    {outs : List (QueryResult.Fetched τ)} (h : q.fetches env fuel calls = some (outs, q')) :
    q'.resultMapper = q.resultMapper ∧ q'.typeResolver = q.typeResolver := by
  induction calls generalizing q outs with
  | nil =>
    cases h
    exact ⟨rfl, rfl⟩
  | cons call calls ih =>
    obtain ⟨type, count⟩ := call
    obtain ⟨⟨out, q₁⟩, hfetch, h⟩ := Option.bind_eq_some_iff.mp h
    obtain ⟨⟨outs', q₂⟩, hfetches, h⟩ := Option.bind_eq_some_iff.mp h
    cases h
    obtain ⟨⟨s, thrown⟩, -, hout⟩ := Option.bind_eq_some_iff.mp hfetch
    cases hout
    exact ih (q := { q with resultData := s.dbData }) hfetches

variable {columns : List Text} {rows : List (List Cell)} {last : LastCode}
  {before : List (τ × Int)} {outs : List (QueryResult.Fetched τ)}

/-- **Portions and all at once** come to the same: the items that are built, the exception and the
    place where it is thrown, and every answer of SQLite. A call that throws has built items too,
    which its caller does not get, and the calls after it throw the same if they ask for anything;
    where nothing is thrown the callers get all items. -/
theorem fetches_chunks (henv : env.Lawful)
    (hrun : (QueryResult.construct (Statement.prepared columns rows last)
      (ResultMapper.construct env conv classCount) typeResolver).fetches env fuel before
        = some (outs, q))
    (hlisted : Listed env type)
    (hof : Feed.Of (readRow env (ResultMapper.construct env conv classCount) typeResolver fuel
      columns type) q.rest feed) (counts : List Int) :
    ∃ all q₁ portions rest q₂, q.fetch env fuel type (-1) = some (all, q₁) ∧
      q.fetches env fuel ((counts ++ [-1]).map fun count => (type, count))
        = some (portions ++ [rest], q₂) ∧
      ((portions ++ [rest]).map (·.collection)).flatten = all.collection ∧
      (all.thrown = none → ((portions ++ [rest]).map (·.delivered)).flatten = all.delivered) ∧
      rest.thrown = all.thrown ∧
      (∀ out ∈ portions, out.thrown = none ∨ out.thrown = all.thrown) ∧
      q₂.getPosition = q₁.getPosition ∧ q₂.hasMoreToFetch = q₁.hasMoreToFetch ∧
      q₂.isSuccess = q₁.isSuccess ∧
      q₂.resultData.stmt.codes = q₁.resultData.stmt.codes := by
  obtain ⟨hstands, -⟩ := fetches_stands (construct_stands rfl rfl).1 hrun
  obtain ⟨hmapper, hresolver⟩ := fetches_members hrun
  have hmapper' : q.resultMapper = ResultMapper.construct env conv classCount := hmapper
  have hresolver' : q.typeResolver = typeResolver := hresolver
  rw [← hmapper', ← hresolver'] at hof
  obtain ⟨d₁, hall, hstands₁, hindex₁, -, -⟩ := fetch_takes henv (-1) hmapper' hstands hlisted hof
  obtain ⟨d₂, hfetches, hstands₂, hindex₂, -⟩ := fetches_take henv hlisted (counts ++ [-1]) hmapper'
    hstands hof
  obtain ⟨portions, rest, htakes, hitems, herror, hportions⟩ := feed.takes_all (counts.map asked)
  have hasked : (counts ++ [-1]).map asked = counts.map asked ++ [none] := List.map_append
  rw [hasked, htakes] at hfetches hindex₂
  obtain ⟨hmore, hsuccess, hcodes⟩ := hstands₂.same hstands₁ (by
    rw [hindex₁, hindex₂, hitems]
    rfl)
  have hthrown : ∀ out ∈ portions.map QueryResult.Fetched.ofPortion, out.thrown = none ∨
      out.thrown = feed.error := by
    intro out hout
    obtain ⟨portion, hmem, rfl⟩ := List.mem_map.mp hout
    exact hportions portion hmem
  have hbuilt : ((portions.map QueryResult.Fetched.ofPortion
      ++ [QueryResult.Fetched.ofPortion rest]).map (·.collection)).flatten = feed.items := by
    rw [← List.map_singleton, ← List.map_append, List.map_map]
    exact hitems
  refine ⟨_, _, portions.map .ofPortion, .ofPortion rest, { q with resultData := d₂ }, hall, ?_,
    hbuilt, ?_, herror, hthrown, ?_, hmore, hsuccess, hcodes⟩
  · rw [hfetches, List.map_append, List.map_singleton]
  · -- nothing is thrown, so the callers get what is built
    intro hnone
    have hfeed : feed.error = none := hnone
    have hdelivered : ∀ out ∈ portions.map QueryResult.Fetched.ofPortion
        ++ [QueryResult.Fetched.ofPortion rest], out.delivered = out.collection := by
      intro out hout
      apply QueryResult.Fetched.delivered_returned
      rcases List.mem_append.mp hout with hout | hout
      · rcases hthrown out hout with h | h
        · exact h
        · exact h.trans hfeed
      · rw [List.mem_singleton.mp hout]
        exact herror.trans hfeed
    rw [List.map_congr_left hdelivered, hbuilt]
    exact (QueryResult.Fetched.delivered_returned hnone).symm
  · exact hindex₂.trans (by rw [hitems]; exact hindex₁.symm)

end

/-! ### A row that is thrown at -/

def lastBad : Statement :=
  .prepared [['n']] [[.integer 1], [.integer 2], [.text ['x']]] ⟨.done, StepCode.done_ne_row⟩

/-- An object whose first field is a string, and the second one a number. -/
def namedNumber : List (Property PlainType) :=
  [⟨['a'], .ofClass .string, none⟩, ⟨['b'], .ofClass (.int .int64), none⟩]

/-- There is no number in the first row, and a BLOB in the place of each string. -/
def blobRows : Statement :=
  .prepared [['a'], ['b']] [[.blob ['x'], .text ['y']], [.blob ['z'], .integer 1]]
    ⟨.done, StepCode.done_ne_row⟩

def blobMapper : ResultMapper PlainType := .construct (plainEnv namedNumber) plainConversions 23

def anyRows : PlainType := .vector (.vector (.ofClass .any))

/-- A row of two values, each in an `Any`. -/
def anyRow (v w : Mapping.Void PlainType) : Mapping.Void PlainType :=
  ⟨some (.collection [⟨some (.anyHandle v), .ofClass .any⟩, ⟨some (.anyHandle w), .ofClass .any⟩]),
    .vector (.ofClass .any)⟩

theorem listed_vector (properties : List (Property PlainType)) (item : PlainType) :
    Listed (plainEnv properties) (.vector item) :=
  ⟨Or.inl rfl, fun _ _ => rfl⟩

/-- The first row is delivered. One call builds an item of the second row before it throws at the
    third; of two calls the first one delivers it, and the second one throws. -/
theorem fetches_chunks_lastBad : ∃ q q₁ q₂ : QueryResult PlainType,
    (QueryResult.construct lastBad plainMapper plainResolver).fetches (plainEnv []) 2
      [(integerRows, 1)] = some ([⟨[integerRow 1], none⟩], q) ∧
    q.fetch (plainEnv []) 2 integerRows (-1) = some (⟨[integerRow 2], some unknownOid⟩, q₁) ∧
    q.fetches (plainEnv []) 2 [(integerRows, 1), (integerRows, 1), (integerRows, -1)]
      = some ([⟨[integerRow 2], none⟩, ⟨[], some unknownOid⟩, ⟨[], some unknownOid⟩], q₂) ∧
    q₂.getPosition = q₁.getPosition ∧ q₂.resultData.stmt.codes = q₁.resultData.stmt.codes := by
  obtain ⟨q, q₁, q₂, hrun, hrest, hfetch, hfetches⟩ : ∃ q q₁ q₂ : QueryResult PlainType,
      (QueryResult.construct lastBad plainMapper plainResolver).fetches (plainEnv []) 2
        [(integerRows, 1)] = some ([⟨[integerRow 1], none⟩], q) ∧
      q.rest = [[.integer 2], [.text ['x']]] ∧
      q.fetch (plainEnv []) 2 integerRows (-1) = some (⟨[integerRow 2], some unknownOid⟩, q₁) ∧
      q.fetches (plainEnv []) 2 [(integerRows, 1), (integerRows, 1), (integerRows, -1)]
        = some ([⟨[integerRow 2], none⟩, ⟨[], some unknownOid⟩, ⟨[], some unknownOid⟩], q₂) :=
    ⟨_, _, _, rfl, rfl, rfl, rfl⟩
  have hsecond : readRow (plainEnv []) plainMapper plainResolver 2 [['n']] integerRows
      [.integer 2] = some (.ok (integerRow 2)) := rfl
  have hlast : readRow (plainEnv []) plainMapper plainResolver 2 [['n']] integerRows
      [.text ['x']] = some (.error unknownOid) := rfl
  have hof : Feed.Of (readRow (plainEnv []) plainMapper plainResolver 2 [['n']] integerRows) q.rest
      ⟨[integerRow 2], some unknownOid⟩ := by
    rw [hrest]
    exact .ok hsecond (.error hlast)
  obtain ⟨all, q₁', portions, rest, q₂', hall, hchunks, -, -, -, -, hposition, -, -, hcodes⟩ :=
    fetches_chunks (plainEnv_lawful []) hrun integerRows_listed hof [1, 1]
  cases hfetch.symm.trans hall
  have hsame := hfetches.symm.trans hchunks
  rw [Option.some.injEq, Prod.mk.injEq] at hsame
  obtain ⟨-, rfl⟩ := hsame
  exact ⟨q, q₁, q₂, hrun, hfetch, hfetches, hposition, hcodes⟩

end OatppSqlite
