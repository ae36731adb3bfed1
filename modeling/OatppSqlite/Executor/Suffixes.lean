import OatppSqlite.Executor.Migrations
import OatppSqlite.Executor.Serial

/-!
# One version table for each suffix

`getSchemaVersion` and `migrateSchema` keep the version of a schema in a table of its own, which
is named by the schema's suffix. Calls for one suffix are made one after the other, on a database
in which the other tables and the other connections' transactions may be anything. What they
leave as it was is `Spared`, and what of a database a `getSchemaVersion` can tell apart is `Alike`;
the two meet unless SQLite finds both tables under one key.

SQLite compares names without regard to case, and the suffix is pasted as it is. So schemas whose
suffixes are `a` and `A` share their version: `versioning_collides`.

A suffix is one over `[A-Za-z0-9_]` (`Suffix`). With any other byte the pasted name need not be one
name: a blank ends it, and what stands behind the blank is read as something else. Over these bytes
it is one token of each statement (`Suffix.queryText_table`), and its key is that of the suffix
(`Suffix.tableKey_eq_iff`).
-/

set_option autoImplicit false

namespace OatppSqlite.Executor

open Sqlite

/-! ## Suffixes -/

/-- A suffix over `[A-Za-z0-9_]`, or null, which is the empty suffix. -/
structure Suffix where
  given : Option Text
  plain : (given.getD []).all (fun a => isLetter a || isDigit a || a == '_') = true

def Suffix.text (a : Suffix) : Text := a.given.getD []

/-- The table that keeps the version. -/
def Suffix.table (a : Suffix) : Text := getSchemaVersionTableName a.given

theorem Suffix.table_eq (a : Suffix) :
    a.table = "oatpp_schema_version".toList ++ if a.text = [] then [] else '_' :: a.text := by
  obtain ⟨given, _⟩ := a
  cases given with
  | none => rfl
  | some t =>
    cases t with
    | nil => rfl
    | cons a t => rfl

/-- **The suffix is in the key of its table**, up to case. -/
theorem Suffix.tableKey_eq_iff (a b : Suffix) :
    tableKey a.table = tableKey b.table ↔ foldCase a.text = foldCase b.text := by
  rw [a.table_eq, b.table_eq]
  unfold tableKey foldCase
  rw [List.map_append, List.map_append, List.append_cancel_left_eq]
  cases a.text with
  | nil =>
    cases b.text with
    | nil => rfl
    | cons y u => simp
  | cons x t =>
    cases b.text with
    | nil => simp
    | cons y u => simp

theorem idChar_of_mem_table (a : Suffix) {x : Char} (hx : x ∈ a.table) : idChar x = true := by
  rw [a.table_eq, List.mem_append] at hx
  rcases hx with hx | hx
  · have hall : "oatpp_schema_version".toList.all idChar = true := by decide
    exact List.all_eq_true.mp hall x hx
  split at hx
  · cases hx
  rcases List.mem_cons.mp hx with rfl | hx
  · decide
  · have hplain := List.all_eq_true.mp a.plain x hx
    simp only [Bool.or_eq_true] at hplain
    unfold idChar
    simp only [Bool.or_eq_true]
    exact Or.inl (Or.inl hplain)

theorem Suffix.getToken_table (a : Suffix) {rest : Text}
    (hrest : rest.head?.any idChar = false) :
    ∃ c t, a.table = c :: t ∧ getToken c (t ++ rest) = (.other, a.table.length) := by
  obtain ⟨t, ht⟩ : ∃ t, a.table = 'o' :: t := ⟨_, a.table_eq⟩
  have htoken : getToken 'o' (t ++ rest) = (.other, 1 + runLength idChar (t ++ rest)) := by
    have hclass : aiClass 'o' = .kywd0 := by decide
    unfold getToken
    rw [hclass]
  have hrun : runLength idChar (t ++ rest) = t.length := by
    refine runLength_append (fun x hx => idChar_of_mem_table a ?_) hrest
    rw [ht]
    exact List.mem_cons_of_mem _ hx
  refine ⟨'o', t, ht, ?_⟩
  rw [htoken, hrun, ht, List.length_cons, Nat.add_comm]

/-- The table that a statement names. -/
def namedTable : Query → Option Text
  | .createTable table | .select table | .insertZero table | .update table _ => some table
  | _ => none

/-- **The name is one token** of every statement that it is pasted into. -/
theorem Suffix.queryText_table (a : Suffix) {q : Query} (hq : namedTable q = some a.table) :
    ∃ before c t after, queryText q = before ++ c :: (t ++ after) ∧ a.table = c :: t ∧
      getToken c (t ++ after) = (.other, a.table.length) := by
  obtain ⟨before, after, htext, hafter⟩ : ∃ before after,
      queryText q = before ++ a.table ++ after ∧ after.head?.any idChar = false := by
    cases q with
    | createTable table =>
      cases hq
      exact ⟨"CREATE TABLE IF NOT EXISTS ".toList, " (version BIGINT)".toList, rfl, by decide⟩
    | select table =>
      cases hq
      exact ⟨"SELECT * FROM ".toList, [], (List.append_nil _).symm, rfl⟩
    | insertZero table =>
      cases hq
      exact ⟨"INSERT INTO ".toList, " (version) VALUES (0)".toList, rfl, by decide⟩
    | update table version =>
      cases hq
      have hset : " SET version=".toList = ' ' :: "SET version=".toList := by decide
      refine ⟨"UPDATE ".toList, ' ' :: ("SET version=".toList ++ (toString version).toList ++ [';']),
        ?_, by rw [List.head?_cons]; decide⟩
      unfold queryText
      rw [hset]
      simp only [List.append_assoc, List.cons_append]
    | _ => cases hq
  obtain ⟨c, t, htable, htoken⟩ := a.getToken_table hafter
  refine ⟨before, c, t, after, ?_, htable, htoken⟩
  rw [htext, htable, List.append_assoc, List.cons_append]

/-! ## The stores

A call writes one table and, with a script, the data. A script is the application's own: its
statements are assumed to leave the version tables alone, which are the executor's. -/

variable {ι σ δ : Type} {table : Text}

/-- Another store, but for the data and for the tables that are found as `table`. -/
def SameBut (table : Text) (s s' : Store δ) : Prop :=
  ∀ t, tableKey t ≠ tableKey table → s'.table t = s.table t

theorem SameBut.refl (s : Store δ) : SameBut table s s := fun _ _ => rfl

theorem SameBut.trans {s s' s'' : Store δ} (h : SameBut table s s') (h' : SameBut table s' s'') :
    SameBut table s s'' := fun t ht => (h' t ht).trans (h t ht)

theorem SameBut.setTable (s : Store δ) (rows : List (Option Int)) :
    SameBut table s (s.setTable table rows) := fun _ ht => table_setTable_ne ht

/-- What the statements of a call write. -/
theorem write_sameBut {c : ι} {v : Option Int} {phase : Phase} {q : Query}
    {next : Reply (.exec c q : Request ι σ) → Phase} {s s' : Store δ}
    (hq : Protocol c table v phase (.exec c q) next) (hs : q.write s = some s') :
    SameBut table s s' := by
  cases hq with
  | createTable =>
    simp only [Query.write] at hs
    split at hs
    · -- the table exists, and nothing is written
      cases hs
    · cases hs
      exact .setTable s _
  | insertZero =>
    obtain ⟨rows, -, rfl⟩ := Option.map_eq_some_iff.mp hs
    exact .setTable s _
  | update version =>
    obtain ⟨rows, -, rfl⟩ := Option.map_eq_some_iff.mp hs
    exact .setTable s _
  | _ => cases hs

variable {c : ι} {db₀ db db' : Db ι δ} {v : Option Int} {phase : Phase}

/-- What the calls leave as it was: the transactions, and every other table. -/
structure Spared (table : Text) (db db' : Db ι δ) : Prop where
  inTx : db'.inTx = db.inTx
  writer : db'.writer = db.writer
  committed : SameBut table db.committed db'.committed

theorem Spared.refl (db : Db ι δ) : Spared table db db := ⟨rfl, rfl, .refl _⟩

theorem Spared.symm (h : Spared table db db') : Spared table db' db :=
  ⟨h.inTx.symm, h.writer.symm, fun t ht => (h.committed t ht).symm⟩

theorem Spared.trans {db'' : Db ι δ} (h : Spared table db db') (h' : Spared table db' db'') :
    Spared table db db'' :=
  ⟨h'.inTx.trans h.inTx, h'.writer.trans h.writer, h.committed.trans h'.committed⟩

theorem Spared.writerInTx (h : Spared table db db') (hdb : db.WriterInTx) : db'.WriterInTx := by
  intro i hi w
  rw [h.writer]
  exact hdb i (by rwa [← h.inTx]) w

/-! ## In a call

`Kept` holds at every point of a call, with a transaction open or not; for the copy of a transaction
it says what will hold when the copy is committed. The statements of the call are those of the
protocol in `Executor.Clients`, so each is looked at once. -/

/-- What a call on connection `c` has left of `db₀`, at any point of it. -/
structure Kept (c : ι) (table : Text) (db₀ db : Db ι δ) : Prop where
  others : ∀ j, j ≠ c → Untouched j db₀ db
  committed : SameBut table db₀.committed db.committed
  copy : ∀ w, db.writer = some (c, w) → SameBut table db₀.committed w

theorem Kept.start (hc : Closed db c) : Kept c table db db :=
  ⟨fun j _ => .refl j db, .refl _, fun w hw => absurd hw (hc.2 w)⟩

theorem Untouched.trans {j : ι} {db'' : Db ι δ} (h : Untouched j db db')
    (h' : Untouched j db' db'') : Untouched j db db'' where
  inTx := h'.inTx.trans h.inTx
  writer w := (h'.writer w).trans (h.writer w)
  committed w hw := (h'.committed w ((h.writer w).mpr hw)).trans (h.committed w hw)

/-- Without a connection of its own, a `getSchemaVersion` asks for one first. -/
theorem getSchemaVersion_none (suffix : Option Text) :
    (getSchemaVersion suffix none : Program ι σ Int)
      = (getConnection >>= fun c => getSchemaVersion suffix (some c)) := by
  show Prog.ask _ _ = Prog.ask _ _
  congr 1
  funext reply
  rcases reply with what | _ | c
  · rfl
  · rfl
  · rfl

variable [DecidableEq ι]

/-- The store the call sees. -/
theorem Kept.store (h : Kept c table db₀ db) : SameBut table db₀.committed (db.store c) := by
  unfold Db.store
  split
  · rename_i j w hw
    split
    · rename_i hj
      exact h.copy w (hj ▸ hw)
    · exact h.committed
  · exact h.committed

theorem Kept.failed (h : Kept c table db₀ db) (hdb : db' = db ∨ db' = db.close c) :
    Kept c table db₀ db' := by
  rcases hdb with rfl | rfl
  · exact h
  · exact ⟨fun j hj => (h.others j hj).trans (.close hj db), h.committed,
      fun w hw => absurd hw (close_notWriter db c w)⟩

theorem Kept.commit (h : Kept c table db₀ db) : Kept c table db₀ (db.commit c) where
  others j hj := (h.others j hj).trans (.commit hj db)
  -- what is committed is what the transaction saw
  committed := h.store
  copy w hw := absurd hw (close_notWriter db c w)

theorem Kept.written {s : Store δ} (h : Kept c table db₀ db) (hwrite : db.mayWrite c = true)
    (hs : SameBut table (db.store c) s) : Kept c table db₀ (db.written c s) := by
  have hs' : SameBut table db₀.committed s := h.store.trans hs
  have hothers : ∀ j, j ≠ c → Untouched j db₀ (db.written c s) :=
    fun j hj => (h.others j hj).trans (.written hj hwrite s)
  unfold Db.written at hothers ⊢
  -- in a transaction the copy changes, and outside of one the committed store
  split
  · rename_i hinTx
    rw [if_pos hinTx] at hothers
    refine ⟨hothers, h.committed, fun w hw => ?_⟩
    cases hw
    exact hs'
  · rename_i hinTx
    rw [if_neg hinTx] at hothers
    exact ⟨hothers, hs', h.copy⟩

/-- A statement that keeps to the protocol. -/
theorem Kept.perform {q : Query} {next : Reply (.exec c q : Request ι σ) → Phase}
    {choice : Choice} {answer : Answer} (h : Kept c table db₀ db)
    (hq : Protocol c table v phase (.exec c q) next)
    (hE : perform c db q choice = some (answer, db')) : Kept c table db₀ db' := by
  cases perform_moved hE with
  | same => exact h
  | closed => exact h.failed (Or.inr rfl)
  | begun =>
    refine ⟨fun j hj => (h.others j hj).trans ?_, h.committed, h.copy⟩
    exact perform_untouched hj hE
  | committed => exact h.commit
  | written s hwrite hs => exact h.written hwrite (write_sameBut hq hs)

/-- A statement of a script does not touch a version table. -/
theorem Kept.performScript {effect : σ → δ → Effect δ} {statement : σ} {choice : Choice}
    {errmsg : Option String} (h : Kept c table db₀ db)
    (hE : performScript effect c db statement choice = some (errmsg, db')) :
    Kept c table db₀ db' := by
  rcases performScript_cases hE with ⟨-, hdb⟩ | ⟨-, hran⟩
  · exact h.failed hdb
  cases hran with
  | read => exact h
  | before => exact h
  | wrote d heffect hwrite => exact h.written hwrite fun _ _ => rfl

/-- Only BEGIN opens a transaction. -/
theorem Closed.perform {q : Query} {choice : Choice} {answer : Answer} (h : Closed db c)
    (hE : perform c db q choice = some (answer, db')) (hq : q ≠ .begin) : Closed db' c := by
  cases perform_moved hE with
  | same => exact h
  | closed => exact .of_close db c
  | begun hbegin => exact absurd hbegin hq
  | committed => exact .of_close db c
  | written s =>
    rw [h.written]
    exact h

/-- Where a call may end, its transaction is over. -/
theorem serve_outside (effect : σ → δ → Effect δ) {choice : Choice} {q : Request ι σ}
    {next : Reply q → Phase} {answer : Reply q} (hq : Protocol c table v phase q next)
    (hdb : db.WriterInTx) (hphase : phase.Outside → Closed db c)
    (hE : serve effect choice db q = some (answer, db')) (houtside : (next answer).Outside) :
    Closed db' c := by
  cases hq with
  | begin =>
    rcases perform_cases hE with ⟨-, -, hfailed, -⟩ | ⟨ha, -⟩
    · exact (hphase trivial).failed hfailed
    · -- a BEGIN that succeeds leads into the transaction
      have hbegun : Phase.Outside (if Answer.isSuccess answer then .begun else .ready) := houtside
      rw [ha] at hbegun
      exact hbegun.elim
  | scriptStatement statement =>
    dsimp only at houtside
    split at houtside
    · exact houtside.elim
    · exact houtside.elim
  | update version hv =>
    dsimp only at houtside
    split at houtside
    · exact houtside.elim
    · exact houtside.elim
  | commit =>
    rcases perform_cases hE with ⟨ha, -⟩ | ⟨-, -, -, rfl⟩
    · have hfailed : Phase.Outside (if Answer.isSuccess answer then .ready else .failed) := houtside
      rw [ha] at hfailed
      exact hfailed.elim
    · exact .of_close db c
  | rollback =>
    rcases perform_cases hE with ⟨-, -, hfailed, hinTx⟩ | ⟨-, -, -, rfl⟩
    · exact Closed.failed ⟨hinTx rfl, hdb c (hinTx rfl)⟩ hfailed
    · exact .of_close db c
  | createTable => exact (hphase trivial).perform hE (fun hq => nomatch hq)
  | select => exact (hphase trivial).perform hE (fun hq => nomatch hq)
  | insertZero => exact (hphase trivial).perform hE (fun hq => nomatch hq)

/-- What holds at any point of a call. -/
structure InCall (c : ι) (table : Text) (db₀ : Db ι δ) (phase : Phase) (db : Db ι δ) : Prop
    extends Kept c table db₀ db where
  writerInTx : db.WriterInTx
  outside : phase.Outside → Closed db c

/-! ## Calls

Without a connection of its own a call takes one of the provider. The provider may fail, or return
nothing, and a connection that it gives is in no transaction. -/

/-- The database, and the provider, which may fail, and gives connections that are in no
    transaction. -/
def Serving (effect : σ → δ → Effect δ) (allowed : Choice → Prop) :
    Db ι δ → (q : Request ι σ) → Reply q → Db ι δ → Prop
  | db, .getConnection, reply, db' =>
    db' = db ∧ ∀ c, reply = (.ok (some c) : Except String (Option ι)) → db.inTx c = false
  | db, .exec c q, answer, db' => Environment effect allowed db (.exec c q) answer db'
  | db, .scriptStatement c s, errmsg, db' =>
    Environment effect allowed db (.scriptStatement c s) errmsg db'

variable {effect : σ → δ → Effect δ} {allowed : Choice → Prop} {q : Request ι σ}

theorem InCall.step {next : Reply q → Phase} {answer : Reply q}
    (hq : Protocol c table v phase q next) (h : InCall c table db₀ phase db)
    (hE : Serving effect allowed db q answer db') : InCall c table db₀ (next answer) db' := by
  cases q with
  | getConnection => cases hq
  | exec c' query =>
    obtain ⟨choice, -, hE⟩ := hE
    obtain rfl : c' = c := by cases hq <;> rfl
    exact ⟨h.toKept.perform hq hE, perform_writerInTx h.writerInTx hE,
      serve_outside effect hq h.writerInTx h.outside hE⟩
  | scriptStatement c' statement =>
    obtain ⟨choice, -, hE⟩ := hE
    obtain rfl : c' = c := by
      cases hq
      rfl
    exact ⟨h.toKept.performScript hE, performScript_writerInTx h.writerInTx hE,
      serve_outside effect hq h.writerInTx h.outside hE⟩

/-- A call that is over has spared what it kept. -/
theorem InCall.spared (h : InCall c table db phase db') (hc : Closed db c)
    (hphase : phase.Outside) : Spared table db db' where
  inTx := by
    funext j
    by_cases hj : j = c
    · rw [hj, (h.outside hphase).1, hc.1]
    · exact (h.others j hj).inTx
  writer := by
    apply Option.ext
    rintro ⟨j, w⟩
    by_cases hj : j = c
    · subst hj
      exact iff_of_false ((h.outside hphase).2 w) (hc.2 w)
    · exact (h.others j hj).writer w
  committed := h.committed

/-- A program that keeps to the protocol of a call. -/
theorem spared_of_follows {α : Type} {p : Program ι σ α} {Post : Except String α → Phase → Prop}
    (hp : Prog.wp (Prog.following (Protocol c table v)) Post p .free)
    (hpost : ∀ r phase, Post r phase → phase.Outside) (hdb : db.WriterInTx)
    (hc : db.inTx c = false) {r : Except String α}
    (hrun : Prog.Runs (Serving effect allowed) p db r db') : Spared table db db' := by
  have hclosed : Closed db c := ⟨hc, hdb c hc⟩
  have hstart : InCall c table db .free db := ⟨.start hclosed, hdb, fun _ => hclosed⟩
  obtain ⟨phase, hr, hend⟩ := Prog.Runs.keeps (I := InCall c table db)
    (fun _ _ _ _ _ _ hq h hE => h.step hq hE) hp hstart hrun
  exact hend.spared hclosed (hpost r phase hr)

/-- A call for a suffix, on a connection or on one of the provider. The connection is in no
    transaction, as none is between two such calls. -/
inductive Called (effect : σ → δ → Effect δ) (C : TransactionClass ι σ) (suffix : Option Text)
    (db db' : Db ι δ) : Prop
  | getSchemaVersion (connection : Option ι) (r : Except String Int)
      (hc : ∀ c, connection = some c → db.inTx c = false)
      (hrun : Prog.Runs (Serving effect fun _ => True)
        (Executor.getSchemaVersion suffix connection : Program ι σ Int) db r db')
  | migrateSchema (script : Option (List σ)) (newVersion : Int) (connection : Option ι)
      (r : Except String Unit) (hc : ∀ c, connection = some c → db.inTx c = false)
      (hrun : Prog.Runs (Serving effect fun _ => True)
        (Executor.migrateSchema C script newVersion suffix connection) db r db')

/-- A connection of the provider. -/
theorem runs_connected {α : Type} {f : ι → Program ι σ α} {r : Except String α}
    (hc : db.inTx c = false) (h : Prog.Runs (Serving effect allowed) (f c) db r db') :
    Prog.Runs (Serving effect allowed) (getConnection >>= f) db r db' := by
  have hreply : Serving effect allowed db (.getConnection : Request ι σ)
      (.ok (some c) : Except String (Option ι)) db := by
    refine ⟨rfl, fun c' hc' => ?_⟩
    cases hc'
    exact hc
  exact .ask hreply h

/-- The provider gives a connection, or it fails, as it may at any time. -/
theorem runs_getConnection {α : Type} {f : ι → Program ι σ α} {r : Except String α}
    (h : Prog.Runs (Serving effect allowed) (getConnection >>= f) db r db') :
    (∃ c, db.inTx c = false ∧ Prog.Runs (Serving effect allowed) (f c) db r db') ∨
      (db' = db ∧ ∀ db, Prog.Runs (Serving effect allowed) (getConnection >>= f) db r db) := by
  cases h with
  | @ask _ _ reply _ _ _ _ hE hrun =>
    obtain ⟨rfl, hprovided⟩ := hE
    -- a reply without a connection says nothing of the database
    have hfailed : ∀ db : Db ι δ, (∀ c, reply ≠ (.ok (some c) : Except String (Option ι))) →
        Serving effect allowed db (.getConnection : Request ι σ) reply db :=
      fun db hne => ⟨rfl, fun c hc => absurd hc (hne c)⟩
    rcases reply with what | _ | c
    · cases hrun
      exact Or.inr ⟨rfl, fun db => .ask (hfailed db fun _ h => nomatch h) .throw⟩
    · cases hrun
      exact Or.inr ⟨rfl, fun db => .ask (hfailed db fun _ h => nomatch h) .throw⟩
    · exact Or.inl ⟨c, hprovided c rfl, hrun⟩

theorem VersionGiven.outside {r : Except String Int} (h : VersionGiven r phase) :
    phase.Outside := by
  cases r with
  | ok version =>
    obtain rfl : phase = .ready := h
    trivial
  | error what => exact Ended.outside (r := (.error what : Except String Int)) h

theorem getSchemaVersion_spares {suffix : Option Text} {r : Except String Int}
    (hdb : db.WriterInTx) (hc : db.inTx c = false)
    (hrun : Prog.Runs (Serving effect allowed) (getSchemaVersion suffix (some c)) db r db') :
    Spared (getSchemaVersionTableName suffix) db db' :=
  spared_of_follows (getSchemaVersion_follows (v := none)) (fun _ _ => VersionGiven.outside) hdb hc
    hrun

/-- **A call spares** what is not its own. -/
theorem Called.spared {C : TransactionClass ι σ} (hC : LawfulTransaction C) {suffix : Option Text}
    (hdb : db.WriterInTx) (h : Called effect C suffix db db') :
    Spared (getSchemaVersionTableName suffix) db db' := by
  cases h with
  | getSchemaVersion connection r hc hrun =>
    cases connection with
    | some c => exact getSchemaVersion_spares hdb (hc c rfl) hrun
    | none =>
      rw [getSchemaVersion_none] at hrun
      rcases runs_getConnection hrun with ⟨c, hc, hrun⟩ | ⟨rfl, -⟩
      · exact getSchemaVersion_spares hdb hc hrun
      · exact .refl db'
  | migrateSchema script newVersion connection r hc hrun =>
    cases script with
    | none =>
      cases hrun
      exact .refl db
    | some script =>
      cases connection with
      | none =>
        cases hrun
        exact .refl db
      | some c =>
        exact spared_of_follows (migrateSchema_follows hC script rfl) (fun _ _ => Ended.outside)
          hdb (hc c rfl) hrun

/-- **So does a sequence of calls.** -/
theorem calls_spare {C : TransactionClass ι σ} (hC : LawfulTransaction C) {suffix : Option Text}
    (hdb : db.WriterInTx) (h : Relation.ReflTransGen (Called effect C suffix) db db') :
    Spared (getSchemaVersionTableName suffix) db db' := by
  induction h with
  | refl => exact .refl db
  | tail _ hcall ih => exact ih.trans (hcall.spared hC (ih.writerInTx hdb))

/-! ## What a `getSchemaVersion` sees -/

/-- Two databases that connection `e` cannot tell apart by a table. -/
structure Alike (e : ι) (table : Text) (db db' : Db ι δ) : Prop where
  inTx : db'.inTx e = db.inTx e
  mayWrite : db'.mayWrite e = db.mayWrite e
  committed : db'.committed.table table = db.committed.table table
  store : (db'.store e).table table = (db.store e).table table
  writerInTx : db.WriterInTx
  writerInTx' : db'.WriterInTx

variable {e : ι}

theorem Alike.close (h : Alike e table db db') : Alike e table (db.close e) (db'.close e) where
  inTx := (if_pos rfl).trans (if_pos rfl).symm
  mayWrite := by rw [mayWrite_close, mayWrite_close, h.mayWrite]
  committed := h.committed
  store := by
    rw [store_close, store_close]
    exact h.committed
  writerInTx := h.writerInTx.close e
  writerInTx' := h.writerInTx'.close e

/-- Both connections write the same into the table. -/
theorem Alike.written (h : Alike e table db db') (rows : List (Option Int)) :
    Alike e table (db.written e ((db.store e).setTable table rows))
      (db'.written e ((db'.store e).setTable table rows)) where
  inTx := by rw [Db.inTx_written, Db.inTx_written, h.inTx]
  mayWrite := by
    unfold Db.written
    rw [h.inTx]
    split
    · rfl
    · exact h.mayWrite
  committed := by
    unfold Db.written
    rw [h.inTx]
    split
    · exact h.committed
    · rw [Store.table_setTable, Store.table_setTable]
  store := by
    rw [store_written h.writerInTx, store_written h.writerInTx', Store.table_setTable,
      Store.table_setTable]
  writerInTx := h.writerInTx.written e _
  writerInTx' := h.writerInTx'.written e _

/-- The statements of a `getSchemaVersion`. -/
inductive Reads (e : ι) (table : Text) : Unit → (q : Request ι σ) → (Reply q → Unit) → Prop
  | createTable : Reads e table () (.exec e (.createTable table)) fun _ => ()
  | select : Reads e table () (.exec e (.select table)) fun _ => ()
  | insertZero : Reads e table () (.exec e (.insertZero table)) fun _ => ()

omit [DecidableEq ι] in
theorem getSchemaVersion_reads (suffix : Option Text) (e : ι) :
    Prog.wp (Prog.following (Reads (σ := σ) e (getSchemaVersionTableName suffix)))
      (fun _ _ => True) (getSchemaVersion suffix (some e)) () := by
  simp only [getSchemaVersion, exec_bind]
  refine ⟨_, .createTable, fun answer => ?_⟩
  cases ha : Answer.isSuccess answer with
  | false =>
    simp only [ha, Bool.false_eq_true, if_false]
    trivial
  | true =>
  simp only [ha, if_true]
  refine ⟨_, .select, fun answer => ?_⟩
  cases ha : Answer.isSuccess answer with
  | false =>
    simp only [ha, Bool.false_eq_true, if_false]
    trivial
  | true =>
  simp only [ha, if_true]
  generalize Answer.versions answer = versions
  rcases versions with _ | ⟨_ | version, _ | ⟨_, _⟩⟩
  · refine ⟨_, .insertZero, fun answer => ?_⟩
    cases ha : Answer.isSuccess answer with
    | false =>
      simp only [ha, Bool.false_eq_true, if_false]
      trivial
    | true =>
      simp only [ha, if_true]
      trivial
  · trivial
  · trivial
  · trivial
  · trivial

/-- A failure is the same in both, and so is what it leaves. -/
theorem Alike.fails {q : Query} {message : String} {rollsBack : Bool} {answer : Answer}
    (h : Alike e table db₀ db) (hq : q ≠ .rollback)
    (hE : perform e db₀ q (.fails message rollsBack) = some (answer, db')) :
    ∃ db'', perform e db q (.fails message rollsBack) = some (answer, db'') ∧
      Alike e table db' db'' := by
  have hfails : ∀ db : Db ι δ, perform e db q (.fails message rollsBack)
      = some (.failed message, if rollsBack then db.close e else db) :=
    fun db => if_neg fun hrollback => hq hrollback.1
  rw [hfails] at hE ⊢
  cases hE
  refine ⟨_, rfl, ?_⟩
  cases rollsBack
  · exact h
  · exact h.close

/-- A statement of a `getSchemaVersion` has the same answers in both. -/
theorem Alike.answered {q : Query} {choice : Choice} {answer : Answer}
    {next : Reply (.exec e q : Request ι σ) → Unit} (hq : Reads e table () (.exec e q) next)
    (h : Alike e table db₀ db) (hE : perform e db₀ q choice = some (answer, db')) :
    ∃ db'', perform e db q choice = some (answer, db'') ∧ Alike e table db' db'' := by
  cases choice with
  | fails message rollsBack =>
    refine h.fails (fun hrollback => ?_) hE
    subst hrollback
    cases hq
  | breaksOff n =>
    obtain ⟨t, row, l, rfl, hrows, rfl, rfl⟩ := perform_breaksOff hE
    cases hq
    refine ⟨db, ?_, h⟩
    unfold perform
    simp only [h.store, hrows]
  | readsBefore => cases hE
  | succeeds =>
    cases hq with
    | createTable =>
      unfold perform at hE ⊢
      simp only [Query.isDone, Query.write, h.store, h.mayWrite] at hE ⊢
      cases hrows : (db₀.store e).table table with
      | some rows =>
        simp only [hrows, Option.isSome_some, if_true] at hE ⊢
        cases hE
        exact ⟨db, rfl, h⟩
      | none =>
        simp only [hrows, Option.isSome_none, Bool.false_eq_true, if_false] at hE ⊢
        split at hE
        · cases hE
          exact ⟨_, if_pos ‹_›, h.written []⟩
        · cases hE
    | select =>
      unfold perform at hE ⊢
      simp only [h.store] at hE ⊢
      obtain ⟨rows, hrows, heq⟩ := Option.map_eq_some_iff.mp hE
      cases heq
      rw [hrows]
      exact ⟨db, rfl, h⟩
    | insertZero =>
      unfold perform at hE ⊢
      simp only [Query.isDone, Query.write, h.store, h.mayWrite, Bool.false_eq_true,
        if_false] at hE ⊢
      split at hE
      · obtain ⟨s, hs, heq⟩ := Option.map_eq_some_iff.mp hE
        obtain ⟨rows, hrows, rfl⟩ := Option.map_eq_some_iff.mp hs
        cases heq
        rw [hrows, if_pos ‹_›]
        exact ⟨_, rfl, h.written _⟩
      · cases hE

theorem Alike.step {q : Request ι σ} {phase : Unit} {next : Reply q → Unit} {answer : Reply q}
    (hq : Reads e table phase q next) (h : Alike e table db₀ db)
    (hE : Serving effect allowed db₀ q answer db') :
    ∃ db'', Serving effect allowed db q answer db'' ∧ Alike e table db' db'' := by
  cases hq with
  | createTable =>
    obtain ⟨choice, hallowed, hE⟩ := hE
    obtain ⟨db'', hE', h'⟩ := h.answered (σ := σ) .createTable hE
    exact ⟨db'', ⟨choice, hallowed, hE'⟩, h'⟩
  | select =>
    obtain ⟨choice, hallowed, hE⟩ := hE
    obtain ⟨db'', hE', h'⟩ := h.answered (σ := σ) .select hE
    exact ⟨db'', ⟨choice, hallowed, hE'⟩, h'⟩
  | insertZero =>
    obtain ⟨choice, hallowed, hE⟩ := hE
    obtain ⟨db'', hE', h'⟩ := h.answered (σ := σ) .insertZero hE
    exact ⟨db'', ⟨choice, hallowed, hE'⟩, h'⟩

/-- How a `getSchemaVersion` may end, from a database where only `allowed` choices are made. -/
def Gives (effect : σ → δ → Effect δ) (allowed : Choice → Prop) (suffix : Option Text)
    (connection : Option ι) (db : Db ι δ) (r : Except String Int) : Prop :=
  ∃ db', Prog.Runs (Serving effect allowed)
    (getSchemaVersion suffix connection : Program ι σ Int) db r db'

variable {suffix : Option Text} {r : Except String Int}

theorem Alike.gives (h : Alike e (getSchemaVersionTableName suffix) db db')
    (hgives : Gives effect allowed suffix (some e) db r) :
    Gives effect allowed suffix (some e) db' r := by
  obtain ⟨db₁, hrun⟩ := hgives
  obtain ⟨-, db₂, -, hrun', -⟩ := Prog.Runs.simulated (F := Serving effect allowed)
    (R := Reads e (getSchemaVersionTableName suffix))
    (S := fun _ => Alike e (getSchemaVersionTableName suffix))
    (fun _ _ _ _ _ _ _ hq h hE => h.step hq hE) (getSchemaVersion_reads suffix e) h hrun
  exact ⟨db₂, hrun'⟩

/-- Whatever connection it is on. -/
theorem Spared.alike (h : Spared table db db') (hdb : db.WriterInTx) {t : Text}
    (hne : tableKey t ≠ tableKey table) (e : ι) : Alike e t db db' where
  inTx := congrFun h.inTx e
  mayWrite := by
    unfold Db.mayWrite
    rw [h.writer]
  committed := h.committed t hne
  store := by
    unfold Db.store
    rw [h.writer]
    split
    · split
      · rfl
      · exact h.committed t hne
    · exact h.committed t hne
  writerInTx := hdb
  writerInTx' := h.writerInTx hdb

/-- **What is spared, a `getSchemaVersion` does not see.** -/
theorem Spared.gives (h : Spared table db db') (hdb : db.WriterInTx)
    (hne : tableKey (getSchemaVersionTableName suffix) ≠ tableKey table) {connection : Option ι}
    (hgives : Gives effect allowed suffix connection db r) :
    Gives effect allowed suffix connection db' r := by
  cases connection with
  | some e => exact (h.alike hdb hne e).gives hgives
  | none =>
    obtain ⟨db₁, hrun⟩ := hgives
    unfold Gives
    rw [getSchemaVersion_none] at hrun ⊢
    rcases runs_getConnection hrun with ⟨c, hc, hrun⟩ | ⟨-, hfailed⟩
    · obtain ⟨db₂, hrun'⟩ := (h.alike hdb hne c).gives ⟨db₁, hrun⟩
      exact ⟨db₂, runs_connected (by rwa [h.inTx]) hrun'⟩
    · exact ⟨db', hfailed db'⟩

/-! ## The result -/

/-- No sequence of calls for the suffix `a` changes how a `getSchemaVersion` for `b` may end:
    what it returns or throws, under the same conditions. -/
def Independent (C : TransactionClass ι σ) (effect : σ → δ → Effect δ) (a b : Suffix) : Prop :=
  ∀ db db' : Db ι δ, db.WriterInTx → Relation.ReflTransGen (Called effect C a.given) db db' →
    ∀ (connection : Option ι) (allowed : Choice → Prop) (r : Except String Int),
      Gives effect allowed b.given connection db r ↔ Gives effect allowed b.given connection db' r

variable {C : TransactionClass ι σ}

theorem independent_of_ne (hC : LawfulTransaction C) {a b : Suffix}
    (hne : foldCase a.text ≠ foldCase b.text) : Independent C effect a b := by
  intro db db' hdb hcalls connection allowed r
  have hkey : tableKey b.table ≠ tableKey a.table :=
    fun hkey => hne ((Suffix.tableKey_eq_iff b a).mp hkey).symm
  have hspared : Spared a.table db db' := calls_spare hC hdb hcalls
  constructor
  · exact hspared.gives hdb hkey
  · exact hspared.symm.gives (hspared.writerInTx hdb) hkey

/-- A database without tables. -/
def freshDb (d : δ) : Db ι δ := ⟨⟨d, fun _ => none⟩, fun _ => false, none⟩

theorem Environment.serving {allowed' : Choice → Prop} {q : Request ι σ} {answer : Reply q}
    (hallowed : ∀ choice, allowed choice → allowed' choice)
    (h : Environment effect allowed db q answer db') :
    Serving effect allowed' db q answer db' := by
  cases q with
  | getConnection => exact h.elim
  | exec c q =>
    obtain ⟨choice, hchoice, hE⟩ := h
    exact ⟨choice, hallowed choice hchoice, hE⟩
  | scriptStatement c s =>
    obtain ⟨choice, ⟨hchoice, hnow⟩, hE⟩ := h
    exact ⟨choice, ⟨hallowed choice hchoice, hnow⟩, hE⟩

/-- With a connection of its own, a `getSchemaVersion` needs no provider. -/
theorem gives_some_iff :
    Gives effect allowed suffix (some e) db r ↔
      ∃ db', Prog.Runs (Environment effect allowed)
        (getSchemaVersion suffix (some e) : Program ι σ Int) db r db' := by
  constructor
  · rintro ⟨db', hrun⟩
    obtain ⟨-, db'', -, hrun', -⟩ := Prog.Runs.simulated (F := Environment effect allowed)
      (R := Reads e (getSchemaVersionTableName suffix)) (S := fun _ => Eq)
      (fun _ _ _ _ _ _ s' hq hs hE => ⟨s', by cases hq <;> exact hs ▸ hE, rfl⟩)
      (getSchemaVersion_reads suffix e) rfl hrun
    exact ⟨db'', hrun'⟩
  · rintro ⟨db', hrun⟩
    exact ⟨db', hrun.mono fun _ _ _ _ => Environment.serving fun _ h => h⟩

/-- Suffixes that differ in case only have one version between them: where a migration for the one
    is committed, the other is at its version. -/
theorem not_independent (hC : LawfulTransaction C) (effect : σ → δ → Effect δ) (c : ι) (d : δ)
    {a b : Suffix} (heq : foldCase a.text = foldCase b.text) : ¬ Independent C effect a b := by
  intro hindependent
  have hkey : tableKey b.table = tableKey a.table := ((Suffix.tableKey_eq_iff a b).mpr heq).symm
  have hidle : Idle c (freshDb d : Db ι δ).committed (freshDb d) := ⟨rfl, rfl, rfl⟩
  obtain ⟨db', hrun⟩ : ∃ db', Prog.Runs (Undisturbed effect)
      (migrateSchema C (some []) 1 a.given (some c)) (freshDb d) (.ok ()) db' := by
    have hscript : applyScript effect [] (freshDb d : Db ι δ).committed.data = some d := rfl
    obtain ⟨⟨r, db', hrun⟩, hall⟩ := migrateSchema_next hC hidle .absent hscript
    obtain ⟨rfl, -⟩ := hall r db' hrun
    exact ⟨db', hrun⟩
  have hcalled : Called effect C a.given (freshDb d) db' :=
    .migrateSchema (some []) 1 (some c) (.ok ()) (fun _ _ => rfl)
      (hrun.mono fun _ _ _ _ => Environment.serving fun _ _ => trivial)
  -- the version of the other schema is 0 before, and 1 afterwards
  have hbefore : Gives effect (· = .succeeds) b.given (some c) (freshDb d) (.ok 0) :=
    gives_some_iff.mpr (getSchemaVersion_ends effect hidle .absent)
  have hfresh : (freshDb d : Db ι δ).WriterInTx := fun _ _ _ h => nomatch h
  obtain ⟨db'', hafter⟩ := gives_some_iff.mp
    ((hindependent _ _ hfresh (.single hcalled) (some c) _ _).mp hbefore)
  rcases Prog.wp_demonic_iff.mp (migrateSchema_idle hC hidle .absent) _ _ hrun with
    ⟨hle, -⟩ | ⟨-, s', script, d', -, -, -, hidle'⟩
  · exact absurd hle (by decide)
  · have hv : Versioned 1 ((({ s' with data := d' } : Store δ).setTable a.table [some 1]).table
        b.table) := by
      have hsame : ∀ s : Store δ, s.table b.table = s.table a.table := fun s => congrArg s.tables hkey
      rw [hsame, Store.table_setTable]
      exact .row 1
    have hread := Prog.wp_demonic_iff.mp (getSchemaVersion_idle hidle' hv) _ _ hafter
    exact absurd hread.1 (by decide)

/-- **Two schemas have versions of their own exactly if their suffixes differ in more than
    case.** -/
theorem versioning_independent_iff (hC : LawfulTransaction C) (effect : σ → δ → Effect δ) (c : ι)
    (d : δ) (a b : Suffix) : Independent C effect a b ↔ foldCase a.text ≠ foldCase b.text := by
  constructor
  · intro hindependent heq
    exact not_independent hC effect c d heq hindependent
  · exact independent_of_ne hC

def intTest : Suffix := ⟨some "IntTest".toList, by decide⟩

def blobTest : Suffix := ⟨some "BlobTest".toList, by decide⟩

/-- Two suffixes of the tests. -/
theorem versioning_independent_iff_tests :
    Independent (plainTransaction : TransactionClass Nat Nat) logged intTest blobTest :=
  (versioning_independent_iff plainTransaction_lawful logged 0 [] intTest blobTest).mpr (by decide)

/-! ### The suffixes `a` and `A` -/

def lowerCase : Suffix := ⟨some ['a'], by decide⟩

def upperCase : Suffix := ⟨some ['A'], by decide⟩

/-- The schema `a` is brought to version 1; then `A` is at version 1, too, and its own migration
    returns without running its script. -/
theorem versioning_collides :
    lowerCase.text ≠ upperCase.text ∧
    ¬ Independent (plainTransaction : TransactionClass Unit Nat) logged lowerCase upperCase ∧
    ∃ db₁ db₂ db₃ : Db Unit (List Nat),
      Prog.Runs (Undisturbed logged) (getSchemaVersion upperCase.given (some ()))
        emptyDb (.ok 0) db₁ ∧
      Prog.Runs (Undisturbed logged)
        (migrateSchema plainTransaction (some [7]) 1 lowerCase.given (some ())) db₁ (.ok ()) db₂ ∧
      Prog.Runs (Undisturbed logged) (getSchemaVersion upperCase.given (some ()))
        db₂ (.ok 1) db₂ ∧
      Prog.Runs (Undisturbed logged)
        (migrateSchema plainTransaction (some [8]) 1 upperCase.given (some ())) db₂ (.ok ()) db₃ ∧
      db₃.committed.data = [7] := by
  have hserve : ∀ x s q a s', (if x = .succeeds then serve logged x s q else none) = some (a, s') →
      Undisturbed logged (s : Db Unit (List Nat)) q a s' := by
    intro x s q a s' h
    split at h
    · subst x
      exact Environment.of_serve rfl nofun h
    · cases h
  refine ⟨by decide, not_independent plainTransaction_lawful logged () [] (by decide), ?_⟩
  apply Exists.intro
  apply Exists.intro
  apply Exists.intro
  refine ⟨Prog.play_runs _ hserve (.replicate 3 .succeeds) rfl,
    Prog.play_runs _ hserve (.replicate 6 .succeeds) rfl,
    Prog.play_runs _ hserve (.replicate 2 .succeeds) rfl,
    Prog.play_runs _ hserve (.replicate 2 .succeeds) rfl, rfl⟩

end OatppSqlite.Executor
