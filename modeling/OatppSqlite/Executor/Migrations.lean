import OatppSqlite.Executor.Alone

/-!
# Migrations, one call after the other

What a client that is alone with its database gets from `migrateSchema`, whatever fails.
`getSchemaVersion_idle` and `migrateSchema_idle` say it of one call: the client is idle again,
and either nothing happened but to the version table that was being set up (`SetUp`), or the
whole script and its version are there. Where no statement fails that can succeed, a call returns
(`migrateSchema_total_next`). `Calls` is a sequence of calls, and `migrations_applied` is what is
left in the end.

That it is alone is asked for at the beginning only: the client is `Idle`, and whatever its
statements come to it is so again. Another client, on the other hand, could write between the
SELECT of the version and the script; what holds then is the subject of `Executor.Crashes` and
`Executor.Serial`.
-/

set_option autoImplicit false

namespace OatppSqlite.Executor

open Sqlite

variable {ι σ δ : Type} [DecidableEq ι] {c : ι} {table : Text} {suffix : Option Text} {n v : Int}
  {s s' : Store δ} {db db' : Db ι δ} {effect : σ → δ → Effect δ} {allowed : Choice → Prop}

/-! ## The version table

A call may fail after it has created the table or inserted the row, and these stay, since they are
made outside of the transaction. For the version they make no difference: a table that is missing,
one without rows, and one with a 0 all stand for version 0 (`Versioned`). -/

/-- `s'` is `s`, but that the version table may have been set up where it had no row yet. -/
structure SetUp (table : Text) (n : Int) (s s' : Store δ) : Prop where
  data : s'.data = s.data
  versioned : Versioned n (s'.table table)
  others : ∀ t, tableKey t ≠ tableKey table → s'.table t = s.table t
  done : s.table table = some [some n] → s' = s

theorem SetUp.refl (hv : Versioned n (s.table table)) : SetUp table n s s :=
  ⟨rfl, hv, fun _ _ => rfl, fun _ => rfl⟩

theorem table_setTable_ne {t : Text} {rows : List (Option Int)}
    (h : tableKey t ≠ tableKey table) : (s.setTable table rows).table t = s.table t := if_neg h

theorem SetUp.setTable {rows : List (Option Int)} (h : SetUp table n s s')
    (hrows : s'.table table ≠ some [some n]) (hv : Versioned n (some rows)) :
    SetUp table n s (s'.setTable table rows) where
  data := h.data
  versioned := by rwa [Store.table_setTable]
  others t ht := by rw [table_setTable_ne ht, h.others t ht]
  done hdone := absurd ((h.done hdone).symm ▸ hdone) hrows

/-- A table that was created is empty or has its row. -/
theorem Versioned.created (hv : Versioned n (s.table table)) :
    SetUp table n s (created table s) ∧
      (((created table s).table table = some [] ∧ n = 0) ∨
        (created table s).table table = some [some n]) := by
  unfold Executor.created
  cases hrows : s.table table with
  | none =>
    rw [hrows] at hv
    cases hv
    rw [Option.isSome_none, if_neg Bool.false_ne_true, Store.table_setTable]
    have habsent : Versioned 0 (s.table table) := hrows ▸ .absent
    have hne : s.table table ≠ some [some 0] := by
      rw [hrows]
      simp
    exact ⟨(SetUp.refl habsent).setTable hne .empty, Or.inl ⟨rfl, rfl⟩⟩
  | some l =>
    rw [Option.isSome_some, if_pos rfl, hrows]
    refine ⟨.refl hv, ?_⟩
    rw [hrows] at hv
    cases hv with
    | empty => exact Or.inl ⟨rfl, rfl⟩
    | row => exact Or.inr rfl

/-! ## getSchemaVersion

CREATE TABLE and SELECT, and INSERT if there is no row. Each statement is answered from a state in
which the lemmas of `Executor.Alone` apply, and it leads to such a state. -/

/-- How `getSchemaVersion` leaves a database at version `n`. -/
def VersionRead (allowed : Choice → Prop) (c : ι) (table : Text) (n : Int) (s : Store δ) :
    Except String Int → Db ι δ → Prop
  | .ok v, db' =>
    v = n ∧ ∃ s', SetUp table n s s' ∧ s'.table table = some [some n] ∧ Idle c s' db'
  | .error _, db' => CanFail allowed ∧ ∃ s', SetUp table n s s' ∧ Idle c s' db'

theorem getSchemaVersion_idle (h : Idle c s db)
    (hv : Versioned n (s.table (getSchemaVersionTableName suffix))) :
    Prog.wp (Prog.demonic (Environment effect allowed))
      (VersionRead allowed c (getSchemaVersionTableName suffix) n s)
      (getSchemaVersion suffix (some c)) db := by
  obtain ⟨hup, hrows⟩ := hv.created
  simp only [getSchemaVersion, exec_bind]
  intro answer db₁ hE
  rcases h.createTable hE with ⟨ha, hfail, h₁⟩ | ⟨ha, h₁⟩
  · simp only [ha, Bool.false_eq_true, if_false]
    exact ⟨hfail, s, .refl hv, h₁⟩
  simp only [ha, if_true]
  intro answer db₂ hE
  rcases hrows with ⟨hrows, rfl⟩ | hrows
  · rcases h₁.select hrows (Nat.zero_le 1) hE with ⟨ha, hfail, h₂⟩ | ⟨ha, hversions, h₂⟩
    · simp only [ha, Bool.false_eq_true, if_false]
      exact ⟨hfail, _, hup, h₂⟩
    -- no row yet: the version is 0 once it is inserted
    simp only [ha, if_true, hversions]
    intro answer db₃ hE
    rcases h₂.insertZero hrows hE with ⟨ha, hfail, h₃⟩ | ⟨ha, h₃⟩
    · simp only [ha, Bool.false_eq_true, if_false]
      exact ⟨hfail, _, hup, h₃⟩
    · simp only [ha, if_true]
      have hne : (created (getSchemaVersionTableName suffix) s).table
          (getSchemaVersionTableName suffix) ≠ some [some 0] := by
        rw [hrows]
        simp
      exact ⟨rfl, _, hup.setTable hne (.row 0), Store.table_setTable _ _ _, h₃⟩
  · rcases h₁.select hrows (Nat.le_refl 1) hE with ⟨ha, hfail, h₂⟩ | ⟨ha, hversions, h₂⟩
    · simp only [ha, Bool.false_eq_true, if_false]
      exact ⟨hfail, _, hup, h₂⟩
    · simp only [ha, if_true, hversions]
      exact ⟨rfl, _, hup, hrows, h₂⟩

/-! ## migrateSchema

The part with the transaction is split where the source has the `orm::Transaction` on its stack: the
body of the scope (`migrateInTransaction_inside`), and the destructor behind it (`destroy_idle`),
which finds the transaction over or rolls it back. -/

variable {w : Store δ} {script : List σ} {C : TransactionClass ι σ}

/-- `sqlite3_exec` in a transaction: it applies the whole script there, or has a message. -/
theorem sqlite3_exec_inside (h : Inside c s w db) :
    Prog.wp (Prog.demonic (Environment effect allowed))
      (fun r db' => match r with
        | .ok none => ∃ d, applyScript effect script w.data = some d ∧
            Inside c s { w with data := d } db'
        | .ok (some _) => Broken c s db'
        | .error _ => False)
      (sqlite3_exec c script) db := by
  induction script generalizing w db with
  | nil => exact ⟨w.data, rfl, h⟩
  | cons statement script ih =>
    intro errmsg db₁ hE
    rcases h.scriptStatement hE with ⟨what, rfl, h₁⟩ | ⟨rfl, d, hd, h₁⟩
    · exact h₁
    · refine Prog.wp_mono Prog.demonic_monotone ?_ (ih h₁)
      rintro (what | _ | what) db₂ hr
      · exact hr
      · obtain ⟨d', hd', h₂⟩ := hr
        refine ⟨d', ?_, h₂⟩
        rw [applyScript, List.foldlM_cons, hd]
        exact hd'
      · exact hr

/-- What the transaction object stands for when the body of the migration is left. -/
def InTransaction (effect : σ → δ → Effect δ) (C : TransactionClass ι σ) (c : ι) (table : Text)
    (s : Store δ) (script : List σ) (v : Int) :
    Except String (Except String Unit × C.Transaction) → Db ι δ → Prop
  | .ok (.ok (), transaction), db' => transaction = C.closed ∧ ∃ d,
      applyScript effect script s.data = some d ∧
      Idle c (({ s with data := d } : Store δ).setTable table [some v]) db'
  | .ok (.error _, transaction), db' => transaction = C.opened c ∧ Broken c s db'
  | .error _, _ => False

theorem migrateInTransaction_inside (hC : LawfulTransaction C) (h : Inside c s s db)
    (hrows : s.table (getSchemaVersionTableName suffix) = some [some n]) :
    Prog.wp (Prog.demonic (Environment effect allowed))
      (InTransaction effect C c (getSchemaVersionTableName suffix) s script v)
      (migrateInTransaction C script v suffix c (C.opened c)) db := by
  unfold migrateInTransaction
  refine Prog.wp_bind.mpr (Prog.wp_mono Prog.demonic_monotone ?_ (sqlite3_exec_inside h))
  rintro (what | _ | what) db₁ h₁
  · exact h₁.elim
  · obtain ⟨d, hd, h₁⟩ := h₁
    simp only [Prog.andThen, updateSchemaVersion, exec_bind, hC.commit_eq, commit,
      Prog.ask_bind_eq, Prog.pure_bind_eq]
    intro answer db₂ hE
    rcases h₁.update hrows hE with ⟨ha, h₂⟩ | ⟨rfl, h₂⟩
    · simp only [ha, Bool.not_false, Bool.true_or, if_true]
      exact ⟨rfl, h₂⟩
    · intro answer db₃ hE
      rcases h₂.commit hE with ⟨ha, h₃⟩ | ⟨ha, h₃⟩
      · simp only [ha, Bool.not_false, if_true]
        exact ⟨rfl, h₃⟩
      · simp only [ha, Bool.not_true, Bool.false_eq_true, if_false]
        exact ⟨rfl, d, hd, h₃⟩
  · exact ⟨rfl, h₁⟩

/-- Destroying the transaction leads back, whether it is open or over. -/
theorem destroy_idle (hC : LawfulTransaction C) {outcome : Except String Unit}
    {transaction : C.Transaction}
    (h : InTransaction effect C c table s script v (.ok (outcome, transaction)) db) :
    Prog.wp (Prog.demonic (Environment effect allowed))
      (fun r db' => r = .ok () ∧ match outcome with
        | .ok () => ∃ d, applyScript effect script s.data = some d ∧
            Idle c (({ s with data := d } : Store δ).setTable table [some v]) db'
        | .error _ => Idle c s db')
      (C.destroy transaction) db := by
  cases outcome with
  | ok _ =>
    obtain ⟨rfl, h⟩ := h
    rw [hC.destroy_closed]
    exact ⟨rfl, h⟩
  | error what =>
    obtain ⟨rfl, h⟩ := h
    simp only [hC.destroy_opened, rollback, exec_bind]
    intro answer db₁ hE
    exact ⟨rfl, h.rollback hE⟩

/-- How `migrateSchema` leaves a database at version `n`. -/
def Migrated (effect : σ → δ → Effect δ) (allowed : Choice → Prop) (c : ι) (table : Text)
    (n : Int) (s : Store δ) (script : Option (List σ)) (v : Int) :
    Except String Unit → Db ι δ → Prop
  | .ok (), db' => (v ≤ n ∧ ∃ s', SetUp table n s s' ∧ Idle c s' db') ∨
      (v = n + 1 ∧ ∃ s' script' d, SetUp table n s s' ∧ script = some script' ∧
        applyScript effect script' s.data = some d ∧
        Idle c (({ s' with data := d } : Store δ).setTable table [some v]) db')
  | .error _, db' => (script.isSome → v ≤ n → CanFail allowed) ∧
      ∃ s', SetUp table n s s' ∧ Idle c s' db'

theorem migrateSchema_idle (hC : LawfulTransaction C) (h : Idle c s db)
    (hv : Versioned n (s.table (getSchemaVersionTableName suffix)))
    {script : Option (List σ)} :
    Prog.wp (Prog.demonic (Environment effect allowed))
      (Migrated effect allowed c (getSchemaVersionTableName suffix) n s script v)
      (migrateSchema C script v suffix (some c)) db := by
  cases script with
  | none => exact ⟨fun hs => Bool.noConfusion hs, s, .refl hv, h⟩
  | some script =>
    refine Prog.wp_bind.mpr
      (Prog.wp_mono Prog.demonic_monotone ?_ (getSchemaVersion_idle h hv))
    rintro (what | currVersion) db₁ h₁
    · obtain ⟨hfail, hs⟩ := h₁
      exact ⟨fun _ _ => hfail, hs⟩
    obtain ⟨rfl, s', hup, hrows, h₁⟩ := h₁
    show Prog.wp _ _ (if v ≤ currVersion then pure () else _) db₁
    split
    · -- the version is there already
      exact Or.inl ⟨‹_›, s', hup, h₁⟩
    split
    · -- it is not the next one
      exact ⟨fun _ hle => absurd hle ‹_›, s', hup, h₁⟩
    have hsucc : v = currVersion + 1 := by omega
    obtain ⟨what, -, hconstruct⟩ := hC.construct_eq
    simp only [hconstruct, begin, exec_bind, Prog.ask_bind_eq]
    intro answer db₂ hE
    rcases h₁.begin hE with ⟨ha, -, h₂⟩ | ⟨ha, h₂⟩
    · simp only [ha, Bool.false_eq_true, if_false, Prog.throw_bind_eq]
      exact ⟨fun _ hle => absurd hle ‹_›, s', hup, h₂⟩
    simp only [ha, if_true, Prog.pure_bind_eq]
    refine Prog.wp_bind.mpr (Prog.wp_mono Prog.demonic_monotone ?_
      (migrateInTransaction_inside hC h₂ hrows))
    rintro (what | ⟨outcome, transaction⟩) db₃ h₃
    · exact h₃.elim
    refine Prog.wp_bind.mpr (Prog.wp_mono Prog.demonic_monotone ?_ (destroy_idle hC h₃))
    rintro r db₄ ⟨rfl, h₄⟩
    cases outcome with
    | ok _ =>
      obtain ⟨d, hd, h₄⟩ := h₄
      rw [hup.data] at hd
      exact Or.inr ⟨hsucc, s', script, d, hup, rfl, hd, h₄⟩
    | error what => exact ⟨fun _ hle => absurd hle ‹_›, s', hup, h₄⟩

/-! ## Sequences of calls

Which scripts have been applied can be told from the calls and how they ended (`wholeScripts`): a
call that returned and was for the next version has applied its script, and no other has. -/

/-- A call of `migrateSchema`. -/
structure Call (σ : Type) where
  script : Option (List σ)
  version : Int

/-- Calls one after the other, and how each of them ended. -/
inductive Calls (effect : σ → δ → Effect δ) (C : TransactionClass ι σ) (suffix : Option Text)
    (c : ι) : List (Call σ) → Db ι δ → List (Except String Unit) → Db ι δ → Prop
  | nil (db : Db ι δ) : Calls effect C suffix c [] db [] db
  | cons {call : Call σ} {calls : List (Call σ)} {db db' db'' : Db ι δ}
      {r : Except String Unit} {results : List (Except String Unit)} :
      Prog.Runs (Disturbed effect) (migrateSchema C call.script call.version suffix (some c))
        db r db' →
      Calls effect C suffix c calls db' results db'' →
      Calls effect C suffix c (call :: calls) db (r :: results) db''

/-- The scripts of the calls that returned and were for the version after the current one, which
    is `n` at first. -/
def wholeScripts (n : Int) : List (Call σ × Except String Unit) → List (List σ)
  | [] => []
  | (⟨some script, v⟩, .ok ()) :: ended =>
    if v = n + 1 then script :: wholeScripts (n + 1) ended else wholeScripts n ended
  | _ :: ended => wholeScripts n ended

section

variable {ended : List (Call σ × Except String Unit)} {script : Option (List σ)}

theorem wholeScripts_error (what : String) :
    wholeScripts n ((⟨script, v⟩, .error what) :: ended) = wholeScripts n ended := by
  cases script <;> rfl

theorem wholeScripts_le (h : v ≤ n) :
    wholeScripts n ((⟨script, v⟩, .ok ()) :: ended) = wholeScripts n ended := by
  have hv : v ≠ n + 1 := by omega
  cases script with
  | none => rfl
  | some script => exact if_neg hv

theorem wholeScripts_succ (script : List σ) :
    wholeScripts n ((⟨some script, n + 1⟩, .ok ()) :: ended)
      = script :: wholeScripts (n + 1) ended := if_pos rfl

end

theorem applyScript_append {script script' : List σ} {d d' : δ}
    (h : applyScript effect script d = some d') :
    applyScript effect (script ++ script') d = applyScript effect script' d' := by
  rw [applyScript, List.foldlM_append]
  show (applyScript effect script d >>= _) = _
  rw [h]
  rfl

/-- What a sequence of calls has done to the store, at version `n` before it. -/
structure Applied (effect : σ → δ → Effect δ) (table : Text) (n : Int) (s : Store δ)
    (scripts : List (List σ)) (s' : Store δ) : Prop where
  data : applyScript effect scripts.flatten s.data = some s'.data
  versioned : Versioned (n + scripts.length) (s'.table table)
  others : ∀ t, tableKey t ≠ tableKey table → s'.table t = s.table t

theorem SetUp.applied {scripts : List (List σ)} {s'' : Store δ} (h : SetUp table n s s')
    (h' : Applied effect table n s' scripts s'') : Applied effect table n s scripts s'' :=
  ⟨h.data ▸ h'.data, h'.versioned, fun t ht => (h'.others t ht).trans (h.others t ht)⟩

/-- One more script in front. -/
theorem SetUp.applied_cons {scripts : List (List σ)} {s'' : Store δ} {script : List σ} {d : δ}
    (h : SetUp table n s s') (hd : applyScript effect script s.data = some d)
    (h' : Applied effect table (n + 1) (({ s' with data := d } : Store δ).setTable table
      [some (n + 1)]) scripts s'') : Applied effect table n s (script :: scripts) s'' where
  data := by
    rw [List.flatten_cons, applyScript_append hd]
    exact h'.data
  versioned := by
    have hlen : n + 1 + (scripts.length : Int) = n + ((script :: scripts).length : Int) := by
      rw [List.length_cons]
      omega
    exact hlen ▸ h'.versioned
  others t ht := by
    rw [h'.others t ht, table_setTable_ne ht]
    exact h.others t ht

/-- **A sequence of calls**, by induction on it. -/
theorem calls_idle (hC : LawfulTransaction C) {calls : List (Call σ)}
    {results : List (Except String Unit)} (hrun : Calls effect C suffix c calls db results db')
    (h : Idle c s db) (hv : Versioned n (s.table (getSchemaVersionTableName suffix))) :
    ∃ s', Idle c s' db' ∧ Applied effect (getSchemaVersionTableName suffix) n s
      (wholeScripts n (calls.zip results)) s' := by
  -- a call may set up the version table or add a script, so the store and the version vary
  induction hrun generalizing s n with
  | nil =>
    refine ⟨s, h, rfl, ?_, fun _ _ => rfl⟩
    simpa [wholeScripts] using hv
  | @cons call calls db db₁ db' r results hcall _ ih =>
    have hmigrated := Prog.wp_demonic_iff.mp (migrateSchema_idle hC h hv) _ _ hcall
    obtain ⟨script, v⟩ := call
    cases r with
    | error what =>
      obtain ⟨-, s₁, hup, h₁⟩ := hmigrated
      obtain ⟨s', h', happlied⟩ := ih h₁ hup.versioned
      rw [List.zip_cons_cons, wholeScripts_error]
      exact ⟨s', h', hup.applied happlied⟩
    | ok _ =>
      rw [List.zip_cons_cons]
      rcases hmigrated with ⟨hle, s₁, hup, h₁⟩ | ⟨rfl, s₁, script, d, hup, rfl, hd, h₁⟩
      · obtain ⟨s', h', happlied⟩ := ih h₁ hup.versioned
        rw [wholeScripts_le hle]
        exact ⟨s', h', hup.applied happlied⟩
      · obtain ⟨s', h', happlied⟩ := ih h₁ (by rw [Store.table_setTable]; exact .row (n + 1))
        rw [wholeScripts_succ]
        exact ⟨s', h', hup.applied_cons hd happlied⟩

/-! ## Undisturbed

What is proved above says where a call leads if it ends, and that it says of every run. That there is
one, where no statement fails, takes an answer for each of its statements. -/

variable (effect) in
/-- Where no statement fails, `getSchemaVersion` has an answer to each of its statements. -/
theorem getSchemaVersion_ends (h : Idle c s db)
    (hv : Versioned n (s.table (getSchemaVersionTableName suffix))) :
    ∃ db', Prog.Runs (Undisturbed effect) (getSchemaVersion suffix (some c)) db (.ok n) db' := by
  obtain ⟨-, hrows⟩ := hv.created
  simp only [getSchemaVersion, exec_bind]
  obtain ⟨answer, db₁, hE⟩ := h.createTable_answered effect (getSchemaVersionTableName suffix)
  rcases h.createTable hE with ⟨-, hfail, -⟩ | ⟨ha, h₁⟩
  · exact (not_canFail hfail).elim
  rcases hrows with ⟨hrows, rfl⟩ | hrows
  · obtain ⟨answer', db₂, hE'⟩ := h₁.select_answered effect hrows
    rcases h₁.select hrows (Nat.zero_le 1) hE' with ⟨-, hfail, -⟩ | ⟨ha', hversions, h₂⟩
    · exact (not_canFail hfail).elim
    obtain ⟨answer'', db₃, hE''⟩ := h₂.insertZero_answered effect hrows
    rcases h₂.insertZero hrows hE'' with ⟨-, hfail, -⟩ | ⟨ha'', h₃⟩
    · exact (not_canFail hfail).elim
    refine ⟨db₃, .ask hE ?_⟩
    simp only [ha, if_true]
    refine .ask hE' ?_
    simp only [ha', if_true, hversions]
    refine .ask hE'' ?_
    simp only [ha'', if_true]
    exact .pure
  · obtain ⟨answer', db₂, hE'⟩ := h₁.select_answered effect hrows
    rcases h₁.select hrows (Nat.le_refl 1) hE' with ⟨-, hfail, -⟩ | ⟨ha', hversions, -⟩
    · exact (not_canFail hfail).elim
    refine ⟨db₂, .ask hE ?_⟩
    simp only [ha, if_true]
    refine .ask hE' ?_
    simp only [ha', if_true, hversions]
    exact .pure

/-- `getSchemaVersion` gives `n`, unless a statement fails. -/
structure ReadsVersion (effect : σ → δ → Effect δ) (suffix : Option Text) (c : ι) (n : Int)
    (db : Db ι δ) : Prop where
  of_returned : ∀ v db', Prog.Runs (Disturbed effect)
    (getSchemaVersion suffix (some c) : Program ι σ Int) db (.ok v) db' → v = n
  of_undisturbed : ∀ r db', Prog.Runs (Undisturbed effect)
    (getSchemaVersion suffix (some c) : Program ι σ Int) db r db' → r = .ok n
  returns : ∃ db', Prog.Runs (Undisturbed effect)
    (getSchemaVersion suffix (some c) : Program ι σ Int) db (.ok n) db'

theorem Idle.readsVersion (h : Idle c s db)
    (hv : Versioned n (s.table (getSchemaVersionTableName suffix))) :
    ReadsVersion effect suffix c n db where
  of_returned v db' hrun :=
    (Prog.wp_demonic_iff.mp (getSchemaVersion_idle h hv) _ _ hrun).1
  of_undisturbed r db' hrun := by
    have hread := Prog.wp_demonic_iff.mp (getSchemaVersion_idle h hv) _ _ hrun
    cases r with
    | error what => exact (not_canFail hread.1).elim
    | ok v => rw [hread.1]
  returns := getSchemaVersion_ends _ h hv

/-! ### Calls that do not fail -/

section

variable {l : List (Option Int)} {q : Query} {answer : Answer} {T : TransactionClass ι σ} {d : δ}

theorem isSuccess_of_undisturbed (hE : Undisturbed effect db (.exec c q) answer db') :
    answer.isSuccess = true := by
  obtain ⟨choice, rfl, hE⟩ := hE
  exact (perform_succeeds hE).1

/-- A statement that has an answer has a successful one. -/
theorem total_exec {K : Answer → Db ι δ → Prop}
    (hanswered : ∃ answer db', Undisturbed effect db (.exec c q) answer db')
    (hK : ∀ answer db', Undisturbed effect db (.exec c q) answer db' →
      answer.isSuccess = true → K answer db') :
    Prog.total (Undisturbed effect) db (.exec c q) K := by
  refine ⟨hanswered, ?_⟩
  intro answer db' hE
  exact hK answer db' hE (isSuccess_of_undisturbed hE)

theorem Inside.scriptStatement_answered {statement : σ} {d : δ} (h : Inside c s w db)
    (hd : (effect statement w.data).after w.data = some d) :
    ∃ db', performScript effect c db statement .succeeds = some (none, db') := by
  unfold performScript
  dsimp only
  rw [h.store]
  cases heffect : effect statement w.data with
  | fails =>
    rw [heffect] at hd
    cases hd
  | reads => exact ⟨_, rfl⟩
  | writes d' => exact ⟨_, if_pos h.mayWrite⟩

theorem Inside.scriptStatement_total {statement : σ} {d : δ} {K : Option String → Db ι δ → Prop}
    (h : Inside c s w db) (hd : (effect statement w.data).after w.data = some d)
    (hK : ∀ db', Inside c s { w with data := d } db' → K none db') :
    Prog.total (Undisturbed effect) db (.scriptStatement c statement) K := by
  obtain ⟨db₁, hperform⟩ := h.scriptStatement_answered hd
  refine ⟨⟨none, db₁, .succeeds, ⟨rfl, nofun⟩, hperform⟩, ?_⟩
  intro errmsg db' hE
  rcases h.scriptStatement hE with ⟨what, rfl, -⟩ | ⟨rfl, d', hd', h'⟩
  · obtain ⟨choice, ⟨rfl, -⟩, hE⟩ := hE
    rw [hperform] at hE
    cases hE
  · obtain rfl : d' = d := Option.some.inj (hd'.symm.trans hd)
    exact hK db' h'

/-- The database does one thing, where nothing fails. -/
theorem undisturbed_unique (effect : σ → δ → Effect δ) :
    ∀ (db : Db ι δ) (q : Request ι σ) (a a' : Reply q) (db' db'' : Db ι δ),
      Undisturbed effect db q a db' → Undisturbed effect db q a' db'' → a = a' ∧ db' = db'' := by
  intro db q a a' db' db'' hE hE'
  cases q with
  | getConnection => cases hE
  | exec c q =>
    obtain ⟨choice, rfl, hE⟩ := hE
    obtain ⟨choice, rfl, hE'⟩ := hE'
    rw [hE] at hE'
    cases hE'
    exact ⟨rfl, rfl⟩
  | scriptStatement c statement =>
    obtain ⟨choice, ⟨rfl, -⟩, hE⟩ := hE
    obtain ⟨choice, ⟨rfl, -⟩, hE'⟩ := hE'
    rw [hE] at hE'
    cases hE'
    exact ⟨rfl, rfl⟩

theorem getSchemaVersion_total (h : Idle c s db)
    (hv : Versioned n (s.table (getSchemaVersionTableName suffix))) :
    Prog.wp (Prog.total (Undisturbed effect))
      (fun r db' => r = .ok n ∧ ∃ s', SetUp (getSchemaVersionTableName suffix) n s s' ∧
        s'.table (getSchemaVersionTableName suffix) = some [some n] ∧ Idle c s' db')
      (getSchemaVersion suffix (some c)) db := by
  obtain ⟨db', hrun⟩ := getSchemaVersion_ends effect h hv
  refine Prog.wp_total_of_run (undisturbed_unique effect) hrun ?_
  apply Prog.wp_mono Prog.demonic_monotone ?_ (getSchemaVersion_idle h hv)
  intro r db' hread
  cases r with
  | error what => exact (not_canFail hread.1).elim
  | ok version =>
    obtain ⟨rfl, hidle⟩ := hread
    exact ⟨rfl, hidle⟩

/-- A version that is there already is passed over, -/
theorem migrateSchema_total_below (h : Idle c s db)
    (hv : Versioned n (s.table (getSchemaVersionTableName suffix))) (hle : v ≤ n) :
    Prog.wp (Prog.total (Undisturbed effect))
      (fun r db' => r = .ok () ∧
        ∃ s', SetUp (getSchemaVersionTableName suffix) n s s' ∧ Idle c s' db')
      (migrateSchema T (some script) v suffix (some c)) db := by
  refine Prog.wp_bind.mpr
    (Prog.wp_mono Prog.total_monotone ?_ (getSchemaVersion_total h hv))
  rintro r db₁ ⟨rfl, s', hup, -, h₁⟩
  show Prog.wp _ _ (if v ≤ n then pure () else _) db₁
  rw [if_pos hle]
  exact ⟨rfl, s', hup, h₁⟩

theorem sqlite3_exec_total (h : Inside c s w db) (hd : applyScript effect script w.data = some d) :
    Prog.wp (Prog.total (Undisturbed effect))
      (fun r db' => r = .ok none ∧ Inside c s { w with data := d } db')
      (sqlite3_exec c script) db := by
  induction script generalizing w db with
  | nil =>
    cases hd
    exact ⟨rfl, h⟩
  | cons statement script ih =>
    rw [applyScript, List.foldlM_cons] at hd
    obtain ⟨d₁, hfirst, hrest⟩ := Option.bind_eq_some_iff.mp hd
    apply h.scriptStatement_total hfirst
    intro db₁ h₁
    have hscript := ih h₁ hrest
    exact hscript

/-- and the next one is migrated, if its script applies. -/
theorem migrateSchema_total_next (hT : LawfulTransaction T) (h : Idle c s db)
    (hv : Versioned n (s.table (getSchemaVersionTableName suffix)))
    (hd : applyScript effect script s.data = some d) :
    Prog.wp (Prog.total (Undisturbed effect))
      (fun r db' => r = .ok () ∧ ∃ s', SetUp (getSchemaVersionTableName suffix) n s s' ∧
        Idle c (({ s' with data := d } : Store δ).setTable
          (getSchemaVersionTableName suffix) [some (n + 1)]) db')
      (migrateSchema T (some script) (n + 1) suffix (some c)) db := by
  refine Prog.wp_bind.mpr
    (Prog.wp_mono Prog.total_monotone ?_ (getSchemaVersion_total h hv))
  rintro r db₁ ⟨rfl, s', hup, hrows, h₁⟩
  show Prog.wp _ _ (if n + 1 ≤ n then pure () else if n + 1 > n + 1 then _ else _) db₁
  rw [if_neg (by omega), if_neg (by omega)]
  obtain ⟨what, -, hconstruct⟩ := hT.construct_eq
  simp only [hconstruct, begin, exec_bind, Prog.ask_bind_eq]
  -- BEGIN
  obtain ⟨db₂, hbegin⟩ := h₁.begin_answered effect
  apply total_exec ⟨_, db₂, hbegin⟩
  intro answer db₂ hE ha
  have h₂ : Inside c s' s' db₂ := by
    rcases h₁.begin hE with ⟨hfalse, -⟩ | ⟨-, h₂⟩
    · exact absurd (ha.symm.trans hfalse) Bool.true_eq_false.mp
    · exact h₂
  simp only [ha, if_true, Prog.pure_bind_eq, migrateInTransaction]
  rw [hup.data.symm] at hd
  refine Prog.wp_bind.mpr (Prog.wp_bind.mpr (Prog.wp_mono Prog.total_monotone ?_
    (sqlite3_exec_total h₂ hd)))
  rintro r db₃ ⟨rfl, h₃⟩
  simp only [Prog.andThen, updateSchemaVersion, exec_bind, hT.commit_eq, commit,
    Prog.ask_bind_eq, Prog.pure_bind_eq]
  -- UPDATE
  obtain ⟨db₄, hupdate⟩ := h₃.update_answered effect hrows (n + 1)
  apply total_exec ⟨_, db₄, hupdate⟩
  intro answer db₄ hE ha
  rcases h₃.update hrows hE with ⟨hfalse, -⟩ | ⟨rfl, h₄⟩
  · exact absurd (ha.symm.trans hfalse) Bool.true_eq_false.mp
  simp only [Answer.done, Bool.not_true, Bool.false_or, Bool.false_eq_true, if_false]
  -- COMMIT
  obtain ⟨db₅, hcommit⟩ := h₄.commit_answered effect
  apply total_exec ⟨_, db₅, hcommit⟩
  intro answer db₅ hE ha
  rcases h₄.commit hE with ⟨hfalse, -⟩ | ⟨-, h₅⟩
  · exact absurd (ha.symm.trans hfalse) Bool.true_eq_false.mp
  simp only [ha, Bool.not_true, Bool.false_eq_true, if_false, if_true]
  show Prog.wp _ _ (T.destroy T.closed >>= _) _
  rw [hT.destroy_closed]
  exact ⟨rfl, s', hup, h₅⟩

end

/-! ## The result -/

/-- A call for a version that is not the next one changes nothing, but that it may set up the
    version table. -/
theorem migrateSchema_other (hC : LawfulTransaction C) (h : Idle c s db)
    (hv : Versioned n (s.table (getSchemaVersionTableName suffix))) {script : Option (List σ)}
    {r : Except String Unit} (hother : v ≤ n ∨ n + 1 < v)
    (hrun : Prog.Runs (Disturbed effect) (migrateSchema C script v suffix (some c)) db r db') :
    SetUp (getSchemaVersionTableName suffix) n db.committed db'.committed ∧
      ReadsVersion effect suffix c n db' := by
  have hmigrated := Prog.wp_demonic_iff.mp (migrateSchema_idle hC h hv) _ _ hrun
  have hidle : ∃ s', SetUp (getSchemaVersionTableName suffix) n s s' ∧ Idle c s' db' := by
    cases r with
    | error what => exact hmigrated.2
    | ok _ =>
      rcases hmigrated with ⟨-, hidle⟩ | ⟨hsucc, -⟩
      · exact hidle
      · omega
  obtain ⟨s', hup, h'⟩ := hidle
  refine ⟨?_, h'.readsVersion hup.versioned⟩
  rw [h'.committed, h.committed]
  exact hup

theorem migrateSchema_above (hC : LawfulTransaction C) (h : Idle c s db)
    (hv : Versioned n (s.table (getSchemaVersionTableName suffix))) {script : Option (List σ)}
    {r : Except String Unit} (habove : n + 1 < v)
    (hrun : Prog.Runs (Disturbed effect) (migrateSchema C script v suffix (some c)) db r db') :
    ∃ what, r = .error what := by
  have hmigrated := Prog.wp_demonic_iff.mp (migrateSchema_idle hC h hv) _ _ hrun
  cases r with
  | error what => exact ⟨what, rfl⟩
  | ok _ =>
    rcases hmigrated with ⟨hle, -⟩ | ⟨hsucc, -⟩
    · omega
    · omega

theorem migrateSchema_below (hC : LawfulTransaction C) (h : Idle c s db)
    (hv : Versioned n (s.table (getSchemaVersionTableName suffix))) (hle : v ≤ n) :
    (∀ r db', Prog.Runs (Undisturbed effect) (migrateSchema C (some script) v suffix (some c))
      db r db' → r = .ok ()) ∧
    ∃ db', Prog.Runs (Undisturbed effect) (migrateSchema C (some script) v suffix (some c))
      db (.ok ()) db' := by
  constructor
  · intro r db' hrun
    have hmigrated := Prog.wp_demonic_iff.mp (migrateSchema_idle hC h hv) _ _ hrun
    cases r with
    | error what => exact (not_canFail (hmigrated.1 rfl hle)).elim
    | ok _ => rfl
  · obtain ⟨db', hrun⟩ := getSchemaVersion_ends effect h hv
    refine ⟨db', Prog.Runs.bind hrun ?_⟩
    show Prog.Runs _ (if v ≤ n then pure () else _) db' (.ok ()) db'
    rw [if_pos hle]
    exact .pure

/-- An undisturbed call for the next version returns, if its script applies. -/
theorem migrateSchema_next (hC : LawfulTransaction C) (h : Idle c s db)
    (hv : Versioned n (s.table (getSchemaVersionTableName suffix))) {script : List σ} {d : δ}
    (hd : applyScript effect script s.data = some d) :
    (∃ r db', Prog.Runs (Undisturbed effect)
      (migrateSchema C (some script) (n + 1) suffix (some c)) db r db') ∧
    ∀ r db', Prog.Runs (Undisturbed effect)
        (migrateSchema C (some script) (n + 1) suffix (some c)) db r db' →
      r = .ok () ∧ db'.committed.data = d ∧ ReadsVersion effect suffix c (n + 1) db' := by
  obtain ⟨hreturns, hall⟩ := Prog.wp_total_runs (migrateSchema_total_next hC h hv hd)
  refine ⟨hreturns, fun r db' hrun => ?_⟩
  obtain ⟨rfl, s', -, h'⟩ := hall r db' hrun
  refine ⟨rfl, ?_, h'.readsVersion ?_⟩
  · rw [h'.committed]
    rfl
  · rw [Store.table_setTable]
    exact .row (n + 1)

/-- **Migrations leave whole scripts, in step with the version.** A client that is alone with
    a database without a version table makes any calls of `migrateSchema`, and any statement of
    any of them may fail. Then the data are what the whole scripts of those calls make of them
    that returned and were for the next version, in order; `getSchemaVersion` gives their number;
    and a further call for another version than the next one changes nothing, but that it may set
    up a version table without a row, and throws if the version is above it, and returns
    otherwise. One for the next version returns, too, if no statement fails that can succeed and
    its script applies.

    Any text is a suffix here. For the source's statements it is one if the table name that it is
    pasted into is one name to SQLite, as it is for a `Suffix`. -/
theorem migrations_applied (hC : LawfulTransaction C) (hidle : db.inTx c = false)
    (hwriter : db.writer = none)
    (htable : db.committed.table (getSchemaVersionTableName suffix) = none)
    {calls : List (Call σ)} {results : List (Except String Unit)}
    (hrun : Calls effect C suffix c calls db results db') :
    let scripts := wholeScripts 0 (calls.zip results)
    applyScript effect scripts.flatten db.committed.data = some db'.committed.data ∧
    ReadsVersion effect suffix c scripts.length db' ∧
    ∀ (script : List σ) (v : Int),
      (v ≤ scripts.length ∨ scripts.length + 1 < v → ∀ r db'', Prog.Runs (Disturbed effect)
        (migrateSchema C (some script) v suffix (some c)) db' r db'' →
        SetUp (getSchemaVersionTableName suffix) scripts.length db'.committed db''.committed ∧
          ReadsVersion effect suffix c scripts.length db'') ∧
      (scripts.length + 1 < v → ∀ r db'', Prog.Runs (Disturbed effect)
        (migrateSchema C (some script) v suffix (some c)) db' r db'' → ∃ what, r = .error what) ∧
      (v ≤ scripts.length →
        (∀ r db'', Prog.Runs (Undisturbed effect)
          (migrateSchema C (some script) v suffix (some c)) db' r db'' → r = .ok ()) ∧
        ∃ db'', Prog.Runs (Undisturbed effect)
          (migrateSchema C (some script) v suffix (some c)) db' (.ok ()) db'') ∧
      (v = scripts.length + 1 → ∀ d, applyScript effect script db'.committed.data = some d →
        (∃ r db'', Prog.Runs (Undisturbed effect)
          (migrateSchema C (some script) v suffix (some c)) db' r db'') ∧
        ∀ r db'', Prog.Runs (Undisturbed effect)
            (migrateSchema C (some script) v suffix (some c)) db' r db'' →
          r = .ok () ∧ db''.committed.data = d ∧
            ReadsVersion effect suffix c (scripts.length + 1) db'') := by
  have h : Idle c db.committed db := ⟨hidle, hwriter, rfl⟩
  have hv : Versioned 0 (db.committed.table (getSchemaVersionTableName suffix)) :=
    htable ▸ .absent
  obtain ⟨s', h', happlied⟩ := calls_idle hC hrun h hv
  have hv' := happlied.versioned
  rw [Int.zero_add] at hv'
  refine ⟨?_, h'.readsVersion hv', fun script v => ⟨fun hother r db'' hcall => ?_,
    fun habove r db'' hcall => ?_, fun hle => migrateSchema_below hC h' hv' hle,
    fun hnext d hd => ?_⟩⟩
  · rw [h'.committed]
    exact happlied.data
  · exact migrateSchema_other hC h' hv' hother hcall
  · exact migrateSchema_above hC h' hv' habove hcall
  · subst hnext
    rw [h'.committed] at hd
    exact migrateSchema_next hC h' hv' hd

/-! ### On three calls -/

/-- The second script is for version 2, and fails at its second statement; the third is for
    version 2, too, and succeeds. -/
theorem migrations_applied_threeCalls : ∃ what db',
    Calls logged plainTransaction none () [⟨some [1, 2], 1⟩, ⟨some [3, 4], 2⟩, ⟨some [5], 2⟩]
      emptyDb [.ok (), .error what, .ok ()] db' ∧
    db'.committed.data = [1, 2, 5] ∧ ReadsVersion logged none () 2 db' := by
  have hserve : ∀ x s q a s',
      (if x = .readsBefore then none else serve logged x s q) = some (a, s') →
      Disturbed logged (s : Db Unit (List Nat)) q a s' := by
    intro x s q a s' h
    split at h
    · cases h
    · exact Environment.of_serve trivial ‹_› h
  obtain ⟨what, db', hrun⟩ : ∃ what db', Calls logged plainTransaction none ()
      [⟨some [1, 2], 1⟩, ⟨some [3, 4], 2⟩, ⟨some [5], 2⟩] emptyDb
      [.ok (), .error what, .ok ()] db' := by
    apply Exists.intro
    apply Exists.intro
    apply Calls.cons
    · exact Prog.play_runs _ hserve (.replicate 8 .succeeds) rfl
    apply Calls.cons
    · exact Prog.play_runs _ hserve
        (.replicate 4 .succeeds ++ [.fails "no such table" false, .succeeds]) rfl
    apply Calls.cons
    · exact Prog.play_runs _ hserve (.replicate 6 .succeeds) rfl
    exact Calls.nil _
  obtain ⟨hdata, hversion, -⟩ :=
    migrations_applied plainTransaction_lawful rfl rfl rfl hrun
  exact ⟨what, db', hrun, (Option.some.inj hdata).symm, hversion⟩

end OatppSqlite.Executor
