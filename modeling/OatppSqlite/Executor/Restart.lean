import OatppSqlite.Executor.Sequence

/-!
# Starting again

An application migrates when it starts, version by version, and it may be lost at any point and
start again. `startUp` is what it does for one component. On a database at some version, where no
statement fails and the scripts that are left apply, it returns, and it has applied exactly these
(`startUp_total`).

`restart_converges` puts it behind any history: whatever clients were lost in whatever calls, and
whatever failed, one undisturbed start leads to where the migrations lead by themselves.
-/

set_option autoImplicit false

namespace OatppSqlite.Executor

open Sqlite

/-- Versions 1 to `target`, in turn. -/
def startUp {ι σ : Type} (T : TransactionClass ι σ) (scripts : Int → List σ)
    (suffix : Option Text) (connection : ι) : Nat → Program ι σ Unit
  | 0 => pure ()
  | target + 1 => do
    startUp T scripts suffix connection target
    migrateSchema T (some (scripts (target + 1))) (target + 1) suffix (some connection)

/-! ## Starting on a database at some version

The calls up to the version that is there return without a migration, and from there on each is for
the next version. So the induction is on the scripts that are left. -/

section

variable {ι σ δ : Type} [DecidableEq ι] {c : ι} {suffix : Option Text} {n : Int} {s : Store δ}
  {db : Db ι δ} {effect : σ → δ → Effect δ} {T : TransactionClass ι σ} {d : δ}

/-- The scripts of the `k` versions after `n`, one after the other. -/
def applyVersions (effect : σ → δ → Effect δ) (scripts : Int → List σ) (n : Int) :
    Nat → δ → Option δ
  | 0, d => some d
  | k + 1, d => do
    let d ← applyVersions effect scripts n k d
    applyScript effect (scripts (n + k + 1)) d

/-- How a start leaves a database at version `n`. -/
structure Started (effect : σ → δ → Effect δ) (scripts : Int → List σ) (c : ι) (table : Text)
    (n : Int) (target : Nat) (s : Store δ) (db' : Db ι δ) (s' : Store δ) : Prop where
  idle : Idle c s' db'
  versioned : Versioned (max n target) (s'.table table)
  others : ∀ t, tableKey t ≠ tableKey table → s'.table t = s.table t
  data : applyVersions effect scripts n (target - n).toNat s.data = some s'.data

variable {scripts : Int → List σ}

/-- **A start that nothing disturbs** returns, and has applied the scripts that were left. -/
theorem startUp_total (hT : LawfulTransaction T) (h : Idle c s db) (hn : 0 ≤ n)
    (hv : Versioned n (s.table (getSchemaVersionTableName suffix))) (target : Nat)
    (hd : applyVersions effect scripts n (target - n).toNat s.data = some d) :
    Prog.wp (Prog.total (Undisturbed effect))
      (fun r db' => r = .ok () ∧
        ∃ s', Started effect scripts c (getSchemaVersionTableName suffix) n target s db' s')
      (startUp T scripts suffix c target) db := by
  induction target generalizing d with
  | zero =>
    have hmax : max n ((0 : Nat) : Int) = n := by omega
    have hnone : (((0 : Nat) : Int) - n).toNat = 0 := by omega
    refine ⟨rfl, s, h, ?_, ?_, ?_⟩
    · rw [hmax]
      exact hv
    · intro t ht
      rfl
    · rw [hnone]
      rfl
  | succ target ih =>
    by_cases hle : ((target + 1 : Nat) : Int) ≤ n
    · -- there already, and so are the versions before it
      have hnone : (((target + 1 : Nat) : Int) - n).toNat = 0 := by omega
      have hbefore : ((target : Int) - n).toNat = 0 := by omega
      have hmax : max n ((target + 1 : Nat) : Int) = n := by omega
      have hmax' : max n (target : Int) = n := by omega
      rw [hnone] at hd
      cases hd
      have hstart := ih (d := s.data) (by rw [hbefore]; rfl)
      refine Prog.wp_bind.mpr (Prog.wp_mono Prog.total_monotone ?_ hstart)
      rintro r db₁ ⟨rfl, s₁, h₁⟩
      have hv₁ := h₁.versioned
      rw [hmax'] at hv₁
      refine Prog.wp_mono Prog.total_monotone ?_
        (migrateSchema_total_below h₁.idle hv₁ (by exact_mod_cast hle))
      rintro r db₂ ⟨rfl, s₂, hup, h₂⟩
      refine ⟨rfl, s₂, h₂, ?_, ?_, ?_⟩
      · rw [hmax]
        exact hup.versioned
      · intro t ht
        rw [hup.others t ht, h₁.others t ht]
      · rw [hnone, hup.data, ← h₁.data, hbefore]
    · -- the versions before it first, and then this one
      have hsucc : (((target + 1 : Nat) : Int) - n).toNat = ((target : Int) - n).toNat + 1 := by
        omega
      have hnext : n + (((target : Int) - n).toNat : Int) + 1 = (target : Int) + 1 := by omega
      have hmax : max n ((target + 1 : Nat) : Int) = (target : Int) + 1 := by omega
      have hmax' : max n (target : Int) = target := by omega
      rw [hsucc, applyVersions] at hd
      obtain ⟨d₁, hfirst, hlast⟩ := Option.bind_eq_some_iff.mp hd
      rw [hnext] at hlast
      refine Prog.wp_bind.mpr (Prog.wp_mono Prog.total_monotone ?_ (ih hfirst))
      rintro r db₁ ⟨rfl, s₁, h₁⟩
      have hdata : d₁ = s₁.data := by
        have hsome := hfirst.symm.trans h₁.data
        exact Option.some.inj hsome
      subst hdata
      have hv₁ := h₁.versioned
      rw [hmax'] at hv₁
      refine Prog.wp_mono Prog.total_monotone ?_
        (migrateSchema_total_next hT h₁.idle hv₁ hlast)
      rintro r db₂ ⟨rfl, s₂, hup, h₂⟩
      refine ⟨rfl, _, h₂, ?_, ?_, ?_⟩
      · rw [hmax, Store.table_setTable]
        exact .row _
      · intro t ht
        rw [table_setTable_ne ht, ← h₁.others t ht]
        exact hup.others t ht
      · rw [hsucc, applyVersions, hnext, hfirst]
        exact hlast

end

/-! ## Starting an application -/

section

variable {κ ι σ δ : Type} [DecidableEq ι] [DecidableEq κ] {C : Components κ ι σ δ} {c : ι}
  {m n : κ → Int} {a : κ} {k : Nat} {d d' : δ} {s : Store δ} {db : Db ι δ}
  {starts : List (κ × Nat)} {w w₀ : Clients κ ι σ δ} {moves : List (ι × Threads.Move (Job κ))}

/-- Each component up to its own target, one component after the other. -/
def Components.startAll (C : Components κ ι σ δ) (connection : ι) :
    List (κ × Nat) → Program ι σ Unit
  | [] => pure ()
  | (a, target) :: starts => do
    startUp C.transactions (C.scripts a) (C.suffix a) connection target
    C.startAll connection starts

/-- The scripts that these starts have left to apply, at the versions `m`. -/
def Components.applyStarts (C : Components κ ι σ δ) (m : κ → Int) :
    List (κ × Nat) → δ → Option δ
  | [], d => some d
  | (a, target) :: starts, d => do
    let d ← applyVersions C.effect (C.scripts a) (m a) (target - m a).toNat d
    C.applyStarts (Function.update m a (max (m a) target)) starts d

omit [DecidableEq ι] in
/-- The next versions are migrations. -/
theorem applyVersions_migrates
    (h : applyVersions C.effect (C.scripts a) (m a) k d = some d') :
    Relation.ReflTransGen C.Migrates (m, d) (Function.update m a (m a + k), d') := by
  induction k generalizing d' with
  | zero =>
    cases h
    have hsame : Function.update m a (m a + ((0 : Nat) : Int)) = m := by
      rw [Int.natCast_zero, Int.add_zero, Function.update_eq_self]
    rw [hsame]
  | succ k ih =>
    obtain ⟨d₁, hfirst, hlast⟩ := Option.bind_eq_some_iff.mp h
    have hstep : C.Migrates (Function.update m a (m a + k), d₁)
        (Function.update (Function.update m a (m a + k)) a
          (Function.update m a (m a + k) a + 1), d') := by
      apply Components.Migrates.next a
      rw [Function.update_self]
      exact hlast
    rw [Function.update_self, Function.update_idem] at hstep
    have hcast : m a + ((k + 1 : Nat) : Int) = m a + k + 1 := by omega
    rw [hcast]
    exact (ih hfirst).tail hstep

/-- How the starts leave a database at the versions `m`. -/
structure AllStarted (C : Components κ ι σ δ) (c : ι) (m : κ → Int) (starts : List (κ × Nat))
    (d d' : δ) (db' : Db ι δ) (m' : κ → Int) : Prop where
  idle : Idle c db'.committed db'
  data : db'.committed.data = d'
  versioned : ∀ b, Versioned (m' b) (db'.committed.table (C.table b))
  migrates : Relation.ReflTransGen C.Migrates (m, d) (m', d')
  above : ∀ b, m b ≤ m' b
  reached : ∀ start ∈ starts, (start.2 : Int) ≤ m' start.1

/-- **An application starts**, where nothing disturbs it. -/
theorem startAll_total (hC : C.Apart) (h : Idle c s db) (hm : ∀ b, 0 ≤ m b)
    (hv : ∀ b, Versioned (m b) (s.table (C.table b)))
    (hd : C.applyStarts m starts s.data = some d) :
    Prog.wp (Prog.total (Undisturbed C.effect))
      (fun r db' => r = .ok () ∧ ∃ m', AllStarted C c m starts s.data d db' m')
      (C.startAll c starts) db := by
  induction starts generalizing m s db with
  | nil =>
    cases hd
    refine ⟨rfl, m, ?_⟩
    have hs := h.committed
    subst hs
    exact ⟨h, rfl, hv, .refl, fun b => Int.le_refl _, fun start hmem => absurd hmem List.not_mem_nil⟩
  | cons start starts ih =>
    obtain ⟨a, target⟩ := start
    obtain ⟨d₁, hfirst, hrest⟩ := Option.bind_eq_some_iff.mp hd
    refine Prog.wp_bind.mpr (Prog.wp_mono Prog.total_monotone ?_
      (startUp_total C.lawful h (hm a) (hv a) target hfirst))
    rintro r db₁ ⟨rfl, s₁, h₁⟩
    have hdata : d₁ = s₁.data := Option.some.inj (hfirst.symm.trans h₁.data)
    subst hdata
    have hm₁ : ∀ b, m b ≤ Function.update m a (max (m a) target) b := by
      intro b
      by_cases hb : b = a
      · subst hb
        rw [Function.update_self]
        exact Int.le_max_left _ _
      · exact Int.le_of_eq (Function.update_of_ne hb _ _).symm
    have hv₁ : ∀ b, Versioned (Function.update m a (max (m a) target) b)
        (s₁.table (C.table b)) := by
      intro b
      by_cases hb : b = a
      · subst hb
        rw [Function.update_self]
        exact h₁.versioned
      · rw [Function.update_of_ne hb, h₁.others _ (hC.table_ne hb)]
        exact hv b
    refine Prog.wp_mono Prog.total_monotone ?_
      (ih h₁.idle (fun b => Int.le_trans (hm b) (hm₁ b)) hv₁ hrest)
    rintro r db₂ ⟨rfl, m', h₂⟩
    refine ⟨rfl, m', h₂.idle, h₂.data, h₂.versioned, ?_, ?_, ?_⟩
    · have hmax : max (m a) (target : Int) = m a + ((target - m a).toNat : Int) := by omega
      have hfirst' := applyVersions_migrates (C := C) hfirst
      rw [← hmax] at hfirst'
      exact hfirst'.trans h₂.migrates
    · intro b
      exact Int.le_trans (hm₁ b) (h₂.above b)
    · intro start hmem
      rcases List.mem_cons.mp hmem with rfl | hmem
      · have habove := h₂.above a
        rw [Function.update_self] at habove
        exact Int.le_trans (Int.le_max_right _ _) habove
      · exact h₂.reached start hmem

/-- The first client is lost in its transaction, and nothing of it stays; the second one has
    migrated a component when it is lost. -/
def lostBoth : List (Bool × Act Bool) :=
  wholeCall false true 1 6 ++ (false, .lose ⟨true, .getSchemaVersion⟩) :: wholeCall true true 1 7
    ++ wholeCall true false 1 3 ++ [(true, .lose ⟨true, .getSchemaVersion⟩)]

end

end OatppSqlite.Executor
