import Mathlib.Logic.Relation

/-!
# Programs that ask their environment

A `Prog` is a program seen through its requests: it asks a question, goes on with the answer,
and ends in a value or in an exception. What the environment does about a question is not part
of it, so one program can be run against a store that fails, against a store that other
programs use at the same time, or against nothing but a bookkeeping of what it holds.

`wp` is the one rule all of these go through. It takes what is known of a question, `Ψ s q K`
("asked in state `s`, whatever comes back satisfies `K`"), and `wp_bind` is the rule of
composition, for any `Ψ`. Two of them are used: `demonic E`, for an environment that may answer
in any of the ways of the relation `E`, and `following δ`, for a protocol that says which
question may come next. `wp_demonic_iff` is what the first of these means for the runs; `play`
is a run that can be computed, from the choices of the environment.
-/

set_option autoImplicit false

/-- A program with questions `Q`, answers `A q` to each of them, and exceptions `ε`. -/
inductive Prog (Q : Type) (A : Q → Type) (ε α : Type) where
  | pure (a : α)
  | throw (e : ε)
  | ask (q : Q) (k : A q → Prog Q A ε α)

namespace Prog

variable {Q : Type} {A : Q → Type} {ε α β σ : Type}

def bind : Prog Q A ε α → (α → Prog Q A ε β) → Prog Q A ε β
  | .pure a, f => f a
  | .throw e, _ => .throw e
  | .ask q k, f => .ask q fun a => (k a).bind f

instance : Monad (Prog Q A ε) where
  pure := Prog.pure
  bind := Prog.bind

def tryCatch : Prog Q A ε α → (ε → Prog Q A ε α) → Prog Q A ε α
  | .pure a, _ => .pure a
  | .throw e, f => f e
  | .ask q k, f => .ask q fun a => (k a).tryCatch f

instance : MonadExcept ε (Prog Q A ε) where
  throw := Prog.throw
  tryCatch := Prog.tryCatch

@[simp] theorem pure_bind_eq (a : α) (f : α → Prog Q A ε β) :
    ((Pure.pure a : Prog Q A ε α) >>= f) = f a := rfl
@[simp] theorem throw_bind_eq (e : ε) (f : α → Prog Q A ε β) :
    ((Prog.throw e : Prog Q A ε α) >>= f) = .throw e := rfl
@[simp] theorem ask_bind_eq (q : Q) (k : A q → Prog Q A ε α) (f : α → Prog Q A ε β) :
    (Prog.ask q k >>= f) = .ask q fun a => k a >>= f := rfl

/-- The question a program stands before. -/
def question : Prog Q A ε α → Option Q
  | .ask q _ => some q
  | _ => none

/-! ## The rule -/

/-- The program, started in `s`, ends as `Post` says, if every question does what `Ψ` says. -/
def wp (Ψ : σ → (q : Q) → (A q → σ → Prop) → Prop) (Post : Except ε α → σ → Prop) :
    Prog Q A ε α → σ → Prop
  | .pure a, s => Post (.ok a) s
  | .throw e, s => Post (.error e) s
  | .ask q k, s => Ψ s q fun a s' => wp Ψ Post (k a) s'

/-- What the second of two programs is owed by the first. -/
def andThen (Ψ : σ → (q : Q) → (A q → σ → Prop) → Prop) (Post : Except ε β → σ → Prop)
    (f : α → Prog Q A ε β) : Except ε α → σ → Prop
  | .ok a, s => wp Ψ Post (f a) s
  | .error e, s => Post (.error e) s

variable {Ψ : σ → (q : Q) → (A q → σ → Prop) → Prop} {s : σ} {p : Prog Q A ε α}

/-- **Composition.** -/
theorem wp_bind {Post : Except ε β → σ → Prop} {f : α → Prog Q A ε β} :
    wp Ψ Post (p >>= f) s ↔ wp Ψ (andThen Ψ Post f) p s := by
  induction p generalizing s with
  | pure a => exact Iff.rfl
  | throw e => exact Iff.rfl
  | ask q k ih =>
    have hk : (fun a s' => wp Ψ Post (k a >>= f) s')
        = fun a s' => wp Ψ (andThen Ψ Post f) (k a) s' := by
      funext a s'
      exact propext (ih a)
    show Ψ s q (fun a s' => wp Ψ Post (k a >>= f) s') ↔ _
    rw [hk]
    exact Iff.rfl

/-- What is said of a question may be weakened. -/
def Monotone (Ψ : σ → (q : Q) → (A q → σ → Prop) → Prop) : Prop :=
  ∀ s q (K K' : A q → σ → Prop), (∀ a s', K a s' → K' a s') → Ψ s q K → Ψ s q K'

theorem wp_mono (hΨ : Monotone Ψ) {Post Post' : Except ε α → σ → Prop}
    (h : ∀ r s, Post r s → Post' r s) (hp : wp Ψ Post p s) : wp Ψ Post' p s := by
  induction p generalizing s with
  | pure a => exact h _ _ hp
  | throw e => exact h _ _ hp
  | ask q k ih => exact hΨ s q _ _ (fun a s' => ih a) hp

/-! ## Environments -/

/-- Whatever answer the environment gives. -/
def demonic (E : σ → (q : Q) → A q → σ → Prop) (s : σ) (q : Q) (K : A q → σ → Prop) : Prop :=
  ∀ a s', E s q a s' → K a s'

/-- A run of a program in an environment. -/
inductive Runs (E : σ → (q : Q) → A q → σ → Prop) : Prog Q A ε α → σ → Except ε α → σ → Prop
  | pure {a : α} {s : σ} : Runs E (.pure a) s (.ok a) s
  | throw {e : ε} {s : σ} : Runs E (.throw e) s (.error e) s
  | ask {q : Q} {k : A q → Prog Q A ε α} {a : A q} {r : Except ε α} {s s' s'' : σ} :
      E s q a s' → Runs E (k a) s' r s'' → Runs E (.ask q k) s r s''

variable {E : σ → (q : Q) → A q → σ → Prop}

theorem demonic_monotone : Monotone (demonic E) :=
  fun _ _ _ _ h hK a s' hE => h a s' (hK a s' hE)

/-- **The rule is about the runs.** -/
theorem wp_demonic_iff {Post : Except ε α → σ → Prop} :
    wp (demonic E) Post p s ↔ ∀ r s', Runs E p s r s' → Post r s' := by
  constructor
  · intro hp r s' hrun
    induction hrun with
    | pure => exact hp
    | throw => exact hp
    | ask hE _ ih => exact ih (hp _ _ hE)
  · intro h
    induction p generalizing s with
    | pure a => exact h _ _ .pure
    | throw e => exact h _ _ .throw
    | ask q k ih => exact fun a s' hE => ih a fun r s'' hrun => h r s'' (.ask hE hrun)

/-- Where one program ends, the next one goes on. -/
theorem Runs.bind {f : α → Prog Q A ε β} {a : α} {r : Except ε β} {s' s'' : σ}
    (h : Runs E p s (.ok a) s') (h' : Runs E (f a) s' r s'') : Runs E (p >>= f) s r s'' := by
  generalize hr : (Except.ok a : Except ε α) = r' at h
  induction h with
  | pure =>
    cases hr
    exact h'
  | throw => cases hr
  | ask hE _ ih => exact .ask hE (ih h' hr)

/-- An environment that has all the answers of another one. -/
theorem Runs.mono {F : σ → (q : Q) → A q → σ → Prop} {r : Except ε α} {s' : σ}
    (hEF : ∀ s q a s', E s q a s' → F s q a s') (h : Runs E p s r s') : Runs F p s r s' := by
  induction h with
  | pure => exact .pure
  | throw => exact .throw
  | ask hE _ ih => exact .ask (hEF _ _ _ _ hE) ih

/-! ## Programs that are never stuck -/

/-- There is an answer, and whatever the answer is. -/
def total (E : σ → (q : Q) → A q → σ → Prop) (s : σ) (q : Q) (K : A q → σ → Prop) : Prop :=
  (∃ a s', E s q a s') ∧ ∀ a s', E s q a s' → K a s'

theorem total_monotone : Monotone (total E) :=
  fun _ _ _ _ h ⟨hanswer, hK⟩ => ⟨hanswer, fun a s' hE => h a s' (hK a s' hE)⟩

/-- **A program that is never stuck** has a run, and all its runs end as they should. -/
theorem wp_total_runs {Post : Except ε α → σ → Prop} (h : wp (total E) Post p s) :
    (∃ r s', Runs E p s r s') ∧ ∀ r s', Runs E p s r s' → Post r s' := by
  induction p generalizing s with
  | pure a =>
    refine ⟨⟨_, s, .pure⟩, ?_⟩
    intro r s' hrun
    cases hrun
    exact h
  | throw e =>
    refine ⟨⟨_, s, .throw⟩, ?_⟩
    intro r s' hrun
    cases hrun
    exact h
  | ask q k ih =>
    obtain ⟨⟨a, s', hE⟩, hk⟩ := h
    constructor
    · obtain ⟨⟨r, s'', hrun⟩, -⟩ := ih a (hk a s' hE)
      exact ⟨r, s'', .ask hE hrun⟩
    · intro r s'' hrun
      cases hrun with
      | ask hE' hrun' => exact (ih _ (hk _ _ hE')).2 r s'' hrun'

/-- Where there is never more than one answer, one run is enough. -/
theorem wp_total_of_run {Post : Except ε α → σ → Prop} {r : Except ε α} {s' : σ}
    (hone : ∀ s q a a' s' s'', E s q a s' → E s q a' s'' → a = a' ∧ s' = s'')
    (hrun : Runs E p s r s') (h : wp (demonic E) Post p s) : wp (total E) Post p s := by
  induction hrun with
  | pure => exact h
  | throw => exact h
  | ask hE _ ih =>
    refine ⟨⟨_, _, hE⟩, ?_⟩
    intro a' s'' hE'
    obtain ⟨rfl, rfl⟩ := hone _ _ _ _ _ _ hE hE'
    exact ih (h _ _ hE)

section

variable {χ : Type} (serve : χ → σ → (q : Q) → Option (A q × σ))

/-- A program on a list of choices of its environment, one for each of its questions. -/
def play : Prog Q A ε α → σ → List χ → Option (Except ε α × σ)
  | .pure a, s, [] => some (.ok a, s)
  | .throw e, s, [] => some (.error e, s)
  | .ask q k, s, x :: xs =>
    match serve x s q with
    | some (a, s') => play (k a) s' xs
    | none => none
  | _, _, _ => none

theorem play_runs (hE : ∀ x s q a s', serve x s q = some (a, s') → E s q a s') (xs : List χ)
    {r : Except ε α} {s' : σ} (h : play serve p s xs = some (r, s')) : Runs E p s r s' := by
  induction p generalizing s xs with
  | pure a =>
    cases xs with
    | nil =>
      cases h
      exact .pure
    | cons x xs => cases h
  | throw e =>
    cases xs with
    | nil =>
      cases h
      exact .throw
    | cons x xs => cases h
  | ask q k ih =>
    cases xs with
    | nil => cases h
    | cons x xs =>
      rw [play] at h
      split at h
      · exact .ask (hE _ _ _ _ _ ‹_›) (ih _ _ h)
      · cases h

end

/-! ## Protocols -/

/-- A protocol over phases: `R φ q next` allows the question `q` in phase `φ`, and `next` says
    which phase the answer leads to. -/
def following {P : Type} (R : P → (q : Q) → (A q → P) → Prop) (φ : P) (q : Q)
    (K : A q → P → Prop) : Prop :=
  ∃ next, R φ q next ∧ ∀ a, K a (next a)

section

variable {P : Type} {R : P → (q : Q) → (A q → P) → Prop} {Post : Except ε α → P → Prop} {φ : P}
  {r : Except ε α} {s' : σ}

theorem following_monotone : Monotone (following R) :=
  fun _ _ _ _ h ⟨next, hR, hK⟩ => ⟨next, hR, fun a => h a _ (hK a)⟩

/-- **Simulation.** A second environment can give the answers of the first one, if it can give
    each answer to a question that the protocol allows, from related states into related states. -/
theorem Runs.simulated {τ : Type} {F : τ → (q : Q) → A q → τ → Prop} {S : P → σ → τ → Prop}
    (hstep : ∀ φ q next s t a s', R φ q next → S φ s t → E s q a s' →
      ∃ t', F t q a t' ∧ S (next a) s' t')
    (hp : wp (following R) Post p φ) {t : τ} (hS : S φ s t) (h : Runs E p s r s') :
    ∃ φ' t', Post r φ' ∧ Runs F p t r t' ∧ S φ' s' t' := by
  induction h generalizing φ t with
  | pure => exact ⟨φ, t, hp, .pure, hS⟩
  | throw => exact ⟨φ, t, hp, .throw, hS⟩
  | ask hE _ ih =>
    obtain ⟨next, hR, hk⟩ := hp
    obtain ⟨t₁, hF, hS₁⟩ := hstep _ _ _ _ _ _ _ hR hS hE
    obtain ⟨φ', t', hpost, hrun, hS'⟩ := ih (hk _) hS₁
    exact ⟨φ', t', hpost, .ask hF hrun, hS'⟩

/-- **Invariants.** What is kept by every question that the protocol allows is kept by a run. -/
theorem Runs.keeps {I : P → σ → Prop}
    (hstep : ∀ φ q next s a s', R φ q next → I φ s → E s q a s' → I (next a) s')
    (hp : wp (following R) Post p φ) (hI : I φ s) (h : Runs E p s r s') :
    ∃ φ', Post r φ' ∧ I φ' s' := by
  -- the second environment gives any answer, and has no state
  obtain ⟨φ', t', hpost, -, hI'⟩ := Runs.simulated (F := fun (_ : Unit) _ _ _ => True)
    (S := fun φ s _ => I φ s)
    (fun φ q next s t a s' hR hI hE => ⟨t, trivial, hstep φ q next s a s' hR hI hE⟩)
    hp (t := ()) hI h
  exact ⟨φ', hpost, hI'⟩

end

end Prog
