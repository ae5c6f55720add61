import Mathlib
namespace Runs

-- States reachable from a start state by steps of any party, in any order.
inductive Reached (start : σ → Prop) (step : σ → σ → Prop) : σ → Prop where
  | start : start s → Reached start step s
  | step : Reached start step s → step s next → Reached start step next

theorem Reached.invariant {start : σ → Prop} {step : σ → σ → Prop} (P : σ → Prop)
    (initial : ∀ s, start s → P s) (kept : ∀ s next, P s → step s next → P next)
    (path : Reached start step s) : P s := by
  induction path with
  | start begun => exact initial _ begun
  | step _ moved ih => exact kept _ _ ih moved

-- A system of actions: each is taken where it is allowed.
def Step (act : σ → α → σ) (allowed : σ → α → Prop) (s next : σ) : Prop := ∃ a, allowed s a ∧ next = act s a

def Admits (act : σ → α → σ) (allowed : σ → α → Prop) : σ → List α → Prop
  | _,[] => True
  | s,a :: rest => allowed s a ∧ Admits act allowed (act s a) rest

instance decideAdmits (act : σ → α → σ) (allowed : σ → α → Prop) [∀ s a, Decidable (allowed s a)] :
    (s : σ) → (actions : List α) → Decidable (Admits act allowed s actions)
  | _,[] => .isTrue trivial
  | s,a :: rest => @instDecidableAnd _ _ _ (decideAdmits act allowed (act s a) rest)

theorem Admits.imp {act : σ → α → σ} {allowed allowed' : σ → α → Prop} {actions : List α} (weaker : ∀ s a, allowed s a → allowed' s a)
    (admits : Admits act allowed s actions) : Admits act allowed' s actions := by
  induction actions generalizing s with
  | nil => trivial
  | cons a rest ih => exact ⟨weaker s a admits.1,ih admits.2⟩

theorem Admits.kept {act : σ → α → σ} {allowed : σ → α → Prop} {P : σ → Prop} {actions : List α}
    (kept : ∀ s a, P s → allowed s a → P (act s a)) (initial : P s) (admits : Admits act allowed s actions) : P (actions.foldl act s) := by
  induction actions generalizing s with
  | nil => exact initial
  | cons a rest ih => exact ih (kept s a initial admits.1) admits.2

-- What an invariant lets the actions of a run be.
theorem Admits.under {act : σ → α → σ} {allowed other : σ → α → Prop} {P : σ → Prop} {actions : List α}
    (kept : ∀ s a, P s → allowed s a → P (act s a)) (implies : ∀ s a, P s → allowed s a → other s a) (initial : P s)
    (admits : Admits act allowed s actions) : Admits act other s actions := by
  induction actions generalizing s with
  | nil => trivial
  | cons a rest ih => exact ⟨implies s a initial admits.1,ih (kept s a initial admits.1) admits.2⟩

-- A second system that goes along with every run of the first.
theorem Admits.beside {act : σ → α → σ} {allowed : σ → α → Prop} {both : σ × τ → α → σ × τ} {actions : List α}
    (first : ∀ p a, (both p a).1 = act p.1 a) (p : σ × τ) (admits : Admits act allowed p.1 actions) :
    (actions.foldl both p).1 = actions.foldl act p.1 ∧ Admits both (fun p a => allowed p.1 a) p actions := by
  induction actions generalizing p with
  | nil => exact ⟨rfl,trivial⟩
  | cons a rest ih =>
    have later : Admits act allowed (both p a).1 rest := by
      rw [first]
      exact admits.2
    obtain ⟨same,admitted⟩ := ih _ later
    rw [first] at same
    exact ⟨same,admits.1,admitted⟩

-- In every state of a run.
def Always (act : σ → α → σ) (P : σ → Prop) : σ → List α → Prop
  | s,[] => P s
  | s,a :: rest => P s ∧ Always act P (act s a) rest

theorem Always.start {act : σ → α → σ} {P : σ → Prop} {actions : List α} (all : Always act P s actions) : P s := by
  cases actions with
  | nil => exact all
  | cons a rest => exact all.1

-- A property that follows an invariant exactly as long as the actions meet a condition.
theorem Always.exactly {act : σ → α → σ} {allowed condition : σ → α → Prop} {Invariant P : σ → Prop} {actions : List α}
    (kept : ∀ s a, Invariant s → allowed s a → Invariant (act s a))
    (exactly : ∀ s a, Invariant s → P s → allowed s a → (P (act s a) ↔ condition s a))
    (invariant : Invariant s) (holds : P s) (admits : Admits act allowed s actions) :
    Always act P s actions ↔ Admits act condition s actions := by
  induction actions generalizing s with
  | nil => exact ⟨fun _ => trivial,fun _ => holds⟩
  | cons a rest ih =>
    have step := exactly s a invariant holds admits.1
    have next := kept s a invariant admits.1
    constructor
    · intro all
      have after := all.2.start
      exact ⟨step.mp after,(ih next after admits.2).mp all.2⟩
    · intro conditions
      have after := step.mpr conditions.1
      exact ⟨holds,(ih next after admits.2).mpr conditions.2⟩

theorem Always.invariant {act : σ → α → σ} {allowed : σ → α → Prop} {Invariant P : σ → Prop} {actions : List α}
    (kept : ∀ s a, Invariant s → allowed s a → Invariant (act s a)) (implies : ∀ s, Invariant s → P s)
    (invariant : Invariant s) (admits : Admits act allowed s actions) : Always act P s actions := by
  induction actions generalizing s with
  | nil => exact implies s invariant
  | cons a rest ih => exact ⟨implies s invariant,ih (kept s a invariant admits.1) admits.2⟩

theorem Reached.follow {start : σ → Prop} {act : σ → α → σ} {allowed : σ → α → Prop} {actions : List α}
    (path : Reached start (Step act allowed) s) (admits : Admits act allowed s actions) :
    Reached start (Step act allowed) (actions.foldl act s) := by
  induction actions generalizing s with
  | nil => exact path
  | cons a rest ih => exact ih (path.step ⟨a,admits.1,rfl⟩) admits.2

theorem Reached.trans {start : σ → Prop} {step : σ → σ → Prop} (path : Reached start step s) (more : Reached (· = s) step next) :
    Reached start step next := by
  induction more with
  | start same => rwa [same]
  | step _ moved ih => exact ih.step moved

-- One action over and over.
theorem Reached.iterate {σ : Type u} {s : σ} {start : σ → Prop} {act : σ → α → σ} {allowed : σ → α → Prop} {a : α}
    (path : Reached start (Step act allowed) s) (count : Nat) (admits : ∀ n, n < count → allowed ((act · a)^[n] s) a) : Reached start (Step act allowed) ((act · a)^[count] s) := by
  induction count with
  | zero => exact path
  | succ count ih =>
    rw [Function.iterate_succ_apply']
    exact (ih fun n less => admits n (Nat.lt_succ_of_lt less)).step ⟨a,admits count (Nat.lt_succ_self _),rfl⟩

end Runs
