import Mathlib
namespace Retries

-- Work that is taken in order. An attempt at the first item may stall, and then the
-- item stays; `circumstances` decide about that.
structure Job (σ ρ : Type) where
  finished : List ρ
  remaining : List ρ
  state : σ

section
variable {σ ρ ε : Type}

def Job.start (items : List ρ) (s : σ) : Job σ ρ := ⟨[],items,s⟩

def Job.turn (attempt : σ → ε → ρ → Bool × σ) (j : Job σ ρ) (circumstances : ε) : Job σ ρ :=
  match j.remaining with
  | [] => j
  | r :: rest =>
    let (stalled,s) := attempt j.state circumstances r
    if stalled then {j with state := s} else ⟨j.finished ++ [r],rest,s⟩

-- The same work where `best` is tried and never stalls.
inductive Straight (best : σ → ρ → Bool × σ) : σ → List ρ → σ → Prop where
  | nil : Straight best s [] s
  | cons : (best s r).1 = false → Straight best (best s r).2 rest final → Straight best s (r :: rest) final

theorem Straight.append {best : σ → ρ → Bool × σ} (one : Straight best s first middle) (two : Straight best middle second final) :
    Straight best s (first ++ second) final := by
  induction one with
  | nil => exact two
  | cons done _ ih => exact .cons done (ih two)

theorem Straight.split {best : σ → ρ → Bool × σ} (path : Straight best s (first ++ second) final) :
    ∃ middle, Straight best s first middle ∧ Straight best middle second final := by
  induction first generalizing s with
  | nil => exact ⟨s,.nil,path⟩
  | cons r first ih =>
    cases path with
    | cons done rest =>
      obtain ⟨middle,one,two⟩ := ih rest
      exact ⟨middle,.cons done one,two⟩

-- After a stall the same attempt comes out as if there had been none, and one that
-- does not stall does what it does at best.
structure Transparent (attempt : σ → ε → ρ → Bool × σ) (best : σ → ρ → Bool × σ) : Prop where
  retried : ∀ s e e' r, (attempt s e r).1 = true → attempt (attempt s e r).2 e' r = attempt s e' r
  done : ∀ s e r, (attempt s e r).1 = false → attempt s e r = best s r

-- The state of the work without stalls, or what one stall at the next item makes of it.
def Reaches (attempt : σ → ε → ρ → Bool × σ) (u : σ) (j : Job σ ρ) : Prop :=
  j.state = u ∨ ∃ e r, j.remaining.head? = some r ∧ (attempt u e r).1 = true ∧ j.state = (attempt u e r).2

structure InOrder (attempt : σ → ε → ρ → Bool × σ) (best : σ → ρ → Bool × σ) (items : List ρ) (s : σ) (j : Job σ ρ) : Prop where
  split : items = j.finished ++ j.remaining
  reaches : ∃ u, Straight best s j.finished u ∧ Reaches attempt u j

variable {attempt : σ → ε → ρ → Bool × σ} {best : σ → ρ → Bool × σ} {items : List ρ}

theorem InOrder.turn {j : Job σ ρ} (transparent : Transparent attempt best) (order : InOrder attempt best items s j) (e : ε) :
    InOrder attempt best items s (j.turn attempt e) := by
  obtain ⟨split,u,path,reaches⟩ := order
  obtain ⟨finished,remaining,state⟩ := j
  cases remaining with
  | nil => exact ⟨split,u,path,reaches⟩
  | cons r rest =>
    -- The attempt is one at the state without stalls.
    have same : attempt state e r = attempt u e r := by
      rcases reaches with rfl | ⟨e',r',next,stalled,rfl⟩
      · rfl
      · obtain rfl : r = r' := Option.some.inj next
        exact transparent.retried u e' e r stalled
    unfold Job.turn
    simp only [same]
    cases ended : (attempt u e r).1 with
    | true => exact ⟨split,u,path,.inr ⟨e,r,rfl,ended,rfl⟩⟩
    | false =>
      have done := transparent.done u e r ended
      have best_ended : (best u r).1 = false := by rw [← done]; exact ended
      refine ⟨by simpa using split,(best u r).2,path.append (.cons best_ended .nil),.inl ?_⟩
      simp [done]

theorem turns_inOrder (transparent : Transparent attempt best) (items : List ρ) (s : σ) (es : List ε) :
    InOrder attempt best items s (es.foldl (Job.turn attempt) (.start items s)) := by
  have kept (es : List ε) (j : Job σ ρ) (order : InOrder attempt best items s j) :
      InOrder attempt best items s (es.foldl (Job.turn attempt) j) := by
    induction es generalizing j with
    | nil => exact order
    | cons e es ih => exact ih _ (order.turn transparent e)
  exact kept es _ ⟨rfl,s,.nil,.inl rfl⟩

theorem turns_done (transparent : Transparent attempt best) {es : List ε}
    (all : (es.foldl (Job.turn attempt) (.start items s)).remaining = []) :
    Straight best s items (es.foldl (Job.turn attempt) (.start items s)).state := by
  obtain ⟨split,u,path,reaches⟩ := turns_inOrder transparent items s es
  rw [all,List.append_nil] at split
  rcases reaches with same | ⟨_,_,next,_⟩
  · rw [same,split]
    exact path
  · rw [all] at next
    cases next

end
end Retries
