import Mathlib

namespace SharedVariables

section
variable {V : Type} {val : V → Type} {on W : V → Prop} {s t next next' : (v : V) → val v}

-- Two stores that agree on some of their variables.
def AgreeOn (on : V → Prop) (s t : (v : V) → val v) : Prop := ∀ v, on v → s v = t v

theorem AgreeOn.mono (agree : AgreeOn on s t) (fewer : ∀ v, W v → on v) : AgreeOn W s t :=
  fun v within => agree v (fewer v within)

-- A step that writes the same on both sides agrees on what it wrote, and on what the
-- stores had in common before.
theorem AgreeOn.step (agree : AgreeOn on s t) (wrote : AgreeOn W next next') (kept : ∀ v, ¬W v → next v = s v)
    (kept' : ∀ v, ¬W v → next' v = t v) : AgreeOn (fun v => W v ∨ on v) next next' := by
  intro v either
  by_cases written : W v
  · exact wrote v written
  · rw [kept v written,kept' v written]
    exact agree v (either.resolve_left written)

end

section
variable {L ι : Type} {writer : L → Option ι} {q q' : ι} {W : L → Prop} {l : L}

-- No other party wrote the variable last.
def Own (writer : L → Option ι) (q : ι) (l : L) : Prop := writer l = none ∨ writer l = some q

instance [DecidableEq ι] (writer : L → Option ι) (q : ι) (l : L) : Decidable (Own writer q l) := inferInstanceAs (Decidable (_ ∨ _))

def mark (writer : L → Option ι) (q : ι) (W : L → Prop) [DecidablePred W] (l : L) : Option ι :=
  if W l then some q else writer l

variable [DecidablePred W]

theorem mark_written (written : W l) : mark writer q W l = some q := if_pos written

theorem mark_kept (kept : ¬W l) : mark writer q W l = writer l := if_neg kept

theorem own_mark : Own (mark writer q W) q l → W l ∨ Own writer q l := by
  intro own
  by_cases written : W l
  · exact .inl written
  · unfold Own at own
    rw [mark_kept written] at own
    exact .inr own

-- What another party wrote is not one's own any more.
theorem own_mark_other (other : q' ≠ q) (own : Own (mark writer q' W) q l) : ¬W l ∧ Own writer q l := by
  by_cases written : W l
  · unfold Own at own
    rw [mark_written written] at own
    rcases own with none | same
    · cases none
    · exact absurd (Option.some.inj same) other
  · unfold Own at own
    rw [mark_kept written] at own
    exact ⟨written,own⟩

end

end SharedVariables
