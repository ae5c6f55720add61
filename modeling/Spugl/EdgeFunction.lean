import Mathlib

namespace EdgeFunction

-- Twice the signed area of p, q and z: zero on the line through p and q.
def edge [CommRing R] (p q z : R × R) : R := (z.1 - p.1)*(q.2 - p.2) + (z.2 - p.2)*(p.1 - q.1)

section
variable [CommRing R] (p q r z : R × R)

theorem edge_swap : edge q p z = -edge p q z := by
  unfold edge; ring

theorem edge_step (u v : R) : edge p q (z.1+u,z.2+v) = edge p q z + u*(q.2 - p.2) + v*(p.1 - q.1) := by
  unfold edge; ring

end

section
variable [CommRing R] [LinearOrder R] [IsStrictOrderedRing R] {p q r s z : R × R}

-- Strictly between p and q, by weights.
def OnSegment (p q z : R × R) : Prop := ∃ a b : R, 0 < a ∧ 0 < b ∧
  (a+b)*z.1 = a*p.1 + b*q.1 ∧ (a+b)*z.2 = a*p.2 + b*q.2

-- Strictly inside the triangle p, q, r, by weights.
def Interior (p q r z : R × R) : Prop := ∃ a b c : R, 0 < a ∧ 0 < b ∧ 0 < c ∧
  (a+b+c)*z.1 = a*p.1 + b*q.1 + c*r.1 ∧ (a+b+c)*z.2 = a*p.2 + b*q.2 + c*r.2

theorem OnSegment.edge_zero (between : OnSegment p q z) : edge p q z = 0 := by
  obtain ⟨a,b,a_pos,b_pos,first,second⟩ := between
  have weighted : (a+b) * edge p q z = 0 := by
    unfold edge
    linear_combination (q.2 - p.2)*first + (p.1 - q.1)*second
  have positive : a+b ≠ 0 := ne_of_gt (add_pos a_pos b_pos)
  exact (mul_eq_zero.mp weighted).resolve_left positive

-- A weighted point is on the same side of each line as the vertex across it.
theorem weighted_side {a w e area : R} (a_pos : 0 < a) (w_pos : 0 < w) (turned : area < 0) (same : w*e = a*area) : e < 0 := by
  by_contra wrong
  have above := mul_nonneg w_pos.le (not_lt.mp wrong)
  have below := mul_neg_of_pos_of_neg a_pos turned
  linarith

theorem interior_iff (turned : edge q r p < 0) :
    Interior p q r z ↔ edge q r z < 0 ∧ edge r p z < 0 ∧ edge p q z < 0 := by
  constructor
  · intro inside
    obtain ⟨a,b,c,a_pos,b_pos,c_pos,first,second⟩ := inside
    have sum_pos := add_pos (add_pos a_pos b_pos) c_pos
    have qr : (a+b+c) * edge q r z = a * edge q r p := by
      unfold edge; linear_combination (r.2 - q.2)*first + (q.1 - r.1)*second
    have rp : (a+b+c) * edge r p z = b * edge q r p := by
      unfold edge; linear_combination (p.2 - r.2)*first + (r.1 - p.1)*second
    have pq : (a+b+c) * edge p q z = c * edge q r p := by
      unfold edge; linear_combination (q.2 - p.2)*first + (p.1 - q.1)*second
    exact ⟨weighted_side a_pos sum_pos turned qr,weighted_side b_pos sum_pos turned rp,weighted_side c_pos sum_pos turned pq⟩
  · intro sides
    obtain ⟨qr,rp,pq⟩ := sides
    refine ⟨-edge q r z,-edge r p z,-edge p q z,neg_pos.mpr qr,neg_pos.mpr rp,neg_pos.mpr pq,?_,?_⟩
    · unfold edge; ring
    · unfold edge; ring

-- Triangles on the two sides of a line share no inner point.
theorem Interior.opposite (inside : Interior p q r z) (turned : edge q r p < 0) (other : edge p s q < 0) :
    ¬Interior q p s z := by
  intro both
  have one := ((interior_iff turned).mp inside).2.2
  have two := ((interior_iff other).mp both).2.2
  rw [edge_swap] at two
  linarith

theorem OnSegment.outside (between : OnSegment p q z) (turned : edge q r p < 0) : ¬Interior p q r z := by
  intro inside
  have strict := ((interior_iff turned).mp inside).2.2
  rw [between.edge_zero] at strict
  exact lt_irrefl _ strict

theorem OnSegment.swap (between : OnSegment p q z) : OnSegment q p z := by
  obtain ⟨a,b,a_pos,b_pos,first,second⟩ := between
  exact ⟨b,a,b_pos,a_pos,by linear_combination first,by linear_combination second⟩

end
end EdgeFunction
