import Mathlib

namespace HilbertWalk

-- Two bits say how a square is entered: quadrant 0 lies at (b1,b1), quadrant 1 at
-- (b0,not b0), and quadrants 2 and 3 opposite to them.
abbrev Turn := Bool × Bool

def corner (o : Turn) : Nat → Bool × Bool
  | 0 => (o.2,o.2)
  | 1 => (o.1,!o.1)
  | 2 => (!o.2,!o.2)
  | _ => (!o.1,o.1)

def turn (o : Turn) : Nat → Turn
  | 0 => (!o.1,o.2)
  | 3 => (o.1,!o.2)
  | _ => o

-- The quadrant that lies at a corner.
def quadrant (o : Turn) (c : Bool × Bool) : Nat :=
  if c.1 = c.2 then if c.1 = o.2 then 0 else 2
  else if c.1 = o.1 then 1 else 3

theorem quadrant_lt (o : Turn) (c : Bool × Bool) : quadrant o c < 4 := by
  unfold quadrant
  repeat' split
  all_goals omega

theorem corner_quadrant (o : Turn) (c : Bool × Bool) : corner o (quadrant o c) = c := by
  obtain ⟨b0,b1⟩ := o
  obtain ⟨x,y⟩ := c
  cases b0 <;> cases b1 <;> cases x <;> cases y <;> rfl

theorem quadrant_corner (o : Turn) (less : q < 4) : quadrant o (corner o q) = q := by
  obtain ⟨b0,b1⟩ := o
  match q,less with
  | 0,_ => cases b0 <;> cases b1 <;> rfl
  | 1,_ => cases b0 <;> cases b1 <;> rfl
  | 2,_ => cases b0 <;> cases b1 <;> rfl
  | 3,_ => cases b0 <;> cases b1 <;> rfl

def offset (n : Nat) (half : Bool) : Nat := if half then 2^n else 0

theorem offset_le (n : Nat) (half : Bool) : offset n half ≤ 2^n := by
  unfold offset
  split
  · exact Nat.le_refl _
  · exact Nat.zero_le _

-- The place of the b-th cell of a 2^n by 2^n square.
def cell : Nat → Turn → Nat → Nat × Nat
  | 0,_,_ => (0,0)
  | n+1,o,b =>
    let inner := cell n (turn o (b / 4^n)) (b % 4^n)
    let c := corner o (b / 4^n)
    (offset n c.1 + inner.1,offset n c.2 + inner.2)

def halves (n : Nat) (x y : Nat) : Bool × Bool := (decide (2^n ≤ x),decide (2^n ≤ y))

def index : Nat → Turn → Nat → Nat → Nat
  | 0,_,_,_ => 0
  | n+1,o,x,y =>
    let q := quadrant o (halves n x y)
    q * 4^n + index n (turn o q) (x % 2^n) (y % 2^n)

theorem cell_lt (n : Nat) (o : Turn) (b : Nat) : (cell n o b).1 < 2^n ∧ (cell n o b).2 < 2^n := by
  induction n generalizing o b with
  | zero => exact ⟨Nat.one_pos,Nat.one_pos⟩
  | succ n ih =>
    have inner := ih (turn o (b / 4^n)) (b % 4^n)
    have x := offset_le n (corner o (b / 4^n)).1
    have y := offset_le n (corner o (b / 4^n)).2
    simp only [cell,pow_succ]
    omega

theorem index_lt (n : Nat) (o : Turn) (x y : Nat) : index n o x y < 4^n := by
  induction n generalizing o x y with
  | zero => exact Nat.one_pos
  | succ n ih =>
    have inner := ih (turn o (quadrant o (halves n x y))) (x % 2^n) (y % 2^n)
    have q := Nat.mul_le_mul_right (4^n) (Nat.le_of_lt_succ (quadrant_lt o (halves n x y)))
    simp only [index,pow_succ]
    omega

-- Reading a half and a remainder back.
theorem offset_split (less : a < 2^n) (half : Bool) :
    decide (2^n ≤ offset n half + a) = half ∧ (offset n half + a) % 2^n = a := by
  cases half with
  | false =>
    have below : ¬2^n ≤ offset n false + a := by simp [offset]; exact less
    exact ⟨decide_eq_false below,by simp [offset,Nat.mod_eq_of_lt less]⟩
  | true =>
    have above : 2^n ≤ offset n true + a := by simp [offset]
    exact ⟨decide_eq_true above,by simp [offset,Nat.mod_eq_of_lt less]⟩

theorem split_offset (less : a < 2^(n+1)) : offset n (decide (2^n ≤ a)) + a % 2^n = a := by
  have bound : a < 2^n + 2^n := by rw [pow_succ] at less; omega
  by_cases above : 2^n ≤ a
  · have rest : a % 2^n = a - 2^n := by
      rw [Nat.mod_eq_sub_mod above,Nat.mod_eq_of_lt (by omega)]
    simp [offset,above,rest]
  · simp [offset,above,Nat.mod_eq_of_lt (Nat.lt_of_not_le above)]

theorem index_cell (inside : b < 4^n) : index n o (cell n o b).1 (cell n o b).2 = b := by
  induction n generalizing o b with
  | zero => rw [pow_zero] at inside; simp only [index]; omega
  | succ n ih =>
    have positive : 0 < 4^n := Nat.pow_pos (by decide)
    have q : b / 4^n < 4 := by
      rw [Nat.div_lt_iff_lt_mul positive]; rw [pow_succ] at inside; omega
    have less := cell_lt n (turn o (b / 4^n)) (b % 4^n)
    obtain ⟨halfX,restX⟩ := offset_split less.1 (corner o (b / 4^n)).1
    obtain ⟨halfY,restY⟩ := offset_split less.2 (corner o (b / 4^n)).2
    have same : halves n (cell (n+1) o b).1 (cell (n+1) o b).2 = corner o (b / 4^n) := by
      exact Prod.ext halfX halfY
    simp only [index,same,quadrant_corner o q]
    simp only [cell,restX,restY,ih (Nat.mod_lt b positive)]
    exact Nat.div_add_mod' b (4^n)

theorem cell_index (x_lt : x < 2^n) (y_lt : y < 2^n) : cell n o (index n o x y) = (x,y) := by
  induction n generalizing o x y with
  | zero =>
    obtain rfl := Nat.lt_one_iff.mp x_lt
    obtain rfl := Nat.lt_one_iff.mp y_lt
    rfl
  | succ n ih =>
    have positive : 0 < 4^n := Nat.pow_pos (by decide)
    have side : 0 < 2^n := Nat.pow_pos (by decide)
    have less := index_lt n (turn o (quadrant o (halves n x y))) (x % 2^n) (y % 2^n)
    have q : index (n+1) o x y / 4^n = quadrant o (halves n x y) := by
      simp only [index]
      rw [Nat.mul_comm,Nat.mul_add_div positive,Nat.div_eq_of_lt less,Nat.add_zero]
    have rest : index (n+1) o x y % 4^n = index n (turn o (quadrant o (halves n x y))) (x % 2^n) (y % 2^n) := by
      simp only [index]
      rw [Nat.mul_comm,Nat.mul_add_mod,Nat.mod_eq_of_lt less]
    simp only [cell,q,rest,corner_quadrant,ih (Nat.mod_lt x side) (Nat.mod_lt y side)]
    exact Prod.ext (split_offset x_lt) (split_offset y_lt)

-- The walk enters a square and leaves it at corners that turning the quadrants keeps.
def side (n : Nat) (half : Bool) : Nat := if half then 2^n - 1 else 0

theorem offset_side (n : Nat) (half : Bool) : offset n half + side n half = side (n+1) half := by
  have positive : 0 < 2^n := Nat.pow_pos (by decide)
  cases half with
  | false => rfl
  | true => simp only [offset,side,if_true,pow_succ]; omega

theorem cell_first (n : Nat) (o : Turn) : cell n o 0 = (side n o.2,side n o.2) := by
  induction n generalizing o with
  | zero => simp [cell,side]
  | succ n ih =>
    simp only [cell,Nat.zero_div,Nat.zero_mod,corner,turn,ih,offset_side]

theorem last_quadrant (n : Nat) : (4^(n+1) - 1) / 4^n = 3 ∧ (4^(n+1) - 1) % 4^n = 4^n - 1 := by
  have positive : 0 < 4^n := Nat.pow_pos (by decide)
  have whole : 4^(n+1) - 1 = 4^n * 3 + (4^n - 1) := by rw [pow_succ]; omega
  have less : 4^n - 1 < 4^n := by omega
  rw [whole,Nat.mul_add_div positive,Nat.div_eq_of_lt less,Nat.mul_add_mod,Nat.mod_eq_of_lt less]
  exact ⟨rfl,rfl⟩

theorem cell_last (n : Nat) (o : Turn) : cell n o (4^n - 1) = (side n (!o.1),side n o.1) := by
  induction n generalizing o with
  | zero => simp [cell,side]
  | succ n ih =>
    simp only [cell,last_quadrant,corner,turn,ih,offset_side]

-- Cells that share an edge.
def Adjacent (c d : Nat × Nat) : Prop :=
  (c.1 = d.1 ∧ (c.2 + 1 = d.2 ∨ d.2 + 1 = c.2)) ∨ (c.2 = d.2 ∧ (c.1 + 1 = d.1 ∨ d.1 + 1 = c.1))

theorem Adjacent.shift (adjacent : Adjacent c d) (x y : Nat) : Adjacent (x + c.1,y + c.2) (x + d.1,y + d.2) := by
  unfold Adjacent at *
  omega

-- From the last cell of a quadrant to the first one of the next.
theorem quadrant_next (n : Nat) (o : Turn) (less : q < 3) :
    Adjacent (offset n (corner o q).1 + side n (!(turn o q).1),offset n (corner o q).2 + side n (turn o q).1)
      (offset n (corner o (q+1)).1 + side n (turn o (q+1)).2,offset n (corner o (q+1)).2 + side n (turn o (q+1)).2) := by
  have positive : 0 < 2^n := Nat.pow_pos (by decide)
  obtain ⟨b0,b1⟩ := o
  have quadrants : q = 0 ∨ q = 1 ∨ q = 2 := by omega
  rcases quadrants with rfl | rfl | rfl
  all_goals cases b0 <;> cases b1 <;> simp [Adjacent,corner,turn,offset,side] <;> omega

theorem cell_next (inside : b + 1 < 4^n) : Adjacent (cell n o b) (cell n o (b+1)) := by
  induction n generalizing o b with
  | zero => rw [pow_zero] at inside; omega
  | succ n ih =>
    have positive : 0 < 4^n := Nat.pow_pos (by decide)
    have whole := Nat.div_add_mod b (4^n)
    have less := Nat.mod_lt b positive
    rw [pow_succ] at inside
    by_cases within : b % 4^n + 1 < 4^n
    · have next : b + 1 = 4^n * (b / 4^n) + (b % 4^n + 1) := by omega
      have q : (b + 1) / 4^n = b / 4^n := by rw [next,Nat.mul_add_div positive,Nat.div_eq_of_lt within,Nat.add_zero]
      have rest : (b + 1) % 4^n = b % 4^n + 1 := by rw [next,Nat.mul_add_mod,Nat.mod_eq_of_lt within]
      simp only [cell,q,rest]
      exact (ih within).shift _ _
    · have last : b % 4^n = 4^n - 1 := by omega
      have next : b + 1 = 4^n * (b / 4^n + 1) := by rw [Nat.mul_add,Nat.mul_one]; omega
      have q : (b + 1) / 4^n = b / 4^n + 1 := by rw [next,Nat.mul_div_cancel_left _ positive]
      have rest : (b + 1) % 4^n = 0 := by rw [next,Nat.mul_mod_right]
      have quadrant : b / 4^n < 3 := by
        by_contra last
        have three := Nat.mul_le_mul_left (4^n) (Nat.not_lt.mp last)
        omega
      simp only [cell,q,rest,last,cell_last,cell_first]
      exact quadrant_next n o quadrant

end HilbertWalk
