import Spugl.FixedSizes
import Spugl.HilbertWalk

namespace Spugl
open HilbertWalk

-- The four words of a vec_int4.
abbrev Lanes := Fin 4 → Int

-- What a 32-bit word keeps of a result.
def wrap32 (x : Int) : Int := Int.bmod x (2^32)

theorem wrap32_exact {x : Int} (low : -2^31 ≤ x) (high : x < 2^31) : wrap32 x = x := by
  unfold wrap32
  rw [Int.bmod_def]
  omega

-- `wrap` is wrap32 on the machine; the walk itself does not depend on it.
section
variable (wrap : Int → Int)

def spu_add (a b : Lanes) : Lanes := fun k => wrap (a k + b k)
def spu_sub (a b : Lanes) : Lanes := fun k => wrap (a k - b k)
def spu_rlmaska (a : Lanes) (n : Nat) : Lanes := fun k => a k / 2^n
def spu_sel (a b : Lanes) (mask : Bool) : Lanes := if mask then b else a

-- spu_rlmaskqwbyte( a, -4 ): the words move one place, 0 enters at the front.
def wordsRight (a : Fin 4 → Nat) : Fin 4 → Nat
  | 0 => 0
  | 1 => a 0
  | 2 => a 1
  | 3 => a 2

-- The entries of processTile for one block whose found bit is set.
structure Leaf where
  coordx : Nat
  coordy : Nat
  A : Lanes

-- spu_nor(spu_or(A,Ar), spu_or(Ab,Abr)): some edge has no negative corner.
def outside (A Adx Ady : Lanes) : Bool :=
  let Ar := spu_add wrap A Adx
  let Ab := spu_add wrap A Ady
  let Abr := spu_add wrap Ar Ady
  decide (∃ k, 0 ≤ A k ∧ 0 ≤ Ar k ∧ 0 ≤ Ab k ∧ 0 ≤ Abr k)

-- The recursion ends when i is halved to 0, long before `fuel` does. `type` is the
-- pair of nibble masks (type & 0xf0, type & 0x0f); base is a splat.
def subdivide : Nat → Lanes → Lanes → Lanes → Nat × Nat → Nat → Nat → (Fin 4 → Nat) → Turn → Int → Int →
    Nat × Nat → (Nat → Option Leaf) → Nat → Option Leaf
  | 0,_,_,_,_,_,_,_,_,_,_,_,found => found
  | fuel+1,A,Adx,Ady,y,i,base,baseadd,type,blockStart,blockMax,limit,found =>
    if outside wrap A Adx Ady then found else
    let i := i / 2
    let baseadd := fun k => baseadd k / 4
    if i ≠ 0 then
      let hdx := spu_rlmaska Adx 1
      let hdy := spu_rlmaska Ady 1
      let A_hdx := spu_add wrap A hdx
      let A_hdy := spu_add wrap A hdy
      let A_hdx_hdy := spu_add wrap A_hdx hdy
      let Adx_hdx := spu_sub wrap Adx hdx
      let Ady_hdy := spu_sub wrap Ady hdy
      let bit0 := type.1
      let bit1 := type.2
      let add (x y' : Bool) : Nat × Nat := (y.1 + if x then i else 0,y.2 + if y' then i else 0)
      let newbase (k : Fin 4) : Nat := base + wordsRight baseadd k
      let found := if newbase 0 < blockMax then
        subdivide fuel (spu_sel A A_hdx_hdy bit1) (spu_sel hdx Adx_hdx bit1) (spu_sel hdy Ady_hdy bit1)
          (add bit1 bit1) i (newbase 0) baseadd (!bit0,bit1) blockStart blockMax limit found else found
      let found := if newbase 1 < blockMax then
        subdivide fuel (spu_sel A_hdy A_hdx bit0) (spu_sel hdx Adx_hdx bit0) (spu_sel Ady_hdy hdy bit0)
          (add bit0 (!bit0)) i (newbase 1) baseadd (bit0,bit1) blockStart blockMax limit found else found
      let found := if newbase 2 < blockMax then
        subdivide fuel (spu_sel A_hdx_hdy A bit1) (spu_sel Adx_hdx hdx bit1) (spu_sel Ady_hdy hdy bit1)
          (add (!bit1) (!bit1)) i (newbase 2) baseadd (bit0,bit1) blockStart blockMax limit found else found
      if newbase 3 < blockMax then
        subdivide fuel (spu_sel A_hdx A_hdy bit0) (spu_sel Adx_hdx hdx bit0) (spu_sel hdy Ady_hdy bit0)
          (add (!bit0) bit0) i (newbase 3) baseadd (bit0,!bit1) blockStart blockMax limit found else found
    else
      let block : Int := base - blockStart
      if 0 ≤ block ∧ block < blockMax ∧ ¬(limit.1 < y.1 ∨ limit.2 < y.2) then
        Function.update found block.toNat (some ⟨y.1,y.2,A⟩)
      else found

-- The edge values at tile corners.
def planeAt (A p q : Lanes) (x y : Nat) : Lanes := fun k => A k + x * p k + y * q k

def scaled (m : Nat) (p : Lanes) : Lanes := fun k => 2^m * p k

-- Nothing on the corners of a 2^n by 2^n grid, nor any halved step, is wrapped.
structure Fits (n : Nat) (A p q : Lanes) : Prop where
  value : ∀ k x y, x ≤ 2^n → y ≤ 2^n → wrap (planeAt A p q x y k) = planeAt A p q x y k
  stepX : ∀ k m, m ≤ n → wrap (scaled m p k) = scaled m p k
  stepY : ∀ k m, m ≤ n → wrap (scaled m q k) = scaled m q k

end

section
variable {wrap : Int → Int} {A p q : Lanes}

theorem planeAt_x (A p q : Lanes) (x y m : Nat) (k : Fin 4) :
    planeAt A p q x y k + scaled m p k = planeAt A p q (x+2^m) y k := by
  simp only [planeAt,scaled]; push_cast; ring

theorem planeAt_y (A p q : Lanes) (x y m : Nat) (k : Fin 4) :
    planeAt A p q x y k + scaled m q k = planeAt A p q x (y+2^m) k := by
  simp only [planeAt,scaled]; push_cast; ring

theorem Fits.addX (fits : Fits wrap n A p q) (x_le : x+2^m ≤ 2^n) (y_le : y ≤ 2^n) :
    spu_add wrap (planeAt A p q x y) (scaled m p) = planeAt A p q (x+2^m) y := by
  funext k
  simp only [spu_add,planeAt_x]
  exact fits.value k _ _ x_le y_le

theorem Fits.addY (fits : Fits wrap n A p q) (x_le : x ≤ 2^n) (y_le : y+2^m ≤ 2^n) :
    spu_add wrap (planeAt A p q x y) (scaled m q) = planeAt A p q x (y+2^m) := by
  funext k
  simp only [spu_add,planeAt_y]
  exact fits.value k _ _ x_le y_le

theorem halve_scaled (m : Nat) (p : Lanes) : spu_rlmaska (scaled (m+1) p) 1 = scaled m p := by
  funext k
  simp only [spu_rlmaska,scaled,pow_succ]
  rw [show (2:Int)^m * 2 * p k = 2^m * p k * 2 by ring]
  simp

theorem Fits.restX (fits : Fits wrap n A p q) (inside : m ≤ n) :
    spu_sub wrap (scaled (m+1) p) (scaled m p) = scaled m p := by
  funext k
  have half : scaled (m+1) p k - scaled m p k = scaled m p k := by simp only [scaled,pow_succ]; ring
  simp only [spu_sub,half]
  exact fits.stepX k m inside

theorem Fits.restY (fits : Fits wrap n A p q) (inside : m ≤ n) :
    spu_sub wrap (scaled (m+1) q) (scaled m q) = scaled m q := by
  funext k
  have half : scaled (m+1) q k - scaled m q k = scaled m q k := by simp only [scaled,pow_succ]; ring
  simp only [spu_sub,half]
  exact fits.stepY k m inside

-- The corner test in exact values.
theorem Fits.outside_exact (fits : Fits wrap n A p q) (x_le : x+2^m ≤ 2^n) (y_le : y+2^m ≤ 2^n) :
    outside wrap (planeAt A p q x y) (scaled m p) (scaled m q) = true ↔
      ∃ k, 0 ≤ planeAt A p q x y k ∧ 0 ≤ planeAt A p q (x+2^m) y k ∧ 0 ≤ planeAt A p q x (y+2^m) k ∧
        0 ≤ planeAt A p q (x+2^m) (y+2^m) k := by
  have right := fits.addX x_le (Nat.le_trans (Nat.le_add_right _ _) y_le)
  have below := fits.addY (Nat.le_trans (Nat.le_add_right _ _) x_le) y_le
  have both := fits.addY x_le y_le
  unfold outside
  simp only [right,below,both,decide_eq_true_eq]

-- A plane that is nonnegative at the corners of a rectangle is so inside it.
theorem corners_inside {a b c d u v : Int} (u_low : 0 ≤ u) (u_high : u ≤ c) (v_low : 0 ≤ v) (v_high : v ≤ c)
    (one : 0 ≤ d) (two : 0 ≤ d + c*a) (three : 0 ≤ d + c*b) (four : 0 ≤ d + c*a + c*b) : 0 ≤ d + u*a + v*b := by
  rcases le_or_gt 0 a with risesA | fallsA <;> rcases le_or_gt 0 b with risesB | fallsB
  · have := mul_nonneg u_low risesA; have := mul_nonneg v_low risesB; linarith
  · have := mul_nonneg u_low risesA; have := mul_le_mul_of_nonpos_right v_high fallsB.le; linarith
  · have := mul_le_mul_of_nonpos_right u_high fallsA.le; have := mul_nonneg v_low risesB; linarith
  · have := mul_le_mul_of_nonpos_right u_high fallsA.le; have := mul_le_mul_of_nonpos_right v_high fallsB.le; linarith

-- One quadrant of the walk, in the terms of HilbertWalk.
def quarter (wrap : Int → Int) (fuel : Nat) (A p q : Lanes) (n : Nat) (o : Turn) (x y base : Nat)
    (blockStart blockMax : Int) (limit : Nat × Nat) (c : Nat) (found : Nat → Option Leaf) : Nat → Option Leaf :=
  if ((base + 4^n * c : Nat) : Int) < blockMax then
    subdivide wrap fuel (planeAt A p q (x + offset n (corner o c).1) (y + offset n (corner o c).2)) (scaled n p) (scaled n q)
      (x + offset n (corner o c).1,y + offset n (corner o c).2) (2^n) (base + 4^n * c) (fun k => 4^n * (k+1))
      (turn o c) blockStart blockMax limit found
  else found

theorem quarters_quarter (n : Nat) : (fun k : Fin 4 => 4^(n+1) * (k.val+1) / 4) = fun k => 4^n * (k.val+1) := by
  funext k
  rw [pow_succ,Nat.mul_right_comm,Nat.mul_div_cancel _ (by decide)]

-- Half a square's side on, in both directions, the sums are exact.
theorem Fits.halves (fits : Fits wrap N A p q) (x_le : x+2^(n+1) ≤ 2^N) (y_le : y+2^(n+1) ≤ 2^N) : n ≤ N ∧
    spu_add wrap (planeAt A p q x y) (scaled n p) = planeAt A p q (x+2^n) y ∧
    spu_add wrap (planeAt A p q x y) (scaled n q) = planeAt A p q x (y+2^n) ∧
    spu_add wrap (planeAt A p q (x+2^n) y) (scaled n q) = planeAt A p q (x+2^n) (y+2^n) := by
  have side : 2^(n+1) = 2^n + 2^n := by rw [pow_succ]; omega
  have positive : 0 < 2^n := Nat.pow_pos (by decide)
  rw [side] at x_le y_le
  have level : n ≤ N := by
    by_contra above
    have big : 2^N < 2^n := Nat.pow_lt_pow_right (by decide) (by omega)
    omega
  exact ⟨level,fits.addX (by omega) (by omega),fits.addY (by omega) (by omega),fits.addY (by omega) (by omega)⟩

theorem subdivide_step (fits : Fits wrap N A p q) (x_le : x+2^(n+1) ≤ 2^N) (y_le : y+2^(n+1) ≤ 2^N)
    (seen : outside wrap (planeAt A p q x y) (scaled (n+1) p) (scaled (n+1) q) = false) (found : Nat → Option Leaf) :
    subdivide wrap (fuel+1) (planeAt A p q x y) (scaled (n+1) p) (scaled (n+1) q) (x,y) (2^(n+1)) base
        (fun k => 4^(n+1) * (k+1)) o blockStart blockMax limit found =
      quarter wrap fuel A p q n o x y base blockStart blockMax limit 3
        (quarter wrap fuel A p q n o x y base blockStart blockMax limit 2
          (quarter wrap fuel A p q n o x y base blockStart blockMax limit 1
            (quarter wrap fuel A p q n o x y base blockStart blockMax limit 0 found))) := by
  have side : 2^(n+1) = 2^n + 2^n := by rw [pow_succ]; omega
  have positive : 0 < 2^n := Nat.pow_pos (by decide)
  obtain ⟨level,addX,addY,addXY⟩ := fits.halves x_le y_le
  have half : 2^(n+1) / 2 = 2^n := by rw [side]; omega
  have some : 2^n ≠ 0 := by omega
  rw [subdivide]
  simp only [seen,Bool.false_eq_true,if_false,half,ne_eq,some,not_false_eq_true,if_true,quarters_quarter,halve_scaled,addX,addY,
    addXY,fits.restX level,fits.restY level]
  obtain ⟨b0,b1⟩ := o
  cases b0 <;> cases b1 <;> rfl

theorem subdivide_outside (gone : outside wrap A p q = true) (fuel : Nat) (found : Nat → Option Leaf) :
    subdivide wrap fuel A p q y i base baseadd o blockStart blockMax limit found = found := by
  cases fuel with
  | zero => rfl
  | succ fuel => rw [subdivide,if_pos gone]

-- A leaf: one tile.
theorem subdivide_leaf (found : Nat → Option Leaf) :
    subdivide wrap (fuel+1) A p q y 1 base baseadd o blockStart blockMax limit found =
      if outside wrap A p q then found
      else if 0 ≤ (base : Int) - blockStart ∧ (base : Int) - blockStart < blockMax ∧ ¬(limit.1 < y.1 ∨ limit.2 < y.2)
        then Function.update found ((base : Int) - blockStart).toNat (some ⟨y.1,y.2,A⟩)
      else found := by
  rw [subdivide]
  rfl

-- Blocks whose tile is not in the square keep what they have.
theorem subdivide_miss (fits : Fits wrap N A p q) (x_le : x+2^n ≤ 2^N) (y_le : y+2^n ≤ 2^N) (block : Nat)
    (away : ∀ j, j < 4^n → ((base+j : Nat) : Int) - blockStart ≠ block) (found : Nat → Option Leaf) :
    subdivide wrap fuel (planeAt A p q x y) (scaled n p) (scaled n q) (x,y) (2^n) base (fun k => 4^n * (k+1)) o
      blockStart blockMax limit found block = found block := by
  induction n generalizing fuel x y base o found with
  | zero =>
    cases fuel with
    | zero => rfl
    | succ fuel =>
      rw [pow_zero,subdivide_leaf]
      split
      · rfl
      · split
        · rename_i inside
          have other := away 0 (by decide)
          exact Function.update_of_ne (by rw [Nat.add_zero] at other; omega) _ _
        · rfl
  | succ n ih =>
    cases fuel with
    | zero => rfl
    | succ fuel =>
      cases seen : outside wrap (planeAt A p q x y) (scaled (n+1) p) (scaled (n+1) q) with
      | true => rw [subdivide_outside seen]
      | false =>
        have quarter_miss : ∀ c, c < 4 → ∀ found,
            quarter wrap fuel A p q n o x y base blockStart blockMax limit c found block = found block := by
          intro c less found
          have cx := offset_le n (corner o c).1
          have cy := offset_le n (corner o c).2
          rw [pow_succ] at x_le y_le
          unfold quarter
          split
          · apply ih (by omega) (by omega)
            intro j inside
            have range : 4^n * c + j < 4^(n+1) := by
              have := Nat.mul_le_mul_left (4^n) (Nat.le_of_lt_succ less)
              rw [pow_succ]; omega
            have other := away (4^n * c + j) range
            rwa [← Nat.add_assoc] at other
          · rfl
        rw [subdivide_step fits x_le y_le seen,quarter_miss 3 (by decide),quarter_miss 2 (by decide),
          quarter_miss 1 (by decide),quarter_miss 0 (by decide)]

-- Tile number `tile` at place `c` is drawn: it is in range and in the frame, and
-- its own corners do not rule it out.
def drawn (wrap : Int → Int) (A p q : Lanes) (limit : Nat × Nat) (blockMax : Int) (tile : Nat) (c : Nat × Nat) : Bool :=
  decide ((tile : Int) < blockMax) && !(decide (limit.1 < c.1 ∨ limit.2 < c.2)) &&
    !outside wrap (planeAt A p q c.1 c.2) (scaled 0 p) (scaled 0 q)

def leafAt (A p q : Lanes) (c : Nat × Nat) : Leaf := ⟨c.1,c.2,planeAt A p q c.1 c.2⟩

-- A square is ruled out by one edge, which has all of it at its outer side.
theorem Fits.outside_all (fits : Fits wrap N A p q) (x_le : x+2^n ≤ 2^N) (y_le : y+2^n ≤ 2^N)
    (gone : outside wrap (planeAt A p q x y) (scaled n p) (scaled n q) = true) :
    ∃ k, ∀ u v : Nat, u ≤ 2^n → v ≤ 2^n → 0 ≤ planeAt A p q (x+u) (y+v) k := by
  obtain ⟨k,one,two,three,four⟩ := (fits.outside_exact x_le y_le).mp gone
  refine ⟨k,?_⟩
  intro u v u_le v_le
  have shift : planeAt A p q (x+u) (y+v) k = planeAt A p q x y k + u * p k + v * q k := by
    simp only [planeAt]; push_cast; ring
  rw [shift]
  apply corners_inside (c := ((2^n : Nat) : Int)) (by omega) (by exact_mod_cast u_le) (by omega)
    (by exact_mod_cast v_le) one
  · rw [← planeAt_x] at two; simpa [scaled] using two
  · rw [← planeAt_y] at three; simpa [scaled] using three
  · rw [← planeAt_y,← planeAt_x] at four; simpa [scaled] using four

-- A square that is ruled out has no tile that its own corners would keep.
theorem outside_inner (fits : Fits wrap N A p q) (x_le : x+2^n ≤ 2^N) (y_le : y+2^n ≤ 2^N)
    (gone : outside wrap (planeAt A p q x y) (scaled n p) (scaled n q) = true) (a_lt : a < 2^n) (b_lt : b < 2^n) :
    outside wrap (planeAt A p q (x+a) (y+b)) (scaled 0 p) (scaled 0 q) = true := by
  obtain ⟨k,inside⟩ := fits.outside_all x_le y_le gone
  refine (fits.outside_exact (by omega) (by omega)).mpr ⟨k,?_⟩
  rw [pow_zero]
  exact ⟨inside a b (by omega) (by omega),by simpa [Nat.add_assoc] using inside (a+1) b (by omega) (by omega),
    by simpa [Nat.add_assoc] using inside a (b+1) (by omega) (by omega),
    by simpa [Nat.add_assoc] using inside (a+1) (b+1) (by omega) (by omega)⟩

-- Each tile of the square is found exactly when it is drawn.
theorem subdivide_hit {base j block : Nat} (fits : Fits wrap N A p q) (x_le : x+2^n ≤ 2^N) (y_le : y+2^n ≤ 2^N) (enough : n < fuel)
    (start : 0 ≤ blockStart) (inRange : (base : Int) < blockMax) (j_lt : j < 4^n)
    (at_ : ((base+j : Nat) : Int) - blockStart = (block : Nat)) (found : Nat → Option Leaf) :
    subdivide wrap fuel (planeAt A p q x y) (scaled n p) (scaled n q) (x,y) (2^n) base (fun k => 4^n * (k+1)) o
        blockStart blockMax limit found block =
      if drawn wrap A p q limit blockMax (base+j) (x + (cell n o j).1,y + (cell n o j).2)
      then some (leafAt A p q (x + (cell n o j).1,y + (cell n o j).2)) else found block := by
  induction n generalizing fuel x y base o j found with
  | zero =>
    obtain ⟨fuel,rfl⟩ := Nat.exists_eq_succ_of_ne_zero (Nat.ne_zero_of_lt enough)
    obtain rfl : j = 0 := by rw [pow_zero] at j_lt; omega
    rw [Nat.add_zero] at at_
    rw [pow_zero,subdivide_leaf]
    simp only [cell,Nat.add_zero,drawn,leafAt,inRange,decide_true,Bool.true_and]
    cases gone : outside wrap (planeAt A p q x y) (scaled 0 p) (scaled 0 q) with
    | true => simp
    | false =>
      by_cases hidden : limit.1 < x ∨ limit.2 < y
      · simp [hidden]
      · have place : ((base : Int) - blockStart).toNat = block := by omega
        simp only [Bool.false_eq_true,if_false,hidden,decide_false,Bool.not_false,Bool.and_true,if_true,not_false_eq_true,
          and_true]
        rw [if_pos (by omega),place,Function.update_self]
  | succ n ih =>
    obtain ⟨fuel,rfl⟩ := Nat.exists_eq_succ_of_ne_zero (Nat.ne_zero_of_lt enough)
    cases seen : outside wrap (planeAt A p q x y) (scaled (n+1) p) (scaled (n+1) q) with
    | true =>
      rw [subdivide_outside seen]
      have less := cell_lt (n+1) o j
      have gone := outside_inner fits x_le y_le seen less.1 less.2
      simp [drawn,gone]
    | false =>
      have positive : 0 < 4^n := Nat.pow_pos (by decide)
      have whole := Nat.div_add_mod j (4^n)
      have rest := Nat.mod_lt j positive
      have side : 4^(n+1) = 4^n * 4 := pow_succ 4 n
      have c_lt : j / 4^n < 4 := by rw [Nat.div_lt_iff_lt_mul positive]; omega
      have half : 2^(n+1) = 2^n + 2^n := by rw [pow_succ]; omega
      have corners : ∀ c, x + offset n (corner o c).1 + 2^n ≤ 2^N ∧ y + offset n (corner o c).2 + 2^n ≤ 2^N := by
        intro c
        have cx := offset_le n (corner o c).1
        have cy := offset_le n (corner o c).2
        omega
      have quarter_hit : ∀ found,
          quarter wrap fuel A p q n o x y base blockStart blockMax limit (j / 4^n) found block =
            if drawn wrap A p q limit blockMax (base+j) (x + (cell (n+1) o j).1,y + (cell (n+1) o j).2)
            then some (leafAt A p q (x + (cell (n+1) o j).1,y + (cell (n+1) o j).2)) else found block := by
        intro found
        have number : base + 4^n * (j / 4^n) + j % 4^n = base + j := by omega
        unfold quarter
        split
        · rename_i reached
          have inner := ih (corners (j / 4^n)).1 (corners (j / 4^n)).2 (show n < fuel by omega) reached rest (o := turn o (j / 4^n))
            (by rw [number]; exact at_) found
          have place : (x + offset n (corner o (j / 4^n)).1 + (cell n (turn o (j / 4^n)) (j % 4^n)).1,
              y + offset n (corner o (j / 4^n)).2 + (cell n (turn o (j / 4^n)) (j % 4^n)).2) =
                (x + (cell (n+1) o j).1,y + (cell (n+1) o j).2) := by
            simp only [cell,Nat.add_assoc]
          rw [inner,number,place]
        · have beyond : ¬((base+j : Nat) : Int) < blockMax := by omega
          simp only [drawn,beyond,decide_false,Bool.false_and,Bool.false_eq_true,if_false]
      have quarter_miss : ∀ c, c ≠ j / 4^n → ∀ found,
          quarter wrap fuel A p q n o x y base blockStart blockMax limit c found block = found block := by
        intro c other found
        unfold quarter
        split
        · apply subdivide_miss fits (corners c).1 (corners c).2
          intro i i_lt same
          apply other
          have sum : 4^n * c + i = j := by omega
          rw [← sum,Nat.mul_add_div positive,Nat.div_eq_of_lt i_lt,Nat.add_zero]
        · rfl
      rw [subdivide_step fits x_le y_le seen]
      generalize j / 4^n = c at c_lt quarter_hit quarter_miss
      have quarters : c = 0 ∨ c = 1 ∨ c = 2 ∨ c = 3 := by omega
      rcases quarters with rfl | rfl | rfl | rfl
      · rw [quarter_miss 3 (by decide),quarter_miss 2 (by decide),quarter_miss 1 (by decide),quarter_hit]
      · rw [quarter_miss 3 (by decide),quarter_miss 2 (by decide),quarter_hit,quarter_miss 0 (by decide)]
      · rw [quarter_miss 3 (by decide),quarter_hit,quarter_miss 1 (by decide),quarter_miss 0 (by decide)]
      · rw [quarter_hit,quarter_miss 2 (by decide),quarter_miss 1 (by decide),quarter_miss 0 (by decide)]

end
end Spugl
