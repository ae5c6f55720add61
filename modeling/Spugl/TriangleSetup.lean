import Spugl.EdgeFunction
import Spugl.TileWalk

namespace Spugl
open EdgeFunction

def vec_int4 (a b c d : Int) : Lanes
  | 0 => a
  | 1 => b
  | 2 => c
  | 3 => d

def spu_splats (a : Int) : Lanes := fun _ => a

-- spu_andc with spu_splats(0xffff)
def clearLow (a : Lanes) : Lanes := fun k => a k - a k % 2^16

-- The even halfwords of a vector are the high ones of its words.
def spu_mule (a b : Lanes) : Lanes := fun k => a k / 2^16 * (b k / 2^16)

def shuffle_tri_cw (a : Lanes) : Lanes
  | 0 => a 1
  | 1 => a 2
  | 2 => a 0
  | 3 => 0

def shuffle_tri_ccw (a : Lanes) : Lanes
  | 0 => a 2
  | 1 => a 0
  | 2 => a 1
  | 3 => 0

-- shuffle_1st_word_pad and its siblings: one word moved to the front of zeros.
def shuffle_word_pad (n : Fin 4) (a : Lanes) : Lanes
  | 0 => a n
  | _ => 0

structure Triangle where
  area : Lanes
  area_dx : Lanes
  area_dy : Lanes

-- TRIx and TRIy stand for what spu_convts makes of the two registers.
def imp_triangle (TRIx TRIy : Lanes) : Option Triangle :=
  let x := clearLow (spu_add wrap32 (spu_rlmaska TRIx 1) (spu_splats (2^17)))
  let y := clearLow (spu_add wrap32 (spu_rlmaska TRIy 1) (spu_splats (2^17)))
  let dy := spu_sub wrap32 (shuffle_tri_cw x) (shuffle_tri_ccw x)
  let dx := spu_sub wrap32 (shuffle_tri_ccw y) (shuffle_tri_cw y)
  let total_v := spu_mule x dx
  let total := spu_add wrap32 (spu_add wrap32 (shuffle_word_pad 0 total_v) (shuffle_word_pad 1 total_v))
    (shuffle_word_pad 2 total_v)
  let offset := spu_add wrap32 (spu_mule (spu_splats (x 0)) dx) (spu_mule (spu_splats (y 0)) dy)
  let triA := spu_sub wrap32 total offset
  let triAdx := spu_rlmaska dx 3
  let triAdy := spu_rlmaska dy 3
  if total 0 < 0 then some ⟨Function.update triA 3 (-1),triAdx,triAdy⟩ else none

-- The results a saturating conversion can have.
def Word (a : Int) : Prop := -2^31 ≤ a ∧ a < 2^31

instance (a : Int) : Decidable (Word a) := inferInstanceAs (Decidable (_ ∧ _))

-- The rounded coordinate, in quarter pixels.
def quarterPixel (a : Int) : Int := (a / 2 + 2^17) / 2^16

theorem quarterPixel_range (word : Word a) : -16382 ≤ quarterPixel a ∧ quarterPixel a ≤ 16385 := by
  unfold quarterPixel
  unfold Word at word
  omega

theorem rounded_exact {a : Lanes} (word : Word (a k)) :
    clearLow (spu_add wrap32 (spu_rlmaska a 1) (spu_splats (2^17))) k = quarterPixel (a k) * 2^16 := by
  unfold Word at word
  have exact := wrap32_exact (x := a k / 2 + 2^17) (by omega) (by omega)
  simp only [clearLow,spu_add,spu_rlmaska,spu_splats,pow_one,exact,quarterPixel]
  omega

-- A grid of quarter pixels that holds every rounded vertex.
def OnGrid (v : Int × Int) : Prop := (-16382 ≤ v.1 ∧ v.1 ≤ 16385) ∧ -16382 ≤ v.2 ∧ v.2 ≤ 16385

theorem abs_edge_le {p q z : Int × Int} {m d : Int} (wide : |z.1 - p.1| ≤ m) (high : |z.2 - p.2| ≤ m)
    (dx : |q.2 - p.2| ≤ d) (dy : |p.1 - q.1| ≤ d) : |edge p q z| ≤ m*d + m*d := by
  have positive : 0 ≤ m := le_trans (abs_nonneg _) wide
  have first := mul_le_mul wide dx (abs_nonneg _) positive
  have second := mul_le_mul high dy (abs_nonneg _) positive
  rw [← abs_mul] at first second
  exact le_trans (abs_add_le _ _) (add_le_add first second)

-- On the 2048 by 2048 pixels every edge value is a word.
theorem edge_word {p q : Int × Int} {u v : Int} (first : OnGrid p) (second : OnGrid q) (u_low : 0 ≤ u) (u_high : u ≤ 8192)
    (v_low : 0 ≤ v) (v_high : v ≤ 8192) : -2^31 ≤ edge p q (u,v) ∧ edge p q (u,v) < 2^31 := by
  unfold OnGrid at first second
  have bound := abs_edge_le (p := p) (q := q) (z := (u,v)) (m := 24577) (d := 32767) (by rw [abs_le]; omega)
    (by rw [abs_le]; omega) (by rw [abs_le]; omega) (by rw [abs_le]; omega)
  rw [abs_le] at bound
  omega

-- The three edges of a triangle; the fourth lane is never in the way.
def side (v : Fin 4 → Int × Int) (k : Fin 4) (z : Int × Int) : Int :=
  match k with
  | 0 => edge (v 1) (v 2) z
  | 1 => edge (v 2) (v 0) z
  | 2 => edge (v 0) (v 1) z
  | 3 => -1

def deltaX (v : Fin 4 → Int × Int) (k : Fin 4) : Int := shuffle_tri_ccw (fun i => (v i).2) k - shuffle_tri_cw (fun i => (v i).2) k

def deltaY (v : Fin 4 → Int × Int) (k : Fin 4) : Int := shuffle_tri_cw (fun i => (v i).1) k - shuffle_tri_ccw (fun i => (v i).1) k

theorem side_step (v : Fin 4 → Int × Int) (k : Fin 4) (z : Int × Int) (a b : Int) :
    side v k (z.1+a,z.2+b) = side v k z + a * deltaX v k + b * deltaY v k := by
  match k with
  | 0 => exact edge_step _ _ _ _ _
  | 1 => exact edge_step _ _ _ _ _
  | 2 => exact edge_step _ _ _ _ _
  | 3 => simp [side,deltaX,deltaY,shuffle_tri_cw,shuffle_tri_ccw]

theorem side_word {v : Fin 4 → Int × Int} (grid : ∀ i, OnGrid (v i)) (k : Fin 4) {a b : Int} (a_low : 0 ≤ a) (a_high : a ≤ 8192)
    (b_low : 0 ≤ b) (b_high : b ≤ 8192) : -2^31 ≤ side v k (a,b) ∧ side v k (a,b) < 2^31 := by
  match k with
  | 0 => exact edge_word (grid 1) (grid 2) a_low a_high b_low b_high
  | 1 => exact edge_word (grid 2) (grid 0) a_low a_high b_low b_high
  | 2 => exact edge_word (grid 0) (grid 1) a_low a_high b_low b_high
  | 3 => simp [side]

theorem delta_range {v : Fin 4 → Int × Int} (grid : ∀ i, OnGrid (v i)) (k : Fin 4) :
    (-32767 ≤ deltaX v k ∧ deltaX v k ≤ 32767) ∧ -32767 ≤ deltaY v k ∧ deltaY v k ≤ 32767 := by
  have g0 := grid 0
  have g1 := grid 1
  have g2 := grid 2
  unfold OnGrid at g0 g1 g2
  unfold deltaX deltaY
  match k with
  | 0 => simp only [shuffle_tri_cw,shuffle_tri_ccw]; omega
  | 1 => simp only [shuffle_tri_cw,shuffle_tri_ccw]; omega
  | 2 => simp only [shuffle_tri_cw,shuffle_tri_ccw]; omega
  | 3 => simp only [shuffle_tri_cw,shuffle_tri_ccw]; omega

-- The gradients of one tile.
def tileX (v : Fin 4 → Int × Int) : Lanes := fun k => 128 * deltaX v k
def tileY (v : Fin 4 → Int × Int) : Lanes := fun k => 128 * deltaY v k

-- The triangle the walk is given, when nothing is lost.
def exactTriangle (v : Fin 4 → Int × Int) : Triangle where
  area := fun k => side v k (0,0)
  area_dx := scaled 6 (tileX v)
  area_dy := scaled 6 (tileY v)

def vertex (TRIx TRIy : Lanes) (k : Fin 4) : Int × Int := (quarterPixel (TRIx k),quarterPixel (TRIy k))

theorem vertex_grid {TRIx TRIy : Lanes} (wordX : ∀ k, Word (TRIx k)) (wordY : ∀ k, Word (TRIy k)) (k : Fin 4) :
    OnGrid (vertex TRIx TRIy k) :=
  ⟨quarterPixel_range (wordX k),quarterPixel_range (wordY k)⟩

theorem product_range {a b : Int} (a_low : -16382 ≤ a) (a_high : a ≤ 16385) (b_low : -32767 ≤ b) (b_high : b ≤ 32767) :
    -536887295 ≤ a*b ∧ a*b ≤ 536887295 := by
  have left : |a| ≤ 16385 := by rw [abs_le]; omega
  have right : |b| ≤ 32767 := by rw [abs_le]; omega
  have bound := mul_le_mul left right (abs_nonneg _) (by decide)
  rw [← abs_mul,abs_le] at bound
  omega

theorem mule_high (a b : Lanes) : spu_mule (fun k => a k * 2^16) (fun k => b k * 2^16) = fun k => a k * b k := by
  funext k
  simp only [spu_mule]
  rw [Int.mul_ediv_cancel _ (by decide),Int.mul_ediv_cancel _ (by decide)]

theorem mule_splat (a : Int) (b : Lanes) : spu_mule (spu_splats (a * 2^16)) (fun k => b k * 2^16) = fun k => a * b k :=
  mule_high (fun _ => a) b

theorem gradient_shift (a : Lanes) : spu_rlmaska (fun k => a k * 2^16) 3 = scaled 6 (fun k => 128 * a k) := by
  funext k
  simp only [spu_rlmaska,scaled]
  omega

theorem sub_high {a b : Lanes} (low : ∀ k, -32767 ≤ a k - b k) (high : ∀ k, a k - b k ≤ 32767) :
    spu_sub wrap32 (fun k => a k * 2^16) (fun k => b k * 2^16) = fun k => (a k - b k) * 2^16 := by
  funext k
  have := low k
  have := high k
  have same : a k * 2^16 - b k * 2^16 = (a k - b k) * 2^16 := by ring
  simp only [spu_sub,same]
  exact wrap32_exact (by omega) (by omega)

theorem cw_high (a : Lanes) : shuffle_tri_cw (fun k => a k * 2^16) = fun k => shuffle_tri_cw a k * 2^16 := by
  funext k
  match k with
  | 0 => rfl
  | 1 => rfl
  | 2 => rfl
  | 3 => rfl

theorem ccw_high (a : Lanes) : shuffle_tri_ccw (fun k => a k * 2^16) = fun k => shuffle_tri_ccw a k * 2^16 := by
  funext k
  match k with
  | 0 => rfl
  | 1 => rfl
  | 2 => rfl
  | 3 => rfl

-- The sum of the three products stays in a word at each step.
theorem total_exact {v : Fin 4 → Int × Int} (grid : ∀ i, OnGrid (v i)) (k : Fin 4) :
    spu_add wrap32 (spu_add wrap32 (shuffle_word_pad 0 fun i => (v i).1 * deltaX v i)
      (shuffle_word_pad 1 fun i => (v i).1 * deltaX v i)) (shuffle_word_pad 2 fun i => (v i).1 * deltaX v i) k =
      if k = 0 then edge (v 1) (v 2) (v 0) else 0 := by
  have product := fun i => product_range (grid i).1.1 (grid i).1.2 (delta_range grid i).1.1 (delta_range grid i).1.2
  have p0 := product 0
  have p1 := product 1
  have p2 := product 2
  have area : (v 0).1 * deltaX v 0 + (v 1).1 * deltaX v 1 + (v 2).1 * deltaX v 2 = edge (v 1) (v 2) (v 0) := by
    simp only [deltaX,shuffle_tri_cw,shuffle_tri_ccw,edge]; ring
  match k with
  | 0 =>
    simp only [spu_add,shuffle_word_pad,if_true]
    rw [wrap32_exact (x := (v 0).1 * deltaX v 0 + (v 1).1 * deltaX v 1) (by omega) (by omega),
      wrap32_exact (by omega) (by omega),area]
  | 1 => rfl
  | 2 => rfl
  | 3 => rfl

theorem offset_exact {v : Fin 4 → Int × Int} (grid : ∀ i, OnGrid (v i)) (k : Fin 4) :
    wrap32 ((v 0).1 * deltaX v k + (v 0).2 * deltaY v k) = (v 0).1 * deltaX v k + (v 0).2 * deltaY v k := by
  have delta := delta_range grid k
  have first := product_range (grid 0).1.1 (grid 0).1.2 delta.1.1 delta.1.2
  have second := product_range (grid 0).2.1 (grid 0).2.2 delta.2.1 delta.2.2
  exact wrap32_exact (by omega) (by omega)

-- The start value of lane k, from the total and the offset of the first vertex.
theorem area_lane (v : Fin 4 → Int × Int) (k : Fin 4) (edgeLane : k ≠ 3) :
    (if k = 0 then edge (v 1) (v 2) (v 0) else 0) - ((v 0).1 * deltaX v k + (v 0).2 * deltaY v k) = side v k (0,0) := by
  match k with
  | 0 => simp only [deltaX,deltaY,shuffle_tri_cw,shuffle_tri_ccw,edge,side,if_true]; ring
  | 1 => simp [deltaX,deltaY,shuffle_tri_cw,shuffle_tri_ccw,edge,side]; ring
  | 2 => simp [deltaX,deltaY,shuffle_tri_cw,shuffle_tri_ccw,edge,side]; ring
  | 3 => exact absurd rfl edgeLane

theorem imp_triangle_exact {TRIx TRIy : Lanes} (wordX : ∀ k, Word (TRIx k)) (wordY : ∀ k, Word (TRIy k)) :
    imp_triangle TRIx TRIy =
      if edge (vertex TRIx TRIy 1) (vertex TRIx TRIy 2) (vertex TRIx TRIy 0) < 0
      then some (exactTriangle (vertex TRIx TRIy)) else none := by
  have grid := vertex_grid wordX wordY
  have x_exact : clearLow (spu_add wrap32 (spu_rlmaska TRIx 1) (spu_splats (2^17))) =
      fun k => (vertex TRIx TRIy k).1 * 2^16 := funext fun k => rounded_exact (wordX k)
  have y_exact : clearLow (spu_add wrap32 (spu_rlmaska TRIy 1) (spu_splats (2^17))) =
      fun k => (vertex TRIx TRIy k).2 * 2^16 := funext fun k => rounded_exact (wordY k)
  unfold imp_triangle
  simp only [x_exact,y_exact]
  generalize vertex TRIx TRIy = v at grid
  have delta := delta_range grid
  have dy_exact : spu_sub wrap32 (shuffle_tri_cw fun k => (v k).1 * 2^16) (shuffle_tri_ccw fun k => (v k).1 * 2^16) =
      fun k => deltaY v k * 2^16 := by
    rw [cw_high,ccw_high]
    exact sub_high (fun k => (delta k).2.1) (fun k => (delta k).2.2)
  have dx_exact : spu_sub wrap32 (shuffle_tri_ccw fun k => (v k).2 * 2^16) (shuffle_tri_cw fun k => (v k).2 * 2^16) =
      fun k => deltaX v k * 2^16 := by
    rw [cw_high,ccw_high]
    exact sub_high (fun k => (delta k).1.1) (fun k => (delta k).1.2)
  have start : ∀ k, k ≠ 3 → wrap32 ((if k = 0 then edge (v 1) (v 2) (v 0) else 0) -
      ((v 0).1 * deltaX v k + (v 0).2 * deltaY v k)) = side v k (0,0) := by
    intro k edgeLane
    have word := side_word grid k (a := 0) (b := 0) (by decide) (by decide) (by decide) (by decide)
    rw [area_lane v k edgeLane,wrap32_exact word.1 word.2]
  simp only [dx_exact,dy_exact,mule_high (fun k => (v k).1),total_exact grid,gradient_shift,if_true]
  split
  · congr 2
    funext k
    by_cases edgeLane : k = 3
    · subst edgeLane; rfl
    · rw [Function.update_of_ne edgeLane]
      rw [mule_splat,mule_splat]
      simp only [spu_sub,total_exact grid]
      simp only [spu_add,offset_exact grid]
      exact start k edgeLane
  · rfl

theorem plane_exact (v : Fin 4 → Int × Int) (x y : Nat) (k : Fin 4) :
    planeAt (exactTriangle v).area (tileX v) (tileY v) x y k = side v k (128*x,128*y) := by
  have moved := side_step v k (0,0) (128*x) (128*y)
  simp only [Int.zero_add] at moved
  rw [moved]
  simp only [planeAt,exactTriangle,tileX,tileY]
  ring

theorem step_word (low : -32767 ≤ d) (high : d ≤ 32767) (inside : m ≤ 6) : wrap32 ((2:Int)^m * (128 * d)) = 2^m * (128 * d) := by
  have positive : (0:Int) < 2^m := Int.pow_pos (by decide)
  have most : (2:Int)^m ≤ 2^6 := pow_le_pow_right₀ (by decide) inside
  have up := mul_le_mul_of_nonneg_left (show 128*d ≤ 4194176 by omega) positive.le
  have down := mul_le_mul_of_nonneg_left (show -4194176 ≤ 128*d by omega) positive.le
  exact wrap32_exact (by omega) (by omega)

theorem exact_fits {v : Fin 4 → Int × Int} (grid : ∀ i, OnGrid (v i)) :
    Fits wrap32 6 (exactTriangle v).area (tileX v) (tileY v) where
  value := by
    intro k x y x_le y_le
    rw [plane_exact]
    have word := side_word grid k (a := 128*x) (b := 128*y) (by omega) (by omega) (by omega) (by omega)
    exact wrap32_exact word.1 word.2
  stepX := fun k _ inside => step_word (delta_range grid k).1.1 (delta_range grid k).1.2 inside
  stepY := fun k _ inside => step_word (delta_range grid k).2.1 (delta_range grid k).2.2 inside

end Spugl
