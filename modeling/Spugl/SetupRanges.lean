import Spugl.TileSearch

namespace Spugl
open EdgeFunction

-- The values of imp_triangle under their names, with the two products of offset.
structure Setup where
  x : Lanes
  y : Lanes
  dy : Lanes
  dx : Lanes
  total : Lanes
  offsetX : Lanes
  offsetY : Lanes
  offset : Lanes
  triA : Lanes

def setup (TRIx TRIy : Lanes) : Setup :=
  let x := clearLow (spu_add wrap32 (spu_rlmaska TRIx 1) (spu_splats (2^17)))
  let y := clearLow (spu_add wrap32 (spu_rlmaska TRIy 1) (spu_splats (2^17)))
  let dy := spu_sub wrap32 (shuffle_tri_cw x) (shuffle_tri_ccw x)
  let dx := spu_sub wrap32 (shuffle_tri_ccw y) (shuffle_tri_cw y)
  let total_v := spu_mule x dx
  let total := spu_add wrap32 (spu_add wrap32 (shuffle_word_pad 0 total_v) (shuffle_word_pad 1 total_v))
    (shuffle_word_pad 2 total_v)
  let offsetX := spu_mule (spu_splats (x 0)) dx
  let offsetY := spu_mule (spu_splats (y 0)) dy
  let offset := spu_add wrap32 offsetX offsetY
  ⟨x,y,dy,dx,total,offsetX,offsetY,offset,spu_sub wrap32 total offset⟩

-- The record that imp_triangle fills in has these values.
theorem imp_triangle_setup (TRIx TRIy : Lanes) : imp_triangle TRIx TRIy = if (setup TRIx TRIy).total 0 < 0 then
    some ⟨Function.update (setup TRIx TRIy).triA 3 (-1),spu_rlmaska (setup TRIx TRIy).dx 3,spu_rlmaska (setup TRIx TRIy).dy 3⟩
  else none := by
  unfold imp_triangle setup
  simp only

section
variable {TRIx TRIy : Lanes}

theorem setup_vertices (wordX : ∀ k, Word (TRIx k)) (wordY : ∀ k, Word (TRIy k)) :
    (setup TRIx TRIy).x = (fun k => (vertex TRIx TRIy k).1 * 2^16) ∧ (setup TRIx TRIy).y = fun k => (vertex TRIx TRIy k).2 * 2^16 :=
  ⟨funext fun k => rounded_exact (wordX k),funext fun k => rounded_exact (wordY k)⟩

theorem setup_differences (wordX : ∀ k, Word (TRIx k)) (wordY : ∀ k, Word (TRIy k)) :
    (setup TRIx TRIy).dx = (fun k => deltaX (vertex TRIx TRIy) k * 2^16) ∧
      (setup TRIx TRIy).dy = fun k => deltaY (vertex TRIx TRIy) k * 2^16 := by
  have delta := delta_range (vertex_grid wordX wordY)
  obtain ⟨x,y⟩ := setup_vertices wordX wordY
  constructor
  · have dx : (setup TRIx TRIy).dx = spu_sub wrap32 (shuffle_tri_ccw (setup TRIx TRIy).y) (shuffle_tri_cw (setup TRIx TRIy).y) := rfl
    rw [dx,y,cw_high,ccw_high]
    exact sub_high (fun k => (delta k).1.1) (fun k => (delta k).1.2)
  · have dy : (setup TRIx TRIy).dy = spu_sub wrap32 (shuffle_tri_cw (setup TRIx TRIy).x) (shuffle_tri_ccw (setup TRIx TRIy).x) := rfl
    rw [dy,x,cw_high,ccw_high]
    exact sub_high (fun k => (delta k).2.1) (fun k => (delta k).2.2)

theorem setup_total (wordX : ∀ k, Word (TRIx k)) (wordY : ∀ k, Word (TRIy k)) (k : Fin 4) : (setup TRIx TRIy).total k =
    if k = 0 then edge (vertex TRIx TRIy 1) (vertex TRIx TRIy 2) (vertex TRIx TRIy 0) else 0 := by
  have total : (setup TRIx TRIy).total = spu_add wrap32 (spu_add wrap32
      (shuffle_word_pad 0 (spu_mule (setup TRIx TRIy).x (setup TRIx TRIy).dx))
      (shuffle_word_pad 1 (spu_mule (setup TRIx TRIy).x (setup TRIx TRIy).dx)))
      (shuffle_word_pad 2 (spu_mule (setup TRIx TRIy).x (setup TRIx TRIy).dx)) := rfl
  rw [total,(setup_vertices wordX wordY).1,(setup_differences wordX wordY).1,mule_high fun k => (vertex TRIx TRIy k).1]
  exact total_exact (vertex_grid wordX wordY) k

theorem setup_products (wordX : ∀ k, Word (TRIx k)) (wordY : ∀ k, Word (TRIy k)) (k : Fin 4) :
    (setup TRIx TRIy).offsetX k = (vertex TRIx TRIy 0).1 * deltaX (vertex TRIx TRIy) k ∧
      (setup TRIx TRIy).offsetY k = (vertex TRIx TRIy 0).2 * deltaY (vertex TRIx TRIy) k := by
  obtain ⟨x,y⟩ := setup_vertices wordX wordY
  obtain ⟨dx,dy⟩ := setup_differences wordX wordY
  constructor
  · have offsetX : (setup TRIx TRIy).offsetX = spu_mule (spu_splats ((setup TRIx TRIy).x 0)) (setup TRIx TRIy).dx := rfl
    rw [offsetX,x,dx,mule_splat]
  · have offsetY : (setup TRIx TRIy).offsetY = spu_mule (spu_splats ((setup TRIx TRIy).y 0)) (setup TRIx TRIy).dy := rfl
    rw [offsetY,y,dy,mule_splat]

-- Both products, and their sum without the wrap.
theorem setup_offset (wordX : ∀ k, Word (TRIx k)) (wordY : ∀ k, Word (TRIy k)) (k : Fin 4) :
    Word ((setup TRIx TRIy).offsetX k) ∧ Word ((setup TRIx TRIy).offsetY k) ∧
      Word ((setup TRIx TRIy).offsetX k + (setup TRIx TRIy).offsetY k) ∧
      (setup TRIx TRIy).offset k = (setup TRIx TRIy).offsetX k + (setup TRIx TRIy).offsetY k := by
  have grid := vertex_grid wordX wordY
  have delta := delta_range grid k
  have first := product_range (grid 0).1.1 (grid 0).1.2 delta.1.1 delta.1.2
  have second := product_range (grid 0).2.1 (grid 0).2.2 delta.2.1 delta.2.2
  obtain ⟨offsetX,offsetY⟩ := setup_products wordX wordY k
  have sum : (setup TRIx TRIy).offset k = wrap32 ((setup TRIx TRIy).offsetX k + (setup TRIx TRIy).offsetY k) := rfl
  unfold Word
  rw [sum,offsetX,offsetY]
  exact ⟨by omega,by omega,by omega,wrap32_exact (by omega) (by omega)⟩

theorem setup_area (wordX : ∀ k, Word (TRIx k)) (wordY : ∀ k, Word (TRIy k)) (k : Fin 4) (edgeLane : k ≠ 3) :
    (setup TRIx TRIy).triA k = side (vertex TRIx TRIy) k (0,0) := by
  have word := side_word (vertex_grid wordX wordY) k (a := 0) (b := 0) (by decide) (by decide) (by decide) (by decide)
  have triA : (setup TRIx TRIy).triA k = wrap32 ((setup TRIx TRIy).total k - (setup TRIx TRIy).offset k) := rfl
  obtain ⟨offsetX,offsetY⟩ := setup_products wordX wordY k
  rw [triA,setup_total wordX wordY,(setup_offset wordX wordY k).2.2.2,offsetX,offsetY,area_lane _ k edgeLane]
  exact wrap32_exact word.1 word.2

-- The three lanes add up to the area wherever they are taken.
theorem side_sum (v : Fin 4 → Int × Int) (z : Int × Int) : side v 0 z + side v 1 z + side v 2 z = edge (v 1) (v 2) (v 0) := by
  simp only [side,edge]
  ring

-- The corners that a square of the walk tests.
theorem corners_word {v : Fin 4 → Int × Int} (grid : ∀ i, OnGrid (v i)) {s : Square}
    (within : Square.Within wrap32 (rootSquare (exactTriangle v)) s) (k : Fin 4) :
    Word (s.A k) ∧ Word (s.A k + s.Adx k) ∧ Word (s.A k + s.Ady k) ∧ Word (s.A k + s.Adx k + s.Ady k) := by
  rw [root_tile] at within
  obtain ⟨m,x,y,base,o,rfl,inX,inY⟩ := within_tile (exact_fits grid) (by decide) (by decide) within
  have corner (x y : Nat) (x_le : x ≤ 64) (y_le : y ≤ 64) : Word (planeAt (exactTriangle v).area (tileX v) (tileY v) x y k) := by
    rw [plane_exact]
    exact side_word grid k (by omega) (by omega) (by omega) (by omega)
  have positive : 0 < 2^m := Nat.pow_pos (by decide)
  simp only [tileSquare,planeAt_x,planeAt_y]
  exact ⟨corner _ _ (by omega) (by omega),corner _ _ (by omega) (by omega),corner _ _ (by omega) (by omega),
    corner _ _ (by omega) (by omega)⟩

theorem Word.exact (word : Word a) : wrap32 a = a := wrap32_exact word.1 word.2

-- So that the test is the one of the integers.
theorem outside_true_sign {s : Square} (words : ∀ k, Word (s.A k) ∧ Word (s.A k + s.Adx k) ∧ Word (s.A k + s.Ady k) ∧
    Word (s.A k + s.Adx k + s.Ady k)) : s.outside wrap32 = s.outside id := by
  have right : spu_add wrap32 s.A s.Adx = spu_add id s.A s.Adx := funext fun k => (words k).2.1.exact
  have below : spu_add wrap32 s.A s.Ady = spu_add id s.A s.Ady := funext fun k => (words k).2.2.1.exact
  have both : spu_add wrap32 (spu_add id s.A s.Adx) s.Ady = spu_add id (spu_add id s.A s.Adx) s.Ady :=
    funext fun k => (words k).2.2.2.exact
  unfold Square.outside outside
  simp only [right,below,both]

-- Nothing that the setup or the walks look at is cut off.
theorem setup_no_overflow (wordX : ∀ k, Word (TRIx k)) (wordY : ∀ k, Word (TRIy k)) :
    (imp_triangle TRIx TRIy = if (setup TRIx TRIy).total 0 < 0 then
      some ⟨Function.update (setup TRIx TRIy).triA 3 (-1),spu_rlmaska (setup TRIx TRIy).dx 3,spu_rlmaska (setup TRIx TRIy).dy 3⟩
      else none) ∧
    (∀ k, (setup TRIx TRIy).x k / 2^16 = (vertex TRIx TRIy k).1 ∧ (setup TRIx TRIy).y k / 2^16 = (vertex TRIx TRIy k).2 ∧
      (setup TRIx TRIy).dx k / 2^16 = deltaX (vertex TRIx TRIy) k ∧ (setup TRIx TRIy).dy k / 2^16 = deltaY (vertex TRIx TRIy) k) ∧
    (setup TRIx TRIy).total 0 = edge (vertex TRIx TRIy 1) (vertex TRIx TRIy 2) (vertex TRIx TRIy 0) ∧
    (∀ k, k ≠ 3 → (setup TRIx TRIy).triA k = side (vertex TRIx TRIy) k (0,0)) ∧
    (setup TRIx TRIy).triA 0 + (setup TRIx TRIy).triA 1 + (setup TRIx TRIy).triA 2 = (setup TRIx TRIy).total 0 ∧
    (∀ k, Word ((setup TRIx TRIy).offsetX k) ∧ Word ((setup TRIx TRIy).offsetY k) ∧
      Word ((setup TRIx TRIy).offsetX k + (setup TRIx TRIy).offsetY k) ∧
      (setup TRIx TRIy).offset k = (setup TRIx TRIy).offsetX k + (setup TRIx TRIy).offsetY k) ∧
    ∀ triangle, imp_triangle TRIx TRIy = some triangle → ∀ s, Square.Within wrap32 (rootSquare triangle) s →
      (∀ k, Word (s.A k) ∧ Word (s.A k + s.Adx k) ∧ Word (s.A k + s.Ady k) ∧ Word (s.A k + s.Adx k + s.Ady k)) ∧
      s.outside wrap32 = s.outside id := by
  have grid := vertex_grid wordX wordY
  obtain ⟨x,y⟩ := setup_vertices wordX wordY
  obtain ⟨dx,dy⟩ := setup_differences wordX wordY
  refine ⟨imp_triangle_setup TRIx TRIy,?_,setup_total wordX wordY 0,setup_area wordX wordY,?_,setup_offset wordX wordY,?_⟩
  · intro k
    rw [x,y,dx,dy]
    simp only [Int.mul_ediv_cancel _ (show (2:Int)^16 ≠ 0 by decide)]
    exact ⟨trivial,trivial,trivial,trivial⟩
  · rw [setup_area wordX wordY 0 (by decide),setup_area wordX wordY 1 (by decide),setup_area wordX wordY 2 (by decide),side_sum]
    exact (setup_total wordX wordY 0).symm
  · intro triangle accepted s within
    rw [imp_triangle_exact wordX wordY] at accepted
    split at accepted
    · obtain rfl := Option.some.inj accepted
      have words := corners_word grid within
      exact ⟨words,outside_true_sign words⟩
    · cases accepted

theorem setup_no_overflow_wide : (setup wideX wideY).total 0 = edge (vertex wideX wideY 1) (vertex wideX wideY 2) (vertex wideX wideY 0) ∧
    ∀ k, Word ((rootSquare (exactTriangle (vertex wideX wideY))).A k) := by
  obtain ⟨_,_,total,_,_,_,corners⟩ := setup_no_overflow wide_words.1 wide_words.2
  exact ⟨total,fun k => ((corners _ wide_accepted _ .self).1 k).1⟩

end
end Spugl
