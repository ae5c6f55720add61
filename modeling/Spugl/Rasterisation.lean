import Spugl.PixelCoverage

namespace Spugl
open EdgeFunction HilbertWalk

def blocksToProcess (triangle : Triangle) (limit : Nat × Nat) (firstTile chunkEnd : Nat) : Nat → Option Leaf :=
  subdivide wrap32 7 triangle.area triangle.area_dx triangle.area_dy (0,0) 64 0 (fun k => 4096*(k.val+1)) (false,false)
    firstTile (chunkEnd+1) limit (fun _ => none)

-- A block is read and written back line by line, 32 pixels to a line.
def blockPixel (leaf : Leaf) (w : Nat) : Nat × Nat := (32*leaf.coordx + w % 32,32*leaf.coordy + w / 32)

def paintBlock (hdx hdy : Lanes) : Option Leaf → List (Nat × Nat)
  | some leaf => (maskRenderFunc leaf.A hdx hdy).map (blockPixel leaf)
  | none => []

-- The pixels that get the colour, block by block. limit is (maxBlockX,maxBlockY).
def processTriangleChunks (triangle : Triangle) (limit : Nat × Nat) (firstTile chunkEnd : Nat) : List (Nat × Nat) :=
  let hdx := spu_rlmaska triangle.area_dx 6
  let hdy := spu_rlmaska triangle.area_dy 6
  (List.range 32).flatMap fun block => paintBlock hdx hdy (blocksToProcess triangle limit firstTile chunkEnd block)

-- The sample point of a pixel against the three edges, over the integers.
def Covers (v : Fin 4 → Int × Int) (px py : Nat) : Prop :=
  edge (v 1) (v 2) (4*(px : Int),4*(py : Int)) < 0 ∧ edge (v 2) (v 0) (4*(px : Int),4*(py : Int)) < 0 ∧
    edge (v 0) (v 1) (4*(px : Int),4*(py : Int)) < 0

instance (v : Fin 4 → Int × Int) (px py : Nat) : Decidable (Covers v px py) := inferInstanceAs (Decidable (_ ∧ _))

def tileNumber (px py : Nat) : Nat := index 6 (false,false) (px / 32) (py / 32)

-- Inside the frame and inside the walk, which has 64 by 64 tiles.
def OnScreen (limit : Nat × Nat) (px py : Nat) : Prop :=
  (px < 32*(limit.1+1) ∧ px < 2048) ∧ py < 32*(limit.2+1) ∧ py < 2048

theorem covers_sides (v : Fin 4 → Int × Int) (px py : Nat) :
    Covers v px py ↔ ∀ e : Fin 3, side v e.castSucc (4*px,4*py) < 0 := by
  constructor
  · intro covers e
    obtain ⟨first,second,third⟩ := covers
    match e with
    | 0 => exact first
    | 1 => exact second
    | 2 => exact third
  · intro sides
    exact ⟨sides 0,sides 1,sides 2⟩

section
variable {v : Fin 4 → Int × Int} {limit : Nat × Nat} {x y w : Nat}

theorem pixel_side (v : Fin 4 → Int × Int) (x y w : Nat) (k : Fin 4) :
    side v k (4*(32*x + w % 32 : Nat),4*(32*y + w / 32 : Nat)) =
      planeAt (exactTriangle v).area (tileX v) (tileY v) x y k + 4*(w % 32 : Nat) * deltaX v k + 4*(w / 32 : Nat) * deltaY v k := by
  have moved := side_step v k (128*x,128*y) (4*(w % 32 : Nat)) (4*(w / 32 : Nat))
  have place : ((4*(32*x + w % 32 : Nat) : Int),(4*(32*y + w / 32 : Nat) : Int)) =
      ((128*x : Int) + 4*(w % 32 : Nat),(128*y : Int) + 4*(w / 32 : Nat)) := by
    apply Prod.ext
    · push_cast; ring
    · push_cast; ring
  rw [place,moved,plane_exact]

-- The shader works in steps of a pixel where the walk took steps of a tile.
theorem valueAt_side (v : Fin 4 → Int × Int) (x y w : Nat) (e : Fin 3) :
    valueAt (planeAt (exactTriangle v).area (tileX v) (tileY v) x y) (tileX v) (tileY v) e w =
      side v e.castSucc (4*(32*x + w % 32 : Nat),4*(32*y + w / 32 : Nat)) := by
  have stepX : tileX v e.castSucc / 2^5 = 4 * deltaX v e.castSucc := by simp only [tileX]; omega
  have stepY : tileY v e.castSucc / 2^5 = 4 * deltaY v e.castSucc := by simp only [tileY]; omega
  rw [pixel_side]
  simp only [valueAt,stepX,stepY]
  ring

theorem negative_exact (grid : ∀ i, OnGrid (v i)) (x_lt : x < 64) (y_lt : y < 64) (w_lt : w < 1024) :
    negative (planeAt (exactTriangle v).area (tileX v) (tileY v) x y) (tileX v) (tileY v) w = true ↔
      Covers v (32*x + w % 32) (32*y + w / 32) := by
  have unwrapped : ∀ e : Fin 3, wrap32 (side v e.castSucc (4*(32*x + w % 32 : Nat),4*(32*y + w / 32 : Nat))) =
      side v e.castSucc (4*(32*x + w % 32 : Nat),4*(32*y + w / 32 : Nat)) := by
    intro e
    have word := side_word grid e.castSucc (a := 4*(32*x + w % 32 : Nat)) (b := 4*(32*y + w / 32 : Nat)) (by omega) (by omega)
      (by omega) (by omega)
    exact wrap32_exact word.1 word.2
  rw [covers_sides]
  simp only [negative,decide_eq_true_eq,valueAt_side,unwrapped]

theorem tile_inside {k : Fin 4} (w_lt : w < 1024)
    (one : 0 ≤ planeAt (exactTriangle v).area (tileX v) (tileY v) x y k)
    (two : 0 ≤ planeAt (exactTriangle v).area (tileX v) (tileY v) (x+2^0) y k)
    (three : 0 ≤ planeAt (exactTriangle v).area (tileX v) (tileY v) x (y+2^0) k)
    (four : 0 ≤ planeAt (exactTriangle v).area (tileX v) (tileY v) (x+2^0) (y+2^0) k) :
    0 ≤ side v k (4*(32*x + w % 32 : Nat),4*(32*y + w / 32 : Nat)) := by
  rw [pixel_side]
  rw [← planeAt_x] at two
  rw [← planeAt_y] at three
  rw [← planeAt_y,← planeAt_x] at four
  simp only [scaled,tileX,tileY,pow_zero,Int.one_mul] at two three four
  exact corners_inside (c := 128) (by omega) (by omega) (by omega) (by omega) one two three four

-- A pixel that is covered keeps its tile in the walk.
theorem covered_inside (grid : ∀ i, OnGrid (v i)) (x_lt : x < 64) (y_lt : y < 64) (w_lt : w < 1024)
    (covers : Covers v (32*x + w % 32) (32*y + w / 32)) :
    outside wrap32 (planeAt (exactTriangle v).area (tileX v) (tileY v) x y) (scaled 0 (tileX v)) (scaled 0 (tileY v)) = false := by
  rw [Bool.eq_false_iff]
  intro gone
  obtain ⟨k,one,two,three,four⟩ := ((exact_fits grid).outside_exact (by omega) (by omega)).mp gone
  have above := tile_inside w_lt one two three four
  have sides := (covers_sides _ _ _).mp covers
  match k with
  | 0 => exact absurd (sides 0) (not_lt.mpr above)
  | 1 => exact absurd (sides 1) (not_lt.mpr above)
  | 2 => exact absurd (sides 2) (not_lt.mpr above)
  | 3 => exact absurd above (by simp [side])

end

section
variable {v : Fin 4 → Int × Int} {limit : Nat × Nat} {firstTile chunkEnd block : Nat}

theorem blocks_exact (grid : ∀ i, OnGrid (v i)) (last : chunkEnd < 4096) (inside : firstTile + block < 4096) :
    blocksToProcess (exactTriangle v) limit firstTile chunkEnd block =
      if drawn wrap32 (exactTriangle v).area (tileX v) (tileY v) limit (chunkEnd+1) (firstTile + block)
        (cell 6 (false,false) (firstTile + block))
      then some (leafAt (exactTriangle v).area (tileX v) (tileY v) (cell 6 (false,false) (firstTile + block))) else none := by
  have origin : planeAt (exactTriangle v).area (tileX v) (tileY v) 0 0 = (exactTriangle v).area := by
    funext k
    simp [planeAt]
  have hit : subdivide wrap32 7 (planeAt (exactTriangle v).area (tileX v) (tileY v) 0 0) (scaled 6 (tileX v)) (scaled 6 (tileY v))
      (0,0) (2^6) 0 (fun k => 4^6 * (k+1)) (false,false) firstTile (chunkEnd+1) limit (fun _ => none) block = _ :=
    subdivide_hit (j := firstTile + block) (exact_fits grid) (by decide) (by decide) (by decide) (by omega) (by omega) inside
      (by omega) _
  simp only [Nat.zero_add,origin] at hit
  exact hit

theorem blocks_beyond (grid : ∀ i, OnGrid (v i)) (beyond : 4096 ≤ firstTile + block) :
    blocksToProcess (exactTriangle v) limit firstTile chunkEnd block = none := by
  have origin : planeAt (exactTriangle v).area (tileX v) (tileY v) 0 0 = (exactTriangle v).area := by
    funext k
    simp [planeAt]
  have miss : subdivide wrap32 7 (planeAt (exactTriangle v).area (tileX v) (tileY v) 0 0) (scaled 6 (tileX v)) (scaled 6 (tileY v))
      (0,0) (2^6) 0 (fun k => 4^6 * (k+1)) (false,false) firstTile (chunkEnd+1) limit (fun _ => none) block = _ :=
    subdivide_miss (exact_fits grid) (by decide) (by decide) block (fun j less => by omega) _
  simp only [origin] at miss
  exact miss

theorem blockPixel_tile (leaf : Leaf) (w_lt : w < 1024) :
    (blockPixel leaf w).1 / 32 = leaf.coordx ∧ (blockPixel leaf w).2 / 32 = leaf.coordy := by
  simp only [blockPixel]
  omega

theorem blockPixel_injective (leaf : Leaf) : Function.Injective (blockPixel leaf) := by
  intro w w' same
  simp only [blockPixel,Prod.mk.injEq] at same
  omega

theorem paintBlock_mem (grid : ∀ i, OnGrid (v i)) {c : Nat × Nat} (x_lt : c.1 < 64) (y_lt : c.2 < 64) (px py : Nat) :
    (px,py) ∈ paintBlock (tileX v) (tileY v) (some (leafAt (exactTriangle v).area (tileX v) (tileY v) c)) ↔
      px / 32 = c.1 ∧ py / 32 = c.2 ∧ Covers v px py := by
  simp only [paintBlock,maskRenderFunc_exact,List.mem_map,List.mem_filter,List.mem_range]
  constructor
  · intro found
    obtain ⟨w,⟨w_lt,below⟩,place⟩ := found
    have tile := blockPixel_tile (leafAt (exactTriangle v).area (tileX v) (tileY v) c) w_lt
    rw [place] at tile
    simp only [blockPixel,leafAt,Prod.mk.injEq] at place
    have covers := (negative_exact grid x_lt y_lt w_lt).mp below
    rw [place.1,place.2] at covers
    exact ⟨tile.1,tile.2,covers⟩
  · intro facts
    obtain ⟨column,line,covers⟩ := facts
    have w_lt : px % 32 + 32*(py % 32) < 1024 := by omega
    have first : 32*c.1 + (px % 32 + 32*(py % 32)) % 32 = px := by omega
    have second : 32*c.2 + (px % 32 + 32*(py % 32)) / 32 = py := by omega
    refine ⟨px % 32 + 32*(py % 32),⟨w_lt,(negative_exact grid x_lt y_lt w_lt).mpr ?_⟩,?_⟩
    · rwa [first,second]
    · exact Prod.ext first second

-- What one block of a range gets: the covered pixels of its tile.
theorem block_mem (grid : ∀ i, OnGrid (v i)) (last : chunkEnd < 4096) (px py : Nat) :
    (px,py) ∈ paintBlock (tileX v) (tileY v) (blocksToProcess (exactTriangle v) limit firstTile chunkEnd block) ↔
      tileNumber px py = firstTile + block ∧ firstTile + block ≤ chunkEnd ∧ OnScreen limit px py ∧ Covers v px py := by
  by_cases inside : firstTile + block < 4096
  · rw [blocks_exact grid last inside]
    have less := cell_lt 6 (false,false) (firstTile + block)
    have number := index_cell (n := 6) (o := (false,false)) (b := firstTile + block) inside
    generalize at_ : cell 6 (false,false) (firstTile + block) = c at less number
    have same : tileNumber px py = firstTile + block → px < 2048 → py < 2048 → px / 32 = c.1 ∧ py / 32 = c.2 := by
      intro tile px_lt py_lt
      have back := cell_index (n := 6) (o := (false,false)) (x := px / 32) (y := py / 32) (by omega) (by omega)
      unfold tileNumber at tile
      rw [tile,at_] at back
      rw [back]
      exact ⟨rfl,rfl⟩
    constructor
    · intro painted
      split at painted
      · rename_i kept
        obtain ⟨column,line,covers⟩ := (paintBlock_mem grid less.1 less.2 px py).mp painted
        have range : (firstTile + block : Nat) < (chunkEnd : Int) + 1 ∧ ¬(limit.1 < c.1 ∨ limit.2 < c.2) := by
          simp only [drawn,Bool.and_eq_true,decide_eq_true_eq,Bool.not_eq_true',decide_eq_false_iff_not] at kept
          exact kept.1
        refine ⟨?_,by omega,?_,covers⟩
        · rw [tileNumber,column,line,number]
        · unfold OnScreen; omega
      · exact absurd painted (by simp [paintBlock])
    · intro facts
      obtain ⟨tile,range,screen,covers⟩ := facts
      unfold OnScreen at screen
      obtain ⟨column,line⟩ := same tile screen.1.2 screen.2.2
      have w_lt : px % 32 + 32*(py % 32) < 1024 := by omega
      have first : 32*c.1 + (px % 32 + 32*(py % 32)) % 32 = px := by omega
      have second : 32*c.2 + (px % 32 + 32*(py % 32)) / 32 = py := by omega
      have seen := covered_inside grid less.1 less.2 w_lt (by rwa [first,second])
      have kept : drawn wrap32 (exactTriangle v).area (tileX v) (tileY v) limit (chunkEnd+1) (firstTile + block) c = true := by
        have below : ((firstTile + block : Nat) : Int) < chunkEnd + 1 := by omega
        have frame : ¬(limit.1 < c.1 ∨ limit.2 < c.2) := by omega
        simp only [drawn,seen,below,frame,decide_true,decide_false,Bool.not_false,Bool.and_true]
      rw [if_pos kept]
      exact (paintBlock_mem grid less.1 less.2 px py).mpr ⟨column,line,covers⟩
  · rw [blocks_beyond grid (by omega)]
    constructor
    · intro painted
      exact absurd painted (by simp [paintBlock])
    · intro facts
      omega

theorem block_nodup (leaf : Option Leaf) (hdx hdy : Lanes) : (paintBlock hdx hdy leaf).Nodup := by
  cases leaf with
  | none => exact List.nodup_nil
  | some leaf =>
    simp only [paintBlock,maskRenderFunc_exact]
    exact (List.nodup_range.filter _).map (blockPixel_injective leaf)

theorem tile_steps (a : Lanes) : spu_rlmaska (scaled 6 a) 6 = a := by
  funext k
  simp only [spu_rlmaska,scaled]
  omega

theorem chunk_mem (grid : ∀ i, OnGrid (v i)) (short : chunkEnd < firstTile + 16) (last : chunkEnd < 4096) (px py : Nat) :
    (px,py) ∈ processTriangleChunks (exactTriangle v) limit firstTile chunkEnd ↔
      (firstTile ≤ tileNumber px py ∧ tileNumber px py ≤ chunkEnd) ∧ OnScreen limit px py ∧ Covers v px py := by
  simp only [processTriangleChunks,List.mem_flatMap,List.mem_range]
  constructor
  · intro painted
    obtain ⟨block,_,member⟩ := painted
    simp only [exactTriangle,tile_steps] at member
    obtain ⟨tile,range,facts⟩ := (block_mem grid last px py).mp member
    exact ⟨by omega,facts⟩
  · intro facts
    obtain ⟨range,rest⟩ := facts
    refine ⟨tileNumber px py - firstTile,by omega,?_⟩
    simp only [exactTriangle,tile_steps]
    exact (block_mem grid last px py).mpr ⟨by omega,by omega,rest⟩

theorem chunk_nodup (grid : ∀ i, OnGrid (v i)) (last : chunkEnd < 4096) :
    (processTriangleChunks (exactTriangle v) limit firstTile chunkEnd).Nodup := by
  unfold processTriangleChunks
  rw [List.nodup_flatMap]
  constructor
  · intro block _
    exact block_nodup _ _ _
  · apply List.nodup_range.imp
    intro block block' other p first second
    simp only [exactTriangle,tile_steps] at first second
    have here := ((block_mem grid last p.1 p.2).mp first).1
    have there := ((block_mem grid last p.1 p.2).mp second).1
    omega

end

-- The tiles shared out: ranges of at most 16 tiles, each tile in one of them.
structure Covering (ranges : List (Nat × Nat)) : Prop where
  apart : ranges.Pairwise fun r r' => r.2 < r'.1 ∨ r'.2 < r.1
  sized : ∀ r ∈ ranges, r.1 ≤ r.2 ∧ r.2 < r.1 + 16 ∧ r.2 < 4096
  whole : ∀ tile, tile < 4096 → ∃ r ∈ ranges, r.1 ≤ tile ∧ tile ≤ r.2

def paint (triangle : Triangle) (limit : Nat × Nat) (ranges : List (Nat × Nat)) : List (Nat × Nat) :=
  ranges.flatMap fun r => processTriangleChunks triangle limit r.1 r.2

section
variable {v : Fin 4 → Int × Int} {limit : Nat × Nat} {ranges : List (Nat × Nat)}

theorem paint_mem (grid : ∀ i, OnGrid (v i)) (cover : Covering ranges) (px py : Nat) :
    (px,py) ∈ paint (exactTriangle v) limit ranges ↔ OnScreen limit px py ∧ Covers v px py := by
  simp only [paint,List.mem_flatMap]
  constructor
  · intro painted
    obtain ⟨r,listed,member⟩ := painted
    have sized := cover.sized r listed
    exact ((chunk_mem grid sized.2.1 sized.2.2 px py).mp member).2
  · intro facts
    obtain ⟨r,listed,range⟩ := cover.whole (tileNumber px py) (index_lt 6 _ _ _)
    have sized := cover.sized r listed
    exact ⟨r,listed,(chunk_mem grid sized.2.1 sized.2.2 px py).mpr ⟨range,facts⟩⟩

theorem paint_nodup (grid : ∀ i, OnGrid (v i)) (cover : Covering ranges) :
    (paint (exactTriangle v) limit ranges).Nodup := by
  unfold paint
  rw [List.nodup_flatMap]
  constructor
  · intro r listed
    exact chunk_nodup grid (cover.sized r listed).2.2
  · apply cover.apart.imp_of_mem
    intro r r' listed listed' apart p first second
    have size := cover.sized r listed
    have size' := cover.sized r' listed'
    have here := ((chunk_mem grid size.2.1 size.2.2 p.1 p.2).mp first).1
    have there := ((chunk_mem grid size'.2.1 size'.2.2 p.1 p.2).mp second).1
    omega

theorem accepted_exact {TRIx TRIy : Lanes} (wordX : ∀ k, Word (TRIx k)) (wordY : ∀ k, Word (TRIy k))
    (accepted : imp_triangle TRIx TRIy = some triangle) :
    triangle = exactTriangle (vertex TRIx TRIy) ∧
      edge (vertex TRIx TRIy 1) (vertex TRIx TRIy 2) (vertex TRIx TRIy 0) < 0 := by
  rw [imp_triangle_exact wordX wordY] at accepted
  split at accepted
  · rename_i turned
    exact ⟨(Option.some.inj accepted).symm,turned⟩
  · cases accepted

-- A conversion result that is rounded to a given quarter pixel.
def wordAt (q : Int) : Int := (q - 2) * 2^17

def sixteens : List (Nat × Nat) := (List.range 256).map fun i => (16*i,16*i + 15)

theorem sixteens_covering : Covering sixteens where
  apart := by
    unfold sixteens
    rw [List.pairwise_map]
    apply List.pairwise_lt_range.imp
    intro i j less
    omega
  sized := by
    intro r listed
    simp only [sixteens,List.mem_map,List.mem_range] at listed
    obtain ⟨i,less,rfl⟩ := listed
    omega
  whole := by
    intro tile less
    refine ⟨(16*(tile/16),16*(tile/16) + 15),?_,by omega⟩
    simp only [sixteens,List.mem_map,List.mem_range]
    exact ⟨tile/16,by omega,rfl⟩

-- The painted pixels are those on the screen whose sample point all three edges
-- hold negative, and each is painted once.
theorem pixels_exact {TRIx TRIy : Lanes} (wordX : ∀ k, Word (TRIx k)) (wordY : ∀ k, Word (TRIy k))
    (accepted : imp_triangle TRIx TRIy = some triangle) (cover : Covering ranges) (limit : Nat × Nat) :
    (paint triangle limit ranges).Nodup ∧
      ∀ px py, (px,py) ∈ paint triangle limit ranges ↔ OnScreen limit px py ∧ Covers (vertex TRIx TRIy) px py := by
  obtain ⟨rfl,_⟩ := accepted_exact wordX wordY accepted
  have grid := vertex_grid wordX wordY
  exact ⟨paint_nodup grid cover,paint_mem grid cover⟩

-- A large triangle at the origin.
def wideX : Lanes := vec_int4 (wordAt (-100)) (wordAt 16000) (wordAt (-100)) 0
def wideY : Lanes := vec_int4 (wordAt (-100)) (wordAt (-100)) (wordAt 16000) 0

theorem wide_words : (∀ k, Word (wideX k)) ∧ ∀ k, Word (wideY k) := by decide

theorem wide_accepted : imp_triangle wideX wideY = some (exactTriangle (vertex wideX wideY)) := by
  rw [imp_triangle_exact wide_words.1 wide_words.2]
  exact if_pos (by decide)

theorem pixels_exact_wide : (paint (exactTriangle (vertex wideX wideY)) (63,63) sixteens).Nodup ∧
    (2047,1000) ∈ paint (exactTriangle (vertex wideX wideY)) (63,63) sixteens :=
  have painted := pixels_exact wide_words.1 wide_words.2 wide_accepted sixteens_covering (63,63)
  ⟨painted.1,(painted.2 2047 1000).mpr ⟨by unfold OnScreen; decide,by decide⟩⟩

-- The walk has 64 tiles a side, so the tile column 64 of a wider frame is left out.
theorem pixels_not_everywhere : ¬∀ (TRIx TRIy : Lanes) (triangle : Triangle) (ranges : List (Nat × Nat)) (limit : Nat × Nat),
    (∀ k, Word (TRIx k)) → (∀ k, Word (TRIy k)) → imp_triangle TRIx TRIy = some triangle → Covering ranges →
    ∀ px py, px < 32*(limit.1+1) → py < 32*(limit.2+1) →
      ((px,py) ∈ paint triangle limit ranges ↔ Covers (vertex TRIx TRIy) px py) := by
  intro claim
  have wide := claim wideX wideY _ sixteens (64,0) wide_words.1 wide_words.2 wide_accepted sixteens_covering 2048 0 (by decide)
    (by decide)
  have painted := wide.mpr (by decide)
  have screen := ((paint_mem (vertex_grid wide_words.1 wide_words.2) sixteens_covering 2048 0).mp painted).1
  exact absurd screen.1.2 (by decide)

end
end Spugl
