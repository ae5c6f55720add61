import Spugl.RenderSystem
import Spugl.TileBuffers

namespace Spugl
open HilbertWalk WriteBack

-- A tile of the frame by its number.
def PixelTiles.tileAt (cache : PixelTiles) (tile : Nat) : Pixels (BitVec 64) := cache.tile (cell 6 (false,false) tile)

def PixelTiles.shows (cache : PixelTiles) (tile : Nat) : Prop := cache.inFrame (cell 6 (false,false) tile) ∧ tile < 4096

instance (triangle : Triangle) (tile : Nat) : Decidable (Passes triangle tile) := by
  unfold Passes
  infer_instance

-- The tiles that findFirstTriangleTile stops at.
def ShadedTriangle.covers (t : ShadedTriangle P α) (tile : Nat) : Bool := decide (Passes t.triangle tile)

-- The A value of a tile, as subdivide leaves it in the A array.
def ShadedTriangle.tileA (t : ShadedTriangle P α) (tile : Nat) : Lanes :=
  let c := cell 6 (false,false) tile
  planeAt t.triangle.area (spu_rlmaska t.triangle.area_dx 6) (spu_rlmaska t.triangle.area_dy 6) c.1 c.2

-- What a triangle makes of the pixels of a tile.
def ShadedTriangle.paint (t : ShadedTriangle P α) (tile : Nat) (pixels : Pixels α) : Pixels α :=
  if t.covers tile then t.render (t.tileA tile) pixels else pixels

-- The picture without chunks, buffers or more than one SPU: the triangles one behind the other, each on all tiles.
def PixelTiles.paintAll (cache : PixelTiles) (triangles : List (ShadedTriangle P α)) (memory : BitVec 64 → α) : BitVec 64 → α :=
  triangles.foldl (cache.drawTriangle 0 4095) memory

-- A record that imp_triangle has filled in.
def ShadedTriangle.Drawable (t : ShadedTriangle P α) : Prop :=
  ∃ TRIx TRIy, (∀ k, Word (TRIx k)) ∧ (∀ k, Word (TRIy k)) ∧ imp_triangle TRIx TRIy = some t.triangle

section
variable {cache : PixelTiles} {t : ShadedTriangle P α} {memory : BitVec 64 → α} {firstTile chunkEnd tile : Nat}

theorem ShadedTriangle.Drawable.grid (drawable : t.Drawable) : ∃ v, (∀ i, OnGrid (v i)) ∧ t.triangle = exactTriangle v := by
  obtain ⟨TRIx,TRIy,wordX,wordY,accepted⟩ := drawable
  rw [imp_triangle_exact wordX wordY] at accepted
  split at accepted
  · exact ⟨_,vertex_grid wordX wordY,(Option.some.inj accepted).symm⟩
  · cases accepted

-- The search that the scheduler abstracts from is that of the source.
theorem ShadedTriangle.Drawable.search (drawable : t.Drawable) (ordered : chunkStart ≤ chunkEnd) (bounded : chunkEnd < 4096) (next : τ) :
    t.triangle.findFirstTriangleTile chunkStart chunkEnd =
      (Spugl.findFirstTriangleTile ⟨t.covers,next⟩ chunkStart chunkEnd).elim (-1) (fun tile => (tile : Int)) := by
  obtain ⟨v,grid,same⟩ := drawable.grid
  have covers (tile : Nat) : t.covers tile = true ↔ Passes (exactTriangle v) tile := by
    unfold ShadedTriangle.covers
    rw [decide_eq_true_eq,same]
  have exact_ := findFirst_exact grid ordered bounded
  rw [← same] at exact_ covers
  cases scan : Spugl.findFirstTriangleTile ⟨t.covers,next⟩ chunkStart chunkEnd with
  | none =>
    rcases exact_ with ⟨b,_,⟨range,passes⟩,_⟩ | ⟨none,_⟩
    · have missed : t.covers b = false := findFirst_none scan range.1 range.2
      rw [(covers b).mpr passes] at missed
      cases missed
    · exact none
  | some b =>
    obtain ⟨low,high,hit,before⟩ := findFirst_some scan
    rcases exact_ with ⟨b',found,⟨range,passes⟩,least⟩ | ⟨_,nowhere⟩
    · rw [found]
      have upper := least b low high ((covers b).mp hit)
      rcases Nat.lt_or_eq_of_le upper with less | equal
      · have missed : t.covers b' = false := before b' range.1 less
        rw [(covers b').mpr passes] at missed
        cases missed
      · exact congrArg Int.ofNat equal
    · exact absurd ((covers b).mp hit) (nowhere b low high)

-- The entry that subdivide leaves for a tile of the chunk.
theorem blocks_tile (drawable : t.Drawable) (shown : cache.shows tile) (low : firstTile ≤ tile) (high : tile ≤ chunkEnd)
    (bounded : chunkEnd < 4096) : t.blocks cache firstTile chunkEnd (tile - firstTile) =
      if t.covers tile then some ⟨(cell 6 (false,false) tile).1,(cell 6 (false,false) tile).2,t.tileA tile⟩ else none := by
  obtain ⟨v,grid,same⟩ := drawable.grid
  have number : firstTile + (tile - firstTile) = tile := Nat.add_sub_cancel' low
  have inside : firstTile + (tile - firstTile) < 4096 := by
    rw [number]
    exact shown.2
  have less : (tile : Int) < (chunkEnd : Int) + 1 := by omega
  have visible : ¬(cache.limit.1 < (cell 6 (false,false) tile).1 ∨ cache.limit.2 < (cell 6 (false,false) tile).2) := by
    rintro (beyond | beyond)
    · exact absurd shown.1.1 (Nat.not_le.mpr beyond)
    · exact absurd shown.1.2 (Nat.not_le.mpr beyond)
  have value : t.tileA tile = planeAt (exactTriangle v).area (tileX v) (tileY v) (cell 6 (false,false) tile).1 (cell 6 (false,false) tile).2 := by
    unfold ShadedTriangle.tileA
    rw [same,show spu_rlmaska (exactTriangle v).area_dx 6 = tileX v from tile_steps _,
      show spu_rlmaska (exactTriangle v).area_dy 6 = tileY v from tile_steps _]
  have passes : t.covers tile = !outside wrap32 (planeAt (exactTriangle v).area (tileX v) (tileY v) (cell 6 (false,false) tile).1
      (cell 6 (false,false) tile).2) (scaled 0 (tileX v)) (scaled 0 (tileY v)) := by
    have kept := passes_kept grid tile
    unfold Kept at kept
    unfold ShadedTriangle.covers
    rw [same,Bool.eq_iff_iff,decide_eq_true_eq,kept,Bool.not_eq_true']
  rw [ShadedTriangle.blocks,same,blocks_exact grid bounded inside,number,passes,value]
  simp only [drawn,less,visible,decide_true,decide_false,Bool.not_false,Bool.true_and,leafAt]

-- The tiles that the scheduler counts a call for are those that subdivide makes entries of, also from a negative firstTile on.
theorem blocksFrom_range (drawable : t.Drawable) (bounded : chunkEnd < 4096) (firstTile : Int) (block : Nat) :
    (t.blocksFrom cache firstTile chunkEnd block).isSome = true ↔ ∃ tile : Nat, (tile : Int) - firstTile = block ∧
      CallRange firstTile chunkEnd tile ∧ cache.shows tile ∧ t.covers tile = true := by
  obtain ⟨v,grid,same⟩ := drawable.grid
  have root : (rootSquare t.triangle).At 6 0 0 0 (false,false) := ⟨rfl,rfl,rfl,rfl,rfl⟩
  -- A leaf's number is in front of the end, its tile passes, and its place is that of the number.
  have exactly (b : Nat) : b ∈ (chunkLeaves t.triangle chunkEnd).map Square.base ↔ b < chunkEnd+1 ∧ t.covers b = true := by
    have leaves := (visited_root grid (beforeEnd_asks wrap32 (exactTriangle v).area (tileX v) (tileY v) (chunkEnd+1)) ⟨by omega,by omega⟩).1 b
    rw [reaches_passes grid (by omega),← same] at leaves
    refine leaves.trans ?_
    unfold ShadedTriangle.covers
    rw [decide_eq_true_eq]
    exact ⟨fun both => ⟨both.1.2,both.2⟩,fun both => ⟨⟨Nat.zero_le b,both.1⟩,both.2⟩⟩
  have placed (s : Square) (member : s ∈ chunkLeaves t.triangle chunkEnd) : s.y = cell 6 (false,false) s.base ∧ s.base < 4096 := by
    obtain ⟨b,less,base,place⟩ := visited_place root s member
    rw [Nat.zero_add] at base
    rw [place,base,Nat.zero_add,Nat.zero_add]
    exact ⟨rfl,less⟩
  rw [blocksFrom_leaves,record_isSome]
  constructor
  · rintro (none | ⟨s,member,number,before,shown⟩)
    · cases none
    · obtain ⟨y,less⟩ := placed s member
      obtain ⟨inside,covered⟩ := (exactly s.base).mp (List.mem_map_of_mem member)
      rw [y] at shown
      refine ⟨s.base,number,⟨⟨by omega,by omega⟩,before⟩,⟨⟨?_,?_⟩,less⟩,covered⟩
      · exact Nat.not_lt.mp fun more => shown (.inl more)
      · exact Nat.not_lt.mp fun more => shown (.inr more)
  · rintro ⟨tile,number,range,shown,covered⟩
    obtain ⟨s,member,rfl⟩ := List.mem_map.mp ((exactly tile).mpr ⟨Nat.lt_succ_of_le range.1.2,covered⟩)
    refine .inr ⟨s,member,number,range.2,?_⟩
    rw [(placed s member).1]
    rintro (beyond | beyond)
    · exact absurd shown.1.1 (Nat.not_le.mpr beyond)
    · exact absurd shown.1.2 (Nat.not_le.mpr beyond)

-- A place of the frame has one number.
theorem cell_number {a b : Nat} (one : a < 4096) (two : b < 4096) (same : cell 6 (false,false) a = cell 6 (false,false) b) : a = b := by
  have all : 4^6 = 4096 := by norm_num
  have one' : a < 4^6 := Nat.lt_of_lt_of_eq one all.symm
  have two' : b < 4^6 := Nat.lt_of_lt_of_eq two all.symm
  calc a = index 6 (false,false) (cell 6 (false,false) a).1 (cell 6 (false,false) a).2 := (index_cell one').symm
    _ = index 6 (false,false) (cell 6 (false,false) b).1 (cell 6 (false,false) b).2 := by rw [same]
    _ = b := index_cell two'

-- The first 16 tiles are those of the first four lines and columns.
theorem outer_cell (outer : 16 ≤ tile) (inside : tile < 4096) :
    4 ≤ (cell 6 (false,false) tile).1 ∨ 4 ≤ (cell 6 (false,false) tile).2 := by
  have inner : ∀ x, x < 4 → ∀ y, y < 4 → index 6 (false,false) x y < 16 := by decide
  by_contra low
  obtain ⟨x_lt,y_lt⟩ := not_or.mp low
  have number := index_cell (n := 6) (o := (false,false)) inside
  have less := inner _ (not_le.mp x_lt) _ (not_le.mp y_lt)
  omega

-- A triangle with a right angle below and to the right has no tile beyond it.
theorem outer_passes {v : Fin 4 → Int × Int} {x x' y y' : Int} (first : v 0 = (x,y')) (second : v 1 = (x,y)) (third : v 2 = (x',y))
    (left : x' ≤ x) (above : y' ≤ y) (wide : x ≤ 512) (high : y ≤ 512) (outer : 16 ≤ tile) (inside : tile < 4096) :
    ¬Passes (exactTriangle v) tile := by
  rw [passes_sides,not_not]
  rcases outer_cell outer inside with right | below
  · have beyond : x ≤ 128*((cell 6 (false,false) tile).1 : Int) := by omega
    have beyond' : x ≤ 128*(((cell 6 (false,false) tile).1+1 : Nat) : Int) := by omega
    have down := sub_nonneg.mpr above
    refine ⟨2,?_,?_,?_,?_⟩ <;> simp only [side,EdgeFunction.edge,first,second,sub_self,mul_zero,add_zero]
    · exact mul_nonneg (sub_nonneg.mpr beyond) down
    · exact mul_nonneg (sub_nonneg.mpr beyond') down
    · exact mul_nonneg (sub_nonneg.mpr beyond) down
    · exact mul_nonneg (sub_nonneg.mpr beyond') down
  · have beyond : y ≤ 128*((cell 6 (false,false) tile).2 : Int) := by omega
    have beyond' : y ≤ 128*(((cell 6 (false,false) tile).2+1 : Nat) : Int) := by omega
    have across := sub_nonneg.mpr left
    refine ⟨0,?_,?_,?_,?_⟩ <;> simp only [side,EdgeFunction.edge,second,third,sub_self,mul_zero,zero_add]
    · exact mul_nonneg (sub_nonneg.mpr beyond) across
    · exact mul_nonneg (sub_nonneg.mpr beyond) across
    · exact mul_nonneg (sub_nonneg.mpr beyond') across
    · exact mul_nonneg (sub_nonneg.mpr beyond') across

theorem tileAt_same (apart : Apart cache.inFrame cache.tile) (shown : cache.shows tile) (values : Pixels α) :
    fetch (store (List.finRange 4096) memory (cache.tileAt tile) values) (cache.tileAt tile) = values := by
  unfold PixelTiles.tileAt
  exact fetch_same apart List.mem_finRange shown.1

theorem tileAt_other {other : Nat} (apart : Apart cache.inFrame cache.tile) (shown : cache.shows tile) (elsewhere : cache.shows other)
    (different : other ≠ tile) (values : Pixels α) :
    fetch (store (List.finRange 4096) memory (cache.tileAt tile) values) (cache.tileAt other) = fetch memory (cache.tileAt other) := by
  unfold PixelTiles.tileAt
  exact fetch_other apart shown.1 elsewhere.1 fun same => different (cell_number elsewhere.2 shown.2 same)

theorem drawTile_own (apart : Apart cache.inFrame cache.tile) (shown : cache.shows tile) (A : Lanes) :
    fetch (cache.drawTile t memory ⟨(cell 6 (false,false) tile).1,(cell 6 (false,false) tile).2,A⟩) (cache.tileAt tile) =
      t.render A (fetch memory (cache.tileAt tile)) := tileAt_same apart shown _

-- Drawing a leaf touches the leaf's tile only.
theorem drawTile_fetch (apart : Apart cache.inFrame cache.tile) (shown : cache.shows tile)
    (found : t.blocks cache firstTile chunkEnd block = some leaf) (other : firstTile + block ≠ tile) :
    fetch (cache.drawTile t memory leaf) (cache.tileAt tile) = fetch memory (cache.tileAt tile) := by
  obtain ⟨place,_,inside,there⟩ := blocks_place found
  unfold PixelTiles.drawTile
  rw [place]
  have own : cache.shows (firstTile+block) := ⟨there,inside⟩
  exact tileAt_other apart own shown other.symm _

theorem drawBlocks_fetch (apart : Apart cache.inFrame cache.tile) (shown : cache.shows tile) {blocks : List Nat}
    (others : ∀ block ∈ blocks, firstTile + block ≠ tile) :
    fetch (blocks.foldl (fun memory block => (t.blocks cache firstTile chunkEnd block).elim memory (cache.drawTile t memory)) memory)
      (cache.tileAt tile) = fetch memory (cache.tileAt tile) := by
  induction blocks generalizing memory with
  | nil => rfl
  | cons block rest ih =>
    rw [List.foldl_cons,ih fun k member => others k (List.mem_cons_of_mem _ member)]
    cases found : t.blocks cache firstTile chunkEnd block with
    | none => rfl
    | some leaf =>
      rw [Option.elim_some]
      exact drawTile_fetch apart shown found (others block List.mem_cons_self)

-- A triangle paints the tiles of its range and no others.
theorem drawTriangle_fetch (apart : Apart cache.inFrame cache.tile) (drawable : t.Drawable) (shown : cache.shows tile)
    (bounded : chunkEnd < 4096) (memory : BitVec 64 → α) : fetch (cache.drawTriangle firstTile chunkEnd memory t) (cache.tileAt tile) =
      if firstTile ≤ tile ∧ tile ≤ chunkEnd then t.paint tile (fetch memory (cache.tileAt tile)) else fetch memory (cache.tileAt tile) := by
  unfold PixelTiles.drawTriangle
  by_cases range : firstTile ≤ tile ∧ tile ≤ chunkEnd
  · rw [if_pos range]
    obtain ⟨low,high⟩ := range
    -- The blocks in front of the tile's own, that one, and those behind it.
    have split : List.range (chunkEnd+1-firstTile) = List.range (tile-firstTile) ++
        (tile-firstTile) :: (List.range (chunkEnd-tile)).map (tile-firstTile+1 + ·) := by
      have count : chunkEnd+1-firstTile = tile-firstTile+1 + (chunkEnd-tile) := by omega
      rw [count,List.range_add,List.range_succ,List.append_assoc]
      rfl
    have front : ∀ block ∈ List.range (tile-firstTile), firstTile + block ≠ tile := by
      intro block member
      have less := List.mem_range.mp member
      omega
    have back : ∀ block ∈ (List.range (chunkEnd-tile)).map (tile-firstTile+1 + ·), firstTile + block ≠ tile := by
      intro block member
      obtain ⟨k,_,rfl⟩ := List.mem_map.mp member
      omega
    rw [split,List.foldl_append,List.foldl_cons,drawBlocks_fetch apart shown back,blocks_tile drawable shown low high bounded]
    unfold ShadedTriangle.paint
    split
    · rw [Option.elim_some]
      rw [drawTile_own apart shown,drawBlocks_fetch apart shown front]
    · exact drawBlocks_fetch apart shown front
  · rw [if_neg range]
    apply drawBlocks_fetch apart shown
    intro block member same
    have less := List.mem_range.mp member
    exact range ⟨by omega,by omega⟩

-- Outside of the tiles nothing changes.
theorem drawTriangle_outside (out : ∀ tile, cache.shows tile → ∀ n, cache.tileAt tile n ≠ a) (memory : BitVec 64 → α) :
    cache.drawTriangle firstTile chunkEnd memory t a = memory a := by
  unfold PixelTiles.drawTriangle
  generalize List.range (chunkEnd+1-firstTile) = blocks
  induction blocks generalizing memory with
  | nil => rfl
  | cons block rest ih =>
    rw [List.foldl_cons,ih]
    cases found : t.blocks cache firstTile chunkEnd block with
    | none => rfl
    | some leaf =>
      obtain ⟨place,_,inside,shown⟩ := blocks_place found
      rw [Option.elim_some,PixelTiles.drawTile,place]
      exact store_other fun n _ => out _ ⟨shown,inside⟩ n

theorem paintAll_fetch (apart : Apart cache.inFrame cache.tile) {triangles : List (ShadedTriangle P α)}
    (drawable : ∀ t ∈ triangles, t.Drawable) (shown : cache.shows tile) (memory : BitVec 64 → α) :
    fetch (cache.paintAll triangles memory) (cache.tileAt tile) =
      triangles.foldl (fun pixels t => t.paint tile pixels) (fetch memory (cache.tileAt tile)) := by
  have last : tile ≤ 4095 := Nat.le_of_lt_succ shown.2
  unfold PixelTiles.paintAll
  induction triangles generalizing memory with
  | nil => rfl
  | cons t rest ih =>
    rw [List.foldl_cons,List.foldl_cons,ih fun t' member => drawable t' (List.mem_cons_of_mem _ member),
      drawTriangle_fetch apart (drawable t List.mem_cons_self) shown (by decide),if_pos ⟨Nat.zero_le _,last⟩]

theorem paintAll_outside (out : ∀ tile, cache.shows tile → ∀ n, cache.tileAt tile n ≠ a) (triangles : List (ShadedTriangle P α))
    (memory : BitVec 64 → α) : cache.paintAll triangles memory a = memory a := by
  unfold PixelTiles.paintAll
  induction triangles generalizing memory with
  | nil => rfl
  | cons t rest ih => rw [List.foldl_cons,ih,drawTriangle_outside out]

-- A memory is that picture if it is so tile by tile and elsewhere untouched.
theorem paintAll_tiles (apart : Apart cache.inFrame cache.tile) {triangles : List (ShadedTriangle P α)}
    (drawable : ∀ t ∈ triangles, t.Drawable) {initial memory : BitVec 64 → α}
    (tiles : ∀ tile, cache.shows tile → fetch memory (cache.tileAt tile) =
      triangles.foldl (fun pixels t => t.paint tile pixels) (fetch initial (cache.tileAt tile)))
    (outside : ∀ a, (∀ tile, cache.shows tile → ∀ n, cache.tileAt tile n ≠ a) → memory a = initial a) :
    memory = cache.paintAll triangles initial := by
  funext a
  by_cases there : ∃ tile, cache.shows tile ∧ ∃ n, cache.tileAt tile n = a
  · obtain ⟨tile,shown,n,rfl⟩ := there
    exact congrFun ((tiles tile shown).trans (paintAll_fetch apart drawable shown initial).symm) n
  · have out : ∀ tile, cache.shows tile → ∀ n, cache.tileAt tile n ≠ a := fun tile shown n same => there ⟨tile,shown,n,same⟩
    rw [outside a out,paintAll_outside out]

end

end Spugl
