import Spugl.TileBuffers

namespace Spugl
open HilbertWalk SpuVectors

-- What subdivide returns for a firstTile that may be negative.
def foundBitsFrom (triangle : Triangle) (limit : Nat × Nat) (firstTile : Int) (chunkEnd : Nat) : BitVec 32 :=
  (chunkLeaves triangle chunkEnd).foldl (mark firstTile (chunkEnd+1) limit) 0

-- processTriangleChunks with its parameters as process_render_tasks passes them.
def TileBuffers.processTriangleChunksFrom (cache : PixelTiles) (firstTile : Int) (chunkEnd : Nat) (s : TileBuffers α)
    (t : ShadedTriangle P α) (ok : Bool) : TileBuffers α :=
  let s := s.record (t.blocksFrom cache firstTile chunkEnd)
  let blocksToProcess := foundBitsFrom t.triangle cache.limit firstTile chunkEnd
  if blocksToProcess = 0 ∧ ok = false then s else s.drawBlocks cache t blocksToProcess

theorem processTriangleChunks_from (cache : PixelTiles) (firstTile chunkEnd : Nat) (s : TileBuffers α) (t : ShadedTriangle P α) (ok : Bool) :
    s.processTriangleChunksFrom cache firstTile chunkEnd t ok = s.processTriangleChunks cache firstTile chunkEnd t ok := rfl

-- What a list command moves in memory: the rows' first bytes and their lengths.
def Transfer.rows (t : Transfer) : List (Nat × Nat) :=
  t.list.map fun element => ((t.eah ++ element.2 : BitVec 64).toNat,element.1.toNat)

-- Where row r of tile coord begins.
def PixelTiles.rowStart (cache : PixelTiles) (stride : Nat) (coord : Nat × Nat) (r : Nat) : Nat :=
  cache.pixelBuffer.toNat + 128*coord.1 + (32*coord.2 + r)*stride

section
variable {cache : PixelTiles} {firstTile : Int} {chunkEnd : Nat} {t : ShadedTriangle P α}

theorem found_bitFrom (k : Nat) : (foundBitsFrom t.triangle cache.limit firstTile chunkEnd).getMsbD k =
    (decide (k < 32) && (t.blocksFrom cache firstTile chunkEnd k).isSome) := by
  by_cases less : k < 32
  · have bit : (foundBitsFrom t.triangle cache.limit firstTile chunkEnd).getLsbD (31 - k) =
        ((chunkLeaves t.triangle chunkEnd).foldl (Spugl.record firstTile (chunkEnd+1) cache.limit) (fun _ => none) k).isSome :=
      record_mark _ (fun k _ => by simp) k less
    rw [BitVec.getMsbD,decide_eq_true less,Bool.true_and,Bool.true_and,blocksFrom_leaves]
    exact bit
  · rw [BitVec.getMsbD,decide_eq_false less,Bool.false_and,Bool.false_and]

-- The loop over the bits comes to the blocks that subdivide has filled in, once.
theorem setBits_found (t : ShadedTriangle P α) (cache : PixelTiles) (firstTile : Int) (chunkEnd : Nat) :
    (setBits 32 (foundBitsFrom t.triangle cache.limit firstTile chunkEnd)).Nodup ∧
    ∀ block ∈ setBits 32 (foundBitsFrom t.triangle cache.limit firstTile chunkEnd),
      ∃ leaf, t.blocksFrom cache firstTile chunkEnd block = some leaf := by
  rw [setBits_exact (n := 0) (by omega) (by omega),Nat.sub_zero,← List.range_eq_range']
  refine ⟨List.nodup_range.filter _,?_⟩
  intro block member
  have bit := (List.mem_filter.mp member).2
  rw [found_bitFrom,Bool.and_eq_true] at bit
  exact Option.isSome_iff_exists.mp bit.2

-- What the two loops add to the reads.
theorem readBlocks_reads (oldFound : BitVec 32) (blocks : List Nat) (s : TileBuffers α) :
    (blocks.foldl (fun s block => if ~~~oldFound &&& bitAt block = 0 then s else s.readBlock cache block) s).reads =
      s.reads ++ (blocks.filter fun block => decide (~~~oldFound &&& bitAt block ≠ 0)).map fun block =>
        cache.transfer (s.coordArray block) := by
  induction blocks generalizing s with
  | nil => exact (List.append_nil _).symm
  | cons block rest ih =>
    rw [List.foldl_cons,ih,List.filter_cons]
    by_cases old : ~~~oldFound &&& bitAt block = 0
    · simp [old]
    · simp only [old,if_false,ne_eq,not_false_eq_true,decide_true,if_true,List.map_cons,TileBuffers.readBlock]
      rw [List.append_assoc]
      rfl

theorem renderBlocks_reads (blocks : List Nat) (s : TileBuffers α) : (blocks.foldl (TileBuffers.renderBlock t) s).reads = s.reads := by
  induction blocks generalizing s with
  | nil => rfl
  | cons block rest ih => exact ih _

-- A call lists tiles that pass the limit test, each once.
theorem processTriangleChunks_reads (s : TileBuffers α) (ok : Bool) : ∃ coords : List (Nat × Nat), coords.Nodup ∧
    (∀ coord ∈ coords, cache.inFrame coord) ∧
    (s.processTriangleChunksFrom cache firstTile chunkEnd t ok).reads = s.reads ++ coords.map cache.transfer := by
  unfold TileBuffers.processTriangleChunksFrom
  dsimp only
  split
  · exact ⟨[],List.nodup_nil,nofun,(List.append_nil _).symm⟩
  · obtain ⟨once,filled⟩ := setBits_found t cache firstTile chunkEnd
    let new := (setBits 32 (foundBitsFrom t.triangle cache.limit firstTile chunkEnd)).filter fun block =>
      decide (~~~s.found &&& bitAt block ≠ 0)
    have place : ∀ block ∈ new, ∃ b : Nat, (b : Int) = firstTile + block ∧ b < 4096 ∧
        (s.record (t.blocksFrom cache firstTile chunkEnd)).coordArray block = cell 6 (false,false) b ∧
        cache.inFrame (cell 6 (false,false) b) := by
      intro block member
      obtain ⟨leaf,found⟩ := filled block (List.mem_of_mem_filter member)
      obtain ⟨b,same,_,less,cells,shown⟩ := blocksFrom_place found
      refine ⟨b,same,less,?_,shown⟩
      simp only [TileBuffers.record,found,Option.elim_some]
      exact cells
    refine ⟨new.map (s.record (t.blocksFrom cache firstTile chunkEnd)).coordArray,?_,?_,?_⟩
    · refine (once.filter _).map_on ?_
      intro block member block' member' equal
      obtain ⟨b,same,less,cells,_⟩ := place block member
      obtain ⟨b',same',less',cells',_⟩ := place block' member'
      have index := index_cell (n := 6) (o := (false,false)) less
      rw [← cells,equal,cells',index_cell (n := 6) (o := (false,false)) less'] at index
      omega
    · intro coord member
      obtain ⟨block,inside,rfl⟩ := List.mem_map.mp member
      obtain ⟨b,_,_,cells,shown⟩ := place block inside
      rw [cells]
      exact shown
    · unfold TileBuffers.drawBlocks
      rw [renderBlocks_reads,readBlocks_reads,List.map_map]
      rfl

end

section
variable {buffer : BitVec 64} {width height stride : Nat} {coord coord' : Nat × Nat}

theorem created_start (fits : FrameFits buffer width height stride) (inside : (createRenderable buffer width height stride).inFrame coord) :
    (createRenderable buffer width height stride).pixelBuffer.toNat = buffer.toNat + stride * (height % 32) / 2 := by
  obtain ⟨_,below⟩ := fits.below inside
  unfold createRenderable
  simp only [created_skip,BitVec.ofInt_natCast]
  rw [BitVec.toNat_add,BitVec.toNat_ofNat]
  omega

-- Element r of a tile's list is row r of the tile.
theorem created_row (fits : FrameFits buffer width height stride) (inside : (createRenderable buffer width height stride).inFrame coord)
    (less : r < 32) : (mfc_ea2h ((createRenderable buffer width height stride).pixelbuffer_ea coord) ++
      (mfc_ea2l ((createRenderable buffer width height stride).pixelbuffer_ea coord) +
        BitVec.ofNat 32 r * (createRenderable buffer width height stride).pixelLineDy) : BitVec 64).toNat =
      (createRenderable buffer width height stride).rowStart stride coord r := by
  have first := created_tile fits inside ⟨128*r,by omega⟩
  have row : 128*r / 128 = r := Nat.mul_div_cancel_left r (by decide)
  have column : 128*r % 128 = 0 := Nat.mul_mod_right 128 r
  simp only [PixelTiles.tile,row,column,BitVec.add_zero] at first
  rw [first,PixelTiles.rowStart,created_start fits inside]
  omega

theorem created_rows (fits : FrameFits buffer width height stride) (inside : (createRenderable buffer width height stride).inFrame coord) :
    ((createRenderable buffer width height stride).transfer coord).rows =
      (List.range 32).map fun r => ((createRenderable buffer width height stride).rowStart stride coord r,128) := by
  have lines : ((createRenderable buffer width height stride).transfer coord).list = _ := blit_list_lines _ _
  rw [Transfer.rows,lines,List.map_map]
  apply List.map_congr_left
  intro r member
  exact Prod.ext (created_row fits inside (List.mem_range.mp member)) rfl

theorem created_inside (fits : FrameFits buffer width height stride) (inside : (createRenderable buffer width height stride).inFrame coord)
    (less : r < 32) : buffer.toNat ≤ (createRenderable buffer width height stride).rowStart stride coord r ∧
      (createRenderable buffer width height stride).rowStart stride coord r + 128 ≤ buffer.toNat + stride*height := by
  obtain ⟨line,lines⟩ := fits.within inside
  have above : (32*coord.2 + r)*stride = 32*stride*coord.2 + r*stride := by ring
  have last : r*stride ≤ 31*stride := Nat.mul_le_mul_right _ (by omega)
  rw [PixelTiles.rowStart,created_start fits inside,above]
  omega

-- Rows that lie in different lines, or side by side.
theorem rows_disjoint (cache : PixelTiles) (line : 128*coord.1 + 128 ≤ stride) (line' : 128*coord'.1 + 128 ≤ stride) (less : r < 32)
    (less' : r' < 32) (different : (coord,r) ≠ (coord',r')) :
    cache.rowStart stride coord r + 128 ≤ cache.rowStart stride coord' r' ∨
      cache.rowStart stride coord' r' + 128 ≤ cache.rowStart stride coord r := by
  have below {c c' : Nat × Nat} {k k' : Nat} (fit : 128*c.1 + 128 ≤ stride) (above : 32*c.2 + k < 32*c'.2 + k') :
      cache.rowStart stride c k + 128 ≤ cache.rowStart stride c' k' := by
    have next := Nat.mul_le_mul_right stride (Nat.succ_le_of_lt above)
    rw [Nat.succ_mul] at next
    unfold PixelTiles.rowStart
    omega
  rcases Nat.lt_trichotomy (32*coord.2 + r) (32*coord'.2 + r') with above | same | above
  · exact .inl (below line above)
  · obtain ⟨tiles,rfl⟩ : coord.2 = coord'.2 ∧ r = r' := by omega
    have columns : coord.1 ≠ coord'.1 := fun equal => different (Prod.ext (Prod.ext equal tiles) rfl)
    unfold PixelTiles.rowStart
    rw [same]
    omega
  · exact .inr (below line' above)

-- Whatever a call of processTriangleChunks reads into the tile buffers, and the flush
-- writes back, are rows of the frame.
theorem rows_stay (fits : FrameFits buffer width height stride) (created : cache = createRenderable buffer width height stride)
    (firstTile : Int) (chunkEnd : Nat) (s : TileBuffers α) (t : ShadedTriangle P α) (ok : Bool) :
    (∃ coords : List (Nat × Nat), coords.Nodup ∧ (∀ coord ∈ coords, cache.inFrame coord) ∧
      (s.processTriangleChunksFrom cache firstTile chunkEnd t ok).reads = s.reads ++ coords.map cache.transfer) ∧
    (∀ coord, cache.inFrame coord → (cache.transfer coord).rows = (List.range 32).map (fun r => (cache.rowStart stride coord r,128)) ∧
      ∀ r, r < 32 → buffer.toNat ≤ cache.rowStart stride coord r ∧
        cache.rowStart stride coord r + 128 ≤ buffer.toNat + stride*height) ∧
    ∀ coord coord' r r', cache.inFrame coord → cache.inFrame coord' → r < 32 → r' < 32 → (coord,r) ≠ (coord',r') →
      cache.rowStart stride coord r + 128 ≤ cache.rowStart stride coord' r' ∨
        cache.rowStart stride coord' r' + 128 ≤ cache.rowStart stride coord r := by
  subst created
  refine ⟨processTriangleChunks_reads s ok,?_,?_⟩
  · intro coord inside
    exact ⟨created_rows fits inside,fun r less => created_inside fits inside less⟩
  · intro coord coord' r r' inside inside' less less' different
    exact rows_disjoint _ (fits.within inside).1 (fits.within inside').1 less less' different

end

-- A frame with 13 lines left over and an odd stride: the tiles begin in the middle of a line.
def oddFrame : PixelTiles := createRenderable 4096 (100 : Nat) (77 : Nat) (435 : Nat)

theorem rows_stay_odd : (∃ coords : List (Nat × Nat), coords.Nodup ∧ (∀ coord ∈ coords, oddFrame.inFrame coord) ∧
      (emptyBuffers.processTriangleChunksFrom oddFrame (-7) 8 (shadedTriangle 5) true).reads =
        emptyBuffers.reads ++ coords.map oddFrame.transfer) ∧
    oddFrame.rowStart 435 (2,1) 31 = 4096 + 2827 + 256 + 63*435 ∧ oddFrame.rowStart 435 (2,1) 31 + 128 ≤ 4096 + 435*77 := by
  have fits : FrameFits 4096 100 77 435 := ⟨by decide,by decide,by decide,by decide⟩
  obtain ⟨reads,rows,_⟩ := rows_stay fits rfl (-7) 8 emptyBuffers (shadedTriangle 5) true
  exact ⟨reads,by decide,((rows (2,1) ⟨by decide,by decide⟩).2 31 (by decide)).2⟩

end Spugl
