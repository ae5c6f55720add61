import Spugl.TileSearch
import Spugl.SpuVectors
import Spugl.BlitLists

namespace Spugl
open HilbertWalk SpuVectors WriteBack

-- The bytes of a block_buffer.
abbrev Pixels (α : Type) := Fin 4096 → α

-- A record of the ring with what load_shader returns for it: parameters, A, hdx, hdy
-- and the buffer in place go in.
structure ShadedTriangle (P α : Type) where
  triangle : Triangle
  shader_params : P
  shader : P → Lanes → Lanes → Lanes → Pixels α → Pixels α

-- What a triangle does to a tile with its A value.
def ShadedTriangle.render (t : ShadedTriangle P α) (A : Lanes) (pixels : Pixels α) : Pixels α :=
  t.shader t.shader_params A (spu_rlmaska t.triangle.area_dx 6) (spu_rlmaska t.triangle.area_dy 6) pixels

-- The local store of an SPU as far as it buffers tiles, and the frame. The arrays have 16
-- entries. `reads` and `writes` are history: the DMA commands that were given.
structure TileBuffers (α : Type) where
  found : BitVec 32
  coordArray : Nat → Nat × Nat
  A : Nat → Lanes
  block_blit_list : Nat → DmaList
  block_buffer : Nat → Pixels α
  block_eah : Nat → BitVec 32
  memory : BitVec 64 → α
  reads : List Transfer
  writes : List Transfer

def PixelTiles.limit (cache : PixelTiles) : Nat × Nat := (cache.maxBlockX.toNat,cache.maxBlockY.toNat)

-- The entries that subdivide has found for a triangle, by their blocks.
def ShadedTriangle.blocks (t : ShadedTriangle P α) (cache : PixelTiles) (firstTile chunkEnd : Nat) : Nat → Option Leaf :=
  blocksToProcess t.triangle cache.limit firstTile chunkEnd

-- The same for a firstTile that is negative: thisBlockStart is an int, and it is 16 less
-- than nextBlockStart also for a chunk at the start of the list.
def ShadedTriangle.blocksFrom (t : ShadedTriangle P α) (cache : PixelTiles) (firstTile : Int) (chunkEnd : Nat) : Nat → Option Leaf :=
  subdivide wrap32 7 t.triangle.area t.triangle.area_dx t.triangle.area_dy (0,0) 64 0 (fun k => 4096*(k.val+1)) (false,false)
    firstTile (chunkEnd+1) cache.limit (fun _ => none)

namespace TileBuffers

def initTileBuffers (s : TileBuffers α) : TileBuffers α := {s with found := 0}

-- The stores of subdivide in processTile
def record (s : TileBuffers α) (blocks : Nat → Option Leaf) : TileBuffers α :=
  {s with
    coordArray := fun block => (blocks block).elim (s.coordArray block) fun leaf => (leaf.coordx,leaf.coordy)
    A := fun block => (blocks block).elim (s.A block) Leaf.A}

def readBlock (cache : PixelTiles) (s : TileBuffers α) (block : Nat) : TileBuffers α :=
  let pixelbuffer_ea := cache.pixelbuffer_ea (s.coordArray block)
  let blit_list := populate_blit_list (mfc_ea2l pixelbuffer_ea) cache.pixelLineDy
  let eah := mfc_ea2h pixelbuffer_ea
  {s with
    block_blit_list := Function.update s.block_blit_list block blit_list
    block_eah := Function.update s.block_eah block eah
    block_buffer := Function.update s.block_buffer block (fetch s.memory (Transfer.address ⟨eah,blit_list⟩))
    reads := s.reads ++ [⟨eah,blit_list⟩]}

def renderBlock (t : ShadedTriangle P α) (s : TileBuffers α) (block : Nat) : TileBuffers α :=
  {s with block_buffer := Function.update s.block_buffer block (t.render (s.A block) (s.block_buffer block))}

-- From the marking of the tiles on: reads, then draws.
def drawBlocks (cache : PixelTiles) (t : ShadedTriangle P α) (blocksToProcess : BitVec 32) (s : TileBuffers α) : TileBuffers α :=
  let oldFound := s.found
  let s := {s with found := s.found ||| blocksToProcess}
  let s := (setBits 32 blocksToProcess).foldl
    (fun s block => if ~~~oldFound &&& bitAt block = 0 then s else s.readBlock cache block) s
  (setBits 32 blocksToProcess).foldl (renderBlock t) s

def processTriangleChunks (cache : PixelTiles) (firstTile chunkEnd : Nat) (s : TileBuffers α) (t : ShadedTriangle P α) (ok : Bool) :
    TileBuffers α :=
  let s := s.record (t.blocks cache firstTile chunkEnd)
  let blocksToProcess := foundBits t.triangle cache.limit firstTile chunkEnd
  if blocksToProcess = 0 ∧ ok = false then s else s.drawBlocks cache t blocksToProcess

def flushBlock (s : TileBuffers α) (block : Nat) : TileBuffers α :=
  let transfer : Transfer := ⟨s.block_eah block,s.block_blit_list block⟩
  {s with
    memory := store (List.finRange 4096) s.memory transfer.address (s.block_buffer block)
    writes := s.writes ++ [transfer]}

def flushTileBuffers (s : TileBuffers α) : TileBuffers α := (setBits 32 s.found).foldl flushBlock s

-- The triangles of a chunk one behind the other. `ok` is not set for the first one only.
def processTriangles (cache : PixelTiles) (firstTile chunkEnd : Nat) : Bool → List (ShadedTriangle P α) → TileBuffers α → TileBuffers α
  | _,[],s => s
  | ok,t :: rest,s => processTriangles cache firstTile chunkEnd true rest (s.processTriangleChunks cache firstTile chunkEnd t ok)

def processChunk (s : TileBuffers α) (cache : PixelTiles) (firstTile chunkEnd : Nat) (triangles : List (ShadedTriangle P α)) :
    TileBuffers α :=
  (processTriangles cache firstTile chunkEnd false triangles s.initTileBuffers).flushTileBuffers

end TileBuffers

-- And without any buffers.
def PixelTiles.drawTile (cache : PixelTiles) (t : ShadedTriangle P α) (memory : BitVec 64 → α) (leaf : Leaf) : BitVec 64 → α :=
  let tile := cache.tile (leaf.coordx,leaf.coordy)
  store (List.finRange 4096) memory tile (t.render leaf.A (fetch memory tile))

def PixelTiles.drawTriangle (cache : PixelTiles) (firstTile chunkEnd : Nat) (memory : BitVec 64 → α) (t : ShadedTriangle P α) :
    BitVec 64 → α :=
  (List.range (chunkEnd+1-firstTile)).foldl
    (fun memory block => (t.blocks cache firstTile chunkEnd block).elim memory (cache.drawTile t memory)) memory

-- Tile number `tile` is found for a triangle.
def ShadedTriangle.Finds (cache : PixelTiles) (firstTile chunkEnd : Nat) (t : ShadedTriangle P α) (tile : Nat) : Prop :=
  firstTile ≤ tile ∧ (t.blocks cache firstTile chunkEnd (tile - firstTile)).isSome = true

def PixelTiles.tileTransfer (cache : PixelTiles) (tile : Nat) : Transfer := cache.transfer (cell 6 (false,false) tile)

section
variable {cache : PixelTiles} {firstTile chunkEnd : Nat} {t : ShadedTriangle P α}

-- An entry that a walk leaves for a block is that of one of its leaves.
theorem record_some {blockStart blockMax : Int} {limit : Nat × Nat} (l : List Square) {entries : Nat → Option Leaf}
    (found : (l.foldl (Spugl.record blockStart blockMax limit) entries) block = some leaf) :
    entries block = some leaf ∨ ∃ s ∈ l, (s.base : Int) - blockStart = block ∧ ¬(limit.1 < s.y.1 ∨ limit.2 < s.y.2) ∧
      leaf = ⟨s.y.1,s.y.2,s.A⟩ := by
  induction l generalizing entries with
  | nil => exact .inl found
  | cons s rest ih =>
    rcases ih found with here | ⟨s',member,rest⟩
    · unfold Spugl.record at here
      split at here
      · rename_i hit
        by_cases same : block = ((s.base : Int) - blockStart).toNat
        · rw [same,Function.update_self] at here
          exact .inr ⟨s,List.mem_cons_self,by omega,hit.2.2,(Option.some.inj here).symm⟩
        · rw [Function.update_of_ne same] at here
          exact .inl here
      · exact .inl here
    · exact .inr ⟨s',List.mem_cons_of_mem _ member,rest⟩

-- And there is one exactly for the leaves that the two tests admit.
theorem record_isSome {blockStart blockMax : Int} {limit : Nat × Nat} (l : List Square) {entries : Nat → Option Leaf} :
    ((l.foldl (Spugl.record blockStart blockMax limit) entries) block).isSome = true ↔ (entries block).isSome = true ∨
      ∃ s ∈ l, (s.base : Int) - blockStart = block ∧ (s.base : Int) - blockStart < blockMax ∧ ¬(limit.1 < s.y.1 ∨ limit.2 < s.y.2) := by
  induction l generalizing entries with
  | nil => simp
  | cons s rest ih =>
    have here : (Spugl.record blockStart blockMax limit entries s block).isSome = true ↔ (entries block).isSome = true ∨
        (s.base : Int) - blockStart = block ∧ (s.base : Int) - blockStart < blockMax ∧ ¬(limit.1 < s.y.1 ∨ limit.2 < s.y.2) := by
      unfold Spugl.record
      split
      · rename_i hit
        by_cases same : block = ((s.base : Int) - blockStart).toNat
        · rw [same,Function.update_self]
          exact ⟨fun _ => .inr ⟨by omega,hit.2⟩,fun _ => rfl⟩
        · rw [Function.update_of_ne same]
          exact ⟨.inl,fun either => either.resolve_right fun own => same (by omega)⟩
      · rename_i miss
        exact ⟨.inl,fun either => either.resolve_right fun own => miss ⟨by omega,own.2⟩⟩
    rw [List.foldl_cons,ih,here,or_assoc]
    simp only [List.mem_cons,exists_eq_or_imp]

theorem blocksFrom_leaves (t : ShadedTriangle P α) (cache : PixelTiles) (firstTile : Int) (chunkEnd : Nat) :
    t.blocksFrom cache firstTile chunkEnd =
      (chunkLeaves t.triangle chunkEnd).foldl (Spugl.record firstTile (chunkEnd+1) cache.limit) (fun _ => none) :=
  subdivide_visited 7 (rootSquare t.triangle) firstTile (chunkEnd+1) cache.limit _

-- The place of a block is the same for every triangle, and no block lies behind the chunk.
theorem blocksFrom_place {firstTile : Int} (found : t.blocksFrom cache firstTile chunkEnd block = some leaf) :
    ∃ b : Nat, (b : Int) = firstTile + block ∧ b ≤ chunkEnd ∧ b < 4096 ∧ (leaf.coordx,leaf.coordy) = cell 6 (false,false) b ∧
      cache.inFrame (cell 6 (false,false) b) := by
  rw [blocksFrom_leaves] at found
  obtain none | ⟨s,member,number,inside,rfl⟩ := record_some _ found
  · cases none
  · have root : (rootSquare t.triangle).At 6 0 0 0 (false,false) := ⟨rfl,rfl,rfl,rfl,rfl⟩
    obtain ⟨b,less,base,place⟩ := visited_place root s member
    have before := visited_before (show (rootSquare t.triangle).i / 2 ≠ 0 from by simp [rootSquare]) s member
    have cells : (s.y.1,s.y.2) = cell 6 (false,false) b := by
      rw [Prod.mk.eta,place,Nat.zero_add,Nat.zero_add]
    refine ⟨b,by omega,by omega,less,cells,?_⟩
    rw [← cells]
    exact ⟨Nat.not_lt.mp fun more => inside (.inl more),Nat.not_lt.mp fun more => inside (.inr more)⟩

theorem blocks_place (found : t.blocks cache firstTile chunkEnd block = some leaf) :
    (leaf.coordx,leaf.coordy) = cell 6 (false,false) (firstTile+block) ∧ firstTile + block ≤ chunkEnd ∧ firstTile + block < 4096 ∧
      cache.inFrame (cell 6 (false,false) (firstTile+block)) := by
  obtain ⟨b,same,before,less,cells,shown⟩ := blocksFrom_place found
  obtain rfl : b = firstTile + block := by omega
  exact ⟨cells,before,less,shown⟩

-- The blocks that the loops run over.
def ShadedTriangle.hits (t : ShadedTriangle P α) (cache : PixelTiles) (firstTile chunkEnd : Nat) : List Nat :=
  (List.range (chunkEnd+1-firstTile)).filter fun block => (t.blocks cache firstTile chunkEnd block).isSome

theorem found_bit (k : Nat) : (foundBits t.triangle cache.limit firstTile chunkEnd).getMsbD k =
    (decide (k < 32) && (t.blocks cache firstTile chunkEnd k).isSome) := by
  by_cases less : k < 32
  · have bit := found_blocks t.triangle cache.limit firstTile chunkEnd k less
    rw [BitVec.getMsbD,decide_eq_true less,Bool.true_and,Bool.true_and]
    exact bit
  · rw [BitVec.getMsbD,decide_eq_false less,Bool.false_and,Bool.false_and]

theorem setBits_hits (narrow : chunkEnd < firstTile + 16) :
    setBits 32 (foundBits t.triangle cache.limit firstTile chunkEnd) = t.hits cache firstTile chunkEnd := by
  have parts : List.range 32 = List.range (chunkEnd+1-firstTile) ++
      (List.range (32 - (chunkEnd+1-firstTile))).map (chunkEnd+1-firstTile + ·) := by
    have count : 32 = (chunkEnd+1-firstTile) + (32 - (chunkEnd+1-firstTile)) := by omega
    conv_lhs => rw [count,List.range_add]
  rw [setBits_exact (n := 0) (by omega) (by omega),Nat.sub_zero,← List.range_eq_range',parts,List.filter_append]
  have none : (List.map (chunkEnd+1-firstTile + ·) (List.range (32 - (chunkEnd+1-firstTile)))).filter
      (foundBits t.triangle cache.limit firstTile chunkEnd).getMsbD = [] := by
    rw [List.filter_eq_nil_iff]
    intro k member bit
    obtain ⟨j,_,rfl⟩ := List.mem_map.mp member
    rw [found_bit,Bool.and_eq_true] at bit
    obtain ⟨leaf,found⟩ := Option.isSome_iff_exists.mp bit.2
    have before := (blocks_place found).2.1
    omega
  rw [none,List.append_nil]
  apply List.filter_congr
  intro k member
  have less := List.mem_range.mp member
  rw [found_bit,decide_eq_true (by omega),Bool.true_and]

theorem hits_found : block ∈ t.hits cache firstTile chunkEnd ↔ ∃ leaf, t.blocks cache firstTile chunkEnd block = some leaf := by
  unfold ShadedTriangle.hits
  rw [List.mem_filter,List.mem_range,Option.isSome_iff_exists]
  constructor
  · exact And.right
  · intro found
    obtain ⟨leaf,here⟩ := found
    have before := (blocks_place here).2.1
    exact ⟨by omega,leaf,here⟩

theorem hits_once : (t.hits cache firstTile chunkEnd).Nodup := List.nodup_range.filter _

theorem drawTriangle_hits (memory : BitVec 64 → α) : cache.drawTriangle firstTile chunkEnd memory t =
    (t.hits cache firstTile chunkEnd).foldl
      (fun memory block => (t.blocks cache firstTile chunkEnd block).elim memory (cache.drawTile t memory)) memory := by
  unfold PixelTiles.drawTriangle ShadedTriangle.hits
  rw [List.foldl_filter]
  congr 1
  funext memory block
  cases t.blocks cache firstTile chunkEnd block <;> rfl

end

-- A tile of the chunk by its block.
def PixelTiles.chunkTile (cache : PixelTiles) (firstTile block : Nat) : Pixels (BitVec 64) :=
  cache.tile (cell 6 (false,false) (firstTile+block))

-- The blocks that are tiles of the frame.
def Shown (cache : PixelTiles) (firstTile block : Nat) : Prop := cache.inFrame (cell 6 (false,false) (firstTile+block)) ∧ firstTile + block < 4096

-- The state of the buffers against the frame as it would be without them. `read` lists
-- the blocks that were read since `before`.
structure Holding (cache : PixelTiles) (firstTile : Nat) (before s : TileBuffers α) (direct : BitVec 64 → α) (read : List Nat) : Prop where
  memory : s.memory = before.memory
  writes : s.writes = before.writes
  reads : s.reads = before.reads ++ read.map fun block => cache.tileTransfer (firstTile+block)
  once : read.Nodup
  within : ∀ block ∈ read, Shown cache firstTile block
  lists : ∀ block ∈ read, (⟨s.block_eah block,s.block_blit_list block⟩ : Transfer) = cache.tileTransfer (firstTile+block)
  buffered : Buffered (cache.chunkTile firstTile) (· ∈ read) s.block_buffer s.memory direct

section
variable {cache : PixelTiles} {firstTile chunkEnd : Nat} {before s : TileBuffers α} {direct : BitVec 64 → α} {read : List Nat}

theorem chunk_apart (apart : Apart cache.inFrame cache.tile) : Apart (Shown cache firstTile) (cache.chunkTile firstTile) := by
  refine ⟨fun block shown => apart.once _ shown.1,?_⟩
  intro block block' n n' shown shown' same
  have cells := apart.apart _ _ n n' shown.1 shown'.1 same
  have index := index_cell (n := 6) (o := (false,false)) (shown.2)
  rw [cells,index_cell (n := 6) (o := (false,false)) shown'.2] at index
  omega

theorem Holding.start (s : TileBuffers α) : Holding cache firstTile s s s.memory [] :=
  ⟨rfl,rfl,(List.append_nil _).symm,List.nodup_nil,nofun,nofun,.start nofun s.memory⟩

-- A first hit: the tile is read.
theorem Holding.readBlock (holding : Holding cache firstTile before s direct read) (apart : Apart cache.inFrame cache.tile)
    (place : s.coordArray block = cell 6 (false,false) (firstTile+block)) (shown : Shown cache firstTile block) (new : block ∉ read) :
    Holding cache firstTile before (s.readBlock cache block) direct (read ++ [block]) := by
  have transfer : (⟨mfc_ea2h (cache.pixelbuffer_ea (s.coordArray block)),
      populate_blit_list (mfc_ea2l (cache.pixelbuffer_ea (s.coordArray block))) cache.pixelLineDy⟩ : Transfer) =
      cache.tileTransfer (firstTile+block) := by
    rw [place]
    rfl
  refine ⟨holding.memory,holding.writes,?_,?_,?_,?_,?_⟩
  · simp only [TileBuffers.readBlock,transfer,holding.reads,List.map_append,List.append_assoc,List.map_cons,List.map_nil]
  · exact List.nodup_append.mpr ⟨holding.once,List.nodup_singleton _,fun a member b single same => new (by
      rw [← List.mem_singleton.mp single,← same]
      exact member)⟩
  · intro k member
    rcases List.mem_append.mp member with old | single
    · exact holding.within k old
    · rw [List.mem_singleton.mp single]
      exact shown
  · intro k member
    by_cases isNew : k = block
    · subst isNew
      simp only [TileBuffers.readBlock,Function.update_self]
      exact transfer
    · simp only [TileBuffers.readBlock,Function.update_of_ne isNew]
      exact holding.lists k ((List.mem_append.mp member).resolve_right fun single => isNew (List.mem_singleton.mp single))
  · have loaded := holding.buffered.load (chunk_apart apart) holding.within shown new
    have place' : (cache.tileTransfer (firstTile+block)).address = cache.chunkTile firstTile block := cache.transfer_address _
    simp only [TileBuffers.readBlock,transfer,place']
    refine loaded.congr fun k => ?_
    rw [List.mem_append,List.mem_singleton,or_comm]

-- A hit: the buffer is drawn to.
theorem Holding.renderBlock (holding : Holding cache firstTile before s direct read) (apart : Apart cache.inFrame cache.tile)
    (t : ShadedTriangle P α) (found : t.blocks cache firstTile chunkEnd block = some leaf) (value : s.A block = leaf.A)
    (old : block ∈ read) : Holding cache firstTile before (s.renderBlock t block) (cache.drawTile t direct leaf) read := by
  refine ⟨holding.memory,holding.writes,holding.reads,holding.once,holding.within,holding.lists,?_⟩
  have place : cache.tile (leaf.coordx,leaf.coordy) = cache.chunkTile firstTile block := by
    rw [(blocks_place found).1]
    rfl
  have applied := holding.buffered.apply (chunk_apart apart) holding.within (List.mem_finRange (n := 4096)) old
    (t.render leaf.A (s.block_buffer block))
  simp only [TileBuffers.renderBlock,PixelTiles.drawTile,place,value,holding.buffered.inner block old]
  exact applied

-- What the reading loop leaves alone.
structure SameEntries (s s' : TileBuffers α) : Prop where
  found : s'.found = s.found
  coordArray : s'.coordArray = s.coordArray
  A : s'.A = s.A

theorem Holding.readBlocks (apart : Apart cache.inFrame cache.tile) {oldFound : BitVec 32} {blocks : List Nat} (nodup : blocks.Nodup)
    (holding : Holding cache firstTile before s direct read)
    (place : ∀ block ∈ blocks, s.coordArray block = cell 6 (false,false) (firstTile+block) ∧ Shown cache firstTile block)
    (new : ∀ block ∈ blocks, ~~~oldFound &&& bitAt block = 0 ↔ block ∈ read) :
    ∃ s' read', blocks.foldl (fun s block => if ~~~oldFound &&& bitAt block = 0 then s else s.readBlock cache block) s = s' ∧
      Holding cache firstTile before s' direct read' ∧ (∀ block, block ∈ read' ↔ block ∈ read ∨ block ∈ blocks) ∧ SameEntries s s' := by
  induction blocks generalizing s read with
  | nil => exact ⟨s,read,rfl,holding,fun block => by simp,rfl,rfl,rfl⟩
  | cons block rest ih =>
    obtain ⟨notLater,later⟩ := List.nodup_cons.mp nodup
    obtain ⟨here,shown⟩ := place block List.mem_cons_self
    have others {k : Nat} (member : k ∈ rest) := List.mem_cons_of_mem block member
    by_cases old : block ∈ read
    · obtain ⟨s',read',ran,held,exact_,same⟩ := ih later holding (fun k member => place k (others member))
        (fun k member => new k (others member))
      refine ⟨s',read',?_,held,?_,same⟩
      · rw [List.foldl_cons,if_pos ((new block List.mem_cons_self).mpr old)]
        exact ran
      · intro k
        rw [exact_,List.mem_cons]
        constructor
        · exact Or.imp_right Or.inr
        · rintro (known | rfl | member)
          · exact .inl known
          · exact .inl old
          · exact .inr member
    · obtain ⟨s',read',ran,held,exact_,same⟩ := ih later
        (holding.readBlock apart here shown old) (fun k member => place k (others member)) (fun k member => by
          rw [new k (others member),List.mem_append,List.mem_singleton]
          refine ⟨.inl,fun known => known.resolve_right fun same => notLater (same ▸ member)⟩)
      refine ⟨s',read',?_,held,?_,same.found,same.coordArray,same.A⟩
      · rw [List.foldl_cons,if_neg fun unset => old ((new block List.mem_cons_self).mp unset)]
        exact ran
      · intro k
        rw [exact_,List.mem_append,List.mem_singleton,List.mem_cons,or_assoc]

theorem Holding.renderBlocks (apart : Apart cache.inFrame cache.tile) (t : ShadedTriangle P α) {blocks : List Nat}
    (holding : Holding cache firstTile before s direct read)
    (hits : ∀ block ∈ blocks, block ∈ read ∧ ∃ leaf, t.blocks cache firstTile chunkEnd block = some leaf ∧ s.A block = leaf.A) :
    Holding cache firstTile before (blocks.foldl (TileBuffers.renderBlock t) s)
      (blocks.foldl (fun memory block => (t.blocks cache firstTile chunkEnd block).elim memory (cache.drawTile t memory)) direct) read ∧
      (blocks.foldl (TileBuffers.renderBlock t) s).found = s.found := by
  induction blocks generalizing s direct with
  | nil => exact ⟨holding,rfl⟩
  | cons block rest ih =>
    obtain ⟨old,leaf,found,value⟩ := hits block List.mem_cons_self
    have drawn := ih (holding.renderBlock apart t found value old) fun k member => hits k (List.mem_cons_of_mem _ member)
    rw [List.foldl_cons,List.foldl_cons,found,Option.elim_some]
    exact drawn

-- What is known when the tiles of a triangle are marked.
structure Hit (cache : PixelTiles) (firstTile chunkEnd : Nat) (t : ShadedTriangle P α) (s : TileBuffers α) (block : Nat) : Prop where
  entry : ∃ leaf, t.blocks cache firstTile chunkEnd block = some leaf ∧ s.A block = leaf.A
  place : s.coordArray block = cell 6 (false,false) (firstTile+block)
  shown : Shown cache firstTile block
  less : block < 32

theorem record_hits (narrow : chunkEnd < firstTile + 16) (t : ShadedTriangle P α) (s : TileBuffers α) :
    ∀ block ∈ t.hits cache firstTile chunkEnd,
      Hit cache firstTile chunkEnd t (s.record (t.blocks cache firstTile chunkEnd)) block := by
  intro block member
  obtain ⟨leaf,found⟩ := hits_found.mp member
  obtain ⟨cells,before,inside,shown⟩ := blocks_place found
  refine ⟨⟨leaf,found,?_⟩,?_,⟨shown,inside⟩,by omega⟩
  · simp only [TileBuffers.record,found,Option.elim_some]
  · simp only [TileBuffers.record,found,Option.elim_some]
    exact cells

-- The test of a block against oldFound.
theorem unset_iff (less : block < 32) {oldFound : BitVec 32} : ~~~oldFound &&& bitAt block = 0 ↔ oldFound.getMsbD block = true := by
  rw [word_zero]
  constructor
  · intro clear
    have bit := clear block less
    rw [BitVec.getMsbD_and,BitVec.getMsbD_not,bitAt_bit less,decide_eq_true less,decide_eq_true rfl,Bool.true_and,Bool.and_true,
      Bool.not_eq_false'] at bit
    exact bit
  · intro set k inside
    rw [BitVec.getMsbD_and,BitVec.getMsbD_not,bitAt_bit inside]
    by_cases same : k = block
    · rw [same,set]
      simp
    · rw [decide_eq_false same,Bool.and_false]

theorem Holding.drawBlocks (apart : Apart cache.inFrame cache.tile) (narrow : chunkEnd < firstTile + 16)
    (holding : Holding cache firstTile before s direct read) (marked : ∀ block, block ∈ read ↔ s.found.getMsbD block = true)
    (t : ShadedTriangle P α) (hits : ∀ block ∈ t.hits cache firstTile chunkEnd, Hit cache firstTile chunkEnd t s block) :
    ∃ read', Holding cache firstTile before (s.drawBlocks cache t (foundBits t.triangle cache.limit firstTile chunkEnd))
        (cache.drawTriangle firstTile chunkEnd direct t) read' ∧
      (∀ block, block ∈ read' ↔ (s.drawBlocks cache t (foundBits t.triangle cache.limit firstTile chunkEnd)).found.getMsbD block = true) ∧
      ∀ block, block ∈ read' ↔ block ∈ read ∨ (t.blocks cache firstTile chunkEnd block).isSome = true := by
  have listed : setBits 32 (foundBits t.triangle cache.limit firstTile chunkEnd) = t.hits cache firstTile chunkEnd := setBits_hits narrow
  have new : ∀ block ∈ t.hits cache firstTile chunkEnd, ~~~s.found &&& bitAt block = 0 ↔ block ∈ read :=
    fun block member => (unset_iff (hits block member).less).trans (marked block).symm
  have merged : Holding cache firstTile before {s with found := s.found ||| foundBits t.triangle cache.limit firstTile chunkEnd} direct read :=
    ⟨holding.memory,holding.writes,holding.reads,holding.once,holding.within,holding.lists,holding.buffered⟩
  obtain ⟨s',read',ran,held,exact_,same⟩ := merged.readBlocks apart hits_once
    (fun block member => ⟨(hits block member).place,(hits block member).shown⟩) new
  have met : ∀ block ∈ t.hits cache firstTile chunkEnd, block ∈ read' ∧
      ∃ leaf, t.blocks cache firstTile chunkEnd block = some leaf ∧ s'.A block = leaf.A := by
    intro block member
    obtain ⟨leaf,found,value⟩ := (hits block member).entry
    exact ⟨(exact_ block).mpr (.inr member),leaf,found,(congrFun same.A block).trans value⟩
  have drawn := held.renderBlocks apart t met
  have after : s.drawBlocks cache t (foundBits t.triangle cache.limit firstTile chunkEnd) =
      (t.hits cache firstTile chunkEnd).foldl (TileBuffers.renderBlock t) s' := by
    unfold TileBuffers.drawBlocks
    rw [listed,← ran]
  have all (block : Nat) : block ∈ read' ↔ block ∈ read ∨ (t.blocks cache firstTile chunkEnd block).isSome = true := by
    rw [exact_,hits_found,← Option.isSome_iff_exists]
  rw [drawTriangle_hits,after]
  refine ⟨read',drawn.1,fun block => ?_,all⟩
  rw [drawn.2,same.found,all,BitVec.getMsbD_or,Bool.or_eq_true,← marked,found_bit,Bool.and_eq_true,decide_eq_true_eq]
  refine or_congr_right ⟨fun some_ => ⟨?_,some_⟩,And.right⟩
  obtain ⟨leaf,there⟩ := Option.isSome_iff_exists.mp some_
  have before_ := (blocks_place there).2.1
  omega

-- One triangle.
theorem Holding.processTriangleChunks (apart : Apart cache.inFrame cache.tile) (narrow : chunkEnd < firstTile + 16)
    (holding : Holding cache firstTile before s direct read) (marked : ∀ block, block ∈ read ↔ s.found.getMsbD block = true)
    (t : ShadedTriangle P α) (ok : Bool) : ∃ read', Holding cache firstTile before
        (s.processTriangleChunks cache firstTile chunkEnd t ok) (cache.drawTriangle firstTile chunkEnd direct t) read' ∧
      (∀ block, block ∈ read' ↔ (s.processTriangleChunks cache firstTile chunkEnd t ok).found.getMsbD block = true) ∧
      ∀ block, block ∈ read' ↔ block ∈ read ∨ (t.blocks cache firstTile chunkEnd block).isSome = true := by
  have recorded : Holding cache firstTile before (s.record (t.blocks cache firstTile chunkEnd)) direct read :=
    ⟨holding.memory,holding.writes,holding.reads,holding.once,holding.within,holding.lists,holding.buffered⟩
  unfold TileBuffers.processTriangleChunks
  simp only
  split
  · rename_i short
    have none : t.hits cache firstTile chunkEnd = [] := by
      rw [← setBits_hits narrow,short.1]
      rfl
    have nothing (block : Nat) : ¬(t.blocks cache firstTile chunkEnd block).isSome = true := by
      rw [Option.isSome_iff_exists,← hits_found,none]
      exact List.not_mem_nil
    rw [drawTriangle_hits,none]
    exact ⟨read,recorded,marked,fun block => ⟨.inl,fun known => known.resolve_right (nothing block)⟩⟩
  · exact recorded.drawBlocks apart narrow marked t (record_hits narrow t s)

-- All triangles of a chunk.
theorem Holding.processTriangles (apart : Apart cache.inFrame cache.tile) (narrow : chunkEnd < firstTile + 16)
    (triangles : List (ShadedTriangle P α)) (holding : Holding cache firstTile before s direct read)
    (marked : ∀ block, block ∈ read ↔ s.found.getMsbD block = true) (ok : Bool) : ∃ read',
      Holding cache firstTile before (TileBuffers.processTriangles cache firstTile chunkEnd ok triangles s)
        (triangles.foldl (cache.drawTriangle firstTile chunkEnd) direct) read' ∧
      (∀ block, block ∈ read' ↔
        (TileBuffers.processTriangles cache firstTile chunkEnd ok triangles s).found.getMsbD block = true) ∧
      ∀ block, block ∈ read' ↔ block ∈ read ∨ ∃ t ∈ triangles, (t.blocks cache firstTile chunkEnd block).isSome = true := by
  induction triangles generalizing s direct read ok with
  | nil => exact ⟨read,holding,marked,fun block => by simp⟩
  | cons t rest ih =>
    obtain ⟨next,held,marked',found⟩ := holding.processTriangleChunks apart narrow marked t ok
    obtain ⟨read',held',marked'',found'⟩ := ih held marked' true
    refine ⟨read',held',marked'',fun block => ?_⟩
    rw [found',found,or_assoc]
    simp only [List.mem_cons,exists_eq_or_imp]

theorem flushBlock_reads (s : TileBuffers α) (block : Nat) : (s.flushBlock block).reads = s.reads := by
  simp only [TileBuffers.flushBlock]

-- The flush writes the buffers of its blocks back.
theorem flushBlocks {blocks : List Nat}
    (lists : ∀ block ∈ blocks, (⟨s.block_eah block,s.block_blit_list block⟩ : Transfer) = cache.tileTransfer (firstTile+block)) :
    (blocks.foldl TileBuffers.flushBlock s).memory =
        writeBack (List.finRange 4096) (cache.chunkTile firstTile) s.block_buffer s.memory blocks ∧
      (blocks.foldl TileBuffers.flushBlock s).writes = s.writes ++ blocks.map (fun block => cache.tileTransfer (firstTile+block)) ∧
      (blocks.foldl TileBuffers.flushBlock s).reads = s.reads := by
  induction blocks generalizing s with
  | nil => exact ⟨rfl,(List.append_nil _).symm,rfl⟩
  | cons block rest ih =>
    have first := lists block List.mem_cons_self
    obtain ⟨memory,writes,reads⟩ := ih (s := s.flushBlock block) fun k member => lists k (List.mem_cons_of_mem _ member)
    have place : (cache.tileTransfer (firstTile+block)).address = cache.chunkTile firstTile block := cache.transfer_address _
    rw [List.foldl_cons]
    refine ⟨memory.trans ?_,writes.trans ?_,reads.trans (flushBlock_reads s block)⟩
    · simp only [TileBuffers.flushBlock,first,place]
      rw [writeBack_cons]
    · simp only [TileBuffers.flushBlock,first,List.append_assoc,List.map_cons,List.cons_append,List.nil_append]

-- A chunk's triangles, drawn through the buffers, draw to the frame what they would draw
-- there one tile at a time. The tiles that some triangle finds are read once and written
-- once, and no others.
theorem buffering_invisible (apart : Apart cache.inFrame cache.tile) (narrow : chunkEnd < firstTile + 16)
    (triangles : List (ShadedTriangle P α)) (s : TileBuffers α) :
    (s.processChunk cache firstTile chunkEnd triangles).memory = triangles.foldl (cache.drawTriangle firstTile chunkEnd) s.memory ∧
    ∃ reads writes : List Nat, reads.Nodup ∧ writes.Nodup ∧
      (∀ tile, tile ∈ reads ↔ ∃ t ∈ triangles, t.Finds cache firstTile chunkEnd tile) ∧
      (∀ tile, tile ∈ writes ↔ ∃ t ∈ triangles, t.Finds cache firstTile chunkEnd tile) ∧
      (s.processChunk cache firstTile chunkEnd triangles).reads = s.reads ++ reads.map cache.tileTransfer ∧
      (s.processChunk cache firstTile chunkEnd triangles).writes = s.writes ++ writes.map cache.tileTransfer := by
  have unmarked (block : Nat) : block ∈ ([] : List Nat) ↔ s.initTileBuffers.found.getMsbD block = true := by
    simp [TileBuffers.initTileBuffers]
  obtain ⟨read,holding,marked,found⟩ := (Holding.start s.initTileBuffers).processTriangles apart narrow triangles unmarked false
  have listed (block : Nat) : block ∈ setBits 32 (TileBuffers.processTriangles cache firstTile chunkEnd false triangles
      s.initTileBuffers).found ↔ block ∈ read := by
    rw [setBits_exact (n := 0) (by omega) (by omega),Nat.sub_zero,← List.range_eq_range',List.mem_filter,List.mem_range,marked]
    refine ⟨And.right,fun bit => ⟨?_,bit⟩⟩
    by_contra beyond
    rw [BitVec.getMsbD_of_ge _ _ (by omega)] at bit
    cases bit
  have once : (setBits 32 (TileBuffers.processTriangles cache firstTile chunkEnd false triangles s.initTileBuffers).found).Nodup := by
    rw [setBits_exact (n := 0) (by omega) (by omega),Nat.sub_zero,← List.range_eq_range']
    exact List.nodup_range.filter _
  have lists := fun block member => holding.lists block ((listed block).mp member)
  obtain ⟨memory,writes,reads⟩ := flushBlocks lists
  have tiles {blocks : List Nat} (same : ∀ block, block ∈ blocks ↔ block ∈ read) (tile : Nat) :
      tile ∈ blocks.map (firstTile + ·) ↔ ∃ t ∈ triangles, t.Finds cache firstTile chunkEnd tile := by
    rw [List.mem_map]
    constructor
    · rintro ⟨block,member,rfl⟩
      obtain ⟨t,there,hit⟩ := ((found block).mp ((same block).mp member)).resolve_left List.not_mem_nil
      exact ⟨t,there,Nat.le_add_right _ _,by rw [Nat.add_sub_cancel_left]; exact hit⟩
    · rintro ⟨t,there,from_,hit⟩
      exact ⟨tile - firstTile,(same _).mpr ((found _).mpr (.inr ⟨t,there,hit⟩)),Nat.add_sub_cancel' from_⟩
  refine ⟨memory.trans ?_,read.map (firstTile + ·),_,holding.once.map (add_right_injective _),once.map (add_right_injective _),
    tiles fun _ => Iff.rfl,tiles listed,reads.trans ?_,writes.trans ?_⟩
  · exact holding.buffered.flush (chunk_apart apart) holding.within (List.mem_finRange (n := 4096)) listed
  · rw [holding.reads,List.map_map]
    rfl
  · rw [holding.writes,List.map_map]
    rfl

end

-- Two triangles on four tiles of a small frame.
def smallFrame : PixelTiles := createRenderable 4096 (64 : Nat) (64 : Nat) (256 : Nat)

theorem smallFrame_apart : Apart smallFrame.inFrame smallFrame.tile :=
  created_apart ⟨by decide,by decide,by decide,by decide⟩

def shadedTriangle (colour : Nat) : ShadedTriangle Nat Nat :=
  ⟨exactTriangle (vertex wideX wideY),colour,fun colour _ _ _ pixels n => if n.val % 2 = 0 then colour else pixels n⟩

def emptyBuffers : TileBuffers Nat :=
  ⟨0,fun _ => (0,0),fun _ _ => 0,fun _ => [],fun _ _ => 0,fun _ => 0,fun _ => 0,[],[]⟩

theorem buffering_invisible_small :
    (emptyBuffers.processChunk smallFrame 0 3 [shadedTriangle 5,shadedTriangle 9]).memory =
      [shadedTriangle 5,shadedTriangle 9].foldl (smallFrame.drawTriangle 0 3) emptyBuffers.memory ∧
    ∃ reads : List Nat, reads.Nodup ∧
      (emptyBuffers.processChunk smallFrame 0 3 [shadedTriangle 5,shadedTriangle 9]).reads =
        emptyBuffers.reads ++ reads.map smallFrame.tileTransfer := by
  obtain ⟨memory,reads,_,once,_,_,_,read,_⟩ := buffering_invisible smallFrame_apart (by decide : 3 < 0 + 16)
    [shadedTriangle 5,shadedTriangle 9] emptyBuffers
  exact ⟨memory,reads,once,read⟩

end Spugl
