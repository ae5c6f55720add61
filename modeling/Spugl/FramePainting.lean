import Spugl.RingNames
import Spugl.TilePainting

namespace Spugl
open HilbertWalk SpuVectors WriteBack

-- What an SPU has of a chunk besides the variables of the scheduler: the record in its trianglebuffer, its tile
-- buffers, ok and thisBlockStart, and the blocks that flushTileBuffers has still to write.
structure Painter (P α : Type) where
  triangle : ShadedTriangle P α
  buffers : TileBuffers α
  ok : Bool
  thisBlockStart : Nat
  unflushed : List Nat

-- A renderable with its pixels. `shaded` is the rest of the records in the triangle buffer. Of each SPU's `buffers` the
-- memory is this one.
structure Canvas (P α ι : Type) where
  pipeline : Pipeline ι
  shaded : Nat → ShadedTriangle P α
  published : List (ShadedTriangle P α)
  painters : ι → Painter P α
  memory : BitVec 64 → α

inductive CanvasAction (P α ι : Type) where
  | run (k : ι)
  | getTriangleBuffer
  | abandon
  | write (t : ShadedTriangle P α)
  | publish

namespace Canvas

def start (ring : Nat → TriangleRecord Nat) (shaded : Nat → ShadedTriangle P α) (painters : ι → Painter P α)
    (memory : BitVec 64 → α) : Canvas P α ι where
  pipeline := .start ring
  shaded := shaded
  published := []
  painters := fun k => {painters k with unflushed := []}
  memory := memory

variable {P α ι : Type} [DecidableEq ι]

def paint (s : Canvas P α ι) (k : ι) (painter : Painter P α) : Canvas P α ι :=
  {s with painters := Function.update s.painters k painter}

-- A step of an SPU, with what it does to tiles. A triangle is drawn in one step, the tiles are written back one by one.
def run (cache : PixelTiles) (s : Canvas P α ι) (k : ι) : Canvas P α ι :=
  let painter := s.painters k
  let stepped : Canvas P α ι := {s with pipeline := s.pipeline.act (.run k)}
  match s.pipeline.system.spus k with
  | .scanning v => stepped.paint k {painter with triangle := s.shaded v.chunkTriangle}
  | .storing _ _ _ _ =>
    match stepped.pipeline.system.spus k with
    | .rendering _ _ window => stepped.paint k
        {painter with buffers := painter.buffers.initTileBuffers,ok := false,thisBlockStart := window.thisBlockStart.toNat}
    | _ => stepped
  | .rendering v triangle window =>
    if v.chunkTriangle = v.endTriangle then stepped.paint k {painter with unflushed := setBits 32 painter.buffers.found}
    else
      let buffers := TileBuffers.processTriangleChunks cache painter.thisBlockStart v.chunkEnd
        {painter.buffers with memory := s.memory} painter.triangle painter.ok
      if v.chunkStart ≠ unsigned window.realBlockStart then
        stepped.paint k {painter with buffers := buffers,ok := true,unflushed := setBits 32 buffers.found}
      else stepped.paint k {painter with buffers := buffers,ok := true,triangle := s.shaded triangle.next_triangle}
  | .finishing _ =>
    match painter.unflushed with
    | [] => stepped
    | block :: rest =>
      let buffers := TileBuffers.flushBlock {painter.buffers with memory := s.memory} block
      {s.paint k {painter with buffers := buffers,unflushed := rest} with memory := buffers.memory}
  | _ => stepped

def act (cache : PixelTiles) (s : Canvas P α ι) : CanvasAction P α ι → Canvas P α ι
  | .run k => s.run cache k
  | .getTriangleBuffer => {s with pipeline := s.pipeline.act .getTriangleBuffer}
  | .abandon => {s with pipeline := s.pipeline.act .abandon}
  | .write t =>
    match s.pipeline.producer with
    | .granted g => {s with pipeline := s.pipeline.act (.write t.covers),shaded := Function.update s.shaded g.offset t}
    | _ => s
  | .publish =>
    match s.pipeline.producer with
    | .written g => {s with pipeline := s.pipeline.act .publish,published := s.published ++ [s.shaded g.offset]}
    | _ => s

end Canvas

-- No chunk is split that ends in front of tile 15.
def RoomySplits (s : System Nat ι) (k : ι) : Prop :=
  WholeSplits s k ∧ match s.spus k with
    | .storing v _ _ _ => 15 ≤ v.chunkEnd
    | _ => True

namespace Canvas

def allowed (s : Canvas P α ι) : CanvasAction P α ι → Prop
  | .run k => RoomySplits s.pipeline.system k
  | .getTriangleBuffer => s.pipeline.producer.grant = none
  | .abandon => s.pipeline.producer.writing = false
  | .write t => t.Drawable
  | .publish => True

def Reached [DecidableEq ι] (cache : PixelTiles) (memory : BitVec 64 → α) : Canvas P α ι → Prop :=
  Runs.Reached (fun s => ∃ ring shaded painters, s = start ring shaded painters memory) (Runs.Step (act cache) allowed)

end Canvas

-- The pixels of a tile after some of its triangles, by their numbers.
def drawnOn (published : List (ShadedTriangle P α)) (tile : Nat) (drawn : List Nat) (pixels : Pixels α) : Pixels α :=
  drawn.foldl (fun pixels p => (published[p]?).elim pixels fun t => t.render (t.tileA tile) pixels) pixels

def painting (published : List (ShadedTriangle P α)) (tile : Nat) (pixels : Pixels α) : Pixels α :=
  published.foldl (fun pixels t => t.paint tile pixels) pixels

-- The blocks of an SPU that are newer than the frame.
def Painter.blocks (painter : Painter P α) : Spu τ → List Nat
  | .rendering _ _ _ => setBits 32 painter.buffers.found
  | _ => painter.unflushed

-- A block in the buffers: its list is that of its tile, and so are its pixels.
structure Keeps (cache : PixelTiles) (firstTile : Nat) (s : TileBuffers α) (value : Nat → Pixels α) (block : Nat) : Prop where
  shown : Shown cache firstTile block
  list : (⟨s.block_eah block,s.block_blit_list block⟩ : Transfer) = cache.tileTransfer (firstTile+block)
  pixels : s.block_buffer block = value (firstTile+block)

-- Since initTileBuffers each tile found was read once.
def ReadOnce (cache : PixelTiles) (firstTile : Nat) (s : TileBuffers α) : Prop :=
  ∃ (earlier : List Transfer) (read : List Nat), s.reads = earlier ++ read.map (fun block => cache.tileTransfer (firstTile+block)) ∧ read.Nodup ∧
    ∀ block, block ∈ read ↔ s.found.getMsbD block = true

theorem setBits_mem {found : BitVec 32} : block ∈ setBits 32 found ↔ found.getMsbD block = true := by
  rw [setBits_exact (n := 0) (by omega) (by omega),Nat.sub_zero,← List.range_eq_range',List.mem_filter,List.mem_range]
  refine ⟨And.right,fun bit => ⟨?_,bit⟩⟩
  by_contra beyond
  rw [BitVec.getMsbD_of_ge _ _ (by omega)] at bit
  cases bit

theorem setBits_once (found : BitVec 32) : (setBits 32 found).Nodup := by
  rw [setBits_exact (n := 0) (by omega) (by omega),Nat.sub_zero,← List.range_eq_range']
  exact List.nodup_range.filter _

section
variable {cache : PixelTiles} {t : ShadedTriangle P α} {firstTile chunkEnd : Nat}

-- The entries are those of the tiles that the triangle covers.
theorem blocks_covers (drawable : t.Drawable) (bounded : chunkEnd < 4096) :
    (t.blocks cache firstTile chunkEnd block).isSome = true ↔
      Shown cache firstTile block ∧ firstTile + block ≤ chunkEnd ∧ t.covers (firstTile+block) = true := by
  refine (blocksFrom_range drawable bounded firstTile block).trans ?_
  constructor
  · rintro ⟨tile,number,range,shown,covered⟩
    obtain rfl : tile = firstTile+block := by omega
    exact ⟨shown,range.1.2,covered⟩
  · rintro ⟨shown,high,covered⟩
    exact ⟨firstTile+block,by omega,(callRange_natural _ _ _).mpr ⟨Nat.le_add_right _ _,high⟩,shown,covered⟩

-- One triangle over the buffers of a chunk, tile by tile. What was found before stands in the buffers, all else in the frame.
theorem processTriangleChunks_tiles (apart : Apart cache.inFrame cache.tile) (narrow : chunkEnd < firstTile + 16) (bounded : chunkEnd < 4096)
    (drawable : t.Drawable) {s : TileBuffers α} {value : Nat → Pixels α} (once : ReadOnce cache firstTile s)
    (keeps : ∀ block, s.found.getMsbD block = true → Keeps cache firstTile s value block)
    (direct : ∀ block, s.found.getMsbD block = false → (t.blocks cache firstTile chunkEnd block).isSome = true →
      fetch s.memory (cache.tileAt (firstTile+block)) = value (firstTile+block)) (ok : Bool) :
    ReadOnce cache firstTile (s.processTriangleChunks cache firstTile chunkEnd t ok) ∧
    (∀ block, (s.processTriangleChunks cache firstTile chunkEnd t ok).found.getMsbD block = true ↔
      s.found.getMsbD block = true ∨ (t.blocks cache firstTile chunkEnd block).isSome = true) ∧
    ∀ block, (s.processTriangleChunks cache firstTile chunkEnd t ok).found.getMsbD block = true →
      Keeps cache firstTile (s.processTriangleChunks cache firstTile chunkEnd t ok)
        (fun tile => if tile ≤ chunkEnd then t.paint tile (value tile) else value tile) block := by
  obtain ⟨earlier,read,reads,nodup,marked⟩ := once
  have within : ∀ block ∈ read, Shown cache firstTile block := fun block member => (keeps block ((marked block).mp member)).shown
  have holding : Holding cache firstTile {s with reads := earlier} s
      (writeBack (List.finRange 4096) (cache.chunkTile firstTile) s.block_buffer s.memory read) read :=
    ⟨rfl,rfl,reads,nodup,within,fun block member => (keeps block ((marked block).mp member)).list,
      .flushed (chunk_apart apart) within List.mem_finRange s.block_buffer s.memory⟩
  obtain ⟨read',held,marked',found⟩ := holding.processTriangleChunks apart narrow marked t ok
  have bits (block : Nat) : (s.processTriangleChunks cache firstTile chunkEnd t ok).found.getMsbD block = true ↔
      s.found.getMsbD block = true ∨ (t.blocks cache firstTile chunkEnd block).isSome = true := by
    rw [← marked',found,marked]
  refine ⟨⟨earlier,read',held.reads,held.once,marked'⟩,bits,?_⟩
  intro block bit
  have member := (marked' block).mpr bit
  have shown := held.within block member
  have place : cache.chunkTile firstTile block = cache.tileAt (firstTile+block) := rfl
  -- What the tile would be in the frame before this triangle.
  have old : fetch (writeBack (List.finRange 4096) (cache.chunkTile firstTile) s.block_buffer s.memory read)
      (cache.tileAt (firstTile+block)) = value (firstTile+block) := by
    by_cases known : block ∈ read
    · rw [← place,holding.buffered.inner block known]
      exact (keeps block ((marked block).mp known)).pixels
    · have new : (t.blocks cache firstTile chunkEnd block).isSome = true := ((found block).mp member).resolve_left known
      rw [← direct block (Bool.eq_false_of_not_eq_true fun bit => known ((marked block).mpr bit)) new]
      funext n
      refine holding.buffered.outer _ ?_
      intro block' there n' same
      exact known ((chunk_apart apart).apart block' block n' n (within block' there) shown same ▸ there)
  refine ⟨shown,held.lists block member,?_⟩
  rw [← held.buffered.inner block member,place,drawTriangle_fetch apart drawable shown bounded,old]
  simp only [Nat.le_add_right,true_and]

end

-- The painter's variables against the SPU's in the list of all records. Its tiles are those of its chunk.
def Painter.Paints (cache : PixelTiles) (published : List (ShadedTriangle P α)) (line : CacheLine Nat) (painter : Painter P α) :
    Spu Nat → Prop
  | .splitting v _ _ => painter.unflushed = [] ∧ published[v.chunkTriangle]? = some painter.triangle
  | .storing v _ _ _ => painter.unflushed = [] ∧ published[v.chunkTriangle]? = some painter.triangle
  | .rendering v _ window => painter.unflushed = [] ∧
    (v.chunkTriangle ≠ v.endTriangle → published[v.chunkTriangle]? = some painter.triangle) ∧
    (window.thisBlockStart = painter.thisBlockStart ∧ v.chunkEnd < painter.thisBlockStart + 16 ∧ v.chunkEnd < 4096) ∧
    ReadOnce cache painter.thisBlockStart painter.buffers ∧
    ∀ block, painter.buffers.found.getMsbD block = true → line.Holds v.chunkToProcess (painter.thisBlockStart+block)
  | .finishing v => painter.unflushed.Nodup ∧ ∀ block ∈ painter.unflushed, line.Holds v.chunkToProcess (painter.thisBlockStart+block)
  | _ => painter.unflushed = []

-- What the records drawn so far have made of a tile.
def picture (cache : PixelTiles) (published : List (ShadedTriangle P α)) (initial : BitVec 64 → α) (t : System Nat ι) (tile : Nat) : Pixels α :=
  drawnOn published tile (history t.ring t.rendered tile) (fetch initial (cache.tileAt tile))

-- Each tile has its picture in one place: in the buffers of an SPU that holds the tile, or else in the frame.
structure Painted (cache : PixelTiles) (initial : BitVec 64 → α) (s : Canvas P α ι) (r : TriangleRing) (t : System Nat ι) : Prop where
  unrolled : Unrolled s.pipeline r t
  count : s.published.length = t.line.endTriangle
  covers : ∀ p triangle, s.published[p]? = some triangle → (t.ring p).covers = triangle.covers
  shaded : ∀ p, p < s.published.length → s.published.length ≤ p+117 → s.published[p]? = some (s.shaded (place p))
  written : ∀ g, s.pipeline.producer = .written g →
    (t.ring t.line.endTriangle).covers = (s.shaded g.offset).covers ∧ (s.shaded g.offset).Drawable
  drawable : ∀ triangle ∈ s.published, triangle.Drawable
  paints : ∀ k, (s.painters k).Paints cache s.published t.line (t.spus k)
  keeps : ∀ k, ∀ block ∈ (s.painters k).blocks (t.spus k),
    Keeps cache (s.painters k).thisBlockStart (s.painters k).buffers (picture cache s.published initial t) block
  current : ∀ tile, cache.shows tile → (∀ k, ∀ block ∈ (s.painters k).blocks (t.spus k), (s.painters k).thisBlockStart + block ≠ tile) →
    fetch s.memory (cache.tileAt tile) = picture cache s.published initial t tile
  shows : ∀ tile, cache.shows tile → ∃ p, p ≤ s.published.length ∧
    fetch s.memory (cache.tileAt tile) = painting (s.published.take p) tile (fetch initial (cache.tileAt tile))
  outside : ∀ a, (∀ tile, cache.shows tile → ∀ n, cache.tileAt tile n ≠ a) → s.memory a = initial a

section
variable {P α ι : Type} {cache : PixelTiles} {published : List (ShadedTriangle P α)} {t : System Nat ι}

-- The records in front of a pointer that cover the tile are a painting with all records in front of it.
theorem drawnOn_preceding {ring : Nat → TriangleRecord Nat} (covers : ∀ p triangle, published[p]? = some triangle → (ring p).covers = triangle.covers)
    (tile : Nat) (pixels : Pixels α) (upto : p ≤ published.length) :
    drawnOn published tile (preceding ring tile p) pixels = painting (published.take p) tile pixels := by
  induction p with
  | zero => rfl
  | succ p ih =>
    have here : published[p]? = some published[p] := List.getElem?_eq_getElem upto
    have earlier := ih (Nat.le_of_succ_le upto)
    unfold drawnOn painting at earlier ⊢
    rw [preceding_succ,List.take_add_one,here,List.foldl_append,List.foldl_append,earlier,covers p _ here]
    unfold ShadedTriangle.paint
    cases covered : published[p].covers tile <;> simp [here,covered]

theorem At.painted {ring : Nat → TriangleRecord Nat} {log : List (Rendered Nat)}
    (covers : ∀ p triangle, published[p]? = some triangle → (ring p).covers = triangle.covers) (at_ : At ring log published.length tile p)
    (pixels : Pixels α) : drawnOn published tile (history ring log tile) pixels = painting (published.take p) tile pixels := by
  rw [at_.done]
  exact drawnOn_preceding covers tile pixels at_.upto

-- Later records make no difference to what was drawn.
theorem drawnOn_published {drawn : List Nat} (known : ∀ p ∈ drawn, p < published.length) (more : List (ShadedTriangle P α)) (tile : Nat)
    (pixels : Pixels α) : drawnOn (published ++ more) tile drawn pixels = drawnOn published tile drawn pixels := by
  unfold drawnOn
  induction drawn generalizing pixels with
  | nil => rfl
  | cons p rest ih =>
    rw [List.foldl_cons,List.foldl_cons,List.getElem?_append_left (known p List.mem_cons_self),
      ih fun q member => known q (List.mem_cons_of_mem _ member)]

theorem history_known {ring : Nat → TriangleRecord Nat} {log : List (Rendered Nat)} (recorded : ∀ r ∈ log, r.chunkTriangle < limit) :
    ∀ p ∈ history ring log tile, p < limit := by
  intro p member
  obtain ⟨r,kept,rfl⟩ := List.mem_map.mp member
  exact recorded r (List.mem_of_mem_filter kept)

-- One more draw.
theorem picture_drawn {next : System Nat ι} {triangle : ShadedTriangle P α} {initial : BitVec 64 → α} (ring : next.ring = t.ring)
    (rendered : next.rendered = t.rendered ++ [⟨p,firstTile,chunkEnd⟩]) (here : published[p]? = some triangle)
    (covers : (t.ring p).covers = triangle.covers) (tile : Nat) :
    picture cache published initial next tile =
      if CallRange firstTile chunkEnd tile then triangle.paint tile (picture cache published initial t tile)
      else picture cache published initial t tile := by
  unfold picture drawnOn
  rw [ring,rendered,history_append,List.foldl_append,covers]
  unfold ShadedTriangle.paint
  by_cases inside : CallRange firstTile chunkEnd tile
  · cases covered : triangle.covers tile <;> simp [inside,here]
  · simp [inside]

theorem Painter.Paints.frame {painter : Painter P α} {line line' : CacheLine Nat} {spu : Spu Nat}
    (paints : painter.Paints cache published line spu) (more : List (ShadedTriangle P α))
    (same : ∀ i n, spu.Marks i (.chunk true n) → ∀ x, line'.Holds i x ↔ line.Holds i x) :
    painter.Paints cache (published ++ more) line' spu := by
  have longer {p : Nat} (here : published[p]? = some painter.triangle) : (published ++ more)[p]? = some painter.triangle := by
    rw [List.getElem?_append_left (List.getElem?_eq_some_iff.mp here).1]
    exact here
  cases spu with
  | idle | claiming | scanning | releasing => exact paints
  | splitting v => exact ⟨paints.1,longer paints.2⟩
  | storing v => exact ⟨paints.1,longer paints.2⟩
  | rendering v triangle window =>
    obtain ⟨flushed,read,place,once,holds⟩ := paints
    exact ⟨flushed,fun unfinished => longer (read unfinished),place,once,fun block bit =>
      (same _ _ (.inl ⟨rfl,rfl⟩) _).mpr (holds block bit)⟩
  | finishing v => exact ⟨paints.1,fun block member => (same _ _ (.inl ⟨rfl,rfl⟩) _).mpr (paints.2 block member)⟩

-- The tiles of an SPU's blocks are in a chunk of its own.
theorem Painter.Paints.holds {painter : Painter P α} {line : CacheLine Nat} {spu : Spu Nat} (paints : painter.Paints cache published line spu)
    (member : block ∈ painter.blocks spu) :
    ∃ i n, spu.Marks i (.chunk true n) ∧ line.Holds i (painter.thisBlockStart+block) := by
  have none (flushed : painter.unflushed = []) (member : block ∈ painter.unflushed) : False := by
    rw [flushed] at member
    cases member
  cases spu with
  | idle | claiming | scanning | releasing => exact (none paints member).elim
  | splitting | storing => exact (none paints.1 member).elim
  | rendering v triangle window => exact ⟨_,_,.inl ⟨rfl,rfl⟩,paints.2.2.2.2 block (setBits_mem.mp member)⟩
  | finishing v => exact ⟨_,_,.inl ⟨rfl,rfl⟩,paints.2 block member⟩

variable [DecidableEq ι]

-- An SPU leaves the chunks of the others as they are.
theorem Tiles.run_holds (tiles : Tiles t) (complete : CompleteSplits t (.run k)) (other : k' ≠ k) (mark : (t.spus k').Marks i (.chunk true n))
    (x : Nat) : (t.run k).line.Holds i x ↔ t.line.Holds i x := by
  have free : ∀ m, ¬(t.spus k).Marks i m := fun m own => other (tiles.owned.once k' k i _ m mark own)
  have busy := tiles.owned.mine k' i _ mark
  have first : (t.spus k).copy.isSome → t.held k = true := complete.1
  have sound : (t.spus k).SoundSplit (t.held k) := tiles.sound complete
  have fits := tiles.owned.fits k
  unfold System.run
  cases at_ : t.spus k with
  | idle | splitting | finishing => exact Iff.rfl
  | scanning v =>
    dsimp only
    split
    · exact Iff.rfl
    · split <;> exact Iff.rfl
  | rendering v triangle window =>
    dsimp only
    split
    · exact Iff.rfl
    · split <;> exact Iff.rfl
  | claiming cache =>
    rw [at_] at free first
    have same := tiles.owned.copy k cache (first rfl) (by rw [at_]; rfl)
    subst same
    dsimp only
    cases ran : claimChunk t.line with
    | none => exact Iff.rfl
    | some pair =>
      obtain ⟨line,v⟩ := pair
      dsimp only
      rw [putllc_held (first rfl)]
      exact (claimChunk_claimed tiles.owned.linked ran).rewrite.holds free busy x
  | storing v triangle firstTile cache =>
    rw [at_] at free first sound fits
    have same := tiles.owned.copy k cache (first rfl) (by rw [at_]; rfl)
    subst same
    obtain ⟨spans,low,high⟩ := fits
    have counts := tiles.owned.counts (k := k) (v := v) (by rw [at_]; rfl) spans
    dsimp only
    rcases splitChunk_cases triangle.next_triangle counts (sound (first rfl)) low high with
      ⟨after,ran,rewrite⟩ | ⟨after,tailChunk,thisChunk,window,ran,cut,resliced⟩
    · rw [ran]
      dsimp only
      rw [putllc_held (first rfl)]
      exact rewrite.holds free busy x
    · rw [ran]
      dsimp only
      rw [putllc_held (first rfl)]
      exact (reslice_merged cut resliced).1.holds free busy x
  | releasing v cache =>
    rw [at_] at free first fits
    have same := tiles.owned.copy k cache (first rfl) (by rw [at_]; rfl)
    subst same
    dsimp only
    rw [putllc_held (first rfl)]
    exact (release_merged (tiles.owned.owns (k := k) (v := v) (by rw [at_]; rfl)) fits).holds free busy x

-- What holds of one updated pair and of all others holds of all.
theorem update_both {Q : ι → σ → σ' → Prop} {f : ι → σ} {g : ι → σ'} (own : Q k a b) (others : ∀ k', k' ≠ k → Q k' (f k') (g k')) (k' : ι) :
    Q k' (Function.update f k a k') (Function.update g k b k') := by
  by_cases isK : k' = k
  · subst isK
    rw [Function.update_self,Function.update_self]
    exact own
  · rw [Function.update_of_ne isK,Function.update_of_ne isK]
    exact others k' isK

section
variable {s : Canvas P α ι} {r r' : TriangleRing} {initial : BitVec 64 → α}

-- A step of an SPU that draws nothing.
theorem Painted.stepped {painter : Painter P α} (painted : Painted cache initial s r t) (spu : Spu Nat) (complete : CompleteSplits t (.run k))
    (valid : Unrolled (s.pipeline.act (.run k)) r' (t.run k)) (spus : (t.run k).spus = Function.update t.spus k spu)
    (rendered : (t.run k).rendered = t.rendered) (own : painter.Paints cache s.published (t.run k).line spu)
    (blocks : painter.blocks spu = (s.painters k).blocks (t.spus k))
    (same : painter.blocks spu = [] ∨ painter.buffers = (s.painters k).buffers ∧ painter.thisBlockStart = (s.painters k).thisBlockStart) :
    Painted cache initial (Canvas.paint {s with pipeline := s.pipeline.act (.run k)} k painter) r' (t.run k) := by
  obtain ⟨_,_,ends⟩ := painted.unrolled.named.run painted.unrolled.near painted.unrolled.tiles painted.unrolled.reads k complete
  have ring : (t.run k).ring = t.ring := System.run_ring k
  have pictures : picture cache s.published initial (t.run k) = picture cache s.published initial t := by
    unfold picture
    rw [ring,rendered]
  refine ⟨valid,painted.count.trans ends.symm,?_,painted.shaded,?_,painted.drawable,?_,?_,?_,painted.shows,painted.outside⟩
  · rw [ring]
    exact painted.covers
  · rw [ring,ends]
    exact painted.written
  · simp only [Canvas.paint,spus]
    refine update_both own ?_
    intro k' other
    rw [← List.append_nil s.published]
    exact (painted.paints k').frame [] fun i n mark x => painted.unrolled.tiles.run_holds complete other mark x
  · simp only [Canvas.paint,spus,pictures]
    refine update_both (Q := fun _ (painter : Painter P α) spu => ∀ block ∈ painter.blocks spu, Keeps cache painter.thisBlockStart painter.buffers
      (picture cache s.published initial t) block) ?_ fun k' _ => painted.keeps k'
    intro block member
    rcases same with none | ⟨buffers,start⟩
    · rw [none] at member
      cases member
    · rw [buffers,start]
      exact painted.keeps k block (blocks ▸ member)
  · simp only [Canvas.paint,spus,pictures]
    intro tile shown free
    refine painted.current tile shown ?_
    intro k' block member
    by_cases isK : k' = k
    · subst isK
      have off := free k' block
      simp only [Function.update_self] at off
      rw [blocks] at off
      rcases same with none | ⟨_,start⟩
      · rw [← blocks,none] at member
        cases member
      · rw [← start]
        exact off member
    · have off := free k' block
      simp only [Function.update_of_ne isK] at off
      exact off member

omit [DecidableEq ι] in
-- No tile of one SPU is among those of another.
theorem Painted.apart (painted : Painted cache initial s r t) (one : (t.spus k).Marks i (.chunk true n)) (held : t.line.Holds i tile)
    (other : k' ≠ k) : ∀ block ∈ (s.painters k').blocks (t.spus k'), (s.painters k').thisBlockStart + block ≠ tile := by
  intro block member same
  obtain ⟨i',n',mark,holds⟩ := (painted.paints k').holds member
  rw [same] at holds
  have slot := OrderedCycle.Ordered.covers_once painted.unrolled.tiles.owned.linked holds held
  rw [slot] at mark
  exact other (painted.unrolled.tiles.owned.once k' k i _ _ mark one)

-- A step of an SPU that draws a triangle.
theorem Painted.drew {v : Locals Nat} {triangle : TriangleRecord Nat} {window : Window} {spu : Spu Nat} {painter : Painter P α}
    (apart : Apart cache.inFrame cache.tile) (painted : Painted cache initial s r t) (complete : CompleteSplits t (.run k))
    (at_ : t.spus k = .rendering v triangle window) (more : v.chunkTriangle ≠ v.endTriangle)
    (valid : Unrolled (s.pipeline.act (.run k)) r' (t.run k)) (spus : (t.run k).spus = Function.update t.spus k spu)
    (line : (t.run k).line = t.line)
    (rendered : (t.run k).rendered = t.rendered ++ [⟨v.chunkTriangle,window.thisBlockStart,v.chunkEnd⟩])
    (buffers : painter.buffers = TileBuffers.processTriangleChunks cache (s.painters k).thisBlockStart v.chunkEnd
      {(s.painters k).buffers with memory := s.memory} (s.painters k).triangle (s.painters k).ok)
    (start : painter.thisBlockStart = (s.painters k).thisBlockStart) (blocks : painter.blocks spu = setBits 32 painter.buffers.found)
    (own : ReadOnce cache painter.thisBlockStart painter.buffers →
      (∀ block, painter.buffers.found.getMsbD block = true → t.line.Holds v.chunkToProcess (painter.thisBlockStart+block)) →
      painter.Paints cache s.published t.line spu) :
    Painted cache initial (Canvas.paint {s with pipeline := s.pipeline.act (.run k)} k painter) r' (t.run k) := by
  have ring : (t.run k).ring = t.ring := System.run_ring k
  have paints := painted.paints k
  have keeps := painted.keeps k
  have stands := painted.unrolled.tiles.stands k
  rw [at_] at paints keeps stands
  obtain ⟨_,read,⟨place,narrow,bounded⟩,once,holds⟩ := paints
  have here := read more
  have covers := painted.covers _ _ here
  have drawable := painted.drawable _ (List.mem_of_getElem? here)
  have less := Nat.lt_of_le_of_ne stands.upto more
  have mark : (t.spus k).Marks v.chunkToProcess (.chunk true v.chunkNext) := by
    rw [at_]
    exact .inl ⟨rfl,rfl⟩
  have pictures (tile : Nat) : picture cache s.published initial (t.run k) tile =
      if (s.painters k).thisBlockStart ≤ tile ∧ tile ≤ v.chunkEnd then
        (s.painters k).triangle.paint tile (picture cache s.published initial t tile)
      else picture cache s.published initial t tile := by
    have drawn : picture cache s.published initial (t.run k) tile = _ := picture_drawn ring rendered here covers tile
    simpa only [place,callRange_natural] using drawn
  -- What the triangle covers in the window is the SPU's own.
  have mine (tile : Nat) (low : (s.painters k).thisBlockStart ≤ tile) (high : tile ≤ v.chunkEnd)
      (covered : (s.painters k).triangle.covers tile = true) : t.line.Holds v.chunkToProcess tile := by
    rcases stands.strays tile with same | missed
    · rw [place,callRange_natural] at same
      exact same.mpr ⟨low,high⟩
    · have none := missed v.chunkTriangle (Nat.le_refl _) less (.inl rfl)
      rw [covers,covered] at none
      cases none
  have entry (block : Nat) : ((s.painters k).triangle.blocks cache (s.painters k).thisBlockStart v.chunkEnd block).isSome = true ↔ _ :=
    blocks_covers drawable bounded
  have known (block : Nat) (bit : (s.painters k).buffers.found.getMsbD block = true) :
      Keeps cache (s.painters k).thisBlockStart {(s.painters k).buffers with memory := s.memory} (picture cache s.published initial t) block := by
    have old := keeps block (setBits_mem.mpr bit)
    exact ⟨old.shown,old.list,old.pixels⟩
  obtain ⟨once',found,drawn⟩ := processTriangleChunks_tiles (s := {(s.painters k).buffers with memory := s.memory}) apart narrow bounded
    drawable once known (fun block unset hit => by
      obtain ⟨shown,high,covered⟩ := (entry block).mp hit
      refine painted.current _ shown ?_
      intro k' block' member
      by_cases isK : k' = k
      · subst isK
        intro same
        rw [at_] at member
        have equal : block' = block := Nat.add_left_cancel same
        have bit := setBits_mem.mp member
        rw [equal] at bit
        exact Bool.false_ne_true (unset.symm.trans bit)
      · exact painted.apart mark (mine _ (Nat.le_add_right _ _) high covered) isK block' member) (s.painters k).ok
  rw [← buffers] at once' found drawn
  have own' := own (by rw [start]; exact once') (by
    intro block bit
    rw [start]
    rcases (found block).mp bit with old | hit
    · exact holds block old
    · obtain ⟨_,high,covered⟩ := (entry block).mp hit
      exact mine _ (Nat.le_add_right _ _) high covered)
  -- Elsewhere the triangle changes no picture.
  have still (tile : Nat) (off : ¬((s.painters k).thisBlockStart ≤ tile ∧ tile ≤ v.chunkEnd ∧ (s.painters k).triangle.covers tile = true)) :
      picture cache s.published initial (t.run k) tile = picture cache s.published initial t tile := by
    rw [pictures]
    split
    · rename_i inside
      unfold ShadedTriangle.paint
      rw [if_neg fun covered => off ⟨inside.1,inside.2,covered⟩]
    · rfl
  refine ⟨valid,?_,?_,painted.shaded,?_,painted.drawable,?_,?_,?_,painted.shows,painted.outside⟩
  · rw [line]
    exact painted.count
  · rw [ring]
    exact painted.covers
  · rw [ring,line]
    exact painted.written
  · rw [spus,line]
    exact update_both own' fun k' _ => painted.paints k'
  · rw [spus]
    refine update_both (Q := fun _ (painter : Painter P α) spu => ∀ block ∈ painter.blocks spu, Keeps cache painter.thisBlockStart painter.buffers
      (picture cache s.published initial (t.run k)) block) ?_ ?_
    · intro block member
      rw [blocks] at member
      have kept := drawn block (setBits_mem.mp member)
      rw [start]
      refine ⟨kept.shown,kept.list,kept.pixels.trans ?_⟩
      rw [pictures]
      simp only [Nat.le_add_right,true_and]
    · intro k' other block member
      have old := painted.keeps k' block member
      refine ⟨old.shown,old.list,old.pixels.trans (still _ ?_).symm⟩
      rintro ⟨low,high,covered⟩
      exact painted.apart mark (mine _ low high covered) other block member rfl
  · rw [spus]
    intro tile shown free
    have off : ∀ block ∈ setBits 32 painter.buffers.found, (s.painters k).thisBlockStart + block ≠ tile := by
      intro block member
      have away := free k block
      simp only [Canvas.paint,Function.update_self] at away
      rw [blocks,start] at away
      exact away member
    refine (painted.current tile shown ?_).trans (still tile ?_).symm
    · intro k' block member
      by_cases isK : k' = k
      · subst isK
        rw [at_] at member
        exact off block (setBits_mem.mpr ((found block).mpr (.inl (setBits_mem.mp member))))
      · have away := free k' block
        simp only [Canvas.paint,Function.update_of_ne isK] at away
        exact away member
    · rintro ⟨low,high,covered⟩
      have number := Nat.add_sub_cancel' low
      refine off (tile - (s.painters k).thisBlockStart) (setBits_mem.mpr ((found _).mpr (.inr ((entry _).mpr ⟨?_,?_,?_⟩)))) number
      · unfold Shown
        rw [number]
        exact shown
      · rw [number]
        exact high
      · rw [number]
        exact covered

-- One block written back.
theorem Painted.flushed {v : Locals Nat} {block : Nat} {rest : List Nat} (painted : Painted cache initial s r t)
    (painter : Painter P α) (memory : BitVec 64 → α) (apart : Apart cache.inFrame cache.tile) (at_ : t.spus k = .finishing v)
    (left_ : (s.painters k).unflushed = block :: rest)
    (written : memory = store (List.finRange 4096) s.memory
      (Transfer.address ⟨(s.painters k).buffers.block_eah block,(s.painters k).buffers.block_blit_list block⟩)
      ((s.painters k).buffers.block_buffer block))
    (start : painter.thisBlockStart = (s.painters k).thisBlockStart) (still : painter.unflushed = rest)
    (eah : painter.buffers.block_eah = (s.painters k).buffers.block_eah)
    (list : painter.buffers.block_blit_list = (s.painters k).buffers.block_blit_list)
    (buffer : painter.buffers.block_buffer = (s.painters k).buffers.block_buffer) :
    Painted cache initial {s.paint k painter with memory := memory} r t := by
  have paints := painted.paints k
  have keeps := painted.keeps k
  have stands := painted.unrolled.tiles.stands k
  rw [at_] at paints keeps stands
  obtain ⟨once,holds⟩ := paints
  rw [left_] at once holds
  have listed : (s.painters k).blocks (Spu.finishing v) = block :: rest := left_
  rw [listed] at keeps
  have own := keeps block List.mem_cons_self
  have inside : cache.shows ((s.painters k).thisBlockStart+block) := own.shown
  have spus : t.spus = Function.update t.spus k (.finishing v) := by
    rw [← at_,Function.update_eq_self]
  rw [own.list,PixelTiles.tileTransfer,PixelTiles.transfer_address,← PixelTiles.tileAt,own.pixels] at written
  have here : fetch memory (cache.tileAt ((s.painters k).thisBlockStart+block)) =
      picture cache s.published initial t ((s.painters k).thisBlockStart+block) := by
    rw [written]
    exact tileAt_same apart inside _
  have elsewhere (tile : Nat) (shown : cache.shows tile) (other : (s.painters k).thisBlockStart + block ≠ tile) :
      fetch memory (cache.tileAt tile) = fetch s.memory (cache.tileAt tile) := by
    rw [written]
    exact tileAt_other apart inside shown (Ne.symm other) _
  refine ⟨painted.unrolled,painted.count,painted.covers,painted.shaded,painted.written,painted.drawable,?_,?_,?_,?_,?_⟩
  · rw [spus]
    refine update_both ⟨?_,?_⟩ fun k' _ => painted.paints k'
    · rw [still]
      exact (List.nodup_cons.mp once).2
    · rw [still,start]
      exact fun b member => holds b (List.mem_cons_of_mem _ member)
  · rw [spus]
    refine update_both (Q := fun _ (painter : Painter P α) spu => ∀ block ∈ painter.blocks spu, Keeps cache painter.thisBlockStart painter.buffers
      (picture cache s.published initial (t : System Nat ι)) block) ?_ fun k' _ => painted.keeps k'
    intro b member
    have old := keeps b (List.mem_cons_of_mem _ (still ▸ member))
    rw [start]
    exact ⟨old.shown,by rw [eah,list]; exact old.list,by rw [buffer]; exact old.pixels⟩
  · intro tile shown free
    by_cases same : (s.painters k).thisBlockStart + block = tile
    · rw [← same]
      exact here
    · refine (elsewhere tile shown same).trans (painted.current tile shown ?_)
      intro k' b member
      by_cases isK : k' = k
      · subst isK
        rw [at_,listed] at member
        rcases List.mem_cons.mp member with rfl | later
        · exact same
        · have off := free k' b
          simp only [Canvas.paint,Function.update_self,at_,start] at off
          have kept : painter.blocks (Spu.finishing v) = rest := still
          rw [kept] at off
          exact off later
      · have off := free k' b
        simp only [Canvas.paint,Function.update_of_ne isK] at off
        exact off member
  · intro tile shown
    by_cases same : (s.painters k).thisBlockStart + block = tile
    · have at_tile := stands _ (holds block List.mem_cons_self)
      rw [← painted.count] at at_tile
      refine ⟨v.chunkTriangle,at_tile.upto,?_⟩
      rw [← same]
      exact here.trans (at_tile.painted painted.covers _)
    · obtain ⟨p,upto,old⟩ := painted.shows tile shown
      exact ⟨p,upto,(elsewhere tile shown same).trans old⟩
  · intro a out
    refine Eq.trans ?_ (painted.outside a out)
    show memory a = s.memory a
    rw [written]
    exact store_other fun n _ => out _ inside n

omit [DecidableEq ι] in
-- Steps of the producer that leave the records alone.
theorem Painted.asked {pipeline : Pipeline ι} (painted : Painted cache initial s r t) (valid : Unrolled pipeline r' t)
    (written : ∀ g, pipeline.producer = .written g → s.pipeline.producer = .written g) :
    Painted cache initial {s with pipeline := pipeline} r' t :=
  ⟨valid,painted.count,painted.covers,painted.shaded,fun g at_ => painted.written g (written g at_),painted.drawable,painted.paints,
    painted.keeps,painted.current,painted.shows,painted.outside⟩

theorem Painted.recorded {triangle : ShadedTriangle P α} (painted : Painted cache initial s r t) (granted : s.pipeline.producer = .granted g)
    (drawable : triangle.Drawable)
    (valid : Unrolled (s.pipeline.act (.write triangle.covers)) r'
      (t.act (.record t.line.endTriangle ⟨triangle.covers,t.line.endTriangle+1⟩))) :
    Painted cache initial {s with pipeline := s.pipeline.act (.write triangle.covers),shaded := Function.update s.shaded g.offset triangle} r'
      (t.act (.record t.line.endTriangle ⟨triangle.covers,t.line.endTriangle+1⟩)) := by
  have offset : g.offset = place t.line.endTriangle := by
    rw [painted.unrolled.offset (g := g) (by rw [granted]; rfl)]
  have kept : ∀ q, q < t.line.endTriangle →
      (t.act (.record t.line.endTriangle ⟨triangle.covers,t.line.endTriangle+1⟩)).ring q = t.ring q :=
    fun q below => Function.update_of_ne (Nat.ne_of_lt below) _ _
  have pictures : picture cache s.published initial (t.act (.record t.line.endTriangle ⟨triangle.covers,t.line.endTriangle+1⟩)) =
      picture cache s.published initial t := by
    funext tile
    unfold picture
    rw [show (t.act (.record t.line.endTriangle ⟨triangle.covers,t.line.endTriangle+1⟩)).rendered = t.rendered from rfl,
      history_frame painted.unrolled.tiles.recorded kept]
  refine ⟨valid,painted.count,?_,?_,?_,painted.drawable,painted.paints,?_,?_,painted.shows,painted.outside⟩
  · intro p triangle' here
    have below := (List.getElem?_eq_some_iff.mp here).1
    rw [kept p (painted.count ▸ below)]
    exact painted.covers p triangle' here
  · intro p less window
    rw [painted.shaded p less window]
    refine congrArg some (Function.update_of_ne ?_ _ _).symm
    rw [offset,← painted.count]
    exact place_apart less window
  · intro g' at_
    rw [write_granted granted] at at_
    cases at_
    have own : (t.act (.record t.line.endTriangle ⟨triangle.covers,t.line.endTriangle+1⟩)).ring t.line.endTriangle =
        ⟨triangle.covers,t.line.endTriangle+1⟩ := Function.update_self _ _ _
    simp only [Function.update_self]
    exact ⟨congrArg TriangleRecord.covers own,drawable⟩
  · rw [pictures]
    exact painted.keeps
  · rw [pictures]
    exact painted.current

theorem Painted.advanced (painted : Painted cache initial s r t) (written : s.pipeline.producer = .written g)
    (valid : Unrolled (s.pipeline.act .publish) r' (t.act (.advance (t.line.endTriangle+1)))) :
    Painted cache initial {s with pipeline := s.pipeline.act .publish,published := s.published ++ [s.shaded g.offset]} r'
      (t.act (.advance (t.line.endTriangle+1))) := by
  have offset : g.offset = place s.published.length := by
    rw [painted.count,painted.unrolled.offset (g := g) (by rw [written]; rfl)]
  obtain ⟨covers,drawable⟩ := painted.written g written
  have pictures : picture cache (s.published ++ [s.shaded g.offset]) initial (t.act (.advance (t.line.endTriangle+1))) =
      picture cache s.published initial t := by
    funext tile
    refine drawnOn_published ?_ _ tile _
    rw [painted.count]
    exact history_known painted.unrolled.tiles.recorded
  have last {p : Nat} (less : p < s.published.length+1) : p < s.published.length ∨ p = s.published.length :=
    Nat.lt_succ_iff_lt_or_eq.mp less
  refine ⟨valid,?_,?_,?_,?_,?_,?_,?_,?_,?_,painted.outside⟩
  · rw [List.length_append]
    exact congrArg Nat.succ painted.count
  · intro p triangle here
    have less := (List.getElem?_eq_some_iff.mp here).1
    rw [List.length_append] at less
    rcases last less with old | rfl
    · rw [List.getElem?_append_left old] at here
      exact painted.covers p triangle here
    · rw [List.getElem?_concat_length] at here
      cases here
      rw [painted.count]
      exact covers
  · intro p less window
    rw [List.length_append] at less window
    rcases last less with old | rfl
    · rw [List.getElem?_append_left old]
      exact painted.shaded p old (Nat.le_of_succ_le window)
    · rw [List.getElem?_concat_length,offset]
  · intro g' none
    rw [publish_written written] at none
    cases none
  · intro triangle member
    rcases List.mem_append.mp member with old | new
    · exact painted.drawable triangle old
    · rw [List.mem_singleton.mp new]
      exact drawable
  · intro k
    exact (painted.paints k).frame _ fun i n _ x => Iff.rfl
  · rw [pictures]
    exact painted.keeps
  · rw [pictures]
    exact painted.current
  · intro tile shown
    obtain ⟨p,upto,old⟩ := painted.shows tile shown
    refine ⟨p,?_,?_⟩
    · rw [List.length_append]
      exact Nat.le_succ_of_le upto
    · rw [List.take_append_of_le_length upto]
      exact old

-- An SPU's step without any tiles about.
theorem Painted.quiet {painter : Painter P α} (painted : Painted cache initial s r t) (spu : Spu Nat) (complete : CompleteSplits t (.run k))
    (valid : Unrolled (s.pipeline.act (.run k)) r' (t.run k)) (spus : (t.run k).spus = Function.update t.spus k spu)
    (rendered : (t.run k).rendered = t.rendered) (own : painter.Paints cache s.published (t.run k).line spu)
    (after : painter.blocks spu = []) (before : (s.painters k).blocks (t.spus k) = []) :
    Painted cache initial (Canvas.paint {s with pipeline := s.pipeline.act (.run k)} k painter) r' (t.run k) :=
  painted.stepped spu complete valid spus rendered own (after.trans before.symm) (.inl after)

theorem Canvas.paint_self (s : Canvas P α ι) (k : ι) (pipeline : Pipeline ι) :
    Canvas.paint {s with pipeline := pipeline} k (s.painters k) = {s with pipeline := pipeline} := by
  simp only [Canvas.paint,Function.update_eq_self]

theorem Painted.run (apart : Apart cache.inFrame cache.tile) (painted : Painted cache initial s r t) (k : ι)
    (roomy : RoomySplits s.pipeline.system k) : ∃ r' t', Painted cache initial (s.run cache k) r' t' := by
  obtain ⟨whole,roomy⟩ := roomy
  obtain ⟨complete,r',valid⟩ := painted.unrolled.run k whole
  have own := painted.unrolled.named.spus k
  have after := valid.named.spus k
  have paints := painted.paints k
  have stands := painted.unrolled.tiles.stands k
  have recent := painted.unrolled.near.spus k
  have first : (t.spus k).copy.isSome → t.held k = true := complete.1
  have stored : t.held k = true → ∀ (line : CacheLine Nat) (done failed : Spu Nat),
      (t.putllc k line done failed).spus = Function.update t.spus k done ∧ (t.putllc k line done failed).rendered = t.rendered := by
    intro held line done failed
    rw [putllc_held held]
    exact ⟨rfl,rfl⟩
  -- The record that is read at a pointer of the SPU.
  have record {p : Nat} (near : Recent t.line.endTriangle p) (less : p < t.line.endTriangle) :
      s.published[p]? = some (s.shaded (place p)) :=
    painted.shaded p (painted.count ▸ less) (painted.count ▸ near.2)
  unfold Canvas.run
  cases at_ : t.spus k with
  | idle =>
    rw [at_] at own paints
    have ran : t.run k = t.getllar k (.claiming t.line) := by simp only [System.run,at_]
    rw [show s.pipeline.system.spus k = .idle from own]
    dsimp only
    rw [← Canvas.paint_self]
    exact ⟨r',_,painted.quiet (.claiming t.line) complete valid (by rw [ran]; rfl) (by rw [ran]; rfl) paints paints (by rw [at_]; exact paints)⟩
  | claiming line =>
    rw [at_] at own paints first
    rw [show s.pipeline.system.spus k = .claiming (line.map place) from own]
    dsimp only
    rw [← Canvas.paint_self]
    cases claim : claimChunk line with
    | none =>
      have ran : t.run k = t.move k .idle := by simp only [System.run,at_,claim]
      exact ⟨r',_,painted.quiet .idle complete valid (by rw [ran]; rfl) (by rw [ran]; rfl) paints paints (by rw [at_]; exact paints)⟩
    | some pair =>
      have ran : t.run k = t.putllc k pair.1 (.scanning pair.2) .idle := by simp only [System.run,at_,claim]
      obtain ⟨spus,rendered⟩ := stored (first rfl) pair.1 (.scanning pair.2) .idle
      exact ⟨r',_,painted.quiet (.scanning pair.2) complete valid (by rw [ran]; exact spus) (by rw [ran]; exact rendered) paints paints (by rw [at_]; exact paints)⟩
  | scanning v =>
    rw [at_] at own paints stands recent
    have flushed : (s.painters k).unflushed = [] := paints
    have here := record recent.1.1 (Nat.lt_of_lt_of_le stands.more stands.ends)
    rw [show s.pipeline.system.spus k = .scanning (v.map place) from own]
    dsimp only
    cases scan : findFirstTriangleTile (t.ring v.chunkTriangle) v.chunkStart v.chunkEnd with
    | some firstTile =>
      have ran : t.run k = t.move k (.splitting v (t.ring v.chunkTriangle) firstTile) := by simp only [System.run,at_,scan]
      exact ⟨r',_,painted.quiet (.splitting v (t.ring v.chunkTriangle) firstTile) complete valid (by rw [ran]; rfl) (by rw [ran]; rfl) ⟨flushed,here⟩ flushed (by rw [at_]; exact flushed)⟩
    | none =>
      by_cases last : (t.ring v.chunkTriangle).next_triangle = v.endTriangle
      · have ran : t.run k = t.move k (.finishing {v with chunkTriangle := (t.ring v.chunkTriangle).next_triangle}) := by
          simp only [System.run,at_,scan,if_pos last]
        refine ⟨r',_,painted.quiet (.finishing {v with chunkTriangle := (t.ring v.chunkTriangle).next_triangle}) complete valid (by rw [ran]; rfl) (by rw [ran]; rfl) ⟨?_,?_⟩ flushed (by rw [at_]; exact flushed)⟩
        · rw [flushed]
          exact List.nodup_nil
        · rw [flushed]
          exact fun _ none => nomatch none
      · have ran : t.run k = t.move k (.scanning {v with chunkTriangle := (t.ring v.chunkTriangle).next_triangle}) := by
          simp only [System.run,at_,scan,if_neg last]
        exact ⟨r',_,painted.quiet (.scanning {v with chunkTriangle := (t.ring v.chunkTriangle).next_triangle}) complete valid (by rw [ran]; rfl) (by rw [ran]; rfl) flushed flushed (by rw [at_]; exact flushed)⟩
  | splitting v triangle firstTile =>
    rw [at_] at own paints
    have ran : t.run k = t.getllar k (.storing v triangle firstTile t.line) := by simp only [System.run,at_]
    rw [show s.pipeline.system.spus k = .splitting (v.map place) (triangle.map place) firstTile from own]
    dsimp only
    rw [← Canvas.paint_self]
    exact ⟨r',_,painted.quiet (.storing v triangle firstTile t.line) complete valid (by rw [ran]; rfl) (by rw [ran]; rfl) paints paints.1 (by rw [at_]; exact paints.1)⟩
  | storing v triangle firstTile line =>
    have sound : (t.spus k).SoundSplit (t.held k) := painted.unrolled.tiles.sound complete
    have fits := painted.unrolled.tiles.owned.fits k
    have same := painted.unrolled.tiles.owned.copy k line (first (by rw [at_]; rfl)) (by rw [at_]; rfl)
    rw [at_] at own paints first sound fits
    rw [show s.pipeline.system.spus k = .storing (v.map place) (triangle.map place) firstTile (line.map place) from own] at roomy ⊢
    subst same
    obtain ⟨flushed,here⟩ := paints
    obtain ⟨spans,low,high⟩ := fits
    have counts := painted.unrolled.tiles.owned.counts (k := k) (v := v) (by rw [at_]; rfl) spans
    dsimp only
    rcases splitChunk_cases triangle.next_triangle counts (sound (first rfl)) low high with
      ⟨after',split,_⟩ | ⟨after',tailChunk,thisChunk,window,split,_,resliced⟩
    · have ran : t.run k = t.putllc k after' .idle (.splitting (v.retry t.line) triangle firstTile) := by
        simp only [System.run,at_,split]
      obtain ⟨spus,rendered⟩ := stored (first rfl) after' .idle (.splitting (v.retry t.line) triangle firstTile)
      rw [← ran] at spus rendered
      rw [spus,Function.update_self] at after
      rw [show (s.pipeline.act (.run k)).system.spus k = .idle from after]
      dsimp only
      rw [← Canvas.paint_self]
      exact ⟨r',_,painted.quiet .idle complete valid spus rendered flushed flushed (by rw [at_]; exact flushed)⟩
    · have ran : t.run k = t.putllc k after'.merge_cache_blocks (.rendering (v.stored tailChunk thisChunk window) triangle window)
          (.splitting (v.retry t.line) triangle firstTile) := by
        simp only [System.run,at_,split]
      obtain ⟨spus,rendered⟩ := stored (first rfl) after'.merge_cache_blocks (.rendering (v.stored tailChunk thisChunk window) triangle window)
        (.splitting (v.retry t.line) triangle firstTile)
      rw [← ran] at spus rendered
      rw [spus,Function.update_self] at after
      obtain ⟨read,there,_⟩ := after
      rw [there]
      dsimp only
      have place_ := thisBlockStart_roomy v firstTile roomy counts.bounded
      have back := nextBlockStart_cases v firstTile
      have bounded := counts.bounded
      have start : window.thisBlockStart = (window.thisBlockStart.toNat : Int) := by
        rw [resliced.frame,place_]
        rfl
      refine ⟨r',_,painted.quiet (.rendering (v.stored tailChunk thisChunk window) triangle window) complete valid spus rendered ⟨flushed,fun _ => here,⟨start,?_,?_⟩,?_,?_⟩ rfl (by rw [at_]; exact flushed)⟩
      · have window_ : window.nextBlockStart = nextBlockStart v firstTile := by rw [resliced.frame]
        have this : window.thisBlockStart.toNat = max v.chunkStart (nextBlockStart v firstTile - 16) := by
          rw [resliced.frame,place_]
          exact Int.toNat_natCast _
        show window.nextBlockStart - 1 < window.thisBlockStart.toNat + 16
        omega
      · have window_ : window.nextBlockStart = nextBlockStart v firstTile := by rw [resliced.frame]
        show window.nextBlockStart - 1 < 4096
        omega
      · exact ⟨(s.painters k).buffers.reads,[],(List.append_nil _).symm,List.nodup_nil,fun block => by simp [TileBuffers.initTileBuffers]⟩
      · intro block bit
        simp [TileBuffers.initTileBuffers] at bit
  | rendering v triangle window =>
    have paints' := paints
    rw [at_] at own paints stands recent
    obtain ⟨flushed,_,place_,_,holds⟩ := paints
    obtain ⟨read,own,known⟩ := own
    rw [own]
    dsimp only
    have final : Recent t.line.endTriangle v.endTriangle := ⟨recent.2.2,Nat.le_trans recent.1.2 (Nat.add_le_add_right recent.2.1 _)⟩
    have arrived : (v.map place).chunkTriangle = (v.map place).endTriangle ↔ v.chunkTriangle = v.endTriangle :=
      ⟨recent.1.named final,congrArg place⟩
    by_cases last : v.chunkTriangle = v.endTriangle
    · have ran : t.run k = t.move k (.finishing v) := by simp only [System.run,at_,if_pos last]
      rw [if_pos (arrived.mpr last)]
      refine ⟨r',_,painted.stepped (.finishing v) complete valid (by rw [ran]; rfl) (by rw [ran]; rfl) ⟨setBits_once _,?_⟩ (by rw [at_]; rfl)
        (.inr ⟨rfl,rfl⟩)⟩
      rw [ran]
      exact fun block member => holds block (setBits_mem.mp member)
    · rw [if_neg fun same => last (arrived.mp same)]
      have less := Nat.lt_of_le_of_ne stands.upto last
      have onward : triangle.next_triangle = v.chunkTriangle+1 := by
        rw [stands.read less]
        exact painted.unrolled.tiles.chain _ (Nat.lt_of_lt_of_le less stands.ends)
      by_cases once : v.chunkStart ≠ unsigned window.realBlockStart
      · rw [if_pos (show (v.map place).chunkStart ≠ _ from once)]
        have ran : t.run k = {t.move k (.finishing {v with chunkTriangle := triangle.next_triangle}) with
            rendered := t.rendered ++ [⟨v.chunkTriangle,window.thisBlockStart,v.chunkEnd⟩]} := by
          simp only [System.run,at_,if_neg last,if_pos once]
          rfl
        refine ⟨r',_,painted.drew apart complete at_ last valid (by rw [ran]; rfl) (by rw [ran]; rfl) (by rw [ran]) rfl rfl rfl ?_⟩
        intro _ held
        exact ⟨setBits_once _,fun block member => held block (setBits_mem.mp member)⟩
      · rw [if_neg (show ¬(v.map place).chunkStart ≠ _ from once)]
        have ran : t.run k = {t.move k (.rendering {v with chunkTriangle := triangle.next_triangle} (t.ring triangle.next_triangle) window) with
            rendered := t.rendered ++ [⟨v.chunkTriangle,window.thisBlockStart,v.chunkEnd⟩]} := by
          simp only [System.run,at_,if_neg last,if_neg once]
          rfl
        refine ⟨r',_,painted.drew apart complete at_ last valid (by rw [ran]; rfl) (by rw [ran]; rfl) (by rw [ran]) rfl rfl rfl ?_⟩
        intro read_ held
        refine ⟨flushed,fun more => ?_,place_,read_,held⟩
        have below : v.chunkTriangle+1 < t.line.endTriangle := by
          have different : v.chunkTriangle+1 ≠ v.endTriangle := onward ▸ more
          have upto := recent.2.2
          omega
        show s.published[triangle.next_triangle]? = some (s.shaded read.next_triangle)
        rw [known last,onward]
        have near := record (recent.1.next (Nat.lt_of_succ_lt below)) below
        rw [near,← onward]
        rfl
  | finishing v =>
    rw [at_] at own paints
    rw [show s.pipeline.system.spus k = .finishing (v.map place) from own]
    dsimp only
    cases left_ : (s.painters k).unflushed with
    | nil =>
      have ran : t.run k = t.getllar k (.releasing v t.line) := by simp only [System.run,at_]
      dsimp only
      rw [← Canvas.paint_self]
      exact ⟨r',_,painted.quiet (.releasing v t.line) complete valid (by rw [ran]; rfl) (by rw [ran]; rfl) left_ left_ (by rw [at_]; exact left_)⟩
    | cons block rest =>
      dsimp only
      refine ⟨r,t,painted.flushed _ _ apart at_ left_ ?_ rfl rfl ?_ ?_ ?_⟩ <;> simp only [TileBuffers.flushBlock]
  | releasing v line =>
    rw [at_] at own paints first
    rw [show s.pipeline.system.spus k = .releasing (v.map place) (line.map place) from own]
    dsimp only
    rw [← Canvas.paint_self]
    have ran : t.run k = t.putllc k (releaseChunk v line).merge_cache_blocks .idle (.finishing v) := by simp only [System.run,at_]
    obtain ⟨spus,rendered⟩ := stored (first rfl) (releaseChunk v line).merge_cache_blocks .idle (.finishing v)
    exact ⟨r',_,painted.quiet .idle complete valid (by rw [ran]; exact spus) (by rw [ran]; exact rendered) paints paints (by rw [at_]; exact paints)⟩

theorem Painted.act (apart : Apart cache.inFrame cache.tile) (painted : Painted cache initial s r t) (a : CanvasAction P α ι)
    (allowed : s.allowed a) : ∃ r' t', Painted cache initial (s.act cache a) r' t' := by
  cases a with
  | run k => exact painted.run apart k allowed
  | getTriangleBuffer =>
    obtain ⟨r',valid⟩ := painted.unrolled.asked (.inl rfl) allowed
    refine ⟨r',t,painted.asked valid ?_⟩
    intro g at_
    unfold Pipeline.act at at_
    dsimp only at at_
    split at at_
    · cases at_
    · exact at_
  | abandon =>
    obtain ⟨r',valid⟩ := painted.unrolled.asked (.inr rfl) allowed
    exact ⟨r',t,painted.asked valid fun g none => by cases none⟩
  | write triangle =>
    unfold Canvas.act
    cases at_ : s.pipeline.producer with
    | granted g =>
      obtain ⟨r',valid⟩ := painted.unrolled.writes at_ triangle.covers
      exact ⟨r',_,painted.recorded at_ allowed valid⟩
    | _ => exact ⟨r,t,painted⟩
  | publish =>
    unfold Canvas.act
    cases at_ : s.pipeline.producer with
    | written g =>
      obtain ⟨r',valid⟩ := painted.unrolled.publishes at_
      exact ⟨r',_,painted.advanced at_ valid⟩
    | _ => exact ⟨r,t,painted⟩

theorem start_painted (cache : PixelTiles) (ring : Nat → TriangleRecord Nat) (shaded : Nat → ShadedTriangle P α) (painters : ι → Painter P α)
    (memory : BitVec 64 → α) : Painted cache memory (Canvas.start ring shaded painters memory)
      (.start fun p => (ring p).next_triangle) (System.start (ι := ι) 0 ring) := by
  refine ⟨start_unrolled ring,rfl,?_,?_,?_,?_,fun _ => rfl,?_,fun _ _ _ => rfl,fun _ _ => ⟨0,Nat.le_refl _,rfl⟩,fun _ _ => rfl⟩
  · intro p triangle none
    cases none
  · intro p less
    exact absurd less (Nat.not_lt_zero p)
  · intro g none
    cases none
  · intro triangle none
    cases none
  · intro k block none
    cases none

theorem reached_painted (apart : Apart cache.inFrame cache.tile) (path : Canvas.Reached cache initial s) :
    ∃ r t, Painted cache initial s r t := by
  refine Runs.Reached.invariant (fun s => ∃ r t, Painted cache initial s r t) ?_ ?_ path
  · rintro _ ⟨ring,shaded,painters,rfl⟩
    exact ⟨_,_,start_painted cache ring shaded painters initial⟩
  · rintro _ _ ⟨r,t,painted⟩ ⟨a,allowed,rfl⟩
    exact painted.act apart a allowed

omit [DecidableEq ι] in
-- With every SPU at rest the frame is the picture.
theorem Painted.finished (apart : Apart cache.inFrame cache.tile) (painted : Painted cache initial s r t)
    (drained : s.pipeline.system.line.stillProcessingQueue = false) : s.memory = cache.paintAll s.published initial := by
  obtain ⟨unmarked,resting,caught⟩ := painted.unrolled.ringed.drained.mp drained
  have line := painted.unrolled.named.line
  have none (k : ι) : (s.painters k).blocks (t.spus k) = [] := by
    have own := painted.unrolled.named.spus k
    have paints := painted.paints k
    have rest := resting k
    cases at_ : t.spus k with
    | idle | claiming =>
      rw [at_] at paints
      exact paints
    | rendering =>
      rw [at_] at own
      obtain ⟨_,own,_⟩ := own
      rw [own] at rest
      cases rest
    | _ =>
      rw [at_] at own
      rw [own] at rest
      cases rest
  refine paintAll_tiles apart painted.drawable ?_ painted.outside
  intro tile shown
  have free : ∀ k, ∀ block ∈ (s.painters k).blocks (t.spus k), (s.painters k).thisBlockStart + block ≠ tile := by
    intro k block member
    rw [none k] at member
    cases member
  obtain ⟨i,holds,_⟩ := OrderedCycle.Ordered.partition painted.unrolled.tiles.owned.linked (show tile < NUMBER_OF_TILES from shown.2)
  obtain ⟨n,linked⟩ := Option.isSome_iff_exists.mp holds.1
  obtain ⟨busy,here⟩ := ChunkNext.next?_some linked
  have used : t.line.chunkNext i ≠ .free := by
    rw [here]
    exact ChunkNext.chunk_used
  cases busy with
  | true =>
    refine absurd (.inr ⟨n,?_⟩) (unmarked i)
    rw [line]
    exact here
  | false =>
    -- The chunk's pointer is at the end, and so is the tile.
    have at_tile := painted.unrolled.tiles.idle i n tile here holds
    have pointer := (CacheLine.stillProcessing_exact _).mp drained i (by rw [line]; exact used)
    rw [line] at pointer
    have ends := (painted.unrolled.near.idle i n here).named ⟨Nat.le_refl _,Nat.le_add_right _ _⟩ pointer
    rw [ends,← painted.count] at at_tile
    refine (painted.current tile shown free).trans ((at_tile.painted painted.covers _).trans ?_)
    rw [List.take_length]
    rfl

end
end

-- Whatever the SPUs and the producer do, and in whatever order: each tile of the frame always shows the painting of the
-- first so many triangles, nothing outside of the tiles changes, and once glSync finds the renderable drained the frame
-- is what drawing the triangles one behind the other gives.
theorem frame_painted {P α ι : Type} [DecidableEq ι] {buffer : BitVec 64} {width height stride : Nat} {initial : BitVec 64 → α}
    {s : Canvas P α ι} (fits : FrameFits buffer width height stride)
    (path : Canvas.Reached (createRenderable buffer width height stride) initial s) :
    let cache := createRenderable buffer width height stride
    (∀ tile, cache.shows tile → ∃ p, p ≤ s.published.length ∧ fetch s.memory (cache.tileAt tile) =
      (s.published.take p).foldl (fun pixels t => t.paint tile pixels) (fetch initial (cache.tileAt tile))) ∧
    (∀ a, (∀ tile, cache.shows tile → ∀ n, cache.tileAt tile n ≠ a) → s.memory a = initial a) ∧
    (s.pipeline.system.line.stillProcessingQueue = false → s.memory = cache.paintAll s.published initial) := by
  obtain ⟨r,t,painted⟩ := reached_painted (created_apart fits) path
  exact ⟨painted.shows,painted.outside,painted.finished (created_apart fits)⟩

-- The record that an SPU looks at is a published one.
theorem Canvas.Reached.looks {P α ι : Type} [DecidableEq ι] {cache : PixelTiles} {initial : BitVec 64 → α} {s : Canvas P α ι} {k : ι}
    (apart : Apart cache.inFrame cache.tile) (path : Canvas.Reached cache initial s) (at_ : s.pipeline.system.spus k = .scanning v) :
    ∃ triangle ∈ s.published, (s.pipeline.system.ring v.chunkTriangle).covers = triangle.covers := by
  obtain ⟨r,t,painted⟩ := reached_painted apart path
  have own := painted.unrolled.named.spus k
  rw [at_] at own
  cases there : t.spus k with
  | scanning w =>
    have stands := painted.unrolled.tiles.stands k
    have recent := painted.unrolled.near.spus k
    rw [there] at own stands recent
    obtain rfl : v = w.map place := Spu.scanning.inj own
    have less : w.chunkTriangle < t.line.endTriangle := Nat.lt_of_lt_of_le stands.more stands.ends
    obtain ⟨triangle,here⟩ : ∃ triangle, s.published[w.chunkTriangle]? = some triangle :=
      ⟨_,List.getElem?_eq_getElem (painted.count ▸ less)⟩
    refine ⟨triangle,List.mem_of_getElem? here,?_⟩
    have read := painted.unrolled.reads _ less recent.1.1.2
    rw [← painted.covers _ _ here,show (w.map place).chunkTriangle = place w.chunkTriangle from rfl,read]
    rfl
  | rendering =>
    rw [there] at own
    obtain ⟨_,none,_⟩ := own
    cases none
  | _ =>
    rw [there] at own
    cases own

-- What a step of one SPU leaves alone.
theorem Canvas.run_frame [DecidableEq ι] (cache : PixelTiles) (s : Canvas P α ι) (k : ι) :
    (s.run cache k).published = s.published ∧ (s.run cache k).shaded = s.shaded ∧
      ((s.run cache k).pipeline = s.pipeline.act (.run k) ∨ (s.run cache k).pipeline = s.pipeline) ∧
      ∀ k', k' ≠ k → (s.run cache k).painters k' = s.painters k' := by
  unfold Canvas.run
  dsimp only
  cases s.pipeline.system.spus k with
  | scanning => exact ⟨rfl,rfl,.inl rfl,fun _ other => Function.update_of_ne other _ _⟩
  | storing =>
    dsimp only
    split
    · exact ⟨rfl,rfl,.inl rfl,fun _ other => Function.update_of_ne other _ _⟩
    · exact ⟨rfl,rfl,.inl rfl,fun _ _ => rfl⟩
  | rendering =>
    dsimp only
    split
    · exact ⟨rfl,rfl,.inl rfl,fun _ other => Function.update_of_ne other _ _⟩
    · split
      · exact ⟨rfl,rfl,.inl rfl,fun _ other => Function.update_of_ne other _ _⟩
      · exact ⟨rfl,rfl,.inl rfl,fun _ other => Function.update_of_ne other _ _⟩
  | finishing =>
    dsimp only
    split
    · exact ⟨rfl,rfl,.inl rfl,fun _ _ => rfl⟩
    · exact ⟨rfl,rfl,.inr rfl,fun _ other => Function.update_of_ne other _ _⟩
  | _ => exact ⟨rfl,rfl,.inl rfl,fun _ _ => rfl⟩

instance (s : System Nat ι) (k : ι) : Decidable (RoomySplits s k) :=
  @instDecidableAnd _ _ _ (match s.spus k with
    | .storing v _ _ _ => inferInstanceAs (Decidable (15 ≤ v.chunkEnd))
    | .idle => .isTrue trivial
    | .claiming _ => .isTrue trivial
    | .scanning _ => .isTrue trivial
    | .splitting _ _ _ => .isTrue trivial
    | .rendering _ _ _ => .isTrue trivial
    | .finishing _ => .isTrue trivial
    | .releasing _ _ => .isTrue trivial)

theorem Canvas.Reached.runs [DecidableEq ι] {cache : PixelTiles} {initial : BitVec 64 → α} {s : Canvas P α ι}
    (path : Canvas.Reached cache initial s) (k : ι) (count : Nat) (roomy : ∀ n, n < count → RoomySplits ((fun s => s.run cache k)^[n] s).pipeline.system k) :
    Canvas.Reached cache initial ((fun s => s.run cache k)^[count] s) :=
  Runs.Reached.iterate (a := CanvasAction.run k) path count roomy

theorem Canvas.runs_published [DecidableEq ι] {cache : PixelTiles} {s : Canvas P α ι} (k : ι) (count : Nat) :
    ((fun s => s.run cache k)^[count] s).published = s.published := by
  induction count with
  | zero => rfl
  | succ count ih => rw [Function.iterate_succ_apply',(Canvas.run_frame _ _ k).1,ih]

-- A step over a triangle that has no tile in the chunk.
def Canvas.passed [DecidableEq ι] (s : Canvas P α ι) (k : ι) : Canvas P α ι :=
  match s.pipeline.system.spus k with
  | .scanning v =>
    let later := {v with chunkTriangle := (s.pipeline.system.ring v.chunkTriangle).next_triangle}
    let spu := if later.chunkTriangle = later.endTriangle then Spu.finishing later else .scanning later
    Canvas.paint {s with pipeline := {s.pipeline with system := s.pipeline.system.move k spu}} k
      {s.painters k with triangle := s.shaded v.chunkTriangle}
  | _ => s

def Canvas.scans (s : Canvas P α ι) (k : ι) (first : Nat) : Bool :=
  match s.pipeline.system.spus k with
  | .scanning v => decide (first ≤ v.chunkStart ∧ v.chunkEnd < 4096)
  | _ => false

section
variable {P α ι : Type} [DecidableEq ι] {cache : PixelTiles} {initial : BitVec 64 → α} {s : Canvas P α ι} {k : ι} {first : Nat}

theorem Canvas.Reached.passes (apart : Apart cache.inFrame cache.tile) (path : Canvas.Reached cache initial s)
    (away : ∀ triangle ∈ s.published, ∀ tile, first ≤ tile → tile < 4096 → triangle.covers tile = false) (scans : s.scans k first = true) :
    RoomySplits s.pipeline.system k ∧ s.run cache k = s.passed k := by
  unfold Canvas.scans at scans
  cases at_ : s.pipeline.system.spus k with
  | scanning v =>
    rw [at_] at scans
    obtain ⟨low,high⟩ := of_decide_eq_true scans
    obtain ⟨triangle,member,covers⟩ := path.looks apart at_
    have none : findFirstTriangleTile (s.pipeline.system.ring v.chunkTriangle) v.chunkStart v.chunkEnd = none := by
      cases found : findFirstTriangleTile (s.pipeline.system.ring v.chunkTriangle) v.chunkStart v.chunkEnd with
      | none => rfl
      | some tile =>
        obtain ⟨from_,upto,covered,_⟩ := findFirst_some found
        rw [covers,away triangle member tile (Nat.le_trans low from_) (Nat.lt_of_le_of_lt upto high)] at covered
        cases covered
    constructor
    · unfold RoomySplits WholeSplits
      rw [at_]
      exact ⟨⟨nofun,trivial⟩,trivial⟩
    · unfold Canvas.run Canvas.passed
      simp only [at_,Pipeline.act,System.act,System.run,none]
      split <;> rfl
  | _ =>
    rw [at_] at scans
    cases scans

theorem Canvas.passed_published : (s.passed k).published = s.published := by
  unfold Canvas.passed
  split <;> rfl

theorem Canvas.passed_all (count : Nat) : ((fun s => Canvas.passed s k)^[count] s).published = s.published := by
  induction count with
  | zero => rfl
  | succ count ih => rw [Function.iterate_succ_apply',Canvas.passed_published,ih]

theorem Canvas.Reached.passing (apart : Apart cache.inFrame cache.tile) (path : Canvas.Reached cache initial s)
    (away : ∀ triangle ∈ s.published, ∀ tile, first ≤ tile → tile < 4096 → triangle.covers tile = false) (count : Nat)
    (scans : ∀ n, n < count → ((fun s => Canvas.passed s k)^[n] s).scans k first = true) :
    Canvas.Reached cache initial ((fun s => Canvas.passed s k)^[count] s) := by
  induction count with
  | zero => exact path
  | succ count ih =>
    have reached := ih fun n less => scans n (Nat.lt_succ_of_lt less)
    have away' := Canvas.passed_all (s := s) (k := k) count ▸ away
    rw [Function.iterate_succ_apply']
    obtain ⟨roomy,passed⟩ := reached.passes apart away' (scans count (Nat.lt_succ_self _))
    rw [← passed]
    exact reached.step ⟨.run k,roomy,rfl⟩

end

-- A triangle over all of a small frame, written back by the first of two SPUs.
def paintedStart : Canvas Nat Nat (Fin 2) :=
  .start (fun _ => ⟨fun _ => false,0⟩) (fun _ => shadedTriangle 0) (fun _ => ⟨shadedTriangle 0,emptyBuffers,false,0,[]⟩) fun _ => 0

def paintedWritten : Canvas Nat Nat (Fin 2) :=
  [.getTriangleBuffer,.write (shadedTriangle 5),.publish].foldl (Canvas.act smallFrame) paintedStart

theorem wide_drawable : (shadedTriangle colour).Drawable := ⟨wideX,wideY,wide_words.1,wide_words.2,wide_accepted⟩

def paintedSmall : Canvas Nat Nat (Fin 2) := (fun s => s.run smallFrame 0)^[12] paintedWritten

theorem frame_painted_small : ∃ p, p ≤ paintedSmall.published.length ∧ fetch paintedSmall.memory (smallFrame.tileAt 0) =
    (paintedSmall.published.take p).foldl (fun pixels t => t.paint 0 pixels) (fetch (fun _ => 0) (smallFrame.tileAt 0)) := by
  have written : Canvas.Reached smallFrame (fun _ => 0) paintedWritten :=
    Runs.Reached.follow (.start ⟨_,_,_,rfl⟩) ⟨rfl,wide_drawable,trivial,trivial⟩
  have run : Canvas.Reached smallFrame (fun _ => 0) paintedSmall := written.runs 0 12 (by decide +kernel)
  obtain ⟨shows,_,_⟩ := frame_painted ⟨by decide,by decide,by decide,by decide⟩ run
  exact shows 0 ⟨⟨by decide,by decide⟩,by decide⟩

end Spugl
