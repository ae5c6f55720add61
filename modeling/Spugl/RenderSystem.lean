import Spugl.RenderTasks
import Spugl.Runs

namespace Spugl

-- Where one render SPU stands in process_render_tasks on this cache line.
-- `cache` is the copy read by GETLLAR; between a GETLLAR and its PUTLLC the code
-- computes only on that copy, so the rewriting is done at the PUTLLC step.
inductive Spu (τ : Type) where
  | idle
  | claiming (cache : CacheLine τ)
  | scanning (v : Locals τ)
  | splitting (v : Locals τ) (triangle : TriangleRecord τ) (firstTile : Nat)
  | storing (v : Locals τ) (triangle : TriangleRecord τ) (firstTile : Nat) (cache : CacheLine τ)
  | rendering (v : Locals τ) (triangle : TriangleRecord τ) (window : Window)
  | finishing (v : Locals τ)
  | releasing (v : Locals τ) (cache : CacheLine τ)

-- One call of processTriangleChunks.
structure Rendered (τ : Type) where
  chunkTriangle : τ
  firstTile : Int
  chunkEnd : Nat

-- The tiles that such a call is run over. subdivide stops in front of blockMax = chunkEnd+1, and
-- its block, base - blockStart, must lie in front of it too: from a negative firstTile on the last are left out.
def CallRange (firstTile : Int) (chunkEnd tile : Nat) : Prop :=
  (firstTile ≤ tile ∧ tile ≤ chunkEnd) ∧ (tile : Int) - firstTile < chunkEnd+1

instance (firstTile : Int) (chunkEnd tile : Nat) : Decidable (CallRange firstTile chunkEnd tile) := inferInstanceAs (Decidable (_ ∧ _))

theorem callRange_natural (firstTile chunkEnd tile : Nat) : CallRange firstTile chunkEnd tile ↔ firstTile ≤ tile ∧ tile ≤ chunkEnd := by
  unfold CallRange
  omega

-- `ring` is the triangle buffer behind the cache line. `held` is the reservation
-- of a GETLLAR: any write of the line by anyone ends every reservation.
structure System (τ ι : Type) where
  line : CacheLine τ
  ring : τ → TriangleRecord τ
  spus : ι → Spu τ
  held : ι → Bool
  rendered : List (Rendered τ)

section
variable {τ : Type}

def System.start (origin : τ) (ring : τ → TriangleRecord τ) : System τ ι where
  line := .create origin
  ring := ring
  spus := fun _ => .idle
  held := fun _ => false
  rendered := []

section
variable {ι : Type} [DecidableEq ι]

def System.move (s : System τ ι) (k : ι) (spu : Spu τ) : System τ ι :=
  {s with spus := Function.update s.spus k spu}

-- MFC_GETLLAR_CMD
def System.getllar (s : System τ ι) (k : ι) (spu : Spu τ) : System τ ι :=
  {s.move k spu with held := Function.update s.held k true}

-- MFC_PUTLLC_CMD and the test of MFC_PUTLLC_STATUS
def System.putllc (s : System τ ι) (k : ι) (line : CacheLine τ) (stored failed : Spu τ) : System τ ι :=
  if s.held k then {s.move k stored with line := line,held := fun _ => false} else s.move k failed

end

variable [DecidableEq τ]

-- A failed PUTLLC leaves freeChunk as the attempt has set it.
def Locals.retry (v : Locals τ) (cache : CacheLine τ) : Locals τ := {v with freeChunk := (allocate v cache).1}

-- "finally after the write succeeded, update the variables"
def Locals.stored (v : Locals τ) (tailChunk thisChunk : Slot) (window : Window) : Locals τ :=
  {v with
    chunkNext := tailChunk
    chunkToProcess := thisChunk
    chunkStart := window.firstTile
    chunkEnd := window.nextBlockStart-1
    freeChunk := none
    claimed := none}

variable {ι : Type} [DecidableEq ι]

-- One step of one SPU: a lock-line command or one turn of one of its loops.
def System.run (s : System τ ι) (k : ι) : System τ ι :=
  match s.spus k with
  | .idle => s.getllar k (.claiming s.line)
  | .claiming cache =>
    match claimChunk cache with
    | none => s.move k .idle
    | some (line,v) => s.putllc k line (.scanning v) .idle
  | .scanning v =>
    let triangle := s.ring v.chunkTriangle
    match findFirstTriangleTile triangle v.chunkStart v.chunkEnd with
    | some firstTile => s.move k (.splitting v triangle firstTile)
    | none =>
      let v := {v with chunkTriangle := triangle.next_triangle}
      if v.chunkTriangle = v.endTriangle then s.move k (.finishing v) else s.move k (.scanning v)
  | .splitting v triangle firstTile => s.getllar k (.storing v triangle firstTile s.line)
  | .storing v triangle firstTile cache =>
    let failed := Spu.splitting (v.retry cache) triangle firstTile
    match splitChunk v triangle.next_triangle firstTile cache with
    | .relinquish line => s.putllc k line .idle failed
    | .reslice line tailChunk thisChunk window =>
      s.putllc k line.merge_cache_blocks (.rendering (v.stored tailChunk thisChunk window) triangle window) failed
  | .rendering v triangle window =>
    if v.chunkTriangle = v.endTriangle then s.move k (.finishing v) else
    let s := {s with rendered := s.rendered ++ [Rendered.mk v.chunkTriangle window.thisBlockStart v.chunkEnd]}
    let v := {v with chunkTriangle := triangle.next_triangle}
    if v.chunkStart ≠ unsigned window.realBlockStart then s.move k (.finishing v)
    else s.move k (.rendering v (s.ring v.chunkTriangle) window)
  | .finishing v => s.getllar k (.releasing v s.line)
  | .releasing v cache => s.putllc k (releaseChunk v cache).merge_cache_blocks .idle (.finishing v)

-- `record` is the primary SPU filling in a record of the triangle buffer,
-- `advance` its store of endTriangle into the line.
inductive Action (τ ι : Type) where
  | run (k : ι)
  | record (p : τ) (triangle : TriangleRecord τ)
  | advance (endTriangle : τ)

def System.act (s : System τ ι) : Action τ ι → System τ ι
  | .run k => s.run k
  | .record p triangle => {s with ring := Function.update s.ring p triangle}
  | .advance endTriangle => {s with line := {s.line with endTriangle := endTriangle},held := fun _ => false}

-- Runs in which every step meets `allowed`.
def Reached (allowed : System τ ι → Action τ ι → Prop) (origin : τ) : System τ ι → Prop :=
  Runs.Reached (fun s => ∃ ring, s = System.start origin ring) (Runs.Step System.act allowed)

end
end Spugl
