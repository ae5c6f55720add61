import Spugl.CacheLine

namespace Spugl

-- The part of a triangle record that the scheduler reads. `covers` is the set
-- of tiles the record's edge functions admit.
structure TriangleRecord (τ : Type) where
  covers : Nat → Bool
  next_triangle : τ

-- The least covered tile of chunkStart..chunkEnd; none stands for -1.
def findFirstTriangleTile (triangle : TriangleRecord τ) (chunkStart chunkEnd : Nat) : Option Nat :=
  (List.range' chunkStart (chunkEnd+1-chunkStart)).find? triangle.covers

theorem findFirst_some (found : findFirstTriangleTile triangle chunkStart chunkEnd = some t) :
    chunkStart ≤ t ∧ t ≤ chunkEnd ∧ triangle.covers t = true ∧
      ∀ u, chunkStart ≤ u → u < t → triangle.covers u = false := by
  unfold findFirstTriangleTile at found
  have member := List.mem_range'_1.mp (List.mem_of_find?_eq_some found)
  refine ⟨member.1,by omega,List.find?_some found,?_⟩
  intro u low high
  obtain ⟨_,earlier,later,split,missed⟩ := List.find?_eq_some_iff_append.mp found
  -- The range is sorted, so a smaller tile stands in front of the one found.
  have present : u ∈ earlier ++ t :: later := by rw [← split]; exact List.mem_range'_1.mpr ⟨low,by omega⟩
  have sorted : (earlier ++ t :: later).Pairwise (· < ·) := by rw [← split]; exact List.pairwise_lt_range'
  rcases List.mem_append.mp present with before | after
  · simpa using missed u before
  · rcases List.mem_cons.mp after with same | after
    · omega
    · have := (List.pairwise_cons.mp (List.pairwise_append.mp sorted).2.1).1 u after
      omega

theorem findFirst_none (missed : findFirstTriangleTile triangle chunkStart chunkEnd = none)
    (low : chunkStart ≤ u) (high : u ≤ chunkEnd) : triangle.covers u = false := by
  have all := List.find?_eq_none.mp missed u (List.mem_range'_1.mpr ⟨low,by omega⟩)
  simpa using all

-- A C int converted to unsigned int, as mixed comparisons do.
def unsigned (x : Int) : Nat := (x % 2^32).toNat

namespace CacheLine
variable {τ : Type} [DecidableEq τ]

-- One lane of end0, end1: the successor's start, or 4096 where that is zero.
def endLane (c : CacheLine τ) (i : Slot) : Nat :=
  let nstart := c.chunkStart (c.chunkNext i).mask
  if nstart = 0 then 4096 else nstart

def smallLane (c : CacheLine τ) (i : Slot) : Bool :=
  decide ((c.endLane i + 65536 - c.chunkStart i) % 65536 < 17)

-- spu_nor( doneChunkGather, busyChunkGather )
def mayProcess (c : CacheLine τ) (i : Slot) : Bool :=
  !(decide (c.chunkTriangle i = c.endTriangle)) && !(decide (31 < (c.chunkNext i).byte))

def chunkToProcess (c : CacheLine τ) : Option Slot :=
  match lowest (fun i => c.mayProcess i && c.smallLane i) with
  | some i => some i
  | none => lowest c.mayProcess

def freeLane (c : CacheLine τ) (i : Slot) : Bool := decide (c.chunkNext i = .free)

def freeSlot (c : CacheLine τ) : Option Slot := lowest c.freeLane

-- freeChunkGather2 with the lane of freeChunk2 cleared
def freeSlot2 (c : CacheLine τ) : Option Slot :=
  lowest (fun i => c.freeLane i && decide (c.freeSlot ≠ some i))

def setNext (c : CacheLine τ) (i : Slot) (next : ChunkNext) : CacheLine τ :=
  {c with chunkNext := Function.update c.chunkNext i next}

def setTriangle (c : CacheLine τ) (i : Slot) (triangle : τ) : CacheLine τ :=
  {c with chunkTriangle := Function.update c.chunkTriangle i triangle}

def setStart (c : CacheLine τ) (i : Slot) (start : Nat) : CacheLine τ :=
  {c with chunkStart := Function.update c.chunkStart i start}

section
omit [DecidableEq τ]
variable (c : CacheLine τ) (i : Slot) (n : ChunkNext) (p : τ) (x : Nat)

@[simp] theorem setNext_chunkNext : (c.setNext i n).chunkNext = Function.update c.chunkNext i n := rfl
@[simp] theorem setNext_chunkStart : (c.setNext i n).chunkStart = c.chunkStart := rfl
@[simp] theorem setNext_chunkTriangle : (c.setNext i n).chunkTriangle = c.chunkTriangle := rfl
@[simp] theorem setNext_endTriangle : (c.setNext i n).endTriangle = c.endTriangle := rfl
@[simp] theorem setTriangle_chunkNext : (c.setTriangle i p).chunkNext = c.chunkNext := rfl
@[simp] theorem setTriangle_chunkStart : (c.setTriangle i p).chunkStart = c.chunkStart := rfl
@[simp] theorem setTriangle_chunkTriangle : (c.setTriangle i p).chunkTriangle = Function.update c.chunkTriangle i p := rfl
@[simp] theorem setTriangle_endTriangle : (c.setTriangle i p).endTriangle = c.endTriangle := rfl
@[simp] theorem setStart_chunkNext : (c.setStart i x).chunkNext = c.chunkNext := rfl
@[simp] theorem setStart_chunkStart : (c.setStart i x).chunkStart = Function.update c.chunkStart i x := rfl
@[simp] theorem setStart_chunkTriangle : (c.setStart i x).chunkTriangle = c.chunkTriangle := rfl
@[simp] theorem setStart_endTriangle : (c.setStart i x).endTriangle = c.endTriangle := rfl

end

end CacheLine

-- The locals of process_render_tasks that outlive one section. `claimed` is not
-- a variable of the code: it records which slot the claim reserved, and no step
-- reads it.
structure Locals (τ : Type) where
  chunkToProcess : Slot
  chunkStart : Nat
  chunkTriangle : τ
  chunkNext : Slot
  chunkEnd : Nat
  freeChunk : Option Slot
  endTriangle : τ
  claimed : Option Slot

section
variable {τ : Type} [DecidableEq τ]

-- From the choice of a chunk to the conditional store that marks it busy.
def claimChunk (c : CacheLine τ) : Option (CacheLine τ × Locals τ) :=
  match c.chunkToProcess with
  | none => none
  | some chunkToProcess =>
    let chunkStart := c.chunkStart chunkToProcess
    let chunkTriangle := c.chunkTriangle chunkToProcess
    let chunkNext := (c.chunkNext chunkToProcess).mask
    let chunkEnd := (c.chunkStart chunkNext + 4095) % 4096
    let chunkLength := (1 + chunkEnd + 2^32 - chunkStart) % 2^32
    let freeChunk := if chunkLength ≤ NUMBER_OF_TILES_PER_CHUNK then none else c.freeSlot
    let busy := c.setNext chunkToProcess (c.chunkNext chunkToProcess).setBusy
    let line := match freeChunk with
      | some f => (busy.setNext f .reserved).setTriangle f chunkTriangle
      | none => busy
    some (line,⟨chunkToProcess,chunkStart,chunkTriangle,chunkNext,chunkEnd,freeChunk,c.endTriangle,freeChunk⟩)

-- nextBlockStart, thisBlockStart and realBlockStart of the splitting section.
structure Window where
  firstTile : Nat
  nextBlockStart : Nat
  thisBlockStart : Int
  realBlockStart : Int

def nextBlockStart (v : Locals τ) (firstTile : Nat) : Nat :=
  if firstTile + NUMBER_OF_TILES_PER_CHUNK > v.chunkEnd then v.chunkEnd+1
  else firstTile + NUMBER_OF_TILES_PER_CHUNK

-- thisBlockStart is an int and chunkStart an unsigned int, so the test that
-- should clamp it to chunkStart compares it as unsigned.
def thisBlockStart (v : Locals τ) (firstTile : Nat) : Int :=
  let back : Int := nextBlockStart v firstTile - NUMBER_OF_TILES_PER_CHUNK
  if unsigned back < v.chunkStart then v.chunkStart else back

def needsTail (v : Locals τ) (firstTile : Nat) : Bool := decide (nextBlockStart v firstTile < v.chunkEnd)

def needsHead (v : Locals τ) (firstTile : Nat) : Bool :=
  decide (unsigned (thisBlockStart v firstTile) > v.chunkStart)

-- freeChunk, freeChunk2 and the line after the free slots have been looked up.
def allocate (v : Locals τ) (cache : CacheLine τ) : Option Slot × Option Slot × CacheLine τ :=
  match v.freeChunk with
  | none => (cache.freeSlot,cache.freeSlot2,cache)
  | some f => (some f,cache.freeSlot,cache.setNext f .free)

-- "mark region after as available for processing"
def insertTail (v : Locals τ) (firstTile : Nat) (f : Slot) (cache : CacheLine τ) : CacheLine τ :=
  (((cache.setStart f (nextBlockStart v firstTile)).setNext f (.chunk false v.chunkNext)).setTriangle f
    v.chunkTriangle).setNext v.chunkToProcess (.chunk true f)

-- "mark region before as available for processing"
def insertHead (v : Locals τ) (firstTile : Nat) (next : τ) (tailChunk g : Slot) (cache : CacheLine τ) : CacheLine τ :=
  ((((cache.setStart g (unsigned (thisBlockStart v firstTile) % 65536)).setNext g (.chunk true tailChunk)).setTriangle g
    v.chunkTriangle).setNext v.chunkToProcess (.chunk false g)).setTriangle v.chunkToProcess next

-- "need to keep whole block"
def keepWhole (v : Locals τ) (tailChunk : Slot) (cache : CacheLine τ) : CacheLine τ :=
  (cache.setTriangle v.chunkToProcess v.chunkTriangle).setNext v.chunkToProcess (.chunk true tailChunk)

inductive Split (τ : Type) where
  | relinquish (line : CacheLine τ)
  | reslice (line : CacheLine τ) (tailChunk thisChunk : Slot) (window : Window)

-- The line as the splitting section leaves it before merge_cache_blocks.
def resliceHead (v : Locals τ) (next : τ) (firstTile : Nat) (tailChunk : Slot) (freeChunk2 : Option Slot)
    (cache : CacheLine τ) : Split τ :=
  let this := thisBlockStart v firstTile
  let window (real : Int) : Window := ⟨firstTile,nextBlockStart v firstTile,this,real⟩
  if needsHead v firstTile then
    match freeChunk2 with
    | some g => .reslice (insertHead v firstTile next tailChunk g cache) tailChunk g (window this)
    | none => .reslice (keepWhole v tailChunk cache) tailChunk v.chunkToProcess (window v.chunkStart)
  else .reslice cache tailChunk v.chunkToProcess (window this)

def splitChunk (v : Locals τ) (next : τ) (firstTile : Nat) (cache : CacheLine τ) : Split τ :=
  let (freeChunk,freeChunk2,cache) := allocate v cache
  if needsTail v firstTile then
    match freeChunk with
    | none => .relinquish (cache.setNext v.chunkToProcess (.chunk false v.chunkNext))
    | some f => resliceHead v next firstTile f freeChunk2 (insertTail v firstTile f cache)
  else resliceHead v next firstTile v.chunkNext freeChunk cache

-- "mark block as completed up to triangle", before merge_cache_blocks
def releaseChunk (v : Locals τ) (cache : CacheLine τ) : CacheLine τ :=
  let cache := match v.freeChunk with
    | some f => cache.setNext f .free
    | none => cache
  (cache.setNext v.chunkToProcess (.chunk false v.chunkNext)).setTriangle v.chunkToProcess v.chunkTriangle

end
end Spugl
