import Spugl.RenderSystem

namespace Spugl

section
variable {τ τ' : Type} (f : τ → τ')

-- The same line, record and locals under other names for the triangles.
def CacheLine.map (c : CacheLine τ) : CacheLine τ' where
  chunkTriangle := fun i => f (c.chunkTriangle i)
  chunkStart := c.chunkStart
  chunkNext := c.chunkNext
  endTriangle := f c.endTriangle

def TriangleRecord.map (r : TriangleRecord τ) : TriangleRecord τ' := ⟨r.covers,f r.next_triangle⟩

def Locals.map (v : Locals τ) : Locals τ' where
  chunkToProcess := v.chunkToProcess
  chunkStart := v.chunkStart
  chunkTriangle := f v.chunkTriangle
  chunkNext := v.chunkNext
  chunkEnd := v.chunkEnd
  freeChunk := v.freeChunk
  endTriangle := f v.endTriangle
  claimed := v.claimed

def Split.map : Split τ → Split τ'
  | .relinquish line => .relinquish (line.map f)
  | .reslice line tailChunk thisChunk window => .reslice (line.map f) tailChunk thisChunk window

def Rendered.map (r : Rendered τ) : Rendered τ' := ⟨f r.chunkTriangle,r.firstTile,r.chunkEnd⟩

-- The code compares the pointers of idle chunks with each other and with endTriangle.
-- Under the new names it has to come to the same answers.
structure Tells (c : CacheLine τ) : Prop where
  ends : ∀ i n, c.chunkNext i = .chunk false n → f (c.chunkTriangle i) = f c.endTriangle → c.chunkTriangle i = c.endTriangle
  pair : ∀ i j n m, c.chunkNext i = .chunk false n → c.chunkNext j = .chunk false m →
    f (c.chunkTriangle i) = f (c.chunkTriangle j) → c.chunkTriangle i = c.chunkTriangle j

namespace CacheLine
variable (c : CacheLine τ) (i : Slot) (n : ChunkNext) (p : τ) (x : Nat)

@[simp] theorem map_chunkNext : (c.map f).chunkNext = c.chunkNext := rfl
@[simp] theorem map_chunkStart : (c.map f).chunkStart = c.chunkStart := rfl
@[simp] theorem map_chunkTriangle : (c.map f).chunkTriangle i = f (c.chunkTriangle i) := rfl
@[simp] theorem map_endTriangle : (c.map f).endTriangle = f c.endTriangle := rfl

theorem map_setNext : (c.setNext i n).map f = (c.map f).setNext i n := rfl
theorem map_setStart : (c.setStart i x).map f = (c.map f).setStart i x := rfl

theorem map_setTriangle : (c.setTriangle i p).map f = (c.map f).setTriangle i (f p) := by
  unfold setTriangle map
  congr 1
  funext j
  by_cases same : j = i
  · simp [same]
  · simp [same]

end CacheLine

variable {f} {c : CacheLine τ} {v : Locals τ}

theorem allocate_map : allocate (v.map f) (c.map f) = ((allocate v c).1,(allocate v c).2.1,(allocate v c).2.2.map f) := by
  unfold allocate
  have slots : (v.map f).freeChunk = v.freeChunk := rfl
  rw [slots]
  cases v.freeChunk <;> rfl

theorem resliceHead_map (next : τ) (tailChunk : Slot) (freeChunk2 : Option Slot) :
    resliceHead (v.map f) (f next) firstTile tailChunk freeChunk2 (c.map f) =
      (resliceHead v next firstTile tailChunk freeChunk2 c).map f := by
  have head : needsHead (v.map f) firstTile = needsHead v firstTile := rfl
  unfold resliceHead
  dsimp only
  rw [head]
  split
  · cases freeChunk2 with
    | none =>
      simp only [Split.map,keepWhole,CacheLine.map_setNext,CacheLine.map_setTriangle]
      rfl
    | some g =>
      simp only [Split.map,insertHead,CacheLine.map_setNext,CacheLine.map_setTriangle,CacheLine.map_setStart]
      rfl
  · rfl

-- A split compares no pointers.
theorem splitChunk_map (next : τ) (firstTile : Nat) :
    splitChunk (v.map f) (f next) firstTile (c.map f) = (splitChunk v next firstTile c).map f := by
  have tail : needsTail (v.map f) firstTile = needsTail v firstTile := rfl
  rcases allocated : allocate v c with ⟨free,free2,line⟩
  unfold splitChunk
  rw [allocate_map,allocated,tail]
  dsimp only
  split
  · cases free with
    | none => rfl
    | some g =>
      have tailed : insertTail (v.map f) firstTile g (line.map f) = (insertTail v firstTile g line).map f := by
        simp only [insertTail,CacheLine.map_setNext,CacheLine.map_setTriangle,CacheLine.map_setStart]
        rfl
      dsimp only
      rw [tailed,resliceHead_map]
  · exact resliceHead_map next v.chunkNext free

theorem releaseChunk_map : releaseChunk (v.map f) (c.map f) = (releaseChunk v c).map f := by
  have slots : (v.map f).freeChunk = v.freeChunk := rfl
  unfold releaseChunk
  rw [slots]
  dsimp only
  rw [CacheLine.map_setTriangle]
  cases v.freeChunk <;> rfl

variable [DecidableEq τ] [DecidableEq τ']

theorem mayProcess_map (tells : Tells f c) (i : Slot) : (c.map f).mayProcess i = c.mayProcess i := by
  unfold CacheLine.mayProcess
  rw [CacheLine.map_chunkNext]
  by_cases held : 31 < (c.chunkNext i).byte
  · rw [decide_eq_true held]
    simp
  · -- Only an idle chunk gets as far as the comparison.
    have idle : ∃ n, c.chunkNext i = .chunk false n := by
      by_contra none
      exact held ((ChunkNext.busy_byte _).mpr fun n same => none ⟨n,same⟩)
    obtain ⟨n,idle⟩ := idle
    have same : (c.map f).chunkTriangle i = (c.map f).endTriangle ↔ c.chunkTriangle i = c.endTriangle :=
      ⟨tells.ends i n idle,congrArg f⟩
    rw [decide_eq_decide.mpr same]

theorem chunkToProcess_map (tells : Tells f c) : (c.map f).chunkToProcess = c.chunkToProcess := by
  have lanes : (c.map f).mayProcess = c.mayProcess := funext (mayProcess_map tells)
  have small : (c.map f).smallLane = c.smallLane := rfl
  unfold CacheLine.chunkToProcess
  rw [lanes,small]

theorem claimChunk_map (tells : Tells f c) :
    claimChunk (c.map f) = (claimChunk c).map fun pair => (pair.1.map f,pair.2.map f) := by
  have slots : (c.map f).freeSlot = c.freeSlot := rfl
  unfold claimChunk
  rw [chunkToProcess_map tells]
  cases c.chunkToProcess with
  | none => rfl
  | some i =>
    simp only [CacheLine.map_chunkNext,CacheLine.map_chunkStart,slots]
    generalize (1 + (c.chunkStart (c.chunkNext i).mask + 4095) % 4096 + 2^32 - c.chunkStart i) % 2^32 = chunkLength
    generalize (if chunkLength ≤ NUMBER_OF_TILES_PER_CHUNK then none else c.freeSlot) = freeChunk
    cases freeChunk with
    | none => rfl
    | some g =>
      simp only [Option.map_some,CacheLine.map_setTriangle]
      rfl

theorem canmerge_map (tells : Tells f c) (i : Slot) : (c.map f).canmerge i = c.canmerge i := by
  rw [Bool.eq_iff_iff,CacheLine.canmerge_exact,CacheLine.canmerge_exact]
  refine exists_congr fun j => exists_congr fun k => ⟨fun may => ?_,fun may => ?_⟩
  · exact ⟨may.idle,may.next,may.inner,tells.pair i j j k may.idle may.next may.same⟩
  · exact ⟨may.idle,may.next,may.inner,congrArg f may.same⟩

theorem mergeStep_map (tells : Tells f c) : (c.map f).mergeStep = c.mergeStep.map (CacheLine.map f) := by
  have lanes : (c.map f).canmerge = c.canmerge := funext (canmerge_map tells)
  unfold CacheLine.mergeStep
  rw [lanes]
  cases CacheLine.lowest c.canmerge <;> rfl

omit [DecidableEq τ'] in
-- A merge leaves the pointers, and fewer of them idle.
theorem Tells.mergeStep (tells : Tells f c) (ran : c.mergeStep = some next) : Tells f next := by
  obtain ⟨i,j,k,may,rfl⟩ := CacheLine.mergeStep_cases ran
  have idle : ∀ l n, Function.update (Function.update c.chunkNext i (.chunk false k)) j .free l = .chunk false n →
      ∃ m, c.chunkNext l = .chunk false m := by
    intro l n here
    by_cases isJ : l = j
    · rw [isJ,Function.update_self] at here
      cases here
    · rw [Function.update_of_ne isJ] at here
      by_cases isI : l = i
      · exact ⟨j,isI ▸ may.idle⟩
      · rw [Function.update_of_ne isI] at here
        exact ⟨n,here⟩
  refine ⟨?_,?_⟩
  · intro l n here
    obtain ⟨m,before⟩ := idle l n here
    exact tells.ends l m before
  · intro l l' n n' here here'
    obtain ⟨m,before⟩ := idle l n here
    obtain ⟨m',before'⟩ := idle l' n' here'
    exact tells.pair l l' m m' before before'

theorem mergeLoop_map (fuel : Nat) (tells : Tells f c) : CacheLine.mergeLoop fuel (c.map f) = (CacheLine.mergeLoop fuel c).map f := by
  induction fuel generalizing c with
  | zero => rfl
  | succ fuel ih =>
    unfold CacheLine.mergeLoop
    rw [mergeStep_map tells]
    cases ran : c.mergeStep with
    | none => rfl
    | some next => exact ih (tells.mergeStep ran)

theorem merge_map (tells : Tells f c) : (c.map f).merge_cache_blocks = c.merge_cache_blocks.map f := mergeLoop_map 16 tells

end

end Spugl
