import Spugl.RenderTasks

namespace Spugl

abbrev CHUNKNEXT_MASK : Nat := 31

namespace CacheLine

-- v_dirty of one slot. A slot counts as busy when all bits of the mask are set.
def dirtyLane (c : CacheLine Nat) (i : Slot) : Bool :=
  (decide ((c.chunkNext i).byte &&& CHUNKNEXT_MASK = CHUNKNEXT_MASK) || !decide (c.chunkTriangle i = c.endTriangle)) && !c.freeLane i

def stillProcessingQueue (c : CacheLine Nat) : Bool := (lowest c.dirtyLane).isSome

-- No slot but a FREE one has all bits of the mask.
theorem masked_free (n : ChunkNext) (full : n.byte &&& CHUNKNEXT_MASK = CHUNKNEXT_MASK) : n = .free := by
  cases n with
  | free => rfl
  | reserved => exact absurd full (by decide)
  | chunk busy next =>
    revert busy next
    decide

-- So the test of the busy slots adds nothing, and the pointers alone decide.
theorem stillProcessing_exact (c : CacheLine Nat) :
    c.stillProcessingQueue = false ↔ ∀ i, c.chunkNext i ≠ .free → c.chunkTriangle i = c.endTriangle := by
  unfold stillProcessingQueue
  rw [Option.isSome_eq_false_iff,Option.isNone_iff_eq_none,lowest_none]
  apply forall_congr'
  intro i
  unfold dirtyLane freeLane
  by_cases free : c.chunkNext i = .free
  · simp [free]
  · have open_ : ¬(c.chunkNext i).byte &&& CHUNKNEXT_MASK = CHUNKNEXT_MASK := fun full => free (masked_free _ full)
    simp [free,open_]

end CacheLine
end Spugl
