import Spugl.LineRewrites

namespace Spugl

theorem unsigned_nat {n : Nat} (small : n < 2^32) : unsigned (n : Int) = n := by
  unfold unsigned
  rw [Int.emod_eq_of_lt (Int.natCast_nonneg n) (by omega),Int.toNat_natCast]

theorem unsigned_negative {x : Int} (negative : x < 0) (small : -4096 ≤ x) : 2^32 - 4096 ≤ unsigned x := by
  unfold unsigned
  omega

section
variable {τ : Type}

-- What an SPU may count on in the line while it has a chunk.
structure Owns (line : CacheLine τ) (v : Locals τ) : Prop where
  linked : line.WellLinked
  busy : line.chunkNext v.chunkToProcess = .chunk true v.chunkNext
  reserved : ∀ f, v.claimed = some f → line.chunkNext f = .reserved

-- And from its claim to its split.
structure Counts (line : CacheLine τ) (v : Locals τ) : Prop extends Owns line v where
  start : line.chunkStart v.chunkToProcess = v.chunkStart
  stop : line.chunkStop v.chunkToProcess = v.chunkEnd+1
  spare : v.claimed = none ∨ v.freeChunk = v.claimed

-- When the splitting section may be trusted. Its free slot is the one the claim
-- reserved, or one that a failed attempt left behind and that is still free and
-- not also picked for the other use; and no chunk that ends before tile 15 finds
-- a slot for a head it does not have.
structure Sound (v : Locals τ) (firstTile : Nat) (line : CacheLine τ) : Prop where
  slot : v.freeChunk = v.claimed ∨ ∃ f, v.freeChunk = some f ∧ line.chunkNext f = .free ∧
    ¬(needsTail v firstTile = true ∧ needsHead v firstTile = true ∧ line.freeSlot = some f)
  clamp : 15 ≤ v.chunkEnd ∨ (allocate v line).1 = none

theorem Counts.bounded {line : CacheLine τ} {v : Locals τ} (counts : Counts line v) : v.chunkEnd < 4096 := by
  have link : line.links v.chunkToProcess = some v.chunkNext := by simp [CacheLine.links,counts.busy]
  have top := OrderedCycle.Ordered.stop_le counts.linked link
  have stop := counts.stop
  unfold CacheLine.chunkStop at stop
  rw [stop] at top
  exact top

section
variable (v : Locals τ) (firstTile : Nat)

theorem nextBlockStart_cases :
    (v.chunkEnd < firstTile+16 ∧ nextBlockStart v firstTile = v.chunkEnd+1) ∨
      (firstTile+16 ≤ v.chunkEnd ∧ nextBlockStart v firstTile = firstTile+16) := by
  unfold nextBlockStart NUMBER_OF_TILES_PER_CHUNK
  split <;> omega

theorem needsTail_exact : needsTail v firstTile = true ↔ firstTile+16 < v.chunkEnd := by
  have := nextBlockStart_cases v firstTile
  simp only [needsTail,decide_eq_true_eq]
  omega

-- From tile 15 on the clamp works, in plain integers.
theorem thisBlockStart_roomy (roomy : 15 ≤ v.chunkEnd) (bounded : v.chunkEnd < 4096) :
    thisBlockStart v firstTile = (max v.chunkStart (nextBlockStart v firstTile - 16) : Nat) := by
  have cases := nextBlockStart_cases v firstTile
  have back : (nextBlockStart v firstTile : Int) - (16 : Nat) = ((nextBlockStart v firstTile - 16 : Nat) : Int) := by
    omega
  unfold thisBlockStart NUMBER_OF_TILES_PER_CHUNK
  simp only [back]
  rw [unsigned_nat (by omega)]
  split <;> omega

theorem needsHead_roomy (roomy : 15 ≤ v.chunkEnd) (bounded : v.chunkEnd < 4096)
    (inside : v.chunkStart ≤ v.chunkEnd) :
    needsHead v firstTile = true ↔ v.chunkStart < nextBlockStart v firstTile - 16 := by
  have cases := nextBlockStart_cases v firstTile
  simp only [needsHead,decide_eq_true_eq,thisBlockStart_roomy v firstTile roomy bounded]
  rw [unsigned_nat (by omega)]
  omega

-- Before tile 15 the start is negative and the head test always holds.
theorem thisBlockStart_cramped (cramped : v.chunkEnd < 15) :
    needsTail v firstTile = false ∧ nextBlockStart v firstTile = v.chunkEnd+1 ∧
      (v.chunkStart ≤ v.chunkEnd → thisBlockStart v firstTile = (v.chunkEnd : Int) - 15 ∧
        needsHead v firstTile = true) := by
  have cases := nextBlockStart_cases v firstTile
  have noTail : ¬needsTail v firstTile = true := by rw [needsTail_exact]; omega
  have next : nextBlockStart v firstTile = v.chunkEnd+1 := by omega
  refine ⟨by simpa using noTail,next,?_⟩
  intro inside
  have large := unsigned_negative (x := (v.chunkEnd : Int) - 15) (by omega) (by omega)
  have this : thisBlockStart v firstTile = (v.chunkEnd : Int) - 15 := by
    unfold thisBlockStart NUMBER_OF_TILES_PER_CHUNK
    simp only [next]
    rw [show ((v.chunkEnd + 1 : Nat) : Int) - (16 : Nat) = (v.chunkEnd : Int) - 15 by omega]
    rw [if_neg (by omega)]
  refine ⟨this,?_⟩
  simp only [needsHead,decide_eq_true_eq,this]
  omega

end

theorem freeSlot_free {line : CacheLine τ} (found : line.freeSlot = some f) : line.chunkNext f = .free := by
  simpa [CacheLine.freeLane] using CacheLine.lowest_some found

theorem freeSlot2_free {line : CacheLine τ} (found : line.freeSlot2 = some g) :
    line.chunkNext g = .free ∧ line.freeSlot ≠ some g := by
  have lane := CacheLine.lowest_some found
  simpa [CacheLine.freeLane] using lane

theorem owns_exact {line : CacheLine τ} {v : Locals τ} :
    Owns line v ↔ line.WellLinked ∧ ∀ i n, v.Marks i n → line.chunkNext i = n := by
  constructor
  · intro owns
    refine ⟨owns.linked,?_⟩
    rintro i n (⟨rfl,rfl⟩ | ⟨claimed,rfl⟩)
    · exact owns.busy
    · exact owns.reserved i claimed
  · rintro ⟨linked,mine⟩
    exact ⟨linked,mine _ _ (.inl ⟨rfl,rfl⟩),fun f claimed => mine f _ (.inr ⟨claimed,rfl⟩)⟩

-- The line on which the new slots are filled in.
structure Allocated (v : Locals τ) (firstTile : Nat) (line after : CacheLine τ)
    (freeChunk freeChunk2 : Option Slot) (Given : Nat → τ → Prop) : Prop where
  rewrite : Rewrite line after v.Marks (holding v.chunkToProcess v.chunkNext) Given
  busy : after.chunkNext v.chunkToProcess = .chunk true v.chunkNext
  start : after.chunkStart v.chunkToProcess = v.chunkStart
  stop : after.chunkStop v.chunkToProcess = v.chunkEnd+1
  triangle : after.chunkTriangle v.chunkToProcess = line.chunkTriangle v.chunkToProcess
  free : ∀ f, freeChunk = some f → after.chunkNext f = .free
  free2 : ∀ g, freeChunk2 = some g → after.chunkNext g = .free
  apart : needsTail v firstTile = true → needsHead v firstTile = true →
    ∀ f g, freeChunk = some f → freeChunk2 = some g → f ≠ g

-- Clearing a slot that is ours or already free.
theorem clear_rewrite {line : CacheLine τ} {v : Locals τ} (owns : Owns line v)
    (ours : v.claimed = none ∨ v.claimed = some f) (unlisted : line.chunkNext f = .free ∨ line.chunkNext f = .reserved)
    (owned : line.chunkNext f = .reserved → v.claimed = some f) :
    Rewrite line (line.setNext f .free) v.Marks (holding v.chunkToProcess v.chunkNext) Given := by
  have apart : v.chunkToProcess ≠ f := by
    intro same; subst same; rw [owns.busy] at unlisted; rcases unlisted with one | one <;> cases one
  have atF : (line.setNext f .free).chunkNext f = .free := by simp
  have other : ∀ i, i ≠ f → (line.setNext f .free).chunkNext i = line.chunkNext i := by intro i one; simp [one]
  have outside : ∀ i, (∀ n, ¬v.Marks i n) → i ≠ v.chunkToProcess := by
    intro i free same; subst same; exact free _ (.inl ⟨rfl,rfl⟩)
  have notF : ∀ i, (∀ n, ¬v.Marks i n) → (line.chunkNext i).Marked → i ≠ f := by
    intro i free marked same; subst same
    rcases unlisted with isFree | isReserved
    · rw [isFree] at marked; exact ChunkNext.free_unmarked marked
    · exact free .reserved (.inr ⟨owned isReserved,rfl⟩)
  refine relabel_rewrite owns.linked ?_ rfl rfl ?_ ?_ ?_ ?_ ?_
  · intro i
    by_cases isF : i = f
    · subst isF; rcases unlisted with one | one <;> simp [CacheLine.links,one]
    · simp only [CacheLine.links,other i isF]
  · intro i free marked
    exact ⟨other i (notF i free marked),rfl⟩
  · rintro i n ⟨rfl,rfl⟩
    rw [other _ apart]; exact owns.busy
  · intro i marked
    by_cases isF : i = f
    · subst isF; rw [atF] at marked; exact absurd marked ChunkNext.free_unmarked
    · by_cases isC : i = v.chunkToProcess
      · exact .inl ⟨.chunk true v.chunkNext,isC,rfl⟩
      · refine .inr ⟨?_,other i isF⟩
        rintro n (⟨same,_⟩ | ⟨claimed,_⟩)
        · exact isC same
        · rcases ours with none | some
          · rw [none] at claimed; cases claimed
          · rw [some] at claimed; exact isF (Option.some.inj claimed).symm
  · rintro i n ⟨rfl,rfl⟩ _
    exact ⟨.chunk true v.chunkNext,.inl ⟨rfl,rfl⟩⟩
  · intro i n t idle _
    by_cases isF : i = f
    · subst isF; rw [atF] at idle; cases idle
    · rw [other i isF] at idle; exact .inl ⟨idle,rfl⟩

theorem allocate_allocated (Given : Nat → τ → Prop) {line : CacheLine τ} {v : Locals τ} (counts : Counts line v)
    (sound : Sound v firstTile line) :
    Allocated v firstTile line (allocate v line).2.2 (allocate v line).1 (allocate v line).2.1 Given := by
  cases atFree : v.freeChunk with
  | none =>
    have unclaimed : v.claimed = none := by
      rcases counts.spare with none | same
      · exact none
      · rw [← same]; exact atFree
    have marks : v.Marks = holding v.chunkToProcess v.chunkNext := by
      funext i n; simp [Locals.Marks,unclaimed]
    simp only [allocate,atFree]
    refine ⟨?_,counts.busy,counts.start,counts.stop,rfl,fun f => freeSlot_free,fun g found => (freeSlot2_free found).1,?_⟩
    · rw [marks]
      refine relabel_rewrite counts.linked (fun _ => rfl) rfl rfl (fun _ _ _ => ⟨rfl,rfl⟩) ?_ ?_ ?_ ?_
      · rintro i n ⟨rfl,rfl⟩; exact counts.busy
      · intro i _
        by_cases mine : ∃ n, holding v.chunkToProcess v.chunkNext i n
        · exact .inl mine
        · exact .inr ⟨fun n held => mine ⟨n,held⟩,rfl⟩
      · intro i n held _; exact ⟨n,held⟩
      · intro i n t idle _; exact .inl ⟨idle,rfl⟩
    · intro _ _ f g one two same
      subst same
      exact (freeSlot2_free two).2 one
  | some f =>
    simp only [allocate,atFree]
    have ours : v.claimed = none ∨ v.claimed = some f := by
      rcases counts.spare with none | same
      · exact .inl none
      · exact .inr (same ▸ atFree)
    have slot : (v.claimed = some f ∧ line.chunkNext f = .reserved) ∨ (line.chunkNext f = .free ∧
        ¬(needsTail v firstTile = true ∧ needsHead v firstTile = true ∧ line.freeSlot = some f)) := by
      rcases sound.slot with same | ⟨f',same,free,once⟩
      · exact .inl ⟨same ▸ atFree,counts.reserved f (same ▸ atFree)⟩
      · rw [atFree] at same; cases same; exact .inr ⟨free,once⟩
    have unlisted : line.chunkNext f = .free ∨ line.chunkNext f = .reserved := slot.elim (fun s => .inr s.2) (fun s => .inl s.1)
    have apart : v.chunkToProcess ≠ f := by
      intro same; subst same; rw [counts.busy] at unlisted; rcases unlisted with one | one <;> cases one
    have rewrite : Rewrite line (line.setNext f .free) v.Marks (holding v.chunkToProcess v.chunkNext) Given := by
      refine clear_rewrite counts.toOwns ours unlisted ?_
      intro reserved
      rcases slot with ⟨claimed,_⟩ | ⟨free,_⟩
      · exact claimed
      · rw [free] at reserved; cases reserved
    have stops := (relabel_linked (line.setNext f .free) counts.linked (by
      intro i
      by_cases isF : i = f
      · subst isF; rcases unlisted with one | one <;> simp [CacheLine.links,one]
      · simp [CacheLine.links,isF]) rfl).2.1
    refine ⟨rewrite,by simp [apart,counts.busy],counts.start,(stops _).trans counts.stop,rfl,?_,?_,?_⟩
    · intro g same; cases same; simp
    · intro g found
      by_cases isF : g = f
      · subst isF; simp
      · simpa [isF] using freeSlot_free found
    · rintro tail head f' g same found rfl
      cases same
      rcases slot with ⟨_,reserved⟩ | ⟨_,once⟩
      · rw [freeSlot_free found] at reserved; cases reserved
      · exact once ⟨tail,head,found⟩

-- The tiles a split gives up, each with the triangle it is left at.
def SplitGiven (v : Locals τ) (next : τ) (firstTile t : Nat) (p : τ) : Prop :=
  (p = v.chunkTriangle ∧ nextBlockStart v firstTile ≤ t ∧ t ≤ v.chunkEnd) ∨
    (p = next ∧ v.chunkStart ≤ t ∧ (t : Int) < thisBlockStart v firstTile)

-- The chunk the SPU goes on with.
structure Resliced (v : Locals τ) (firstTile : Nat) (cut : Bool) (line : CacheLine τ)
    (tailChunk thisChunk : Slot) (window : Window) : Prop where
  busy : line.chunkNext thisChunk = .chunk true tailChunk
  frame : window = ⟨firstTile,nextBlockStart v firstTile,thisBlockStart v firstTile,line.chunkStart thisChunk⟩
  start : (cut = true ∧ (line.chunkStart thisChunk : Int) = thisBlockStart v firstTile) ∨
    (cut = false ∧ line.chunkStart thisChunk = v.chunkStart)
  stop : line.chunkStop thisChunk =
    if needsTail v firstTile then nextBlockStart v firstTile else v.chunkEnd+1

-- The tail cut: `tailChunk` is the new slot, or the old successor without one.
theorem insertTail_rewrite (next : τ) {line : CacheLine τ} {v : Locals τ} (linked : line.WellLinked)
    (busy : line.chunkNext v.chunkToProcess = .chunk true v.chunkNext)
    (start : line.chunkStart v.chunkToProcess = v.chunkStart)
    (stop : line.chunkStop v.chunkToProcess = v.chunkEnd+1) (free : line.chunkNext f = .free)
    (low : v.chunkStart ≤ firstTile) (tail : needsTail v firstTile = true) :
    Rewrite line (insertTail v firstTile f line) (holding v.chunkToProcess v.chunkNext)
        (holding v.chunkToProcess f) (SplitGiven v next firstTile) ∧
      (insertTail v firstTile f line).chunkStart v.chunkToProcess = v.chunkStart ∧
      (insertTail v firstTile f line).chunkStop v.chunkToProcess = nextBlockStart v firstTile := by
  have apart : v.chunkToProcess ≠ f := by intro same; rw [same,free] at busy; cases busy
  have ahead := (needsTail_exact v firstTile).mp tail
  have cases := nextBlockStart_cases v firstTile
  have inside : line.chunkStart v.chunkToProcess < nextBlockStart v firstTile := by omega
  have within : nextBlockStart v firstTile < line.chunkStop v.chunkToProcess := by omega
  have toF : (insertTail v firstTile f line).chunkNext v.chunkToProcess = .chunk true f := by simp [insertTail]
  have fromF : (insertTail v firstTile f line).chunkNext f = .chunk false v.chunkNext := by
    simp [insertTail,Ne.symm apart]
  have others : ∀ i, i ≠ v.chunkToProcess → i ≠ f →
      (insertTail v firstTile f line).chunkNext i = line.chunkNext i ∧
        (insertTail v firstTile f line).chunkTriangle i = line.chunkTriangle i := by
    intro i one two; simp [insertTail,one,two]
  refine ⟨?_,?_,?_⟩
  · refine insert_rewrite (x := nextBlockStart v firstTile) false linked busy free toF fromF others rfl rfl
      inside within (fun front => by cases front) ?_
    intro _ t from_ upto
    exact .inl ⟨by simp [insertTail],from_,by omega⟩
  · simp [insertTail,apart,start]
  · exact (insert_after (x := nextBlockStart v firstTile) linked busy free toF fromF
      (fun i one two => (others i one two).1) rfl inside within).stopOld

-- The head cut: the new slot takes over the busy part.
theorem insertHead_rewrite (next : τ) {line : CacheLine τ} {v : Locals τ} (linked : line.WellLinked)
    (busy : line.chunkNext v.chunkToProcess = .chunk true tailChunk)
    (start : line.chunkStart v.chunkToProcess = v.chunkStart)
    (this : thisBlockStart v firstTile = (x : Nat)) (small : x < 65536)
    (inside : v.chunkStart < x) (within : x < line.chunkStop v.chunkToProcess)
    (free : line.chunkNext g = .free) :
    Rewrite line (insertHead v firstTile next tailChunk g line) (holding v.chunkToProcess tailChunk)
        (holding g tailChunk) (SplitGiven v next firstTile) ∧
      (insertHead v firstTile next tailChunk g line).chunkNext g = .chunk true tailChunk ∧
      (insertHead v firstTile next tailChunk g line).chunkStart g = x ∧
      (insertHead v firstTile next tailChunk g line).chunkStop g = line.chunkStop v.chunkToProcess := by
  have apart : v.chunkToProcess ≠ g := by intro same; rw [same,free] at busy; cases busy
  have stored : unsigned (thisBlockStart v firstTile) % 65536 = x := by
    rw [this,unsigned_nat (by omega)]; omega
  have toG : (insertHead v firstTile next tailChunk g line).chunkNext v.chunkToProcess = .chunk false g := by
    simp [insertHead]
  have fromG : (insertHead v firstTile next tailChunk g line).chunkNext g = .chunk true tailChunk := by
    simp [insertHead,Ne.symm apart]
  have others : ∀ i, i ≠ v.chunkToProcess → i ≠ g →
      (insertHead v firstTile next tailChunk g line).chunkNext i = line.chunkNext i ∧
        (insertHead v firstTile next tailChunk g line).chunkTriangle i = line.chunkTriangle i := by
    intro i one two; simp [insertHead,one,two]
  have starts : (insertHead v firstTile next tailChunk g line).chunkStart = Function.update line.chunkStart g x := by
    simp [insertHead,stored]
  have low : line.chunkStart v.chunkToProcess < x := start ▸ inside
  have inserted := insert_after linked busy free toG fromG (fun i one two => (others i one two).1) starts low within
  refine ⟨?_,fromG,inserted.startNew,inserted.stopNew⟩
  refine insert_rewrite true linked busy free toG fromG others starts rfl low within ?_ (fun front => by cases front)
  intro _ t from_ before
  refine .inr ⟨by simp [insertHead],start ▸ from_,?_⟩
  rw [this]
  exact_mod_cast before

-- Rewriting the busy byte and the triangle of our own chunk.
theorem keepWhole_rewrite (Given : Nat → τ → Prop) {line : CacheLine τ} {v : Locals τ} (linked : line.WellLinked)
    (busy : line.chunkNext v.chunkToProcess = .chunk true tailChunk) :
    Rewrite line (keepWhole v tailChunk line) (holding v.chunkToProcess tailChunk)
        (holding v.chunkToProcess tailChunk) Given ∧
      (keepWhole v tailChunk line).chunkNext v.chunkToProcess = .chunk true tailChunk ∧
      (∀ i, (keepWhole v tailChunk line).chunkStop i = line.chunkStop i) := by
  have atC : (keepWhole v tailChunk line).chunkNext v.chunkToProcess = .chunk true tailChunk := by simp [keepWhole]
  have same : ∀ i, (keepWhole v tailChunk line).chunkNext i = line.chunkNext i := by
    intro i
    by_cases isC : i = v.chunkToProcess
    · rw [isC,atC,busy]
    · simp [keepWhole,isC]
  have links : ∀ i, (keepWhole v tailChunk line).links i = line.links i := by
    intro i; simp only [CacheLine.links,same]
  refine ⟨?_,atC,(relabel_linked _ linked links rfl).2.1⟩
  refine relabel_rewrite linked links rfl rfl ?_ ?_ ?_ ?_ ?_
  · intro i free _
    have isC : i ≠ v.chunkToProcess := fun one => free _ ⟨one,rfl⟩
    exact ⟨same i,by simp [keepWhole,isC]⟩
  · rintro i n ⟨rfl,rfl⟩; exact atC
  · intro i _
    by_cases isC : i = v.chunkToProcess
    · exact .inl ⟨.chunk true tailChunk,isC,rfl⟩
    · exact .inr ⟨fun n held => isC held.1,same i⟩
  · intro i n held _; exact ⟨n,held⟩
  · intro i n t idle _
    rw [same i] at idle
    by_cases isC : i = v.chunkToProcess
    · rw [isC,busy] at idle; cases idle
    · exact .inl ⟨idle,by simp [keepWhole,isC]⟩

-- The slot the head cut would use, and whether it goes without one.
def headSlot (v : Locals τ) (firstTile : Nat) (cache : CacheLine τ) : Option Slot :=
  if needsTail v firstTile then (allocate v cache).2.1 else (allocate v cache).1

def keepsWhole (v : Locals τ) (firstTile : Nat) (cache : CacheLine τ) : Bool :=
  needsHead v firstTile && (headSlot v firstTile cache).isNone

theorem resliceHead_resliced (next : τ) (tailChunk : Slot) {line : CacheLine τ} {v : Locals τ} (linked : line.WellLinked)
    (busy : line.chunkNext v.chunkToProcess = .chunk true tailChunk)
    (start : line.chunkStart v.chunkToProcess = v.chunkStart)
    (stop : line.chunkStop v.chunkToProcess = if needsTail v firstTile then nextBlockStart v firstTile else v.chunkEnd+1)
    (low : v.chunkStart ≤ firstTile) (high : firstTile ≤ v.chunkEnd) (bounded : v.chunkEnd < 4096)
    (free : ∀ g, freeChunk2 = some g → line.chunkNext g = .free)
    (clamp : 15 ≤ v.chunkEnd ∨ freeChunk2 = none) :
    ∃ after thisChunk window, resliceHead v next firstTile tailChunk freeChunk2 line =
        .reslice after tailChunk thisChunk window ∧
      Rewrite line after (holding v.chunkToProcess tailChunk) (holding thisChunk tailChunk) (SplitGiven v next firstTile) ∧
      Resliced v firstTile (!(needsHead v firstTile && freeChunk2.isNone)) after tailChunk thisChunk window := by
  have cases := nextBlockStart_cases v firstTile
  have above : nextBlockStart v firstTile ≤ line.chunkStop v.chunkToProcess := by
    rw [stop]; split <;> omega
  have whole := keepWhole_rewrite (SplitGiven v next firstTile) linked busy
  by_cases head : needsHead v firstTile = true
  · cases found : freeChunk2 with
    | none =>
      refine ⟨_,_,_,by simp only [resliceHead,head,if_true]; rfl,whole.1,whole.2.1,?_,?_,?_⟩
      · simp [keepWhole,start]
      · exact .inr ⟨by simp [head],by simp [keepWhole,start]⟩
      · rw [whole.2.2,stop]
    | some g =>
      have roomy : 15 ≤ v.chunkEnd := clamp.resolve_right (by simp [found])
      have inside := (needsHead_roomy v firstTile roomy bounded (Nat.le_trans low high)).mp head
      have this : thisBlockStart v firstTile = (nextBlockStart v firstTile - 16 : Nat) := by
        rw [thisBlockStart_roomy v firstTile roomy bounded,Nat.max_eq_right (Nat.le_of_lt inside)]
      obtain ⟨rewrite,atG,startG,stopG⟩ := insertHead_rewrite next linked busy start this
        (by omega) inside (by omega) (free g found)
      refine ⟨_,_,_,by simp only [resliceHead,head,if_true]; rfl,rewrite,atG,?_,?_,?_⟩
      · rw [startG,this]
      · exact .inl ⟨by simp,by rw [startG,this]⟩
      · rw [stopG,stop]
  · have roomy : 15 ≤ v.chunkEnd := by
      by_contra cramped
      exact head ((thisBlockStart_cramped v firstTile (by omega)).2.2 (Nat.le_trans low high)).2
    have outside := fun inside => head ((needsHead_roomy v firstTile roomy bounded (Nat.le_trans low high)).mpr inside)
    have this : thisBlockStart v firstTile = (v.chunkStart : Nat) := by
      rw [thisBlockStart_roomy v firstTile roomy bounded,Nat.max_eq_left (Nat.le_of_not_lt outside)]
    refine ⟨_,_,_,by simp only [resliceHead,head]; rfl,?_,busy,?_,?_,stop⟩
    · refine relabel_rewrite linked (fun _ => rfl) rfl rfl (fun _ _ _ => ⟨rfl,rfl⟩) ?_ ?_ ?_ ?_
      · rintro i n ⟨rfl,rfl⟩; exact busy
      · intro i _
        by_cases mine : ∃ n, holding v.chunkToProcess tailChunk i n
        · exact .inl mine
        · exact .inr ⟨fun n held => mine ⟨n,held⟩,rfl⟩
      · intro i n held _; exact ⟨n,held⟩
      · intro i n t idle _; exact .inl ⟨idle,rfl⟩
    · rw [start,this]
    · exact .inl ⟨by simp [head],by rw [start,this]⟩

-- Handing the chunk back: it is idle from now on, at the triangle it carries.
theorem giveBack_rewrite {line : CacheLine τ} (after : CacheLine τ) (linked : line.WellLinked)
    (busy : line.chunkNext c = .chunk true n) (atC : after.chunkNext c = .chunk false n)
    (others : ∀ i, i ≠ c → after.chunkNext i = line.chunkNext i ∧ after.chunkTriangle i = line.chunkTriangle i)
    (starts : after.chunkStart = line.chunkStart) (ends : after.endTriangle = line.endTriangle) :
    Rewrite line after (holding c n) (fun _ _ => False)
      (fun t p => p = after.chunkTriangle c ∧ line.Holds c t) := by
  refine relabel_rewrite linked ?_ starts ends ?_ ?_ ?_ ?_ ?_
  · intro i
    by_cases isC : i = c
    · subst isC; simp [CacheLine.links,busy,atC]
    · simp only [CacheLine.links,(others i isC).1]
  · intro i free _
    exact others i fun isC => free _ ⟨isC,rfl⟩
  · intro i n none; cases none
  · intro i marked
    by_cases isC : i = c
    · subst isC; rw [atC] at marked; exact absurd marked ChunkNext.idle_unmarked
    · exact .inr ⟨fun n held => isC held.1,(others i isC).1⟩
  · intro i n none; cases none
  · intro i n t idle held
    by_cases isC : i = c
    · subst isC; exact .inr ⟨rfl,held⟩
    · rw [(others i isC).1] at idle; exact .inl ⟨idle,(others i isC).2.symm⟩

theorem relinquish_rewrite {line : CacheLine τ} {v : Locals τ} (counts : Counts line v) (unclaimed : v.claimed = none) :
    Rewrite line (line.setNext v.chunkToProcess (.chunk false v.chunkNext)) v.Marks (fun _ _ => False)
      (fun t p => p = line.chunkTriangle v.chunkToProcess ∧ line.Holds v.chunkToProcess t) := by
  have marks : v.Marks = holding v.chunkToProcess v.chunkNext := by
    funext i n; simp [Locals.Marks,unclaimed]
  rw [marks]
  refine giveBack_rewrite _ counts.linked counts.busy (by simp) ?_ rfl rfl
  intro i other; simp [other]

-- The splitting section, over every line its SPU can find.
theorem splitChunk_cases (next : τ) {line : CacheLine τ} {v : Locals τ} (counts : Counts line v)
    (sound : Sound v firstTile line) (low : v.chunkStart ≤ firstTile) (high : firstTile ≤ v.chunkEnd) :
    (∃ after, splitChunk v next firstTile line = .relinquish after ∧
      Rewrite line after v.Marks (fun _ _ => False)
        (fun t p => p = line.chunkTriangle v.chunkToProcess ∧ line.Holds v.chunkToProcess t)) ∨
    (∃ after tailChunk thisChunk window,
      splitChunk v next firstTile line = .reslice after tailChunk thisChunk window ∧
      Rewrite line after v.Marks (holding thisChunk tailChunk) (SplitGiven v next firstTile) ∧
      Resliced v firstTile (!keepsWhole v firstTile line) after tailChunk thisChunk window) := by
  have allocated := allocate_allocated (SplitGiven v next firstTile) counts sound
  have bounded := counts.bounded
  unfold splitChunk
  by_cases tail : needsTail v firstTile = true
  · simp only [tail,if_true]
    cases found : (allocate v line).1 with
    | none =>
      have atFree : v.freeChunk = none := by
        unfold allocate at found
        split at found
        · assumption
        · cases found
      have unclaimed : v.claimed = none := counts.spare.elim id (fun same => same ▸ atFree)
      refine .inl ⟨_,rfl,?_⟩
      simp only [allocate,atFree]
      exact relinquish_rewrite counts unclaimed
    | some f =>
      have ahead := (needsTail_exact v firstTile).mp tail
      obtain ⟨cut,start,stop⟩ := insertTail_rewrite next allocated.rewrite.linked allocated.busy
        allocated.start allocated.stop (allocated.free f found) low tail
      -- The slot of the head, if the head is needed, is another one than the tail's.
      have free : ∀ g, (if needsHead v firstTile then (allocate v line).2.1 else none) = some g →
          (insertTail v firstTile f (allocate v line).2.2).chunkNext g = .free := by
        intro g picked
        by_cases head : needsHead v firstTile = true
        · rw [if_pos head] at picked
          have apart := allocated.apart tail head f g found picked
          have isFree := allocated.free2 g picked
          have notC : g ≠ v.chunkToProcess := by
            intro same; rw [same,allocated.busy] at isFree; cases isFree
          simpa [insertTail,Ne.symm apart,notC] using isFree
        · rw [if_neg head] at picked; cases picked
      have swap : resliceHead v next firstTile f (allocate v line).2.1 (insertTail v firstTile f (allocate v line).2.2) =
          resliceHead v next firstTile f (if needsHead v firstTile then (allocate v line).2.1 else none)
            (insertTail v firstTile f (allocate v line).2.2) := by
        unfold resliceHead
        split <;> rfl
      obtain ⟨after,thisChunk,window,ran,headCut,resliced⟩ := resliceHead_resliced next f
        cut.linked (cut.mine _ _ ⟨rfl,rfl⟩) start (by rw [stop,if_pos tail]) low high bounded free (.inl (by omega))
      have whole : (needsHead v firstTile && (if needsHead v firstTile then (allocate v line).2.1 else none).isNone) =
          keepsWhole v firstTile line := by
        unfold keepsWhole headSlot
        rw [if_pos tail]
        cases needsHead v firstTile <;> rfl
      rw [whole] at resliced
      exact .inr ⟨after,f,thisChunk,window,swap.trans ran,(allocated.rewrite.trans cut).trans headCut,resliced⟩
  · simp only [tail]
    obtain ⟨after,thisChunk,window,ran,headCut,resliced⟩ := resliceHead_resliced next
      v.chunkNext allocated.rewrite.linked allocated.busy allocated.start
      (by rw [allocated.stop,if_neg tail]) low high bounded allocated.free sound.clamp
    have whole : (needsHead v firstTile && (allocate v line).1.isNone) = keepsWhole v firstTile line := by
      unfold keepsWhole headSlot
      rw [if_neg tail]
    rw [whole] at resliced
    exact .inr ⟨after,v.chunkNext,thisChunk,window,ran,allocated.rewrite.trans headCut,resliced⟩

-- The release after a chunk is finished, before its merge.
theorem release_rewrite {line : CacheLine τ} {v : Locals τ} (owns : Owns line v) (spare : v.freeChunk = v.claimed) :
    Rewrite line (releaseChunk v line) v.Marks (fun _ _ => False)
      (fun t p => p = v.chunkTriangle ∧ line.Holds v.chunkToProcess t) := by
  cases claimed : v.claimed with
  | none =>
    have marks : v.Marks = holding v.chunkToProcess v.chunkNext := by
      funext i n; simp [Locals.Marks,claimed]
    have given := giveBack_rewrite (releaseChunk v line) owns.linked owns.busy
      (by simp [releaseChunk,spare,claimed]) (by intro i other; simp [releaseChunk,spare,claimed,other])
      (by simp [releaseChunk,spare,claimed]) (by simp [releaseChunk,spare,claimed])
    rw [marks]
    simpa [releaseChunk,spare,claimed] using given
  | some f =>
    have reserved := owns.reserved f claimed
    have apart : v.chunkToProcess ≠ f := by
      intro same; have busy := owns.busy; rw [same,reserved] at busy; cases busy
    have cleared : Rewrite line (line.setNext f .free) v.Marks (holding v.chunkToProcess v.chunkNext)
        (fun t p => p = v.chunkTriangle ∧ line.Holds v.chunkToProcess t) :=
      clear_rewrite owns (.inr claimed) (.inr reserved) (fun _ => claimed)
    have given := giveBack_rewrite (releaseChunk v line) cleared.linked (cleared.mine _ _ ⟨rfl,rfl⟩)
      (by simp [releaseChunk,spare,claimed]) (by intro i other; simp [releaseChunk,spare,claimed,other])
      (by simp [releaseChunk,spare,claimed]) (by simp [releaseChunk,spare,claimed])
    have holds := (relabel_linked (line.setNext f .free) owns.linked (by
      intro i
      by_cases isF : i = f
      · subst isF; simp [CacheLine.links,reserved]
      · simp [CacheLine.links,isF]) rfl).2.2
    refine cleared.trans (given.weaken ?_)
    rintro t p ⟨triangle,held⟩
    exact ⟨by simpa [releaseChunk] using triangle,(holds _ t).mp held⟩

-- Marking an idle chunk busy and at most one free slot reserved.
theorem mark_rewrite {line : CacheLine τ} (after : CacheLine τ) (v : Locals τ) (linked : line.WellLinked)
    (idle : line.chunkNext v.chunkToProcess = .chunk false v.chunkNext)
    (atC : after.chunkNext v.chunkToProcess = .chunk true v.chunkNext)
    (atF : ∀ f, v.claimed = some f → line.chunkNext f = .free ∧ after.chunkNext f = .reserved)
    (others : ∀ i, i ≠ v.chunkToProcess → v.claimed ≠ some i →
      after.chunkNext i = line.chunkNext i ∧ after.chunkTriangle i = line.chunkTriangle i)
    (starts : after.chunkStart = line.chunkStart) (ends : after.endTriangle = line.endTriangle) :
    Rewrite line after (fun _ _ => False) v.Marks (fun _ _ => False) ∧
      ∀ i, after.links i = line.links i := by
  have links : ∀ i, after.links i = line.links i := by
    intro i
    by_cases isC : i = v.chunkToProcess
    · subst isC; simp [CacheLine.links,idle,atC]
    · by_cases isF : v.claimed = some i
      · simp [CacheLine.links,(atF i isF).1,(atF i isF).2]
      · simp only [CacheLine.links,(others i isC isF).1]
  have outside : ∀ i, (line.chunkNext i).Marked → i ≠ v.chunkToProcess ∧ v.claimed ≠ some i := by
    intro i marked
    refine ⟨?_,?_⟩
    · intro isC; subst isC; rw [idle] at marked; exact ChunkNext.idle_unmarked marked
    · intro isF; rw [(atF i isF).1] at marked; exact ChunkNext.free_unmarked marked
  refine ⟨relabel_rewrite linked links starts ends ?_ ?_ ?_ ?_ ?_,links⟩
  · intro i _ marked
    exact others i (outside i marked).1 (outside i marked).2
  · rintro i n (⟨rfl,rfl⟩ | ⟨claimed,rfl⟩)
    · exact atC
    · exact (atF i claimed).2
  · intro i _
    by_cases isC : i = v.chunkToProcess
    · exact .inl ⟨_,.inl ⟨isC,rfl⟩⟩
    · by_cases isF : v.claimed = some i
      · exact .inl ⟨_,.inr ⟨isF,rfl⟩⟩
      · exact .inr ⟨fun _ none => none,(others i isC isF).1⟩
  · rintro i n (⟨isC,_⟩ | ⟨claimed,_⟩) marked
    · exact absurd isC (outside i marked).1
    · exact absurd claimed (outside i marked).2
  · intro i n t isIdle _
    by_cases isC : i = v.chunkToProcess
    · rw [isC,atC] at isIdle; cases isIdle
    · by_cases isF : v.claimed = some i
      · rw [(atF i isF).2] at isIdle; cases isIdle
      · rw [(others i isC isF).1] at isIdle
        exact .inl ⟨isIdle,(others i isC isF).2.symm⟩

variable [DecidableEq τ]

-- A chunk that may be processed is idle, with triangles left.
theorem chunkToProcess_idle {line : CacheLine τ} (found : line.chunkToProcess = some c) :
    (∃ n, line.chunkNext c = .chunk false n) ∧ line.chunkTriangle c ≠ line.endTriangle := by
  have may : line.mayProcess c = true := by
    unfold CacheLine.chunkToProcess at found
    split at found
    · rename_i i short
      cases found
      have lane := CacheLine.lowest_some short
      simp only [Bool.and_eq_true] at lane
      exact lane.1
    · exact CacheLine.lowest_some found
  simp only [CacheLine.mayProcess,Bool.and_eq_true,Bool.not_eq_true',decide_eq_false_iff_not] at may
  refine ⟨?_,may.1⟩
  by_contra marked
  exact may.2 ((ChunkNext.busy_byte _).mpr fun n same => marked ⟨n,same⟩)

-- The line that a claim of chunk c stores.
def CacheLine.claimed (line : CacheLine τ) (c n : Slot) : Option Slot → CacheLine τ
  | some f => ((line.setNext c (.chunk true n)).setNext f .reserved).setTriangle f (line.chunkTriangle c)
  | none => line.setNext c (.chunk true n)

-- All that a claim does.
theorem claimChunk_cases {line after : CacheLine τ} {v : Locals τ} (ran : claimChunk line = some (after,v)) : ∃ c n free,
    line.chunkNext c = .chunk false n ∧ line.chunkTriangle c ≠ line.endTriangle ∧
    (free = if (1 + (line.chunkStart n + 4095) % 4096 + 2^32 - line.chunkStart c) % 2^32 ≤ NUMBER_OF_TILES_PER_CHUNK then none
      else line.freeSlot) ∧
    (∀ f, free = some f → line.chunkNext f = .free ∧ c ≠ f) ∧ after = line.claimed c n free ∧
    v = ⟨c,line.chunkStart c,line.chunkTriangle c,n,(line.chunkStart n + 4095) % 4096,free,line.endTriangle,free⟩ := by
  unfold claimChunk at ran
  split at ran
  · cases ran
  · rename_i c found
    obtain ⟨⟨n,idle⟩,more⟩ := chunkToProcess_idle found
    obtain ⟨free,pick⟩ : ∃ free, free = if (1 + (line.chunkStart n + 4095) % 4096 + 2^32 - line.chunkStart c) % 2^32 ≤
      NUMBER_OF_TILES_PER_CHUNK then none else line.freeSlot := ⟨_,rfl⟩
    simp only [idle,ChunkNext.mask_chunk,ChunkNext.setBusy,← pick,Option.some.injEq,Prod.mk.injEq] at ran
    obtain ⟨rfl,rfl⟩ := ran
    refine ⟨c,n,free,idle,more,pick,?_,by cases free <;> rfl,rfl⟩
    intro f some
    rw [some] at pick
    split at pick
    · cases pick
    · have isFree := freeSlot_free pick.symm
      refine ⟨isFree,?_⟩
      rintro rfl
      rw [idle] at isFree
      cases isFree

-- What a successful claim establishes.
structure Claimed (line after : CacheLine τ) (v : Locals τ) : Prop where
  idle : line.chunkNext v.chunkToProcess = .chunk false v.chunkNext
  rewrite : Rewrite line after (fun _ _ => False) v.Marks (fun _ _ => False)
  counts : Counts after v
  spare : v.freeChunk = v.claimed
  triangle : after.chunkTriangle v.chunkToProcess = v.chunkTriangle
  before : line.chunkTriangle v.chunkToProcess = v.chunkTriangle
  holds : ∀ t, after.Holds v.chunkToProcess t ↔ line.Holds v.chunkToProcess t
  ends : v.endTriangle = line.endTriangle
  more : v.chunkTriangle ≠ v.endTriangle

theorem claimChunk_claimed {line after : CacheLine τ} {v : Locals τ} (linked : line.WellLinked)
    (ran : claimChunk line = some (after,v)) : Claimed line after v := by
  obtain ⟨c,n,free,idle,more,_,taken,line',rfl⟩ := claimChunk_cases ran
  have marked := mark_rewrite after (⟨c,line.chunkStart c,line.chunkTriangle c,n,
      (line.chunkStart n + 4095) % 4096,free,line.endTriangle,free⟩) linked idle
    (by subst line'; cases free with
      | none => simp [CacheLine.claimed]
      | some f => simp [CacheLine.claimed,(taken f rfl).2])
    (by subst line'; rintro f rfl; exact ⟨(taken f rfl).1,by simp [CacheLine.claimed]⟩)
    (by subst line'; intro i notC notF; cases free with
      | none => simp [CacheLine.claimed,notC]
      | some f => simp [CacheLine.claimed,notC,Ne.symm (fun same => notF (congrArg some same))])
    (by subst line'; cases free <;> rfl) (by subst line'; cases free <;> rfl)
  have link : line.links c = some n := by simp [CacheLine.links,idle]
  have starts : after.chunkStart = line.chunkStart := by subst line'; cases free <;> rfl
  obtain ⟨_,stops,holds⟩ := relabel_linked after linked marked.2 starts
  have stop : line.chunkStop c = (line.chunkStart n + 4095) % 4096 + 1 := by
    unfold CacheLine.chunkStop
    rw [OrderedCycle.stop_some link]
    obtain ⟨m,onward⟩ := Option.isSome_iff_exists.mp (linked.closed c n link)
    have below : line.chunkStart n < 4096 := linked.below n m onward
    split
    · rename_i root; rw [root,linked.start]
    · rename_i inner; have positive := linked.positive onward inner; omega
  refine ⟨idle,marked.1,⟨owns_exact.mpr ⟨marked.1.linked,marked.1.mine⟩,congrFun starts c,?_,.inr rfl⟩,rfl,?_,rfl,
    fun t => holds c t,rfl,more⟩
  · exact (stops c).trans stop
  · subst line'
    cases free with
    | none => rfl
    | some f => simp [CacheLine.claimed,(taken f rfl).2]

-- The two sections that merge before they store.
theorem reslice_merged {line after : CacheLine τ} {v : Locals τ}
    (rewrite : Rewrite line after v.Marks (holding thisChunk tailChunk) Given)
    (resliced : Resliced v firstTile cut after tailChunk thisChunk window) :
    Rewrite line after.merge_cache_blocks v.Marks (holding thisChunk tailChunk) Given ∧
      Resliced v firstTile cut after.merge_cache_blocks tailChunk thisChunk window := by
  have merge := Rewrite.merge (holding thisChunk tailChunk) Given rewrite.linked (fun i n held => .inr ⟨_,held.2⟩)
    rewrite.mine
  have merged := CacheLine.merge_merged rewrite.linked
  have start := merged.start _ _ resliced.busy
  refine ⟨rewrite.trans merge,(merged.busy _ _).mpr resliced.busy,?_,?_,(merged.stop _ _ resliced.busy).trans resliced.stop⟩
  · rw [start]; exact resliced.frame
  · rw [start]; exact resliced.start

theorem release_merged {line : CacheLine τ} {v : Locals τ} (owns : Owns line v) (spare : v.freeChunk = v.claimed) :
    Rewrite line (releaseChunk v line).merge_cache_blocks v.Marks (fun _ _ => False)
      (fun t p => p = v.chunkTriangle ∧ line.Holds v.chunkToProcess t) := by
  have release := release_rewrite owns spare
  exact release.trans (Rewrite.merge (fun _ _ => False) _ release.linked (fun _ _ none => none.elim)
    (fun _ _ none => none.elim))

end
end Spugl
