import Spugl.MergedLines
import Spugl.ChunkSplitting

namespace Spugl
open SpuVectors

section
variable {cache : RawLine} {line : CacheLine Nat}

-- spu_sel where the mask is 4096's.
theorem select_end (less : x < 65536) : ((x &&& (65535 - if x = 0 then 65535 else 0)) ||| (4096 &&& if x = 0 then 65535 else 0)) =
    if x = 0 then 4096 else x := by
  by_cases zero : x = 0
  · rw [if_pos zero,if_pos zero,zero]
    rfl
  · rw [if_neg zero,if_neg zero]
    simp only [Nat.sub_zero,Nat.and_zero,Nat.or_zero]
    exact (Nat.and_two_pow_sub_one_eq_mod x 16).trans (Nat.mod_eq_of_lt less)

theorem ChunkNext.byte_free (n : ChunkNext) : 255 = n.byte ↔ n = .free := by
  cases n with
  | free => simp [byte]
  | reserved => simp [byte]
  | chunk busy next =>
    have less := next.isLt
    simp only [byte,reduceCtorEq,iff_false]
    split <;> omega

namespace RawLine.Shows

theorem small (shows : cache.Shows line) (i : Fin 16) : (cache.small i % 2 == 1) = line.smallLane i := by
  have ends0 : selHalves (front fun k => line.chunkStart (line.chunkNext k).mask) (splatsHalves 4096)
      (cmpeqHalves (front fun k => line.chunkStart (line.chunkNext k).mask) (splatsHalves 0)) = front line.endLane :=
    funext fun j => select_end (shows.start_less _)
  have ends1 : selHalves (back fun k => line.chunkStart (line.chunkNext k).mask) (splatsHalves 4096)
      (cmpeqHalves (back fun k => line.chunkStart (line.chunkNext k).mask) (splatsHalves 0)) = back line.endLane :=
    funext fun j => select_end (shows.start_less _)
  have lane := merge_high (fun k => if (line.endLane k + 65536 - line.chunkStart k) % 65536 < 17 then 65535 else 0) i
  have same : cache.small i = if (line.endLane i + 65536 - line.chunkStart i) % 65536 < 17 then 255 else 0 := by
    unfold RawLine.small
    simp only [successors0_exact,successors1_exact,shows.successor]
    rw [shows.starts]
    simp only [ends0,ends1]
    refine Eq.trans lane ?_
    split <;> rfl
  rw [same,CacheLine.smallLane]
  split
  · rename_i few
    simp [few]
  · rename_i many
    simp [many]

theorem done (shows : cache.Shows line) (i : Fin 16) : (cache.doneChunks i % 2 == 1) = decide (line.chunkTriangle i = line.endTriangle) := by
  have lane := merge_low (fun k => if cache.endTriangle = cache.chunkTriangle k then 65535 else 0) i
  have same : cache.doneChunks i = _ := lane
  rw [same,shows.ends,shows.triangles]
  by_cases ended : line.chunkTriangle i = line.endTriangle
  · simp [ended]
  · simp [ended,Ne.symm ended]

theorem free (shows : cache.Shows line) (i : Fin 16) : (cache.freeChunks i % 2 == 1) = line.freeLane i := by
  unfold RawLine.freeChunks cmpeqBytes spu_splats CacheLine.freeLane
  rw [shows.next]
  simp only [ChunkNext.byte_free]
  by_cases unused : line.chunkNext i = .free <;> simp [unused]

theorem busy (shows : cache.Shows line) (i : Fin 16) : (cache.busyChunks i % 2 == 1) = decide (31 < (line.chunkNext i).byte) := by
  unfold RawLine.busyChunks cmpgtBytes spu_splats
  rw [shows.next]
  by_cases more : 31 < (line.chunkNext i).byte <;> simp [more]

theorem gather_lane {b : Bytes} {lane : Slot → Bool} (same : ∀ i, (b i % 2 == 1) = lane i) (k : Nat) :
    (spu_gather b).getMsbD k = if h : 16 ≤ k ∧ k < 32 then lane ⟨k - 16,lane_less h⟩ else false := by
  rw [gather_bit]
  split
  · exact same _
  · rfl

-- mayProcessGather, whose upper half holds junk, and mayProcessShortGather, whose does not.
theorem mayProcess (shows : cache.Shows line) (inside : 16 ≤ k ∧ k < 32) :
    (~~~(spu_gather cache.doneChunks ||| spu_gather cache.busyChunks)).getMsbD k = line.mayProcess ⟨k - 16,lane_less inside⟩ := by
  rw [BitVec.getMsbD_not,BitVec.getMsbD_or,gather_lane shows.done,gather_lane shows.busy,dif_pos inside,dif_pos inside,
    decide_eq_true inside.2,Bool.true_and,Bool.not_or]
  rfl

theorem mayProcessShort (shows : cache.Shows line) (k : Nat) :
    (~~~(spu_gather cache.doneChunks ||| spu_gather cache.busyChunks) &&& spu_gather cache.small).getMsbD k =
      if h : 16 ≤ k ∧ k < 32 then line.mayProcess ⟨k - 16,lane_less h⟩ && line.smallLane ⟨k - 16,lane_less h⟩ else false := by
  rw [BitVec.getMsbD_and,gather_lane shows.small]
  by_cases inside : 16 ≤ k ∧ k < 32
  · rw [dif_pos inside,dif_pos inside,shows.mayProcess inside]
  · rw [dif_neg inside,dif_neg inside,Bool.and_false]

end RawLine.Shows

-- The number of a slot that may be none.
def slotNumber : Option Slot → Nat
  | some i => i.val
  | none => 32

-- The lanes that chunkToProcess is taken from.
def CacheLine.choiceLane (line : CacheLine Nat) (i : Slot) : Bool :=
  if CacheLine.lowest (fun k => line.mayProcess k && line.smallLane k) = none then line.mayProcess i
  else line.mayProcess i && line.smallLane i

theorem CacheLine.chunkToProcess_lowest (line : CacheLine Nat) : line.chunkToProcess = CacheLine.lowest line.choiceLane := by
  unfold CacheLine.chunkToProcess
  cases short : CacheLine.lowest fun k => line.mayProcess k && line.smallLane k with
  | none =>
    have lanes : line.choiceLane = line.mayProcess := funext fun i => if_pos short
    rw [lanes]
  | some i =>
    have lanes : line.choiceLane = fun k => line.mayProcess k && line.smallLane k :=
      funext fun k => if_neg (by rw [short]; exact nofun)
    rw [lanes,short]

namespace RawLine.Shows

theorem short_zero (shows : cache.Shows line) :
    (~~~(spu_gather cache.doneChunks ||| spu_gather cache.busyChunks) &&& spu_gather cache.small) = 0 ↔
      CacheLine.lowest (fun k => line.mayProcess k && line.smallLane k) = none := by
  rw [word_zero,CacheLine.lowest_none]
  constructor
  · intro none i
    have bit := shows.mayProcessShort (16 + i.val)
    rw [none _ (by omega),dif_pos (by omega)] at bit
    simp only [Nat.add_sub_cancel_left] at bit
    exact bit.symm
  · intro none k _
    rw [shows.mayProcessShort]
    split
    · exact none _
    · rfl

theorem bits (shows : cache.Shows line) : Lanes16 cache.mayProcessBits line.choiceLane := by
  intro k less
  unfold RawLine.mayProcessBits
  simp only
  rw [BitVec.getMsbD_shiftLeft]
  by_cases low : k < 16
  · have inside : 16 ≤ k + 16 ∧ k + 16 < 32 := by omega
    rw [dif_pos low]
    unfold CacheLine.choiceLane selWord cmpeqWord
    by_cases zero : CacheLine.lowest (fun k => line.mayProcess k && line.smallLane k) = none
    · rw [if_pos zero,if_pos (shows.short_zero.mpr zero)]
      simp only [BitVec.not_allOnes,BitVec.and_zero,BitVec.and_allOnes,BitVec.zero_or]
      rw [shows.mayProcess inside]
      simp only [Nat.add_sub_cancel]
    · rw [if_neg zero,if_neg fun none => zero (shows.short_zero.mp none)]
      simp only [BitVec.ofNat_eq_ofNat,BitVec.not_zero,BitVec.and_allOnes,BitVec.and_zero,BitVec.or_zero]
      rw [shows.mayProcessShort,dif_pos inside]
      simp only [Nat.add_sub_cancel]
  · rw [dif_neg low]
    exact BitVec.getMsbD_of_ge _ _ (by omega)

-- cntlz of lanes at the front of a word, as a slot number, or 32.
theorem lowest_number {w : BitVec 32} {lane : Slot → Bool} (lanes : Lanes16 w lane) :
    (w = 0 ↔ CacheLine.lowest lane = none) ∧ (spu_cntlz w).toNat = slotNumber (CacheLine.lowest lane) := by
  have zero : w = 0 ↔ CacheLine.lowest lane = none := lanes.zero.trans CacheLine.lowest_none.symm
  refine ⟨zero,?_⟩
  cases found : CacheLine.lowest lane with
  | none =>
    rw [zero.mpr found]
    decide
  | some i =>
    rw [lanes.cntlz (CacheLine.lowest_some found) (CacheLine.lowest_first found),BitVec.toNat_ofNat]
    exact Nat.mod_eq_of_lt (by omega)

end RawLine.Shows

theorem load_slot (v : Array16) (i : Slot) : RawLine.load v i.val = v i := dif_pos i.isLt

theorem busy_byte_or : ∀ n : Slot, n.val ||| 32 = n.val + 32 := by decide

theorem link_mask : ∀ n : Slot, n.val &&& 31 = n.val := by decide

theorem tile_before (less : x < 65536) : (x + 2^32 - 1) % 2^32 &&& 4095 = (x + 4095) % 4096 := by
  rw [Nat.and_two_pow_sub_one_eq_mod _ 12]
  omega

-- What the claim of chunk c reads, with the free chunk it takes.
theorem claimAt_exact (shows : cache.Shows line) (idle : line.chunkNext c = .chunk false n) (free : Nat) :
    ∃ taken, taken = (if (1 + (line.chunkStart n + 4095) % 4096 + 2^32 - line.chunkStart c) % 2^32 ≤ NUMBER_OF_TILES_PER_CHUNK then 32
        else free) ∧
      (cache.claimAt c.val free).2 = ⟨c.val,line.chunkStart c,line.chunkTriangle c,n.val,(line.chunkStart n + 4095) % 4096,taken⟩ ∧
      (cache.claimAt c.val free).1 = if taken ≠ 32 then
          {cache with
            chunkNext := storeAt (storeAt cache.chunkNext c.val (n.val + 32)) taken 254
            chunkTriangle := storeAt cache.chunkTriangle taken (line.chunkTriangle c)}
        else {cache with chunkNext := storeAt cache.chunkNext c.val (n.val + 32)} := by
  have start : RawLine.load cache.chunkStart c.val = line.chunkStart c := by rw [load_slot,shows.starts]
  have triangle : RawLine.load cache.chunkTriangle c.val = line.chunkTriangle c := by rw [load_slot,shows.triangles]
  have next : RawLine.load cache.chunkNext c.val = n.val := by
    rw [load_slot,shows.next]
    simp [idle,ChunkNext.byte]
  have stop : (RawLine.load cache.chunkStart n.val + 2^32 - 1) % 2^32 &&& 4095 = (line.chunkStart n + 4095) % 4096 := by
    rw [load_slot,shows.starts,tile_before (shows.start_less n)]
  refine ⟨_,rfl,?_,?_⟩
  · unfold RawLine.claimAt
    simp only [start,triangle,next,link_mask,stop]
  · unfold RawLine.claimAt
    simp only [start,triangle,next,link_mask,stop,busy_byte_or]

theorem mark_shown (shows : cache.Shows line) (c n : Slot) :
    ({cache with chunkNext := storeAt cache.chunkNext c.val (n.val + 32)} : RawLine).Shows (line.setNext c (.chunk true n)) := by
  refine ⟨shows.triangles,shows.starts,?_,shows.ends,shows.triangle_less,shows.start_less⟩
  funext i
  simp only [CacheLine.setNext_chunkNext]
  by_cases isC : i = c
  · rw [isC,Function.update_self,storeAt,if_pos rfl]
    rfl
  · rw [Function.update_of_ne isC,storeAt,if_neg fun same => isC (Fin.ext same),shows.next]

theorem reserve_shown (shows : cache.Shows line) (f : Slot) (triangle : Nat) (less : triangle < 65536) :
    ({cache with
      chunkNext := storeAt cache.chunkNext f.val 254
      chunkTriangle := storeAt cache.chunkTriangle f.val triangle} : RawLine).Shows ((line.setNext f .reserved).setTriangle f triangle) := by
  refine ⟨?_,shows.starts,?_,shows.ends,?_,shows.start_less⟩
  · funext i
    simp only [CacheLine.setTriangle_chunkTriangle,CacheLine.setNext_chunkTriangle,storeAt,shows.triangles,Function.update_apply,Fin.ext_iff]
  · funext i
    simp only [CacheLine.setTriangle_chunkNext,CacheLine.setNext_chunkNext]
    by_cases isF : i = f
    · rw [isF,Function.update_self,storeAt,if_pos rfl]
      rfl
    · rw [Function.update_of_ne isF,storeAt,if_neg fun same => isF (Fin.ext same),shows.next]
  · intro i
    simp only [CacheLine.setTriangle_chunkTriangle,CacheLine.setNext_chunkTriangle]
    by_cases isF : i = f
    · rw [isF,Function.update_self]
      exact less
    · rw [Function.update_of_ne isF]
      exact shows.triangle_less i

-- The rule that the lanes should follow.
def Eligible (line : CacheLine Nat) (i : Slot) : Prop := (∃ n, line.chunkNext i = .chunk false n) ∧ line.chunkTriangle i ≠ line.endTriangle

def Short (line : CacheLine Nat) (i : Slot) : Prop := line.chunkStop i ≤ line.chunkStart i + NUMBER_OF_TILES_PER_CHUNK

theorem mayProcess_eligible (i : Slot) : line.mayProcess i = true ↔ Eligible line i := by
  unfold CacheLine.mayProcess Eligible
  rw [Bool.and_eq_true,Bool.not_eq_true',Bool.not_eq_true',decide_eq_false_iff_not,decide_eq_false_iff_not,ChunkNext.busy_byte]
  constructor
  · rintro ⟨more,idle⟩
    refine ⟨?_,more⟩
    by_contra marked
    exact idle fun n same => marked ⟨n,same⟩
  · rintro ⟨⟨n,idle⟩,more⟩
    exact ⟨more,fun marked => marked n idle⟩

-- Where a chunk ends, as the lanes and as the scalar code see it.
theorem chunk_stop (valid : line.WellLinked) (idle : line.chunkNext c = .chunk false n) :
    line.endLane c = line.chunkStop c ∧ (line.chunkStart n + 4095) % 4096 + 1 = line.chunkStop c ∧
      line.chunkStart c < line.chunkStop c ∧ line.chunkStop c ≤ 4096 := by
  have link : line.links c = some n := by simp [CacheLine.links,idle]
  obtain ⟨m,onward⟩ := Option.isSome_iff_exists.mp (valid.closed c n link)
  have below : line.chunkStart n < 4096 := valid.below n m onward
  have mask : (line.chunkNext c).mask = n := by rw [idle]; rfl
  have lane : line.endLane c = if line.chunkStart n = 0 then 4096 else line.chunkStart n := by
    rw [← mask]
    rfl
  refine ⟨?_,?_,valid.before_stop link,valid.stop_le link⟩
  · unfold CacheLine.chunkStop
    rw [OrderedCycle.stop_some link,lane]
    by_cases root : n = 0
    · rw [if_pos root,if_pos (root ▸ valid.start)]
    · have positive := valid.positive onward root
      rw [if_neg root,if_neg (by omega)]
  · unfold CacheLine.chunkStop
    rw [OrderedCycle.stop_some link]
    split
    · rename_i root
      rw [root,valid.start]
    · rename_i inner
      have positive := valid.positive onward inner
      omega

theorem small_short (valid : line.WellLinked) (eligible : Eligible line c) : line.smallLane c = true ↔ Short line c := by
  obtain ⟨⟨n,idle⟩,_⟩ := eligible
  obtain ⟨ends,_,low,high⟩ := chunk_stop valid idle
  unfold CacheLine.smallLane Short NUMBER_OF_TILES_PER_CHUNK
  rw [ends,decide_eq_true_eq]
  omega

-- The scalar rule for the chunk.
theorem choice_exact (valid : line.WellLinked) : (line.chunkToProcess = none ↔ ∀ i, ¬Eligible line i) ∧
    ∀ c, line.chunkToProcess = some c → Eligible line c ∧
      ((Short line c ∧ ∀ i, i < c → ¬(Eligible line i ∧ Short line i)) ∨
        ((∀ i, ¬(Eligible line i ∧ Short line i)) ∧ ∀ i, i < c → ¬Eligible line i)) := by
  have short (i : Slot) : (line.mayProcess i && line.smallLane i) = true ↔ Eligible line i ∧ Short line i := by
    rw [Bool.and_eq_true,mayProcess_eligible]
    exact and_congr_right fun eligible => small_short valid eligible
  have not_short {i : Slot} (out : (line.mayProcess i && line.smallLane i) = false) : ¬(Eligible line i ∧ Short line i) := by
    rw [← short,out]
    exact nofun
  have not_eligible {i : Slot} (out : line.mayProcess i = false) : ¬Eligible line i := by
    rw [← mayProcess_eligible,out]
    exact nofun
  unfold CacheLine.chunkToProcess
  cases found : CacheLine.lowest fun i => line.mayProcess i && line.smallLane i with
  | some c =>
    obtain ⟨eligible,few⟩ := (short c).mp (CacheLine.lowest_some found)
    refine ⟨⟨nofun,fun none => absurd eligible (none c)⟩,?_⟩
    rintro _ ⟨⟩
    exact ⟨eligible,.inl ⟨few,fun i less => not_short (CacheLine.lowest_first found i less)⟩⟩
  | none =>
    have noShort (i : Slot) := not_short (CacheLine.lowest_none.mp found i)
    constructor
    · simp only
      rw [CacheLine.lowest_none]
      constructor
      · intro none i
        exact not_eligible (none i)
      · intro none i
        exact Bool.eq_false_iff.mpr fun may => none i ((mayProcess_eligible i).mp may)
    · intro c taken
      exact ⟨(mayProcess_eligible c).mp (CacheLine.lowest_some taken),
        .inr ⟨noShort,fun i less => not_eligible (CacheLine.lowest_first taken i less)⟩⟩

-- And for the free chunk.
theorem freeSlot_exact (line : CacheLine Nat) : (line.freeSlot = none ↔ ∀ f, line.chunkNext f ≠ .free) ∧
    ∀ f, line.freeSlot = some f → line.chunkNext f = .free ∧ ∀ i, i < f → line.chunkNext i ≠ .free := by
  have lane (f : Slot) : line.freeLane f = false ↔ line.chunkNext f ≠ .free := decide_eq_false_iff_not
  constructor
  · unfold CacheLine.freeSlot
    rw [CacheLine.lowest_none]
    exact forall_congr' lane
  · intro f found
    refine ⟨freeSlot_free found,?_⟩
    intro i less
    exact (lane i).mp (CacheLine.lowest_first found i less)

-- The lanes choose as the scalar rule does, read its chunk off and mark it.
theorem lanes_choose (shows : cache.Shows line) (valid : line.WellLinked) :
    (cache.claimChunk = none ↔ ∀ i, ¬Eligible line i) ∧
    ∀ cache' v, cache.claimChunk = some (cache',v) → ∃ c n, v.chunkToProcess = c.val ∧ line.chunkNext c = .chunk false n ∧
      Eligible line c ∧
      ((Short line c ∧ ∀ i, i < c → ¬(Eligible line i ∧ Short line i)) ∨
        ((∀ i, ¬(Eligible line i ∧ Short line i)) ∧ ∀ i, i < c → ¬Eligible line i)) ∧
      (∀ t, line.Holds c t ↔ v.chunkStart ≤ t ∧ t ≤ v.chunkEnd) ∧
      ((v.freeChunk = 32 ∧ (Short line c ∨ ∀ f, line.chunkNext f ≠ .free) ∧ cache'.Shows (line.setNext c (.chunk true n))) ∨
        ∃ f, v.freeChunk = f.val ∧ ¬Short line c ∧ line.chunkNext f = .free ∧ (∀ i, i < f → line.chunkNext i ≠ .free) ∧
          cache'.Shows (((line.setNext c (.chunk true n)).setNext f .reserved).setTriangle f (line.chunkTriangle c))) := by
  obtain ⟨zero,number⟩ := RawLine.Shows.lowest_number shows.bits
  rw [← CacheLine.chunkToProcess_lowest] at zero number
  have unused := (RawLine.Shows.lowest_number (gather_lanes cache.freeChunks)).2
  have freeLane : (fun i => cache.freeChunks i % 2 == 1) = line.freeLane := funext shows.free
  rw [freeLane] at unused
  obtain ⟨nothing,something⟩ := choice_exact valid
  constructor
  · rw [← nothing,← zero]
    unfold RawLine.claimChunk
    simp only
    split
    · rename_i none
      exact ⟨fun _ => none,fun _ => rfl⟩
    · rename_i some_
      exact ⟨nofun,fun none => absurd none some_⟩
  · intro cache' v ran
    unfold RawLine.claimChunk at ran
    simp only at ran
    split at ran
    · cases ran
    · rename_i some_
      rw [zero] at some_
      obtain ⟨c,found⟩ := Option.ne_none_iff_exists'.mp some_
      obtain ⟨eligible,rule⟩ := something c found
      obtain ⟨n,idle⟩ := eligible.1
      rw [found] at number
      have number : (spu_cntlz cache.mayProcessBits).toNat = c.val := number
      obtain ⟨_,stop,low,high⟩ := chunk_stop valid idle
      rw [number,unused] at ran
      obtain ⟨taken,taken_eq,choice,marked⟩ := claimAt_exact shows idle (slotNumber (CacheLine.lowest line.freeLane))
      have picked : v = _ := (congrArg Prod.snd (Option.some.inj ran)).symm.trans choice
      have stored : cache' = _ := (congrArg Prod.fst (Option.some.inj ran)).symm.trans marked
      have few : (1 + (line.chunkStart n + 4095) % 4096 + 2^32 - line.chunkStart c) % 2^32 ≤ NUMBER_OF_TILES_PER_CHUNK ↔ Short line c := by
        unfold Short NUMBER_OF_TILES_PER_CHUNK
        omega
      have plain := mark_shown shows c n
      refine ⟨c,n,by rw [picked],idle,eligible,rule,?_,?_⟩
      · intro t
        rw [picked]
        constructor
        · rintro ⟨_,from_,upto⟩
          have before : t < line.chunkStop c := upto
          exact ⟨from_,by simp only; omega⟩
        · rintro ⟨from_,upto⟩
          simp only at from_ upto
          have before : t < line.chunkStop c := by omega
          exact ⟨by simp [CacheLine.links,idle],from_,before⟩
      · rw [picked,stored]
        simp only
        by_cases short : Short line c
        · rw [if_pos (few.mpr short)] at taken_eq
          rw [taken_eq,if_neg (not_not.mpr rfl)]
          exact .inl ⟨rfl,.inl short,plain⟩
        · rw [if_neg fun less => short (few.mp less)] at taken_eq
          cases free : CacheLine.lowest line.freeLane with
          | none =>
            rw [free] at taken_eq
            have taken_eq : taken = 32 := taken_eq
            rw [taken_eq,if_neg (not_not.mpr rfl)]
            exact .inl ⟨rfl,.inr ((freeSlot_exact line).1.mp free),plain⟩
          | some f =>
            rw [free] at taken_eq
            have taken_eq : taken = f.val := taken_eq
            have inside : taken ≠ 32 := by omega
            obtain ⟨isFree,lowest⟩ := (freeSlot_exact line).2 f free
            rw [if_pos inside,taken_eq]
            exact .inr ⟨f,rfl,short,isFree,lowest,reserve_shown plain f (line.chunkTriangle c) (shows.triangle_less c)⟩

instance (line : CacheLine Nat) (i : Slot) : Decidable (Eligible line i) := inferInstanceAs (Decidable (_ ∧ _))
instance (line : CacheLine Nat) (i : Slot) : Decidable (Short line i) := inferInstanceAs (Decidable (_ ≤ _))

-- With the chunk of eleven tiles finished.
def longLine : CacheLine Nat := {RawLine.mixedLine with chunkTriangle := ![128,640,0,128,0,256,0,512,0,0,0,0,0,0,0,0]}

theorem longLine_shows : (RawLine.ofLine longLine).Shows longLine := RawLine.ofLine_shows (by decide) (by decide)

-- What the rule comes to is read off the lines: the short chunk of slot 1 before the long one of slot 0, and where it is
-- finished the long one, with slot 4 reserved, slot 2 being reserved already.
theorem lanes_choose_mixed :
    (∃ cache' v, (RawLine.ofLine RawLine.mixedLine).claimChunk = some (cache',v) ∧ v.chunkToProcess = 1 ∧ v.freeChunk = 32 ∧
      ∀ t, RawLine.mixedLine.Holds 1 t ↔ v.chunkStart ≤ t ∧ t ≤ v.chunkEnd) ∧
    ∃ cache' v, (RawLine.ofLine longLine).claimChunk = some (cache',v) ∧ v.chunkToProcess = 0 ∧ v.freeChunk = 4 ∧
      cache'.Shows (((longLine.setNext 0 (.chunk true 3)).setNext 4 .reserved).setTriangle 4 128) := by
  constructor
  · obtain ⟨none,some_⟩ := lanes_choose RawLine.mixedLine_shows RawLine.mixedLine_linked
    obtain ⟨⟨cache',v⟩,ran⟩ := Option.ne_none_iff_exists'.mp fun nothing => none.mp nothing 1 (by decide)
    obtain ⟨c,_,number,_,eligible,rule,holds,free⟩ := some_ cache' v ran
    have one : ∀ c, Eligible RawLine.mixedLine c →
        ((Short RawLine.mixedLine c ∧ ∀ i, i < c → ¬(Eligible RawLine.mixedLine i ∧ Short RawLine.mixedLine i)) ∨
          ((∀ i, ¬(Eligible RawLine.mixedLine i ∧ Short RawLine.mixedLine i)) ∧ ∀ i, i < c → ¬Eligible RawLine.mixedLine i)) → c = 1 := by
      decide
    obtain rfl := one c eligible rule
    refine ⟨cache',v,ran,number,?_,holds⟩
    rcases free with ⟨none,_⟩ | ⟨_,_,long,_⟩
    · exact none
    · exact absurd (by decide) long
  · obtain ⟨none,some_⟩ := lanes_choose longLine_shows RawLine.mixedLine_linked
    obtain ⟨⟨cache',v⟩,ran⟩ := Option.ne_none_iff_exists'.mp fun nothing => none.mp nothing 0 (by decide)
    obtain ⟨c,n,number,idle,eligible,rule,_,free⟩ := some_ cache' v ran
    have zero : ∀ c, Eligible longLine c → ((Short longLine c ∧ ∀ i, i < c → ¬(Eligible longLine i ∧ Short longLine i)) ∨
        ((∀ i, ¬(Eligible longLine i ∧ Short longLine i)) ∧ ∀ i, i < c → ¬Eligible longLine i)) → c = 0 := by
      decide
    obtain rfl := zero c eligible rule
    obtain rfl : n = 3 := by
      cases idle
      rfl
    refine ⟨cache',v,ran,number,?_⟩
    rcases free with ⟨_,short | full,_⟩ | ⟨f,place,_,unused,lowest,shown⟩
    · exact absurd short (by decide)
    · exact absurd rfl (full 4)
    · have four : ∀ f, longLine.chunkNext f = .free → (∀ i, i < f → longLine.chunkNext i ≠ .free) → f = 4 := by decide
      obtain rfl := four f unused lowest
      exact ⟨place,shown⟩

end
end Spugl
