import Spugl.SpuVectors
import Spugl.RenderTasks

namespace Spugl
open SpuVectors

-- SHUF0 and SHUF1 interleave two sets of bytes, MERGE and SHUFFLE_MERGE_BYTES take the
-- high or the low bytes of halfwords.
def SHUF0 : Bytes := ![0,16,1,17, 2,18,3,19, 4,20,5,21, 6,22,7,23]
def SHUF1 : Bytes := ![8,24,9,25, 10,26,11,27, 12,28,13,29, 14,30,15,31]
def MERGE : Bytes := ![0,2,4,6, 8,10,12,14, 16,18,20,22, 24,26,28,30]
def SHUFFLE_MERGE_BYTES : Bytes := ![1,3,5,7, 9,11,13,15, 17,19,21,23, 25,27,29,31]

-- A RenderableCacheLine as it is in memory, as far as the lane code goes.
structure RawLine where
  chunkTriangle : Array16
  chunkStart : Array16
  chunkNext : Bytes
  endTriangle : Nat

-- firstshuf, from nextmask
def firstShuffle (next : Bytes) : Bytes :=
  bytes (slHalves (halves (spu_and next (spu_splats 31))) 1)

-- ntri0 and ntri1, or nstart0 and nstart1: each lane of an array at its successor.
def successors0 (v : Array16) (firstshuf : Bytes) : Halves :=
  halves (spu_shuffle (bytes (front v)) (bytes (back v))
    (spu_shuffle (spu_and firstshuf (spu_splats 254)) (spu_or firstshuf (spu_splats 1)) SHUF0))

def successors1 (v : Array16) (firstshuf : Bytes) : Halves :=
  halves (spu_shuffle (bytes (front v)) (bytes (back v))
    (spu_shuffle (spu_and firstshuf (spu_splats 254)) (spu_or firstshuf (spu_splats 1)) SHUF1))

-- An array store. No store of the code is outside.
def storeAt (v : Array16) (k x : Nat) : Array16 := fun i => if i.val = k then x else v i

namespace RawLine

def canmerge (cache : RawLine) : Bytes :=
  let next := cache.chunkNext
  let nextnext := spu_shuffle next next next
  let firstblock0 := cmpeqHalves (front cache.chunkStart) (splatsHalves 0)
  let firstblock1 := cmpeqHalves (back cache.chunkStart) (splatsHalves 0)
  let firstshuf := firstShuffle next
  let first := spu_shuffle (bytes firstblock0) (bytes firstblock1) firstshuf
  let ntri0 := successors0 cache.chunkTriangle firstshuf
  let ntri1 := successors1 cache.chunkTriangle firstshuf
  let trieq0 := cmpeqHalves (front cache.chunkTriangle) ntri0
  let trieq1 := cmpeqHalves (back cache.chunkTriangle) ntri1
  let trieq := spu_shuffle (bytes trieq0) (bytes trieq1) MERGE
  let combi := spu_orc first trieq
  cmpgtBytes (spu_nor (spu_or next nextnext) combi) (spu_splats 224)

-- One turn of the loop of merge_cache_blocks; none is its return.
def mergeTurn (cache : RawLine) : Option RawLine :=
  let next := cache.chunkNext
  let gather := spu_gather cache.canmerge
  let mergeid := spu_cntlz gather - 16
  if gather = 0 then none
  else
    let v_chunkNext := si_rotqby next (mergeid + 13)
    let v_chunkNextNext := si_rotqby next (word v_chunkNext + 13)
    let next := spu_shuffle v_chunkNextNext next (si_cbd mergeid)
    let next := spu_shuffle (spu_splats 255) next (si_cbd (word v_chunkNext))
    some {cache with
      chunkStart := storeAt cache.chunkStart (word v_chunkNext &&& 255).toNat 65535
      chunkNext := next}

-- The loop by its turns.
inductive Merges : RawLine → RawLine → Prop where
  | return (cache : RawLine) : cache.mergeTurn = none → Merges cache cache
  | turn (cache : RawLine) : cache.mergeTurn = some next → Merges next last → Merges cache last

-- What process_render_tasks has chosen. The numbers are unsigned ints.
structure Choice where
  chunkToProcess : Nat
  chunkStart : Nat
  chunkTriangle : Nat
  chunkNext : Nat
  chunkEnd : Nat
  freeChunk : Nat

def small (cache : RawLine) : Bytes :=
  let firstshuf := firstShuffle cache.chunkNext
  let start0 := front cache.chunkStart
  let start1 := back cache.chunkStart
  let nstart0 := successors0 cache.chunkStart firstshuf
  let nstart1 := successors1 cache.chunkStart firstshuf
  let starteq0 := cmpeqHalves nstart0 (splatsHalves 0)
  let starteq1 := cmpeqHalves nstart1 (splatsHalves 0)
  let end0 := selHalves nstart0 (splatsHalves 4096) starteq0
  let end1 := selHalves nstart1 (splatsHalves 4096) starteq1
  let len0 := subHalves end0 start0
  let len1 := subHalves end1 start1
  let small0 := cmpgtHalves (splatsHalves 17) len0
  let small1 := cmpgtHalves (splatsHalves 17) len1
  spu_shuffle (bytes small0) (bytes small1) MERGE

def doneChunks (cache : RawLine) : Bytes :=
  let testTriangle := splatsHalves cache.endTriangle
  spu_shuffle (bytes (cmpeqHalves testTriangle (front cache.chunkTriangle)))
    (bytes (cmpeqHalves testTriangle (back cache.chunkTriangle))) SHUFFLE_MERGE_BYTES

def freeChunks (cache : RawLine) : Bytes := cmpeqBytes (spu_splats 255) cache.chunkNext

def busyChunks (cache : RawLine) : Bytes := cmpgtBytes cache.chunkNext (spu_splats 31)

def mayProcessBits (cache : RawLine) : BitVec 32 :=
  let smallChunkGather := spu_gather cache.small
  let doneChunkGather := spu_gather cache.doneChunks
  let busyChunkGather := spu_gather cache.busyChunks
  let mayProcessGather := ~~~(doneChunkGather ||| busyChunkGather)
  let mayProcessShortGather := mayProcessGather &&& smallChunkGather
  let shortSelMask := cmpeqWord mayProcessShortGather 0
  let mayProcessSelection := selWord mayProcessShortGather mayProcessGather shortSelMask
  mayProcessSelection <<< 16

-- An element of an array by its number.
def load (v : Array16) (k : Nat) : Nat := if h : k < 16 then v ⟨k,h⟩ else 0

-- The chunk is marked busy, and a free chunk is claimed if there is one and the chunk is long.
def claimAt (cache : RawLine) (chunkToProcess freeChunk : Nat) : RawLine × Choice :=
  let chunkStart := load cache.chunkStart chunkToProcess
  let chunkTriangle := load cache.chunkTriangle chunkToProcess
  let chunkNext := load cache.chunkNext chunkToProcess &&& 31
  let chunkEnd := (load cache.chunkStart chunkNext + 2^32 - 1) % 2^32 &&& 4095
  let chunkLength := (1 + chunkEnd + 2^32 - chunkStart) % 2^32
  let freeChunk := if chunkLength ≤ NUMBER_OF_TILES_PER_CHUNK then 32 else freeChunk
  let busy := storeAt cache.chunkNext chunkToProcess (load cache.chunkNext chunkToProcess ||| 32)
  let line := if freeChunk ≠ 32 then
      {cache with chunkNext := storeAt busy freeChunk 254,chunkTriangle := storeAt cache.chunkTriangle freeChunk chunkTriangle}
    else {cache with chunkNext := busy}
  (line,⟨chunkToProcess,chunkStart,chunkTriangle,chunkNext,chunkEnd,freeChunk⟩)

-- From the choice of a chunk to the conditional store; none goes to the next cache line.
def claimChunk (cache : RawLine) : Option (RawLine × Choice) :=
  let mayProcessBits := cache.mayProcessBits
  let chunkToProcess := (spu_cntlz mayProcessBits).toNat
  let freeChunk := (spu_cntlz (spu_gather cache.freeChunks <<< 16)).toNat
  if mayProcessBits = 0 then none else some (cache.claimAt chunkToProcess freeChunk)

end RawLine

-- The bytes in memory show a line.
structure RawLine.Shows (cache : RawLine) (line : CacheLine Nat) : Prop where
  triangles : cache.chunkTriangle = line.chunkTriangle
  starts : cache.chunkStart = line.chunkStart
  next : cache.chunkNext = fun i => (line.chunkNext i).byte
  ends : cache.endTriangle = line.endTriangle
  triangle_less : ∀ i, line.chunkTriangle i < 65536
  start_less : ∀ i, line.chunkStart i < 65536

section
variable {cache : RawLine} {line : CacheLine Nat}

theorem ChunkNext.byte_mask (n : ChunkNext) : n.byte % 16 = n.mask.val := by
  cases n with
  | free => decide
  | reserved => decide
  | chunk busy next =>
    have less := next.isLt
    simp only [byte,mask_chunk]
    split <;> omega

theorem SHUF0_lanes : ∀ j : Fin 8, SHUF0 ⟨2 * j.val,even_less j⟩ = j.val ∧ SHUF0 ⟨2 * j.val + 1,odd_less j⟩ = 16 + j.val := by decide

theorem SHUF1_lanes : ∀ j : Fin 8, SHUF1 ⟨2 * j.val,even_less j⟩ = 8 + j.val ∧ SHUF1 ⟨2 * j.val + 1,odd_less j⟩ = 24 + j.val := by decide

theorem MERGE_lanes : ∀ i : Fin 16, MERGE i = 2 * i.val := by decide

theorem MERGE_BYTES_lanes : ∀ i : Fin 16, SHUFFLE_MERGE_BYTES i = 2 * i.val + 1 := by decide

-- The low bit that is shifted in from the next byte is never set.
theorem firstShuffle_lane (next : Bytes) (i : Fin 16) : firstShuffle next i = 2 * (next i % 32) := by
  have masked (k : Fin 16) : spu_and next (spu_splats 31) k = next k % 32 := Nat.and_two_pow_sub_one_eq_mod (next k) 5
  unfold firstShuffle bytes slHalves halves
  simp only [masked]
  split
  · have place : 2 * (i.val / 2) = i.val := by omega
    simp only [place,Fin.eta]
    omega
  · have place : 2 * (i.val / 2) + 1 = i.val := by omega
    simp only [place,Fin.eta]
    omega

theorem even_control (x : Nat) : 2 * (x % 32) &&& 254 = 2 * (x % 32) := by
  have all : ∀ y : Fin 32, 2 * y.val &&& 254 = 2 * y.val := by decide
  exact all ⟨x % 32,Nat.mod_lt _ (by decide)⟩

theorem odd_control (x : Nat) : 2 * (x % 32) ||| 1 = 2 * (x % 32) + 1 := by
  have all : ∀ y : Fin 32, 2 * y.val ||| 1 = 2 * y.val + 1 := by decide
  exact all ⟨x % 32,Nat.mod_lt _ (by decide)⟩

-- A lane's successor, as the shuffles see it.
def successor (next : Bytes) (i : Fin 16) : Fin 16 := ⟨next i % 16,Nat.mod_lt _ (by decide)⟩

theorem even_byte (v : Array16) (x : Nat) : byteOf v (2 * (x % 32) % 32) (Nat.mod_lt _ (by decide)) =
    v ⟨x % 16,Nat.mod_lt _ (by decide)⟩ / 256 := by
  have even : 2 * (x % 32) % 32 % 2 = 0 := by omega
  have place : 2 * (x % 32) % 32 / 2 = x % 16 := by omega
  simp only [byteOf,even,place,if_true]

theorem odd_byte (v : Array16) (x : Nat) : byteOf v ((2 * (x % 32) + 1) % 32) (Nat.mod_lt _ (by decide)) =
    v ⟨x % 16,Nat.mod_lt _ (by decide)⟩ % 256 := by
  have odd : ¬(2 * (x % 32) + 1) % 32 % 2 = 0 := by omega
  have place : (2 * (x % 32) + 1) % 32 / 2 = x % 16 := by omega
  simp only [byteOf,odd,place,if_false]

-- The two bytes that the interleaved controls fetch are those of one element.
theorem fetched_element (v : Array16) (next : Bytes) (shuf : Bytes) (j : Fin 8) (i : Fin 16)
    (low : shuf ⟨2 * j.val,even_less j⟩ = i.val) (high : shuf ⟨2 * j.val + 1,odd_less j⟩ = 16 + i.val) :
    halves (spu_shuffle (bytes (front v)) (bytes (back v))
      (spu_shuffle (spu_and (firstShuffle next) (spu_splats 254)) (spu_or (firstShuffle next) (spu_splats 1)) shuf)) j =
      v (successor next i) := by
  have controlLow : spu_shuffle (spu_and (firstShuffle next) (spu_splats 254)) (spu_or (firstShuffle next) (spu_splats 1)) shuf
      ⟨2 * j.val,even_less j⟩ = 2 * (next i % 32) := by
    rw [shuffle_first low i.isLt]
    simp only [spu_and,spu_splats,Fin.eta,firstShuffle_lane,even_control]
  have controlHigh : spu_shuffle (spu_and (firstShuffle next) (spu_splats 254)) (spu_or (firstShuffle next) (spu_splats 1)) shuf
      ⟨2 * j.val + 1,odd_less j⟩ = 2 * (next i % 32) + 1 := by
    rw [shuffle_second high i.isLt]
    simp only [spu_or,spu_splats,Fin.eta,firstShuffle_lane,odd_control]
  unfold halves
  rw [shuffle_array _ _ _ (by rw [controlLow]; omega),shuffle_array _ _ _ (by rw [controlHigh]; omega)]
  simp only [controlLow,controlHigh,even_byte,odd_byte]
  exact Nat.div_add_mod _ 256

theorem successors0_exact (v : Array16) (next : Bytes) : successors0 v (firstShuffle next) = front fun i => v (successor next i) := by
  funext j
  exact fetched_element v next SHUF0 j ⟨j.val,by omega⟩ (SHUF0_lanes j).1 (SHUF0_lanes j).2

theorem successors1_exact (v : Array16) (next : Bytes) : successors1 v (firstShuffle next) = back fun i => v (successor next i) := by
  funext j
  have high : 24 + j.val = 16 + (8 + j.val) := by omega
  exact fetched_element v next SHUF1 j ⟨8 + j.val,by omega⟩ (SHUF1_lanes j).1 (high ▸ (SHUF1_lanes j).2)

theorem merge_high (v : Array16) (i : Fin 16) : spu_shuffle (bytes (front v)) (bytes (back v)) MERGE i = v i / 256 := by
  rw [shuffle_array _ _ _ (by rw [MERGE_lanes]; omega)]
  have even : 2 * i.val % 32 % 2 = 0 := by omega
  have place : 2 * i.val % 32 / 2 = i.val := by omega
  simp only [MERGE_lanes,byteOf,even,place,if_true,Fin.eta]

theorem merge_low (v : Array16) (i : Fin 16) : spu_shuffle (bytes (front v)) (bytes (back v)) SHUFFLE_MERGE_BYTES i = v i % 256 := by
  rw [shuffle_array _ _ _ (by rw [MERGE_BYTES_lanes]; omega)]
  have odd : ¬(2 * i.val + 1) % 32 % 2 = 0 := by omega
  have place : (2 * i.val + 1) % 32 / 2 = i.val := by omega
  simp only [MERGE_BYTES_lanes,byteOf,odd,place,if_false,Fin.eta]

theorem first_lane (v : Array16) (next : Bytes) (i : Fin 16) :
    spu_shuffle (bytes (front v)) (bytes (back v)) (firstShuffle next) i = v (successor next i) / 256 := by
  rw [shuffle_array _ _ _ (by rw [firstShuffle_lane]; omega)]
  simp only [firstShuffle_lane,even_byte]
  rfl

theorem RawLine.Shows.successor (shows : cache.Shows line) (i : Fin 16) : successor cache.chunkNext i = (line.chunkNext i).mask := by
  apply Fin.ext
  simp only [Spugl.successor,shows.next,ChunkNext.byte_mask]

theorem RawLine.Shows.nextnext (shows : cache.Shows line) (i : Fin 16) :
    spu_shuffle cache.chunkNext cache.chunkNext cache.chunkNext i = line.nextnext i := by
  unfold CacheLine.nextnext
  cases at_ : line.chunkNext i with
  | free =>
    have control : cache.chunkNext i = 255 := by simp [shows.next,at_,ChunkNext.byte]
    rw [spu_shuffle,if_pos (by omega)]
  | reserved =>
    have control : cache.chunkNext i = 254 := by simp [shows.next,at_,ChunkNext.byte]
    rw [spu_shuffle,if_pos (by omega)]
  | chunk busy next =>
    have less := next.isLt
    have control : cache.chunkNext i = next.val + if busy then 32 else 0 := by simp [shows.next,at_,ChunkNext.byte]
    have low : cache.chunkNext i < 48 := by rw [control]; split <;> omega
    have place : cache.chunkNext i % 32 = next.val := by rw [control]; split <;> omega
    rw [spu_shuffle,if_neg (by omega),if_neg (by omega),if_neg (by omega),dif_pos (by omega)]
    simp only [place,Fin.eta]
    rw [shows.next]

-- 255 in the lanes that merge.
theorem RawLine.Shows.canmerge (shows : cache.Shows line) (i : Fin 16) :
    cache.canmerge i = if line.canmerge i then 255 else 0 := by
  have first : spu_shuffle (bytes (cmpeqHalves (front cache.chunkStart) (splatsHalves 0)))
      (bytes (cmpeqHalves (back cache.chunkStart) (splatsHalves 0))) (firstShuffle cache.chunkNext) i =
        if line.chunkStart (line.chunkNext i).mask = 0 then 255 else 0 := by
    have lane := first_lane (fun k => if cache.chunkStart k = 0 then 65535 else 0) cache.chunkNext i
    refine lane.trans ?_
    rw [shows.successor,shows.starts]
    split <;> rfl
  have trieq : spu_shuffle (bytes (cmpeqHalves (front cache.chunkTriangle) (successors0 cache.chunkTriangle (firstShuffle cache.chunkNext))))
      (bytes (cmpeqHalves (back cache.chunkTriangle) (successors1 cache.chunkTriangle (firstShuffle cache.chunkNext)))) MERGE i =
        if line.chunkTriangle i = line.chunkTriangle (line.chunkNext i).mask then 255 else 0 := by
    rw [successors0_exact,successors1_exact]
    have lane := merge_high (fun k => if cache.chunkTriangle k = cache.chunkTriangle (Spugl.successor cache.chunkNext k) then 65535 else 0) i
    refine lane.trans ?_
    simp only [shows.successor,shows.triangles]
    split <;> rfl
  have combi : spu_orc (spu_shuffle (bytes (cmpeqHalves (front cache.chunkStart) (splatsHalves 0)))
      (bytes (cmpeqHalves (back cache.chunkStart) (splatsHalves 0))) (firstShuffle cache.chunkNext))
      (spu_shuffle (bytes (cmpeqHalves (front cache.chunkTriangle) (successors0 cache.chunkTriangle (firstShuffle cache.chunkNext))))
        (bytes (cmpeqHalves (back cache.chunkTriangle) (successors1 cache.chunkTriangle (firstShuffle cache.chunkNext)))) MERGE) i =
        line.combi i := by
    unfold spu_orc CacheLine.combi
    rw [first,trieq]
    by_cases zero : line.chunkStart (line.chunkNext i).mask = 0 <;>
      by_cases same : line.chunkTriangle i = line.chunkTriangle (line.chunkNext i).mask <;> simp [zero,same]
  unfold RawLine.canmerge CacheLine.canmerge
  simp only [cmpgtBytes,spu_nor,combi,spu_or,shows.nextnext,spu_splats]
  simp only [shows.next,decide_eq_true_eq]

theorem CacheLine.lowest_first {lane : Slot → Bool} (found : CacheLine.lowest lane = some i) : ∀ j, j < i → lane j = false := by
  intro j less
  obtain ⟨_,at_,inside,same,earlier⟩ := List.find?_eq_some_iff_getElem.mp found
  rw [List.getElem_finRange] at same
  have before := earlier j.val (by rw [← same] at less; exact less)
  simpa using before

theorem number_of_lane : ∀ i : Fin 16, (BitVec.ofNat 32 (16 + i.val) : BitVec 32) - 16 = BitVec.ofNat 32 i.val := by decide

theorem number_mod : ∀ i : Fin 16, (BitVec.ofNat 32 i.val).toNat % 16 = i.val := by decide

theorem RawLine.Shows.gathered (shows : cache.Shows line) (k : Nat) : (spu_gather cache.canmerge).getMsbD k =
    if h : 16 ≤ k ∧ k < 32 then line.canmerge ⟨k - 16,lane_less h⟩ else false := by
  rw [gather_bit]
  split
  · rw [shows.canmerge]
    split
    · rename_i yes
      exact yes.symm
    · rename_i no
      exact (Bool.eq_false_iff.mpr no).symm
  · rfl

theorem RawLine.Shows.gathered_none (shows : cache.Shows line) : spu_gather cache.canmerge = 0 ↔ CacheLine.lowest line.canmerge = none := by
  rw [word_zero,CacheLine.lowest_none]
  constructor
  · intro none i
    have bit := shows.gathered (16 + i.val)
    rw [none _ (by omega),dif_pos (by omega)] at bit
    simp only [Nat.add_sub_cancel_left] at bit
    exact bit.symm
  · intro none k _
    rw [shows.gathered]
    split
    · exact none _
    · rfl

theorem RawLine.Shows.gathered_some (shows : cache.Shows line) (found : CacheLine.lowest line.canmerge = some i) :
    spu_cntlz (spu_gather cache.canmerge) - 16 = BitVec.ofNat 32 i.val := by
  rw [cntlz_at (i := 16 + i.val) (by omega),number_of_lane]
  · rw [shows.gathered,dif_pos (by omega)]
    simp only [Nat.add_sub_cancel_left]
    exact CacheLine.lowest_some found
  · intro j less
    rw [shows.gathered]
    split
    · apply CacheLine.lowest_first found
      rw [Fin.lt_def]
      simp only
      omega
    · rfl

-- A turn over the lanes is a turn of the list.
theorem RawLine.Shows.turn (shows : cache.Shows line) :
    (line.mergeStep = none → cache.mergeTurn = none) ∧
      ∀ line', line.mergeStep = some line' → ∃ cache', cache.mergeTurn = some cache' ∧ cache'.Shows line' := by
  constructor
  · intro stopped
    have none : spu_gather cache.canmerge = 0 := by
      rw [shows.gathered_none]
      unfold CacheLine.mergeStep at stopped
      split at stopped
      · assumption
      · cases stopped
    unfold RawLine.mergeTurn
    exact if_pos none
  · intro line' ran
    unfold CacheLine.mergeStep at ran
    split at ran
    · cases ran
    · rename_i i found
      obtain rfl := Option.some.inj ran
      have some_ : spu_gather cache.canmerge ≠ 0 := by
        rw [ne_eq,shows.gathered_none,found]
        exact nofun
      obtain ⟨j,k,may⟩ := (CacheLine.canmerge_exact line i).mp (CacheLine.lowest_some found)
      have mergeid := shows.gathered_some found
      have next : si_rotqby cache.chunkNext (BitVec.ofNat 32 i.val + 13) 3 = j.val := by
        rw [rotqby_number,shows.next]
        simp [may.idle,ChunkNext.byte]
      have less := j.isLt
      have low := word_toNat (si_rotqby cache.chunkNext (BitVec.ofNat 32 i.val + 13))
      rw [next] at low
      have nextnext : si_rotqby cache.chunkNext (word (si_rotqby cache.chunkNext (BitVec.ofNat 32 i.val + 13)) + 13) 3 =
          (line.chunkNext j).byte := by
        rw [rotqby_word _ _ (by omega)]
        simp only [next,Fin.eta]
        rw [shows.next]
      have address : (word (si_rotqby cache.chunkNext (BitVec.ofNat 32 i.val + 13)) &&& 255).toNat = j.val := by
        rw [BitVec.toNat_and]
        exact (Nat.and_two_pow_sub_one_eq_mod _ 8).trans (low.trans (by omega))
      have place : (word (si_rotqby cache.chunkNext (BitVec.ofNat 32 i.val + 13))).toNat % 16 = j.val := by omega
      refine ⟨_,if_neg some_,?_⟩
      simp only [may.idle,ChunkNext.mask_chunk]
      refine ⟨shows.triangles,?_,?_,shows.ends,shows.triangle_less,?_⟩
      · funext m
        simp only [mergeid,address,storeAt,shows.starts,Function.update_apply,Fin.ext_iff]
      · funext m
        simp only [mergeid,shuffle_cbd,place,number_mod,nextnext,spu_splats]
        by_cases isJ : m = j
        · rw [isJ,if_pos rfl,Function.update_self]
          rfl
        · rw [if_neg fun same => isJ (Fin.ext same),Function.update_of_ne isJ]
          by_cases isI : m = i
          · rw [isI,if_pos rfl,Function.update_self]
          · rw [if_neg fun same => isI (Fin.ext same),Function.update_of_ne isI,shows.next]
      · intro m
        simp only
        by_cases isJ : m = j
        · rw [isJ,Function.update_self]
          decide
        · rw [Function.update_of_ne isJ]
          exact shows.start_less m

end
end Spugl
