import Spugl.FixedSizes
import Spugl.OrderedCycle

namespace Spugl

abbrev NUMBER_OF_TILES : Nat := 64*64
abbrev NUMBER_OF_TILES_PER_CHUNK : Nat := 16

-- The sixteen lanes of the chunk arrays.
abbrev Slot := Fin 16

-- One byte of chunkNext: CHUNKNEXT_FREE_BLOCK, CHUNKNEXT_RESERVED, or a slot
-- number with or without CHUNKNEXT_BUSY_BIT. No other byte is ever stored.
inductive ChunkNext where
  | free
  | reserved
  | chunk (busy : Bool) (next : Slot)
  deriving DecidableEq

namespace ChunkNext

def byte : ChunkNext → Nat
  | .free => 255
  | .reserved => 254
  | .chunk busy next => next.val + if busy then 32 else 0

-- The low four bits, which is all a shuffle by chunkNext & CHUNKNEXT_MASK uses.
def mask : ChunkNext → Slot
  | .free => 15
  | .reserved => 14
  | .chunk _ next => next

def setBusy : ChunkNext → ChunkNext
  | .chunk _ next => .chunk true next
  | other => other

def next? : ChunkNext → Option Slot
  | .chunk _ next => some next
  | _ => none

theorem chunk_used : chunk busy next ≠ free := nofun

@[simp] theorem next?_chunk : (chunk busy next).next? = some next := rfl
@[simp] theorem next?_free : free.next? = none := rfl
@[simp] theorem next?_reserved : reserved.next? = none := rfl
@[simp] theorem mask_chunk : (chunk busy next).mask = next := rfl

theorem next?_some {n : ChunkNext} (linked : n.next? = some j) : ∃ busy, n = chunk busy j := by
  cases n with
  | chunk busy next => cases linked; exact ⟨busy,rfl⟩
  | free => cases linked
  | reserved => cases linked

theorem byte_same {n m : ChunkNext} (same : n.byte = m.byte) : n = m := by
  cases n with
  | free =>
    cases m with
    | free => rfl
    | reserved => simp [byte] at same
    | chunk busy next => simp only [byte] at same; split at same <;> omega
  | reserved =>
    cases m with
    | free => simp [byte] at same
    | reserved => rfl
    | chunk busy next => simp only [byte] at same; split at same <;> omega
  | chunk busy next =>
    cases m with
    | free => simp only [byte] at same; split at same <;> omega
    | reserved => simp only [byte] at same; split at same <;> omega
    | chunk busy' next' =>
      have less := next.isLt
      have less' := next'.isLt
      cases busy <;> cases busy' <;> simp [byte,Fin.ext_iff] at same ⊢ <;> omega

theorem busy_byte (n : ChunkNext) : 31 < n.byte ↔ ∀ next, n ≠ chunk false next := by
  cases n with
  | free => simp [byte]
  | reserved => simp [byte]
  | chunk busy next =>
    have := next.isLt
    cases busy <;> simp [byte]
    omega

end ChunkNext

structure CacheLine (τ : Type) where
  chunkTriangle : Slot → τ
  chunkStart : Slot → Nat
  chunkNext : Slot → ChunkNext
  endTriangle : τ

namespace CacheLine
variable {τ : Type}

-- blockManagementCreateRenderable: memset to zero, every chunkNext byte free,
-- then slot 0 linked to itself. `origin` is the triangle pointer zero.
def create (origin : τ) : CacheLine τ where
  chunkTriangle := fun _ => origin
  chunkStart := fun _ => 0
  chunkNext := fun i => if i = 0 then .chunk false 0 else .free
  endTriangle := origin

-- spu_cntlz of gathered lane bits shifted to the top: the lowest set lane.
def lowest (lane : Slot → Bool) : Option Slot := (List.finRange 16).find? lane

theorem lowest_some (found : lowest lane = some i) : lane i = true := List.find?_some found

theorem lowest_none : lowest lane = none ↔ ∀ i, lane i = false := by
  simp [lowest]

def links (c : CacheLine τ) (i : Slot) : Option Slot := (c.chunkNext i).next?

-- The list slots form one cycle from slot 0 with rising chunkStart.
def WellLinked (c : CacheLine τ) : Prop :=
  OrderedCycle.Ordered 0 NUMBER_OF_TILES c.links c.chunkStart

def chunkStop (c : CacheLine τ) (i : Slot) : Nat :=
  OrderedCycle.stop 0 NUMBER_OF_TILES c.links c.chunkStart i

def Holds (c : CacheLine τ) (i : Slot) (t : Nat) : Prop :=
  OrderedCycle.Covers 0 NUMBER_OF_TILES c.links c.chunkStart t i

theorem create_linked (origin : τ) : (create origin).WellLinked := by
  have only : ∀ i j, (create origin).links i = some j → i = 0 ∧ j = 0 := by
    intro i j linked
    by_cases zero : i = 0
    · subst i; simp [links,create] at linked; exact ⟨rfl,linked.symm⟩
    · simp [links,create,zero] at linked
  refine ⟨rfl,rfl,?_,?_,?_,?_,?_⟩
  · intro i j _; simp [create]
  · intro i j linked; rw [(only i j linked).2]; rfl
  · intro i j linked; exact .inl (only i j linked).2
  · intro j k linked; exact ⟨0,by rw [(only j k linked).1]; rfl⟩
  · intro i i' j one two; rw [(only i j one).1,(only i' j two).1]

-- spu_shuffle(next, next, next): a control byte of 224 or more yields 0x80.
def nextnext (c : CacheLine τ) (i : Slot) : Nat :=
  match c.chunkNext i with
  | .chunk _ next => (c.chunkNext next).byte
  | _ => 0x80

variable [DecidableEq τ]

-- One lane of `combi`: the successor is the first block, or has another triangle.
def combi (c : CacheLine τ) (i : Slot) : Nat :=
  let next := (c.chunkNext i).mask
  if c.chunkStart next = 0 ∨ c.chunkTriangle i ≠ c.chunkTriangle next then 255 else 0

-- spu_cmpgt( spu_nor(spu_or(next, nextnext), combi), 256-CHUNKNEXT_BUSY_BIT )
def canmerge (c : CacheLine τ) (i : Slot) : Bool :=
  decide (255 - (((c.chunkNext i).byte ||| c.nextnext i) ||| c.combi i) > 256 - 32)

-- One turn of the loop of merge_cache_blocks; none is its return.
def mergeStep (c : CacheLine τ) : Option (CacheLine τ) :=
  match lowest c.canmerge with
  | none => none
  | some firstchunk =>
    let nextchunk := (c.chunkNext firstchunk).mask
    some {c with
      chunkNext := Function.update (Function.update c.chunkNext firstchunk (c.chunkNext nextchunk)) nextchunk .free
      chunkStart := Function.update c.chunkStart nextchunk 0xffff}

def mergeLoop : Nat → CacheLine τ → CacheLine τ
  | 0,c => c
  | fuel+1,c => match c.mergeStep with
    | none => c
    | some next => mergeLoop fuel next

-- Each turn frees a slot, so sixteen turns are enough (merge_finished).
def merge_cache_blocks (c : CacheLine τ) : CacheLine τ := mergeLoop 16 c

structure Mergeable (c : CacheLine τ) (i j k : Slot) : Prop where
  idle : c.chunkNext i = .chunk false j
  next : c.chunkNext j = .chunk false k
  inner : c.chunkStart j ≠ 0
  same : c.chunkTriangle i = c.chunkTriangle j

theorem link_bytes : ∀ (b b' : Bool) (j k : Slot),
    (255 - (((ChunkNext.chunk b j).byte ||| (ChunkNext.chunk b' k).byte) ||| 0) > 256 - 32) ↔
      (b = false ∧ b' = false) := by decide +kernel

theorem canmerge_exact (c : CacheLine τ) (i : Slot) :
    c.canmerge i = true ↔ ∃ j k, c.Mergeable i j k := by
  have blocked : ∀ a b : Nat, ¬ 255 - ((a ||| b) ||| 255) > 256 - 32 := by
    intro a b
    have : 255 ≤ (a ||| b) ||| 255 := Nat.right_le_or
    omega
  have tall : ∀ a b : Nat, 32 ≤ a → ¬ 255 - (a ||| b) > 256 - 32 := by
    intro a b large
    have : a ≤ a ||| b := Nat.left_le_or
    omega
  constructor
  · intro may
    simp only [canmerge,decide_eq_true_eq] at may
    cases atI : c.chunkNext i with
    | free => rw [atI,Nat.or_assoc] at may; exact absurd may (tall _ _ (by decide))
    | reserved => rw [atI,Nat.or_assoc] at may; exact absurd may (tall _ _ (by decide))
    | chunk b j =>
      by_cases stops : c.chunkStart j = 0 ∨ c.chunkTriangle i ≠ c.chunkTriangle j
      · simp only [combi,atI,ChunkNext.mask_chunk,if_pos stops] at may
        exact absurd may (blocked _ _)
      · simp only [combi,atI,ChunkNext.mask_chunk,if_neg stops,nextnext] at may
        obtain ⟨inner,same⟩ := not_or.mp stops
        cases atJ : c.chunkNext j with
        | free =>
          rw [atJ,Nat.or_comm (ChunkNext.byte _),Nat.or_assoc] at may
          exact absurd may (tall _ _ (by decide))
        | reserved =>
          rw [atJ,Nat.or_comm (ChunkNext.byte _),Nat.or_assoc] at may
          exact absurd may (tall _ _ (by decide))
        | chunk b' k =>
          rw [atJ] at may
          obtain ⟨rfl,rfl⟩ := (link_bytes b b' j k).mp may
          exact ⟨j,k,atI,atJ,inner,not_not.mp same⟩
  · rintro ⟨j,k,idle,next,inner,same⟩
    have open_ : ¬(c.chunkStart j = 0 ∨ c.chunkTriangle i ≠ c.chunkTriangle j) :=
      not_or.mpr ⟨inner,not_not.mpr same⟩
    simp only [canmerge,decide_eq_true_eq,combi,nextnext,idle,next,ChunkNext.mask_chunk,if_neg open_]
    exact (link_bytes false false j k).mpr ⟨rfl,rfl⟩

theorem mergeStep_cases {c next : CacheLine τ} (ran : c.mergeStep = some next) :
    ∃ i j k, c.Mergeable i j k ∧ next = {c with
      chunkNext := Function.update (Function.update c.chunkNext i (.chunk false k)) j .free
      chunkStart := Function.update c.chunkStart j 0xffff} := by
  unfold mergeStep at ran
  split at ran
  · cases ran
  · rename_i i found
    obtain ⟨j,k,may⟩ := (canmerge_exact c i).mp (lowest_some found)
    refine ⟨i,j,k,may,?_⟩
    simp only [may.idle,ChunkNext.mask_chunk,may.next,Option.some.injEq] at ran
    exact ran.symm

theorem mergeStep_none {c : CacheLine τ} (stopped : c.mergeStep = none) (i j k : Slot) :
    ¬ c.Mergeable i j k := by
  intro may
  have lane := (canmerge_exact c i).mpr ⟨j,k,may⟩
  unfold mergeStep at stopped
  split at stopped
  · rename_i all
    rw [lowest_none.mp all i] at lane
    cases lane
  · cases stopped

-- Any property one turn keeps, the whole loop keeps.
theorem mergeLoop_keeps (P : CacheLine τ → Prop)
    (kept : ∀ c next, c.mergeStep = some next → P c → P next) (fuel : Nat) (c : CacheLine τ)
    (holds : P c) : P (mergeLoop fuel c) := by
  induction fuel generalizing c with
  | zero => exact holds
  | succ fuel ih =>
    unfold mergeLoop
    split
    · exact holds
    · rename_i next ran
      exact ih next (kept c next ran holds)

theorem merge_keeps (P : CacheLine τ → Prop)
    (kept : ∀ c next, c.mergeStep = some next → P c → P next) (c : CacheLine τ)
    (holds : P c) : P c.merge_cache_blocks := mergeLoop_keeps P kept 16 c holds

def used (c : CacheLine τ) : Finset Slot := Finset.univ.filter (fun i => c.chunkNext i ≠ .free)

theorem mergeStep_used {c next : CacheLine τ} (ran : c.mergeStep = some next) :
    next.used.card < c.used.card := by
  obtain ⟨i,j,k,may,rfl⟩ := mergeStep_cases ran
  refine Finset.card_lt_card (Finset.ssubset_iff_of_subset ?_ |>.mpr ⟨j,?_,?_⟩)
  · intro m member
    simp only [used,Finset.mem_filter,Finset.mem_univ,true_and] at member ⊢
    by_cases isJ : m = j
    · subst isJ; simp at member
    · by_cases isI : m = i
      · subst isI; simp [may.idle]
      · simpa [isJ,isI] using member
  · simp [used,may.next]
  · simp [used]

theorem mergeLoop_finished (fuel : Nat) (c : CacheLine τ) (enough : c.used.card ≤ fuel) :
    (mergeLoop fuel c).mergeStep = none := by
  induction fuel generalizing c with
  | zero =>
    cases ran : c.mergeStep with
    | none => exact ran
    | some next => have less := mergeStep_used ran; omega
  | succ fuel ih =>
    unfold mergeLoop
    split
    · assumption
    · rename_i next ran
      have less := mergeStep_used ran
      exact ih next (by omega)

-- The loop of the source ends by its own test, never by the bound above: nothing is
-- left to merge.
theorem merge_finished (c : CacheLine τ) (i j k : Slot) : ¬c.merge_cache_blocks.Mergeable i j k :=
  mergeStep_none (mergeLoop_finished 16 c (Finset.card_le_univ _)) i j k

-- What a merge leaves alone. Only idle chunks change: a tile's new idle chunk
-- carries the triangle that the tile's idle chunk carried before.
structure Merged (c next : CacheLine τ) : Prop where
  linked : next.WellLinked
  ends : next.endTriangle = c.endTriangle
  triangles : next.chunkTriangle = c.chunkTriangle
  busy : ∀ i n, next.chunkNext i = .chunk true n ↔ c.chunkNext i = .chunk true n
  reserved : ∀ i, next.chunkNext i = .reserved ↔ c.chunkNext i = .reserved
  start : ∀ i n, c.chunkNext i = .chunk true n → next.chunkStart i = c.chunkStart i
  stop : ∀ i n, c.chunkNext i = .chunk true n → next.chunkStop i = c.chunkStop i
  tiles : ∀ i n t, next.chunkNext i = .chunk false n → next.Holds i t →
    ∃ j m, c.chunkNext j = .chunk false m ∧ c.Holds j t ∧ c.chunkTriangle j = c.chunkTriangle i

omit [DecidableEq τ] in
theorem Merged.refl {c : CacheLine τ} (valid : c.WellLinked) : Merged c c :=
  ⟨valid,rfl,rfl,fun _ _ => Iff.rfl,fun _ => Iff.rfl,fun _ _ _ => rfl,fun _ _ _ => rfl,
    fun i n _ idle held => ⟨i,n,idle,held,rfl⟩⟩

omit [DecidableEq τ] in
theorem Merged.trans {a b c : CacheLine τ} (one : Merged a b) (two : Merged b c) : Merged a c := by
  refine ⟨two.linked,two.ends.trans one.ends,two.triangles.trans one.triangles,
    fun i n => (two.busy i n).trans (one.busy i n),fun i => (two.reserved i).trans (one.reserved i),?_,?_,?_⟩
  · intro i n busy
    exact (two.start i n ((one.busy i n).mpr busy)).trans (one.start i n busy)
  · intro i n busy
    exact (two.stop i n ((one.busy i n).mpr busy)).trans (one.stop i n busy)
  · intro i n t idle held
    obtain ⟨j,m,idleJ,heldJ,same⟩ := two.tiles i n t idle held
    obtain ⟨l,o,idleL,heldL,same'⟩ := one.tiles j m t idleJ heldJ
    refine ⟨l,o,idleL,heldL,same'.trans ?_⟩
    rw [one.triangles] at same
    exact same

-- The chunk j has gone into the chunk i before it.
structure Removed (limit : Nat) (c next : CacheLine τ) (i j k : Slot) : Prop where
  idleI : c.chunkNext i = .chunk false j
  idleJ : c.chunkNext j = .chunk false k
  same : c.chunkTriangle i = c.chunkTriangle j
  inner : j ≠ 0
  apart : i ≠ j
  nextI : next.chunkNext i = .chunk false k
  nextJ : next.chunkNext j = .free
  others : ∀ m, m ≠ i → m ≠ j → next.chunkNext m = c.chunkNext m
  starts : ∀ m, m ≠ j → next.chunkStart m = c.chunkStart m
  triangles : next.chunkTriangle = c.chunkTriangle
  ends : next.endTriangle = c.endTriangle
  linked : OrderedCycle.Ordered 0 limit next.links next.chunkStart
  stopI : OrderedCycle.stop 0 limit c.links c.chunkStart i = c.chunkStart j
  joined : OrderedCycle.stop 0 limit next.links next.chunkStart i = OrderedCycle.stop 0 limit c.links c.chunkStart j
  stopOther : ∀ m b n, m ≠ i → m ≠ j → c.chunkNext m = .chunk b n →
    OrderedCycle.stop 0 limit next.links next.chunkStart m = OrderedCycle.stop 0 limit c.links c.chunkStart m

theorem mergeStep_removed {c next : CacheLine τ} (valid : OrderedCycle.Ordered 0 limit c.links c.chunkStart)
    (ran : c.mergeStep = some next) : ∃ i j k, Removed limit c next i j k := by
  obtain ⟨i,j,k,may,rfl⟩ := mergeStep_cases ran
  have inner : j ≠ 0 := by
    intro zero
    subst zero
    exact may.inner valid.start
  have linkI : c.links i = some j := by simp [links,may.idle]
  have linkJ : c.links j = some k := by simp [links,may.next]
  have apart : i ≠ j := by
    intro same; subst same
    rcases valid.rising i i linkI with zero | less
    · exact inner zero
    · exact Nat.lt_irrefl _ less
  let after : CacheLine τ := {c with
    chunkNext := Function.update (Function.update c.chunkNext i (.chunk false k)) j .free
    chunkStart := Function.update c.chunkStart j 0xffff}
  have nextI : after.chunkNext i = .chunk false k := by simp [after,apart]
  have nextJ : after.chunkNext j = .free := by simp [after]
  have nextOther : ∀ m, m ≠ i → m ≠ j → after.chunkNext m = c.chunkNext m := by
    intro m one two; simp [after,one,two]
  have kept : ∀ m, m ≠ j → after.chunkStart m = c.chunkStart m := by intro m other; simp [after,other]
  have atI : after.links i = some k := by simp [links,nextI]
  have atJ : after.links j = none := by simp [links,nextJ]
  have others : ∀ m, m ≠ i → m ≠ j → after.links m = c.links m := by
    intro m one two; simp only [links,nextOther m one two]
  have stopI : OrderedCycle.stop 0 limit c.links c.chunkStart i = c.chunkStart j := by
    rw [OrderedCycle.stop_some linkI,if_neg inner]
  have stopOther : ∀ m b n, m ≠ i → m ≠ j → c.chunkNext m = .chunk b n →
      OrderedCycle.stop 0 limit after.links after.chunkStart m = OrderedCycle.stop 0 limit c.links c.chunkStart m :=
    fun m b n notI notJ link => OrderedCycle.Ordered.remove_stop_other valid linkI notI (by simp [links,link] : c.links m = some n)
      (others m notI notJ) kept
  exact ⟨i,j,k,may.idle,may.next,may.same,inner,apart,nextI,nextJ,nextOther,kept,rfl,rfl,
    OrderedCycle.Ordered.remove valid linkI linkJ inner atI atJ others kept,stopI,
    OrderedCycle.Ordered.remove_stop valid linkI linkJ inner atI kept,stopOther⟩

omit [DecidableEq τ] in
theorem Removed.busy {c next : CacheLine τ} (removed : Removed limit c next i j k) (busy : c.chunkNext m = .chunk true n) :
    m ≠ i ∧ m ≠ j := by
  refine ⟨?_,?_⟩ <;> intro same <;> subst same
  · rw [removed.idleI] at busy; cases busy
  · rw [removed.idleJ] at busy; cases busy

theorem mergeStep_merged {c next : CacheLine τ} (valid : c.WellLinked)
    (ran : c.mergeStep = some next) : Merged c next := by
  obtain ⟨i,j,k,removed⟩ := mergeStep_removed valid ran
  refine ⟨removed.linked,removed.ends,removed.triangles,?_,?_,?_,?_,?_⟩
  · intro m n
    by_cases isI : m = i
    · subst isI; simp [removed.nextI,removed.idleI]
    · by_cases isJ : m = j
      · subst isJ; simp [removed.nextJ,removed.idleJ]
      · rw [removed.others m isI isJ]
  · intro m
    by_cases isI : m = i
    · subst isI; simp [removed.nextI,removed.idleI]
    · by_cases isJ : m = j
      · subst isJ; simp [removed.nextJ,removed.idleJ]
      · rw [removed.others m isI isJ]
  · intro m n busy
    exact removed.starts m (removed.busy busy).2
  · intro m n busy
    exact removed.stopOther m true n (removed.busy busy).1 (removed.busy busy).2 busy
  · intro m n t idle held
    by_cases isI : m = i
    · subst isI
      have low : next.chunkStart m ≤ t := held.2.1
      have high : t < c.chunkStop j := Nat.lt_of_lt_of_eq held.2.2 removed.joined
      rw [removed.starts m removed.apart] at low
      -- The joined interval splits at the start of the chunk that was removed.
      by_cases tail : c.chunkStart j ≤ t
      · exact ⟨j,k,removed.idleJ,⟨by simp [links,removed.idleJ],tail,high⟩,removed.same.symm⟩
      · have before : t < c.chunkStop m := Nat.lt_of_lt_of_eq (Nat.not_le.mp tail) removed.stopI.symm
        exact ⟨m,j,removed.idleI,⟨by simp [links,removed.idleI],low,before⟩,rfl⟩
    · by_cases isJ : m = j
      · subst isJ; rw [removed.nextJ] at idle; cases idle
      · rw [removed.others m isI isJ] at idle
        have low : next.chunkStart m ≤ t := held.2.1
        have high : t < c.chunkStop m := Nat.lt_of_lt_of_eq held.2.2 (removed.stopOther m false n isI isJ idle)
        rw [removed.starts m isJ] at low
        exact ⟨m,n,idle,⟨by simp [links,idle],low,high⟩,rfl⟩

theorem merge_merged {c : CacheLine τ} (valid : c.WellLinked) : Merged c c.merge_cache_blocks :=
  merge_keeps (Merged c) (fun _ _ ran prior => prior.trans (mergeStep_merged prior.linked ran)) c (.refl valid)

end CacheLine

end Spugl
