import Spugl.ChunkOwnership

namespace Spugl

-- The list of chunks without its order of tiles, which a cramped split breaks.
structure CacheLine.Chained (line : CacheLine τ) : Prop where
  cycle : OrderedCycle.Cyclic 0 line.links
  start : line.chunkStart 0 = 0

-- A store by an SPU that counted on Before and afterwards counts on After. The
-- marks it keeps have an Early pointer; each idle chunk was there with its start
-- and its pointer, or is Left behind by the SPU.
structure Store (line next : CacheLine τ) (Before After : Marks) (Early : τ → Prop)
    (Left : Slot → Nat → τ → Prop) : Prop where
  chained : next.Chained
  ends : next.endTriangle = line.endTriangle
  kept : ∀ i, (∀ n, ¬Before i n) → (line.chunkNext i).Marked →
    next.chunkNext i = line.chunkNext i ∧ next.chunkTriangle i = line.chunkTriangle i
  mine : ∀ i n, After i n → next.chunkNext i = n
  back : ∀ i, (next.chunkNext i).Marked →
    (∃ n, After i n) ∨ ((∀ n, ¬Before i n) ∧ next.chunkNext i = line.chunkNext i)
  fresh : ∀ i n, After i n → (line.chunkNext i).Marked → ∃ m, Before i m
  early : ∀ i n, After i n →
    ((∃ m, Before i (.chunk true m)) ∧ next.chunkTriangle i = line.chunkTriangle i) ∨ Early (next.chunkTriangle i)
  left : ∀ i n, next.chunkNext i = .chunk false n →
    ((∃ m, line.chunkNext i = .chunk false m) ∧ next.chunkStart i = line.chunkStart i ∧
      next.chunkTriangle i = line.chunkTriangle i) ∨ Left i (next.chunkStart i) (next.chunkTriangle i)

section
variable {τ : Type} {line mid next : CacheLine τ} {Before Middle After : Marks} {Early : τ → Prop}
  {Left : Slot → Nat → τ → Prop}

theorem Store.trans (one : Store line mid Before Middle Early Left) (two : Store mid next Middle After Early Left) :
    Store line next Before After Early Left := by
  refine ⟨two.chained,two.ends.trans one.ends,?_,two.mine,?_,?_,?_,?_⟩
  · intro i free marked
    obtain ⟨same,triangle⟩ := one.kept i free marked
    obtain ⟨same',triangle'⟩ := two.kept i (Marks.outside one.fresh free marked) (same ▸ marked)
    exact ⟨same'.trans same,triangle'.trans triangle⟩
  · intro i marked
    exact Marks.back_trans (one.back i) (two.back i marked) marked
  · intro i n after
    exact Marks.fresh_trans (fun free marked => (one.kept i free marked).1) one.fresh (two.fresh i n after)
  · intro i n after
    rcases two.early i n after with ⟨⟨m,middle⟩,same⟩ | written
    · rcases one.early i _ middle with ⟨before,same'⟩ | written
      · exact .inl ⟨before,same.trans same'⟩
      · exact .inr (same ▸ written)
    · exact .inr written
  · intro i n idle
    rcases two.left i n idle with ⟨⟨m,idle'⟩,start,triangle⟩ | left
    · rcases one.left i m idle' with ⟨idle'',start',triangle'⟩ | left
      · exact .inl ⟨idle'',start.trans start',triangle.trans triangle'⟩
      · exact .inr (by rw [start,triangle]; exact left)
    · exact .inr left

-- A used slot has an old pointer of the same slot or one that the SPU wrote.
theorem Store.source (store : Store line next Before After Early Left) (used : next.chunkNext i ≠ .free) :
    (line.chunkNext i ≠ .free ∧ next.chunkTriangle i = line.chunkTriangle i) ∨ (∃ m, Before i (.chunk true m)) ∧ next.chunkTriangle i = line.chunkTriangle i ∨
      Early (next.chunkTriangle i) ∨ Left i (next.chunkStart i) (next.chunkTriangle i) := by
  by_cases marked : (next.chunkNext i).Marked
  · rcases store.back i marked with ⟨n,after⟩ | ⟨free,same⟩
    · rcases store.early i n after with prior | written
      · exact .inr (.inl prior)
      · exact .inr (.inr (.inl written))
    · exact .inl ⟨same ▸ used,(store.kept i free (same ▸ marked)).2⟩
  · cases at_ : next.chunkNext i with
    | free => exact absurd at_ used
    | reserved => exact absurd (.inl at_) marked
    | chunk busy n =>
      cases busy with
      | true => exact absurd (.inr ⟨n,at_⟩) marked
      | false =>
        rcases store.left i n at_ with ⟨⟨m,idle⟩,_,same⟩ | left
        · exact .inl ⟨by rw [idle]; exact nofun,same⟩
        · exact .inr (.inr (.inr left))

-- A store that touches only slots of `Touched`, where it may do so.
theorem Store.within (Touched : Slot → Prop) (chained : next.Chained)
    (ends : next.endTriangle = line.endTriangle)
    (others : ∀ i, ¬Touched i → next.chunkNext i = line.chunkNext i ∧ next.chunkStart i = line.chunkStart i ∧
      next.chunkTriangle i = line.chunkTriangle i)
    (own : ∀ i, Touched i → (line.chunkNext i).Marked → ∃ m, Before i m)
    (before : ∀ i n, Before i n → Touched i) (after : ∀ i n, After i n → Touched i)
    (mine : ∀ i n, After i n → next.chunkNext i = n)
    (marked : ∀ i, Touched i → (next.chunkNext i).Marked → ∃ n, After i n)
    (early : ∀ i n, After i n →
      ((∃ m, Before i (.chunk true m)) ∧ next.chunkTriangle i = line.chunkTriangle i) ∨ Early (next.chunkTriangle i))
    (left : ∀ i n, Touched i → next.chunkNext i = .chunk false n → Left i (next.chunkStart i) (next.chunkTriangle i)) :
    Store line next Before After Early Left := by
  refine ⟨chained,ends,?_,mine,?_,fun i n is => own i (after i n is),early,?_⟩
  · intro i free isMarked
    have apart : ¬Touched i := by
      intro touched
      obtain ⟨m,held⟩ := own i touched isMarked
      exact free m held
    exact ⟨(others i apart).1,(others i apart).2.2⟩
  · intro i isMarked
    by_cases touched : Touched i
    · exact .inl (marked i touched isMarked)
    · exact .inr ⟨fun n held => touched (before i n held),(others i touched).1⟩
  · intro i n idle
    by_cases touched : Touched i
    · exact .inr (left i n touched idle)
    · exact .inl ⟨⟨n,(others i touched).1 ▸ idle⟩,(others i touched).2⟩

namespace CacheLine

theorem create_chained (origin : τ) : (CacheLine.create origin).Chained :=
  ⟨⟨_,_,create_linked origin⟩,rfl⟩

theorem Chained.relink (valid : line.Chained) (links : ∀ i, next.links i = line.links i)
    (start : next.chunkStart 0 = line.chunkStart 0) : next.Chained :=
  ⟨valid.cycle.congr links,start.trans valid.start⟩

theorem Chained.unlisted (valid : line.Chained) (none : line.links f = none) : f ≠ 0 := by
  intro zero
  have held := valid.cycle.held
  rw [← zero,none] at held
  cases held

theorem Chained.insert (valid : line.Chained) (atC : line.chunkNext c = .chunk b n)
    (unlisted : line.chunkNext f = .free) (toF : next.chunkNext c = .chunk b' f)
    (fromF : next.chunkNext f = .chunk b'' n)
    (others : ∀ i, i ≠ c → i ≠ f → next.chunkNext i = line.chunkNext i)
    (starts : ∀ i, i ≠ f → next.chunkStart i = line.chunkStart i) : next.Chained := by
  have none : line.links f = Option.none := by simp [links,unlisted]
  have outside := valid.unlisted none
  refine ⟨?_,(starts 0 (Ne.symm outside)).trans valid.start⟩
  apply valid.cycle.insert (c := c) (n := n) (f := f)
  · simp [links,atC]
  · exact none
  · simp [links,toF]
  · simp [links,fromF]
  · intro i notC notF
    simp only [links,others i notC notF]

theorem Chained.follow_visit (valid : line.Chained) (n : Nat) :
    line.follow n = OrderedCycle.visit line.links 0 n := by
  induction n with
  | zero => rfl
  | succ n ih =>
    have linked := valid.cycle.visit_next n
    obtain ⟨busy,same⟩ := ChunkNext.next?_some linked
    rw [CacheLine.follow,ih,same,ChunkNext.mask_chunk]

theorem Chained.followed (valid : line.Chained) (n : Nat) : ∃ busy j, line.chunkNext (line.follow n) = .chunk busy j := by
  have linked := valid.cycle.visit_next n
  rw [← valid.follow_visit n] at linked
  obtain ⟨busy,same⟩ := ChunkNext.next?_some linked
  exact ⟨busy,_,same⟩

-- No chunk is outside the list.
theorem Chained.follows (valid : line.Chained) (linked : line.chunkNext i = .chunk busy j) : ∃ n, line.follow n = i := by
  obtain ⟨n,same⟩ := valid.cycle.visits (j := i) (k := j) (by simp [links,linked])
  exact ⟨n,(valid.follow_visit n).trans same⟩

end CacheLine

-- The marks of an SPU that has nothing reserved.
def Marks.Busy (marks : Marks) : Prop := ∀ i n, marks i n → ∃ j, n = .chunk true j

theorem mergeStep_store [DecidableEq τ] (After : Marks) (busy : After.Busy)
    (mine : ∀ i n, After i n → line.chunkNext i = n) (valid : line.Chained) (ran : line.mergeStep = some next) :
    Store line next After After Early Left := by
  obtain ⟨i,j,k,may,rfl⟩ := CacheLine.mergeStep_cases ran
  have inner : j ≠ 0 := by intro zero; subst zero; exact may.inner valid.start
  have unmarked : ∀ l, l = i ∨ l = j → ¬(line.chunkNext l).Marked := by
    rintro l (rfl | rfl)
    · rw [may.idle]; exact ChunkNext.idle_unmarked
    · rw [may.next]; exact ChunkNext.idle_unmarked
  have untouched : ∀ l n, After l n → ¬(l = i ∨ l = j) := by
    intro l n after touched
    apply unmarked l touched
    rw [mine l n after]
    exact .inr (busy l n after)
  have apart : i ≠ j := by
    intro same; subst same
    obtain ⟨limit,pos,ordered⟩ := valid.cycle
    rcases ordered.rising i i (by simp [CacheLine.links,may.idle]) with zero | less
    · exact inner zero
    · exact Nat.lt_irrefl _ less
  have others : ∀ l, ¬(l = i ∨ l = j) →
      Function.update (Function.update line.chunkNext i (.chunk false k)) j .free l = line.chunkNext l := by
    intro l untouched
    obtain ⟨notI,notJ⟩ := not_or.mp untouched
    simp [notI,notJ]
  refine ⟨⟨?_,?_⟩,rfl,?_,?_,?_,fun l n after _ => ⟨n,after⟩,?_,?_⟩
  · apply valid.cycle.remove (i := i) (j := j) (k := k)
    · simp [CacheLine.links,may.idle]
    · simp [CacheLine.links,may.next]
    · exact inner
    · simp [CacheLine.links,apart]
    · simp [CacheLine.links]
    · intro l notI notJ
      simp [CacheLine.links,notI,notJ]
  · simpa [Ne.symm inner] using valid.start
  · intro l _ isMarked
    exact ⟨others l fun touched => unmarked l touched isMarked,rfl⟩
  · intro l n after
    exact (others l (untouched l n after)).trans (mine l n after)
  · intro l isMarked
    have outside : ¬(l = i ∨ l = j) := by
      rintro (rfl | rfl)
      · simp [apart,ChunkNext.idle_unmarked] at isMarked
      · simp [ChunkNext.free_unmarked] at isMarked
    by_cases ours : ∃ n, After l n
    · exact .inl ours
    · exact .inr ⟨fun n after => ours ⟨n,after⟩,others l outside⟩
  · intro l n after
    obtain ⟨m,rfl⟩ := busy l n after
    exact .inl ⟨⟨m,after⟩,rfl⟩
  · intro l n idle
    have notJ : l ≠ j := by intro same; subst same; simp at idle
    refine .inl ⟨?_,by simp [notJ],rfl⟩
    by_cases isI : l = i
    · exact ⟨j,isI ▸ may.idle⟩
    · exact ⟨n,by rw [← others l (not_or.mpr ⟨isI,notJ⟩)]; exact idle⟩

theorem Store.merge [DecidableEq τ] (busy : After.Busy)
    (store : Store line mid Before After Early Left) : Store line mid.merge_cache_blocks Before After Early Left := by
  refine CacheLine.merge_keeps (Store line · Before After Early Left) ?_ mid store
  intro c next ran prior
  exact prior.trans (mergeStep_store After busy prior.mine prior.chained ran)

theorem Store.refl (valid : line.Chained) (busy : After.Busy) (mine : ∀ i n, After i n → line.chunkNext i = n) : Store line line After After Early Left := by
  refine ⟨valid,rfl,fun _ _ _ => ⟨rfl,rfl⟩,mine,?_,fun i n after _ => ⟨n,after⟩,?_,fun i n idle => .inl ⟨⟨n,idle⟩,rfl,rfl⟩⟩
  · intro i isMarked
    by_cases ours : ∃ n, After i n
    · exact .inl ours
    · exact .inr ⟨fun n after => ours ⟨n,after⟩,rfl⟩
  · intro i n after
    obtain ⟨m,rfl⟩ := busy i n after
    exact .inl ⟨⟨m,after⟩,rfl⟩

end

-- What an SPU may count on while it has a chunk.
structure Has (line : CacheLine τ) (v : Locals τ) : Prop where
  chained : line.Chained
  busy : line.chunkNext v.chunkToProcess = .chunk true v.chunkNext
  reserved : ∀ f, v.claimed = some f → line.chunkNext f = .reserved

-- The free slot a splitting section goes on with is the one the claim reserved, or
-- one that a failed attempt left behind, still free and not picked twice.
def Spare (v : Locals τ) (firstTile : Nat) (line : CacheLine τ) : Prop :=
  v.freeChunk = v.claimed ∨ ∃ f, v.freeChunk = some f ∧ line.chunkNext f = .free ∧
    ¬(needsTail v firstTile = true ∧ needsHead v firstTile = true ∧ line.freeSlot = some f)

section
variable {τ : Type} {line after : CacheLine τ} {v : Locals τ} {Early : τ → Prop} {Left : Slot → Nat → τ → Prop}

theorem holding_busy : (holding c m).Busy := by
  rintro i n ⟨_,rfl⟩
  exact ⟨m,rfl⟩

theorem Has.apart (has : Has line v) (claimed : v.claimed = some f) : v.chunkToProcess ≠ f := by
  intro same
  have busy := has.busy
  rw [same,has.reserved f claimed] at busy
  cases busy

theorem Locals.Marks.unclaimed (none : v.claimed = none) : v.Marks = holding v.chunkToProcess v.chunkNext := by
  funext i n
  simp [Locals.Marks,none]

-- Clearing the slot the claim reserved.
theorem Has.clear (has : Has line v) (claimed : v.claimed = some f) :
    Store line (line.setNext f .free) v.Marks (holding v.chunkToProcess v.chunkNext) Early Left := by
  have reserved := has.reserved f claimed
  have apart := has.apart claimed
  apply Store.within (fun i => i = v.chunkToProcess ∨ i = f)
  · apply has.chained.relink
    · intro i
      by_cases isF : i = f
      · subst isF; simp [CacheLine.links,reserved]
      · simp [CacheLine.links,isF]
    · rfl
  · rfl
  · intro i outside
    simp [(not_or.mp outside).2]
  · rintro i (rfl | rfl) _
    · exact ⟨_,.inl ⟨rfl,rfl⟩⟩
    · exact ⟨_,.inr ⟨claimed,rfl⟩⟩
  · rintro i n (⟨rfl,_⟩ | ⟨isF,_⟩)
    · exact .inl rfl
    · exact .inr (Option.some.inj (isF.symm.trans claimed))
  · rintro i n ⟨rfl,_⟩
    exact .inl rfl
  · rintro i n ⟨rfl,rfl⟩
    simpa [apart] using has.busy
  · rintro i (rfl | rfl) marked
    · exact ⟨_,rfl,rfl⟩
    · simp [ChunkNext.free_unmarked] at marked
  · rintro i n ⟨rfl,rfl⟩
    exact .inl ⟨⟨_,.inl ⟨rfl,rfl⟩⟩,rfl⟩
  · rintro i n (rfl | rfl) idle
    · simp [apart,has.busy] at idle
    · simp at idle

-- The line on which the new slots are filled in.
structure Cleared (v : Locals τ) (firstTile : Nat) (line after : CacheLine τ) (freeChunk freeChunk2 : Option Slot)
    (Early : τ → Prop) (Left : Slot → Nat → τ → Prop) : Prop where
  store : Store line after v.Marks (holding v.chunkToProcess v.chunkNext) Early Left
  free : ∀ f, freeChunk = some f → after.chunkNext f = .free
  free2 : ∀ g, freeChunk2 = some g → after.chunkNext g = .free
  apart : needsTail v firstTile = true → needsHead v firstTile = true →
    ∀ f g, freeChunk = some f → freeChunk2 = some g → f ≠ g
  starts : after.chunkStart = line.chunkStart

theorem allocate_cleared (has : Has line v) (spare : v.claimed = none ∨ v.freeChunk = v.claimed)
    (slot : Spare v firstTile line) :
    Cleared v firstTile line (allocate v line).2.2 (allocate v line).1 (allocate v line).2.1 Early Left := by
  have kept : v.claimed = none → Store line line v.Marks (holding v.chunkToProcess v.chunkNext) Early Left := by
    intro none
    rw [Locals.Marks.unclaimed none]
    apply Store.refl has.chained holding_busy
    rintro i n ⟨rfl,rfl⟩
    exact has.busy
  cases atFree : v.freeChunk with
  | none =>
    have unclaimed : v.claimed = none := by
      rcases spare with none | same
      · exact none
      · exact same ▸ atFree
    simp only [allocate,atFree]
    refine ⟨kept unclaimed,fun f => freeSlot_free,fun g found => (freeSlot2_free found).1,?_,rfl⟩
    intro _ _ f g one two same
    exact (freeSlot2_free two).2 (same ▸ one)
  | some f =>
    simp only [allocate,atFree]
    have free2 : ∀ g, line.freeSlot = some g → (line.setNext f .free).chunkNext g = .free := by
      intro g found
      by_cases isF : g = f
      · subst isF; simp
      · simpa [isF] using freeSlot_free found
    cases claimed : v.claimed with
    | some f' =>
      have same : f' = f := by
        rcases spare with none | same
        · rw [claimed] at none; cases none
        · rw [atFree,claimed] at same; exact (Option.some.inj same).symm
      subst same
      refine ⟨has.clear claimed,?_,free2,?_,rfl⟩
      · rintro g same; cases same; simp
      · rintro _ _ g h same found rfl
        cases same
        have reserved := has.reserved _ claimed
        rw [freeSlot_free found] at reserved
        cases reserved
    | none =>
      obtain ⟨free,once⟩ : line.chunkNext f = .free ∧
          ¬(needsTail v firstTile = true ∧ needsHead v firstTile = true ∧ line.freeSlot = some f) := by
        rcases slot with same | ⟨f',same,free,once⟩
        · rw [atFree,claimed] at same; cases same
        · rw [atFree] at same; cases same; exact ⟨free,once⟩
      have unchanged : line.setNext f .free = line := by
        unfold CacheLine.setNext
        rw [← free,Function.update_eq_self]
      rw [unchanged]
      refine ⟨kept claimed,?_,fun g => freeSlot_free,?_,rfl⟩
      · rintro g same; cases same; exact free
      · rintro tail head g h same found rfl
        cases same
        exact once ⟨tail,head,found⟩

-- Slot `f` is linked in behind our chunk `c`, and one of the two stays ours.
theorem link_store (front : Bool) (valid : line.Chained) (busy : line.chunkNext c = .chunk true n)
    (unlisted : line.chunkNext f = .free) (toF : after.chunkNext c = .chunk (!front) f)
    (fromF : after.chunkNext f = .chunk front n)
    (others : ∀ i, i ≠ c → i ≠ f → after.chunkNext i = line.chunkNext i ∧
      after.chunkStart i = line.chunkStart i ∧ after.chunkTriangle i = line.chunkTriangle i)
    (start : after.chunkStart c = line.chunkStart c) (ends : after.endTriangle = line.endTriangle)
    (early : (front = true → Early (after.chunkTriangle f)) ∧
      (front = false → after.chunkTriangle c = line.chunkTriangle c))
    (left : (front = true → Left c (line.chunkStart c) (after.chunkTriangle c)) ∧
      (front = false → Left f (after.chunkStart f) (after.chunkTriangle f))) :
    Store line after (holding c n) (if front then holding f n else holding c f) Early Left := by
  have apart : c ≠ f := by intro same; subst same; rw [busy] at unlisted; cases unlisted
  have chained : after.Chained := by
    apply valid.insert busy unlisted toF fromF (fun i notC notF => (others i notC notF).1)
    intro i notF
    by_cases isC : i = c
    · exact isC ▸ start
    · exact (others i isC notF).2.1
  apply Store.within (fun i => i = c ∨ i = f) chained ends
  · intro i outside
    exact others i (not_or.mp outside).1 (not_or.mp outside).2
  · rintro i (rfl | rfl) marked
    · exact ⟨_,rfl,rfl⟩
    · rw [unlisted] at marked; exact absurd marked ChunkNext.free_unmarked
  · rintro i m ⟨rfl,_⟩
    exact .inl rfl
  · intro i m held
    cases front
    · exact .inl held.1
    · exact .inr held.1
  · intro i m held
    cases front <;> obtain ⟨rfl,rfl⟩ := held
    · exact toF
    · exact fromF
  · rintro i (rfl | rfl) marked <;> cases front
    · exact ⟨_,rfl,rfl⟩
    · rw [toF] at marked; exact absurd marked ChunkNext.idle_unmarked
    · rw [fromF] at marked; exact absurd marked ChunkNext.idle_unmarked
    · exact ⟨_,rfl,rfl⟩
  · intro i m held
    cases front <;> obtain ⟨rfl,rfl⟩ := held
    · exact .inl ⟨⟨_,rfl,rfl⟩,early.2 rfl⟩
    · exact .inr (early.1 rfl)
  · rintro i m (rfl | rfl) idle <;> cases front
    · rw [toF] at idle; cases idle
    · rw [start]; exact left.1 rfl
    · exact left.2 rfl
    · rw [fromF] at idle; cases idle

-- Only the bytes of our own chunk change.
theorem own_store (keep : Bool) (valid : line.Chained) (busy : line.chunkNext c = .chunk true n)
    (atC : after.chunkNext c = .chunk keep n)
    (others : ∀ i, i ≠ c → after.chunkNext i = line.chunkNext i ∧ after.chunkTriangle i = line.chunkTriangle i)
    (starts : after.chunkStart = line.chunkStart) (ends : after.endTriangle = line.endTriangle)
    (early : keep = true → Early (after.chunkTriangle c))
    (left : keep = false → Left c (line.chunkStart c) (after.chunkTriangle c)) :
    Store line after (holding c n) (if keep then holding c n else fun _ _ => False) Early Left := by
  apply Store.within (fun i => i = c)
  · apply valid.relink
    · intro i
      by_cases isC : i = c
      · subst isC; simp [CacheLine.links,busy,atC]
      · simp [CacheLine.links,others i isC]
    · rw [starts]
  · exact ends
  · intro i outside
    exact ⟨(others i outside).1,congrFun starts i,(others i outside).2⟩
  · rintro i rfl _
    exact ⟨_,rfl,rfl⟩
  · rintro i m ⟨rfl,_⟩
    rfl
  · intro i m held
    cases keep
    · exact held.elim
    · exact held.1
  · intro i m held
    cases keep
    · exact held.elim
    · obtain ⟨rfl,rfl⟩ := held; exact atC
  · rintro i rfl marked
    cases keep
    · rw [atC] at marked; exact absurd marked ChunkNext.idle_unmarked
    · exact ⟨_,rfl,rfl⟩
  · intro i m held
    cases keep
    · exact held.elim
    · obtain ⟨rfl,rfl⟩ := held; exact .inr (early rfl)
  · rintro i m rfl idle
    cases keep
    · rw [starts]; exact left rfl
    · rw [atC] at idle; cases idle

end
end Spugl
