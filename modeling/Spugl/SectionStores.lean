import Spugl.ChunkStores

namespace Spugl

section
variable {τ : Type} {line after : CacheLine τ} {v : Locals τ} {Early : τ → Prop} {Left : Slot → Nat → τ → Prop}

theorem Store.has (store : Store line after Before v.Marks Early Left) : Has after v :=
  ⟨store.chained,store.mine _ _ (.inl ⟨rfl,rfl⟩),fun f claimed => store.mine f _ (.inr ⟨claimed,rfl⟩)⟩

-- What a split leaves to others: the tail as it was claimed, and the head with
-- the triangle behind the one that is rendered.
def SplitLeft (v : Locals τ) (next : τ) (firstTile : Nat) (tailChunk i : Slot) (x : Nat) (p : τ) : Prop :=
  (needsTail v firstTile = true ∧ i = tailChunk ∧ x = nextBlockStart v firstTile ∧ p = v.chunkTriangle) ∨
    (i = v.chunkToProcess ∧ p = next)

theorem insertTail_store (next : τ) (valid : line.Chained)
    (busy : line.chunkNext v.chunkToProcess = .chunk true v.chunkNext) (free : line.chunkNext f = .free)
    (tail : needsTail v firstTile = true) :
    Store line (insertTail v firstTile f line) (holding v.chunkToProcess v.chunkNext) (holding v.chunkToProcess f)
      (· = v.chunkTriangle) (SplitLeft v next firstTile f) := by
  have apart : v.chunkToProcess ≠ f := by intro same; rw [same,free] at busy; cases busy
  apply link_store false valid busy free
  · simp [insertTail]
  · simp [insertTail,Ne.symm apart]
  · intro i notC notF
    simp [insertTail,notC,notF]
  · simp [insertTail,apart]
  · rfl
  · exact ⟨fun front => Bool.noConfusion front,fun _ => by simp [insertTail,apart]⟩
  · exact ⟨fun front => Bool.noConfusion front,fun _ => .inl ⟨tail,rfl,by simp [insertTail],by simp [insertTail]⟩⟩

theorem insertHead_store (next : τ) (firstTile : Nat) (valid : line.Chained)
    (busy : line.chunkNext v.chunkToProcess = .chunk true tailChunk) (free : line.chunkNext g = .free) :
    Store line (insertHead v firstTile next tailChunk g line) (holding v.chunkToProcess tailChunk) (holding g tailChunk)
      (· = v.chunkTriangle) (SplitLeft v next firstTile tailChunk) := by
  have apart : v.chunkToProcess ≠ g := by intro same; rw [same,free] at busy; cases busy
  apply link_store true valid busy free
  · simp [insertHead]
  · simp [insertHead,Ne.symm apart]
  · intro i notC notG
    simp [insertHead,notC,notG]
  · simp [insertHead,apart]
  · rfl
  · exact ⟨fun _ => by simp [insertHead,Ne.symm apart],fun front => Bool.noConfusion front⟩
  · exact ⟨fun _ => .inr ⟨rfl,by simp [insertHead]⟩,fun front => Bool.noConfusion front⟩

theorem keepWhole_store (valid : line.Chained) (busy : line.chunkNext v.chunkToProcess = .chunk true tailChunk) :
    Store line (keepWhole v tailChunk line) (holding v.chunkToProcess tailChunk) (holding v.chunkToProcess tailChunk)
      (· = v.chunkTriangle) Left := by
  apply own_store true valid busy
  · simp [keepWhole]
  · intro i other
    simp [keepWhole,other]
  · rfl
  · rfl
  · intro _; simp [keepWhole]
  · intro gone; cases gone

theorem resliceHead_store (next : τ) (firstTile : Nat) (freeChunk2 : Option Slot) (valid : line.Chained)
    (busy : line.chunkNext v.chunkToProcess = .chunk true tailChunk)
    (free : ∀ g, freeChunk2 = some g → line.chunkNext g = .free) :
    ∃ after thisChunk window, resliceHead v next firstTile tailChunk freeChunk2 line =
        .reslice after tailChunk thisChunk window ∧
      Store line after (holding v.chunkToProcess tailChunk) (holding thisChunk tailChunk)
        (· = v.chunkTriangle) (SplitLeft v next firstTile tailChunk) := by
  unfold resliceHead
  dsimp only
  split
  · cases found : freeChunk2 with
    | some g => exact ⟨_,_,_,rfl,insertHead_store next firstTile valid busy (free g found)⟩
    | none => exact ⟨_,_,_,rfl,keepWhole_store valid busy⟩
  · refine ⟨_,_,_,rfl,Store.refl valid holding_busy ?_⟩
    rintro i n ⟨rfl,rfl⟩
    exact busy

theorem splitChunk_relinquish (tail : needsTail v firstTile = true) (full : (allocate v line).1 = none) (next : τ) :
    splitChunk v next firstTile line =
      .relinquish ((allocate v line).2.2.setNext v.chunkToProcess (.chunk false v.chunkNext)) := by
  rcases at_ : allocate v line with ⟨free,free2,cache⟩
  rw [at_] at full
  cases full
  simp [splitChunk,at_,tail]

-- The splitting section either gives the whole chunk back or goes on with a part.
theorem splitChunk_store (next : τ) (has : Has line v) (spare : v.claimed = none ∨ v.freeChunk = v.claimed)
    (slot : Spare v firstTile line) :
    (needsTail v firstTile = true ∧ (allocate v line).1 = none ∧
      ∃ after, splitChunk v next firstTile line = .relinquish after ∧
        Store line after v.Marks (fun _ _ => False) (fun _ => False)
          (fun i _ p => i = v.chunkToProcess ∧ p = line.chunkTriangle i)) ∨
    ((needsTail v firstTile = true → (allocate v line).1 ≠ none) ∧
      ∃ after tailChunk thisChunk window, splitChunk v next firstTile line = .reslice after tailChunk thisChunk window ∧
        Store line after v.Marks (holding thisChunk tailChunk) (· = v.chunkTriangle)
          (SplitLeft v next firstTile tailChunk)) := by
  by_cases tail : needsTail v firstTile = true
  · cases full : (allocate v line).1 with
    | none =>
      refine .inl ⟨tail,rfl,_,splitChunk_relinquish tail full next,?_⟩
      have clear : Cleared v firstTile line (allocate v line).2.2 (allocate v line).1 (allocate v line).2.1
          (fun _ => False) (fun i _ p => i = v.chunkToProcess ∧ p = line.chunkTriangle i) :=
        allocate_cleared has spare slot
      have triangles : (allocate v line).2.2.chunkTriangle = line.chunkTriangle := by
        unfold allocate; split <;> rfl
      apply clear.store.trans
      apply own_store false clear.store.chained (clear.store.mine _ _ ⟨rfl,rfl⟩)
      · simp
      · intro i other
        simp [other]
      · rfl
      · rfl
      · intro keep; cases keep
      · intro _
        exact ⟨rfl,congrFun triangles _⟩
    | some f =>
      refine .inr ⟨fun _ => nofun,?_⟩
      have clear : Cleared v firstTile line (allocate v line).2.2 (allocate v line).1 (allocate v line).2.1
          (· = v.chunkTriangle) (SplitLeft v next firstTile f) := allocate_cleared has spare slot
      have busy := clear.store.mine _ _ ⟨rfl,rfl⟩
      have free := clear.free f full
      have tailed := insertTail_store next clear.store.chained busy free tail
      by_cases head : needsHead v firstTile = true
      · obtain ⟨after,this,window,ran,headed⟩ := resliceHead_store next firstTile (allocate v line).2.1
          tailed.chained (tailed.mine _ _ ⟨rfl,rfl⟩) (by
            intro g found
            have apart := clear.apart tail head f g full found
            have other : g ≠ v.chunkToProcess := by
              intro same
              rw [← same,clear.free2 g found] at busy
              cases busy
            simp only [insertTail,CacheLine.setNext_chunkNext,CacheLine.setTriangle_chunkNext,CacheLine.setStart_chunkNext,
              Function.update_of_ne other,Function.update_of_ne (Ne.symm apart)]
            exact clear.free2 g found)
        refine ⟨after,f,this,window,?_,(clear.store.trans tailed).trans headed⟩
        simp only [splitChunk,tail,if_true]
        rw [full]
        exact ran
      · obtain ⟨after,this,window,ran,headed⟩ := resliceHead_store next firstTile none
          tailed.chained (tailed.mine _ _ ⟨rfl,rfl⟩) (fun g found => by cases found)
        refine ⟨after,f,this,window,?_,(clear.store.trans tailed).trans headed⟩
        simp only [splitChunk,tail,if_true]
        rw [full]
        rw [← ran]
        simp [resliceHead,head]
  · refine .inr ⟨fun yes => absurd yes tail,?_⟩
    have clear : Cleared v firstTile line (allocate v line).2.2 (allocate v line).1 (allocate v line).2.1
        (· = v.chunkTriangle) (SplitLeft v next firstTile v.chunkNext) := allocate_cleared has spare slot
    obtain ⟨after,this,window,ran,headed⟩ := resliceHead_store next firstTile (allocate v line).1
      clear.store.chained (clear.store.mine _ _ ⟨rfl,rfl⟩) clear.free
    refine ⟨after,v.chunkNext,this,window,?_,clear.store.trans headed⟩
    rw [← ran]
    simp [splitChunk,tail]

theorem releaseChunk_store (has : Has line v) (spare : v.freeChunk = v.claimed) :
    Store line (releaseChunk v line) v.Marks (fun _ _ => False) Early
      (fun i _ p => i = v.chunkToProcess ∧ p = v.chunkTriangle) := by
  cases claimed : v.claimed with
  | none =>
    rw [Locals.Marks.unclaimed claimed]
    apply own_store false has.chained has.busy
    · simp [releaseChunk,spare,claimed]
    · intro i other
      simp [releaseChunk,spare,claimed,other]
    · simp [releaseChunk,spare,claimed]
    · simp [releaseChunk,spare,claimed]
    · intro keep; cases keep
    · intro _; simp [releaseChunk]
  | some f =>
    have cleared : Store line (line.setNext f .free) v.Marks (holding v.chunkToProcess v.chunkNext) Early
        (fun i _ p => i = v.chunkToProcess ∧ p = v.chunkTriangle) := has.clear claimed
    apply cleared.trans
    apply own_store false cleared.chained (cleared.mine _ _ ⟨rfl,rfl⟩)
    · simp [releaseChunk,spare,claimed]
    · intro i other
      simp [releaseChunk,spare,claimed,other]
    · simp [releaseChunk,spare,claimed]
    · simp [releaseChunk,spare,claimed]
    · intro keep; cases keep
    · intro _; simp [releaseChunk]

variable [DecidableEq τ]

-- What a claim finds and stores.
structure Claims (line after : CacheLine τ) (v : Locals τ) : Prop where
  idle : line.chunkNext v.chunkToProcess = .chunk false v.chunkNext
  store : Store line after (fun _ _ => False) v.Marks (· = v.chunkTriangle) (fun _ _ _ => False)
  spare : v.freeChunk = v.claimed
  start : line.chunkStart v.chunkToProcess = v.chunkStart
  starts : after.chunkStart = line.chunkStart
  triangle : line.chunkTriangle v.chunkToProcess = v.chunkTriangle
  ends : v.endTriangle = line.endTriangle
  more : v.chunkTriangle ≠ v.endTriangle
  bounded : v.chunkEnd < 4096
  short : v.claimed = none → v.chunkStart < 2^16 → v.chunkEnd < v.chunkStart+16 ∨ line.freeSlot = none

theorem claimChunk_claims (valid : line.Chained) (ran : claimChunk line = some (after,v)) : Claims line after v := by
  obtain ⟨c,n,free,idle,more,pick,taken,rfl,rfl⟩ := claimChunk_cases ran
  have short : free = none → line.chunkStart c < 2^16 →
      (line.chunkStart n + 4095) % 4096 < line.chunkStart c + 16 ∨ line.freeSlot = none := by
    intro none small
    rw [none] at pick
    split at pick
    · rename_i few
      unfold NUMBER_OF_TILES_PER_CHUNK at few
      exact .inl (by omega)
    · exact .inr pick.symm
  refine ⟨idle,?_,rfl,rfl,?_,rfl,rfl,more,Nat.mod_lt _ (by decide),short⟩
  · have others : ∀ i, ¬(i = c ∨ free = some i) → (line.claimed c n free).chunkNext i = line.chunkNext i := by
      intro i outside
      obtain ⟨notC,notF⟩ := not_or.mp outside
      cases free with
      | none => simp [CacheLine.claimed,notC]
      | some f => simp [CacheLine.claimed,notC,Ne.symm (fun same => notF (congrArg some same))]
    apply Store.within (fun i => i = c ∨ free = some i)
    · apply valid.relink
      · intro i
        by_cases isC : i = c
        · subst isC
          cases free with
          | none => simp [CacheLine.claimed,CacheLine.links,idle]
          | some f => simp [CacheLine.claimed,CacheLine.links,idle,(taken f rfl).2]
        · by_cases isF : free = some i
          · subst isF; simp [CacheLine.claimed,CacheLine.links,(taken i rfl).1]
          · exact congrArg ChunkNext.next? (others i (not_or.mpr ⟨isC,isF⟩))
      · cases free <;> rfl
    · cases free <;> rfl
    · intro i outside
      refine ⟨others i outside,?_,?_⟩
      · cases free <;> rfl
      · cases free with
        | none => rfl
        | some f => simp [CacheLine.claimed,Ne.symm (fun same => (not_or.mp outside).2 (congrArg some same))]
    · rintro i (rfl | isF) marked
      · rw [idle] at marked; exact absurd marked ChunkNext.idle_unmarked
      · rw [(taken i isF).1] at marked; exact absurd marked ChunkNext.free_unmarked
    · intro i m none; exact none.elim
    · rintro i m (⟨isC,_⟩ | ⟨isF,_⟩)
      · exact .inl isC
      · exact .inr isF
    · rintro i m (⟨rfl,rfl⟩ | ⟨isF,rfl⟩)
      · cases free with
        | none => simp [CacheLine.claimed]
        | some f => simp [CacheLine.claimed,(taken f rfl).2]
      · cases isF; simp [CacheLine.claimed]
    · rintro i (rfl | isF) _
      · exact ⟨_,.inl ⟨rfl,rfl⟩⟩
      · exact ⟨_,.inr ⟨isF,rfl⟩⟩
    · rintro i m (⟨rfl,_⟩ | ⟨isF,_⟩)
      · refine .inr ?_
        cases free with
        | none => rfl
        | some f => simp [CacheLine.claimed,(taken f rfl).2]
      · cases isF; exact .inr (by simp [CacheLine.claimed])
    · rintro i m (rfl | isF) isIdle
      · cases free with
        | none => simp [CacheLine.claimed] at isIdle
        | some f => simp [CacheLine.claimed,(taken f rfl).2] at isIdle
      · subst isF; simp [CacheLine.claimed] at isIdle
  · cases free <;> rfl

-- The two sections that merge before they store.
theorem Store.resliced (store : Store line after v.Marks (holding thisChunk tailChunk) Early Left) :
    Store line after.merge_cache_blocks v.Marks (holding thisChunk tailChunk) Early Left :=
  store.merge holding_busy

theorem Store.released (store : Store line after v.Marks (fun _ _ => False) Early Left) :
    Store line after.merge_cache_blocks v.Marks (fun _ _ => False) Early Left :=
  store.merge fun _ _ none => none.elim

end
end Spugl
