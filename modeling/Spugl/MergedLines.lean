import Spugl.LaneLines

namespace Spugl
namespace CacheLine
variable {τ : Type}

-- What a merge does, seen from the line before it: nothing that a tile would notice. The
-- last chunk reaches to the limit.
structure Simplified (limit : Nat) (line next : CacheLine τ) : Prop where
  linked : OrderedCycle.Ordered 0 limit next.links next.chunkStart
  busy : ∀ i n, line.chunkNext i = .chunk true n → next.chunkNext i = .chunk true n ∧ next.chunkStart i = line.chunkStart i
  reserved : ∀ i, line.chunkNext i = .reserved → next.chunkNext i = .reserved
  same : ∀ i b n t, line.chunkNext i = .chunk b n → OrderedCycle.Covers 0 limit line.links line.chunkStart t i →
    ∃ i' n', next.chunkNext i' = .chunk b n' ∧ OrderedCycle.Covers 0 limit next.links next.chunkStart t i' ∧
      next.chunkTriangle i' = line.chunkTriangle i
  kept : ∀ i, line.chunkNext i ≠ .free → i = 0 ∨ (∃ j, line.chunkNext j = .chunk true i) → next.chunkNext i ≠ .free
  freed : ∀ i, next.chunkNext i = .free ∨ (line.links i).isSome = (next.links i).isSome
  stays : ∀ i, line.chunkNext i = .free → next.chunkNext i = .free

theorem Simplified.refl {line : CacheLine τ} (valid : OrderedCycle.Ordered 0 limit line.links line.chunkStart) :
    Simplified limit line line where
  linked := valid
  busy _ _ busy := ⟨busy,rfl⟩
  reserved _ reserved := reserved
  same i _ n _ linked held := ⟨i,n,linked,held,rfl⟩
  kept _ used _ := used
  freed _ := .inr rfl
  stays _ free := free

theorem Simplified.trans {a b c : CacheLine τ} (one : Simplified limit a b) (two : Simplified limit b c) : Simplified limit a c where
  linked := two.linked
  busy := by
    intro i n busy
    obtain ⟨busy',start⟩ := one.busy i n busy
    obtain ⟨busy'',start'⟩ := two.busy i n busy'
    exact ⟨busy'',start'.trans start⟩
  reserved i reserved := two.reserved i (one.reserved i reserved)
  same := by
    intro i busy n t linked held
    obtain ⟨i',n',linked',held',triangle⟩ := one.same i busy n t linked held
    obtain ⟨i'',n'',linked'',held'',triangle'⟩ := two.same i' busy n' t linked' held'
    exact ⟨i'',n'',linked'',held'',triangle'.trans triangle⟩
  kept := by
    intro i used root
    refine two.kept i (one.kept i used root) ?_
    rcases root with zero | ⟨j,behind⟩
    · exact .inl zero
    · exact .inr ⟨j,(one.busy j i behind).1⟩
  freed := by
    intro i
    rcases one.freed i with free | linked
    · exact .inl (two.stays i free)
    · rcases two.freed i with free | linked'
      · exact .inl free
      · exact .inr (linked.trans linked')
  stays i free := two.stays i (one.stays i free)

theorem Removed.simplified {line next : CacheLine τ} (valid : OrderedCycle.Ordered 0 limit line.links line.chunkStart)
    (removed : Removed limit line next i j k) : Simplified limit line next where
  linked := removed.linked
  busy := by
    intro m n busy
    obtain ⟨notI,notJ⟩ := removed.busy busy
    exact ⟨(removed.others m notI notJ).trans busy,removed.starts m notJ⟩
  reserved := by
    intro m reserved
    by_cases isI : m = i
    · rw [isI,removed.idleI] at reserved
      cases reserved
    · by_cases isJ : m = j
      · rw [isJ,removed.idleJ] at reserved
        cases reserved
      · exact (removed.others m isI isJ).trans reserved
  same := by
    intro m b n t linked held
    obtain ⟨_,low,high⟩ := held
    have startI := removed.starts i removed.apart
    have beforeI := valid.before_stop (by simp [links,removed.idleI] : line.links i = some j)
    have beforeJ := valid.before_stop (by simp [links,removed.idleJ] : line.links j = some k)
    rw [removed.stopI] at beforeI
    by_cases isJ : m = j
    · subst isJ
      -- Its tiles go to the chunk in front.
      obtain ⟨rfl,rfl⟩ : false = b ∧ k = n := by simpa [removed.idleJ] using linked
      refine ⟨i,k,removed.nextI,⟨by simp [links,removed.nextI],?_,?_⟩,?_⟩
      · omega
      · rw [removed.joined]
        exact high
      · rw [removed.triangles]
        exact removed.same
    · by_cases isI : m = i
      · subst isI
        obtain ⟨rfl,rfl⟩ : false = b ∧ j = n := by simpa [removed.idleI] using linked
        rw [removed.stopI] at high
        refine ⟨m,k,removed.nextI,⟨by simp [links,removed.nextI],?_,?_⟩,by rw [removed.triangles]⟩
        · omega
        · rw [removed.joined]
          omega
      · have linked' := (removed.others m isI isJ).trans linked
        refine ⟨m,n,linked',⟨by simp [links,linked'],?_,?_⟩,by rw [removed.triangles]⟩
        · rw [removed.starts m isJ]
          exact low
        · rw [removed.stopOther m b n isI isJ linked]
          exact high
  kept := by
    intro m used root free
    by_cases isJ : m = j
    · subst isJ
      rcases root with zero | ⟨l,behind⟩
      · exact removed.inner zero
      · -- Only the chunk in front leads here, and it is idle.
        have only : l = i := valid.once l i m (by simp [links,behind]) (by simp [links,removed.idleI])
        rw [only,removed.idleI] at behind
        cases behind
    · by_cases isI : m = i
      · rw [isI,removed.nextI] at free
        cases free
      · rw [removed.others m isI isJ] at free
        exact used free
  freed := by
    intro m
    by_cases isJ : m = j
    · exact .inl (isJ ▸ removed.nextJ)
    · by_cases isI : m = i
      · exact .inr (by simp [links,isI,removed.idleI,removed.nextI])
      · exact .inr (by simp only [links,removed.others m isI isJ])
  stays := by
    intro m free
    by_cases isJ : m = j
    · exact isJ ▸ removed.nextJ
    · by_cases isI : m = i
      · rw [isI,removed.idleI] at free
        cases free
      · rw [removed.others m isI isJ]
        exact free

theorem merge_simplified [DecidableEq τ] {line : CacheLine τ} (valid : OrderedCycle.Ordered 0 limit line.links line.chunkStart) :
    Simplified limit line line.merge_cache_blocks := by
  refine merge_keeps (Simplified limit line) ?_ line (.refl valid)
  intro mid next ran prior
  obtain ⟨i,j,k,removed⟩ := mergeStep_removed prior.linked ran
  exact prior.trans (removed.simplified prior.linked)

end CacheLine

namespace RawLine
variable {cache : RawLine} {line : CacheLine Nat}

theorem Merges.unique (one : Merges cache last) (two : Merges cache last') : last = last' := by
  induction one with
  | «return» cache stopped =>
    cases two with
    | «return» => rfl
    | turn _ ran _ =>
      rw [stopped] at ran
      cases ran
  | turn cache ran _ ih =>
    cases two with
    | «return» _ stopped =>
      rw [stopped] at ran
      cases ran
    | turn _ ran' rest =>
      rw [ran] at ran'
      obtain rfl := Option.some.inj ran'
      exact ih rest

-- The lanes go through the same turns as the list, and stop with it.
theorem Shows.merges (fuel : Nat) (shows : cache.Shows line) (enough : line.used.card ≤ fuel) :
    ∃ cache', cache.Merges cache' ∧ cache'.Shows (CacheLine.mergeLoop fuel line) := by
  induction fuel generalizing cache line with
  | zero =>
    have stopped : line.mergeStep = none := CacheLine.mergeLoop_finished 0 line enough
    exact ⟨cache,.return cache (shows.turn.1 stopped),shows⟩
  | succ fuel ih =>
    unfold CacheLine.mergeLoop
    cases ran : line.mergeStep with
    | none => exact ⟨cache,.return cache (shows.turn.1 ran),shows⟩
    | some next =>
      obtain ⟨cache',turned,shows'⟩ := shows.turn.2 next ran
      have less := CacheLine.mergeStep_used ran
      obtain ⟨last,merges,there⟩ := ih shows' (by omega)
      exact ⟨last,.turn cache turned merges,there⟩

-- merge_cache_blocks, from its lanes to its list. The limit is NUMBER_OF_TILES, or any other
-- that the starts stay below.
theorem merge_simplifies (shows : cache.Shows line) (valid : OrderedCycle.Ordered 0 limit line.links line.chunkStart) : ∃ cache' line',
    cache.Merges cache' ∧ (∀ other, cache.Merges other → other = cache') ∧ cache'.Shows line' ∧
    OrderedCycle.Ordered 0 limit line'.links line'.chunkStart ∧
    (∀ t, t < limit → (∃! i, OrderedCycle.Covers 0 limit line.links line.chunkStart t i) ∧
      (∃! i', OrderedCycle.Covers 0 limit line'.links line'.chunkStart t i') ∧
      ∀ i i', OrderedCycle.Covers 0 limit line.links line.chunkStart t i → OrderedCycle.Covers 0 limit line'.links line'.chunkStart t i' →
        line'.chunkTriangle i' = line.chunkTriangle i ∧
        ((∃ n, line'.chunkNext i' = .chunk true n) ↔ ∃ n, line.chunkNext i = .chunk true n)) ∧
    (∀ i, (∃ n, line.chunkNext i = .chunk true n) ∨ line.chunkNext i = .reserved ∨ (∃ j, line.chunkNext j = .chunk true i) ∨ i = 0 →
      line'.chunkNext i ≠ .free) ∧
    (∀ i n, line.chunkNext i = .chunk true n → line'.chunkNext i = .chunk true n ∧ line'.chunkStart i = line.chunkStart i) ∧
    (∀ i, (line.links i).isSome → line'.links i = none → line'.chunkNext i = .free) ∧
    ∀ i j k, line'.chunkNext i = .chunk false j → line'.chunkNext j = .chunk false k → j ≠ 0 →
      line'.chunkTriangle i ≠ line'.chunkTriangle j := by
  obtain ⟨cache',merges,shows'⟩ := shows.merges 16 (Finset.card_le_univ _)
  have simplified := CacheLine.merge_simplified valid
  have valid' := simplified.linked
  refine ⟨cache',line.merge_cache_blocks,merges,fun other ran => ran.unique merges,shows',valid',?_,?_,?_,?_,?_⟩
  · intro t inside
    refine ⟨valid.partition inside,valid'.partition inside,?_⟩
    intro i i' held held'
    obtain ⟨n,link⟩ := Option.isSome_iff_exists.mp held.1
    obtain ⟨b,linked⟩ := ChunkNext.next?_some link
    obtain ⟨m,n',linked',there,triangle⟩ := simplified.same i b n t linked held
    obtain rfl : m = i' := valid'.covers_once there held'
    refine ⟨triangle,?_⟩
    simp [linked,linked']
  · intro i cases_ free
    rcases cases_ with ⟨n,busy⟩ | reserved | ⟨j,behind⟩ | zero
    · rw [(simplified.busy i n busy).1] at free
      cases free
    · rw [simplified.reserved i reserved] at free
      cases free
    · have linked := valid.closed j i (by simp [CacheLine.links,behind])
      exact simplified.kept i (fun was => by simp [CacheLine.links,was] at linked) (.inr ⟨j,behind⟩) free
    · have linked := valid.held
      exact simplified.kept i (fun was => by rw [← zero] at linked; simp [CacheLine.links,was] at linked) (.inl zero) free
  · exact simplified.busy
  · intro i linked gone
    rcases simplified.freed i with free | same
    · exact free
    · rw [linked,gone] at same
      cases same
  · intro i j k idle next inner triangle
    have linkJ : line.merge_cache_blocks.links j = some k := by simp [CacheLine.links,next]
    have positive := valid'.positive linkJ inner
    exact CacheLine.merge_finished line i j k ⟨idle,next,by omega,triangle⟩

-- Chunks at tiles 0, 100, 200, 300 and 311 in the slots 0, 3, 5, 1 and 7, of which 0 and 3 are at one triangle and 5 is
-- busy. Slot 2 is reserved.
def mixedLine : CacheLine Nat where
  chunkTriangle := ![128,256,0,128,0,256,0,512,0,0,0,0,0,0,0,0]
  chunkStart := ![0,300,0,100,0,200,0,311,0,0,0,0,0,0,0,0]
  chunkNext := ![.chunk false 3,.chunk false 7,.reserved,.chunk false 5,.free,.chunk true 1,.free,.chunk false 0,
    .free,.free,.free,.free,.free,.free,.free,.free]
  endTriangle := 640

theorem mixedLine_linked : mixedLine.WellLinked := ⟨rfl,rfl,by decide,by decide,by decide,by decide,by decide⟩

-- The bytes of a line.
def ofLine (line : CacheLine Nat) : RawLine := ⟨line.chunkTriangle,line.chunkStart,fun i => (line.chunkNext i).byte,line.endTriangle⟩

theorem ofLine_shows (triangle_less : ∀ i, line.chunkTriangle i < 65536) (start_less : ∀ i, line.chunkStart i < 65536) :
    (ofLine line).Shows line := ⟨rfl,rfl,rfl,rfl,triangle_less,start_less⟩

theorem mixedLine_shows : (ofLine mixedLine).Shows mixedLine := ofLine_shows (by decide) (by decide)

-- Slot 3 goes into slot 0. The busy chunk and the chunk behind it stay apart though they are at one triangle.
theorem merge_simplifies_mixed : ∃ cache' line', (ofLine mixedLine).Merges cache' ∧ cache'.Shows line' ∧
    line'.chunkNext = ![.chunk false 5,.chunk false 7,.reserved,.free,.free,.chunk true 1,.free,.chunk false 0,
      .free,.free,.free,.free,.free,.free,.free,.free] ∧
    ∀ t, t < 4096 → ∃! i', OrderedCycle.Covers 0 4096 line'.links line'.chunkStart t i' := by
  obtain ⟨cache',line',merges,only,shows',_,tiles,_⟩ := merge_simplifies mixedLine_shows mixedLine_linked
  obtain ⟨other,ran,merged⟩ := mixedLine_shows.merges 16 (Finset.card_le_univ _)
  obtain rfl := only other ran
  refine ⟨_,line',merges,shows',?_,fun t less => (tiles t less).2.1⟩
  have next : line'.chunkNext = (CacheLine.mergeLoop 16 mixedLine).chunkNext :=
    funext fun i => ChunkNext.byte_same ((congrFun shows'.next i).symm.trans (congrFun merged.next i))
  rw [next]
  decide +kernel

end RawLine
end Spugl
