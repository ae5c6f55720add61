import Spugl.RenderTasks

namespace Spugl

-- The bytes that only one SPU may rewrite: a busy chunk or a reserved slot.
def ChunkNext.Marked (n : ChunkNext) : Prop := n = .reserved ∨ ∃ j, n = .chunk true j

theorem ChunkNext.free_unmarked : ¬ChunkNext.free.Marked := by rintro (same | ⟨j,same⟩) <;> cases same

theorem ChunkNext.idle_unmarked : ¬(ChunkNext.chunk false j).Marked := by
  rintro (same | ⟨k,same⟩) <;> cases same

-- What an SPU counts on finding in the line, slot by slot.
abbrev Marks := Slot → ChunkNext → Prop

def holding (c n : Slot) : Marks := fun i m => i = c ∧ m = .chunk true n

def Locals.Marks (v : Locals τ) : Marks := fun i m =>
  holding v.chunkToProcess v.chunkNext i m ∨ (v.claimed = some i ∧ m = .reserved)

-- A store by an SPU that counted on Before and afterwards counts on After. What
-- others marked is untouched, and each tile an idle chunk holds afterwards comes
-- with its triangle from an idle chunk before, or is given up by this SPU.
structure Rewrite (line next : CacheLine τ) (Before After : Marks) (Given : Nat → τ → Prop) : Prop where
  linked : next.WellLinked
  ends : next.endTriangle = line.endTriangle
  kept : ∀ i, (∀ n, ¬Before i n) → (line.chunkNext i).Marked → next.chunkNext i = line.chunkNext i
  span : ∀ i n, (∀ m, ¬Before i m) → line.chunkNext i = .chunk true n →
    next.chunkStart i = line.chunkStart i ∧ next.chunkStop i = line.chunkStop i ∧
      next.chunkTriangle i = line.chunkTriangle i
  mine : ∀ i n, After i n → next.chunkNext i = n
  back : ∀ i, (next.chunkNext i).Marked →
    (∃ n, After i n) ∨ ((∀ n, ¬Before i n) ∧ next.chunkNext i = line.chunkNext i)
  fresh : ∀ i n, After i n → (line.chunkNext i).Marked → ∃ m, Before i m
  idle : ∀ i n t, next.chunkNext i = .chunk false n → next.Holds i t →
    (∃ j m, line.chunkNext j = .chunk false m ∧ line.Holds j t ∧ line.chunkTriangle j = next.chunkTriangle i) ∨
      Given t (next.chunkTriangle i)

section
variable {τ : Type} {line mid next : CacheLine τ} {Before Middle After : Marks} {Given : Nat → τ → Prop}

-- A slot another SPU marked is still no slot of ours in the middle line.
theorem Marks.outside (fresh : ∀ i n, Middle i n → (line.chunkNext i).Marked → ∃ m, Before i m) (free : ∀ n, ¬Before i n)
    (marked : (line.chunkNext i).Marked) (n : ChunkNext) : ¬Middle i n := by
  intro middle
  obtain ⟨m,before⟩ := fresh i n middle marked
  exact free m before

-- Of two stores, one behind the other: whose the marks are afterwards, and which are new.
theorem Marks.back_trans (one : (mid.chunkNext i).Marked →
      (∃ n, Middle i n) ∨ ((∀ n, ¬Before i n) ∧ mid.chunkNext i = line.chunkNext i))
    (two : (∃ n, After i n) ∨ ((∀ n, ¬Middle i n) ∧ next.chunkNext i = mid.chunkNext i)) (marked : (next.chunkNext i).Marked) :
    (∃ n, After i n) ∨ ((∀ n, ¬Before i n) ∧ next.chunkNext i = line.chunkNext i) := by
  rcases two with mine | ⟨notMiddle,same⟩
  · exact .inl mine
  · rcases one (same ▸ marked) with ⟨n,middle⟩ | ⟨free,same'⟩
    · exact absurd middle (notMiddle n)
    · exact .inr ⟨free,same.trans same'⟩

theorem Marks.fresh_trans (kept : (∀ n, ¬Before i n) → (line.chunkNext i).Marked → mid.chunkNext i = line.chunkNext i)
    (one : ∀ i n, Middle i n → (line.chunkNext i).Marked → ∃ m, Before i m)
    (two : (mid.chunkNext i).Marked → ∃ m, Middle i m) (marked : (line.chunkNext i).Marked) : ∃ m, Before i m := by
  by_contra none
  have free : ∀ m, ¬Before i m := fun m before => none ⟨m,before⟩
  obtain ⟨m,middle⟩ := two (kept free marked ▸ marked)
  exact Marks.outside one free marked m middle

theorem Rewrite.trans (one : Rewrite line mid Before Middle Given) (two : Rewrite mid next Middle After Given) :
    Rewrite line next Before After Given := by
  refine ⟨two.linked,two.ends.trans one.ends,?_,?_,two.mine,?_,?_,?_⟩
  · intro i free marked
    have same := one.kept i free marked
    exact (two.kept i (Marks.outside one.fresh free marked) (same ▸ marked)).trans same
  · intro i n free busy
    have marked : (line.chunkNext i).Marked := .inr ⟨n,busy⟩
    have same := (one.kept i free marked).trans busy
    obtain ⟨start,stop,triangle⟩ := one.span i n free busy
    obtain ⟨start',stop',triangle'⟩ := two.span i n (Marks.outside one.fresh free marked) same
    exact ⟨start'.trans start,stop'.trans stop,triangle'.trans triangle⟩
  · intro i marked
    exact Marks.back_trans (one.back i) (two.back i marked) marked
  · intro i n after
    exact Marks.fresh_trans (one.kept i) one.fresh (two.fresh i n after)
  · intro i n t idle held
    rcases two.idle i n t idle held with ⟨j,m,idleJ,heldJ,same⟩ | given
    · rcases one.idle j m t idleJ heldJ with ⟨l,o,idleL,heldL,same'⟩ | given
      · exact .inl ⟨l,o,idleL,heldL,same'.trans same⟩
      · exact .inr (same ▸ given)
    · exact .inr given

theorem holds_listed {line : CacheLine τ} (linked : line.chunkNext i = .chunk b n) :
    line.Holds i t ↔ line.chunkStart i ≤ t ∧ t < line.chunkStop i := by
  constructor
  · exact fun held => held.2
  · exact fun range => ⟨by simp [CacheLine.links,linked],range⟩

theorem Rewrite.holds (rewrite : Rewrite line next Before After Given) (free : ∀ m, ¬Before i m)
    (busy : line.chunkNext i = .chunk true n) (t : Nat) : next.Holds i t ↔ line.Holds i t := by
  have span := rewrite.span i n free busy
  have same := (rewrite.kept i free (.inr ⟨n,busy⟩)).trans busy
  rw [holds_listed same,holds_listed busy,span.1,span.2.1]

theorem Rewrite.weaken {Given' : Nat → τ → Prop} (rewrite : Rewrite line next Before After Given)
    (wider : ∀ t p, Given t p → Given' t p) : Rewrite line next Before After Given' :=
  {rewrite with idle := fun i n t idle held => (rewrite.idle i n t idle held).imp_right (wider t _)}

-- Merging changes no mark of anybody.
theorem Rewrite.merge [DecidableEq τ] (After : Marks) (Given : Nat → τ → Prop) (valid : line.WellLinked) (marked : ∀ i n, After i n → n.Marked)
    (mine : ∀ i n, After i n → line.chunkNext i = n) :
    Rewrite line line.merge_cache_blocks After After Given := by
  have merged := CacheLine.merge_merged valid
  have forth : ∀ i, (line.chunkNext i).Marked → line.merge_cache_blocks.chunkNext i = line.chunkNext i := by
    rintro i (reserved | ⟨n,busy⟩)
    · rw [reserved]; exact (merged.reserved i).mpr reserved
    · rw [busy]; exact (merged.busy i n).mpr busy
  have back : ∀ i, (line.merge_cache_blocks.chunkNext i).Marked →
      line.merge_cache_blocks.chunkNext i = line.chunkNext i := by
    rintro i (reserved | ⟨n,busy⟩)
    · rw [reserved]; exact ((merged.reserved i).mp reserved).symm
    · rw [busy]; exact ((merged.busy i n).mp busy).symm
  refine ⟨merged.linked,merged.ends,fun i _ m => forth i m,?_,?_,?_,?_,?_⟩
  · intro i n _ busy
    exact ⟨merged.start i n busy,merged.stop i n busy,congrFun merged.triangles i⟩
  · intro i n after
    have same := mine i n after
    rw [forth i (same ▸ marked i n after),same]
  · intro i isMarked
    by_cases any : ∃ n, After i n
    · exact .inl any
    · exact .inr ⟨fun n after => any ⟨n,after⟩,back i isMarked⟩
  · intro i n after _
    exact ⟨n,after⟩
  · intro i n t idle held
    obtain ⟨j,m,idleJ,heldJ,same⟩ := merged.tiles i n t idle held
    exact .inl ⟨j,m,idleJ,heldJ,same.trans (congrFun merged.triangles i).symm⟩

-- A rewrite of marks alone, with every link and every start as before.
theorem relabel_linked (next : CacheLine τ) (valid : line.WellLinked) (links : ∀ i, next.links i = line.links i)
    (starts : next.chunkStart = line.chunkStart) :
    next.WellLinked ∧ (∀ i, next.chunkStop i = line.chunkStop i) ∧ ∀ i t, next.Holds i t ↔ line.Holds i t := by
  have stops : ∀ i, next.chunkStop i = line.chunkStop i := by
    intro i
    unfold CacheLine.chunkStop OrderedCycle.stop
    rw [links,starts]
  refine ⟨OrderedCycle.Ordered.congr valid links (fun i _ => congrFun starts i),stops,?_⟩
  intro i t
  have same := stops i
  unfold CacheLine.chunkStop at same
  unfold CacheLine.Holds OrderedCycle.Covers
  rw [links,same,starts]

theorem relabel_rewrite (valid : line.WellLinked) (links : ∀ i, next.links i = line.links i)
    (starts : next.chunkStart = line.chunkStart) (ends : next.endTriangle = line.endTriangle)
    (kept : ∀ i, (∀ n, ¬Before i n) → (line.chunkNext i).Marked →
      next.chunkNext i = line.chunkNext i ∧ next.chunkTriangle i = line.chunkTriangle i)
    (mine : ∀ i n, After i n → next.chunkNext i = n)
    (back : ∀ i, (next.chunkNext i).Marked →
      (∃ n, After i n) ∨ ((∀ n, ¬Before i n) ∧ next.chunkNext i = line.chunkNext i))
    (fresh : ∀ i n, After i n → (line.chunkNext i).Marked → ∃ m, Before i m)
    (idle : ∀ i n t, next.chunkNext i = .chunk false n → line.Holds i t →
      (line.chunkNext i = .chunk false n ∧ line.chunkTriangle i = next.chunkTriangle i) ∨
        Given t (next.chunkTriangle i)) :
    Rewrite line next Before After Given := by
  obtain ⟨linked,stops,holds⟩ := relabel_linked next valid links starts
  refine ⟨linked,ends,fun i free marked => (kept i free marked).1,?_,mine,back,fresh,?_⟩
  · intro i n free busy
    exact ⟨congrFun starts i,stops i,(kept i free (.inr ⟨n,busy⟩)).2⟩
  · intro i n t isIdle held
    have before := (holds i t).mp held
    exact (idle i n t isIdle before).imp_left fun ⟨same,triangle⟩ => ⟨i,n,same,before,triangle⟩

-- Linking slot `f` in after `c` at tile `x`.
structure Inserted (line next : CacheLine τ) (c f : Slot) (x : Nat) : Prop where
  linked : next.WellLinked
  startNew : next.chunkStart f = x
  startOther : ∀ i, i ≠ f → next.chunkStart i = line.chunkStart i
  stopOld : next.chunkStop c = x
  stopNew : next.chunkStop f = line.chunkStop c
  stopOther : ∀ i n, i ≠ c → i ≠ f → line.links i = some n → next.chunkStop i = line.chunkStop i

theorem insert_after (valid : line.WellLinked) (atC : line.chunkNext c = .chunk b n)
    (unlisted : line.chunkNext f = .free) (toF : next.chunkNext c = .chunk b' f)
    (fromF : next.chunkNext f = .chunk b'' n)
    (others : ∀ i, i ≠ c → i ≠ f → next.chunkNext i = line.chunkNext i)
    (starts : next.chunkStart = Function.update line.chunkStart f x)
    (low : line.chunkStart c < x) (high : x < line.chunkStop c) : Inserted line next c f x := by
  have linkC : line.links c = some n := by simp [CacheLine.links,atC]
  have linkF : line.links f = none := by simp [CacheLine.links,unlisted]
  have toF' : next.links c = some f := by simp [CacheLine.links,toF]
  have fromF' : next.links f = some n := by simp [CacheLine.links,fromF]
  have others' : ∀ i, i ≠ c → i ≠ f → next.links i = line.links i := by
    intro i one two; simp only [CacheLine.links,others i one two]
  have atNew : next.chunkStart f = x := by simp [starts]
  have kept : ∀ i, i ≠ f → next.chunkStart i = line.chunkStart i := by intro i other; simp [starts,other]
  refine ⟨?_,atNew,kept,?_,?_,?_⟩
  · exact OrderedCycle.Ordered.insert valid linkC linkF (atNew ▸ low) (atNew ▸ high) toF' fromF' others' kept
  · exact (OrderedCycle.Ordered.insert_stop valid linkF toF').trans atNew
  · exact OrderedCycle.Ordered.insert_stop_new valid linkC linkF fromF' kept
  · intro i m notC notF link
    exact OrderedCycle.Ordered.insert_stop_other valid linkF link (others' i notC notF) kept

-- The busy chunk `c` is cut at tile `x`. With `front` the new slot stays busy and
-- `c` is given up; otherwise `c` stays busy and the new slot is given up.
theorem insert_rewrite (front : Bool) (valid : line.WellLinked) (busy : line.chunkNext c = .chunk true n)
    (unlisted : line.chunkNext f = .free) (toF : next.chunkNext c = .chunk (!front) f)
    (fromF : next.chunkNext f = .chunk front n)
    (others : ∀ i, i ≠ c → i ≠ f →
      next.chunkNext i = line.chunkNext i ∧ next.chunkTriangle i = line.chunkTriangle i)
    (starts : next.chunkStart = Function.update line.chunkStart f x)
    (ends : next.endTriangle = line.endTriangle)
    (low : line.chunkStart c < x) (high : x < line.chunkStop c)
    (head : front = true → ∀ t, line.chunkStart c ≤ t → t < x → Given t (next.chunkTriangle c))
    (tail : front = false → ∀ t, x ≤ t → t < line.chunkStop c → Given t (next.chunkTriangle f)) :
    Rewrite line next (holding c n) (if front then holding f n else holding c f) Given := by
  have inserted := insert_after valid busy unlisted toF fromF (fun i one two => (others i one two).1) starts low high
  have apart : c ≠ f := by intro same; subst same; rw [busy] at unlisted; cases unlisted
  have notC : ∀ i, (∀ m, ¬holding c n i m) → i ≠ c := by
    intro i free same; exact free (.chunk true n) ⟨same,rfl⟩
  have notF : ∀ i, (line.chunkNext i).Marked → i ≠ f := by
    intro i marked same; subst same; rw [unlisted] at marked; exact ChunkNext.free_unmarked marked
  refine ⟨inserted.linked,ends,?_,?_,?_,?_,?_,?_⟩
  · intro i free marked
    exact (others i (notC i free) (notF i marked)).1
  · intro i m free isBusy
    have one := notC i free
    have two := notF i (.inr ⟨m,isBusy⟩)
    exact ⟨inserted.startOther i two,inserted.stopOther i m one two (by simp [CacheLine.links,isBusy]),
      (others i one two).2⟩
  · intro i m after
    cases front <;> obtain ⟨rfl,rfl⟩ := after
    · exact toF
    · exact fromF
  · intro i marked
    by_cases isC : i = c
    · subst isC
      cases front
      · exact .inl ⟨.chunk true f,rfl,rfl⟩
      · rw [toF] at marked; exact absurd marked ChunkNext.idle_unmarked
    · by_cases isF : i = f
      · subst isF
        cases front
        · rw [fromF] at marked; exact absurd marked ChunkNext.idle_unmarked
        · exact .inl ⟨.chunk true n,rfl,rfl⟩
      · exact .inr ⟨fun m held => isC held.1,(others i isC isF).1⟩
  · intro i m after marked
    cases front <;> obtain ⟨rfl,rfl⟩ := after
    · exact ⟨.chunk true n,rfl,rfl⟩
    · exact absurd rfl (notF i marked)
  · intro i m t idle held
    have range : next.chunkStart i ≤ t ∧ t < next.chunkStop i := held.2
    by_cases isC : i = c
    · subst isC
      rw [toF] at idle
      cases front
      · cases idle
      · rw [inserted.startOther i apart,inserted.stopOld] at range
        exact .inr (head rfl t range.1 range.2)
    · by_cases isF : i = f
      · subst isF
        rw [fromF] at idle
        cases front
        · rw [inserted.startNew,inserted.stopNew] at range
          exact .inr (tail rfl t range.1 range.2)
        · cases idle
      · have same := (others i isC isF).1
        rw [same] at idle
        have link : line.links i = some m := by simp [CacheLine.links,idle]
        rw [inserted.startOther i isF,inserted.stopOther i m isC isF link] at range
        exact .inl ⟨i,m,idle,⟨by simp [link],range.1,range.2⟩,((others i isC isF).2).symm⟩

end
end Spugl
