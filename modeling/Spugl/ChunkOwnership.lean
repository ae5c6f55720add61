import Spugl.RenderSystem
import Spugl.ChunkSplitting

namespace Spugl

def Spu.Marks : Spu τ → Marks
  | .idle => fun _ _ => False
  | .claiming _ => fun _ _ => False
  | .scanning v => v.Marks
  | .splitting v _ _ => v.Marks
  | .storing v _ _ _ => v.Marks
  | .rendering v _ _ => v.Marks
  | .finishing v => v.Marks
  | .releasing v _ => v.Marks

-- The copy of the line a PUTLLC would replace.
def Spu.copy : Spu τ → Option (CacheLine τ)
  | .claiming cache => some cache
  | .storing _ _ _ cache => some cache
  | .releasing _ cache => some cache
  | _ => none

structure Spans (line : CacheLine τ) (v : Locals τ) : Prop where
  start : line.chunkStart v.chunkToProcess = v.chunkStart
  stop : line.chunkStop v.chunkToProcess = v.chunkEnd+1
  spare : v.claimed = none ∨ v.freeChunk = v.claimed

-- The locals an SPU goes on with still describe its chunk.
def Spu.Fits (line : CacheLine τ) : Spu τ → Prop
  | .idle => True
  | .claiming _ => True
  | .scanning v => Spans line v ∧ v.freeChunk = v.claimed
  | .splitting v _ firstTile => Spans line v ∧ v.chunkStart ≤ firstTile ∧ firstTile ≤ v.chunkEnd
  | .storing v _ firstTile _ => Spans line v ∧ v.chunkStart ≤ firstTile ∧ firstTile ≤ v.chunkEnd
  | .rendering v _ _ => v.freeChunk = v.claimed
  | .finishing v => v.freeChunk = v.claimed
  | .releasing v _ => v.freeChunk = v.claimed

structure Ownership (s : System τ ι) : Prop where
  linked : s.line.WellLinked
  copy : ∀ k cache, s.held k = true → (s.spus k).copy = some cache → cache = s.line
  mine : ∀ k i n, (s.spus k).Marks i n → s.line.chunkNext i = n
  once : ∀ k k' i n n', (s.spus k).Marks i n → (s.spus k').Marks i n' → k = k'
  owner : ∀ i, (s.line.chunkNext i).Marked → ∃ k n, (s.spus k).Marks i n
  fits : ∀ k, (s.spus k).Fits s.line

def Spu.SoundSplit (held : Bool) : Spu τ → Prop
  | .storing v _ firstTile cache => held = true → Sound v firstTile cache
  | _ => True

-- Stores of the splitting section are sound; all else is free, with any producer.
def SoundSplits (s : System τ ι) : Action τ ι → Prop
  | .run k => (s.spus k).SoundSplit (s.held k)
  | _ => True

section
variable {τ ι : Type} {s next : System τ ι}

theorem Locals.marked {v : Locals τ} (marks : v.Marks i n) : n.Marked := by
  rcases marks with ⟨_,rfl⟩ | ⟨_,rfl⟩
  · exact .inr ⟨_,rfl⟩
  · exact .inl rfl

theorem Spu.marked {spu : Spu τ} (marks : spu.Marks i n) : n.Marked := by
  cases spu <;> first | exact marks.elim | exact Locals.marked marks

-- Fitting depends on the line only at the SPU's own busy chunk.
theorem Spu.Fits.frame {spu : Spu τ} {line after : CacheLine τ} (fits : spu.Fits line)
    (same : ∀ i n, spu.Marks i (.chunk true n) →
      after.chunkStart i = line.chunkStart i ∧ after.chunkStop i = line.chunkStop i) : spu.Fits after := by
  have spans : ∀ v : Locals τ, spu.Marks = v.Marks → Spans line v → Spans after v := by
    intro v marks old
    obtain ⟨start,stop⟩ := same v.chunkToProcess v.chunkNext (by rw [marks]; exact .inl ⟨rfl,rfl⟩)
    exact ⟨start.trans old.start,stop.trans old.stop,old.spare⟩
  cases spu with
  | idle => trivial
  | claiming => trivial
  | scanning v => exact ⟨spans v rfl fits.1,fits.2⟩
  | splitting v => exact ⟨spans v rfl fits.1,fits.2⟩
  | storing v => exact ⟨spans v rfl fits.1,fits.2⟩
  | rendering => exact fits
  | finishing => exact fits
  | releasing => exact fits

theorem Ownership.counts (valid : Ownership s) {v : Locals τ} (marks : (s.spus k).Marks = v.Marks)
    (spans : Spans s.line v) : Counts s.line v :=
  ⟨owns_exact.mpr ⟨valid.linked,fun i n m => valid.mine k i n (marks ▸ m)⟩,spans.start,spans.stop,spans.spare⟩

theorem Ownership.owns (valid : Ownership s) {v : Locals τ} (marks : (s.spus k).Marks = v.Marks) :
    Owns s.line v := owns_exact.mpr ⟨valid.linked,fun i n m => valid.mine k i n (marks ▸ m)⟩

-- Whose marks are whose, for one line and the SPUs on it.
structure Marking (line : CacheLine τ) (spus : ι → Spu τ) : Prop where
  mine : ∀ k i n, (spus k).Marks i n → line.chunkNext i = n
  once : ∀ k k' i n n', (spus k).Marks i n → (spus k').Marks i n' → k = k'
  owner : ∀ i, (line.chunkNext i).Marked → ∃ k n, (spus k).Marks i n

-- At the start slot 0 is idle and every other slot is free.
theorem start_marking (origin : τ) : Marking (CacheLine.create origin) (fun _ : ι => Spu.idle) := by
  refine ⟨?_,?_,?_⟩
  · intro k i n (none : False); exact none.elim
  · intro k k' i n n' (none : False); exact none.elim
  · intro i marked
    by_cases zero : i = 0
    · subst zero; exact absurd marked ChunkNext.idle_unmarked
    · simp only [CacheLine.create,zero,if_false] at marked
      exact absurd marked ChunkNext.free_unmarked

theorem start_ownership (origin : τ) (ring : τ → TriangleRecord τ) : Ownership (System.start (ι := ι) origin ring) := by
  have marking := start_marking (ι := ι) origin
  refine ⟨CacheLine.create_linked origin,?_,marking.mine,marking.once,marking.owner,fun _ => trivial⟩
  intro k cache held; cases held

theorem Marking.lineMarked {spus : ι → Spu τ} (valid : Marking line spus) (mark : (spus k).Marks i n) :
    (line.chunkNext i).Marked := by
  rw [valid.mine k i n mark]
  exact Spu.marked mark

theorem Marking.foreign {spus : ι → Spu τ} (valid : Marking line spus) (other : k' ≠ k)
    (mark : (spus k').Marks i n) (m : ChunkNext) : ¬(spus k).Marks i m :=
  fun own => other (valid.once k' k i n m mark own)

variable [DecidableEq ι]

-- A step of one SPU that leaves the line and its own marks alone.
theorem Ownership.moved (valid : Ownership s) (line : next.line = s.line) (k : ι)
    (spus : next.spus = Function.update s.spus k spu) (marks : spu.Marks = (s.spus k).Marks)
    (fits : spu.Fits s.line) (others : ∀ k', k' ≠ k → next.held k' = s.held k')
    (copy : ∀ cache, spu.copy = some cache → cache = s.line) : Ownership next := by
  have same : ∀ k', (next.spus k').Marks = (s.spus k').Marks := by
    intro k'
    rw [spus]
    by_cases isK : k' = k
    · subst isK; simp [marks]
    · simp [isK]
  refine ⟨line ▸ valid.linked,?_,?_,?_,?_,?_⟩
  · intro k' cache held
    rw [spus,line]
    by_cases isK : k' = k
    · subst isK; simpa using copy cache
    · rw [Function.update_of_ne isK]
      exact valid.copy k' cache (others k' isK ▸ held)
  · intro k' i n mark
    rw [same] at mark; rw [line]; exact valid.mine k' i n mark
  · intro k' k'' i n n' one two
    rw [same] at one two; exact valid.once k' k'' i n n' one two
  · intro i marked
    rw [line] at marked
    obtain ⟨k',n,mark⟩ := valid.owner i marked
    exact ⟨k',n,by rw [same]; exact mark⟩
  · intro k'
    rw [spus,line]
    by_cases isK : k' = k
    · subst isK; simpa using fits
    · rw [Function.update_of_ne isK]; exact valid.fits k'

-- One SPU exchanges its marks for new ones. What the others marked stays.
theorem Marking.exchange {spus : ι → Spu τ} {spu : Spu τ} {after : CacheLine τ} (valid : Marking line spus) (k : ι)
    (kept : ∀ i, (∀ n, ¬(spus k).Marks i n) → (line.chunkNext i).Marked → after.chunkNext i = line.chunkNext i)
    (mine : ∀ i n, spu.Marks i n → after.chunkNext i = n)
    (back : ∀ i, (after.chunkNext i).Marked →
      (∃ n, spu.Marks i n) ∨ ((∀ n, ¬(spus k).Marks i n) ∧ after.chunkNext i = line.chunkNext i))
    (fresh : ∀ i n, spu.Marks i n → (line.chunkNext i).Marked → ∃ m, (spus k).Marks i m) :
    Marking after (Function.update spus k spu) := by
  have disjoint : ∀ k' i n n', k' ≠ k → spu.Marks i n → (spus k').Marks i n' → False := by
    intro k' i n n' isK ours theirs
    obtain ⟨m,before⟩ := fresh i n ours (valid.lineMarked theirs)
    exact valid.foreign isK theirs m before
  refine ⟨?_,?_,?_⟩
  · intro k' i n mark
    by_cases isK : k' = k
    · subst isK
      rw [Function.update_self] at mark
      exact mine i n mark
    · rw [Function.update_of_ne isK] at mark
      rw [kept i (valid.foreign isK mark) (valid.lineMarked mark)]
      exact valid.mine k' i n mark
  · intro k' k'' i n n' one two
    by_cases isK : k' = k <;> by_cases isK' : k'' = k
    · rw [isK,isK']
    · subst isK
      rw [Function.update_self] at one; rw [Function.update_of_ne isK'] at two
      exact (disjoint k'' i n n' isK' one two).elim
    · subst isK'
      rw [Function.update_of_ne isK] at one; rw [Function.update_self] at two
      exact (disjoint k' i n' n isK two one).elim
    · rw [Function.update_of_ne isK] at one; rw [Function.update_of_ne isK'] at two
      exact valid.once k' k'' i n n' one two
  · intro i marked
    rcases back i marked with ⟨n,ours⟩ | ⟨free,same⟩
    · exact ⟨k,n,by rw [Function.update_self]; exact ours⟩
    · obtain ⟨k',n,mark⟩ := valid.owner i (same ▸ marked)
      have isK : k' ≠ k := by intro isK; subst isK; exact free n mark
      exact ⟨k',n,by rw [Function.update_of_ne isK]; exact mark⟩

-- A successful store. What the other SPUs count on is a mark, so it stays.
theorem Ownership.stored (valid : Ownership s) (k : ι) (line : next.line = after)
    (spus : next.spus = Function.update s.spus k spu) (held : ∀ k', next.held k' = false)
    (rewrite : Rewrite s.line after (s.spus k).Marks spu.Marks Given) (fits : spu.Fits after) : Ownership next := by
  have marking : Marking s.line s.spus := ⟨valid.mine,valid.once,valid.owner⟩
  have exchanged := marking.exchange k rewrite.kept rewrite.mine rewrite.back rewrite.fresh
  rw [← spus] at exchanged
  refine ⟨line ▸ rewrite.linked,fun k' cache is => by simp [held] at is,?_,exchanged.once,?_,?_⟩
  · rw [line]; exact exchanged.mine
  · rw [line]; exact exchanged.owner
  · intro k'
    rw [line,spus]
    by_cases isK : k' = k
    · rw [isK,Function.update_self]; exact fits
    · rw [Function.update_of_ne isK]
      refine (valid.fits k').frame ?_
      intro i n mark
      have span := rewrite.span i n (marking.foreign isK mark) (valid.mine k' i _ mark)
      exact ⟨span.1,span.2.1⟩

theorem Ownership.putllc {done failed : Spu τ} (valid : Ownership s) (k : ι)
    (copy : (s.spus k).copy = some cache)
    (success : s.held k = true → cache = s.line → ∃ Given,
      Rewrite s.line after (s.spus k).Marks done.Marks Given ∧ done.Fits after)
    (marks : failed.Marks = (s.spus k).Marks) (fits : failed.Fits s.line) (none : failed.copy = none) :
    Ownership (s.putllc k after done failed) := by
  unfold System.putllc
  split
  · rename_i held
    obtain ⟨Given,rewrite,fits⟩ := success held (valid.copy k cache held copy)
    exact valid.stored k rfl rfl (fun _ => rfl) rewrite fits
  · exact valid.moved rfl k rfl marks fits (fun _ _ => rfl) (fun cache some => by rw [none] at some; cases some)

theorem Ownership.getllar {spu : Spu τ} (valid : Ownership s) (k : ι) (marks : spu.Marks = (s.spus k).Marks)
    (fits : spu.Fits s.line) (copy : spu.copy = some s.line) : Ownership (s.getllar k spu) := by
  refine valid.moved rfl k rfl marks fits ?_ ?_
  · intro k' other; simp [System.getllar,System.move,other]
  · intro cache some; rw [copy] at some; exact (Option.some.inj some).symm

theorem Ownership.move {spu : Spu τ} (valid : Ownership s) (k : ι) (marks : spu.Marks = (s.spus k).Marks)
    (fits : spu.Fits s.line) (none : spu.copy = none) : Ownership (s.move k spu) :=
  valid.moved rfl k rfl marks fits (fun _ _ => rfl) (fun cache some => by rw [none] at some; cases some)

-- A failed split store keeps the chunk; only freeChunk may have changed.
theorem Spans.retry {line cache : CacheLine τ} {v : Locals τ} (spans : Spans line v) : Spans line (v.retry cache) := by
  refine ⟨spans.start,spans.stop,?_⟩
  rcases spans.spare with none | same
  · exact .inl none
  · cases atFree : v.freeChunk with
    | none => exact .inl (same ▸ atFree)
    | some f => refine .inr ?_; simp [Locals.retry,allocate,atFree,← same]

variable [DecidableEq τ]

theorem Ownership.run (valid : Ownership s) (k : ι) (sound : SoundSplits s (.run k)) : Ownership (s.run k) := by
  have fits := valid.fits k
  unfold System.run
  cases at_ : s.spus k with
  | idle => exact valid.getllar k (by rw [at_]; rfl) trivial rfl
  | claiming cache =>
    dsimp only
    cases ran : claimChunk cache with
    | none =>
      show Ownership (s.move k .idle)
      exact valid.move k (by rw [at_]; rfl) trivial rfl
    | some pair =>
      obtain ⟨line,v⟩ := pair
      show Ownership (s.putllc k line (.scanning v) .idle)
      refine valid.putllc k (by rw [at_]; rfl) ?_ (by rw [at_]; rfl) trivial rfl
      rintro _ rfl
      have claimed := claimChunk_claimed valid.linked ran
      rw [at_]
      exact ⟨_,claimed.rewrite,⟨claimed.counts.start,claimed.counts.stop,claimed.counts.spare⟩,claimed.spare⟩
  | scanning v =>
    rw [at_] at fits
    dsimp only
    cases scan : findFirstTriangleTile (s.ring v.chunkTriangle) v.chunkStart v.chunkEnd with
    | some firstTile =>
      have found := findFirst_some scan
      exact valid.move k (by rw [at_]; rfl) ⟨fits.1,found.1,found.2.1⟩ rfl
    | none =>
      dsimp only
      split
      · exact valid.move k (by rw [at_]; rfl) fits.2 rfl
      · exact valid.move k (by rw [at_]; rfl) ⟨⟨fits.1.start,fits.1.stop,fits.1.spare⟩,fits.2⟩ rfl
  | splitting v triangle firstTile =>
    rw [at_] at fits
    exact valid.getllar k (by rw [at_]; rfl) fits rfl
  | storing v triangle firstTile cache =>
    rw [at_] at fits
    obtain ⟨spans,low,high⟩ := fits
    have counts := valid.counts (k := k) (v := v) (by rw [at_]; rfl) spans
    have failed : (Spu.splitting (v.retry cache) triangle firstTile).Fits s.line := ⟨spans.retry,low,high⟩
    have trusted : s.held k = true → Sound v firstTile cache := by
      simpa only [SoundSplits,at_,Spu.SoundSplit] using sound
    dsimp only
    cases ran : splitChunk v triangle.next_triangle firstTile cache with
    | relinquish line =>
      refine valid.putllc k (by rw [at_]; rfl) ?_ (by rw [at_]; rfl) failed rfl
      rintro held rfl
      rcases splitChunk_cases triangle.next_triangle counts (trusted held) low high with
        ⟨after,same,rewrite⟩ | ⟨_,_,_,_,same,_⟩
      · rw [ran] at same; cases same
        rw [at_]
        exact ⟨_,rewrite,trivial⟩
      · rw [ran] at same; cases same
    | reslice line tailChunk thisChunk window =>
      refine valid.putllc k (by rw [at_]; rfl) ?_ (by rw [at_]; rfl) failed rfl
      rintro held rfl
      rcases splitChunk_cases triangle.next_triangle counts (trusted held) low high with
        ⟨_,same,_⟩ | ⟨after,_,_,_,same,rewrite,resliced⟩
      · rw [ran] at same; cases same
      · rw [ran] at same; cases same
        have marks : (Spu.rendering (v.stored tailChunk thisChunk window) triangle window).Marks =
            holding thisChunk tailChunk := by
          funext i n; simp [Spu.Marks,Locals.Marks,Locals.stored]
        rw [at_,marks]
        exact ⟨_,(reslice_merged rewrite resliced).1,rfl⟩
  | rendering v triangle window =>
    rw [at_] at fits
    dsimp only
    split
    · exact valid.move k (by rw [at_]; rfl) fits rfl
    · split
      · exact valid.moved rfl k rfl (by rw [at_]; rfl) fits (fun _ _ => rfl) (fun _ none => by cases none)
      · exact valid.moved rfl k rfl (by rw [at_]; rfl) fits (fun _ _ => rfl) (fun _ none => by cases none)
  | finishing v =>
    rw [at_] at fits
    exact valid.getllar k (by rw [at_]; rfl) fits rfl
  | releasing v cache =>
    rw [at_] at fits
    refine valid.putllc k (by rw [at_]; rfl) ?_ (by rw [at_]; rfl) fits rfl
    rintro _ rfl
    rw [at_]
    exact ⟨_,release_merged (valid.owns (k := k) (v := v) (by rw [at_]; rfl)) fits,trivial⟩

theorem Ownership.act (valid : Ownership s) (a : Action τ ι) (sound : SoundSplits s a) : Ownership (s.act a) := by
  cases a with
  | run k => exact valid.run k sound
  | record p triangle =>
    show Ownership {s with ring := Function.update s.ring p triangle}
    exact ⟨valid.linked,valid.copy,valid.mine,valid.once,valid.owner,valid.fits⟩
  | advance e =>
    show Ownership {s with line := {s.line with endTriangle := e},held := fun _ => false}
    refine ⟨valid.linked,?_,valid.mine,valid.once,valid.owner,?_⟩
    · intro k cache held; cases held
    intro k
    exact (valid.fits k).frame fun _ _ _ => ⟨rfl,rfl⟩

theorem reached_ownership (path : Reached SoundSplits origin s) : Ownership s := by
  refine Runs.Reached.invariant Ownership ?_ ?_ path
  · rintro _ ⟨ring,rfl⟩; exact start_ownership origin ring
  · rintro _ _ valid ⟨a,sound,rfl⟩; exact valid.act a sound

end

-- chunkNext & CHUNKNEXT_MASK, followed n times from slot 0.
def CacheLine.follow (c : CacheLine τ) : Nat → Slot
  | 0 => 0
  | n+1 => (c.chunkNext (c.follow n)).mask

def ChunkNext.Listed (n : ChunkNext) : Prop := n ≠ .free ∧ n ≠ .reserved

-- The cycle of chunks from slot 0, the tiles it divides, and who has which mark.
structure Consistent (s : System τ ι) : Prop where
  listed : ∀ n, (s.line.chunkNext (s.line.follow n)).Listed
  cycle : ∃ n, 0 < n ∧ s.line.follow n = 0 ∧
    ∀ m l, m < l → l < n → s.line.chunkStart (s.line.follow m) < s.line.chunkStart (s.line.follow l)
  first : s.line.chunkStart 0 = 0
  below : ∀ n, s.line.chunkStart (s.line.follow n) < NUMBER_OF_TILES
  outside : ∀ i, (∀ n, s.line.follow n ≠ i) → ¬(s.line.chunkNext i).Listed
  tiles : ∀ t, t < NUMBER_OF_TILES → ∃! i,
    (s.line.chunkNext i).Listed ∧ s.line.chunkStart i ≤ t ∧ t < s.line.endLane i
  owner : ∀ i, (s.line.chunkNext i).Marked → ∃! k, ∃ n, (s.spus k).Marks i n

section
variable {τ ι : Type} {s : System τ ι}

theorem listed_link {n : ChunkNext} : n.Listed ↔ n.next?.isSome := by
  cases n <;> simp [ChunkNext.Listed]

theorem follow_visit {line : CacheLine τ} (valid : line.WellLinked) (n : Nat) :
    line.follow n = OrderedCycle.visit line.links 0 n := by
  induction n with
  | zero => rfl
  | succ n ih =>
    obtain ⟨j,linked⟩ := Option.isSome_iff_exists.mp (valid.visit_listed n)
    obtain ⟨busy,same⟩ := ChunkNext.next?_some linked
    simp only [CacheLine.follow,OrderedCycle.visit,ih,linked,same,ChunkNext.mask_chunk,Option.getD_some]

theorem endLane_stop {line : CacheLine τ} (valid : line.WellLinked) (linked : line.links i = some j) :
    line.endLane i = line.chunkStop i := by
  obtain ⟨busy,same⟩ := ChunkNext.next?_some linked
  unfold CacheLine.endLane CacheLine.chunkStop
  rw [OrderedCycle.stop_some linked,same,ChunkNext.mask_chunk]
  by_cases root : j = 0
  · rw [if_pos root,root,valid.start]; rfl
  · obtain ⟨k,onward⟩ := Option.isSome_iff_exists.mp (valid.closed i j linked)
    have positive := valid.positive onward root
    rw [if_neg root,if_neg (by omega)]

theorem Ownership.consistent (valid : Ownership s) : Consistent s := by
  have linked := valid.linked
  obtain ⟨length,period⟩ := linked.period
  refine ⟨?_,⟨length,period.positive,?_,?_⟩,linked.start,?_,?_,?_,?_⟩
  · intro n
    rw [follow_visit linked]
    exact listed_link.mpr (linked.visit_listed n)
  · rw [follow_visit linked]; exact period.returned
  · intro m l less inside
    rw [follow_visit linked,follow_visit linked]
    exact linked.climbs_far period less inside
  · intro n
    rw [follow_visit linked]
    exact linked.below _ _ (linked.visit_next n)
  · intro i missed listed
    obtain ⟨j,link⟩ := Option.isSome_iff_exists.mp (listed_link.mp listed)
    obtain ⟨m,_,same⟩ := linked.visits_all period link
    exact missed m ((follow_visit linked m).trans same)
  · -- A listed slot covers exactly the tiles up to the source's own end lane.
    intro t inside
    have covers : ∀ i, ((s.line.chunkNext i).Listed ∧ s.line.chunkStart i ≤ t ∧ t < s.line.endLane i) ↔
        s.line.Holds i t := by
      intro i
      rw [listed_link]
      constructor <;> rintro ⟨some,low,high⟩ <;> obtain ⟨j,link⟩ := Option.isSome_iff_exists.mp some
      · rw [endLane_stop linked link] at high; exact ⟨some,low,high⟩
      · refine ⟨some,low,?_⟩
        rw [endLane_stop linked link]; exact high
    obtain ⟨i,holds,only⟩ := OrderedCycle.Ordered.partition linked inside
    exact ⟨i,(covers i).mpr holds,fun i' other => only i' ((covers i').mp other)⟩
  · intro i marked
    obtain ⟨k,n,mark⟩ := valid.owner i marked
    exact ⟨k,⟨n,mark⟩,fun k' ⟨n',other⟩ => valid.once k' k i n' n other mark⟩

variable [DecidableEq τ] [DecidableEq ι]

-- Every run whose split stores are sound, with any number of SPUs.
theorem chunks_consistent (path : Reached SoundSplits origin s) : Consistent s := (reached_ownership path).consistent

end

instance (v : Locals τ) (firstTile : Nat) (line : CacheLine τ) : Decidable (Sound v firstTile line) :=
  decidable_of_iff
    ((v.freeChunk = v.claimed ∨ ∃ f, v.freeChunk = some f ∧ line.chunkNext f = .free ∧
        ¬(needsTail v firstTile = true ∧ needsHead v firstTile = true ∧ line.freeSlot = some f)) ∧
      (15 ≤ v.chunkEnd ∨ (allocate v line).1 = none))
    ⟨fun ⟨slot,clamp⟩ => ⟨slot,clamp⟩,fun sound => ⟨sound.slot,sound.clamp⟩⟩

instance (held : Bool) : (spu : Spu τ) → Decidable (spu.SoundSplit held)
  | .storing v _ firstTile cache => inferInstanceAs (Decidable (held = true → Sound v firstTile cache))
  | .idle => .isTrue trivial
  | .claiming _ => .isTrue trivial
  | .scanning _ => .isTrue trivial
  | .splitting _ _ _ => .isTrue trivial
  | .rendering _ _ _ => .isTrue trivial
  | .finishing _ => .isTrue trivial
  | .releasing _ _ => .isTrue trivial

instance (s : System τ ι) : (a : Action τ ι) → Decidable (SoundSplits s a)
  | .run k => inferInstanceAs (Decidable ((s.spus k).SoundSplit (s.held k)))
  | .record _ _ => .isTrue trivial
  | .advance _ => .isTrue trivial

-- Triangle 0 covers tile 5 and triangle 1 tile 2. One SPU splits 5..20 off, which
-- leaves 0..4 behind, and later finds tile 2 in it.
def crampedRing (i : Nat) : TriangleRecord Nat := ⟨fun t => decide (t = if i = 0 then 5 else 2),i+1⟩

def crampedRun : List (Action Nat (Fin 1)) := [.advance 1,.advance 2] ++ List.replicate 15 (.run 0)

def crampedStart : System Nat (Fin 1) := System.start 0 crampedRing

theorem chunks_consistent_after_split : Consistent ((crampedRun.take 10).foldl System.act crampedStart) :=
  chunks_consistent (Runs.Reached.follow (.start ⟨crampedRing,rfl⟩) (by decide +kernel))

-- The next split stores a chunk start of -11 as 65525.
theorem chunks_inconsistent_cramped : ∃ s : System Nat (Fin 1), Reached (fun _ _ => True) 0 s ∧ ¬Consistent s := by
  refine ⟨crampedRun.foldl System.act crampedStart,Runs.Reached.follow (.start ⟨crampedRing,rfl⟩) (by decide +kernel),?_⟩
  intro consistent
  have stored : (crampedRun.foldl System.act crampedStart).line.chunkStart
      ((crampedRun.foldl System.act crampedStart).line.follow 1) = 65525 := by decide +kernel
  have below : _ < 4096 := consistent.below 1
  omega

end Spugl
