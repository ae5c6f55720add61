import Spugl.PointerNames
import Spugl.TileHistory
import Spugl.SoloRuns

namespace Spugl

-- The same SPU under other names. What it read behind its last triangle is no record.
def Spu.Named (f : τ → τ') : Spu τ → Spu τ' → Prop
  | .idle,spu => spu = .idle
  | .claiming cache,spu => spu = .claiming (cache.map f)
  | .scanning v,spu => spu = .scanning (v.map f)
  | .splitting v triangle firstTile,spu => spu = .splitting (v.map f) (triangle.map f) firstTile
  | .storing v triangle firstTile cache,spu => spu = .storing (v.map f) (triangle.map f) firstTile (cache.map f)
  | .rendering v triangle window,spu => ∃ read, spu = .rendering (v.map f) read window ∧
    (v.chunkTriangle ≠ v.endTriangle → read = triangle.map f)
  | .finishing v,spu => spu = .finishing (v.map f)
  | .releasing v cache,spu => spu = .releasing (v.map f) (cache.map f)

structure Named (f : τ → τ') (t : System τ ι) (s : System τ' ι) : Prop where
  line : s.line = t.line.map f
  held : s.held = t.held
  rendered : s.rendered = t.rendered.map (Rendered.map f)
  spus : ∀ k, (t.spus k).Named f (s.spus k)

section
variable {τ τ' ι : Type} {f : τ → τ'} {t : System τ ι} {s : System τ' ι} [DecidableEq ι]

theorem Named.others {spu : Spu τ} {spu' : Spu τ'} (named : Named f t s) (k : ι) (own : spu.Named f spu') (k' : ι) :
    (Function.update t.spus k spu k').Named f (Function.update s.spus k spu' k') := by
  by_cases isK : k' = k
  · subst isK
    rw [Function.update_self,Function.update_self]
    exact own
  · rw [Function.update_of_ne isK,Function.update_of_ne isK]
    exact named.spus k'

theorem Named.move {spu : Spu τ} {spu' : Spu τ'} (named : Named f t s) (k : ι) (own : spu.Named f spu') :
    Named f (t.move k spu) (s.move k spu') := ⟨named.line,named.held,named.rendered,named.others k own⟩

theorem Named.getllar {spu : Spu τ} {spu' : Spu τ'} (named : Named f t s) (k : ι) (own : spu.Named f spu') :
    Named f (t.getllar k spu) (s.getllar k spu') := by
  refine ⟨named.line,?_,named.rendered,named.others k own⟩
  simp only [System.getllar,System.move,named.held]

theorem Named.stored {done failed : Spu τ} {done' failed' : Spu τ'} {line : CacheLine τ} (named : Named f t s) (k : ι)
    (held : t.held k = true) (own : done.Named f done') :
    Named f (t.putllc k line done failed) (s.putllc k (line.map f) done' failed') := by
  unfold System.putllc
  rw [named.held,if_pos held,if_pos held]
  exact ⟨rfl,rfl,named.rendered,named.others k own⟩

end

-- A pointer within the ring's window in front of the end.
def Recent (n p : Nat) : Prop := p ≤ n ∧ n ≤ p+117

theorem Recent.named (one : Recent n p) (two : Recent n q) (same : place p = place q) : p = q :=
  place_same same one.1 two.1 one.2 two.2

theorem Recent.next (recent : Recent n p) (less : p < n) : Recent n (p+1) := ⟨less,Nat.le_succ_of_le recent.2⟩

-- The pointers an SPU has, and that of its chunk as long as it may give it back unchanged.
def Spu.Near (line : CacheLine Nat) : Spu Nat → Prop
  | .idle => True
  | .claiming _ => True
  | .scanning v => (Recent line.endTriangle v.chunkTriangle ∧ v.endTriangle ≤ line.endTriangle) ∧
    Recent line.endTriangle (line.chunkTriangle v.chunkToProcess)
  | .splitting v _ _ => (Recent line.endTriangle v.chunkTriangle ∧ v.endTriangle ≤ line.endTriangle) ∧
    Recent line.endTriangle (line.chunkTriangle v.chunkToProcess)
  | .storing v _ _ _ => (Recent line.endTriangle v.chunkTriangle ∧ v.endTriangle ≤ line.endTriangle) ∧
    Recent line.endTriangle (line.chunkTriangle v.chunkToProcess)
  | .rendering v _ _ => Recent line.endTriangle v.chunkTriangle ∧ v.chunkTriangle ≤ v.endTriangle ∧ v.endTriangle ≤ line.endTriangle
  | .finishing v => Recent line.endTriangle v.chunkTriangle
  | .releasing v _ => Recent line.endTriangle v.chunkTriangle

structure Near (t : System Nat ι) : Prop where
  idle : ∀ i n, t.line.chunkNext i = .chunk false n → Recent t.line.endTriangle (t.line.chunkTriangle i)
  spus : ∀ k, (t.spus k).Near t.line

theorem recent_tells {line : CacheLine Nat} (idle : ∀ i n, line.chunkNext i = .chunk false n → Recent line.endTriangle (line.chunkTriangle i)) :
    Tells place line :=
  ⟨fun i n here => (idle i n here).named ⟨Nat.le_refl _,Nat.le_add_right _ _⟩,
    fun i j n m one two => (idle i n one).named (idle j m two)⟩

-- Some tile is held by every chunk of the list.
theorem WellLinked.some_tile {line : CacheLine τ} (linked : line.WellLinked) (at_ : line.chunkNext i = .chunk b n) :
    line.Holds i (line.chunkStart i) := by
  have link : line.links i = some n := by simp [CacheLine.links,at_]
  exact (holds_listed at_).mpr ⟨Nat.le_refl _,OrderedCycle.Ordered.before_stop linked link⟩

-- What a store leaves idle is recent if what the SPU gives is.
theorem Rewrite.recent {line after : CacheLine Nat} (rewrite : Rewrite line after Before After Given)
    (idle : ∀ i n, line.chunkNext i = .chunk false n → Recent line.endTriangle (line.chunkTriangle i))
    (given : ∀ t p, Given t p → Recent line.endTriangle p) :
    ∀ i n, after.chunkNext i = .chunk false n → Recent after.endTriangle (after.chunkTriangle i) := by
  intro i n here
  rw [rewrite.ends]
  rcases rewrite.idle i n _ here (WellLinked.some_tile rewrite.linked here) with ⟨j,m,before,_,same⟩ | gave
  · rw [← same]
    exact idle j m before
  · exact given _ _ gave

theorem Spu.Near.frame {spu : Spu Nat} {line after : CacheLine Nat} (near : spu.Near line) (ends : after.endTriangle = line.endTriangle)
    (same : ∀ i n, spu.Marks i (.chunk true n) → after.chunkTriangle i = line.chunkTriangle i) : spu.Near after := by
  cases spu with
  | idle => trivial
  | claiming => trivial
  | scanning v => exact ⟨ends ▸ near.1,by rw [ends,same _ _ (.inl ⟨rfl,rfl⟩)]; exact near.2⟩
  | splitting v => exact ⟨ends ▸ near.1,by rw [ends,same _ _ (.inl ⟨rfl,rfl⟩)]; exact near.2⟩
  | storing v => exact ⟨ends ▸ near.1,by rw [ends,same _ _ (.inl ⟨rfl,rfl⟩)]; exact near.2⟩
  | rendering v => exact ⟨ends ▸ near.1,near.2.1,ends ▸ near.2.2⟩
  | finishing v => exact (congrArg (Recent · v.chunkTriangle) ends).mpr near
  | releasing v => exact (congrArg (Recent · v.chunkTriangle) ends).mpr near

section
variable {ι : Type} [DecidableEq ι] {t next : System Nat ι}

theorem Near.moved {spu : Spu Nat} (near : Near t) (k : ι) (line : next.line = t.line) (spus : next.spus = Function.update t.spus k spu)
    (own : spu.Near t.line) : Near next := by
  refine ⟨line ▸ near.idle,?_⟩
  intro k'
  rw [spus,line]
  by_cases isK : k' = k
  · subst isK
    rw [Function.update_self]
    exact own
  · rw [Function.update_of_ne isK]
    exact near.spus k'

theorem Near.stored {spu : Spu Nat} {after : CacheLine Nat} (near : Near t) (owned : Ownership t) (k : ι) (line : next.line = after)
    (spus : next.spus = Function.update t.spus k spu) (rewrite : Rewrite t.line after (t.spus k).Marks After Given)
    (given : ∀ x p, Given x p → Recent t.line.endTriangle p) (own : spu.Near after) : Near next := by
  refine ⟨line ▸ rewrite.recent near.idle given,?_⟩
  intro k'
  rw [spus,line]
  by_cases isK : k' = k
  · subst isK
    rw [Function.update_self]
    exact own
  · rw [Function.update_of_ne isK]
    refine (near.spus k').frame rewrite.ends ?_
    intro i n mark
    have free : ∀ m, ¬(t.spus k).Marks i m := fun m theirs => isK (owned.once k' k i _ m mark theirs)
    exact (rewrite.span i n free (owned.mine k' i _ mark)).2.2

-- A record within the window is in the ring under its name.
def Reads (t s : System Nat ι) : Prop :=
  ∀ p, p < t.line.endTriangle → t.line.endTriangle ≤ p+117 → s.ring (place p) = (t.ring p).map place

-- A step in the ring is the same step in the list of all records.
theorem Named.run {s : System Nat ι} (named : Named place t s) (near : Near t) (tiles : Tiles t) (reads : Reads t s) (k : ι)
    (allowed : CompleteSplits t (.run k)) :
    Named place (t.run k) (s.run k) ∧ Near (t.run k) ∧ (t.run k).line.endTriangle = t.line.endTriangle := by
  have own := named.spus k
  have stands := tiles.stands k
  have recent := near.spus k
  have first : (t.spus k).copy.isSome → t.held k = true := allowed.1
  unfold System.run
  cases at_ : t.spus k with
  | idle =>
    rw [at_] at own
    rw [show s.spus k = .idle from own]
    refine ⟨named.getllar k ?_,near.moved k rfl rfl trivial,rfl⟩
    rw [named.line]
    rfl
  | claiming cache =>
    rw [at_] at own first
    have held := first rfl
    have same := tiles.owned.copy k cache held (by rw [at_]; rfl)
    subst same
    rw [show s.spus k = .claiming (t.line.map place) from own]
    dsimp only
    rw [claimChunk_map (recent_tells near.idle)]
    cases ran : claimChunk t.line with
    | none => exact ⟨named.move k rfl,near.moved k rfl rfl trivial,rfl⟩
    | some pair =>
      obtain ⟨line,v⟩ := pair
      dsimp only [Option.map_some]
      refine ⟨named.stored k held rfl,?_⟩
      rw [putllc_held held]
      have claimed := claimChunk_claimed tiles.owned.linked ran
      have pointer := near.idle _ _ claimed.idle
      rw [claimed.before] at pointer
      have rewrite : Rewrite t.line line (t.spus k).Marks v.Marks (fun _ _ => False) := by
        rw [at_]
        exact claimed.rewrite
      refine ⟨near.stored tiles.owned k rfl rfl rewrite (fun _ _ none => none.elim) ?_,rewrite.ends⟩
      refine ⟨⟨?_,?_⟩,?_⟩
      · rw [rewrite.ends]
        exact pointer
      · rw [rewrite.ends,claimed.ends]
      · rw [rewrite.ends,claimed.triangle]
        exact pointer
  | scanning v =>
    rw [at_] at own stands recent
    have below := Nat.lt_of_lt_of_le stands.more stands.ends
    have chain := tiles.chain v.chunkTriangle below
    have read : s.ring (v.map place).chunkTriangle = (t.ring v.chunkTriangle).map place := reads _ below recent.1.1.2
    rw [show s.spus k = .scanning (v.map place) from own]
    dsimp only
    rw [read]
    have search : findFirstTriangleTile ((t.ring v.chunkTriangle).map place) (v.map place).chunkStart (v.map place).chunkEnd =
        findFirstTriangleTile (t.ring v.chunkTriangle) v.chunkStart v.chunkEnd := rfl
    rw [search]
    cases scan : findFirstTriangleTile (t.ring v.chunkTriangle) v.chunkStart v.chunkEnd with
    | some firstTile => exact ⟨named.move k rfl,near.moved k rfl rfl recent,rfl⟩
    | none =>
      dsimp only
      have onward := recent.1.1.next below
      rw [← chain] at onward
      have final : Recent t.line.endTriangle v.endTriangle := ⟨recent.1.2,by have := recent.1.1.2; have := stands.more; omega⟩
      have arrived : ((t.ring v.chunkTriangle).map place).next_triangle = (v.map place).endTriangle ↔
          (t.ring v.chunkTriangle).next_triangle = v.endTriangle :=
        ⟨onward.named final,congrArg place⟩
      by_cases last : (t.ring v.chunkTriangle).next_triangle = v.endTriangle
      · rw [if_pos last,if_pos (arrived.mpr last)]
        exact ⟨named.move k rfl,near.moved k rfl rfl onward,rfl⟩
      · rw [if_neg last,if_neg fun same => last (arrived.mp same)]
        exact ⟨named.move k rfl,near.moved k rfl rfl ⟨⟨onward,recent.1.2⟩,recent.2⟩,rfl⟩
  | splitting v triangle firstTile =>
    rw [at_] at own recent
    rw [show s.spus k = .splitting (v.map place) (triangle.map place) firstTile from own]
    refine ⟨named.getllar k ?_,near.moved k rfl rfl recent,rfl⟩
    rw [named.line]
    rfl
  | storing v triangle firstTile cache =>
    have sound : (t.spus k).SoundSplit (t.held k) := tiles.sound allowed
    rw [at_] at own stands recent first sound
    have held := first rfl
    have same := tiles.owned.copy k cache held (by rw [at_]; rfl)
    subst same
    have fits := tiles.owned.fits k
    rw [at_] at fits
    obtain ⟨spans,low,high⟩ := fits
    have counts := tiles.owned.counts (k := k) (v := v) (by rw [at_]; rfl) spans
    have below := Nat.lt_of_lt_of_le stands.more stands.ends
    have chain := tiles.chain v.chunkTriangle below
    rw [← stands.read] at chain
    have onward := recent.1.1.next below
    rw [← chain] at onward
    rw [show s.spus k = .storing (v.map place) (triangle.map place) firstTile (t.line.map place) from own]
    have split_ : splitChunk (v.map place) (triangle.map place).next_triangle firstTile (t.line.map place) =
        (splitChunk v triangle.next_triangle firstTile t.line).map place := splitChunk_map triangle.next_triangle firstTile
    dsimp only
    rw [split_]
    rcases splitChunk_cases triangle.next_triangle counts (sound held) low high with
      ⟨after,ran,rewrite⟩ | ⟨after,tailChunk,thisChunk,window,ran,cut,resliced⟩
    · rw [ran]
      refine ⟨named.stored k held rfl,?_⟩
      dsimp only
      rw [putllc_held held]
      refine ⟨near.stored tiles.owned k rfl rfl (by rw [at_]; exact rewrite) ?_ trivial,rewrite.ends⟩
      rintro x p ⟨rfl,_⟩
      exact recent.2
    · have given : ∀ x p, SplitGiven v triangle.next_triangle firstTile x p → Recent t.line.endTriangle p := by
        rintro x p (⟨rfl,_⟩ | ⟨rfl,_⟩)
        · exact recent.1.1
        · exact onward
      obtain ⟨rewrite,_⟩ := reslice_merged cut resliced
      rw [ran]
      dsimp only [Split.map]
      rw [merge_map (recent_tells (cut.recent near.idle given))]
      refine ⟨named.stored k held ⟨_,rfl,fun _ => rfl⟩,?_⟩
      rw [putllc_held held]
      have marks : (Spu.rendering (v.stored tailChunk thisChunk window) triangle window).Marks = holding thisChunk tailChunk := by
        funext i n
        simp [Spu.Marks,Locals.Marks,Locals.stored]
      refine ⟨near.stored tiles.owned k rfl rfl (by rw [at_]; exact rewrite) given ?_,rewrite.ends⟩
      rw [Spu.Near,rewrite.ends]
      exact ⟨recent.1.1,Nat.le_of_lt stands.more,recent.1.2⟩
  | rendering v triangle window =>
    rw [at_] at own stands recent
    obtain ⟨read,own,known⟩ := own
    rw [own]
    dsimp only
    have final : Recent t.line.endTriangle v.endTriangle := ⟨recent.2.2,Nat.le_trans recent.1.2 (Nat.add_le_add_right recent.2.1 _)⟩
    have arrived : (v.map place).chunkTriangle = (v.map place).endTriangle ↔ v.chunkTriangle = v.endTriangle :=
      ⟨recent.1.named final,congrArg place⟩
    by_cases last : v.chunkTriangle = v.endTriangle
    · rw [if_pos last,if_pos (arrived.mpr last)]
      exact ⟨named.move k rfl,near.moved k rfl rfl recent.1,rfl⟩
    · rw [if_neg last,if_neg fun same => last (arrived.mp same)]
      have less := Nat.lt_of_le_of_ne recent.2.1 last
      have below := Nat.lt_of_lt_of_le less recent.2.2
      have chain := tiles.chain v.chunkTriangle below
      rw [known last]
      rw [← stands.read less] at chain
      have onward := recent.1.next below
      rw [← chain] at onward
      have logged : s.rendered ++ [Rendered.mk (v.map place).chunkTriangle window.thisBlockStart (v.map place).chunkEnd] =
          (t.rendered ++ [Rendered.mk v.chunkTriangle window.thisBlockStart v.chunkEnd]).map (Rendered.map place) := by
        rw [named.rendered,List.map_append]
        rfl
      by_cases once : v.chunkStart ≠ unsigned window.realBlockStart
      · rw [if_pos once,if_pos (show (v.map place).chunkStart ≠ _ from once)]
        exact ⟨⟨named.line,named.held,logged,named.others k rfl⟩,near.moved k rfl rfl onward,rfl⟩
      · rw [if_neg once,if_neg (show ¬(v.map place).chunkStart ≠ _ from once)]
        refine ⟨⟨named.line,named.held,logged,named.others k ⟨_,rfl,?_⟩⟩,near.moved k rfl rfl ⟨onward,?_,recent.2.2⟩,rfl⟩
        · intro more
          have less' : triangle.next_triangle < v.endTriangle := Nat.lt_of_le_of_ne (by rw [chain]; exact less) more
          exact reads _ (Nat.lt_of_lt_of_le less' recent.2.2) onward.2
        · rw [chain]
          exact less
  | finishing v =>
    rw [at_] at own recent
    rw [show s.spus k = .finishing (v.map place) from own]
    refine ⟨named.getllar k ?_,near.moved k rfl rfl recent,rfl⟩
    rw [named.line]
    rfl
  | releasing v cache =>
    rw [at_] at own recent first
    have held := first rfl
    have same := tiles.owned.copy k cache held (by rw [at_]; rfl)
    subst same
    have fits := tiles.owned.fits k
    rw [at_] at fits
    rw [show s.spus k = .releasing (v.map place) (t.line.map place) from own]
    dsimp only
    have owns := tiles.owned.owns (k := k) (v := v) (by rw [at_]; rfl)
    have given : ∀ x p, (p = v.chunkTriangle ∧ t.line.Holds v.chunkToProcess x) → Recent t.line.endTriangle p := by
      rintro x p ⟨rfl,_⟩
      exact recent
    rw [releaseChunk_map,merge_map (recent_tells ((release_rewrite owns fits).recent near.idle given))]
    refine ⟨named.stored k held rfl,?_⟩
    rw [putllc_held held]
    have rewrite := release_merged owns fits
    exact ⟨near.stored tiles.owned k rfl rfl (by rw [at_]; exact rewrite) given trivial,rewrite.ends⟩

end

-- The records from a pointer on up to an end.
def linked (next_triangle : Nat → Nat) : Nat → Nat → Nat → List Nat
  | 0,_,_ => []
  | fuel+1,p,e => if p = e then [] else p :: linked next_triangle fuel (next_triangle p) e

-- As for the list of all records, with the links of the ring.
def rendersAlong (ring : Nat → TriangleRecord Nat) (v : Locals Nat) (firstTile : Nat) (line : CacheLine Nat) : List Nat :=
  if keepsWhole v firstTile line = true ∧ firstTile ≠ v.chunkStart then [v.chunkTriangle]
  else linked (fun p => (ring p).next_triangle) 118 v.chunkTriangle v.endTriangle

structure CompleteAlong (ring : Nat → TriangleRecord Nat) (v : Locals Nat) (firstTile : Nat) (line : CacheLine Nat) : Prop where
  tail : firstTile + NUMBER_OF_TILES_PER_CHUNK = v.chunkEnd →
    ∀ q ∈ rendersAlong ring v firstTile line, (ring q).covers v.chunkEnd = false
  clamp : v.chunkEnd < 15 → (allocate v line).1 = none ∧ ∀ q ∈ rendersAlong ring v firstTile line,
    ∀ t, t ≤ v.chunkEnd → (ring q).covers t = true → (v.chunkStart ≤ t ↔ t+15 ≤ 2*v.chunkEnd)

-- Every PUTLLC finds its reservation, and what a split leaves out is not covered.
def WholeSplits (s : System Nat ι) (k : ι) : Prop :=
  ((s.spus k).copy.isSome → s.held k = true) ∧ match s.spus k with
    | .storing v _ firstTile cache => CompleteAlong s.ring v firstTile cache
    | _ => True

-- The step in the list of all records that a step of the renderable is, if it is one there.
def Pipeline.inList (s : Pipeline ι) (t : System Nat ι) : PipelineAction ι → Option (Action Nat ι)
  | .run k => some (.run k)
  | .getTriangleBuffer => none
  | .abandon => none
  | .write covers => match s.producer with
    | .granted _ => some (.record t.line.endTriangle ⟨covers,t.line.endTriangle+1⟩)
    | _ => none
  | .publish => match s.producer with
    | .written _ => some (.advance (t.line.endTriangle+1))
    | _ => none

-- Both side by side.
def Pipeline.beside [DecidableEq ι] (p : Pipeline ι × System Nat ι) (a : PipelineAction ι) : Pipeline ι × System Nat ι :=
  (p.1.act a,(p.1.inList p.2 a).elim p.2 p.2.act)

-- The pipeline with its ring beside the list of all records that it stands for.
structure Unrolled (s : Pipeline ι) (r : TriangleRing) (t : System Nat ι) : Prop where
  ringed : Ringed s r
  tidy : ∀ k, (s.system.spus k).Tidy
  tiles : Tiles t
  named : Named place t s.system
  near : Near t
  reads : Reads t s.system
  length : t.line.endTriangle = r.records.length
  written : ∀ g, s.producer = .written g → s.system.ring g.offset = (t.ring t.line.endTriangle).map place ∧
    (t.ring t.line.endTriangle).next_triangle = t.line.endTriangle+1

section
variable {ι : Type} {s : Pipeline ι} {r : TriangleRing} {t : System Nat ι}

theorem linked_places (tiles : Tiles t) (reads : Reads t s.system) (fuel : Nat) (recent : Recent t.line.endTriangle p) (upto : p ≤ e)
    (below : e ≤ t.line.endTriangle) (enough : e - p ≤ fuel) :
    linked (fun p => (s.system.ring p).next_triangle) fuel (place p) (place e) = (List.range' p (e-p)).map place := by
  induction fuel generalizing p with
  | zero =>
    rw [Nat.le_zero.mp enough]
    rfl
  | succ fuel ih =>
    have final : Recent t.line.endTriangle e := ⟨below,Nat.le_trans recent.2 (Nat.add_le_add_right upto _)⟩
    unfold linked
    by_cases same : p = e
    · rw [if_pos (congrArg place same),same,Nat.sub_self]
      rfl
    · have less : p < t.line.endTriangle := Nat.lt_of_lt_of_le (Nat.lt_of_le_of_ne upto same) below
      have count : e - p = e - (p+1) + 1 := by omega
      have onward : (s.system.ring (place p)).next_triangle = place (p+1) := by
        rw [reads p less recent.2,← tiles.chain p less]
        rfl
      rw [if_neg fun equal => same (recent.named final equal),onward,ih (recent.next less) (by omega) (by omega),count,List.range'_succ]
      rfl

theorem allocate_slots (v : Locals Nat) (line : CacheLine Nat) : (allocate (v.map place) (line.map place)).1 = (allocate v line).1 := by
  rw [allocate_map]

theorem keepsWhole_map (v : Locals Nat) (firstTile : Nat) (line : CacheLine Nat) :
    keepsWhole (v.map place) firstTile (line.map place) = keepsWhole v firstTile line := by
  unfold keepsWhole headSlot
  rw [allocate_map]
  rfl

theorem WholeSplits.unrolled (valid : Unrolled s r t) (whole : WholeSplits s.system k) : CompleteSplits t (.run k) := by
  obtain ⟨first,whole⟩ := whole
  have own := valid.named.spus k
  have stands := valid.tiles.stands k
  have recent := valid.near.spus k
  refine ⟨?_,?_⟩
  · intro copied
    rw [← valid.named.held]
    apply first
    cases at_ : t.spus k with
    | claiming | storing | releasing =>
      rw [at_] at own
      rw [own]
      rfl
    | _ =>
      rw [at_] at copied
      cases copied
  · show (t.spus k).CompleteSplit t.ring
    cases at_ : t.spus k with
    | storing v triangle firstTile cache =>
      rw [at_] at own stands recent
      rw [show s.system.spus k = .storing (v.map place) (triangle.map place) firstTile (cache.map place) from own] at whole
      have along : rendersAlong s.system.ring (v.map place) firstTile (cache.map place) = (renders v firstTile cache).map place := by
        unfold rendersAlong renders
        rw [keepsWhole_map]
        by_cases once : keepsWhole v firstTile cache = true ∧ firstTile ≠ v.chunkStart
        · rw [if_pos once]
          exact if_pos once
        · rw [if_neg once]
          have window := recent.1.1.2
          have ends := recent.1.2
          exact (if_neg once).trans (linked_places valid.tiles valid.reads 118 recent.1.1 (Nat.le_of_lt stands.more) ends (by omega))
      have covers : ∀ q ∈ renders v firstTile cache, (s.system.ring (place q)).covers = (t.ring q).covers := by
        intro q member
        have range : v.chunkTriangle ≤ q ∧ q < v.endTriangle := by
          unfold renders at member
          split at member
          · rw [List.mem_singleton.mp member]
            exact ⟨Nat.le_refl _,stands.more⟩
          · have inside := List.mem_range'_1.mp member
            omega
        rw [valid.reads q (Nat.lt_of_lt_of_le range.2 recent.1.2) (Nat.le_trans recent.1.1.2 (Nat.add_le_add_right range.1 _))]
        rfl
      have listed : ∀ q ∈ renders v firstTile cache, place q ∈ rendersAlong s.system.ring (v.map place) firstTile (cache.map place) := by
        intro q member
        rw [along]
        exact List.mem_map_of_mem member
      refine ⟨fun last q member => ?_,fun cramped => ⟨?_,fun q member x upto covered => ?_⟩⟩
      · rw [← covers q member]
        exact whole.tail last _ (listed q member)
      · rw [← allocate_slots]
        exact (whole.clamp cramped).1
      · rw [← covers q member] at covered
        exact (whole.clamp cramped).2 _ (listed q member) x upto covered
    | _ => trivial

theorem WholeSplits.first (whole : WholeSplits s.system k) : FirstTries s.system k := by
  intro stores
  apply whole.1
  cases at_ : s.system.spus k with
  | claiming | storing | releasing => rfl
  | _ =>
    rw [at_] at stores
    cases stores

-- The ring's count of what a slot has passed is its pointer in the list.
theorem Unrolled.passed (valid : Unrolled s r t) (used : t.line.chunkNext i ≠ .free)
    (recent : Recent t.line.endTriangle (t.line.chunkTriangle i)) : t.line.chunkTriangle i = r.passed i := by
  have line := valid.named.line
  obtain ⟨at_,upto,near⟩ := valid.ringed.pointer (i := i) (by rw [line]; exact used)
  rw [line] at at_
  rw [← valid.length] at upto near
  exact recent.named ⟨upto,near⟩ at_

-- And an SPU's place in the ring is its pointer in the list.
theorem Unrolled.behind (valid : Unrolled s r t) {v : Locals Nat} (behind : Behind r.records.length r.passed (v.map place) p e)
    (used : t.line.chunkNext v.chunkToProcess ≠ .free) (recent : Recent t.line.endTriangle v.chunkTriangle) :
    r.passed v.chunkToProcess ≤ v.chunkTriangle := by
  have line := valid.named.line
  obtain ⟨_,_,near⟩ := valid.ringed.pointer (i := v.chunkToProcess) (by rw [line]; exact used)
  have low : r.passed v.chunkToProcess ≤ p := behind.from_
  have upto := behind.upto
  have known := behind.known
  have window : Recent t.line.endTriangle p := by
    rw [valid.length]
    exact ⟨by omega,by omega⟩
  rw [recent.named window behind.pointer]
  exact low

-- A written record is granted only where every pointer has left room for it.
theorem Unrolled.roomy (valid : Unrolled s r t) (written : s.producer = .written g) :
    (∀ i n, t.line.chunkNext i = .chunk false n → t.line.endTriangle ≤ t.line.chunkTriangle i + 116) ∧
    ∀ k (v : Locals Nat), (t.spus k).Marks = v.Marks → (Recent t.line.endTriangle v.chunkTriangle →
        (∃ p e, Behind r.records.length r.passed (v.map place) p e) → t.line.endTriangle ≤ v.chunkTriangle + 116) ∧
      (Recent t.line.endTriangle (t.line.chunkTriangle v.chunkToProcess) →
        t.line.endTriangle ≤ t.line.chunkTriangle v.chunkToProcess + 116) := by
  have line := valid.named.line
  have grant : r.producer.grant = some g := by
    rw [valid.ringed.producer,written]
    rfl
  have room (i : Slot) (used : t.line.chunkNext i ≠ .free) : t.line.endTriangle ≤ r.passed i + 116 := by
    rw [valid.length]
    apply (valid.ringed.ring.granted g grant).2 i
    rw [valid.ringed.line,line]
    exact used
  refine ⟨?_,?_⟩
  · intro i n idle
    have used : t.line.chunkNext i ≠ .free := by
      rw [idle]
      exact ChunkNext.chunk_used
    rw [valid.passed used (valid.near.idle i n idle)]
    exact room i used
  · intro k v marks
    have used : t.line.chunkNext v.chunkToProcess ≠ .free := by
      rw [valid.tiles.owned.mine k v.chunkToProcess (.chunk true v.chunkNext) (by rw [marks]; exact .inl ⟨rfl,rfl⟩)]
      exact ChunkNext.chunk_used
    refine ⟨fun recent known => ?_,fun recent => ?_⟩
    · obtain ⟨p,e,behind⟩ := known
      exact Nat.le_trans (room _ used) (Nat.add_le_add_right (valid.behind behind used recent) _)
    · rw [valid.passed used recent]
      exact room _ used

theorem Recent.later (recent : Recent n p) (room : n ≤ p+116) : Recent (n+1) p := ⟨Nat.le_succ_of_le recent.1,Nat.succ_le_succ room⟩

variable [DecidableEq ι]

theorem Unrolled.published (valid : Unrolled s r t) (written : s.producer = .written g) :
    Near (t.act (.advance (t.line.endTriangle+1))) := by
  obtain ⟨idle,spus⟩ := valid.roomy written
  refine ⟨fun i n here => (valid.near.idle i n here).later (idle i n here),?_⟩
  intro k
  have near := valid.near.spus k
  have own := valid.named.spus k
  have follows := valid.ringed.follows k
  show (t.spus k).Near _
  cases at_ : t.spus k with
  | idle => trivial
  | claiming => trivial
  | scanning v =>
    rw [at_] at near own
    rw [show s.system.spus k = .scanning (v.map place) from own] at follows
    obtain ⟨p,e,behind,_⟩ := follows
    obtain ⟨pointer,chunk⟩ := spus k v (by rw [at_]; rfl)
    exact ⟨⟨near.1.1.later (pointer near.1.1 ⟨p,e,behind⟩),Nat.le_succ_of_le near.1.2⟩,near.2.later (chunk near.2)⟩
  | splitting v triangle firstTile =>
    rw [at_] at near own
    rw [show s.system.spus k = .splitting (v.map place) (triangle.map place) firstTile from own] at follows
    obtain ⟨p,e,behind,_⟩ := follows
    obtain ⟨pointer,chunk⟩ := spus k v (by rw [at_]; rfl)
    exact ⟨⟨near.1.1.later (pointer near.1.1 ⟨p,e,behind⟩),Nat.le_succ_of_le near.1.2⟩,near.2.later (chunk near.2)⟩
  | storing v triangle firstTile cache =>
    rw [at_] at near own
    rw [show s.system.spus k = .storing (v.map place) (triangle.map place) firstTile (cache.map place) from own] at follows
    obtain ⟨p,e,behind,_⟩ := follows
    obtain ⟨pointer,chunk⟩ := spus k v (by rw [at_]; rfl)
    exact ⟨⟨near.1.1.later (pointer near.1.1 ⟨p,e,behind⟩),Nat.le_succ_of_le near.1.2⟩,near.2.later (chunk near.2)⟩
  | rendering v triangle window =>
    rw [at_] at near own
    obtain ⟨read,same,_⟩ := own
    rw [same] at follows
    obtain ⟨p,e,behind,_⟩ := follows
    obtain ⟨pointer,_⟩ := spus k v (by rw [at_]; rfl)
    exact ⟨near.1.later (pointer near.1 ⟨p,e,behind⟩),near.2.1,Nat.le_succ_of_le near.2.2⟩
  | finishing v =>
    rw [at_] at near own
    rw [show s.system.spus k = .finishing (v.map place) from own] at follows
    obtain ⟨pointer,_⟩ := spus k v (by rw [at_]; rfl)
    exact near.later (pointer near follows)
  | releasing v cache =>
    rw [at_] at near own
    rw [show s.system.spus k = .releasing (v.map place) (cache.map place) from own] at follows
    obtain ⟨pointer,_⟩ := spus k v (by rw [at_]; rfl)
    exact near.later (pointer near follows)

theorem start_unrolled (ring : Nat → TriangleRecord Nat) :
    Unrolled (.start ring) (.start fun p => (ring p).next_triangle) (System.start (ι := ι) 0 ring) := by
  refine ⟨start_ringed ring,fun _ => trivial,reached_tiles (.start ⟨ring,rfl⟩),⟨rfl,rfl,rfl,fun _ => rfl⟩,⟨?_,fun _ => trivial⟩,?_,rfl,?_⟩
  · intro i n _
    exact ⟨Nat.le_refl _,Nat.zero_le _⟩
  · intro p less
    exact absurd less (Nat.not_lt_zero p)
  · intro g none
    cases none

omit [DecidableEq ι] in
-- What the producer does outside of the line and the ring.
theorem Unrolled.still {later : Pipeline ι} (valid : Unrolled s r t) (ringed : Ringed later r') (system : later.system = s.system)
    (records : r'.records = r.records) (written : ∀ g, later.producer = .written g → s.producer = .written g) : Unrolled later r' t := by
  refine ⟨ringed,?_,valid.tiles,?_,valid.near,?_,?_,?_⟩
  · rw [system]
    exact valid.tidy
  · rw [system]
    exact valid.named
  · rw [system]
    exact valid.reads
  · rw [records]
    exact valid.length
  · intro g at_
    rw [system]
    exact valid.written g (written g at_)

omit [DecidableEq ι] in
theorem Unrolled.offset (valid : Unrolled s r t) (grant : s.producer.grant = some g) :
    g = ⟨place t.line.endTriangle,decide (t.line.endTriangle % 118 = 117)⟩ := by
  rw [valid.length]
  exact (valid.ringed.ring.granted g (by rw [valid.ringed.producer]; exact grant)).1

omit [DecidableEq ι] in
theorem Unrolled.pointer (valid : Unrolled s r t) (written : s.producer = .written g) :
    g.nextPointer = place (t.line.endTriangle+1) := by
  rw [valid.offset (g := g) (by rw [written]; rfl)]
  exact nextPointer_place _

theorem Unrolled.recorded (valid : Unrolled s r t) (granted : s.producer = .granted g) (covers : Nat → Bool)
    (ringed : Ringed ⟨s.system.act (.record g.offset ⟨covers,g.nextPointer⟩),.written g⟩ r') (records : r'.records = r.records) :
    Unrolled ⟨s.system.act (.record g.offset ⟨covers,g.nextPointer⟩),.written g⟩ r'
      (t.act (.record t.line.endTriangle ⟨covers,t.line.endTriangle+1⟩)) := by
  have offset := valid.offset (g := g) (by rw [granted]; rfl)
  refine ⟨ringed,valid.tidy,valid.tiles.act _ ⟨Nat.le_refl _,trivial⟩,
    ⟨valid.named.line,valid.named.held,valid.named.rendered,valid.named.spus⟩,⟨valid.near.idle,valid.near.spus⟩,?_,?_,?_⟩
  · intro p less window
    have apart : place p ≠ g.offset := by
      rw [offset]
      exact place_apart less window
    refine (Function.update_of_ne apart _ _).trans ((valid.reads p less window).trans ?_)
    exact congrArg (TriangleRecord.map place) (Function.update_of_ne (Nat.ne_of_lt less) _ _).symm
  · rw [records]
    exact valid.length
  · rintro g' same
    cases same
    have next : g.nextPointer = place (t.line.endTriangle+1) := by
      rw [offset]
      exact nextPointer_place _
    have own : (t.act (.record t.line.endTriangle ⟨covers,t.line.endTriangle+1⟩)).ring t.line.endTriangle =
        ⟨covers,t.line.endTriangle+1⟩ := Function.update_self _ _ _
    have own' : (s.system.act (.record g.offset ⟨covers,g.nextPointer⟩)).ring g.offset = ⟨covers,g.nextPointer⟩ :=
      Function.update_self _ _ _
    refine ⟨own'.trans ?_,congrArg TriangleRecord.next_triangle own⟩
    rw [next]
    exact (congrArg (TriangleRecord.map place) own).symm

theorem Unrolled.advanced (valid : Unrolled s r t) (written : s.producer = .written g)
    (ringed : Ringed ⟨s.system.act (.advance g.nextPointer),.idle⟩ r') (records : r'.records.length = r.records.length+1) :
    Unrolled ⟨s.system.act (.advance g.nextPointer),.idle⟩ r' (t.act (.advance (t.line.endTriangle+1))) := by
  obtain ⟨read,next⟩ := valid.written g written
  have offset := valid.offset (g := g) (by rw [written]; rfl)
  have pointer := valid.pointer written
  have line : {s.system.line with endTriangle := g.nextPointer} = CacheLine.map place {t.line with endTriangle := t.line.endTriangle+1} := by
    rw [valid.named.line,pointer]
    rfl
  refine ⟨ringed,valid.tidy,valid.tiles.act _ ⟨⟨rfl,next⟩,trivial⟩,⟨line,rfl,valid.named.rendered,valid.named.spus⟩,
    valid.published written,?_,?_,?_⟩
  · intro p less window
    rcases Nat.lt_succ_iff_lt_or_eq.mp less with before | last
    · exact valid.reads p before (Nat.le_of_succ_le window)
    · rw [last]
      rw [offset] at read
      exact read
  · rw [records]
    exact congrArg Nat.succ valid.length
  · intro g' none
    cases none

omit [DecidableEq ι] in
theorem WholeSplits.spare (valid : Unrolled s r t) (whole : s.allowed WholeSplits a) : s.allowed FirstTries a ∧ s.allowed SpareSplits a := by
  cases a with
  | run k => exact ⟨WholeSplits.first whole,tidy_spare valid.tidy k⟩
  | _ => exact ⟨whole,whole⟩

theorem Unrolled.run (valid : Unrolled s r t) (k : ι) (whole : WholeSplits s.system k) :
    CompleteSplits t (.run k) ∧ ∃ r', Unrolled (s.act (.run k)) r' (t.run k) := by
  obtain ⟨firsts,spares⟩ := WholeSplits.spare (a := .run k) valid whole
  have tidy := tidy_act valid.tidy valid.ringed (.run k) firsts
  obtain ⟨r',ringed,moved⟩ := valid.ringed.act (.run k) spares
  have records : r'.records = r.records := by
    rcases moved with onward | ⟨_,other,_⟩
    · exact onward.records
    · cases other
  have complete := WholeSplits.unrolled valid whole
  obtain ⟨named,near,ends⟩ := valid.named.run valid.near valid.tiles valid.reads k complete
  refine ⟨complete,r',ringed,tidy,valid.tiles.run k complete,named,near,?_,?_,?_⟩
  · show Reads (t.run k) (s.system.run k)
    unfold Reads
    rw [ends,System.run_ring,System.run_ring]
    exact valid.reads
  · rw [ends,records]
    exact valid.length
  · show ∀ g, s.producer = .written g → (s.system.run k).ring g.offset = _ ∧ _
    rw [ends,System.run_ring,System.run_ring]
    exact valid.written

-- The producer's steps that leave the line and the ring alone.
theorem Unrolled.asked (valid : Unrolled s r t) {a : PipelineAction ι} (asks : a = .getTriangleBuffer ∨ a = .abandon)
    (allowed : s.allowed WholeSplits a) : ∃ r', Unrolled (s.act a) r' t := by
  obtain ⟨r',ringed,moved⟩ := valid.ringed.act a (WholeSplits.spare valid allowed).2
  have records : r'.records = r.records := by
    rcases moved with onward | ⟨_,rfl,_⟩
    · exact onward.records
    · rcases asks with other | other <;> cases other
  rcases asks with rfl | rfl
  · refine ⟨r',valid.still ringed ?_ records ?_⟩
    · unfold Pipeline.act
      dsimp only
      split <;> rfl
    · unfold Pipeline.act
      dsimp only
      intro g at_
      split at at_
      · cases at_
      · exact at_
  · exact ⟨r',valid.still ringed rfl records (fun g none => by cases none)⟩

theorem write_granted {s : Pipeline ι} (granted : s.producer = .granted g) (covers : Nat → Bool) :
    s.act (.write covers) = ⟨s.system.act (.record g.offset ⟨covers,g.nextPointer⟩),.written g⟩ := by
  simp only [Pipeline.act,granted]

theorem publish_written {s : Pipeline ι} (written : s.producer = .written g) :
    s.act .publish = ⟨s.system.act (.advance g.nextPointer),.idle⟩ := by
  simp only [Pipeline.act,written]

theorem Unrolled.writes (valid : Unrolled s r t) (granted : s.producer = .granted g) (covers : Nat → Bool) :
    ∃ r', Unrolled (s.act (.write covers)) r' (t.act (.record t.line.endTriangle ⟨covers,t.line.endTriangle+1⟩)) := by
  obtain ⟨r',ringed,moved⟩ := valid.ringed.act (.write covers) trivial
  have records : r'.records = r.records := by
    rcases moved with onward | ⟨_,other,_⟩
    · exact onward.records
    · cases other
  rw [write_granted granted] at ringed ⊢
  exact ⟨r',valid.recorded granted covers ringed records⟩

theorem Unrolled.publishes (valid : Unrolled s r t) (written : s.producer = .written g) :
    ∃ r', Unrolled (s.act .publish) r' (t.act (.advance (t.line.endTriangle+1))) := by
  obtain ⟨r',ringed,moved⟩ := valid.ringed.act .publish trivial
  rw [publish_written written] at ringed ⊢
  have longer : r'.records.length = r.records.length+1 := by
    rcases moved with onward | ⟨g',_,_,published⟩
    · -- The line's new end is not where the old records end.
      have ends : g.nextPointer = place r'.records.length := ringed.ends
      rw [onward.records,← valid.length,valid.pointer written] at ends
      exact absurd ends.symm (place_apart (Nat.lt_succ_self _) (by omega))
    · rw [published.records,List.length_append]
      rfl
  exact ⟨r',valid.advanced written ringed longer⟩

theorem Unrolled.act (valid : Unrolled s r t) (a : PipelineAction ι) (allowed : s.allowed WholeSplits a) :
    (∃ r', Unrolled (s.act a) r' (Pipeline.beside (s,t) a).2) ∧ ∀ b ∈ s.inList t a, CompleteSplits t b := by
  unfold Pipeline.beside
  cases a with
  | run k =>
    obtain ⟨complete,r',valid'⟩ := valid.run k allowed
    exact ⟨⟨r',valid'⟩,fun b taken => Option.some.inj taken ▸ complete⟩
  | getTriangleBuffer => exact ⟨valid.asked (.inl rfl) allowed,fun b taken => absurd taken (Option.not_mem_none b)⟩
  | abandon => exact ⟨valid.asked (.inr rfl) allowed,fun b taken => absurd taken (Option.not_mem_none b)⟩
  | write covers =>
    cases at_ : s.producer with
    | granted g =>
      have taken : s.inList t (.write covers) = some (.record t.line.endTriangle ⟨covers,t.line.endTriangle+1⟩) := by
        simp only [Pipeline.inList,at_]
      rw [taken]
      exact ⟨valid.writes at_ covers,fun b same => Option.some.inj same ▸ ⟨Nat.le_refl _,trivial⟩⟩
    | _ =>
      have stepped : s.act (.write covers) = s := by simp only [Pipeline.act,at_]
      have taken : s.inList t (.write covers) = none := by simp only [Pipeline.inList,at_]
      rw [stepped,taken]
      exact ⟨⟨r,valid⟩,fun b taken => absurd taken (Option.not_mem_none b)⟩
  | publish =>
    cases at_ : s.producer with
    | written g =>
      have taken : s.inList t .publish = some (.advance (t.line.endTriangle+1)) := by simp only [Pipeline.inList,at_]
      rw [taken]
      exact ⟨valid.publishes at_,fun b same => Option.some.inj same ▸ ⟨⟨rfl,(valid.written g at_).2⟩,trivial⟩⟩
    | _ =>
      have stepped : s.act .publish = s := by simp only [Pipeline.act,at_]
      have taken : s.inList t .publish = none := by simp only [Pipeline.inList,at_]
      rw [stepped,taken]
      exact ⟨⟨r,valid⟩,fun b taken => absurd taken (Option.not_mem_none b)⟩

end

-- The ring is as good as an endless list: beside every run of the renderable with its 118 places there goes, step by step,
-- a run with all records in a row, with the same lines, claims and draws, each pointer standing for the place of its record.
-- Of the records that some pointer has still in front of it no two have one place, and the ring has each of them there.
theorem ring_unrolled {ι : Type} [DecidableEq ι] {ring : Nat → TriangleRecord Nat} {actions : List (PipelineAction ι)}
    (admits : Runs.Admits Pipeline.act (Pipeline.allowed WholeSplits) (.start ring) actions) :
    let p := actions.foldl Pipeline.beside (.start ring,System.start 0 ring)
    p.1 = actions.foldl Pipeline.act (.start ring) ∧
    Runs.Admits Pipeline.beside (fun p a => ∀ b ∈ p.1.inList p.2 a, CompleteSplits p.2 b) (.start ring,System.start 0 ring) actions ∧
    Reached CompleteSplits 0 p.2 ∧ Named place p.2 p.1.system ∧ Near p.2 ∧ Reads p.2 p.1.system ∧
    ∀ a b, Recent p.2.line.endTriangle a → Recent p.2.line.endTriangle b → place a = place b → a = b := by
  intro p
  have start : (∃ r, Unrolled (Pipeline.start ring) r (System.start (ι := ι) 0 ring)) ∧ Reached CompleteSplits 0 (System.start (ι := ι) 0 ring) :=
    ⟨⟨_,start_unrolled ring⟩,.start ⟨ring,rfl⟩⟩
  have kept (p : Pipeline ι × System Nat ι) (a : PipelineAction ι) (known : (∃ r, Unrolled p.1 r p.2) ∧ Reached CompleteSplits 0 p.2)
      (allowed : p.1.allowed WholeSplits a) : (∃ r, Unrolled (Pipeline.beside p a).1 r (Pipeline.beside p a).2) ∧
        Reached CompleteSplits 0 (Pipeline.beside p a).2 := by
    obtain ⟨⟨r,valid⟩,reached⟩ := known
    obtain ⟨unrolled,complete⟩ := valid.act a allowed
    refine ⟨unrolled,?_⟩
    unfold Pipeline.beside
    cases taken : p.1.inList p.2 a with
    | none => exact reached
    | some b => exact reached.step ⟨b,complete b taken,rfl⟩
  have first (p : Pipeline ι × System Nat ι) (a : PipelineAction ι) : (Pipeline.beside p a).1 = p.1.act a := rfl
  obtain ⟨same,both⟩ := Runs.Admits.beside first (.start ring,System.start 0 ring) admits
  obtain ⟨⟨r,valid⟩,reached⟩ := both.kept kept start
  have complete (p : Pipeline ι × System Nat ι) (a : PipelineAction ι) (known : (∃ r, Unrolled p.1 r p.2) ∧ Reached CompleteSplits 0 p.2)
      (allowed : p.1.allowed WholeSplits a) : ∀ b ∈ p.1.inList p.2 a, CompleteSplits p.2 b := by
    obtain ⟨⟨_,valid⟩,_⟩ := known
    exact (valid.act a allowed).2
  exact ⟨same,both.under kept complete start,reached,valid.named,valid.near,valid.reads,fun a b one two => one.named two⟩

instance (ring : Nat → TriangleRecord Nat) (v : Locals Nat) (firstTile : Nat) (line : CacheLine Nat) :
    Decidable (CompleteAlong ring v firstTile line) :=
  decidable_of_iff
    ((firstTile + NUMBER_OF_TILES_PER_CHUNK = v.chunkEnd →
        ∀ q ∈ rendersAlong ring v firstTile line, (ring q).covers v.chunkEnd = false) ∧
      (v.chunkEnd < 15 → (allocate v line).1 = none ∧ ∀ q ∈ rendersAlong ring v firstTile line,
        ∀ t, t ≤ v.chunkEnd → (ring q).covers t = true → (v.chunkStart ≤ t ↔ t+15 ≤ 2*v.chunkEnd)))
    ⟨fun ⟨tail,clamp⟩ => ⟨tail,clamp⟩,fun complete => ⟨complete.tail,complete.clamp⟩⟩

instance (s : System Nat ι) (k : ι) : Decidable (WholeSplits s k) :=
  @instDecidableAnd _ _ _ (match s.spus k with
    | .storing v _ firstTile cache => inferInstanceAs (Decidable (CompleteAlong s.ring v firstTile cache))
    | .idle => .isTrue trivial
    | .claiming _ => .isTrue trivial
    | .scanning _ => .isTrue trivial
    | .splitting _ _ _ => .isTrue trivial
    | .rendering _ _ _ => .isTrue trivial
    | .finishing _ => .isTrue trivial
    | .releasing _ _ => .isTrue trivial)

instance (s : Pipeline ι) : (a : PipelineAction ι) → Decidable (s.allowed WholeSplits a)
  | .run k => inferInstanceAs (Decidable (WholeSplits s.system k))
  | .getTriangleBuffer => inferInstanceAs (Decidable (s.producer.grant = none))
  | .abandon => inferInstanceAs (Decidable (s.producer.writing = false))
  | .write _ => .isTrue trivial
  | .publish => .isTrue trivial

theorem ring_unrolled_sync :
    let p := syncRun.foldl Pipeline.beside (syncStart,System.start 0 fun _ => ⟨fun _ => false,0⟩)
    p.1 = syncRun.foldl Pipeline.act syncStart ∧ p.2.line.endTriangle = 1 ∧ Named place p.2 p.1.system := by
  have admits : Runs.Admits Pipeline.act (Pipeline.allowed WholeSplits) syncStart syncRun := by decide +kernel
  obtain ⟨same,_,_,named,_⟩ := ring_unrolled admits
  exact ⟨same,by decide +kernel,named⟩

end Spugl
