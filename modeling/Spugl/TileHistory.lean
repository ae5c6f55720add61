import Spugl.ChunkOwnership

namespace Spugl

-- Triangles are named by their place in the next_triangle chain. That the ring
-- never reuses a place still in use is a separate matter (TriangleRing).
def history (ring : Nat → TriangleRecord Nat) (log : List (Rendered Nat)) (t : Nat) : List Nat :=
  (log.filter fun r => decide (CallRange r.firstTile r.chunkEnd t) && (ring r.chunkTriangle).covers t).map Rendered.chunkTriangle

def preceding (ring : Nat → TriangleRecord Nat) (t p : Nat) : List Nat :=
  (List.range p).filter fun q => (ring q).covers t

theorem preceding_succ (ring : Nat → TriangleRecord Nat) (t p : Nat) :
    preceding ring t (p+1) = preceding ring t p ++ if (ring p).covers t then [p] else [] := by
  unfold preceding
  rw [List.range_succ,List.filter_append]
  cases covered : (ring p).covers t <;> simp [covered]

theorem history_append (ring : Nat → TriangleRecord Nat) (log : List (Rendered Nat)) (r : Rendered Nat) (t : Nat) :
    history ring (log ++ [r]) t = history ring log t ++
      if CallRange r.firstTile r.chunkEnd t ∧ (ring r.chunkTriangle).covers t = true then [r.chunkTriangle] else [] := by
  unfold history
  rw [List.filter_append,List.map_append]
  by_cases inside : CallRange r.firstTile r.chunkEnd t ∧ (ring r.chunkTriangle).covers t = true
  · rw [if_pos inside]; simp [inside]
  · rw [if_neg inside]; simpa using inside

-- Tile t is at triangle p: it has had what precedes p, once each and in order.
structure At (ring : Nat → TriangleRecord Nat) (log : List (Rendered Nat)) (limit t p : Nat) : Prop where
  upto : p ≤ limit
  done : history ring log t = preceding ring t p

theorem At.skip (at_ : At ring log limit t p) (below : p < limit) (uncovered : (ring p).covers t = false) :
    At ring log limit t (p+1) := by
  refine ⟨below,?_⟩
  rw [preceding_succ,uncovered,at_.done]
  simp

-- Later records beyond the limit, a later limit, and chunks elsewhere.
theorem At.frame {ring ring' : Nat → TriangleRecord Nat} {log log' : List (Rendered Nat)}
    (at_ : At ring log limit t p) (later : limit ≤ limit') (kept : ∀ q, q < limit → ring' q = ring q)
    (same : history ring' log' t = history ring log t) : At ring' log' limit' t p := by
  refine ⟨Nat.le_trans at_.upto later,?_⟩
  rw [same,at_.done]
  unfold preceding
  refine List.filter_congr ?_
  intro q member
  rw [kept q (Nat.lt_of_lt_of_le (List.mem_range.mp member) at_.upto)]

theorem history_frame {ring ring' : Nat → TriangleRecord Nat} {log : List (Rendered Nat)}
    (recorded : ∀ r ∈ log, r.chunkTriangle < limit) (kept : ∀ q, q < limit → ring' q = ring q) (t : Nat) :
    history ring' log t = history ring log t := by
  unfold history
  congr 1
  refine List.filter_congr ?_
  intro r member
  rw [kept _ (recorded r member)]

-- The triangles a resliced chunk will be rendered with before it is released.
def renders (v : Locals Nat) (firstTile : Nat) (line : CacheLine Nat) : List Nat :=
  if keepsWhole v firstTile line = true ∧ firstTile ≠ v.chunkStart then [v.chunkTriangle]
  else List.range' v.chunkTriangle (v.endTriangle - v.chunkTriangle)

-- When the rendered range serves the whole chunk: its last tile is not the one
-- that `nextBlockStart < chunkEnd` leaves without a tail, or nothing covers it;
-- and a chunk before tile 15 is kept whole, and of what its triangles cover the call
-- from thisBlockStart = chunkEnd-15 is run over the tiles of the chunk, and these only.
structure Complete (ring : Nat → TriangleRecord Nat) (v : Locals Nat) (firstTile : Nat) (line : CacheLine Nat) : Prop where
  tail : firstTile + NUMBER_OF_TILES_PER_CHUNK = v.chunkEnd →
    ∀ q ∈ renders v firstTile line, (ring q).covers v.chunkEnd = false
  clamp : v.chunkEnd < 15 → (allocate v line).1 = none ∧
    ∀ q ∈ renders v firstTile line, ∀ t, t ≤ v.chunkEnd → (ring q).covers t = true → (v.chunkStart ≤ t ↔ t+15 ≤ 2*v.chunkEnd)

section
variable {ι : Type}

-- Every PUTLLC finds its reservation, and the producer only appends.
def FirstTry (s : System Nat ι) : Action Nat ι → Prop
  | .run k => ((s.spus k).copy.isSome → s.held k = true)
  | .record p _ => s.line.endTriangle ≤ p
  | .advance endTriangle => endTriangle = s.line.endTriangle+1 ∧
    (s.ring s.line.endTriangle).next_triangle = endTriangle

def Spu.CompleteSplit (ring : Nat → TriangleRecord Nat) : Spu Nat → Prop
  | .storing v _ firstTile cache => Complete ring v firstTile cache
  | _ => True

def CompleteSplits (s : System Nat ι) (a : Action Nat ι) : Prop :=
  FirstTry s a ∧ match a with
    | .run k => (s.spus k).CompleteSplit s.ring
    | _ => True

end

-- Where each SPU's chunk stands, tile by tile.
structure Scanned (ring : Nat → TriangleRecord Nat) (log : List (Rendered Nat)) (line : CacheLine Nat) (v : Locals Nat) : Prop where
  more : v.chunkTriangle < v.endTriangle
  ends : v.endTriangle ≤ line.endTriangle
  done : ∀ t, line.Holds v.chunkToProcess t → At ring log line.endTriangle t v.chunkTriangle
  back : ∀ t, line.Holds v.chunkToProcess t →
    At ring log line.endTriangle t (line.chunkTriangle v.chunkToProcess)

structure Found (ring : Nat → TriangleRecord Nat) (log : List (Rendered Nat)) (line : CacheLine Nat) (v : Locals Nat)
    (triangle : TriangleRecord Nat) (firstTile : Nat) : Prop extends Scanned ring log line v where
  read : triangle = ring v.chunkTriangle
  missed : ∀ t, v.chunkStart ≤ t → t < firstTile → triangle.covers t = false
  spare : v.freeChunk = v.claimed

structure Rendering (ring : Nat → TriangleRecord Nat) (log : List (Rendered Nat)) (line : CacheLine Nat) (v : Locals Nat)
    (triangle : TriangleRecord Nat) (window : Window) : Prop where
  upto : v.chunkTriangle ≤ v.endTriangle
  ends : v.endTriangle ≤ line.endTriangle
  read : v.chunkTriangle < v.endTriangle → triangle = ring v.chunkTriangle
  done : ∀ t, line.Holds v.chunkToProcess t → At ring log line.endTriangle t v.chunkTriangle
  strays : ∀ t : Nat, (line.Holds v.chunkToProcess t ↔ CallRange window.thisBlockStart v.chunkEnd t) ∨
    ∀ q, v.chunkTriangle ≤ q → q < v.endTriangle →
      (q = v.chunkTriangle ∨ v.chunkStart = unsigned window.realBlockStart) → (ring q).covers t = false

def Finished (ring : Nat → TriangleRecord Nat) (log : List (Rendered Nat)) (line : CacheLine Nat) (v : Locals Nat) : Prop :=
  ∀ t, line.Holds v.chunkToProcess t → At ring log line.endTriangle t v.chunkTriangle

def Spu.Stands (ring : Nat → TriangleRecord Nat) (log : List (Rendered Nat)) (line : CacheLine Nat) : Spu Nat → Prop
  | .idle => True
  | .claiming _ => True
  | .scanning v => Scanned ring log line v
  | .splitting v triangle firstTile => Found ring log line v triangle firstTile
  | .storing v triangle firstTile _ => Found ring log line v triangle firstTile
  | .rendering v triangle window => Rendering ring log line v triangle window
  | .finishing v => Finished ring log line v
  | .releasing v _ => Finished ring log line v

structure Tiles (s : System Nat ι) : Prop where
  owned : Ownership s
  chain : ∀ q, q < s.line.endTriangle → (s.ring q).next_triangle = q+1
  recorded : ∀ r ∈ s.rendered, r.chunkTriangle < s.line.endTriangle
  idle : ∀ i n t, s.line.chunkNext i = .chunk false n → s.line.Holds i t →
    At s.ring s.rendered s.line.endTriangle t (s.line.chunkTriangle i)
  stands : ∀ k, (s.spus k).Stands s.ring s.rendered s.line

-- An SPU's standing depends on the line only at its own busy chunk.
theorem Spu.Stands.frame {spu : Spu Nat} {ring ring' : Nat → TriangleRecord Nat} {log log' : List (Rendered Nat)}
    {line line' : CacheLine Nat} (stands : spu.Stands ring log line)
    (later : line.endTriangle ≤ line'.endTriangle) (kept : ∀ q, q < line.endTriangle → ring' q = ring q)
    (same : ∀ i n, spu.Marks i (.chunk true n) → line'.chunkTriangle i = line.chunkTriangle i ∧
      ∀ t, (line'.Holds i t ↔ line.Holds i t) ∧ (line.Holds i t → history ring' log' t = history ring log t)) :
    spu.Stands ring' log' line' := by
  have at_ : ∀ (v : Locals Nat) p, spu.Marks = v.Marks →
      (∀ t, line.Holds v.chunkToProcess t → At ring log line.endTriangle t p) →
      ∀ t, line'.Holds v.chunkToProcess t → At ring' log' line'.endTriangle t p := by
    intro v p marks old t held
    have own := (same v.chunkToProcess v.chunkNext (by rw [marks]; exact .inl ⟨rfl,rfl⟩)).2 t
    exact (old t (own.1.mp held)).frame later kept (own.2 (own.1.mp held))
  have scanned : ∀ v : Locals Nat, spu.Marks = v.Marks → Scanned ring log line v → Scanned ring' log' line' v := by
    intro v marks old
    have triangle := (same v.chunkToProcess v.chunkNext (by rw [marks]; exact .inl ⟨rfl,rfl⟩)).1
    exact ⟨old.more,Nat.le_trans old.ends later,at_ v _ marks old.done,triangle ▸ at_ v _ marks old.back⟩
  have found : ∀ (v : Locals Nat) triangle firstTile, spu.Marks = v.Marks →
      Found ring log line v triangle firstTile → Found ring' log' line' v triangle firstTile := by
    intro v triangle firstTile marks old
    have read := kept _ (Nat.lt_of_lt_of_le old.more old.ends)
    exact ⟨scanned v marks old.toScanned,old.read.trans read.symm,old.missed,old.spare⟩
  cases spu with
  | idle => trivial
  | claiming => trivial
  | scanning v => exact scanned v rfl stands
  | splitting v triangle firstTile => exact found v triangle firstTile rfl stands
  | storing v triangle firstTile _ => exact found v triangle firstTile rfl stands
  | rendering v triangle window =>
    refine ⟨stands.upto,Nat.le_trans stands.ends later,?_,at_ v _ rfl stands.done,?_⟩
    · intro less
      exact (stands.read less).trans (kept _ (Nat.lt_of_lt_of_le less stands.ends)).symm
    · intro t
      have own := ((same v.chunkToProcess v.chunkNext (.inl ⟨rfl,rfl⟩)).2 t).1
      refine (stands.strays t).imp own.trans ?_
      intro missed q low high which
      rw [kept q (Nat.lt_of_lt_of_le high stands.ends)]
      exact missed q low high which
  | finishing v => exact at_ v _ rfl stands
  | releasing v _ => exact at_ v _ rfl stands

section
variable {ι : Type} [DecidableEq ι] {s next : System Nat ι}

theorem Tiles.moved (valid : Tiles s) (owned : Ownership next) (k : ι) (line : next.line = s.line)
    (ring : next.ring = s.ring) (rendered : next.rendered = s.rendered)
    (spus : next.spus = Function.update s.spus k spu) (stands : spu.Stands s.ring s.rendered s.line) : Tiles next := by
  refine ⟨owned,?_,?_,?_,?_⟩
  · rw [line,ring]; exact valid.chain
  · rw [line,rendered]; exact valid.recorded
  · rw [line,ring,rendered]; exact valid.idle
  · intro k'
    rw [line,ring,rendered,spus]
    by_cases isK : k' = k
    · subst isK; simpa using stands
    · rw [Function.update_of_ne isK]; exact valid.stands k'

theorem Tiles.stored (valid : Tiles s) (owned : Ownership next) (k : ι) (line : next.line = after)
    (ring : next.ring = s.ring) (rendered : next.rendered = s.rendered)
    (spus : next.spus = Function.update s.spus k spu)
    (rewrite : Rewrite s.line after (s.spus k).Marks spu.Marks Given)
    (given : ∀ t p, Given t p → At s.ring s.rendered s.line.endTriangle t p)
    (stands : spu.Stands s.ring s.rendered after) : Tiles next := by
  refine ⟨owned,?_,?_,?_,?_⟩
  · rw [line,ring,rewrite.ends]; exact valid.chain
  · rw [line,rendered,rewrite.ends]; exact valid.recorded
  · rw [line,ring,rendered,rewrite.ends]
    intro i n t isIdle held
    rcases rewrite.idle i n t isIdle held with ⟨j,m,idleJ,heldJ,same⟩ | gave
    · rw [← same]; exact valid.idle j m t idleJ heldJ
    · exact given t _ gave
  · intro k'
    rw [line,ring,rendered,spus]
    by_cases isK : k' = k
    · subst isK; simpa using stands
    · rw [Function.update_of_ne isK]
      refine (valid.stands k').frame (Nat.le_of_eq rewrite.ends.symm) (fun _ _ => rfl) ?_
      intro i n mark
      have free : ∀ m, ¬(s.spus k).Marks i m := fun m own => isK (valid.owned.once k' k i _ m mark own)
      have busy := valid.owned.mine k' i _ mark
      exact ⟨(rewrite.span i n free busy).2.2,fun t => ⟨rewrite.holds free busy t,fun _ => rfl⟩⟩

-- One triangle drawn. Outside the SPU's own chunk it covers nothing in range.
theorem Tiles.drew {v : Locals Nat} {triangle : TriangleRecord Nat} {window : Window} (valid : Tiles s)
    (owned : Ownership next) (k : ι) (at_ : s.spus k = .rendering v triangle window) (line : next.line = s.line)
    (ring : next.ring = s.ring) (more : v.chunkTriangle ≠ v.endTriangle)
    (rendered : next.rendered = s.rendered ++ [⟨v.chunkTriangle,window.thisBlockStart,v.chunkEnd⟩])
    (spus : next.spus = Function.update s.spus k spu)
    (stands : (∀ t, s.line.Holds v.chunkToProcess t →
        At s.ring next.rendered s.line.endTriangle t (v.chunkTriangle+1)) →
      spu.Stands s.ring next.rendered s.line) : Tiles next := by
  have standing : Rendering s.ring s.rendered s.line v triangle window := by
    have own := valid.stands k
    rw [at_] at own; exact own
  have less := Nat.lt_of_le_of_ne standing.upto more
  have below := Nat.lt_of_lt_of_le less standing.ends
  have grown : ∀ t, history s.ring next.rendered t = history s.ring s.rendered t ++
      if CallRange window.thisBlockStart v.chunkEnd t ∧ (s.ring v.chunkTriangle).covers t = true
      then [v.chunkTriangle] else [] := by
    intro t
    rw [rendered,history_append]
  -- A tile of ours gets the triangle exactly when it is covered.
  have ours : ∀ t, s.line.Holds v.chunkToProcess t →
      At s.ring next.rendered s.line.endTriangle t (v.chunkTriangle+1) := by
    intro t held
    refine ⟨below,?_⟩
    rw [grown,preceding_succ,(standing.done t held).done]
    rcases standing.strays t with same | missed
    · simp only [same.mp held,true_and]
    · have uncovered := missed v.chunkTriangle (Nat.le_refl _) less (.inl rfl)
      simp [uncovered]
  have foreign : ∀ t, ¬s.line.Holds v.chunkToProcess t → history s.ring next.rendered t = history s.ring s.rendered t := by
    intro t other
    rw [grown]
    rcases standing.strays t with same | missed
    · rw [if_neg (fun both => other (same.mpr both.1)),List.append_nil]
    · have uncovered := missed v.chunkTriangle (Nat.le_refl _) less (.inl rfl)
      simp [uncovered]
  have mark : (s.spus k).Marks v.chunkToProcess (.chunk true v.chunkNext) := by rw [at_]; exact .inl ⟨rfl,rfl⟩
  have busy := valid.owned.mine k _ _ mark
  have apart : ∀ i t, i ≠ v.chunkToProcess → s.line.Holds i t → ¬s.line.Holds v.chunkToProcess t :=
    fun i t other held own => other (OrderedCycle.Ordered.covers_once valid.owned.linked held own)
  refine ⟨owned,?_,?_,?_,?_⟩
  · rw [line,ring]; exact valid.chain
  · rw [line,rendered]
    intro r member
    rcases List.mem_append.mp member with old | new
    · exact valid.recorded r old
    · rw [List.mem_singleton.mp new]; exact below
  · rw [line,ring]
    intro i n t isIdle held
    have other : i ≠ v.chunkToProcess := by intro same; rw [same,busy] at isIdle; cases isIdle
    exact (valid.idle i n t isIdle held).frame (Nat.le_refl _) (fun _ _ => rfl) (foreign t (apart i t other held))
  · intro k'
    rw [line,ring,spus]
    by_cases isK : k' = k
    · subst isK; simpa using stands ours
    · rw [Function.update_of_ne isK]
      refine (valid.stands k').frame (Nat.le_refl _) (fun _ _ => rfl) ?_
      intro i n theirs
      have other : i ≠ v.chunkToProcess := by
        intro same; subst same; exact isK (valid.owned.once k' k _ _ _ theirs mark)
      exact ⟨rfl,fun t => ⟨Iff.rfl,fun held => foreign t (apart i t other held)⟩⟩

-- The reslice under its condition: what the chunk holds against what is drawn.
theorem resliced_rendering {ring : Nat → TriangleRecord Nat} {log : List (Rendered Nat)} {line after : CacheLine Nat}
    {v : Locals Nat} {triangle : TriangleRecord Nat} (counts : Counts line v)
    (found : Found ring log line v triangle firstTile) (low : v.chunkStart ≤ firstTile)
    (high : firstTile ≤ v.chunkEnd) (complete : Complete ring v firstTile line)
    (ends : after.endTriangle = line.endTriangle)
    (resliced : Resliced v firstTile (!keepsWhole v firstTile line) after tailChunk thisChunk window) :
    Rendering ring log after (v.stored tailChunk thisChunk window) triangle window := by
  have cases := nextBlockStart_cases v firstTile
  have bounded := counts.bounded
  have held : ∀ t, after.Holds thisChunk t ↔ after.chunkStart thisChunk ≤ t ∧ t < after.chunkStop thisChunk :=
    fun t => holds_listed resliced.busy
  have heldOld : ∀ t, line.Holds v.chunkToProcess t ↔ v.chunkStart ≤ t ∧ t ≤ v.chunkEnd := by
    intro t; rw [holds_listed counts.busy,counts.start,counts.stop]; omega
  have stop : (firstTile+16 < v.chunkEnd ∧ after.chunkStop thisChunk = nextBlockStart v firstTile) ∨
      (v.chunkEnd ≤ firstTile+16 ∧ after.chunkStop thisChunk = v.chunkEnd+1) := by
    have tail := needsTail_exact v firstTile
    have same := resliced.stop
    split at same
    · rename_i more; exact .inl ⟨tail.mp more,same⟩
    · rename_i none; exact .inr ⟨Nat.le_of_not_lt fun more => none (tail.mpr more),same⟩
  -- Below tile 15 the chunk is kept whole; from there the clamp is exact.
  have start : v.chunkStart ≤ after.chunkStart thisChunk ∧
      ((after.chunkStart thisChunk : Int) = thisBlockStart v firstTile ∨
        (keepsWhole v firstTile line = true ∧ after.chunkStart thisChunk = v.chunkStart)) := by
    rcases resliced.start with ⟨cut,same⟩ | ⟨whole,same⟩
    · refine ⟨?_,.inl same⟩
      rcases Nat.lt_or_ge v.chunkEnd 15 with cramped | roomy
      · obtain ⟨noTail,_,inside⟩ := thisBlockStart_cramped v firstTile cramped
        have noSlot := (complete.clamp cramped).1
        simp [keepsWhole,headSlot,noTail,noSlot,(inside (Nat.le_trans low high)).2] at cut
      · rw [thisBlockStart_roomy v firstTile roomy bounded] at same
        omega
    · exact ⟨Nat.le_of_eq same.symm,.inr ⟨by simpa using whole,same⟩⟩
  have listed : ∀ q, v.chunkTriangle ≤ q → q < v.endTriangle →
      (q = v.chunkTriangle ∨ firstTile = unsigned (after.chunkStart thisChunk : Int)) →
      q ∈ renders v firstTile line := by
    intro q from_ upto which
    unfold renders
    split
    · rename_i once
      refine List.mem_singleton.mpr (which.resolve_right ?_)
      intro real
      rcases resliced.start with ⟨cut,_⟩ | ⟨_,same⟩
      · simp [once.1] at cut
      · rw [same,unsigned_nat (by omega)] at real
        exact once.2 real
    · exact List.mem_range'_1.mpr ⟨from_,by omega⟩
  refine ⟨Nat.le_of_lt found.more,by rw [ends]; exact found.ends,fun _ => found.read,?_,?_⟩
  · intro t own
    have range := (held t).mp own
    rw [ends]
    exact found.done t ((heldOld t).mpr (by omega))
  · intro t
    by_cases agree : after.Holds thisChunk t ↔ CallRange window.thisBlockStart (nextBlockStart v firstTile - 1) t
    · refine .inl ?_
      simpa only [Locals.stored,resliced.frame] using agree
    · refine .inr ?_
      simp only [Locals.stored,resliced.frame] at agree ⊢
      rw [held t] at agree
      intro q from_ upto which
      have drawn := listed q from_ upto which
      rcases Nat.lt_or_ge v.chunkEnd 15 with cramped | roomy
      · -- A cramped chunk: what is covered and in its range is in the call's, and the other way round.
        obtain ⟨_,last,inside⟩ := thisBlockStart_cramped v firstTile cramped
        have this := (inside (Nat.le_trans low high)).1
        have whole : after.chunkStart thisChunk = v.chunkStart := by
          rcases start.2 with same | whole
          · omega
          · exact whole.2
        cases covered : (ring q).covers t with
        | false => rfl
        | true =>
          have same (upto : t ≤ v.chunkEnd) := (complete.clamp cramped).2 q drawn t upto covered
          refine absurd ?_ agree
          unfold CallRange
          rw [this,last]
          omega
      · have this := thisBlockStart_roomy v firstTile roomy bounded
        rw [this,callRange_natural] at agree
        by_cases before : (t : Int) < thisBlockStart v firstTile
        · -- The part in front of a chunk kept whole: only one triangle, which misses it.
          have whole : after.chunkStart thisChunk = v.chunkStart := by
            rcases start.2 with same | whole
            · omega
            · exact whole.2
          have only : q = v.chunkTriangle := by
            refine which.resolve_right ?_
            rw [whole,unsigned_nat (by omega)]
            omega
          rw [only,← found.read]
          exact found.missed t (by omega) (by omega)
        · -- The tile that no tail was cut for.
          have lost : t = v.chunkEnd ∧ firstTile + NUMBER_OF_TILES_PER_CHUNK = v.chunkEnd := by
            unfold NUMBER_OF_TILES_PER_CHUNK
            omega
          rw [lost.1]
          exact complete.tail lost.2 q drawn

omit [DecidableEq ι] in
-- With every PUTLLC at its first try the free slot is the claimed one.
theorem Tiles.sound (valid : Tiles s) (allowed : CompleteSplits s (.run k)) : SoundSplits s (.run k) := by
  have complete : (s.spus k).CompleteSplit s.ring := allowed.2
  have stands := valid.stands k
  show (s.spus k).SoundSplit (s.held k)
  cases at_ : s.spus k with
  | storing v triangle firstTile cache =>
    intro held
    have same := valid.owned.copy k cache held (by rw [at_]; rfl)
    rw [at_] at complete stands
    subst same
    refine ⟨.inl stands.spare,?_⟩
    rcases Nat.lt_or_ge v.chunkEnd 15 with cramped | roomy
    · exact .inr (complete.clamp cramped).1
    · exact .inl roomy
  | _ => trivial

theorem putllc_held {line : CacheLine Nat} {done failed : Spu Nat} (held : s.held k = true) :
    s.putllc k line done failed = {s.move k done with line := line,held := fun _ => false} := by
  unfold System.putllc
  rw [if_pos held]

theorem Tiles.run (valid : Tiles s) (k : ι) (allowed : CompleteSplits s (.run k)) : Tiles (s.run k) := by
  have owned := valid.owned.run k (valid.sound allowed)
  have stands := valid.stands k
  have complete : (s.spus k).CompleteSplit s.ring := allowed.2
  have first : (s.spus k).copy.isSome → s.held k = true := allowed.1
  unfold System.run at owned ⊢
  cases at_ : s.spus k with
  | idle =>
    rw [at_] at owned
    exact valid.moved owned k rfl rfl rfl rfl trivial
  | claiming cache =>
    rw [at_] at owned first
    dsimp only at owned ⊢
    have held := first rfl
    have same := valid.owned.copy k cache held (by rw [at_]; rfl)
    subst same
    cases ran : claimChunk s.line with
    | none =>
      rw [ran] at owned
      exact valid.moved owned k rfl rfl rfl rfl trivial
    | some pair =>
      obtain ⟨line,v⟩ := pair
      rw [ran] at owned
      dsimp only at owned ⊢
      rw [putllc_held held] at owned ⊢
      have claimed := claimChunk_claimed valid.owned.linked ran
      have at_tile : ∀ t, line.Holds v.chunkToProcess t → At s.ring s.rendered s.line.endTriangle t v.chunkTriangle := by
        intro t tile
        rw [← claimed.before]
        exact valid.idle _ _ t claimed.idle ((claimed.holds t).mp tile)
      have some : line.Holds v.chunkToProcess v.chunkStart := by
        have link : line.links v.chunkToProcess = some v.chunkNext := by simp [CacheLine.links,claimed.counts.busy]
        rw [holds_listed claimed.counts.busy,claimed.counts.start]
        refine ⟨Nat.le_refl _,?_⟩
        have := OrderedCycle.Ordered.before_stop claimed.counts.linked link
        rwa [claimed.counts.start] at this
      have rewrite : Rewrite s.line line (s.spus k).Marks (Spu.scanning v).Marks (fun _ _ => False) := by
        rw [at_]; exact claimed.rewrite
      refine valid.stored owned k rfl rfl rfl rfl rewrite (fun _ _ none => none.elim) ?_
      refine ⟨Nat.lt_of_le_of_ne (claimed.ends ▸ (at_tile _ some).upto) claimed.more,?_,?_,?_⟩
      · rw [claimed.rewrite.ends,claimed.ends]
      · rw [claimed.rewrite.ends]; exact at_tile
      · rw [claimed.rewrite.ends,claimed.triangle]; exact at_tile
  | scanning v =>
    rw [at_] at owned stands
    have fits := valid.owned.fits k
    rw [at_] at fits
    dsimp only at owned ⊢
    have counts := valid.owned.counts (k := k) (v := v) (by rw [at_]; rfl) fits.1
    have chain := valid.chain v.chunkTriangle (Nat.lt_of_lt_of_le stands.more stands.ends)
    cases scan : findFirstTriangleTile (s.ring v.chunkTriangle) v.chunkStart v.chunkEnd with
    | some firstTile =>
      rw [scan] at owned
      refine valid.moved owned k rfl rfl rfl rfl ?_
      exact ⟨stands,rfl,fun t low high => (findFirst_some scan).2.2.2 t low high,fits.2⟩
    | none =>
      rw [scan] at owned
      dsimp only at owned ⊢
      have skipped : ∀ t, s.line.Holds v.chunkToProcess t →
          At s.ring s.rendered s.line.endTriangle t (v.chunkTriangle+1) := by
        intro t tile
        refine (stands.done t tile).skip (Nat.lt_of_lt_of_le stands.more stands.ends) ?_
        rw [holds_listed counts.busy,counts.start,counts.stop] at tile
        exact findFirst_none scan tile.1 (by omega)
      rw [chain] at owned ⊢
      split
      · rename_i last
        rw [if_pos last] at owned
        exact valid.moved owned k rfl rfl rfl rfl skipped
      · rename_i more
        rw [if_neg more] at owned
        exact valid.moved owned k rfl rfl rfl rfl ⟨Nat.lt_of_le_of_ne stands.more more,stands.ends,skipped,stands.back⟩
  | splitting v triangle firstTile =>
    rw [at_] at owned stands
    exact valid.moved owned k rfl rfl rfl rfl stands
  | storing v triangle firstTile cache =>
    have sound : (s.spus k).SoundSplit (s.held k) := valid.sound allowed
    rw [at_] at owned stands complete first sound
    have held := first rfl
    have same := valid.owned.copy k cache held (by rw [at_]; rfl)
    subst same
    have fits := valid.owned.fits k
    rw [at_] at fits
    obtain ⟨spans,low,high⟩ := fits
    have counts := valid.owned.counts (k := k) (v := v) (by rw [at_]; rfl) spans
    have chain := valid.chain v.chunkTriangle (Nat.lt_of_lt_of_le stands.more stands.ends)
    dsimp only at owned ⊢
    rcases splitChunk_cases triangle.next_triangle counts (sound held) low high with
      ⟨after,ran,rewrite⟩ | ⟨after,tailChunk,thisChunk,window,ran,cut,resliced⟩
    · rw [ran] at owned ⊢
      dsimp only at owned ⊢
      rw [putllc_held held] at owned ⊢
      refine valid.stored owned k rfl rfl rfl rfl (by rw [at_]; exact rewrite) ?_ trivial
      rintro t p ⟨rfl,tile⟩
      exact stands.back t tile
    · obtain ⟨rewrite,resliced⟩ := reslice_merged cut resliced
      rw [ran] at owned ⊢
      dsimp only at owned ⊢
      rw [putllc_held held] at owned ⊢
      have marks : (Spu.rendering (v.stored tailChunk thisChunk window) triangle window).Marks =
          holding thisChunk tailChunk := by
        funext i n; simp [Spu.Marks,Locals.Marks,Locals.stored]
      refine valid.stored owned k rfl rfl rfl rfl (by rw [at_,marks]; exact rewrite) ?_
        (resliced_rendering counts stands low high complete rewrite.ends resliced)
      have tiles : ∀ t, v.chunkStart ≤ t → t ≤ v.chunkEnd → s.line.Holds v.chunkToProcess t := by
        intro t from_ upto
        rw [holds_listed counts.busy,counts.start,counts.stop]; omega
      have cases := nextBlockStart_cases v firstTile
      rintro t p (⟨rfl,from_,upto⟩ | ⟨rfl,from_,before⟩)
      · exact stands.done t (tiles t (by omega) upto)
      · have inFront : t < firstTile := by
          rcases Nat.lt_or_ge v.chunkEnd 15 with cramped | roomy
          · have this := ((thisBlockStart_cramped v firstTile cramped).2.2 (Nat.le_trans low high)).1
            omega
          · rw [thisBlockStart_roomy v firstTile roomy counts.bounded] at before
            omega
        rw [stands.read,chain]
        refine (stands.done t (tiles t from_ (by omega))).skip (Nat.lt_of_lt_of_le stands.more stands.ends) ?_
        rw [← stands.read]
        exact stands.missed t from_ inFront
  | rendering v triangle window =>
    rw [at_] at owned stands
    dsimp only at owned ⊢
    split
    · rename_i last
      rw [if_pos last] at owned
      exact valid.moved owned k rfl rfl rfl rfl stands.done
    · rename_i more
      rw [if_neg more] at owned
      have less := Nat.lt_of_le_of_ne stands.upto more
      have chain := valid.chain v.chunkTriangle (Nat.lt_of_lt_of_le less stands.ends)
      rw [stands.read less,chain] at owned ⊢
      split
      · rename_i once
        rw [if_pos once] at owned
        exact valid.drew owned k at_ rfl rfl more rfl rfl fun drawn => drawn
      · rename_i again
        rw [if_neg again] at owned
        refine valid.drew owned k at_ rfl rfl more rfl rfl ?_
        intro drawn
        refine ⟨less,stands.ends,fun _ => rfl,drawn,?_⟩
        intro t
        refine (stands.strays t).imp_right fun missed q low high _ => ?_
        exact missed q (Nat.le_trans (Nat.le_succ _) low) high (.inr (not_not.mp again))
  | finishing v =>
    rw [at_] at owned stands
    exact valid.moved owned k rfl rfl rfl rfl stands
  | releasing v cache =>
    rw [at_] at owned stands first
    have held := first rfl
    have same := valid.owned.copy k cache held (by rw [at_]; rfl)
    subst same
    have fits := valid.owned.fits k
    rw [at_] at fits
    dsimp only at owned ⊢
    rw [putllc_held held] at owned ⊢
    have rewrite := release_merged (valid.owned.owns (k := k) (v := v) (by rw [at_]; rfl)) fits
    refine valid.stored owned k rfl rfl rfl rfl (by rw [at_]; exact rewrite) ?_ trivial
    rintro t p ⟨rfl,tile⟩
    exact stands t tile

theorem Tiles.act (valid : Tiles s) (a : Action Nat ι) (allowed : CompleteSplits s a) : Tiles (s.act a) := by
  cases a with
  | run k => exact valid.run k allowed
  | record p triangle =>
    have beyond : s.line.endTriangle ≤ p := allowed.1
    have kept : ∀ q, q < s.line.endTriangle → Function.update s.ring p triangle q = s.ring q :=
      fun q below => Function.update_of_ne (by omega) _ _
    have same := history_frame valid.recorded kept
    refine ⟨valid.owned.act (.record p triangle) trivial,?_,valid.recorded,?_,?_⟩
    · intro q below
      exact (congrArg TriangleRecord.next_triangle (kept q below)).trans (valid.chain q below)
    · intro i n t idle held
      exact (valid.idle i n t idle held).frame (Nat.le_refl _) kept (same t)
    · intro k
      exact (valid.stands k).frame (Nat.le_refl _) kept fun i n _ => ⟨rfl,fun t => ⟨Iff.rfl,fun _ => same t⟩⟩
  | advance e =>
    obtain ⟨rfl,linked⟩ : e = s.line.endTriangle+1 ∧ (s.ring s.line.endTriangle).next_triangle = e := allowed.1
    show Tiles {s with line := {s.line with endTriangle := s.line.endTriangle+1},held := fun _ => false}
    refine ⟨valid.owned.act (.advance _) trivial,?_,?_,?_,?_⟩
    · intro q below
      rcases Nat.lt_succ_iff_lt_or_eq.mp below with less | same
      · exact valid.chain q less
      · rw [same]; exact linked
    · intro r member; exact Nat.lt_succ_of_lt (valid.recorded r member)
    · intro i n t idle held
      exact (valid.idle i n t idle held).frame (Nat.le_succ _) (fun _ _ => rfl) rfl
    · intro k
      exact (valid.stands k).frame (Nat.le_succ _) (fun _ _ => rfl) fun i n _ => ⟨rfl,fun t => ⟨Iff.rfl,fun _ => rfl⟩⟩

theorem reached_tiles (path : Reached CompleteSplits 0 s) : Tiles s := by
  refine Runs.Reached.invariant Tiles ?_ ?_ path
  · rintro _ ⟨ring,rfl⟩
    refine ⟨start_ownership 0 ring,fun q below => absurd below (Nat.not_lt_zero q),?_,?_,fun _ => trivial⟩
    · intro r member; cases member
    · intro i n t _ _; exact ⟨Nat.le_refl _,rfl⟩
  · rintro _ _ valid ⟨a,allowed,rfl⟩; exact valid.act a allowed

-- For each tile of a chunk nobody works on: what has been drawn there is what
-- precedes the chunk's triangle and covers the tile.
def HistoryKept (s : System Nat ι) : Prop :=
  ∀ i n t, s.line.chunkNext i = .chunk false n → s.line.chunkStart i ≤ t → t < s.line.endLane i →
    history s.ring s.rendered t = preceding s.ring t (s.line.chunkTriangle i)

theorem tiles_complete (path : Reached CompleteSplits 0 s) : HistoryKept s := by
  intro i n t idle low high
  have valid := reached_tiles path
  have link : s.line.links i = some n := by simp [CacheLine.links,idle]
  rw [endLane_stop valid.owned.linked link] at high
  exact (valid.idle i n t idle ((holds_listed idle).mpr ⟨low,high⟩)).done

end

instance (ring : Nat → TriangleRecord Nat) (v : Locals Nat) (firstTile : Nat) (line : CacheLine Nat) :
    Decidable (Complete ring v firstTile line) :=
  decidable_of_iff
    ((firstTile + NUMBER_OF_TILES_PER_CHUNK = v.chunkEnd →
        ∀ q ∈ renders v firstTile line, (ring q).covers v.chunkEnd = false) ∧
      (v.chunkEnd < 15 → (allocate v line).1 = none ∧ ∀ q ∈ renders v firstTile line,
        ∀ t, t ≤ v.chunkEnd → (ring q).covers t = true → (v.chunkStart ≤ t ↔ t+15 ≤ 2*v.chunkEnd)))
    ⟨fun ⟨tail,clamp⟩ => ⟨tail,clamp⟩,fun complete => ⟨complete.tail,complete.clamp⟩⟩

instance (ring : Nat → TriangleRecord Nat) : (spu : Spu Nat) → Decidable (spu.CompleteSplit ring)
  | .storing v _ firstTile cache => inferInstanceAs (Decidable (Complete ring v firstTile cache))
  | .idle => .isTrue trivial
  | .claiming _ => .isTrue trivial
  | .scanning _ => .isTrue trivial
  | .splitting _ _ _ => .isTrue trivial
  | .rendering _ _ _ => .isTrue trivial
  | .finishing _ => .isTrue trivial
  | .releasing _ _ => .isTrue trivial

instance (s : System Nat ι) : (a : Action Nat ι) → Decidable (FirstTry s a)
  | .run k => inferInstanceAs (Decidable ((s.spus k).copy.isSome → s.held k = true))
  | .record p _ => inferInstanceAs (Decidable (s.line.endTriangle ≤ p))
  | .advance e => inferInstanceAs (Decidable (e = s.line.endTriangle+1 ∧ (s.ring s.line.endTriangle).next_triangle = e))

instance (s : System Nat ι) : (a : Action Nat ι) → Decidable (CompleteSplits s a)
  | .run k => inferInstanceAs (Decidable (FirstTry s (.run k) ∧ (s.spus k).CompleteSplit s.ring))
  | .record p triangle => inferInstanceAs (Decidable (FirstTry s (.record p triangle) ∧ True))
  | .advance e => inferInstanceAs (Decidable (FirstTry s (.advance e) ∧ True))

-- One triangle, drawn by one SPU from an empty renderable.
def drawnStart : System Nat (Fin 1) := System.start 0 fun q => ⟨fun _ => false,q+1⟩

def drawnRun (covers : Nat → Bool) : List (Action Nat (Fin 1)) :=
  [.record 0 ⟨covers,1⟩,.advance 1] ++ List.replicate 9 (.run 0)

theorem tiles_complete_drawn : HistoryKept ((drawnRun fun t => t == 5 || t == 2000).foldl System.act drawnStart) :=
  tiles_complete (Runs.Reached.follow (.start ⟨_,rfl⟩) (by decide +kernel))

-- Tiles 4079 and 4095 are covered. The split at 4079 leaves no tail for 4095,
-- which is never drawn.
theorem tiles_incomplete_last : ∃ s : System Nat (Fin 1), Reached FirstTry 0 s ∧ ¬HistoryKept s := by
  refine ⟨(drawnRun fun t => t == 4079 || t == 4095).foldl System.act drawnStart,
    Runs.Reached.follow (.start ⟨_,rfl⟩) (by decide +kernel),?_⟩
  intro kept
  have same := kept 0 0 4095 (by decide +kernel) (by decide +kernel) (by decide +kernel)
  exact absurd same (by decide +kernel)

end Spugl
