import Spugl.SyncDrained

namespace Spugl

-- One SPU that goes on by itself: the producer has stopped.
def Pipeline.alone (s : Pipeline (Fin 1)) (m : Nat) : Pipeline (Fin 1) := (fun s => s.act (.run 0))^[m] s

theorem alone_add (s : Pipeline (Fin 1)) (m k : Nat) : s.alone (m+k) = (s.alone m).alone k := by
  unfold Pipeline.alone
  rw [Nat.add_comm,Function.iterate_add_apply]

theorem alone_succ (s : Pipeline (Fin 1)) (m : Nat) : s.alone (m+1) = (s.alone m).act (.run 0) :=
  Function.iterate_succ_apply' _ m s

-- Every chunk of the list is at endTriangle.
def CacheLine.Drained (line : CacheLine Nat) : Prop := ∀ n, line.chunkTriangle (line.follow n) = line.endTriangle

-- The one SPU against the line it stands at. Nobody else ends its reservations.
structure Stands (s : Pipeline (Fin 1)) (ring : Nat → TriangleRecord Nat) (line : CacheLine Nat) (spu : Spu Nat) : Prop where
  ringed : ∃ r, Ringed s r
  records : s.system.ring = ring
  here : s.system.line = line
  at_ : s.system.spus 0 = spu
  held : spu.copy.isSome = true → s.system.held 0 = true

section
variable {s : Pipeline (Fin 1)} {ring : Nat → TriangleRecord Nat} {line : CacheLine Nat} {spu : Spu Nat}

theorem System.run_ring {t : System Nat ι} [DecidableEq ι] (k : ι) : (t.run k).ring = t.ring := by
  have stored (line : CacheLine Nat) (done failed : Spu Nat) : (t.putllc k line done failed).ring = t.ring := by
    unfold System.putllc
    split <;> rfl
  unfold System.run
  cases t.spus k with
  | idle => rfl
  | claiming cache =>
    dsimp only
    split
    · rfl
    · exact stored _ _ _
  | scanning v =>
    dsimp only
    split
    · rfl
    · split <;> rfl
  | splitting => rfl
  | storing v triangle firstTile cache =>
    dsimp only
    split <;> exact stored _ _ _
  | rendering v triangle window =>
    dsimp only
    split
    · rfl
    · split <;> rfl
  | finishing => rfl
  | releasing => exact stored _ _ _

theorem System.move_self {t : System Nat (Fin 1)} {spu : Spu Nat} : (t.move 0 spu).spus 0 = spu := by
  simp only [System.move,Function.update_self]

theorem System.getllar_self {t : System Nat (Fin 1)} {spu : Spu Nat} :
    (t.getllar 0 spu).spus 0 = spu ∧ (t.getllar 0 spu).held 0 = true := by
  simp only [System.getllar,System.move,Function.update_self,and_self]

theorem System.putllc_self {t : System Nat (Fin 1)} {line : CacheLine Nat} {done failed : Spu Nat} (held : t.held 0 = true) :
    (t.putllc 0 line done failed).line = line ∧ (t.putllc 0 line done failed).spus 0 = done := by
  simp only [System.putllc,held,if_true,System.move_self,and_self]

theorem Stands.spare (stands : Stands s ring line spu) (tidy : spu.Tidy) : SpareSplits s.system 0 := by
  refine tidy_spare ?_ 0
  intro k
  obtain rfl : k = 0 := Subsingleton.elim _ _
  rw [stands.at_]
  exact tidy

theorem Stands.step (stands : Stands s ring line spu) (spare : SpareSplits s.system 0) {line' : CacheLine Nat} {spu' : Spu Nat}
    (toLine : (s.system.run 0).line = line') (toSpu : (s.system.run 0).spus 0 = spu')
    (held : spu'.copy.isSome = true → (s.system.run 0).held 0 = true) : Stands (s.alone 1) ring line' spu' := by
  obtain ⟨r,ringed⟩ := stands.ringed
  exact ⟨(ringed.run 0 spare).imp fun _ both => both.1,(System.run_ring 0).trans stands.records,toLine,toSpu,held⟩

-- The three ways a step ends: without the line, with a copy of it, and with a new one.
theorem Stands.moves {spu' : Spu Nat} (stands : Stands s ring line spu) (tidy : spu.Tidy)
    (ran : s.system.run 0 = s.system.move 0 spu') (none : spu'.copy = none) : Stands (s.alone 1) ring line spu' := by
  refine stands.step (stands.spare tidy) ?_ ?_ ?_
  · rw [ran]
    exact stands.here
  · rw [ran]
    exact System.move_self
  · rw [none]
    exact nofun

theorem Stands.reads {spu' : Spu Nat} (stands : Stands s ring line spu) (tidy : spu.Tidy)
    (ran : s.system.run 0 = s.system.getllar 0 spu') : Stands (s.alone 1) ring line spu' := by
  refine stands.step (stands.spare tidy) ?_ ?_ ?_ <;> rw [ran]
  · exact stands.here
  · exact System.getllar_self.1
  · intro _
    exact System.getllar_self.2

theorem Stands.writes {done : Spu Nat} (stands : Stands s ring line spu) (failed : Spu Nat) (tidy : spu.Tidy) (copy : spu.copy.isSome = true)
    (ran : s.system.run 0 = s.system.putllc 0 after done failed) (none : done.copy = none) : Stands (s.alone 1) ring after done := by
  have stored : (s.system.putllc 0 after done failed).line = after ∧ (s.system.putllc 0 after done failed).spus 0 = done :=
    System.putllc_self (stands.held copy)
  refine stands.step (stands.spare tidy) ?_ ?_ ?_
  · rw [ran]
    exact stored.1
  · rw [ran]
    exact stored.2
  · rw [none]
    exact nofun

theorem Stands.copied (stands : Stands s ring line spu) (copy : spu.copy = some cache) : cache = line := by
  obtain ⟨_,ringed⟩ := stands.ringed
  have held := stands.held (by rw [copy]; rfl)
  exact (ringed.custody.copy 0 cache held (by rw [stands.at_]; exact copy)).trans stands.here

theorem Stands.idle (stands : Stands s ring line .idle) : Stands (s.alone 1) ring line (.claiming line) := by
  apply stands.reads trivial
  unfold System.run
  rw [stands.at_,stands.here]

theorem Stands.claim_none (stands : Stands s ring line (.claiming line)) (none : claimChunk line = none) :
    Stands (s.alone 1) ring line .idle := by
  refine stands.moves trivial ?_ rfl
  unfold System.run
  rw [stands.at_]
  simp only [none]

theorem Stands.claim (stands : Stands s ring line (.claiming line)) (ran : claimChunk line = some (after,v)) :
    Stands (s.alone 1) ring after (.scanning v) := by
  refine stands.writes .idle trivial rfl ?_ rfl
  unfold System.run
  rw [stands.at_]
  simp only [ran]

theorem Stands.scan_some (stands : Stands s ring line (.scanning v))
    (found : findFirstTriangleTile (ring v.chunkTriangle) v.chunkStart v.chunkEnd = some firstTile) :
    Stands (s.alone 1) ring line (.splitting v (ring v.chunkTriangle) firstTile) := by
  refine stands.moves trivial ?_ rfl
  unfold System.run
  rw [stands.at_]
  simp only [stands.records,found]

theorem Stands.scan_none (stands : Stands s ring line (.scanning v))
    (none : findFirstTriangleTile (ring v.chunkTriangle) v.chunkStart v.chunkEnd = none) :
    Stands (s.alone 1) ring line (if (ring v.chunkTriangle).next_triangle = v.endTriangle
      then .finishing {v with chunkTriangle := (ring v.chunkTriangle).next_triangle}
      else .scanning {v with chunkTriangle := (ring v.chunkTriangle).next_triangle}) := by
  refine stands.moves trivial ?_ ?_
  · unfold System.run
    rw [stands.at_]
    simp only [stands.records,none]
    split <;> rfl
  · split <;> rfl

theorem Stands.split (stands : Stands s ring line (.splitting v triangle firstTile)) (same : v.freeChunk = v.claimed) :
    Stands (s.alone 1) ring line (.storing v triangle firstTile line) := by
  apply stands.reads same
  unfold System.run
  rw [stands.at_,stands.here]

theorem Stands.relinquish (stands : Stands s ring line (.storing v triangle firstTile line)) (same : v.freeChunk = v.claimed)
    (split : splitChunk v triangle.next_triangle firstTile line = .relinquish after) : Stands (s.alone 1) ring after .idle := by
  refine stands.writes (.splitting (v.retry line) triangle firstTile) same rfl ?_ rfl
  unfold System.run
  rw [stands.at_]
  simp only [split]

theorem Stands.reslice (stands : Stands s ring line (.storing v triangle firstTile line)) (same : v.freeChunk = v.claimed)
    (split : splitChunk v triangle.next_triangle firstTile line = .reslice after tailChunk thisChunk window) :
    Stands (s.alone 1) ring after.merge_cache_blocks (.rendering (v.stored tailChunk thisChunk window) triangle window) := by
  refine stands.writes (.splitting (v.retry line) triangle firstTile) same rfl ?_ rfl
  unfold System.run
  rw [stands.at_]
  simp only [split]

theorem Stands.render_end (stands : Stands s ring line (.rendering v triangle window)) (ends : v.chunkTriangle = v.endTriangle) :
    Stands (s.alone 1) ring line (.finishing v) := by
  refine stands.moves trivial ?_ rfl
  unfold System.run
  rw [stands.at_]
  exact if_pos ends

theorem Stands.render_turn (stands : Stands s ring line (.rendering v triangle window)) (more : v.chunkTriangle ≠ v.endTriangle) :
    Stands (s.alone 1) ring line (if v.chunkStart ≠ unsigned window.realBlockStart
      then .finishing {v with chunkTriangle := triangle.next_triangle}
      else .rendering {v with chunkTriangle := triangle.next_triangle} (ring triangle.next_triangle) window) := by
  have ran : (s.system.run 0).line = s.system.line ∧ (s.system.run 0).spus 0 = (if v.chunkStart ≠ unsigned window.realBlockStart
      then .finishing {v with chunkTriangle := triangle.next_triangle}
      else .rendering {v with chunkTriangle := triangle.next_triangle} (ring triangle.next_triangle) window) := by
    unfold System.run
    rw [stands.at_]
    simp only [more,if_false]
    split
    · exact ⟨rfl,System.move_self⟩
    · simp only [stands.records]
      exact ⟨rfl,System.move_self⟩
  refine stands.step (stands.spare trivial) ?_ ?_ ?_
  · rw [ran.1]
    exact stands.here
  · exact ran.2
  · intro copy
    split at copy <;> cases copy

theorem Stands.finish (stands : Stands s ring line (.finishing v)) : Stands (s.alone 1) ring line (.releasing v line) := by
  apply stands.reads trivial
  unfold System.run
  rw [stands.at_,stands.here]

theorem Stands.release (stands : Stands s ring line (.releasing v line)) :
    Stands (s.alone 1) ring (releaseChunk v line).merge_cache_blocks .idle := by
  refine stands.writes (.finishing v) trivial rfl ?_ rfl
  unfold System.run
  rw [stands.at_]

theorem Stands.used (stands : Stands s ring line spu) (marks : spu.Marks i n) : s.system.line.chunkNext i ≠ .free := by
  obtain ⟨_,ringed⟩ := stands.ringed
  exact ringed.custody.marking.used (k := 0) (by rw [stands.at_]; exact marks)

theorem Stands.has (stands : Stands s ring line spu) (marks : spu.Marks = v.Marks) : Has line v := by
  obtain ⟨_,ringed⟩ := stands.ringed
  have mine : ∀ i n, v.Marks i n → line.chunkNext i = n := by
    intro i n mark
    rw [← stands.here]
    exact ringed.custody.marking.mine 0 i n (by rw [stands.at_,marks]; exact mark)
  refine ⟨stands.here ▸ ringed.custody.chained,mine _ _ (.inl ⟨rfl,rfl⟩),?_⟩
  intro f claimed
  exact mine f _ (.inr ⟨claimed,rfl⟩)

theorem Stands.fits (stands : Stands s ring line spu) : spu.SpareFits := by
  obtain ⟨_,ringed⟩ := stands.ringed
  have fits := ringed.custody.spare 0
  rw [stands.at_] at fits
  exact fits

end

-- Two runs that stand alike go on alike.
structure GoesAlike (s t : System Nat (Fin 1)) : Prop where
  ring : t.ring = s.ring
  line : t.line = s.line
  spus : t.spus 0 = s.spus 0
  held : (s.spus 0).copy.isSome = true → s.held 0 = true ∧ t.held 0 = true

section
variable {s t : System Nat (Fin 1)} {spu done failed : Spu Nat} {line : CacheLine Nat}

theorem GoesAlike.move (alike : GoesAlike s t) (none : spu.copy = none) : GoesAlike (s.move 0 spu) (t.move 0 spu) := by
  refine ⟨alike.ring,alike.line,by rw [System.move_self,System.move_self],?_⟩
  rw [System.move_self,none]
  exact nofun

theorem GoesAlike.getllar (alike : GoesAlike s t) : GoesAlike (s.getllar 0 spu) (t.getllar 0 spu) :=
  ⟨alike.ring,alike.line,System.getllar_self.1.trans System.getllar_self.1.symm,
    fun _ => ⟨System.getllar_self.2,System.getllar_self.2⟩⟩

theorem GoesAlike.putllc (alike : GoesAlike s t) (held : s.held 0 = true ∧ t.held 0 = true) (none : done.copy = none) :
    GoesAlike (s.putllc 0 line done failed) (t.putllc 0 line done failed) := by
  have one : (s.putllc 0 line done failed).line = line ∧ (s.putllc 0 line done failed).spus 0 = done := System.putllc_self held.1
  have two : (t.putllc 0 line done failed).line = line ∧ (t.putllc 0 line done failed).spus 0 = done := System.putllc_self held.2
  refine ⟨?_,two.1.trans one.1.symm,two.2.trans one.2.symm,?_⟩
  · unfold System.putllc
    rw [if_pos held.1,if_pos held.2]
    exact alike.ring
  · rw [one.2,none]
    exact nofun

theorem GoesAlike.trans {u : System Nat (Fin 1)} (one : GoesAlike s t) (two : GoesAlike t u) : GoesAlike s u :=
  ⟨two.ring.trans one.ring,two.line.trans one.line,two.spus.trans one.spus,
    fun copy => ⟨(one.held copy).1,(two.held (by rw [one.spus]; exact copy)).2⟩⟩

theorem GoesAlike.run (alike : GoesAlike s t) : GoesAlike (s.run 0) (t.run 0) := by
  have held := alike.held
  unfold System.run
  rw [alike.spus,alike.ring,alike.line]
  cases at_ : s.spus 0 with
  | idle => exact alike.getllar
  | claiming cache =>
    rw [at_] at held
    dsimp only
    split
    · exact alike.move rfl
    · exact alike.putllc (held rfl) rfl
  | scanning v =>
    dsimp only
    split
    · exact alike.move rfl
    · split
      · exact alike.move rfl
      · exact alike.move rfl
  | splitting v triangle firstTile => exact alike.getllar
  | storing v triangle firstTile cache =>
    rw [at_] at held
    dsimp only
    split
    · exact alike.putllc (held rfl) rfl
    · exact alike.putllc (held rfl) rfl
  | rendering v triangle window =>
    dsimp only
    split
    · exact alike.move rfl
    · split
      · exact GoesAlike.move ⟨rfl,rfl,alike.spus,alike.held⟩ rfl
      · exact GoesAlike.move ⟨rfl,rfl,alike.spus,alike.held⟩ rfl
  | finishing v => exact alike.getllar
  | releasing v cache =>
    rw [at_] at held
    exact alike.putllc (held rfl) rfl

end

section
variable {s : Pipeline (Fin 1)} {ring : Nat → TriangleRecord Nat} {line : CacheLine Nat} {spu : Spu Nat}

theorem Stands.alike {t : Pipeline (Fin 1)} (one : Stands s ring line spu) (two : Stands t ring line spu) (m : Nat) :
    GoesAlike (s.alone m).system (t.alone m).system := by
  induction m with
  | zero =>
    refine ⟨two.records.trans one.records.symm,two.here.trans one.here.symm,two.at_.trans one.at_.symm,?_⟩
    intro copy
    have at_ : (s.alone 0).system.spus 0 = spu := one.at_
    rw [at_] at copy
    exact ⟨one.held copy,two.held copy⟩
  | succ m ih =>
    rw [alone_succ,alone_succ]
    exact ih.run

-- What comes back to where it was comes back there for ever.
theorem Stands.again (stands : Stands s ring line spu) (back : Stands (s.alone p) ring line spu) (k : Nat) :
    GoesAlike s.system (s.alone (p*k)).system := by
  induction k with
  | zero => exact stands.alike stands 0
  | succ k ih =>
    have further := stands.alike back (p*k)
    rw [← alone_add] at further
    rw [Nat.mul_succ,Nat.add_comm]
    exact ih.trans further

theorem Stands.marks_nothing (stands : Stands s ring line spu) (rests : spu.working = false) (i : Slot) : ¬(line.chunkNext i).Marked := by
  obtain ⟨_,ringed⟩ := stands.ringed
  intro marked
  rw [← stands.here] at marked
  obtain ⟨k,n,mark⟩ := ringed.custody.marking.owner i marked
  obtain rfl : k = 0 := Subsingleton.elim _ _
  rw [stands.at_] at mark
  cases spu with
  | idle => exact mark
  | claiming => exact mark
  | _ => cases rests

theorem claimChunk_none {line : CacheLine Nat} : claimChunk line = none ↔ line.chunkToProcess = none := by
  unfold claimChunk
  split
  · rename_i none
    exact ⟨fun _ => none,fun _ => rfl⟩
  · rename_i c some_
    rw [some_]
    exact ⟨nofun,nofun⟩

theorem chunkToProcess_none {line : CacheLine Nat} (none : line.chunkToProcess = none) (i : Slot) : line.mayProcess i = false := by
  unfold CacheLine.chunkToProcess at none
  split at none
  · cases none
  · exact CacheLine.lowest_none.mp none i

-- An SPU finds nothing to claim exactly on a line that is done.
theorem Stands.drained (stands : Stands s ring line (.claiming line)) : claimChunk line = none ↔ line.Drained := by
  have nothing := stands.marks_nothing rfl
  obtain ⟨_,ringed⟩ := stands.ringed
  have chained := stands.here ▸ ringed.custody.chained
  rw [claimChunk_none]
  constructor
  · intro none n
    obtain ⟨busy,j,at_⟩ := chained.followed n
    cases busy with
    | true => exact absurd (.inr ⟨j,at_⟩) (nothing (line.follow n))
    | false =>
      by_contra more
      have idle : ¬31 < (line.chunkNext (line.follow n)).byte := by
        rw [ChunkNext.busy_byte]
        exact fun other => other j at_
      have may := chunkToProcess_none none (line.follow n)
      simp [CacheLine.mayProcess,more,idle] at may
  · intro drained
    cases found : line.chunkToProcess with
    | none => rfl
    | some c =>
      obtain ⟨⟨n,idle⟩,more⟩ := chunkToProcess_idle found
      obtain ⟨m,same⟩ := chained.follows idle
      exact absurd (same ▸ drained m) more

-- A chunk at work is in the list and not at its end.
theorem Stands.rests (stands : Stands s ring line spu) (drained : line.Drained) : spu.working = false := by
  obtain ⟨_,ringed⟩ := stands.ringed
  by_contra works
  obtain ⟨i,n,mark⟩ := working_marks (Bool.eq_true_of_not_eq_false works)
  have mine := ringed.custody.marking.mine 0 i _ (by rw [stands.at_]; exact mark)
  have open_ := ringed.marked_open (i := i) (.inr ⟨n,mine⟩)
  obtain ⟨m,same⟩ := ringed.custody.chained.follows mine
  rw [stands.here] at open_ same
  exact open_ (same ▸ drained m)

-- And there the SPU stays.
theorem Stands.stays (stands : Stands s ring line spu) (drained : line.Drained) (k : Nat) :
    (s.alone k).system.line = line ∧ ((s.alone k).system.spus 0).working = false := by
  have both : Stands (s.alone k) ring line .idle ∨ Stands (s.alone k) ring line (.claiming line) := by
    induction k with
    | zero =>
      have rests := stands.rests drained
      cases spu with
      | idle => exact .inl stands
      | claiming cache =>
        obtain rfl := stands.copied rfl
        exact .inr stands
      | _ => cases rests
    | succ k ih =>
      rw [alone_add]
      rcases ih with idle | claiming
      · exact .inr idle.idle
      · exact .inl (claiming.claim_none (claiming.drained.mpr drained))
  rcases both with there | there <;> exact ⟨there.here,by rw [there.at_]; rfl⟩

theorem Stands.goes_on (stands : Stands s ring line spu) (tidy : spu.Tidy) (m : Nat) :
    ∃ line' spu', Stands (s.alone m) ring line' spu' ∧ spu'.Tidy := by
  induction m with
  | zero => exact ⟨line,spu,stands,tidy⟩
  | succ m ih =>
    obtain ⟨line',spu',there,tidy'⟩ := ih
    have all : ∀ k, ((s.alone m).system.spus k).Tidy := by
      intro k
      obtain rfl : k = 0 := Subsingleton.elim _ _
      rw [there.at_]
      exact tidy'
    have alike : GoesAlike (s.alone m).system (s.alone m).system := there.alike there 0
    obtain ⟨_,ringed⟩ := there.ringed
    have first : FirstTries (s.alone m).system 0 := by
      intro stores
      rw [there.at_] at stores
      apply there.held
      cases spu' with
      | claiming => rfl
      | storing => rfl
      | releasing => rfl
      | _ => cases stores
    rw [alone_add]
    exact ⟨_,_,there.step (tidy_spare all 0) rfl rfl fun copy => (alike.run.held copy).1,
      tidy_run all ringed.custody.spare 0 first 0⟩

end

end Spugl
