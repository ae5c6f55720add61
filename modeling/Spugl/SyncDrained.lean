import Spugl.RenderPipeline
import Spugl.SyncTest

namespace Spugl

section
variable {ι : Type} {s : Pipeline ι} {r : TriangleRing}

theorem Ringed.pointer (valid : Ringed s r) (used : s.system.line.chunkNext i ≠ .free) :
    s.system.line.chunkTriangle i = place (r.passed i) ∧ r.passed i ≤ r.records.length ∧ r.records.length ≤ r.passed i + 117 := by
  rw [← valid.line] at used ⊢
  exact ⟨valid.ring.pointer i used,valid.ring.near i used⟩

theorem Ringed.ends (valid : Ringed s r) : s.system.line.endTriangle = place r.records.length := by
  rw [← valid.line]; exact valid.ring.ends

-- Inside the window of the ring, pointers tell places apart.
theorem Ringed.distinct (valid : Ringed s r) (used : s.system.line.chunkNext i ≠ .free) (one : r.passed i ≤ m)
    (upto : m ≤ r.records.length) (two : r.passed i ≤ n) (upto' : n ≤ r.records.length) :
    place m = place n ↔ m = n := by
  have near := (valid.pointer used).2.2
  exact ⟨fun same => place_same same upto upto' (by omega) (by omega),fun same => by rw [same]⟩

-- The record at an SPU's pointer leads one place on, as long as it has work.
theorem Ringed.next (valid : Ringed s r) {v : Locals Nat} (behind : Behind r.records.length r.passed v p e)
    (used : s.system.line.chunkNext v.chunkToProcess ≠ .free) (less : p < e) :
    (s.system.ring v.chunkTriangle).next_triangle = place (p+1) := by
  have near := (valid.pointer used).2.2
  have from_ := behind.from_
  have known := behind.known
  rw [← valid.links,behind.pointer]
  exact valid.ring.links p (by omega) (by omega)

theorem Behind.forward {v : Locals Nat} (behind : Behind records passed v p e) (less : p < e) :
    Behind records passed {v with chunkTriangle := place (p+1)} (p+1) e :=
  ⟨rfl,behind.goal,Nat.le_succ_of_le behind.from_,less,behind.known⟩

theorem Ringed.arrived (valid : Ringed s r) {v : Locals Nat} (behind : Behind r.records.length r.passed v p e)
    (used : s.system.line.chunkNext v.chunkToProcess ≠ .free) : v.chunkTriangle = v.endTriangle ↔ p = e := by
  rw [behind.pointer,behind.goal]
  exact valid.distinct used behind.from_ (Nat.le_trans behind.upto behind.known)
    (Nat.le_trans behind.from_ behind.upto) behind.known

variable [DecidableEq ι]

-- A step of one SPU that leaves the line alone.
theorem Ringed.moved {spu : Spu Nat} {next : System Nat ι} (valid : Ringed s r) (k : ι) (line : next.line = s.system.line)
    (ring : next.ring = s.system.ring) (spus : next.spus = Function.update s.system.spus k spu)
    (custody : Custody next) (follows : spu.Follows r.records.length r.passed) :
    Ringed {s with system := next} r := by
  refine ⟨valid.ring,valid.line.trans line.symm,?_,valid.producer,custody,?_,?_⟩
  · intro p; rw [ring]; exact valid.links p
  · intro i marked; rw [line] at marked; exact valid.ahead i marked
  · intro k'
    rw [spus]
    by_cases isK : k' = k
    · subst isK; rw [Function.update_self]; exact follows
    · rw [Function.update_of_ne isK]; exact valid.follows k'

theorem Spu.Follows.frame {spu : Spu Nat} (follows : spu.Follows records passed) (later : records ≤ records')
    (same : ∀ v : Locals Nat, spu.Marks = v.Marks → passed' v.chunkToProcess = passed v.chunkToProcess) :
    spu.Follows records' passed' := by
  have behind : ∀ v p e, spu.Marks = v.Marks → Behind records passed v p e → Behind records' passed' v p e := by
    intro v p e marks old
    exact ⟨old.pointer,old.goal,by rw [same v marks]; exact old.from_,old.upto,Nat.le_trans old.known later⟩
  cases spu with
  | idle => trivial
  | claiming => trivial
  | scanning v =>
    obtain ⟨p,e,old,less⟩ := follows
    exact ⟨p,e,behind v p e rfl old,less⟩
  | splitting v =>
    obtain ⟨p,e,old,rest⟩ := follows
    exact ⟨p,e,behind v p e rfl old,rest⟩
  | storing v =>
    obtain ⟨p,e,old,rest⟩ := follows
    exact ⟨p,e,behind v p e rfl old,rest⟩
  | rendering v =>
    obtain ⟨p,e,old,rest⟩ := follows
    exact ⟨p,e,behind v p e rfl old,rest⟩
  | finishing v =>
    obtain ⟨p,e,old⟩ := follows
    exact ⟨p,e,behind v p e rfl old⟩
  | releasing v =>
    obtain ⟨p,e,old⟩ := follows
    exact ⟨p,e,behind v p e rfl old⟩

-- What a new line says about the records its slots have passed.
def Tallied (records : Nat) (line : CacheLine Nat) (passed : Slot → Nat) : Prop :=
  ∀ i q, line.chunkNext i ≠ .free → line.chunkTriangle i = place q → q ≤ records → records ≤ q+117 → passed i = q

-- A successful store, by an SPU whose own pointers start from those of slot `base`.
theorem Ringed.stored {done : Spu Nat} {next : System Nat ι} {after : CacheLine Nat} {Early : Nat → Prop}
    {Left : Slot → Nat → Nat → Prop} (valid : Ringed s r) (k : ι) (line : next.line = after)
    (ring : next.ring = s.system.ring) (spus : next.spus = Function.update s.system.spus k done)
    (custody : Custody next)
    (store : Store s.system.line after (s.system.spus k).Marks done.Marks Early Left) (base : Slot)
    (used : s.system.line.chunkNext base ≠ .free)
    (early : ∀ p, Early p → ∃ q, p = place q ∧ r.passed base ≤ q ∧ q < r.records.length)
    (left : ∀ i x p, Left i x p → ∃ q, p = place q ∧ r.passed base ≤ q ∧ q ≤ r.records.length)
    (follows : ∀ passed, Tallied r.records.length after passed → done.Follows r.records.length passed) :
    ∃ r', Ringed {s with system := next} r' ∧ r.Onward r' := by
  have moved : ∀ i, after.chunkNext i ≠ .free → ∃ j q, r.line.chunkNext j ≠ .free ∧ r.passed j ≤ q ∧
      q ≤ r.records.length ∧ after.chunkTriangle i = place q := by
    intro i now
    have stays : s.system.line.chunkNext i ≠ .free → after.chunkTriangle i = s.system.line.chunkTriangle i →
        ∃ j q, r.line.chunkNext j ≠ .free ∧ r.passed j ≤ q ∧ q ≤ r.records.length ∧ after.chunkTriangle i = place q := by
      intro old same
      obtain ⟨at_,upto,_⟩ := valid.pointer old
      exact ⟨i,_,by rw [valid.line]; exact old,Nat.le_refl _,upto,same.trans at_⟩
    rcases store.source now with ⟨old,same⟩ | ⟨⟨m,held⟩,same⟩ | written | written
    · exact stays old same
    · exact stays (valid.custody.marking.used held) same
    · obtain ⟨q,at_,from_,less⟩ := early _ written
      exact ⟨base,q,by rw [valid.line]; exact used,from_,Nat.le_of_lt less,at_⟩
    · obtain ⟨q,at_,from_,upto⟩ := left _ _ _ written
      exact ⟨base,q,by rw [valid.line]; exact used,from_,upto,at_⟩
  obtain ⟨a,allowed,line',links,producer,onward⟩ := valid.ring.read after (by rw [valid.line]; exact store.ends) moved
  have records := onward.records
  have counted : Tallied r.records.length after (r.act a).passed := by
    intro i q now at_ upto near
    apply (valid.ring.act a allowed).passed_eq
    · rw [line']; exact now
    · rw [line']; exact at_
    · rw [records]; exact upto
    · rw [records]; exact near
  have near := (valid.pointer used).2.2
  refine ⟨r.act a,⟨valid.ring.act a allowed,line'.trans line.symm,?_,producer.trans valid.producer,custody,?_,?_⟩,onward⟩
  · intro p; rw [links,ring]; exact valid.links p
  · intro i marked
    show _ < (r.act a).records.length
    rw [records]
    change (next.line.chunkNext i).Marked at marked
    rw [line] at marked
    have now := marked.used
    have stays : (s.system.line.chunkNext i).Marked → after.chunkTriangle i = s.system.line.chunkTriangle i →
        (r.act a).passed i < r.records.length := by
      intro old same
      have less := valid.ahead i old
      obtain ⟨at_,upto,window⟩ := valid.pointer old.used
      rw [counted i _ now (same.trans at_) upto window]
      exact less
    rcases store.back i marked with ⟨n,held⟩ | ⟨foreign,same⟩
    · rcases store.early i n held with ⟨⟨m,before⟩,same⟩ | written
      · exact stays (valid.custody.marking.lineMarked before) same
      · obtain ⟨q,at_,from_,less⟩ := early _ written
        rw [counted i q now at_ (Nat.le_of_lt less) (by omega)]
        exact less
    · exact stays (same ▸ marked) (store.kept i foreign (same ▸ marked)).2
  · intro k'
    show ((next.spus k').Follows (r.act a).records.length _)
    rw [records,spus]
    by_cases isK : k' = k
    · subst isK; rw [Function.update_self]; exact follows _ counted
    · rw [Function.update_of_ne isK]
      apply (valid.follows k').frame (Nat.le_refl _)
      intro v marks
      have held : (s.system.spus k').Marks v.chunkToProcess (.chunk true v.chunkNext) := by
        rw [marks]; exact .inl ⟨rfl,rfl⟩
      obtain ⟨same,triangle⟩ := store.kept _ (valid.custody.marking.foreign isK held) (valid.custody.marking.lineMarked held)
      have old := valid.custody.marking.used held
      obtain ⟨at_,upto,window⟩ := valid.pointer old
      exact counted _ _ (same ▸ old) (triangle.trans at_) upto window

theorem Ringed.move {spu : Spu Nat} (valid : Ringed s r) (k : ι) (marks : spu.Marks = (s.system.spus k).Marks)
    (spare : spu.SpareFits) (none : spu.copy = none) (follows : spu.Follows r.records.length r.passed) :
    Ringed {s with system := s.system.move k spu} r :=
  valid.moved k rfl rfl rfl (valid.custody.moved k rfl rfl marks spare (fun _ _ => rfl)
    (fun _ some => by rw [none] at some; cases some)) follows

theorem Ringed.getllar {spu : Spu Nat} (valid : Ringed s r) (k : ι) (marks : spu.Marks = (s.system.spus k).Marks)
    (spare : spu.SpareFits) (copy : spu.copy = some s.system.line) (follows : spu.Follows r.records.length r.passed) :
    Ringed {s with system := s.system.getllar k spu} r := by
  refine valid.moved k rfl rfl rfl (valid.custody.moved k rfl rfl marks spare ?_ ?_) follows
  · intro k' other; simp [System.getllar,System.move,other]
  · intro cache some; rw [copy] at some; exact (Option.some.inj some).symm

theorem Ringed.putllc {done failed : Spu Nat} {after cache : CacheLine Nat} (Early : Nat → Prop)
    (Left : Slot → Nat → Nat → Prop) (valid : Ringed s r) (k : ι) (copy : (s.system.spus k).copy = some cache)
    (store : s.system.held k = true → cache = s.system.line →
      Store s.system.line after (s.system.spus k).Marks done.Marks Early Left)
    (spare : s.system.held k = true → done.SpareFits) (base : Slot) (used : s.system.line.chunkNext base ≠ .free)
    (early : ∀ p, Early p → ∃ q, p = place q ∧ r.passed base ≤ q ∧ q < r.records.length)
    (left : ∀ i x p, Left i x p → ∃ q, p = place q ∧ r.passed base ≤ q ∧ q ≤ r.records.length)
    (follows : s.system.held k = true → cache = s.system.line → ∀ passed, Tallied r.records.length after passed →
      done.Follows r.records.length passed)
    (marks : failed.Marks = (s.system.spus k).Marks) (again : failed.SpareFits) (none : failed.copy = none)
    (behind : failed.Follows r.records.length r.passed) :
    ∃ r', Ringed {s with system := s.system.putllc k after done failed} r' ∧ r.Onward r' := by
  unfold System.putllc
  split
  · rename_i held
    have same := valid.custody.copy k cache held copy
    have stored := store held same
    exact valid.stored k rfl rfl rfl (valid.custody.stored k rfl rfl (fun _ => rfl) stored (spare held)) stored base used
      early left (follows held same)
  · exact ⟨r,valid.move k marks again none behind,.still rfl rfl rfl⟩

theorem Ringed.run (valid : Ringed s r) (k : ι) (sound : SpareSplits s.system k) :
    ∃ r', Ringed {s with system := s.system.run k} r' ∧ r.Onward r' := by
  have still : r.Onward r := .still rfl rfl rfl
  have spares := valid.custody.spare k
  have follows := valid.follows k
  have busy : ∀ v : Locals Nat, (s.system.spus k).Marks = v.Marks → s.system.line.chunkNext v.chunkToProcess ≠ .free := by
    intro v marks
    exact valid.custody.marking.used (k := k) (n := .chunk true v.chunkNext) (by rw [marks]; exact .inl ⟨rfl,rfl⟩)
  unfold System.run
  cases at_ : s.system.spus k with
  | idle => exact ⟨r,valid.getllar k (by rw [at_]; rfl) trivial rfl trivial,still⟩
  | claiming cache =>
    dsimp only
    cases ran : claimChunk cache with
    | none => exact ⟨r,valid.move k (by rw [at_]; rfl) trivial rfl trivial,still⟩
    | some pair =>
      obtain ⟨after,v⟩ := pair
      dsimp only
      -- Without the reservation the copy may be stale, and nothing is stored.
      by_cases held : s.system.held k = true
      · have same := valid.custody.copy k cache held (by rw [at_]; rfl)
        subst same
        have claims := claimChunk_claims valid.custody.chained ran
        have used : s.system.line.chunkNext v.chunkToProcess ≠ .free := by rw [claims.idle]; exact ChunkNext.chunk_used
        obtain ⟨pointer,upto,near⟩ := valid.pointer used
        rw [claims.triangle] at pointer
        have goal := claims.ends.trans valid.ends
        have less : r.passed v.chunkToProcess < r.records.length := by
          rcases Nat.lt_or_eq_of_le upto with less | same
          · exact less
          · exact absurd (by rw [pointer,goal,same]) claims.more
        refine valid.putllc (· = v.chunkTriangle) (fun _ _ _ => False) k (by rw [at_]; rfl) (fun _ _ => by rw [at_]; exact claims.store)
          (fun _ => claims.spare) v.chunkToProcess used ?_ ?_ ?_ (by rw [at_]; rfl) trivial rfl trivial
        · rintro p rfl
          exact ⟨_,pointer,Nat.le_refl _,less⟩
        · intro i x p none; exact none.elim
        · intro _ _ passed counted
          refine ⟨_,_,⟨pointer,goal,?_,upto,Nat.le_refl _⟩,less⟩
          have mine : v.Marks v.chunkToProcess (.chunk true v.chunkNext) := .inl ⟨rfl,rfl⟩
          have now : after.chunkNext v.chunkToProcess ≠ .free := by rw [claims.store.mine _ _ mine]; exact ChunkNext.chunk_used
          rcases claims.store.early _ _ mine with ⟨⟨m,before⟩,_⟩ | same
          · exact before.elim
          · exact Nat.le_of_eq (counted _ _ now (same.trans pointer) upto near)
      · simp only [System.putllc,held]
        exact ⟨r,valid.move k (by rw [at_]; rfl) trivial rfl trivial,still⟩
  | scanning v =>
    rw [at_] at spares follows
    obtain ⟨p,e,behind,less⟩ := follows
    have used := busy v (by rw [at_]; rfl)
    have next := valid.next behind used less
    dsimp only
    cases scan : findFirstTriangleTile (s.system.ring v.chunkTriangle) v.chunkStart v.chunkEnd with
    | some firstTile => exact ⟨r,valid.move k (by rw [at_]; rfl) (.inr spares) rfl ⟨p,e,behind,less,next⟩,still⟩
    | none =>
      dsimp only
      have forward : Behind r.records.length r.passed
          {v with chunkTriangle := (s.system.ring v.chunkTriangle).next_triangle} (p+1) e := by
        rw [next]; exact behind.forward less
      split
      · exact ⟨r,valid.move k (by rw [at_]; rfl) spares rfl ⟨_,_,forward⟩,still⟩
      · rename_i more
        have apart := (valid.arrived forward used).not.mp more
        have upto := forward.upto
        exact ⟨r,valid.move k (by rw [at_]; rfl) spares rfl ⟨_,_,forward,by omega⟩,still⟩
  | splitting v triangle firstTile =>
    rw [at_] at spares follows
    exact ⟨r,valid.getllar k (by rw [at_]; rfl) spares rfl follows,still⟩
  | storing v triangle firstTile cache =>
    rw [at_] at spares follows
    obtain ⟨p,e,behind,less,next⟩ := follows
    have used := busy v (by rw [at_]; rfl)
    have from_ := behind.from_
    have known := behind.known
    obtain ⟨pointer,upto,near⟩ := valid.pointer used
    have has := valid.custody.has (k := k) (v := v) (by rw [at_]; rfl)
    have again : (Spu.splitting (v.retry cache) triangle firstTile).SpareFits := by
      rcases spares with none | same
      · exact .inl none
      · cases atFree : v.freeChunk with
        | none => exact .inl (same ▸ atFree)
        | some f => refine .inr ?_; simp [Locals.retry,allocate,atFree,← same]
    have back : (Spu.splitting (v.retry cache) triangle firstTile).Follows r.records.length r.passed :=
      ⟨p,e,⟨behind.pointer,behind.goal,behind.from_,behind.upto,behind.known⟩,less,next⟩
    dsimp only
    by_cases held : s.system.held k = true
    · have same := valid.custody.copy k cache held (by rw [at_]; rfl)
      subst same
      have slot : Spare v firstTile s.system.line := by
        simp only [SpareSplits,at_] at sound
        exact sound held
      rcases splitChunk_store triangle.next_triangle has spares slot with
        ⟨_,_,after,ran,store⟩ | ⟨_,after,tailChunk,thisChunk,window,ran,store⟩
      · rw [ran]
        refine valid.putllc (fun _ => False) (fun i _ p => i = v.chunkToProcess ∧ p = s.system.line.chunkTriangle i) k
          (by rw [at_]; rfl) (fun _ _ => by rw [at_]; exact store) (fun _ => trivial) v.chunkToProcess used
          (fun _ none => none.elim) ?_ (fun _ _ _ _ => trivial) (by rw [at_]; rfl) again rfl back
        rintro i x p ⟨rfl,rfl⟩
        exact ⟨_,pointer,Nat.le_refl _,upto⟩
      · rw [ran]
        have marks : (Spu.rendering (v.stored tailChunk thisChunk window) triangle window).Marks =
            holding thisChunk tailChunk := by
          funext i n; simp [Spu.Marks,Locals.Marks,Locals.stored]
        have resliced := store.resliced
        refine valid.putllc (· = v.chunkTriangle) (SplitLeft v triangle.next_triangle firstTile tailChunk) k
          (by rw [at_]; rfl) (fun _ _ => by rw [at_,marks]; exact resliced) (fun _ => rfl)
          v.chunkToProcess used ?_ ?_ ?_ (by rw [at_]; rfl) again rfl back
        · rintro _ rfl
          exact ⟨p,behind.pointer,from_,by omega⟩
        · rintro i x q (⟨_,_,_,rfl⟩ | ⟨_,rfl⟩)
          · exact ⟨p,behind.pointer,from_,by omega⟩
          · exact ⟨p+1,next,by omega,by omega⟩
        · intro _ _ passed counted
          refine ⟨p,e,⟨behind.pointer,behind.goal,?_,behind.upto,known⟩,fun _ => next⟩
          show passed thisChunk ≤ p
          have mine : holding thisChunk tailChunk thisChunk (.chunk true tailChunk) := ⟨rfl,rfl⟩
          have now : after.merge_cache_blocks.chunkNext thisChunk ≠ .free := by rw [resliced.mine _ _ mine]; exact ChunkNext.chunk_used
          rcases resliced.early _ _ mine with ⟨⟨m,before⟩,same⟩ | same
          · rcases before with ⟨isC,_⟩ | ⟨_,reserved⟩
            · subst isC
              rw [counted _ _ now (same.trans pointer) upto near]
              exact from_
            · cases reserved
          · exact Nat.le_of_eq (counted _ _ now (same.trans behind.pointer) (by omega) (by omega))
    · have failed : ∀ (line : CacheLine Nat) (done : Spu Nat),
          s.system.putllc k line done (.splitting (v.retry cache) triangle firstTile) =
            s.system.move k (.splitting (v.retry cache) triangle firstTile) := by
        intro line done; simp [System.putllc,held]
      have moved : Ringed {s with system := s.system.move k (.splitting (v.retry cache) triangle firstTile)} r :=
        valid.move k (by rw [at_]; rfl) again rfl back
      split <;> rw [failed] <;> exact ⟨r,moved,still⟩
  | rendering v triangle window =>
    rw [at_] at spares follows
    obtain ⟨p,e,behind,next⟩ := follows
    have used := busy v (by rw [at_]; rfl)
    dsimp only
    split
    · exact ⟨r,valid.move k (by rw [at_]; rfl) spares rfl ⟨p,e,behind⟩,still⟩
    · rename_i more
      have apart := (valid.arrived behind used).not.mp more
      have less : p < e := Nat.lt_of_le_of_ne behind.upto apart
      have forward : Behind r.records.length r.passed {v with chunkTriangle := triangle.next_triangle} (p+1) e := by
        rw [next less]; exact behind.forward less
      split
      · exact ⟨r,valid.moved k rfl rfl rfl (valid.custody.moved k rfl rfl (by rw [at_]; rfl) spares (fun _ _ => rfl)
          (fun _ none => by cases none)) ⟨_,_,forward⟩,still⟩
      · refine ⟨r,valid.moved k rfl rfl rfl (valid.custody.moved k rfl rfl (by rw [at_]; rfl) spares (fun _ _ => rfl)
          (fun _ none => by cases none)) ⟨_,_,forward,?_⟩,still⟩
        intro less'
        exact valid.next forward used less'
  | finishing v =>
    rw [at_] at spares follows
    exact ⟨r,valid.getllar k (by rw [at_]; rfl) spares rfl follows,still⟩
  | releasing v cache =>
    rw [at_] at spares follows
    obtain ⟨p,e,behind⟩ := follows
    have used := busy v (by rw [at_]; rfl)
    have has := valid.custody.has (k := k) (v := v) (by rw [at_]; rfl)
    refine valid.putllc (fun _ => False) (fun i _ p => i = v.chunkToProcess ∧ p = v.chunkTriangle) k (by rw [at_]; rfl) ?_ (fun _ => trivial) v.chunkToProcess used
      (fun _ none => none.elim) ?_ (fun _ _ _ _ => trivial) (by rw [at_]; rfl) spares rfl ⟨p,e,behind⟩
    · rintro _ rfl
      rw [at_]
      exact (releaseChunk_store has spares).released
    · rintro i x q ⟨_,rfl⟩
      exact ⟨p,behind.pointer,behind.from_,Nat.le_trans behind.upto behind.known⟩

omit [DecidableEq ι] in
theorem start_ringed (ring : Nat → TriangleRecord Nat) :
    Ringed (Pipeline.start (ι := ι) ring) (.start fun p => (ring p).next_triangle) := by
  have custody : Custody (Pipeline.start (ι := ι) ring).system := start_custody 0 ring
  refine ⟨start_ring _,rfl,fun _ => rfl,rfl,custody,?_,fun _ => trivial⟩
  intro i marked
  obtain ⟨k,n,mark⟩ := custody.marking.owner i marked
  exact mark.elim

-- The producer's store of endTriangle makes one more record.
structure TriangleRing.Published (r : TriangleRing) (g : Grant) (later : TriangleRing) : Prop where
  records : later.records = r.records ++ [g.offset]
  passed : later.passed = r.passed
  used : later.line.chunkNext = r.line.chunkNext

theorem Ringed.act (valid : Ringed s r) (a : PipelineAction ι) (allowed : s.allowed SpareSplits a) :
    ∃ r', Ringed (s.act a) r' ∧ (r.Onward r' ∨ ∃ g, a = .publish ∧ s.producer = .written g ∧ r.Published g r') := by
  have still : r.Onward r := .still rfl rfl rfl
  cases a with
  | run k => exact (valid.run k allowed).imp fun _ both => ⟨both.1,.inl both.2⟩
  | getTriangleBuffer =>
    have ring := valid.ring.act .getTriangleBuffer (by
      show r.producer.grant = none
      rw [valid.producer]; exact allowed)
    cases got : s.system.line.getTriangleBuffer with
    | none =>
      have stepped : s.act .getTriangleBuffer = s := by simp only [Pipeline.act,got]
      rw [stepped]
      exact ⟨r,valid,.inl still⟩
    | some g =>
      have stepped : s.act .getTriangleBuffer = {s with producer := .granted g} := by simp only [Pipeline.act,got]
      rw [stepped]
      simp only [TriangleRing.act,valid.line,got] at ring
      exact ⟨_,⟨ring,rfl,valid.links,rfl,valid.custody,valid.ahead,valid.follows⟩,.inl (.still rfl valid.line.symm rfl)⟩
  | abandon =>
    have ring := valid.ring.act .abandon (by
      show r.producer.writing = false
      rw [valid.producer]; exact allowed)
    exact ⟨_,⟨ring,valid.line,valid.links,rfl,valid.custody,valid.ahead,valid.follows⟩,.inl (.still rfl rfl rfl)⟩
  | write covers =>
    have ring := valid.ring.act .write trivial
    by_cases granted : ∃ g, s.producer = .granted g
    · obtain ⟨g,at_⟩ := granted
      have stepped : s.act (.write covers) =
          ⟨s.system.act (.record g.offset ⟨covers,g.nextPointer⟩),.written g⟩ := by simp only [Pipeline.act,at_]
      rw [stepped]
      simp only [TriangleRing.act,valid.producer,at_] at ring
      have custody : Custody (s.system.act (.record g.offset ⟨covers,g.nextPointer⟩)) :=
        ⟨valid.custody.chained,valid.custody.copy,valid.custody.marking,valid.custody.spare⟩
      refine ⟨_,⟨ring,valid.line,?_,rfl,custody,valid.ahead,valid.follows⟩,.inl (.still rfl rfl rfl)⟩
      intro p
      show Function.update r.next_triangle g.offset g.nextPointer p =
        (Function.update s.system.ring g.offset ⟨covers,g.nextPointer⟩ p).next_triangle
      by_cases here : p = g.offset
      · subst here; simp
      · simpa [here] using valid.links p
    · have stepped : s.act (.write covers) = s := by
        unfold Pipeline.act
        dsimp only
        split
        · rename_i g at_; exact absurd ⟨g,at_⟩ granted
        · rfl
      rw [stepped]
      exact ⟨r,valid,.inl still⟩
  | publish =>
    have ring := valid.ring.act .publish trivial
    by_cases written : ∃ g, s.producer = .written g
    · obtain ⟨g,at_⟩ := written
      have stepped : s.act .publish = ⟨s.system.act (.advance g.nextPointer),.idle⟩ := by simp only [Pipeline.act,at_]
      rw [stepped]
      simp only [TriangleRing.act,valid.producer,at_] at ring
      have custody : Custody (s.system.act (.advance g.nextPointer)) := by
        refine ⟨⟨valid.custody.chained.cycle,valid.custody.chained.start⟩,?_,
          ⟨valid.custody.marking.mine,valid.custody.marking.once,valid.custody.marking.owner⟩,valid.custody.spare⟩
        intro k cache held; cases held
      have longer : (r.records ++ [g.offset]).length = r.records.length+1 := by simp
      refine ⟨_,⟨ring,?_,valid.links,rfl,custody,?_,?_⟩,.inr ⟨g,rfl,at_,rfl,rfl,rfl⟩⟩
      · show {r.line with endTriangle := g.nextPointer} = {s.system.line with endTriangle := g.nextPointer}
        rw [valid.line]
      · intro i marked
        show r.passed i < (r.records ++ [g.offset]).length
        rw [longer]
        exact Nat.lt_succ_of_lt (valid.ahead i marked)
      · intro k
        exact (valid.follows k).frame (by show _ ≤ (r.records ++ [g.offset]).length; omega) fun _ _ => rfl
    · have stepped : s.act .publish = s := by
        unfold Pipeline.act
        dsimp only
        split
        · rename_i g at_; exact absurd ⟨g,at_⟩ written
        · rfl
      rw [stepped]
      exact ⟨r,valid,.inl still⟩

theorem reached_ringed (path : Pipeline.Reached SpareSplits s) : ∃ r, Ringed s r := by
  refine Runs.Reached.invariant (fun s => ∃ r, Ringed s r) ?_ ?_ path
  · rintro _ ⟨ring,rfl⟩; exact ⟨_,start_ringed ring⟩
  · rintro _ _ ⟨r,valid⟩ ⟨a,allowed,rfl⟩; exact (valid.act a allowed).imp fun _ both => both.1

end

-- A step that issues a PUTLLC.
def Spu.stores : Spu Nat → Bool
  | .claiming cache => (claimChunk cache).isSome
  | .storing _ _ _ _ => true
  | .releasing _ _ => true
  | _ => false

-- Each section from GETLLAR to PUTLLC succeeds at its first try.
def FirstTries (s : System Nat ι) (k : ι) : Prop := (s.spus k).stores = true → s.held k = true

-- Between claiming and releasing a chunk.
def Spu.working : Spu τ → Bool
  | .idle => false
  | .claiming _ => false
  | _ => true

-- Then no attempt leaves a slot behind.
def Spu.Tidy : Spu τ → Prop
  | .splitting v _ _ => v.freeChunk = v.claimed
  | .storing v _ _ _ => v.freeChunk = v.claimed
  | _ => True

structure SyncDrained (s : System Nat ι) : Prop where
  unmarked : ∀ i, ¬(s.line.chunkNext i).Marked
  resting : ∀ k, (s.spus k).working = false
  caught : ∀ n, s.line.chunkTriangle (s.line.follow n) = s.line.endTriangle

section
variable {ι : Type} [DecidableEq ι] {s : Pipeline ι} {r : TriangleRing}

theorem System.putllc_held {t : System Nat ι} {line : CacheLine Nat} {done failed : Spu Nat} (held : t.held k = true) :
    (t.putllc k line done failed).spus = Function.update t.spus k done := by
  simp [System.putllc,held,System.move]

theorem tidy_run {t : System Nat ι} (tidy : ∀ k, (t.spus k).Tidy) (spares : ∀ k, (t.spus k).SpareFits) (k : ι)
    (first : FirstTries t k) : ∀ k', ((t.run k).spus k').Tidy := by
  have own : ∀ (spus : ι → Spu Nat) (spu : Spu Nat), spus = Function.update t.spus k spu → spu.Tidy →
      ∀ k', (spus k').Tidy := by
    rintro _ spu rfl mine k'
    by_cases isK : k' = k
    · subst isK; rw [Function.update_self]; exact mine
    · rw [Function.update_of_ne isK]; exact tidy k'
  have mine := tidy k
  have spare := spares k
  unfold FirstTries at first
  unfold System.run
  cases at_ : t.spus k with
  | idle => exact own _ _ rfl trivial
  | claiming cache =>
    rw [at_] at first
    dsimp only
    cases ran : claimChunk cache with
    | none => exact own _ _ rfl trivial
    | some pair => exact own _ _ (System.putllc_held (first (by simp [Spu.stores,ran]))) trivial
  | scanning v =>
    rw [at_] at spare
    dsimp only
    split
    · exact own _ _ rfl spare
    · split
      · exact own _ _ rfl trivial
      · exact own _ _ rfl trivial
  | splitting v triangle firstTile =>
    rw [at_] at mine
    exact own _ _ rfl mine
  | storing v triangle firstTile cache =>
    rw [at_] at first
    dsimp only
    split <;> exact own _ _ (System.putllc_held (first rfl)) trivial
  | rendering v triangle window =>
    dsimp only
    split
    · exact own _ _ rfl trivial
    · split
      · exact own _ _ rfl trivial
      · exact own _ _ rfl trivial
  | finishing v => exact own _ _ rfl trivial
  | releasing v cache =>
    rw [at_] at first
    exact own _ _ (System.putllc_held (first rfl)) trivial

omit [DecidableEq ι] in
theorem tidy_spare {t : System Nat ι} (tidy : ∀ k, (t.spus k).Tidy) (k : ι) : SpareSplits t k := by
  have mine := tidy k
  unfold SpareSplits
  cases at_ : t.spus k with
  | storing v triangle firstTile cache =>
    rw [at_] at mine
    intro _
    exact .inl mine
  | _ => trivial

theorem tidy_act (tidy : ∀ k, (s.system.spus k).Tidy) (valid : Ringed s r) (a : PipelineAction ι)
    (allowed : s.allowed FirstTries a) : ∀ k, ((s.act a).system.spus k).Tidy := by
  cases a with
  | run k => exact tidy_run tidy valid.custody.spare k allowed
  | getTriangleBuffer => unfold Pipeline.act; dsimp only; split <;> exact tidy
  | abandon => exact tidy
  | write covers => unfold Pipeline.act; dsimp only; split <;> exact tidy
  | publish => unfold Pipeline.act; dsimp only; split <;> exact tidy

theorem reached_tidy (path : Pipeline.Reached FirstTries s) :
    (∃ r, Ringed s r) ∧ ∀ k, (s.system.spus k).Tidy := by
  refine Runs.Reached.invariant (fun s => (∃ r, Ringed s r) ∧ ∀ k, (s.system.spus k).Tidy) ?_ ?_ path
  · rintro _ ⟨ring,rfl⟩
    exact ⟨⟨_,start_ringed ring⟩,fun _ => trivial⟩
  · rintro t _ ⟨⟨r,valid⟩,tidy⟩ ⟨a,allowed,rfl⟩
    refine ⟨(valid.act a ?_).imp fun _ both => both.1,tidy_act tidy valid a allowed⟩
    cases a with
    | run k => exact tidy_spare tidy k
    | getTriangleBuffer => exact allowed
    | abandon => exact allowed
    | write covers => trivial
    | publish => trivial

end

section
variable {ι : Type} {s : Pipeline ι} {r : TriangleRing}

theorem working_marks {spu : Spu τ} (works : spu.working = true) : ∃ i n, spu.Marks i (.chunk true n) := by
  cases spu with
  | idle => cases works
  | claiming => cases works
  | _ => exact ⟨_,_,.inl ⟨rfl,rfl⟩⟩

-- A slot that is busy or reserved is never at endTriangle.
theorem Ringed.marked_open (valid : Ringed s r) (marked : (s.system.line.chunkNext i).Marked) :
    s.system.line.chunkTriangle i ≠ s.system.line.endTriangle := by
  obtain ⟨at_,upto,near⟩ := valid.pointer marked.used
  rw [at_,valid.ends]
  exact place_apart (valid.ahead i marked) near

theorem Ringed.drained (valid : Ringed s r) :
    s.system.line.stillProcessingQueue = false ↔ SyncDrained s.system := by
  rw [CacheLine.stillProcessing_exact]
  constructor
  · intro caught
    have unmarked : ∀ i, ¬(s.system.line.chunkNext i).Marked := fun i marked =>
      valid.marked_open marked (caught i marked.used)
    refine ⟨unmarked,?_,?_⟩
    · intro k
      by_contra works
      obtain ⟨i,n,mark⟩ := working_marks (Bool.eq_true_of_not_eq_false works)
      exact unmarked i (valid.custody.marking.lineMarked mark)
    · intro n
      obtain ⟨busy,j,at_⟩ := valid.custody.chained.followed n
      exact caught _ (by rw [at_]; exact nofun)
  · rintro ⟨unmarked,_,caught⟩ i used
    cases at_ : s.system.line.chunkNext i with
    | free => exact absurd at_ used
    | reserved => exact absurd (.inl at_) (unmarked i)
    | chunk busy j =>
      obtain ⟨n,same⟩ := valid.custody.chained.follows at_
      exact same ▸ caught n

end

theorem sync_drained {ι : Type} [DecidableEq ι] {s : Pipeline ι} (path : Pipeline.Reached FirstTries s) :
    s.system.line.stillProcessingQueue = false ↔ SyncDrained s.system := by
  obtain ⟨⟨r,valid⟩,_⟩ := reached_tidy path
  exact valid.drained

instance (s : Pipeline ι) : (a : PipelineAction ι) → Decidable (s.allowed FirstTries a)
  | .run k => inferInstanceAs (Decidable ((s.system.spus k).stores = true → s.system.held k = true))
  | .getTriangleBuffer => inferInstanceAs (Decidable (s.producer.grant = none))
  | .abandon => inferInstanceAs (Decidable (s.producer.writing = false))
  | .write _ => .isTrue trivial
  | .publish => .isTrue trivial

-- One triangle of tiles 5 and 2000, drawn by two SPUs of which the second finds
-- the first at work.
def syncRun : List (PipelineAction (Fin 2)) :=
  [.getTriangleBuffer,.write fun t => t == 5 || t == 2000,.publish] ++ List.replicate 5 (.run 0) ++ List.replicate 4 (.run 1)

def syncStart : Pipeline (Fin 2) := .start fun _ => ⟨fun _ => false,0⟩

theorem sync_drained_busy : (syncRun.foldl Pipeline.act syncStart).system.line.stillProcessingQueue = false ↔
    SyncDrained (syncRun.foldl Pipeline.act syncStart).system :=
  sync_drained (Runs.Reached.follow (.start ⟨_,rfl⟩) (by decide +kernel))

end Spugl
