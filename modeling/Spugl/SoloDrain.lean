import Spugl.SoloRuns

namespace Spugl

-- The records from a pointer on.
def remaining (endTriangle p : Nat) : Nat := (endTriangle / TRIANGLE_RECORD_SIZE + 118 - p / TRIANGLE_RECORD_SIZE) % 118

theorem remaining_place (upto : q ≤ n) (near : n ≤ q+117) : remaining (place n) (place q) = n - q := by
  unfold remaining place TRIANGLE_RECORD_SIZE
  omega

-- How much there is to do at most: a tail begins behind its chunk, and all other pieces of
-- a claim have passed a record more.
def breadth (start : Nat) : Nat := 4097 - min start 4096

namespace CacheLine

def load (line : CacheLine Nat) (i : Slot) : Nat :=
  match line.chunkNext i with
  | .chunk false _ => breadth (line.chunkStart i) * 8195 ^ remaining line.endTriangle (line.chunkTriangle i)
  | _ => 0

def weight (line : CacheLine Nat) : Nat := ∑ i, line.load i

theorem breadth_bounds (start : Nat) : 1 ≤ breadth start ∧ breadth start ≤ 4097 := by
  unfold breadth
  omega

theorem breadth_less (low : a < b) (small : b ≤ 4096) : breadth b + 1 ≤ breadth a := by
  unfold breadth
  omega

-- A claim of chunk c leaves less than it found: the tail e, the head c and the part f that
-- was drawn.
theorem weight_less {line next : CacheLine Nat} {c e f : Slot} {T H : Nat}
    (classes : ∀ i n, next.chunkNext i = .chunk false n → (i ≠ c ∧ next.load i = line.load i) ∨ (i = e ∧ next.load i ≤ T) ∨
      (i = c ∧ next.load i ≤ H) ∨ (i = f ∧ next.load i ≤ H)) (less : T + H + H < line.load c) : next.weight < line.weight := by
  have each : ∀ i, next.load i ≤ (((if i = c then 0 else line.load i) + (if i = e then T else 0)) + (if i = c then H else 0)) +
      (if i = f then H else 0) := by
    intro i
    by_cases idle : ∃ n, next.chunkNext i = .chunk false n
    · obtain ⟨n,idle⟩ := idle
      rcases classes i n idle with ⟨other,same⟩ | ⟨rfl,few⟩ | ⟨rfl,few⟩ | ⟨rfl,few⟩
      · rw [if_neg other,same]
        omega
      · rw [if_pos (rfl : i = i)]
        omega
      · simp only [if_true]
        omega
      · rw [if_pos (rfl : i = i)]
        omega
    · have none : next.load i = 0 := by
        unfold load
        split
        · rename_i n at_
          exact absurd ⟨n,at_⟩ idle
        · rfl
      rw [none]
      exact Nat.zero_le _
  have sum := Finset.sum_le_sum fun i (_ : i ∈ Finset.univ) => each i
  simp only [Finset.sum_add_distrib,Finset.sum_ite_eq',Finset.mem_univ,if_true] at sum
  have rest : (∑ i, if i = c then 0 else line.load i) + line.load c = line.weight := by
    have split : ∀ i, line.load i = (if i = c then 0 else line.load i) + (if i = c then line.load c else 0) := by
      intro i
      by_cases isC : i = c
      · simp [isC]
      · simp [isC]
    unfold weight
    rw [Finset.sum_congr rfl fun i _ => split i,Finset.sum_add_distrib]
    simp
  have total : next.weight ≤ _ := sum
  omega

theorem load_same {line next : CacheLine Nat} (idle : next.chunkNext i = .chunk false n) (was : ∃ m, line.chunkNext i = .chunk false m)
    (start : next.chunkStart i = line.chunkStart i) (triangle : next.chunkTriangle i = line.chunkTriangle i)
    (ends : next.endTriangle = line.endTriangle) : next.load i = line.load i := by
  obtain ⟨m,was⟩ := was
  unfold load
  rw [idle,was,start,triangle,ends]

theorem load_idle {line : CacheLine Nat} (idle : line.chunkNext i = .chunk false n) :
    line.load i = breadth (line.chunkStart i) * 8195 ^ remaining line.endTriangle (line.chunkTriangle i) := by
  unfold load
  rw [idle]

theorem load_passed {line : CacheLine Nat} (idle : line.chunkNext i = .chunk false n) (triangle : line.chunkTriangle i = p)
    (passed : remaining line.endTriangle p ≤ d) : line.load i ≤ 4097 * 8195^d := by
  rw [load_idle idle,triangle]
  exact Nat.mul_le_mul (breadth_bounds _).2 (Nat.pow_le_pow_right (by decide) passed)

end CacheLine

theorem loads_less (narrow : b+1 ≤ a) : b * 8195^(d+1) + 4097 * 8195^d + 4097 * 8195^d < a * 8195^(d+1) := by
  have wide := Nat.mul_le_mul_right (8195^(d+1)) narrow
  have positive : 0 < 8195^d := Nat.pow_pos (by decide)
  rw [Nat.succ_mul] at wide
  have deep : 8195^(d+1) = 8195 * 8195^d := Nat.pow_succ'
  omega

-- A run whose sections store at their first try splits with slots of its own.
theorem reached_spare {ι : Type} [DecidableEq ι] {s : Pipeline ι} (path : Pipeline.Reached FirstTries s) :
    Pipeline.Reached SpareSplits s := by
  induction path with
  | start begun => exact .start begun
  | step before moved ih =>
    obtain ⟨a,allowed,rfl⟩ := moved
    refine ih.step ⟨a,?_,rfl⟩
    cases a with
    | run k => exact tidy_spare (reached_tidy before).2 k
    | getTriangleBuffer => exact allowed
    | abandon => exact allowed
    | write covers => trivial
    | publish => trivial

-- The branch that goes wrong: a tail is needed, and there is no slot for it.
def Spu.Full : Spu Nat → Prop
  | .storing v _ firstTile cache => needsTail v firstTile = true ∧ (allocate v cache).1 = none
  | _ => False

theorem full_works {spu : Spu Nat} (full : spu.Full) : spu.working = true := by
  cases spu with
  | storing => rfl
  | _ => exact full.elim

section
variable {s : Pipeline (Fin 1)} {ring : Nat → TriangleRecord Nat} {line after : CacheLine Nat} {spu : Spu Nat} {v : Locals Nat}

-- A pointer in front of the end, and its record's link.
theorem Ringed.left {r : TriangleRing} {v : Locals Nat} (ringed : Ringed s r) (behind : Behind r.records.length r.passed v p e)
    (used : s.system.line.chunkNext v.chunkToProcess ≠ .free) (goal : v.endTriangle = s.system.line.endTriangle) (less : p < e) :
    ∃ d, remaining s.system.line.endTriangle v.chunkTriangle = d+1 ∧ remaining s.system.line.endTriangle (place (p+1)) = d ∧
      (place (p+1) = v.endTriangle ↔ d = 0) := by
  have near := (ringed.pointer used).2.2
  have from_ := behind.from_
  have known := behind.known
  have ends : e = r.records.length :=
    (ringed.distinct used (by omega) known (by omega) (Nat.le_refl _)).mp (behind.goal.symm.trans (goal.trans ringed.ends))
  subst ends
  refine ⟨r.records.length - (p+1),?_,?_,?_⟩
  · rw [ringed.ends,behind.pointer,remaining_place (by omega) (by omega)]
    omega
  · rw [ringed.ends,remaining_place (by omega) (by omega)]
  · rw [behind.goal,ringed.distinct used (by omega) (by omega) (by omega) (Nat.le_refl _)]
    omega

theorem Stands.scanning_left (stands : Stands s ring line (.scanning v)) (goal : v.endTriangle = line.endTriangle) :
    ∃ d, remaining line.endTriangle v.chunkTriangle = d+1 ∧
      remaining line.endTriangle (ring v.chunkTriangle).next_triangle = d ∧
      ((ring v.chunkTriangle).next_triangle = v.endTriangle ↔ d = 0) := by
  obtain ⟨r,ringed⟩ := stands.ringed
  have follows := ringed.follows 0
  rw [stands.at_] at follows
  obtain ⟨p,e,behind,less⟩ := follows
  have used := stands.used (i := v.chunkToProcess) (n := .chunk true v.chunkNext) (.inl ⟨rfl,rfl⟩)
  have next := ringed.next behind used less
  rw [stands.records] at next
  have left := ringed.left behind used (by rw [stands.here]; exact goal) less
  rw [stands.here] at left
  rw [next]
  exact left

theorem Stands.rendering_left (stands : Stands s ring line (.rendering v triangle window)) (goal : v.endTriangle = line.endTriangle)
    (more : v.chunkTriangle ≠ v.endTriangle) :
    ∃ d, remaining line.endTriangle v.chunkTriangle = d+1 ∧ remaining line.endTriangle triangle.next_triangle = d ∧
      (triangle.next_triangle = v.endTriangle ↔ d = 0) := by
  obtain ⟨r,ringed⟩ := stands.ringed
  have follows := ringed.follows 0
  rw [stands.at_] at follows
  obtain ⟨p,e,behind,next⟩ := follows
  have used := stands.used (i := v.chunkToProcess) (n := .chunk true v.chunkNext) (.inl ⟨rfl,rfl⟩)
  have less : p < e := Nat.lt_of_le_of_ne behind.upto ((ringed.arrived behind used).not.mp more)
  have left := ringed.left behind used (by rw [stands.here]; exact goal) less
  rw [stands.here] at left
  rw [next less]
  exact left

-- The SPU finds the line full at none of its next m steps.
def Pipeline.Quiet (s : Pipeline (Fin 1)) (m : Nat) : Prop := ∀ j, j < m → ¬((s.alone j).system.spus 0).Full

theorem Stands.quiet (stands : Stands s ring line spu) (open_ : ¬spu.Full) : s.Quiet 1 := by
  intro j less
  obtain rfl : j = 0 := by omega
  have at_ : (s.alone 0).system.spus 0 = spu := stands.at_
  rw [at_]
  exact open_

def Leads (s : Pipeline (Fin 1)) (ring : Nat → TriangleRecord Nat) (line : CacheLine Nat) (spu : Spu Nat) : Prop :=
  ∃ m, Stands (s.alone m) ring line spu ∧ s.Quiet m

theorem Leads.later (quiet : s.Quiet m) (leads : Leads (s.alone m) ring line spu) : Leads s ring line spu := by
  obtain ⟨k,there,quiet'⟩ := leads
  rw [← alone_add] at there
  refine ⟨m+k,there,?_⟩
  intro j less
  by_cases early : j < m
  · exact quiet j early
  · have late := quiet' (j-m) (by omega)
    rw [← alone_add,Nat.add_sub_cancel' (by omega)] at late
    exact late

theorem Stands.leads (stands : Stands s ring line spu) (open_ : ¬spu.Full) {line' : CacheLine Nat} {spu' : Spu Nat}
    (next : Stands (s.alone 1) ring line' spu') : Leads s ring line' spu' := ⟨1,next,stands.quiet open_⟩

-- The scan of a chunk ends behind its last record or at a triangle that covers a tile of it.
theorem Stands.scan (stands : Stands s ring line (.scanning v)) (goal : v.endTriangle = line.endTriangle) : ∃ q,
    (Leads s ring line (.finishing {v with chunkTriangle := q}) ∧
      remaining line.endTriangle q < remaining line.endTriangle v.chunkTriangle) ∨
    ∃ firstTile, findFirstTriangleTile (ring q) v.chunkStart v.chunkEnd = some firstTile ∧
      Leads s ring line (.splitting {v with chunkTriangle := q} (ring q) firstTile) ∧
      remaining line.endTriangle q ≤ remaining line.endTriangle v.chunkTriangle ∧
      ∃ d, remaining line.endTriangle q = d+1 ∧ remaining line.endTriangle (ring q).next_triangle = d := by
  obtain ⟨d,left,next,arrived⟩ := stands.scanning_left goal
  induction d generalizing s v with
  | zero =>
    cases found : findFirstTriangleTile (ring v.chunkTriangle) v.chunkStart v.chunkEnd with
    | some firstTile =>
      exact ⟨v.chunkTriangle,.inr ⟨firstTile,found,stands.leads id (stands.scan_some found),Nat.le_refl _,0,left,next⟩⟩
    | none =>
      have turn := stands.scan_none found
      rw [if_pos (arrived.mpr rfl)] at turn
      exact ⟨_,.inl ⟨stands.leads id turn,by omega⟩⟩
  | succ d ih =>
    cases found : findFirstTriangleTile (ring v.chunkTriangle) v.chunkStart v.chunkEnd with
    | some firstTile =>
      exact ⟨v.chunkTriangle,.inr ⟨firstTile,found,stands.leads id (stands.scan_some found),Nat.le_refl _,d+1,left,next⟩⟩
    | none =>
      have turn := stands.scan_none found
      rw [if_neg fun same => by have := arrived.mp same; omega] at turn
      obtain ⟨d',left',next',arrived'⟩ := turn.scanning_left goal
      simp only [next] at left'
      obtain rfl : d' = d := by omega
      obtain ⟨q,result⟩ := ih turn goal (by simp only [next]) next' arrived'
      simp only [next] at result
      have first := stands.quiet id
      refine ⟨q,?_⟩
      rcases result with ⟨there,less⟩ | ⟨firstTile,found,there,less,rest⟩
      · exact .inl ⟨there.later first,by omega⟩
      · exact .inr ⟨firstTile,found,there.later first,by omega,rest⟩

-- And rendering passes one record at least.
theorem Stands.render (stands : Stands s ring line (.rendering v triangle window)) (goal : v.endTriangle = line.endTriangle)
    (more : v.chunkTriangle ≠ v.endTriangle) : ∃ q, Leads s ring line (.finishing {v with chunkTriangle := q}) ∧
      remaining line.endTriangle q < remaining line.endTriangle v.chunkTriangle := by
  obtain ⟨d,left,next,arrived⟩ := stands.rendering_left goal more
  have first := stands.quiet id
  induction d generalizing s v triangle with
  | zero =>
    have turn := stands.render_turn more
    split at turn
    · exact ⟨_,⟨1,turn,first⟩,by simp only [next]; omega⟩
    · have finished := turn.render_end (arrived.mpr rfl)
      exact ⟨_,(turn.leads id finished).later first,by simp only [next]; omega⟩
  | succ d ih =>
    have turn := stands.render_turn more
    split at turn
    · exact ⟨_,⟨1,turn,first⟩,by simp only [next]; omega⟩
    · have more' : triangle.next_triangle ≠ v.endTriangle := fun same => by have := arrived.mp same; omega
      obtain ⟨d',left',next',arrived'⟩ := turn.rendering_left goal more'
      simp only [next] at left'
      obtain rfl : d' = d := by omega
      obtain ⟨q,there,less⟩ := ih turn goal more' (by simp only [next]) next' arrived' (turn.quiet id)
      simp only [next] at less
      exact ⟨q,there.later first,by omega⟩

-- Without a free slot a claim marks its chunk and nothing else.
theorem claimChunk_back {after : CacheLine Nat} (ran : claimChunk line = some (after,v)) (none : v.freeChunk = none) :
    after.setNext v.chunkToProcess (.chunk false v.chunkNext) = line := by
  obtain ⟨c,n,free,idle,_,_,_,rfl,rfl⟩ := claimChunk_cases ran
  dsimp only at none ⊢
  rw [none]
  simp only [CacheLine.claimed,CacheLine.setNext,Function.update_idem]
  rw [← idle,Function.update_eq_self]

theorem allocate_none {cache : CacheLine Nat} (full : (allocate v cache).1 = none) : v.freeChunk = none ∧ (allocate v cache).2.2 = cache := by
  unfold allocate at full ⊢
  split
  · exact ⟨‹_›,rfl⟩
  · rename_i f at_
    rw [at_] at full
    cases full

-- The chunk comes back with the triangle the SPU has got to.
theorem Stands.gives_back (stands : Stands s ring line (.finishing v)) : ∃ next, Leads s ring next .idle ∧
    next.endTriangle = line.endTriangle ∧ ∀ i n, next.chunkNext i = .chunk false n →
      ((∃ m, line.chunkNext i = .chunk false m) ∧ next.chunkStart i = line.chunkStart i ∧
        next.chunkTriangle i = line.chunkTriangle i) ∨ (i = v.chunkToProcess ∧ next.chunkTriangle i = v.chunkTriangle) := by
  have released : Store line (releaseChunk v line) v.Marks (fun _ _ => False) (fun _ => False)
      (fun i _ p => i = v.chunkToProcess ∧ p = v.chunkTriangle) := releaseChunk_store (stands.has rfl) stands.fits
  have stored := released.released
  have ready := stands.finish
  exact ⟨_,(ready.leads id ready.release).later (stands.quiet id),stored.ends,stored.left⟩

theorem Claims.left {after : CacheLine Nat} (claims : Claims line after v) (idle : after.chunkNext i = .chunk false n) :
    i ≠ v.chunkToProcess ∧ (∃ m, line.chunkNext i = .chunk false m) ∧ after.chunkStart i = line.chunkStart i ∧
      after.chunkTriangle i = line.chunkTriangle i := by
  refine ⟨?_,(claims.store.left i n idle).resolve_right id⟩
  rintro rfl
  rw [claims.store.has.busy] at idle
  cases idle

-- A chunk without a tile of its triangles, or one in which the SPU has found one.
theorem Stands.passes (stands : Stands s ring after (.finishing {v with chunkTriangle := q})) (claims : Claims line after v)
    (less : remaining line.endTriangle q < remaining line.endTriangle v.chunkTriangle) : ∃ next,
      Leads s ring next .idle ∧ next.endTriangle = line.endTriangle ∧ next.weight < line.weight := by
  obtain ⟨next,there,ends,left⟩ := stands.gives_back
  have ends' : next.endTriangle = line.endTriangle := ends.trans claims.store.ends
  obtain ⟨d,deep⟩ : ∃ d, remaining line.endTriangle v.chunkTriangle = d+1 := ⟨_,(Nat.succ_pred (by omega)).symm⟩
  refine ⟨next,there,ends',?_⟩
  refine CacheLine.weight_less (c := v.chunkToProcess) (e := 0) (f := 0) (T := 0 * 8195^(d+1)) (H := 4097 * 8195^d) ?_ ?_
  · intro i n idle
    rcases left i n idle with ⟨⟨m,was⟩,start,triangle⟩ | ⟨rfl,triangle⟩
    · obtain ⟨other,was',start',triangle'⟩ := claims.left was
      exact .inl ⟨other,CacheLine.load_same idle was' (start.trans start') (triangle.trans triangle') ends'⟩
    · exact .inr (.inr (.inl ⟨rfl,CacheLine.load_passed (p := q) idle triangle (by rw [ends']; omega)⟩))
  · rw [CacheLine.load_idle claims.idle,claims.start,claims.triangle,deep]
    exact loads_less (CacheLine.breadth_bounds _).1

-- The line that a relinquished claim leaves is the one it was made on.
theorem Stands.relinquishes (stands : Stands s ring after (.storing {v with chunkTriangle := q} triangle firstTile after))
    (ran : claimChunk line = some (after,v)) (claims : Claims line after v)
    (full : Spu.Full (.storing {v with chunkTriangle := q} triangle firstTile after)) : Stands (s.alone 1) ring line .idle := by
  have same : v.freeChunk = v.claimed := claims.spare
  have none := allocate_none full.2
  have split := splitChunk_relinquish full.1 full.2 triangle.next_triangle
  rw [none.2] at split
  have back : after.setNext v.chunkToProcess (.chunk false v.chunkNext) = line := claimChunk_back ran none.1
  have gone := stands.relinquish same split
  dsimp only at gone
  rw [back] at gone
  exact gone

theorem Stands.reslices (stands : Stands s ring after (.storing {v with chunkTriangle := q} triangle firstTile after))
    (claims : Claims line after v) (low : v.chunkStart ≤ firstTile) (high : firstTile ≤ v.chunkEnd)
    (notFull : ¬Spu.Full (.storing {v with chunkTriangle := q} triangle firstTile after))
    (upto : remaining line.endTriangle q ≤ remaining line.endTriangle v.chunkTriangle)
    (here : remaining line.endTriangle q = e+1) (behind : remaining line.endTriangle triangle.next_triangle = e) : ∃ next,
      Leads s ring next .idle ∧ next.endTriangle = line.endTriangle ∧ next.weight < line.weight := by
  have same : v.freeChunk = v.claimed := claims.spare
  rcases splitChunk_store triangle.next_triangle (stands.has rfl) (.inr same) (.inl same) with full | ⟨_,resliced⟩
  · exact absurd ⟨full.1,full.2.1⟩ notFull
  obtain ⟨after',tailChunk,thisChunk,window,split,store⟩ := resliced
  have stored := store.resliced
  have rendering := stands.reslice same split
  have ends : after'.merge_cache_blocks.endTriangle = line.endTriangle := stored.ends.trans claims.store.ends
  have goal : v.endTriangle = after'.merge_cache_blocks.endTriangle := claims.ends.trans ends.symm
  have more : q ≠ v.endTriangle := by
    rintro rfl
    rw [claims.ends] at here
    unfold remaining at here
    omega
  obtain ⟨q',finished,less⟩ := rendering.render goal more
  obtain ⟨m,finishing,quiet⟩ := finished
  obtain ⟨next,there,ends',left⟩ := finishing.gives_back
  rw [ends] at ends'
  obtain ⟨d,deep⟩ : ∃ d, remaining line.endTriangle v.chunkTriangle = d+1 := ⟨_,(Nat.succ_pred (by omega)).symm⟩
  refine ⟨next,(there.later quiet).later (stands.quiet notFull),ends',?_⟩
  obtain ⟨narrow,small⟩ : v.chunkStart < nextBlockStart v firstTile ∧ nextBlockStart v firstTile ≤ 4096 := by
    have bounded := claims.bounded
    unfold nextBlockStart NUMBER_OF_TILES_PER_CHUNK
    split <;> omega
  rw [ends] at less
  refine CacheLine.weight_less (c := v.chunkToProcess) (e := tailChunk) (f := thisChunk)
    (T := breadth (nextBlockStart v firstTile) * 8195^(d+1)) (H := 4097 * 8195^d) ?_ ?_
  · intro i n idle
    rcases left i n idle with ⟨⟨m,was⟩,start,triangle⟩ | ⟨isThis,triangle⟩
    · rcases stored.left i m was with ⟨⟨m',was'⟩,start',triangle'⟩ | ⟨_,isTail,starts,points⟩ | ⟨isHead,points⟩
      · obtain ⟨other,old,start'',triangle''⟩ := claims.left was'
        exact .inl ⟨other,CacheLine.load_same idle old ((start.trans start').trans start'')
          ((triangle.trans triangle').trans triangle'') ends'⟩
      · refine .inr (.inl ⟨isTail,?_⟩)
        rw [CacheLine.load_idle idle,start,starts,triangle,points,ends']
        exact Nat.mul_le_mul_left _ (Nat.pow_le_pow_right (by decide) (by dsimp only; omega))
      · exact .inr (.inr (.inl ⟨isHead,CacheLine.load_passed (p := _) idle (triangle.trans points) (by rw [ends']; omega)⟩))
    · exact .inr (.inr (.inr ⟨isThis,CacheLine.load_passed (p := q') idle triangle (by rw [ends']; simp only [Locals.stored] at less; omega)⟩))
  · rw [CacheLine.load_idle claims.idle,claims.start,claims.triangle,deep]
    exact loads_less (CacheLine.breadth_less narrow small)

theorem Leads.claiming (leads : Leads s ring line .idle) : Leads s ring line (.claiming line) := by
  obtain ⟨m,there,quiet⟩ := leads
  exact (there.leads id there.idle).later quiet

-- From one claim to the next: the line has less to do, or stands as it did.
theorem Stands.claims (stands : Stands s ring line (.claiming line)) (ran : claimChunk line = some (after,v)) :
    (∃ next, Leads s ring next (.claiming next) ∧ next.weight < line.weight) ∨
    ∃ m, ((s.alone m).system.spus 0).Full ∧ Stands (s.alone (m+1+1)) ring line (.claiming line) := by
  obtain ⟨_,ringed⟩ := stands.ringed
  have claims := claimChunk_claims (stands.here ▸ ringed.custody.chained) ran
  have first := stands.claim ran
  have quiet := stands.quiet id
  obtain ⟨q,scanned⟩ := first.scan (claims.ends.trans claims.store.ends.symm)
  rw [claims.store.ends] at scanned
  rcases scanned with ⟨⟨m,finishing,quiet'⟩,less⟩ | ⟨firstTile,found,⟨m,splitting,quiet'⟩,upto,e,here,behind⟩
  · obtain ⟨next,there,_,lighter⟩ := finishing.passes claims less
    exact .inl ⟨next,((there.later quiet').later quiet).claiming,lighter⟩
  · have storing := splitting.split claims.spare
    obtain ⟨low,high,_⟩ := findFirst_some found
    by_cases full : Spu.Full (.storing {v with chunkTriangle := q} (ring q) firstTile after)
    · obtain ⟨n,there,_⟩ := (splitting.leads id storing).later quiet' |>.later quiet
      refine .inr ⟨n,?_,?_⟩
      · rw [there.at_]
        exact full
      · rw [alone_add,alone_add]
        exact (there.relinquishes ran claims full).idle
    · obtain ⟨next,there,_,lighter⟩ := storing.reslices claims low high full upto here behind
      exact .inl ⟨next,(((there.later (splitting.quiet id)).later quiet').later quiet).claiming,lighter⟩

-- Where the SPU by itself gets to: the end of all chunks, or round and round.
theorem Stands.settles (stands : Stands s ring line (.claiming line)) :
    (∃ m, (s.alone m).system.line.Drained ∧ ∀ j, ¬((s.alone j).system.spus 0).Full) ∨
      (∃ m, ((s.alone m).system.spus 0).Full) ∧ ∀ m, ¬(s.alone m).system.line.Drained := by
  induction weight : line.weight using Nat.strong_induction_on generalizing s line with
  | _ w ih =>
    cases ran : claimChunk line with
    | none =>
      have drained := stands.drained.mp ran
      refine .inl ⟨0,stands.here.symm ▸ drained,?_⟩
      intro j full
      have rests := (stands.stays drained j).2
      rw [full_works full] at rests
      cases rests
    | some pair =>
      obtain ⟨after,v⟩ := pair
      have undone : ¬line.Drained := by
        intro drained
        rw [stands.drained.mpr drained] at ran
        cases ran
      -- Whatever is drained once is drained later.
      have later : ∀ m k, m ≤ k → (s.alone m).system.line.Drained → (s.alone k).system.line.Drained := by
        intro m k upto drained
        obtain ⟨line',spu',there,_⟩ := stands.goes_on trivial m
        rw [there.here] at drained
        have stays := (there.stays drained (k-m)).1
        rw [← alone_add,Nat.add_sub_cancel' upto] at stays
        rw [stays]
        exact drained
      rcases stands.claims ran with ⟨next,⟨k,there,quiet⟩,lighter⟩ | ⟨m,full,back⟩
      · rcases ih _ (weight ▸ lighter) there rfl with ⟨m,drained,never⟩ | ⟨⟨m,full⟩,never⟩
        · rw [← alone_add] at drained
          refine .inl ⟨k+m,drained,?_⟩
          intro j
          by_cases early : j < k
          · exact quiet j early
          · have late := never (j-k)
            rw [← alone_add,Nat.add_sub_cancel' (by omega)] at late
            exact late
        · rw [← alone_add] at full
          refine .inr ⟨⟨k+m,full⟩,?_⟩
          intro j drained
          have further := later j (k+j) (by omega) drained
          rw [alone_add] at further
          exact never j further
      · refine .inr ⟨⟨m,full⟩,?_⟩
        intro j drained
        have far : j ≤ (m+1+1)*j := Nat.le_mul_of_pos_left j (by omega)
        have further := later j _ far drained
        have again := stands.again back j
        rw [again.line,stands.here] at further
        exact undone further

-- An SPU at rest claims on the line as it is.
theorem Ringed.claims {s : Pipeline (Fin 1)} {r : TriangleRing} (ringed : Ringed s r) (rests : (s.system.spus 0).working = false) :
    ∃ k, Stands (s.alone k) s.system.ring s.system.line (.claiming s.system.line) ∧
      ∀ j, j < k → ¬((s.alone j).system.spus 0).Full ∧ (s.alone j).system.line = s.system.line := by
  have now : ¬(s.system.spus 0).Full := by
    intro full
    rw [full_works full] at rests
    cases rests
  have once (stands : Stands (s.alone 1) s.system.ring s.system.line .idle) :
      ∃ k, Stands (s.alone k) s.system.ring s.system.line (.claiming s.system.line) ∧
        ∀ j, j < k → ¬((s.alone j).system.spus 0).Full ∧ (s.alone j).system.line = s.system.line := by
    refine ⟨1+1,by rw [alone_add]; exact stands.idle,?_⟩
    intro j less
    obtain rfl | rfl : j = 0 ∨ j = 1 := by omega
    · exact ⟨now,rfl⟩
    · refine ⟨?_,stands.here⟩
      rw [stands.at_]
      exact id
  cases at_ : s.system.spus 0 with
  | idle =>
    have stands : Stands s s.system.ring s.system.line .idle := ⟨⟨r,ringed⟩,rfl,rfl,at_,nofun⟩
    refine ⟨1,stands.idle,?_⟩
    intro j less
    obtain rfl : j = 0 := by omega
    exact ⟨now,rfl⟩
  | claiming cache =>
    cases held : s.system.held 0 with
    | true =>
      have stands : Stands s s.system.ring s.system.line (.claiming cache) := ⟨⟨r,ringed⟩,rfl,rfl,at_,fun _ => held⟩
      obtain rfl := stands.copied rfl
      exact ⟨0,stands,nofun⟩
    | false =>
      apply once
      have ran : (s.system.run 0).ring = s.system.ring ∧ (s.system.run 0).line = s.system.line ∧ (s.system.run 0).spus 0 = .idle := by
        refine ⟨System.run_ring 0,?_,?_⟩
        all_goals
          unfold System.run
          rw [at_]
          dsimp only
          split
        · rfl
        · simp [System.putllc,held,System.move]
        · exact System.move_self
        · simp [System.putllc,held,System.move]
      have spare : SpareSplits s.system 0 := by
        unfold SpareSplits
        rw [at_]
        trivial
      exact ⟨(ringed.run 0 spare).imp fun _ both => both.1,ran.1,ran.2.1,ran.2.2,nofun⟩
  | _ =>
    rw [at_] at rests
    cases rests

theorem Ringed.settles {r : TriangleRing} (ringed : Ringed s r) (rests : (s.system.spus 0).working = false) :
    (∃ m, (s.alone m).system.line.Drained ∧ ∀ j, ¬((s.alone j).system.spus 0).Full) ∨
      (∃ m, ((s.alone m).system.spus 0).Full) ∧ ∀ m, ¬(s.alone m).system.line.Drained := by
  obtain ⟨k,there,before⟩ := ringed.claims rests
  rcases there.settles with ⟨m,drained,never⟩ | ⟨⟨m,full⟩,never⟩
  · rw [← alone_add] at drained
    refine .inl ⟨k+m,drained,?_⟩
    intro j
    by_cases early : j < k
    · exact (before j early).1
    · have late := never (j-k)
      rw [← alone_add,Nat.add_sub_cancel' (by omega)] at late
      exact late
  · rw [← alone_add] at full
    refine .inr ⟨⟨k+m,full⟩,?_⟩
    intro j drained
    by_cases early : j < k
    · rw [(before j early).2,← there.here] at drained
      exact never 0 drained
    · have late := never (j-k)
      rw [← alone_add,Nat.add_sub_cancel' (by omega)] at late
      exact late drained

end

-- A render SPU by itself works the list off, unless it finds no slot for a tail.
theorem solo_drains {s : Pipeline (Fin 1)} (path : Pipeline.Reached SpareSplits s) (rests : (s.system.spus 0).working = false) :
    (∃ m, (s.alone m).system.line.Drained) ↔ ∀ m, ¬((s.alone m).system.spus 0).Full := by
  obtain ⟨r,ringed⟩ := reached_ringed path
  rcases ringed.settles rests with ⟨m,drained,never⟩ | ⟨⟨m,full⟩,never⟩
  · exact ⟨fun _ => never,fun _ => ⟨m,drained⟩⟩
  · constructor
    · rintro ⟨j,drained⟩
      exact absurd drained (never j)
    · intro none
      exact absurd full (none m)

-- Single tiles from the back to the front: each leaves a chunk behind itself, and one in
-- front that has passed it.
def crowdRun : List (PipelineAction (Fin 1)) :=
  [300,260,220,180,140,100,60,20,5].flatMap fun f => [.getTriangleBuffer,.write fun t => t == f,.publish]

def crowdStart : Pipeline (Fin 1) := .start fun _ => ⟨fun _ => false,0⟩

theorem solo_drains_two : (∃ m, (((crowdRun.take 6 ++ [PipelineAction.run 0]).foldl Pipeline.act crowdStart).alone m).system.line.Drained) ↔
    ∀ m, ¬((((crowdRun.take 6 ++ [PipelineAction.run 0]).foldl Pipeline.act crowdStart).alone m).system.spus 0).Full :=
  solo_drains (reached_spare (Runs.Reached.follow (.start ⟨_,rfl⟩) (by decide +kernel))) (by decide +kernel)

instance : (spu : Spu Nat) → Decidable spu.Full
  | .storing v _ firstTile cache => inferInstanceAs (Decidable (needsTail v firstTile = true ∧ (allocate v cache).1 = none))
  | .idle => .isFalse id
  | .claiming _ => .isFalse id
  | .scanning _ => .isFalse id
  | .splitting _ _ _ => .isFalse id
  | .rendering _ _ _ => .isFalse id
  | .finishing _ => .isFalse id
  | .releasing _ _ => .isFalse id

-- After eight triangles all sixteen slots are used, and the first chunk, with a tile to
-- draw and a tail to leave, is claimed and given back for ever.
theorem solo_stuck : Pipeline.Reached SpareSplits (crowdRun.foldl Pipeline.act crowdStart) ∧
    ((crowdRun.foldl Pipeline.act crowdStart).system.spus 0).working = false ∧
    ∀ m, ¬((crowdRun.foldl Pipeline.act crowdStart).alone m).system.line.Drained := by
  have path : Pipeline.Reached SpareSplits (crowdRun.foldl Pipeline.act crowdStart) :=
    reached_spare (Runs.Reached.follow (.start ⟨_,rfl⟩) (by decide +kernel))
  have rests : ((crowdRun.foldl Pipeline.act crowdStart).system.spus 0).working = false := by decide +kernel
  obtain ⟨m,full⟩ : ∃ m, (((crowdRun.foldl Pipeline.act crowdStart).alone m).system.spus 0).Full := ⟨110,by decide +kernel⟩
  obtain ⟨_,ringed⟩ := reached_ringed path
  refine ⟨path,rests,?_⟩
  rcases ringed.settles rests with ⟨_,_,never⟩ | ⟨_,never⟩
  · exact absurd full (never m)
  · exact never

end Spugl
