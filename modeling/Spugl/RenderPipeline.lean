import Spugl.SectionStores
import Spugl.TriangleRing

namespace Spugl

-- A renderable at work: the render SPUs on its cache line, and the primary SPU
-- that fills the triangle buffer behind it.
structure Pipeline (ι : Type) where
  system : System Nat ι
  producer : Producer

-- `covers` is what the edge functions of the written triangle admit.
inductive PipelineAction (ι : Type) where
  | run (k : ι)
  | getTriangleBuffer
  | abandon
  | write (covers : Nat → Bool)
  | publish

namespace Pipeline

def start (ring : Nat → TriangleRecord Nat) : Pipeline ι where
  system := .start 0 ring
  producer := .idle

def act [DecidableEq ι] (s : Pipeline ι) : PipelineAction ι → Pipeline ι
  | .run k => {s with system := s.system.act (.run k)}
  | .getTriangleBuffer => match s.system.line.getTriangleBuffer with
    | some g => {s with producer := .granted g}
    | none => s
  | .abandon => {s with producer := .idle}
  | .write covers => match s.producer with
    | .granted g => ⟨s.system.act (.record g.offset ⟨covers,g.nextPointer⟩),.written g⟩
    | _ => s
  | .publish => match s.producer with
    | .written g => ⟨s.system.act (.advance g.nextPointer),.idle⟩
    | _ => s

-- `steps` says which steps of the SPUs a run may take.
def allowed (steps : System Nat ι → ι → Prop) (s : Pipeline ι) : PipelineAction ι → Prop
  | .run k => steps s.system k
  | .getTriangleBuffer => s.producer.grant = none
  | .abandon => s.producer.writing = false
  | _ => True

def Reached [DecidableEq ι] (steps : System Nat ι → ι → Prop) : Pipeline ι → Prop :=
  Runs.Reached (fun s => ∃ ring, s = start ring) (Runs.Step act (allowed steps))

end Pipeline

-- freeChunk outside the splitting section is what the claim reserved.
def Spu.SpareFits : Spu τ → Prop
  | .idle => True
  | .claiming _ => True
  | .scanning v => v.freeChunk = v.claimed
  | .splitting v _ _ => v.claimed = none ∨ v.freeChunk = v.claimed
  | .storing v _ _ _ => v.claimed = none ∨ v.freeChunk = v.claimed
  | .rendering v _ _ => v.freeChunk = v.claimed
  | .finishing v => v.freeChunk = v.claimed
  | .releasing v _ => v.freeChunk = v.claimed

-- The splits that store do so with a slot of their own.
def SpareSplits (s : System Nat ι) (k : ι) : Prop :=
  match s.spus k with
  | .storing v _ firstTile cache => s.held k = true → Spare v firstTile cache
  | _ => True

-- Who holds what, whatever order the chunks are in.
structure Custody (s : System τ ι) : Prop where
  chained : s.line.Chained
  copy : ∀ k cache, s.held k = true → (s.spus k).copy = some cache → cache = s.line
  marking : Marking s.line s.spus
  spare : ∀ k, (s.spus k).SpareFits

-- Places in the buffer, counted in records: `p` for the pointer of an SPU, `e` for
-- the end it has seen.
structure Behind (records : Nat) (passed : Slot → Nat) (v : Locals Nat) (p e : Nat) : Prop where
  pointer : v.chunkTriangle = place p
  goal : v.endTriangle = place e
  from_ : passed v.chunkToProcess ≤ p
  upto : p ≤ e
  known : e ≤ records

def Spu.Follows (records : Nat) (passed : Slot → Nat) : Spu Nat → Prop
  | .idle => True
  | .claiming _ => True
  | .scanning v => ∃ p e, Behind records passed v p e ∧ p < e
  | .splitting v triangle _ => ∃ p e, Behind records passed v p e ∧ p < e ∧ triangle.next_triangle = place (p+1)
  | .storing v triangle _ _ => ∃ p e, Behind records passed v p e ∧ p < e ∧ triangle.next_triangle = place (p+1)
  | .rendering v triangle _ => ∃ p e, Behind records passed v p e ∧ (p < e → triangle.next_triangle = place (p+1))
  | .finishing v => ∃ p e, Behind records passed v p e
  | .releasing v _ => ∃ p e, Behind records passed v p e

-- The pipeline seen as a triangle ring. Whatever is busy or reserved has records
-- left to pass.
structure Ringed (s : Pipeline ι) (r : TriangleRing) : Prop where
  ring : RingInvariant r
  line : r.line = s.system.line
  links : ∀ p, r.next_triangle p = (s.system.ring p).next_triangle
  producer : r.producer = s.producer
  custody : Custody s.system
  ahead : ∀ i, (s.system.line.chunkNext i).Marked → r.passed i < r.records.length
  follows : ∀ k, (s.system.spus k).Follows r.records.length r.passed

section
variable {τ ι : Type} {s next : System τ ι}

theorem start_custody (origin : τ) (ring : τ → TriangleRecord τ) : Custody (System.start (ι := ι) origin ring) := by
  refine ⟨CacheLine.create_chained origin,?_,start_marking origin,fun _ => trivial⟩
  intro k cache held; cases held

theorem Custody.has (valid : Custody s) {v : Locals τ} (marks : (s.spus k).Marks = v.Marks) : Has s.line v :=
  ⟨valid.chained,valid.marking.mine k _ _ (by rw [marks]; exact .inl ⟨rfl,rfl⟩),
    fun f claimed => valid.marking.mine k f _ (by rw [marks]; exact .inr ⟨claimed,rfl⟩)⟩

theorem ChunkNext.Marked.used {n : ChunkNext} (marked : n.Marked) : n ≠ .free := by
  intro free
  rw [free] at marked
  exact ChunkNext.free_unmarked marked

theorem Marking.used {line : CacheLine τ} {spus : ι → Spu τ} (valid : Marking line spus)
    (mark : (spus k).Marks i n) : line.chunkNext i ≠ .free := (valid.lineMarked mark).used

variable [DecidableEq ι]

theorem Marking.same {line : CacheLine τ} {spus : ι → Spu τ} {spu : Spu τ} (valid : Marking line spus) (k : ι)
    (marks : spu.Marks = (spus k).Marks) : Marking line (Function.update spus k spu) := by
  apply valid.exchange k
  · intro i _ _; rfl
  · rw [marks]; exact valid.mine k
  · intro i marked
    by_cases ours : ∃ n, spu.Marks i n
    · exact .inl ours
    · exact .inr ⟨fun n mark => ours ⟨n,by rw [marks]; exact mark⟩,rfl⟩
  · intro i n mark _
    exact ⟨n,marks ▸ mark⟩

-- A step of one SPU that leaves the line and its own marks alone.
theorem Custody.moved {spu : Spu τ} (valid : Custody s) (k : ι) (line : next.line = s.line)
    (spus : next.spus = Function.update s.spus k spu) (marks : spu.Marks = (s.spus k).Marks) (spare : spu.SpareFits)
    (others : ∀ k', k' ≠ k → next.held k' = s.held k') (copy : ∀ cache, spu.copy = some cache → cache = s.line) :
    Custody next := by
  refine ⟨line ▸ valid.chained,?_,?_,?_⟩
  · intro k' cache held
    rw [spus,line]
    by_cases isK : k' = k
    · subst isK; rw [Function.update_self]; exact copy cache
    · rw [Function.update_of_ne isK]; exact valid.copy k' cache (others k' isK ▸ held)
  · rw [line,spus]; exact valid.marking.same k marks
  · intro k'
    rw [spus]
    by_cases isK : k' = k
    · subst isK; rw [Function.update_self]; exact spare
    · rw [Function.update_of_ne isK]; exact valid.spare k'

theorem Custody.stored {spu : Spu τ} {after : CacheLine τ} {Early : τ → Prop} {Left : Slot → Nat → τ → Prop}
    (valid : Custody s) (k : ι) (line : next.line = after) (spus : next.spus = Function.update s.spus k spu)
    (held : ∀ k', next.held k' = false) (store : Store s.line after (s.spus k).Marks spu.Marks Early Left)
    (spare : spu.SpareFits) : Custody next := by
  refine ⟨line ▸ store.chained,fun k' cache is => by simp [held] at is,?_,?_⟩
  · rw [line,spus]
    exact valid.marking.exchange k (fun i free marked => (store.kept i free marked).1) store.mine store.back store.fresh
  · intro k'
    rw [spus]
    by_cases isK : k' = k
    · subst isK; rw [Function.update_self]; exact spare
    · rw [Function.update_of_ne isK]; exact valid.spare k'

end

-- From a place on, the links lead through the places in order.
theorem RingInvariant.chase_place {r : TriangleRing} (valid : RingInvariant r) (near : r.records.length ≤ p+117)
    (upto : p+k ≤ r.records.length) : chase r.next_triangle k (place p) = place (p+k) := by
  induction k with
  | zero => rfl
  | succ k ih =>
    rw [chase,ih (by omega),valid.links (p+k) (by omega) (by omega)]
    rfl

theorem place_same {m n : Nat} (same : place m = place n) (one : m ≤ r) (two : n ≤ r) (near : r ≤ m+117)
    (near' : r ≤ n+117) : m = n := by
  rcases Nat.lt_trichotomy m n with less | equal | more
  · exact absurd same (place_apart less (by omega))
  · exact equal
  · exact absurd same.symm (place_apart more (by omega))

-- The pointer of a used slot tells how many records it has passed.
theorem RingInvariant.passed_eq {r : TriangleRing} (valid : RingInvariant r) (used : r.line.chunkNext i ≠ .free)
    (at_ : r.line.chunkTriangle i = place q) (upto : q ≤ r.records.length) (near : r.records.length ≤ q+117) :
    r.passed i = q := by
  obtain ⟨upto',near'⟩ := valid.near i used
  exact place_same ((valid.pointer i used).symm.trans at_) upto' upto near' near

-- Nothing is consumed again: the later pointers have passed what earlier ones had.
structure TriangleRing.Onward (r later : TriangleRing) : Prop where
  records : later.records = r.records
  passed : ∀ i, later.line.chunkNext i ≠ .free → ∃ j, r.line.chunkNext j ≠ .free ∧ r.passed j ≤ later.passed i

theorem TriangleRing.Onward.still {r later : TriangleRing} (records : later.records = r.records) (line : later.line = r.line)
    (passed : later.passed = r.passed) : r.Onward later :=
  ⟨records,fun i used => ⟨i,line ▸ used,Nat.le_of_eq (congrFun passed i).symm⟩⟩

-- Any line whose pointers lie in front of old ones is one the SPUs may store.
theorem RingInvariant.read {r : TriangleRing} (valid : RingInvariant r) (line : CacheLine Nat)
    (ends : line.endTriangle = r.line.endTriangle)
    (moved : ∀ i, line.chunkNext i ≠ .free → ∃ j q, r.line.chunkNext j ≠ .free ∧ r.passed j ≤ q ∧
      q ≤ r.records.length ∧ line.chunkTriangle i = place q) :
    ∃ a, r.allowed a ∧ (r.act a).line = line ∧ (r.act a).next_triangle = r.next_triangle ∧
      (r.act a).producer = r.producer ∧ r.Onward (r.act a) := by
  have choice : ∀ i, ∃ j k, line.chunkNext i ≠ .free → r.line.chunkNext j ≠ .free ∧
      r.passed j + k ≤ r.records.length ∧ line.chunkTriangle i = place (r.passed j + k) := by
    intro i
    by_cases used : line.chunkNext i = .free
    · exact ⟨i,0,fun other => absurd used other⟩
    · obtain ⟨j,q,old,low,high,at_⟩ := moved i used
      exact ⟨j,q - r.passed j,fun _ => ⟨old,by omega,by rw [at_]; congr 1; omega⟩⟩
  choose source count spec using choice
  refine ⟨.read line source count,⟨ends,?_⟩,rfl,rfl,rfl,rfl,fun i used => ⟨source i,(spec i used).1,Nat.le_add_right _ _⟩⟩
  intro i used
  obtain ⟨old,high,at_⟩ := spec i used
  obtain ⟨upto,near⟩ := valid.near _ old
  have chased : ∀ m, m ≤ count i → chase r.next_triangle m (r.line.chunkTriangle (source i)) =
      place (r.passed (source i) + m) := by
    intro m less
    rw [valid.pointer _ old]
    exact valid.chase_place near (by omega)
  refine ⟨old,at_.trans (chased _ (Nat.le_refl _)).symm,?_⟩
  intro m less
  rw [chased m (Nat.le_of_lt less),valid.ends]
  exact place_apart (by omega) (by omega)

end Spugl
