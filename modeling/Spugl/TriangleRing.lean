import Spugl.RenderTasks
import Spugl.Runs

namespace Spugl

abbrev TRIANGLE_BUFFER_SIZE : Nat := 0x7900

-- MAX_SHADER_PARAMS*16 + sizeof(Triangle)
abbrev TRIANGLE_MAX_SIZE : Nat := 32*16 + 64

-- imp_triangle returns &params[12], twelve vectors behind the structure.
abbrev TRIANGLE_RECORD_SIZE : Nat := 64 + 12*16

-- What getTriangleBuffer leaves in _currentTriangleOffset and _currentTriangleRewind.
structure Grant where
  offset : Nat
  rewind : Bool
  deriving DecidableEq

namespace CacheLine

-- spu_cmpgt( spu_sel(endptr, readptr, readptr>writeptr), testptr ), one lane
def extendValid (c : CacheLine Nat) (i : Slot) : Bool :=
  decide ((if c.chunkTriangle i > c.endTriangle then c.chunkTriangle i else TRIANGLE_BUFFER_SIZE) >
    (c.endTriangle + TRIANGLE_MAX_SIZE) % 65536)

def rewinds (c : CacheLine Nat) : Bool :=
  decide ((c.endTriangle + 2*TRIANGLE_MAX_SIZE) % 65536 > TRIANGLE_BUFFER_SIZE)

def invalidLane (c : CacheLine Nat) (i : Slot) : Bool :=
  (decide (c.chunkTriangle i = 0) && c.rewinds) || !c.extendValid i

def getTriangleBuffer (c : CacheLine Nat) : Option Grant :=
  match lowest (fun i => c.invalidLane i && !c.freeLane i) with
  | some _ => none
  | none => some ⟨c.endTriangle,c.rewinds⟩

end CacheLine

-- next_pointer of writeTriangleBuffer, for the record imp_triangle has filled.
def Grant.nextPointer (g : Grant) : Nat :=
  if g.rewind then 0 else (TRIANGLE_RECORD_SIZE + g.offset) % 65536

-- writeTriangleBuffer makes two stores, the record and then endTriangle.
inductive Producer where
  | idle
  | granted (g : Grant)
  | written (g : Grant)

def Producer.grant : Producer → Option Grant
  | .idle => none
  | .granted g => some g
  | .written g => some g

def Producer.writing : Producer → Bool
  | .written _ => true
  | _ => false

-- `next_triangle` is that field of the record at each offset. `records` and
-- `passed` are history: the offsets published so far, and for each slot how many
-- records its pointer has moved past. No step of the code reads them.
structure TriangleRing where
  line : CacheLine Nat
  next_triangle : Nat → Nat
  producer : Producer
  records : List Nat
  passed : Slot → Nat

def chase (next_triangle : Nat → Nat) : Nat → Nat → Nat
  | 0,p => p
  | n+1,p => next_triangle (chase next_triangle n p)

-- `read` is any store of the render SPUs, and covers splits, merges, claims and
-- releases at once: each used slot gets the pointer of a slot used before, moved
-- along some links. `abandon` is a call of getTriangleBuffer for another context.
inductive RingAction where
  | read (line : CacheLine Nat) (source : Slot → Slot) (count : Slot → Nat)
  | getTriangleBuffer
  | abandon
  | write
  | publish

namespace TriangleRing

def start (next_triangle : Nat → Nat) : TriangleRing where
  line := .create 0
  next_triangle := next_triangle
  producer := .idle
  records := []
  passed := fun _ => 0

def act (s : TriangleRing) : RingAction → TriangleRing
  | .read line source count => {s with line := line,passed := fun j => s.passed (source j) + count j}
  | .getTriangleBuffer => match s.line.getTriangleBuffer with
    | some g => {s with producer := .granted g}
    | none => s
  | .abandon => {s with producer := .idle}
  | .write => match s.producer with
    | .granted g => {s with
        next_triangle := Function.update s.next_triangle g.offset g.nextPointer
        producer := .written g}
    | _ => s
  | .publish => match s.producer with
    | .written g => {s with
        line := {s.line with endTriangle := g.nextPointer}
        producer := .idle
        records := s.records ++ [g.offset]}
    | _ => s

-- A pointer moves along next_triangle only while it is not endTriangle.
def allowed (s : TriangleRing) : RingAction → Prop
  | .read line source count => line.endTriangle = s.line.endTriangle ∧
    ∀ j, line.chunkNext j ≠ .free → s.line.chunkNext (source j) ≠ .free ∧
      line.chunkTriangle j = chase s.next_triangle (count j) (s.line.chunkTriangle (source j)) ∧
      ∀ m, m < count j → chase s.next_triangle m (s.line.chunkTriangle (source j)) ≠ s.line.endTriangle
  | .getTriangleBuffer => s.producer.grant = none
  | .abandon => s.producer.writing = false
  | _ => True

def Reached : TriangleRing → Prop :=
  Runs.Reached (fun s => ∃ next_triangle, s = start next_triangle) (Runs.Step act allowed)

end TriangleRing

-- Record m stands at the m-th place of a cycle of 118.
def place (m : Nat) : Nat := TRIANGLE_RECORD_SIZE * (m % 118)

theorem place_apart (less : m < n) (near : n ≤ m+117) : place m ≠ place n := by
  unfold place TRIANGLE_RECORD_SIZE; omega

theorem place_inside (m : Nat) : place m + TRIANGLE_RECORD_SIZE ≤ TRIANGLE_BUFFER_SIZE := by
  unfold place TRIANGLE_RECORD_SIZE TRIANGLE_BUFFER_SIZE; omega

theorem rewinds_place {line : CacheLine Nat} (ends : line.endTriangle = place n) :
    line.rewinds = decide (n % 118 = 117) := by
  unfold CacheLine.rewinds
  rw [ends]
  unfold place TRIANGLE_RECORD_SIZE TRIANGLE_MAX_SIZE TRIANGLE_BUFFER_SIZE
  rw [decide_eq_decide]
  omega

theorem nextPointer_place (n : Nat) : Grant.nextPointer ⟨place n,decide (n % 118 = 117)⟩ = place (n+1) := by
  unfold Grant.nextPointer place TRIANGLE_RECORD_SIZE
  simp only [decide_eq_true_eq]
  split <;> omega

theorem getTriangleBuffer_some {line : CacheLine Nat} (got : line.getTriangleBuffer = some g) :
    g = ⟨line.endTriangle,line.rewinds⟩ ∧ ∀ i, line.chunkNext i ≠ .free → line.invalidLane i = false := by
  unfold CacheLine.getTriangleBuffer at got
  split at got
  · cases got
  · rename_i clear
    refine ⟨(Option.some.inj got).symm,?_⟩
    intro i used
    have lane := CacheLine.lowest_none.mp clear i
    simpa [CacheLine.freeLane,used] using lane

-- The space test on one lane: a pointer d records behind the writer passes it
-- only when another record still leaves it less than a lap behind.
theorem lane_room {line : CacheLine Nat} (ends : line.endTriangle = place n)
    (pointer : line.chunkTriangle i = place p) (upto : p ≤ n) (near : n ≤ p+117)
    (valid : line.invalidLane i = false) : n ≤ p+116 := by
  unfold CacheLine.invalidLane at valid
  rw [rewinds_place ends] at valid
  simp only [CacheLine.extendValid,Bool.or_eq_false_iff,Bool.and_eq_false_iff,decide_eq_false_iff_not,
    Bool.not_eq_false',decide_eq_true_eq,pointer,ends] at valid
  unfold place TRIANGLE_RECORD_SIZE TRIANGLE_MAX_SIZE TRIANGLE_BUFFER_SIZE at valid
  obtain ⟨rewind,extend⟩ := valid
  split at extend <;> omega

-- And a pointer that has caught up always passes it.
theorem lane_granted {line : CacheLine Nat} (ends : line.endTriangle = place n)
    (pointer : line.chunkTriangle i = place n) : line.invalidLane i = false := by
  unfold CacheLine.invalidLane
  rw [rewinds_place ends]
  simp only [CacheLine.extendValid,Bool.or_eq_false_iff,Bool.and_eq_false_iff,decide_eq_false_iff_not,
    Bool.not_eq_false',decide_eq_true_eq,pointer,ends]
  unfold place TRIANGLE_RECORD_SIZE TRIANGLE_MAX_SIZE TRIANGLE_BUFFER_SIZE
  rw [if_neg (Nat.lt_irrefl _)]
  omega

structure RingInvariant (s : TriangleRing) : Prop where
  records : s.records = (List.range s.records.length).map place
  ends : s.line.endTriangle = place s.records.length
  near : ∀ i, s.line.chunkNext i ≠ .free → s.passed i ≤ s.records.length ∧ s.records.length ≤ s.passed i + 117
  pointer : ∀ i, s.line.chunkNext i ≠ .free → s.line.chunkTriangle i = place (s.passed i)
  links : ∀ m, m < s.records.length → s.records.length ≤ m+117 → s.next_triangle (place m) = place (m+1)
  granted : ∀ g, s.producer.grant = some g →
    g = ⟨place s.records.length,decide (s.records.length % 118 = 117)⟩ ∧
      ∀ i, s.line.chunkNext i ≠ .free → s.records.length ≤ s.passed i + 116
  written : ∀ g, s.producer = .written g → s.next_triangle g.offset = g.nextPointer

theorem start_ring (next_triangle : Nat → Nat) : RingInvariant (.start next_triangle) := by
  refine ⟨rfl,rfl,fun i _ => ⟨Nat.le_refl _,Nat.zero_le _⟩,fun i _ => rfl,?_,?_,?_⟩
  · intro m none; exact absurd none (Nat.not_lt_zero m)
  · intro g none; cases none
  · intro g none; cases none

-- Moving along the links from a slot's pointer stays on the places in order.
theorem RingInvariant.chased (valid : RingInvariant s) (upto : p ≤ s.records.length)
    (near : s.records.length ≤ p+117)
    (open_ : ∀ m, m < k → chase s.next_triangle m (place p) ≠ s.line.endTriangle) :
    chase s.next_triangle k (place p) = place (p+k) ∧ p+k ≤ s.records.length := by
  induction k with
  | zero => exact ⟨rfl,upto⟩
  | succ k ih =>
    obtain ⟨at_,inside⟩ := ih fun m less => open_ m (Nat.lt_succ_of_lt less)
    have behind : p+k ≠ s.records.length := by
      intro same
      have stopped := open_ k (Nat.lt_succ_self k)
      rw [at_,same,valid.ends] at stopped
      exact stopped rfl
    refine ⟨?_,by omega⟩
    rw [chase,at_,valid.links (p+k) (by omega) (by omega)]
    rfl

theorem RingInvariant.act (valid : RingInvariant s) (a : RingAction) (allowed : s.allowed a) : RingInvariant (s.act a) := by
  cases a with
  | read line source count =>
    obtain ⟨ends,moved⟩ := allowed
    -- The new pointer of slot j, counted from its source.
    have arrived : ∀ j, line.chunkNext j ≠ .free →
        line.chunkTriangle j = place (s.passed (source j) + count j) ∧
          s.passed (source j) + count j ≤ s.records.length := by
      intro j used
      obtain ⟨old,same,open_⟩ := moved j used
      rw [valid.pointer _ old] at same open_
      have chased := valid.chased (valid.near _ old).1 (valid.near _ old).2 open_
      exact ⟨same.trans chased.1,chased.2⟩
    refine ⟨valid.records,ends.trans valid.ends,?_,fun j used => (arrived j used).1,valid.links,?_,valid.written⟩
    · intro j used
      refine ⟨(arrived j used).2,?_⟩
      have behind := (valid.near _ (moved j used).1).2
      show s.records.length ≤ s.passed (source j) + count j + 117
      omega
    · intro g grant
      refine ⟨(valid.granted g grant).1,?_⟩
      intro j used
      have behind := (valid.granted g grant).2 _ (moved j used).1
      show s.records.length ≤ s.passed (source j) + count j + 116
      omega
  | getTriangleBuffer =>
    unfold TriangleRing.act
    cases got : s.line.getTriangleBuffer with
    | none => exact valid
    | some g =>
      obtain ⟨same,lanes⟩ := getTriangleBuffer_some got
      refine ⟨valid.records,valid.ends,valid.near,valid.pointer,valid.links,?_,?_⟩
      · rintro g' granted
        cases granted
        refine ⟨by rw [same,valid.ends,rewinds_place valid.ends],?_⟩
        intro i used
        exact lane_room valid.ends (valid.pointer i used) (valid.near i used).1 (valid.near i used).2 (lanes i used)
      · intro g' none; cases none
  | abandon =>
    refine ⟨valid.records,valid.ends,valid.near,valid.pointer,valid.links,?_,?_⟩
    · intro g none; cases none
    · intro g none; cases none
  | write =>
    unfold TriangleRing.act
    cases at_ : s.producer with
    | idle => exact valid
    | written g => exact valid
    | granted g =>
      have grant := valid.granted g (by rw [at_]; rfl)
      refine ⟨valid.records,valid.ends,valid.near,valid.pointer,?_,?_,?_⟩
      · intro m less near
        have apart := place_apart less near
        rw [grant.1]
        exact (Function.update_of_ne apart _ _).trans (valid.links m less near)
      · rintro g' same
        cases same
        exact grant
      · rintro g' same
        cases same
        exact Function.update_self _ _ _
  | publish =>
    unfold TriangleRing.act
    cases at_ : s.producer with
    | idle => exact valid
    | granted g => exact valid
    | written g =>
      obtain ⟨rfl,room⟩ := valid.granted g (by rw [at_]; rfl)
      have linked := valid.written _ at_
      have length : (s.records ++ [place s.records.length]).length = s.records.length+1 := by simp
      refine ⟨?_,?_,?_,valid.pointer,?_,?_,?_⟩
      · show s.records ++ [place s.records.length] = _
        rw [length,List.range_succ,List.map_append,← valid.records]
        rfl
      · show _ = place (s.records ++ [place s.records.length]).length
        rw [length]; exact nextPointer_place _
      · intro i used
        show s.passed i ≤ (s.records ++ [place s.records.length]).length ∧
          (s.records ++ [place s.records.length]).length ≤ s.passed i + 117
        rw [length]
        have upto := (valid.near i used).1
        have behind := room i used
        omega
      · intro m less near
        change m < (s.records ++ [place s.records.length]).length at less
        change (s.records ++ [place s.records.length]).length ≤ m+117 at near
        rw [length] at less near
        by_cases last : m = s.records.length
        · subst last; exact linked.trans (nextPointer_place _)
        · exact valid.links m (by omega) (by omega)
      · intro g none; cases none
      · intro g none; cases none

theorem reached_ring (path : TriangleRing.Reached s) : RingInvariant s := by
  refine Runs.Reached.invariant RingInvariant ?_ ?_ path
  · rintro _ ⟨next_triangle,rfl⟩; exact start_ring next_triangle
  · rintro _ _ valid ⟨a,allowed,rfl⟩; exact valid.act a allowed

def Bytes (offset byte : Nat) : Prop := offset ≤ byte ∧ byte < offset + TRIANGLE_RECORD_SIZE

-- The ring as its users need it: a granted buffer overlaps no record a used slot
-- has yet to pass, a pointer at endTriangle has passed everything, all records
-- lie in the buffer, and nobody behind means room.
structure RingSafe (s : TriangleRing) : Prop where
  clear : ∀ g, s.producer.grant = some g → ∀ i, s.line.chunkNext i ≠ .free → ∀ m offset,
    s.passed i ≤ m → s.records[m]? = some offset → ∀ byte, Bytes g.offset byte → ¬Bytes offset byte
  behind : ∀ i, s.line.chunkNext i ≠ .free → ∀ offset,
    s.records[s.passed i]? = some offset → s.line.chunkTriangle i = offset
  consumed : ∀ i, s.line.chunkNext i ≠ .free →
    (s.line.chunkTriangle i = s.line.endTriangle ↔ s.passed i = s.records.length)
  inside : ∀ offset, (offset ∈ s.records ∨ ∃ g, s.producer.grant = some g ∧ g.offset = offset) →
    offset + TRIANGLE_RECORD_SIZE ≤ TRIANGLE_BUFFER_SIZE
  granted : (∀ i, s.line.chunkNext i ≠ .free → s.line.chunkTriangle i = s.line.endTriangle) →
    ∃ g, s.line.getTriangleBuffer = some g

theorem RingInvariant.record (valid : RingInvariant s) (at_ : s.records[m]? = some offset) :
    m < s.records.length ∧ offset = place m := by
  rw [valid.records] at at_
  obtain ⟨inside,same⟩ := List.getElem?_eq_some_iff.mp at_
  exact ⟨by simpa using inside,by simpa using same.symm⟩

theorem ring_safe (path : TriangleRing.Reached s) : RingSafe s := by
  have valid := reached_ring path
  refine ⟨?_,?_,?_,?_,?_⟩
  · intro g grant i used m offset ahead at_ byte own other
    obtain ⟨same,room⟩ := valid.granted g grant
    obtain ⟨inside,rfl⟩ := valid.record at_
    have behind := room i used
    rw [same] at own
    simp only [Bytes,place,TRIANGLE_RECORD_SIZE] at own other
    omega
  · intro i used offset at_
    rw [(valid.record at_).2]
    exact valid.pointer i used
  · intro i used
    obtain ⟨upto,near⟩ := valid.near i used
    rw [valid.pointer i used,valid.ends]
    constructor
    · intro same
      by_contra apart
      exact place_apart (by omega) near same
    · intro same; rw [same]
  · rintro offset (member | ⟨g,grant,rfl⟩)
    · rw [valid.records] at member
      obtain ⟨m,_,rfl⟩ := List.mem_map.mp member
      exact place_inside m
    · rw [(valid.granted g grant).1]
      exact place_inside _
  · intro caught
    refine ⟨⟨s.line.endTriangle,s.line.rewinds⟩,?_⟩
    have clear : CacheLine.lowest (fun i => s.line.invalidLane i && !s.line.freeLane i) = none := by
      refine CacheLine.lowest_none.mpr ?_
      intro i
      by_cases used : s.line.chunkNext i = .free
      · simp [CacheLine.freeLane,used]
      · rw [lane_granted valid.ends ((caught i used).trans valid.ends)]
        rfl
    unfold CacheLine.getTriangleBuffer
    rw [clear]

instance (s : TriangleRing) : (a : RingAction) → Decidable (s.allowed a)
  | .read line source count => inferInstanceAs (Decidable (line.endTriangle = s.line.endTriangle ∧
    ∀ j, line.chunkNext j ≠ .free → s.line.chunkNext (source j) ≠ .free ∧
      line.chunkTriangle j = chase s.next_triangle (count j) (s.line.chunkTriangle (source j)) ∧
      ∀ m, m < count j → chase s.next_triangle m (s.line.chunkTriangle (source j)) ≠ s.line.endTriangle))
  | .getTriangleBuffer => inferInstanceAs (Decidable (s.producer.grant = none))
  | .abandon => inferInstanceAs (Decidable (s.producer.writing = false))
  | .write => .isTrue trivial
  | .publish => .isTrue trivial

-- Two records, the second granted before the only chunk is split behind it: the
-- new slot has passed the first record, slot 0 has not.
def splitLine : CacheLine Nat :=
  {CacheLine.create 0 with
    chunkTriangle := fun i => if i = 1 then 256 else 0
    chunkNext := fun i => if i = 0 then .chunk false 1 else if i = 1 then .chunk false 0 else .free
    endTriangle := 256}

def splitRun : List RingAction :=
  [.getTriangleBuffer,.write,.publish,.getTriangleBuffer,.read splitLine (fun _ => 0) (fun i => if i = 1 then 1 else 0),.write]

theorem ring_safe_split : RingSafe (splitRun.foldl TriangleRing.act (.start id)) :=
  ring_safe (Runs.Reached.follow (.start ⟨id,rfl⟩) (by decide +kernel))

end Spugl
