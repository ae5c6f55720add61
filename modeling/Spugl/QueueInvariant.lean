import Spugl.CommandQueue

namespace Spugl
open CommandFraming

namespace CommandQueue

-- The words stand in memory from a place on, written into this allocation.
def Spells (c : CommandQueue) (place : Nat) (words : List Nat) : Prop :=
  ∀ i word, words[i]? = some word → c.memory (place + 4*i) = ⟨word,some c.generation⟩

-- Those words as cells.
def cells (c : CommandQueue) (words : List Nat) : List Cell := words.map fun word => ⟨word,some c.generation⟩

-- The place of command k of this lap.
def boundary (c : CommandQueue) (k : Nat) : Nat := c.base + 4*CommandFraming.start c.lap k

-- What the client has written. A JUMP that is not taken stays in front of the new lap.
structure Written (c : CommandQueue) : Prop where
  low : 128 ≤ c.base
  whole : ∀ x ∈ c.lap, Fifo.Appendable x
  spelled : c.Spells c.base c.lap.flatten
  ends : c.aiming = false → c.write_ptr = c.boundary c.lap.length
  aimed : c.aiming = true → c.lap = [] ∧ c.client = none
  writing : ∀ ptr words, c.client = some (ptr,words) → ptr = c.write_ptr + 4*words.length ∧ c.Spells c.write_ptr words
  jumps : ∀ e, c.jump = some e → c.Spells e (Fifo.jumpWords c.base) ∧ c.base < e
  behind : ∀ e, c.jump = some e → if c.aiming then c.write_ptr = e + 8 else c.write_ptr < e
  stored : c.write_ptr = c.stored

-- Where read_ptr stands once k commands of the lap are completed.
structure Rests (c : CommandQueue) (k : Nat) : Prop where
  inside : k ≤ c.lap.length
  done : c.completed = c.before ++ c.lap.take k
  read : c.read_ptr = c.boundary k

def Resting (c : CommandQueue) : Prop :=
  match c.jump with
  | none => ∃ k, c.Rests k
  | some e => c.completed = c.before ∧ c.read_ptr = e

-- The write_ptr the server goes by is a boundary that the client has passed, unless
-- it is older than a JUMP, or was read with the JUMP, or belongs to the next lap.
def Reading (c : CommandQueue) (wptr : Nat) : Prop :=
  match c.jump with
  | none => c.aiming = false ∧ ∃ k m, c.Rests k ∧ k ≤ m ∧ m ≤ c.lap.length ∧ wptr = c.boundary m
  | some e => wptr ≤ e ∨ wptr = e + 8

structure Recording (c : CommandQueue) (rptr k : Nat) : Prop where
  steady : c.jump = none ∧ c.aiming = false
  inside : k < c.lap.length
  done : c.completed = c.before ++ c.lap.take (k+1)
  read : c.read_ptr = c.boundary k
  next : rptr = c.boundary (k+1)

def Stands (c : CommandQueue) : Option Stage → Prop
  | none => c.Resting
  | some (.looping rptr wptr) => c.Resting ∧ rptr = c.read_ptr ∧ c.Reading wptr
  | some (.recording rptr) => ∃ k, c.Recording rptr k
  | some (.jumping rptr) => ∃ e, c.jump = some e ∧ c.completed = c.before ∧ c.read_ptr = e ∧ rptr = c.base

-- The client is still in front of a JUMP that is not taken.
def Room (c : CommandQueue) : Prop :=
  match c.jump,c.client with
  | some e,some (ptr,_) => ptr < e
  | _,_ => True

theorem Room.front {c : CommandQueue} {words : List Nat} (room : c.Room) (client : c.client = some (ptr,words)) (e : Nat) (pending : c.jump = some e) :
    ptr < e := by
  unfold Room at room
  rw [pending,client] at room
  exact room

end CommandQueue

-- What a window holds of the allocation it was fetched from.
def FifoWindow.Holds (w : FifoWindow) (c : CommandQueue) : Prop :=
  match c.jump with
  | none => c.aiming = false ∧ w.upto ≤ c.write_ptr ∧
    ∀ p, w.fifo_ofs ≤ p → p < w.upto → w.fifo_area (p - w.fifo_ofs) = c.memory p
  | some e => w.fifo_ofs ≤ e → e < w.upto → e + 8 ≤ w.upto ∧
    w.fifo_area (e - w.fifo_ofs) = c.memory e ∧ w.fifo_area (e + 4 - w.fifo_ofs) = c.memory (e + 4)

namespace CommandQueue

section
variable {c c' : CommandQueue} {place ptr : Nat} {words more : List Nat}

theorem Spells.append (first : c.Spells place words) (second : c.Spells (place + 4*words.length) more) :
    c.Spells place (words ++ more) := by
  intro i word at_
  by_cases early : i < words.length
  · rw [List.getElem?_append_left early] at at_
    exact first i word at_
  · rw [List.getElem?_append_right (by omega)] at at_
    have later := second _ word at_
    have shift : place + 4*words.length + 4*(i - words.length) = place + 4*i := by omega
    rwa [shift] at later

-- A store outside the words leaves them standing.
theorem Spells.kept (spelled : c.Spells place words)
    (outside : ∀ i, i < words.length → c'.memory (place + 4*i) = c.memory (place + 4*i))
    (generation : c'.generation = c.generation) : c'.Spells place words := by
  intro i word at_
  have inside := (List.getElem?_eq_some_iff.mp at_).1
  rw [outside i inside,generation]
  exact spelled i word at_

theorem Written.no_aim (written : c.Written) (client : c.client = some (ptr,words)) : c.aiming = false := by
  cases aims : c.aiming with
  | false => rfl
  | true => have free := (written.aimed aims).2; rw [client] at free; cases free

theorem Written.prologue (written : c.Written) (ready : c.aiming = false) : c.prologue.Written where
  low := written.low
  whole := written.whole
  spelled := written.spelled
  ends := written.ends
  aimed := by
    intro aims
    have aims : c.aiming = true := aims
    rw [ready] at aims
    cases aims
  writing := by
    intro ptr words client
    cases client
    exact ⟨rfl,by intro i word at_; cases at_⟩
  jumps := written.jumps
  behind := written.behind
  stored := written.stored

theorem outRing_eq (client : c.client = some (ptr,words)) (word : Nat) : c.outRing word =
    {c with memory := Function.update c.memory ptr ⟨word,some c.generation⟩,client := some (ptr+4,words ++ [word])} := by
  unfold outRing
  rw [client]

-- The store is at the end of the lap, and in front of a JUMP that is not taken.
theorem Written.outRing (written : c.Written) (client : c.client = some (ptr,words)) (word : Nat)
    (room : ∀ e, c.jump = some e → ptr < e) : (c.outRing word).Written := by
  have ready := written.no_aim client
  have ends := written.ends ready
  obtain ⟨place,spelled⟩ := written.writing ptr words client
  rw [outRing_eq client word]
  constructor
  · exact written.low
  · exact written.whole
  · refine written.spelled.kept ?_ rfl
    intro i inside
    have less : c.base + 4*i < ptr := by
      rw [boundary,start_all] at ends
      omega
    exact Function.update_of_ne (by omega) _ _
  · exact written.ends
  · intro aims
    have aims : c.aiming = true := aims
    rw [ready] at aims
    cases aims
  · intro ptr' words' same
    cases same
    have kept : c.Spells c.write_ptr words := spelled
    constructor
    · rw [List.length_append,List.length_singleton]
      show ptr + 4 = c.write_ptr + 4*(words.length+1)
      omega
    · apply Spells.append
      · refine spelled.kept ?_ rfl
        intro i inside
        exact Function.update_of_ne (by omega) _ _
      · intro i word' at_
        cases i with
        | zero =>
          cases at_
          show Function.update c.memory ptr _ (c.write_ptr + 4*words.length + 4*0) = _
          rw [Nat.mul_zero,Nat.add_zero,← place,Function.update_self]
        | succ i => cases at_
  · intro e pending
    obtain ⟨words,below⟩ := written.jumps e pending
    have less := room e pending
    refine ⟨words.kept ?_ rfl,below⟩
    intro i _
    exact Function.update_of_ne (by omega) _ _
  · exact written.behind
  · exact written.stored

theorem epilogue_eq (client : c.client = some (ptr,words)) (commands : List (List Nat)) : c.epilogue commands =
    {c with write_ptr := ptr,client := none,lap := c.lap ++ commands,stored := ptr} := by
  unfold epilogue
  rw [client]

theorem Written.epilogue (written : c.Written) (client : c.client = some (ptr,commands.flatten))
    (appendable : ∀ x ∈ commands, Fifo.Appendable x) (room : ∀ e, c.jump = some e → ptr < e) :
    (c.epilogue commands).Written := by
  have ready := written.no_aim client
  have ends := written.ends ready
  rw [boundary,start_all] at ends
  obtain ⟨place,spelled⟩ := written.writing _ _ client
  rw [epilogue_eq client commands]
  constructor
  · exact written.low
  · intro x listed
    rcases List.mem_append.mp listed with old | new
    · exact written.whole x old
    · exact appendable x new
  · show c.Spells c.base (c.lap ++ commands).flatten
    rw [List.flatten_append]
    apply written.spelled.append
    rwa [← ends]
  · intro _
    show ptr = c.base + 4*start (c.lap ++ commands) (c.lap ++ commands).length
    rw [start_all,List.flatten_append,List.length_append]
    omega
  · intro aims
    have aims : c.aiming = true := aims
    rw [ready] at aims
    cases aims
  · intro ptr' words' none
    cases none
  · exact written.jumps
  · intro e pending
    have less := room e pending
    show if c.aiming then ptr = e + 8 else ptr < e
    rw [ready]
    exact less
  · rfl

theorem spuglJump_eq (client : c.client = some (ptr,words)) (target : Nat) : c.spuglJump target =
    {c with
      write_ptr := ptr
      client := none
      aiming := true
      base := target
      lap := []
      before := c.before ++ c.lap
      jump := some c.write_ptr
      stored := ptr} := by
  unfold spuglJump
  rw [client]

theorem Written.spuglJump (written : c.Written) (client : c.client = some (ptr,Fifo.jumpWords target))
    (low : 128 ≤ target) (below : target < c.write_ptr) : (c.spuglJump target).Written := by
  obtain ⟨place,spelled⟩ := written.writing _ _ client
  rw [spuglJump_eq client target]
  constructor
  · exact low
  · intro x listed
    cases listed
  · intro i word at_
    cases at_
  · intro ready
    cases ready
  · intro _
    exact ⟨rfl,rfl⟩
  · intro ptr' words' none
    cases none
  · intro e pending
    cases pending
    exact ⟨spelled,below⟩
  · intro e pending
    cases pending
    exact place
  · rfl

theorem Written.spuglSetTarget (written : c.Written) (aims : c.aiming = true) : (c.spuglSetTarget c.base).Written := by
  obtain ⟨empty,idle⟩ := written.aimed aims
  constructor
  · exact written.low
  · exact written.whole
  · exact written.spelled
  · intro _
    show c.base = c.base + 4*start c.lap c.lap.length
    rw [empty]
    rfl
  · intro ready
    cases ready
  · intro ptr words client
    have client : c.client = some (ptr,words) := client
    rw [idle] at client
    cases client
  · exact written.jumps
  · intro e pending
    exact (written.jumps e pending).2
  · rfl

theorem resting_none (taken : c.jump = none) : c.Resting ↔ ∃ k, c.Rests k := by
  unfold Resting; rw [taken]

theorem resting_some (pending : c.jump = some e) : c.Resting ↔ c.completed = c.before ∧ c.read_ptr = e := by
  unfold Resting; rw [pending]

theorem reading_none (taken : c.jump = none) :
    c.Reading wptr ↔ c.aiming = false ∧ ∃ k m, c.Rests k ∧ k ≤ m ∧ m ≤ c.lap.length ∧ wptr = c.boundary m := by
  unfold Reading; rw [taken]

theorem reading_some (pending : c.jump = some e) : c.Reading wptr ↔ wptr ≤ e ∨ wptr = e + 8 := by
  unfold Reading; rw [pending]

theorem Whole_of (written : c.Written) : ∀ x ∈ c.lap, Whole cmdSize x := fun x listed => (written.whole x listed).1

-- The commands that are completed are those in front of read_ptr.
theorem Rests.all (rests : c.Rests k) (written : c.Written) (level : c.read_ptr = c.boundary c.lap.length) : k = c.lap.length := by
  apply start_inj (Whole_of written) rests.inside (Nat.le_refl _)
  have read := rests.read
  unfold boundary at read level
  omega

theorem Written.behind_aimed (written : c.Written) (pending : c.jump = some e) (aims : c.aiming = true) :
    c.write_ptr = e + 8 := by
  have behind := written.behind e pending
  rwa [if_pos aims] at behind

theorem Written.behind_ready (written : c.Written) (pending : c.jump = some e) (ready : c.aiming = false) :
    c.write_ptr < e := by
  have behind := written.behind e pending
  rwa [if_neg (by rw [ready]; decide)] at behind

theorem epilogue_boundary (client : c.client = some (ptr,words)) (commands : List (List Nat)) (inside : k ≤ c.lap.length) :
    (c.epilogue commands).boundary k = c.boundary k := by
  rw [epilogue_eq client commands]
  unfold boundary
  simp only [start_append inside]

theorem Rests.epilogue (rests : c.Rests k) (client : c.client = some (ptr,words)) (commands : List (List Nat)) :
    (c.epilogue commands).Rests k := by
  have place := epilogue_boundary client commands rests.inside
  rw [epilogue_eq client commands] at place ⊢
  constructor
  · show k ≤ (c.lap ++ commands).length
    rw [List.length_append]
    exact Nat.le_trans rests.inside (Nat.le_add_right _ _)
  · show c.completed = c.before ++ (c.lap ++ commands).take k
    rw [List.take_append_of_le_length rests.inside]
    exact rests.done
  · rw [place]
    exact rests.read

theorem Stands.epilogue (stands : c.Stands st) (client : c.client = some (ptr,words)) (commands : List (List Nat)) :
    (c.epilogue commands).Stands st := by
  have fields := epilogue_eq client commands
  have jump : (c.epilogue commands).jump = c.jump := by rw [fields]
  have resting : c.Resting → (c.epilogue commands).Resting := by
    intro rests
    cases pending : c.jump with
    | none =>
      rw [resting_none pending] at rests
      obtain ⟨k,rests⟩ := rests
      rw [resting_none (by rw [jump,pending])]
      exact ⟨k,rests.epilogue client commands⟩
    | some e =>
      rw [resting_some pending] at rests
      rw [resting_some (by rw [jump,pending]),fields]
      exact rests
  match st with
  | none => exact resting stands
  | some (.looping rptr wptr) =>
    obtain ⟨rests,read,reading⟩ := stands
    refine ⟨resting rests,by rw [fields]; exact read,?_⟩
    cases pending : c.jump with
    | none =>
      rw [reading_none pending] at reading
      obtain ⟨ready,k,m,rests,le,inside,same⟩ := reading
      rw [reading_none (by rw [jump,pending])]
      refine ⟨by rw [fields]; exact ready,k,m,rests.epilogue client commands,le,?_,?_⟩
      · rw [fields]
        show m ≤ (c.lap ++ commands).length
        rw [List.length_append]
        exact Nat.le_trans inside (Nat.le_add_right _ _)
      · rw [epilogue_boundary client commands inside]
        exact same
    | some e =>
      rw [reading_some pending] at reading
      rw [reading_some (by rw [jump,pending])]
      exact reading
  | some (.recording rptr) =>
    obtain ⟨k,records⟩ := stands
    have here := epilogue_boundary client commands (Nat.le_of_lt records.inside)
    have next := epilogue_boundary client commands records.inside
    rw [fields] at here next ⊢
    refine ⟨k,records.steady,?_,?_,?_,?_⟩
    · show k < (c.lap ++ commands).length
      rw [List.length_append]
      exact Nat.lt_of_lt_of_le records.inside (Nat.le_add_right _ _)
    · show c.completed = c.before ++ (c.lap ++ commands).take (k+1)
      rw [List.take_append_of_le_length records.inside]
      exact records.done
    · rw [here]
      exact records.read
    · rw [next]
      exact records.next
  | some (.jumping rptr) =>
    rw [fields]
    exact stands

-- spuglJump is only called when the server has nothing left to do.
theorem Stands.spuglJump (stands : c.Stands st) (written : c.Written) (client : c.client = some (ptr,Fifo.jumpWords target))
    (level : c.read_ptr = c.write_ptr) : (c.spuglJump target).Stands st := by
  have fields := spuglJump_eq client target
  have ready := written.no_aim client
  have ends := written.ends ready
  have jump : (c.spuglJump target).jump = some c.write_ptr := by rw [fields]
  have busy : ∀ e, c.jump = some e → c.read_ptr ≠ e := by
    intro e pending same
    have less := written.behind_ready pending ready
    omega
  have resting : c.Resting → (c.spuglJump target).Resting := by
    intro rests
    cases pending : c.jump with
    | none =>
      rw [resting_none pending] at rests
      obtain ⟨k,rests⟩ := rests
      have last := rests.all written (level.trans ends)
      rw [resting_some jump,fields]
      refine ⟨?_,level⟩
      have done := rests.done
      rwa [last,List.take_length] at done
    | some e =>
      rw [resting_some pending] at rests
      exact absurd rests.2 (busy e pending)
  match st with
  | none => exact resting stands
  | some (.looping rptr wptr) =>
    obtain ⟨rests,read,reading⟩ := stands
    refine ⟨resting rests,by rw [fields]; exact read,?_⟩
    rw [reading_some jump]
    cases pending : c.jump with
    | none =>
      rw [reading_none pending] at reading
      obtain ⟨_,k,m,rests,le,inside,same⟩ := reading
      have last := rests.all written (level.trans ends)
      have all : m = c.lap.length := by omega
      left
      apply Nat.le_of_eq
      rw [same,ends,all]
    | some e =>
      rw [resting_some pending] at rests
      exact absurd rests.2 (busy e pending)
  | some (.recording rptr) =>
    obtain ⟨k,records⟩ := stands
    have less := start_lt (Whole_of written) records.inside (Nat.le_refl _)
    have read := records.read
    unfold boundary at read ends
    omega
  | some (.jumping rptr) =>
    obtain ⟨e,pending,_,read,_⟩ := stands
    exact absurd read (busy e pending)

theorem Stands.caught_up (stands : c.Stands st) (written : c.Written) (client : c.client = some (ptr,words))
    (level : c.read_ptr = c.write_ptr) : c.jump = none := by
  cases pending : c.jump with
  | none => rfl
  | some e =>
    have less := written.behind_ready pending (written.no_aim client)
    have read : c.read_ptr = e := by
      match st with
      | none => exact ((resting_some pending).mp stands).2
      | some (.looping rptr wptr) => exact ((resting_some pending).mp stands.1).2
      | some (.recording rptr) =>
        obtain ⟨k,records⟩ := stands
        have taken := records.steady.1
        rw [pending] at taken
        cases taken
      | some (.jumping rptr) =>
        obtain ⟨e',pending',_,read,_⟩ := stands
        rw [pending] at pending'
        cases pending'
        exact read
    omega

-- What the server's place rests on.
structure Alike (c c' : CommandQueue) : Prop where
  jump : c'.jump = c.jump
  base : c'.base = c.base
  lap : c'.lap = c.lap
  before : c'.before = c.before
  completed : c'.completed = c.completed
  read : c'.read_ptr = c.read_ptr
  aiming : c.aiming = false → c'.aiming = false

theorem Alike.boundary (alike : c.Alike c') (k : Nat) : c'.boundary k = c.boundary k := by
  unfold CommandQueue.boundary
  rw [alike.base,alike.lap]

theorem Alike.rests (alike : c.Alike c') (rests : c.Rests k) : c'.Rests k where
  inside := by rw [alike.lap]; exact rests.inside
  done := by rw [alike.completed,alike.before,alike.lap]; exact rests.done
  read := by rw [alike.read,alike.boundary]; exact rests.read

theorem Alike.resting (alike : c.Alike c') (resting : c.Resting) : c'.Resting := by
  cases pending : c.jump with
  | none =>
    obtain ⟨k,rests⟩ := (resting_none pending).mp resting
    exact (resting_none (alike.jump.trans pending)).mpr ⟨k,alike.rests rests⟩
  | some e =>
    rw [resting_some (alike.jump.trans pending),alike.completed,alike.before,alike.read]
    exact (resting_some pending).mp resting

theorem Alike.stands (alike : c.Alike c') (stands : c.Stands st) : c'.Stands st := by
  match st with
  | none => exact alike.resting stands
  | some (.looping rptr wptr) =>
    obtain ⟨rests,read,reading⟩ := stands
    refine ⟨alike.resting rests,read.trans alike.read.symm,?_⟩
    cases pending : c.jump with
    | none =>
      obtain ⟨ready,k,m,rests,le,inside,same⟩ := (reading_none pending).mp reading
      refine (reading_none (alike.jump.trans pending)).mpr ⟨alike.aiming ready,k,m,alike.rests rests,le,?_,?_⟩
      · rw [alike.lap]; exact inside
      · rw [alike.boundary]; exact same
    | some e =>
      exact (reading_some (alike.jump.trans pending)).mpr ((reading_some pending).mp reading)
  | some (.recording rptr) =>
    obtain ⟨k,records⟩ := stands
    refine ⟨k,⟨alike.jump.trans records.steady.1,alike.aiming records.steady.2⟩,?_,?_,?_,?_⟩
    · rw [alike.lap]; exact records.inside
    · rw [alike.completed,alike.before,alike.lap]; exact records.done
    · rw [alike.read,alike.boundary]; exact records.read
    · rw [alike.boundary]; exact records.next
  | some (.jumping rptr) =>
    obtain ⟨e,pending,done,read,place⟩ := stands
    refine ⟨e,alike.jump.trans pending,?_,alike.read.trans read,place.trans alike.base.symm⟩
    rw [alike.completed,alike.before]
    exact done

theorem alike_prologue (c : CommandQueue) : c.Alike c.prologue := ⟨rfl,rfl,rfl,rfl,rfl,rfl,id⟩

theorem alike_outRing (c : CommandQueue) (word : Nat) : c.Alike (c.outRing word) := by
  unfold outRing
  split
  · exact ⟨rfl,rfl,rfl,rfl,rfl,rfl,id⟩
  · exact ⟨rfl,rfl,rfl,rfl,rfl,rfl,id⟩

theorem alike_setTarget (c : CommandQueue) (wp : Nat) : c.Alike (c.spuglSetTarget wp) :=
  ⟨rfl,rfl,rfl,rfl,rfl,rfl,fun _ => rfl⟩

end
end CommandQueue

namespace FifoWindow

section
variable {w : FifoWindow} {c : CommandQueue} {ptr : Nat} {words : List Nat}

theorem holds_none (taken : c.jump = none) : w.Holds c ↔ c.aiming = false ∧ w.upto ≤ c.write_ptr ∧
    ∀ p, w.fifo_ofs ≤ p → p < w.upto → w.fifo_area (p - w.fifo_ofs) = c.memory p := by
  unfold Holds; rw [taken]

theorem holds_some (pending : c.jump = some e) : w.Holds c ↔ (w.fifo_ofs ≤ e → e < w.upto → e + 8 ≤ w.upto ∧
    w.fifo_area (e - w.fifo_ofs) = c.memory e ∧ w.fifo_area (e + 4 - w.fifo_ofs) = c.memory (e + 4)) := by
  unfold Holds; rw [pending]

theorem Holds.prologue (holds : w.Holds c) : w.Holds c.prologue := holds

-- A client stores behind what any window holds.
theorem Holds.outRing (holds : w.Holds c) (written : c.Written) (client : c.client = some (ptr,words)) (word : Nat)
    (room : ∀ e, c.jump = some e → ptr < e) : w.Holds (c.outRing word) := by
  have place := (written.writing ptr words client).1
  have fields := CommandQueue.outRing_eq client word
  have jump : (c.outRing word).jump = c.jump := by rw [fields]
  cases pending : c.jump with
  | none =>
    rw [holds_none pending] at holds
    rw [holds_none (by rw [jump,pending]),fields]
    refine ⟨holds.1,holds.2.1,?_⟩
    intro p first last
    have less := holds.2.1
    show _ = Function.update c.memory ptr _ p
    rw [Function.update_of_ne (by omega)]
    exact holds.2.2 p first last
  | some e =>
    rw [holds_some pending] at holds
    rw [holds_some (by rw [jump,pending]),fields]
    intro first last
    obtain ⟨whole,head,target⟩ := holds first last
    have less := room e pending
    refine ⟨whole,?_,?_⟩
    · show _ = Function.update c.memory ptr _ e
      rw [Function.update_of_ne (by omega)]
      exact head
    · show _ = Function.update c.memory ptr _ (e+4)
      rw [Function.update_of_ne (by omega)]
      exact target

theorem Holds.epilogue (holds : w.Holds c) (written : c.Written) (client : c.client = some (ptr,words))
    (commands : List (List Nat)) : w.Holds (c.epilogue commands) := by
  have place := (written.writing ptr words client).1
  have fields := CommandQueue.epilogue_eq client commands
  have jump : (c.epilogue commands).jump = c.jump := by rw [fields]
  cases pending : c.jump with
  | none =>
    rw [holds_none pending] at holds
    rw [holds_none (by rw [jump,pending]),fields]
    refine ⟨holds.1,?_,holds.2.2⟩
    have less := holds.2.1
    show w.upto ≤ ptr
    omega
  | some e =>
    rw [holds_some pending] at holds
    rw [holds_some (by rw [jump,pending]),fields]
    exact holds

-- The JUMP lies behind what a window of the lap holds.
theorem Holds.spuglJump (holds : w.Holds c) (client : c.client = some (ptr,Fifo.jumpWords target)) (taken : c.jump = none) :
    w.Holds (c.spuglJump target) := by
  have fields := CommandQueue.spuglJump_eq client target
  have less := ((holds_none taken).mp holds).2.1
  rw [holds_some (e := c.write_ptr) (by rw [fields])]
  intro _ inside
  omega

-- A pass of the loop takes its command from the window, or has just taken it from there.
def Used (w : FifoWindow) : Option Stage → Prop
  | some (.looping rptr wptr) => wptr ≠ rptr ∧ w.holds rptr = true
  | some (.recording _) => True
  | _ => False

theorem Used.serving {stage : Option Stage} (used : w.Used stage) : stage ≠ none := by
  intro none
  rw [none] at used
  exact used

theorem Holds.setTarget (holds : w.Holds c) (aims : c.aiming = true) (wp : Nat) : w.Holds (c.spuglSetTarget wp) := by
  cases pending : c.jump with
  | none =>
    have ready := ((holds_none pending).mp holds).1
    rw [aims] at ready
    cases ready
  | some e =>
    have same : (c.spuglSetTarget wp).jump = some e := pending
    rw [holds_some pending] at holds
    rw [holds_some same]
    exact holds

end
end FifoWindow

namespace Fifo

section
variable {ι : Type} [DecidableEq ι]

structure Sound (s : Fifo ι) : Prop where
  apart : ∀ q q', (s.queue q).live = true → (s.queue q').live = true → (s.queue q).ea = (s.queue q').ea → q = q'
  mapped : ∀ q, (s.queue q).live = true → (s.queue q).ea ≠ 0
  older : s.window.owner < s.allocations
  younger : ∀ q, (s.queue q).generation < s.allocations
  written : ∀ q, (s.queue q).live = true → (s.queue q).Written
  stands : ∀ q, (s.queue q).live = true → (s.queue q).Stands (s.stage q)
  serving : ∀ q, s.stage q ≠ none → (s.queue q).live = true
  cached : ∀ q, (s.queue q).live = true → s.window.fifo_ea = (s.queue q).ea →
    s.window.owner = (s.queue q).generation → s.window.Holds (s.queue q)
  own : ∀ q, s.window.Used (s.stage q) → s.window.fifo_ea = (s.queue q).ea → s.window.owner = (s.queue q).generation
  dropped : ∀ q rptr, s.stage q = some (.jumping rptr) → s.window.fifo_ea = 0
  locked : s.reserved = true → ∀ q, s.stage q ≠ none → s.line = (s.queue q).write_ptr
  given : ∀ g ∈ s.given, g.words = g.memory ∧ ∀ cell ∈ g.words, cell.writer = some g.generation

-- No call starts between a JUMP and the store of spuglSetTarget, and a lap does not
-- overrun a JUMP that is not taken.
def clear (s : Fifo ι) : FifoAction ι → Prop
  | .process_queue q => (s.queue q).aiming = true → (s.queue q).jump ≠ none
  | .outRing q _ => (s.queue q).Room
  | .epilogue q _ => (s.queue q).Room
  | _ => True

-- A call that has something to do does not find its first command in a window that was cached for an earlier queue at
-- the same address.
def fresh (s : Fifo ι) : FifoAction ι → Prop
  | .process_queue q => (s.queue q).write_ptr ≠ (s.queue q).read_ptr → s.window.fifo_ea = (s.queue q).ea →
    s.window.holds (s.queue q).read_ptr = true → s.window.owner = (s.queue q).generation
  | _ => True

def guarded (s : Fifo ι) (a : FifoAction ι) : Prop := s.disciplined a ∧ s.clear a ∧ s.fresh a

@[simp] theorem set_self (s : Fifo ι) (q : ι) (c : CommandQueue) : (s.set q c).queue q = c := Function.update_self _ _ _

theorem set_other (s : Fifo ι) (other : q' ≠ q) (c : CommandQueue) : (s.set q c).queue q' = s.queue q' :=
  Function.update_of_ne other _ _

theorem set_field (s : Fifo ι) (q : ι) (c : CommandQueue) (f : CommandQueue → α) (same : f c = f (s.queue q)) (q' : ι) :
    f ((s.set q c).queue q') = f (s.queue q') := by
  by_cases here : q' = q
  · rw [here,set_self,same]
  · rw [set_other s here]

theorem stage_unique (s : Fifo ι) (here : s.stage q ≠ none) (other : q' ≠ q) : s.stage q' = none := by
  unfold Fifo.stage at here ⊢
  split at here
  · split at here
    · rename_i same
      rw [same]
      exact if_neg (Ne.symm other)
    · exact absurd rfl here
  · exact absurd rfl here

-- What a step on one queue may do to the cached window: leave it, drop it, or fetch
-- it anew for the queue being served.
inductive Follows (s next : Fifo ι) (q : ι) (c : CommandQueue) : Prop where
  | same (window : next.window = s.window)
      (holds : s.window.fifo_ea = (s.queue q).ea → s.window.Holds (s.queue q) → s.window.Holds c)
  | dropped (empty : next.window.fifo_ea = 0)
  | fetched (served : s.stage q ≠ none) (ea : next.window.fifo_ea = (s.queue q).ea)
      (owner : next.window.owner = (s.queue q).generation) (holds : next.window.Holds c)

-- A step on one queue: it is enough to look at that queue.
theorem Sound.update {s next : Fifo ι} (sound : s.Sound) (live : (s.queue q).live = true)
    (queue : next.queue = (s.set q c).queue) (away : ∀ q', q' ≠ q → next.stage q' = s.stage q')
    (allocations : next.allocations = s.allocations) (older : next.window.owner < s.allocations) (follows : s.Follows next q c)
    (ea : c.ea = (s.queue q).ea) (kept : c.live = true) (generation : c.generation = (s.queue q).generation)
    (written : c.Written) (stands : c.Stands (next.stage q))
    (own : next.window.Used (next.stage q) → next.window.fifo_ea = (s.queue q).ea → next.window.owner = (s.queue q).generation)
    (dropped : ∀ rptr, next.stage q = some (.jumping rptr) → next.window.fifo_ea = 0)
    (locked : next.reserved = true → next.stage q ≠ none → next.line = c.write_ptr)
    (lockedAway : next.reserved = true → ∀ q', q' ≠ q → s.stage q' ≠ none → s.reserved = true ∧ next.line = s.line)
    (given : ∀ g ∈ next.given, g.words = g.memory ∧ ∀ cell ∈ g.words, cell.writer = some g.generation) : next.Sound := by
  have self : next.queue q = c := by rw [queue]; exact set_self s q c
  have rest : ∀ q', q' ≠ q → next.queue q' = s.queue q' := by
    intro q' other; rw [queue]; exact set_other s other c
  have eas : ∀ q', (next.queue q').ea = (s.queue q').ea := by
    rw [queue]; exact set_field s q c CommandQueue.ea ea
  have lives : ∀ q', (next.queue q').live = (s.queue q').live := by
    rw [queue]; exact set_field s q c CommandQueue.live (by rw [kept,live])
  have generations : ∀ q', (next.queue q').generation = (s.queue q').generation := by
    rw [queue]; exact set_field s q c CommandQueue.generation generation
  constructor
  · intro q' q''; rw [lives,lives,eas,eas]; exact sound.apart q' q''
  · intro q'; rw [lives,eas]; exact sound.mapped q'
  · rw [allocations]; exact older
  · intro q'; rw [generations,allocations]; exact sound.younger q'
  · intro q'
    rw [lives]
    intro alive
    by_cases here : q' = q
    · rw [here,self]; exact written
    · rw [rest q' here]; exact sound.written q' alive
  · intro q'
    rw [lives]
    intro alive
    by_cases here : q' = q
    · rw [here,self]; exact stands
    · rw [rest q' here,away q' here]; exact sound.stands q' alive
  · intro q' serving
    rw [lives]
    by_cases here : q' = q
    · rw [here]; exact live
    · rw [away q' here] at serving; exact sound.serving q' serving
  · intro q'
    rw [lives,eas,generations]
    intro alive address owner
    by_cases here : q' = q
    · rw [here] at address owner ⊢
      rw [self]
      cases follows with
      | same window holds =>
        rw [window] at address owner ⊢
        exact holds address (sound.cached q live address owner)
      | dropped empty => rw [empty] at address; exact absurd address.symm (sound.mapped q live)
      | fetched _ _ _ holds => exact holds
    · rw [rest q' here]
      cases follows with
      | same window _ =>
        rw [window] at address owner ⊢
        exact sound.cached q' alive address owner
      | dropped empty => rw [empty] at address; exact absurd address.symm (sound.mapped q' alive)
      | fetched _ same _ _ => exact absurd (sound.apart q' q alive live (address.symm.trans same)) here
  · intro q' used
    rw [eas,generations]
    intro address
    by_cases here : q' = q
    · rw [here] at address used ⊢
      exact own used address
    · rw [away q' here] at used
      have alive := sound.serving q' used.serving
      cases follows with
      | same window _ =>
        rw [window] at address used ⊢
        exact sound.own q' used address
      | dropped empty => rw [empty] at address; exact absurd address.symm (sound.mapped q' alive)
      | fetched served _ _ _ => exact absurd (stage_unique s served here) used.serving
  · intro q' rptr jumping
    by_cases here : q' = q
    · rw [here] at jumping; exact dropped rptr jumping
    · rw [away q' here] at jumping
      cases follows with
      | same window _ => rw [window]; exact sound.dropped q' rptr jumping
      | dropped empty => exact empty
      | fetched served _ _ _ => rw [stage_unique s served here] at jumping; cases jumping
  · intro reserved q' serving
    by_cases here : q' = q
    · rw [here] at serving ⊢
      rw [self]
      exact locked reserved serving
    · rw [away q' here] at serving
      obtain ⟨was,line⟩ := lockedAway reserved q' here serving
      rw [rest q' here,line]
      exact sound.locked was q' serving
  · exact given

-- A client's step leaves the server where it is.
theorem Sound.client {s next : Fifo ι} (sound : s.Sound) (live : (s.queue q).live = true)
    (queue : next.queue = (s.set q c).queue) (current : next.current = s.current) (window : next.window = s.window)
    (line : next.line = s.line) (allocations : next.allocations = s.allocations) (given : next.given = s.given)
    (ea : c.ea = (s.queue q).ea) (kept : c.live = true) (generation : c.generation = (s.queue q).generation)
    (written : c.Written) (stands : c.Stands (s.stage q))
    (holds : s.window.fifo_ea = (s.queue q).ea → s.window.Holds (s.queue q) → s.window.Holds c)
    (reserved : next.reserved = true → s.reserved = true ∧ (s.stage q ≠ none → c.write_ptr = (s.queue q).write_ptr)) :
    next.Sound := by
  have stage : ∀ q', next.stage q' = s.stage q' := by
    intro q'; unfold Fifo.stage; rw [current]
  apply sound.update live queue (fun q' _ => stage q') allocations (by rw [window]; exact sound.older) (.same window holds) ea kept
    generation written (by rw [stage]; exact stands)
  · rw [stage,window]; exact sound.own q
  · intro rptr; rw [stage,window]; exact sound.dropped q rptr
  · intro held serving
    rw [stage] at serving
    rw [line,(reserved held).2 serving]
    exact sound.locked (reserved held).1 q serving
  · intro held _ _ _
    exact ⟨(reserved held).1,line⟩
  · rw [given]; exact sound.given

theorem Sound.prologue {s : Fifo ι} (sound : s.Sound) (live : (s.queue q).live = true) (ready : (s.queue q).aiming = false) :
    (s.set q (s.queue q).prologue).Sound :=
  sound.client live rfl rfl rfl rfl rfl rfl rfl live rfl ((sound.written q live).prologue ready)
    ((CommandQueue.alike_prologue _).stands (sound.stands q live)) (fun _ => FifoWindow.Holds.prologue)
    fun held => ⟨held,fun _ => rfl⟩

theorem Sound.outRing {s : Fifo ι} (sound : s.Sound) (live : (s.queue q).live = true) (begun : (s.queue q).client ≠ none)
    (room : s.clear (.outRing q word)) : (s.set q ((s.queue q).outRing word)).Sound := by
  obtain ⟨⟨ptr,words⟩,client⟩ := Option.ne_none_iff_exists'.mp begun
  have fields := CommandQueue.outRing_eq client word
  have room : ∀ e, (s.queue q).jump = some e → ptr < e := CommandQueue.Room.front room client
  have written := sound.written q live
  refine sound.client live rfl rfl rfl rfl rfl rfl ?_ ?_ ?_ ?_ ?_ ?_ ?_
  · rw [fields]
  · rw [fields]; exact live
  · rw [fields]
  · exact written.outRing client word room
  · exact (CommandQueue.alike_outRing _ word).stands (sound.stands q live)
  · intro _ holds
    exact holds.outRing written client word room
  · intro held
    exact ⟨held,fun _ => by rw [fields]⟩

theorem touched {s : Fifo ι} (held : (s.touch q).reserved = true) : s.reserved = true ∧ s.stage q = none := by
  simp only [touch,Bool.and_eq_true,Option.isNone_iff_eq_none] at held
  exact held

theorem Sound.epilogue {s : Fifo ι} (sound : s.Sound) (live : (s.queue q).live = true)
    (client : (s.queue q).client = some (ptr,commands.flatten)) (appendable : ∀ c ∈ commands, Appendable c)
    (room : s.clear (.epilogue q commands)) : ((s.touch q).set q ((s.queue q).epilogue commands)).Sound := by
  have fields := CommandQueue.epilogue_eq client commands
  have room : ∀ e, (s.queue q).jump = some e → ptr < e := CommandQueue.Room.front room client
  have written := sound.written q live
  refine sound.client live rfl rfl rfl rfl rfl rfl ?_ ?_ ?_ ?_ ?_ ?_ ?_
  · rw [fields]
  · rw [fields]; exact live
  · rw [fields]
  · exact written.epilogue client appendable room
  · exact (sound.stands q live).epilogue client commands
  · intro _ holds
    exact holds.epilogue written client commands
  · intro held
    have held := touched held
    exact ⟨held.1,fun serving => absurd held.2 serving⟩

theorem Sound.spuglJump {s : Fifo ι} (sound : s.Sound) (live : (s.queue q).live = true)
    (client : (s.queue q).client = some (ptr,jumpWords target)) (level : (s.queue q).read_ptr = (s.queue q).write_ptr)
    (low : 128 ≤ target) (below : target < (s.queue q).write_ptr) :
    ((s.touch q).set q ((s.queue q).spuglJump target)).Sound := by
  have fields := CommandQueue.spuglJump_eq client target
  have written := sound.written q live
  have stands := sound.stands q live
  refine sound.client live rfl rfl rfl rfl rfl rfl ?_ ?_ ?_ ?_ ?_ ?_ ?_
  · rw [fields]
  · rw [fields]; exact live
  · rw [fields]
  · exact written.spuglJump client low below
  · exact stands.spuglJump written client level
  · intro _ holds
    exact holds.spuglJump client (stands.caught_up written client level)
  · intro held
    have held := touched held
    exact ⟨held.1,fun serving => absurd held.2 serving⟩

theorem Sound.spuglSetTarget {s : Fifo ι} (sound : s.Sound) (live : (s.queue q).live = true) (aims : (s.queue q).aiming = true) :
    ((s.touch q).set q ((s.queue q).spuglSetTarget (s.queue q).base)).Sound := by
  refine sound.client live rfl rfl rfl rfl rfl rfl rfl live rfl ?_ ?_ ?_ ?_
  · exact (sound.written q live).spuglSetTarget aims
  · exact (CommandQueue.alike_setTarget _ _).stands (sound.stands q live)
  · intro _ holds
    exact holds.setTarget aims _
  · intro held
    have held := touched held
    exact ⟨held.1,fun serving => absurd held.2 serving⟩

theorem Sound.freeBuffer {s : Fifo ι} (sound : s.Sound) (idle : s.stage q = none) :
    (s.set q {s.queue q with live := false}).Sound := by
  have lives : ∀ q', ((s.set q {s.queue q with live := false}).queue q').live = true →
      (s.set q {s.queue q with live := false}).queue q' = s.queue q' := by
    intro q' alive
    by_cases here : q' = q
    · rw [here,set_self] at alive
      cases alive
    · exact set_other s here _
  have served : ∀ q', s.stage q' ≠ none → (s.set q {s.queue q with live := false}).queue q' = s.queue q' := by
    intro q' serving
    have other : q' ≠ q := fun here => serving (here ▸ idle)
    exact set_other s other _
  constructor
  · intro q' q'' alive alive'
    have same := lives q' alive
    have same' := lives q'' alive'
    rw [same] at alive ⊢
    rw [same'] at alive' ⊢
    exact sound.apart q' q'' alive alive'
  · intro q' alive
    have same := lives q' alive
    rw [same] at alive ⊢
    exact sound.mapped q' alive
  · exact sound.older
  · intro q'
    exact Nat.lt_of_le_of_lt (Nat.le_of_eq (set_field s q {s.queue q with live := false} CommandQueue.generation rfl q')) (sound.younger q')
  · intro q' alive
    have same := lives q' alive
    rw [same] at alive ⊢
    exact sound.written q' alive
  · intro q' alive
    have same := lives q' alive
    rw [same] at alive ⊢
    exact sound.stands q' alive
  · intro q' serving
    rw [served q' serving]
    exact sound.serving q' serving
  · intro q' alive
    have same := lives q' alive
    rw [same] at alive ⊢
    exact sound.cached q' alive
  · intro q' used
    rw [served q' used.serving]
    exact sound.own q' used
  · exact sound.dropped
  · intro held q' serving
    rw [served q' serving]
    exact sound.locked held q' serving
  · exact sound.given

end
end Fifo
end Spugl
