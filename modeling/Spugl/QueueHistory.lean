import Spugl.QueueServing

namespace Spugl
open CommandFraming Runs

namespace Fifo

section
variable {ι : Type} [DecidableEq ι]

-- Queues that are mapped at distinct addresses, with nothing written yet.
def Opened (s : Fifo ι) : Prop := ∃ ea live, (∀ q, live q = true → ea q ≠ 0) ∧
  (∀ q q', live q = true → live q' = true → ea q = ea q' → q = q') ∧ s = start ea live

def keepsBuffers : FifoAction ι → Prop
  | .allocateBuffer _ _ | .freeBuffer _ => False
  | _ => True

def keepsLap : FifoAction ι → Prop
  | .spuglJump _ _ | .spuglSetTarget _ _ => False
  | _ => True

-- Clients that only append, clients that wrap, and queues that come and go.
def appending (s : Fifo ι) (a : FifoAction ι) : Prop := s.disciplined a ∧ keepsBuffers a ∧ keepsLap a
def wrapping (s : Fifo ι) (a : FifoAction ι) : Prop := s.disciplined a ∧ keepsBuffers a
def reusing (s : Fifo ι) (a : FifoAction ι) : Prop := s.disciplined a ∧ keepsLap a

end

section
variable {ι : Type} [DecidableEq ι] {behind : Nat → Bool} {s : Fifo ι} {q : ι}

theorem set_keeps {P : CommandQueue → Prop} (all : ∀ q, P (s.queue q)) (new : P c) (q' : ι) : P ((s.set q c).queue q') := by
  by_cases here : q' = q
  · rw [here,set_self]; exact new
  · rw [set_other s here]; exact all q'

-- The ends of a handler call.
theorem dispatch_cases (behind : Nat → Bool) (s : Fifo ι) (q : ι) (rptr : Nat) (stall : Bool) :
    dispatch behind s q rptr stall = (s.called q rptr).takeJump q (s.window.cmd_buf rptr 1).word ∨
    dispatch behind s q rptr stall = {s.called q rptr with current := none} ∨
    dispatch behind s q rptr stall = (s.called q rptr).complete q rptr ∨
    dispatch behind s q rptr stall = s.complete q rptr := by
  simp only [dispatch]
  split
  · split
    · exact .inl rfl
    · split
      · exact .inr (.inl rfl)
      · exact .inr (.inr (.inl rfl))
  · exact .inr (.inr (.inr rfl))

-- One pass of the loop changes a queue by a completed command at most, and the
-- owner of the window to the queue's own at most.
theorem turn_cases (behind : Nat → Bool) (s : Fifo ι) (q : ι) (rptr wptr : Nat) (stall : Bool) :
    ((turn behind s q rptr wptr stall).queue = s.queue ∨ ∃ x, (turn behind s q rptr wptr stall).queue =
      (s.set q {s.queue q with completed := (s.queue q).completed ++ [x]}).queue) ∧
    ((turn behind s q rptr wptr stall).window.owner = s.window.owner ∨
      (turn behind s q rptr wptr stall).window.owner = (s.queue q).generation) := by
  unfold turn
  split
  · exact ⟨.inl rfl,.inl rfl⟩
  · split
    · rcases dispatch_cases behind s q rptr stall with jump | stall | done | skip
      · rw [jump]; exact ⟨.inl rfl,.inl rfl⟩
      · rw [stall]; exact ⟨.inl rfl,.inl rfl⟩
      · rw [done]; exact ⟨.inr ⟨_,rfl⟩,.inl rfl⟩
      · rw [skip]; exact ⟨.inr ⟨_,rfl⟩,.inl rfl⟩
    · exact ⟨.inl rfl,.inr rfl⟩

-- A property of queues that no action of theirs changes holds of all of them still.
theorem act_keeps (P : CommandQueue → Prop) (all : ∀ q, P (s.queue q)) (a : FifoAction ι)
    (allocate : ∀ q ea, a = .allocateBuffer q ea → P (.allocate ea s.allocations true))
    (free : ∀ c, P c → P {c with live := false})
    (write : ∀ c ptr_memory client, P c → P {c with memory := ptr_memory,client := client})
    (publish : ∀ c lap ptr, P c → P {c with write_ptr := ptr,client := none,lap := lap,stored := ptr})
    (jump : ∀ q target c, a = .spuglJump q target → P c → P (c.spuglJump target))
    (aim : ∀ q wp c, a = .spuglSetTarget q wp → P c → P (c.spuglSetTarget wp))
    (complete : ∀ c x, P c → P {c with completed := c.completed ++ [x]})
    (record : ∀ c rptr line, P c → P {c with read_ptr := rptr,write_ptr := line})
    (take : ∀ c rptr line, P c → P {c with read_ptr := rptr,write_ptr := line,jump := none}) (q' : ι) :
    P ((s.act behind a).queue q') := by
  cases a with
  | allocateBuffer q ea => exact set_keeps all (allocate q ea rfl) q'
  | freeBuffer q => exact set_keeps all (free _ (all q)) q'
  | prologue q => exact set_keeps all (write _ _ _ (all q)) q'
  | outRing q word =>
    apply set_keeps all
    unfold CommandQueue.outRing
    split
    · exact write _ _ _ (all q)
    · exact all q
  | epilogue q commands =>
    apply set_keeps (s := s.touch q) all
    unfold CommandQueue.epilogue
    split
    · exact publish _ _ _ (all q)
    · exact all q
  | spuglJump q target => exact set_keeps (s := s.touch q) all (jump q target _ rfl (all q)) q'
  | spuglSetTarget q wp => exact set_keeps (s := s.touch q) all (aim q wp _ rfl (all q)) q'
  | process_queue q => exact all q'
  | turn stall =>
    simp only [Fifo.act]
    split
    · rename_i q rptr wptr _
      rcases (turn_cases behind s q rptr wptr stall).1 with same | ⟨x,done⟩
      · rw [same]; exact all q'
      · rw [done]; exact set_keeps all (complete _ _ (all q)) q'
    · exact all q'
  | putllc ok =>
    simp only [Fifo.act]
    split
    · split
      · exact set_keeps all (record _ _ _ (all _)) q'
      · exact all q'
    · split
      · exact set_keeps all (take _ _ _ (all _)) q'
      · exact all q'
    · exact all q'

-- A queue that has never wrapped.
structure FirstLap (c : CommandQueue) : Prop where
  jump : c.jump = none
  aiming : c.aiming = false
  before : c.before = []
  base : c.base = 128

theorem act_firstLap (all : ∀ q, FirstLap (s.queue q)) (keeps : keepsLap a) : ∀ q, FirstLap ((s.act behind a).queue q) := by
  apply act_keeps FirstLap all a
  · intro q ea _; exact ⟨rfl,rfl,rfl,rfl⟩
  · intro c first; exact ⟨first.jump,first.aiming,first.before,first.base⟩
  · intro c _ _ first; exact ⟨first.jump,first.aiming,first.before,first.base⟩
  · intro c _ _ first; exact ⟨first.jump,first.aiming,first.before,first.base⟩
  · intro q target c same; rw [same] at keeps; exact keeps.elim
  · intro q wp c same; rw [same] at keeps; exact keeps.elim
  · intro c _ first; exact ⟨first.jump,first.aiming,first.before,first.base⟩
  · intro c _ _ first; exact ⟨first.jump,first.aiming,first.before,first.base⟩
  · intro c _ _ first; exact ⟨rfl,first.aiming,first.before,first.base⟩

-- Nothing but the first allocations.
def Unmoved (s : Fifo ι) : Prop := (∀ q, (s.queue q).generation = 0) ∧ s.window.owner = 0

theorem act_unmoved (unmoved : s.Unmoved) (keeps : keepsBuffers a) : (s.act behind a).Unmoved := by
  constructor
  · apply act_keeps (fun c => c.generation = 0) unmoved.1 a
    · intro q ea same; rw [same] at keeps; exact keeps.elim
    · intro c same; exact same
    · intro c _ _ same; exact same
    · intro c _ _ same; exact same
    · intro q target c _ same
      unfold CommandQueue.spuglJump
      split
      · exact same
      · exact same
    · intro q wp c _ same; exact same
    · intro c _ same; exact same
    · intro c _ _ same; exact same
    · intro c _ _ same; exact same
  · cases a with
    | turn stall =>
      simp only [Fifo.act]
      split
      · rename_i q rptr wptr _
        rcases (turn_cases behind s q rptr wptr stall).2 with same | new
        · rw [same]; exact unmoved.2
        · rw [new]; exact unmoved.1 q
      · exact unmoved.2
    | putllc ok =>
      simp only [Fifo.act]
      split
      · split
        · exact unmoved.2
        · exact unmoved.2
      · split
        · exact unmoved.2
        · exact unmoved.2
      · exact unmoved.2
    | _ => exact unmoved.2

theorem opened_sound (opened : Opened s) : s.Sound := by
  obtain ⟨ea,live,mapped,apart,rfl⟩ := opened
  exact start_sound mapped apart

omit [DecidableEq ι] in
theorem opened_firstLap (opened : Opened s) (q : ι) : FirstLap (s.queue q) := by
  obtain ⟨_,_,_,_,rfl⟩ := opened
  exact ⟨rfl,rfl,rfl,rfl⟩

omit [DecidableEq ι] in
theorem opened_unmoved (opened : Opened s) : s.Unmoved := by
  obtain ⟨_,_,_,_,rfl⟩ := opened
  exact ⟨fun _ => rfl,rfl⟩

omit [DecidableEq ι] in
theorem Unmoved.fresh (unmoved : s.Unmoved) (a : FifoAction ι) : s.fresh a := by
  unfold Fifo.fresh
  split
  · intro _ _ _
    rw [unmoved.2,unmoved.1]
  · trivial

omit [DecidableEq ι] in
theorem clear_first (first : ∀ q, FirstLap (s.queue q)) (a : FifoAction ι) : s.clear a := by
  unfold clear
  split
  · intro aims; rw [(first _).aiming] at aims; cases aims
  · unfold CommandQueue.Room; rw [(first _).jump]; trivial
  · unfold CommandQueue.Room; rw [(first _).jump]; trivial
  · trivial

-- The three kinds of run stay within what keeps the invariant.
theorem appending_sound (path : Runs.Reached Opened (Step (act behind) appending) s) :
    s.Sound ∧ ∀ q, FirstLap (s.queue q) := by
  have all : (s.Sound ∧ s.Unmoved) ∧ ∀ q, FirstLap (s.queue q) := by
    apply path.invariant (fun s => (s.Sound ∧ s.Unmoved) ∧ ∀ q, FirstLap (s.queue q))
    · intro s opened
      exact ⟨⟨opened_sound opened,opened_unmoved opened⟩,opened_firstLap opened⟩
    · intro s next known moved
      obtain ⟨⟨sound,unmoved⟩,first⟩ := known
      obtain ⟨a,⟨disciplined,buffers,lap⟩,rfl⟩ := moved
      exact ⟨⟨act_sound sound ⟨disciplined,clear_first first a,unmoved.fresh a⟩,act_unmoved unmoved buffers⟩,act_firstLap first lap⟩
  exact ⟨all.1.1,all.2⟩

theorem wrapping_sound (path : Runs.Reached Opened (Step (act behind) fun s a => wrapping s a ∧ s.clear a) s) : s.Sound := by
  have all : s.Sound ∧ s.Unmoved := by
    apply path.invariant (fun s => s.Sound ∧ s.Unmoved)
    · intro s opened
      exact ⟨opened_sound opened,opened_unmoved opened⟩
    · intro s next known moved
      obtain ⟨sound,unmoved⟩ := known
      obtain ⟨a,⟨⟨disciplined,buffers⟩,clear⟩,rfl⟩ := moved
      exact ⟨act_sound sound ⟨disciplined,clear,unmoved.fresh a⟩,act_unmoved unmoved buffers⟩
  exact all.1

theorem reusing_sound (path : Runs.Reached Opened (Step (act behind) fun s a => reusing s a ∧ s.fresh a) s) : s.Sound := by
  have all : s.Sound ∧ ∀ q, FirstLap (s.queue q) := by
    apply path.invariant (fun s => s.Sound ∧ ∀ q, FirstLap (s.queue q))
    · intro s opened
      exact ⟨opened_sound opened,opened_firstLap opened⟩
    · intro s next known moved
      obtain ⟨sound,first⟩ := known
      obtain ⟨a,⟨⟨disciplined,lap⟩,fresh⟩,rfl⟩ := moved
      exact ⟨act_sound sound ⟨disciplined,clear_first first a,fresh⟩,act_firstLap first lap⟩
  exact all.1

-- In any number of laps, the completed commands are the first of those issued.
theorem completed_first (sound : s.Sound) (live : (s.queue q).live = true) :
    ∃ k, k ≤ (s.queue q).issued.length ∧ (s.queue q).completed = (s.queue q).issued.take k := by
  have stands := sound.stands q live
  have early : ∀ k, k ≤ (s.queue q).lap.length → (s.queue q).completed = (s.queue q).before ++ (s.queue q).lap.take k →
      ∃ k, k ≤ (s.queue q).issued.length ∧ (s.queue q).completed = (s.queue q).issued.take k := by
    intro k inside done
    refine ⟨(s.queue q).before.length + k,?_,?_⟩
    · unfold CommandQueue.issued
      rw [List.length_append]
      omega
    · unfold CommandQueue.issued
      rw [done,List.take_length_add_append]
  have rests : (s.queue q).Resting → ∃ k, k ≤ (s.queue q).issued.length ∧ (s.queue q).completed = (s.queue q).issued.take k := by
    intro resting
    cases pending : (s.queue q).jump with
    | none =>
      obtain ⟨k,rests⟩ := (CommandQueue.resting_none pending).mp resting
      exact early k rests.inside rests.done
    | some e =>
      have done := ((CommandQueue.resting_some pending).mp resting).1
      exact early 0 (Nat.zero_le _) (by rw [List.take_zero,List.append_nil,done])
  cases stage : s.stage q with
  | none => rw [stage] at stands; exact rests stands
  | some st =>
    rw [stage] at stands
    cases st with
    | looping rptr wptr => exact rests stands.1
    | recording rptr =>
      obtain ⟨k,records⟩ := stands
      exact early (k+1) records.inside records.done
    | jumping rptr =>
      obtain ⟨e,_,done,_,_⟩ := stands
      exact early 0 (Nat.zero_le _) (by rw [List.take_zero,List.append_nil,done])

-- A queue that looks drained to its client is drained.
theorem drained (sound : s.Sound) (live : (s.queue q).live = true) (ready : (s.queue q).aiming = false)
    (level : (s.queue q).read_ptr = (s.queue q).write_ptr) : (s.queue q).completed = (s.queue q).issued := by
  have written := sound.written q live
  have stands := sound.stands q live
  have ends := written.ends ready
  have rests : (s.queue q).Resting → (s.queue q).completed = (s.queue q).issued := by
    intro resting
    cases pending : (s.queue q).jump with
    | none =>
      obtain ⟨k,rests⟩ := (CommandQueue.resting_none pending).mp resting
      have last := rests.all written (level.trans ends)
      have done := rests.done
      rwa [last,List.take_length] at done
    | some e =>
      have read := ((CommandQueue.resting_some pending).mp resting).2
      have less := written.behind_ready pending ready
      omega
  cases stage : s.stage q with
  | none => rw [stage] at stands; exact rests stands
  | some st =>
    rw [stage] at stands
    cases st with
    | looping rptr wptr => exact rests stands.1
    | recording rptr =>
      obtain ⟨k,records⟩ := stands
      have less := start_lt (CommandQueue.Whole_of written) records.inside (Nat.le_refl _)
      have read := records.read
      unfold CommandQueue.boundary at read ends
      omega
    | jumping rptr =>
      obtain ⟨e,pending,_,read,_⟩ := stands
      have less := written.behind_ready pending ready
      omega

-- Where read_ptr stands in the first lap.
theorem read_boundary (sound : s.Sound) (live : (s.queue q).live = true) (first : FirstLap (s.queue q)) :
    ∃ k, k ≤ (s.queue q).lap.length ∧ (s.queue q).completed = (s.queue q).lap.take k ∧
      (∃ j, j ≤ k ∧ (s.queue q).read_ptr = (s.queue q).boundary j) ∧
      ((∀ rptr, s.stage q ≠ some (.recording rptr)) → (s.queue q).read_ptr = (s.queue q).boundary k) := by
  have stands := sound.stands q live
  have rests : (s.queue q).Resting → ∃ k, k ≤ (s.queue q).lap.length ∧ (s.queue q).completed = (s.queue q).lap.take k ∧
      (∃ j, j ≤ k ∧ (s.queue q).read_ptr = (s.queue q).boundary j) ∧
      ((∀ rptr, s.stage q ≠ some (.recording rptr)) → (s.queue q).read_ptr = (s.queue q).boundary k) := by
    intro resting
    obtain ⟨k,rests⟩ := (CommandQueue.resting_none first.jump).mp resting
    have done := rests.done
    rw [first.before,List.nil_append] at done
    exact ⟨k,rests.inside,done,⟨k,Nat.le_refl _,rests.read⟩,fun _ => rests.read⟩
  cases stage : s.stage q with
  | none => rw [stage] at stands rests; exact rests stands
  | some st =>
    rw [stage] at stands rests
    cases st with
    | looping rptr wptr => exact rests stands.1
    | recording rptr =>
      obtain ⟨k,records⟩ := stands
      have done := records.done
      rw [first.before,List.nil_append] at done
      exact ⟨k+1,records.inside,done,⟨k,Nat.le_succ k,records.read⟩,fun other => absurd rfl (other rptr)⟩
    | jumping rptr =>
      obtain ⟨e,pending,_⟩ := stands
      rw [first.jump] at pending
      cases pending

end

section
variable {n : Nat}

instance : DecidablePred Appendable := fun _ => inferInstanceAs (Decidable (_ ∧ _ ∧ _))

instance decideDisciplined (s : Fifo (Fin n)) : (a : FifoAction (Fin n)) → Decidable (s.disciplined a)
  | .allocateBuffer _ _ => inferInstanceAs (Decidable (_ ∧ _ ∧ _))
  | .freeBuffer _ => inferInstanceAs (Decidable (_ ∧ _))
  | .prologue _ => inferInstanceAs (Decidable (_ ∧ _ ∧ _))
  | .outRing _ _ => inferInstanceAs (Decidable (_ ∧ _))
  | .epilogue _ _ => inferInstanceAs (Decidable (_ ∧ _ ∧ _))
  | .spuglJump _ _ => inferInstanceAs (Decidable (_ ∧ _ ∧ _ ∧ _ ∧ _ ∧ _))
  | .spuglSetTarget _ _ => inferInstanceAs (Decidable (_ ∧ _ ∧ _))
  | .process_queue _ => inferInstanceAs (Decidable (_ ∧ _))
  | .turn _ => .isTrue trivial
  | .putllc _ => inferInstanceAs (Decidable (_ → _))

instance : (a : FifoAction (Fin n)) → Decidable (keepsBuffers a)
  | .allocateBuffer _ _ | .freeBuffer _ => .isFalse id
  | .prologue _ | .outRing _ _ | .epilogue _ _ | .spuglJump _ _ | .spuglSetTarget _ _ | .process_queue _ | .turn _ | .putllc _ =>
    .isTrue trivial

instance : (a : FifoAction (Fin n)) → Decidable (keepsLap a)
  | .spuglJump _ _ | .spuglSetTarget _ _ => .isFalse id
  | .allocateBuffer _ _ | .freeBuffer _ | .prologue _ | .outRing _ _ | .epilogue _ _ | .process_queue _ | .turn _ | .putllc _ =>
    .isTrue trivial

instance (c : CommandQueue) : Decidable c.Room :=
  match jump : c.jump,client : c.client with
  | some e,some (ptr,_) => decidable_of_iff (ptr < e) (by unfold CommandQueue.Room; rw [jump,client])
  | some _,none => .isTrue (by unfold CommandQueue.Room; rw [jump,client]; trivial)
  | none,_ => .isTrue (by unfold CommandQueue.Room; rw [jump]; trivial)

instance (s : Fifo (Fin n)) : (a : FifoAction (Fin n)) → Decidable (s.clear a)
  | .process_queue _ => inferInstanceAs (Decidable (_ → _))
  | .outRing q _ => inferInstanceAs (Decidable (s.queue q).Room)
  | .epilogue q _ => inferInstanceAs (Decidable (s.queue q).Room)
  | .allocateBuffer _ _ | .freeBuffer _ | .prologue _ | .spuglJump _ _ | .spuglSetTarget _ _ | .turn _ | .putllc _ => .isTrue trivial

instance (s : Fifo (Fin n)) : (a : FifoAction (Fin n)) → Decidable (s.fresh a)
  | .process_queue _ => inferInstanceAs (Decidable (_ → _))
  | .allocateBuffer _ _ | .freeBuffer _ | .prologue _ | .outRing _ _ | .epilogue _ _ | .spuglJump _ _ | .spuglSetTarget _ _ |
    .turn _ | .putllc _ => .isTrue trivial

instance (s : Fifo (Fin n)) (a : FifoAction (Fin n)) : Decidable (appending s a) := inferInstanceAs (Decidable (_ ∧ _ ∧ _))
instance (s : Fifo (Fin n)) (a : FifoAction (Fin n)) : Decidable (wrapping s a) := inferInstanceAs (Decidable (_ ∧ _))
instance (s : Fifo (Fin n)) (a : FifoAction (Fin n)) : Decidable (reusing s a) := inferInstanceAs (Decidable (_ ∧ _))

-- One queue at address 4096, with nothing behind the command table.
def single : Fifo (Fin 1) := start (fun _ => 4096) (fun _ => true)
def nothing (_ : Nat) : Bool := false

theorem single_opened : Opened single :=
  ⟨_,_,by decide,fun q q' _ _ _ => Subsingleton.elim q q',rfl⟩

-- Two queues, in neighbouring pages.
def pair : Fifo (Fin 2) := start (fun q => 4096*(q.val+1)) (fun _ => true)

theorem pair_opened : Opened pair := ⟨_,_,by decide,by decide,rfl⟩

-- A command is written, and process_queue called until there is nothing left.
def append (q : Fin n) (words : List Nat) : List (FifoAction (Fin n)) :=
  .prologue q :: words.map (.outRing q) ++ [.epilogue q [words]]

def serve (q : Fin n) : List (FifoAction (Fin n)) := [.process_queue q,.turn false,.turn false,.putllc true,.turn false]

def nop : List Nat := [beginRing FIFO_COMMAND_NOP 0]
def drawContext : List Nat := [beginRing 6 1,9]

-- A call that fetches the JUMP, takes it, and records its target.
def wrap : List (FifoAction (Fin 1)) :=
  .prologue 0 :: (jumpWords 128).map (.outRing 0) ++ [.spuglJump 0 128]
def serveJump : List (FifoAction (Fin 1)) := [.process_queue 0,.turn false,.turn false,.putllc true]

def after (s : Fifo (Fin n)) (actions : List (FifoAction (Fin n))) : Fifo (Fin n) := actions.foldl (act nothing) s

theorem after_reached {allowed : Fifo (Fin n) → FifoAction (Fin n) → Prop} {actions : List (FifoAction (Fin n))} {s : Fifo (Fin n)}
    (opened : Opened s) (admits : Admits (act nothing) allowed s actions) :
    Runs.Reached Opened (Step (act nothing) allowed) (after s actions) :=
  (Runs.Reached.start opened).follow admits

-- The target is stored once the JUMP is taken; then the next lap follows.
def wrapped : List (FifoAction (Fin 1)) :=
  [append 0 nop,serve 0,wrap,serveJump,[.spuglSetTarget 0 128],append 0 drawContext,serve 0].flatten

-- A call begins before the target is stored.
def early : List (FifoAction (Fin 1)) := [append 0 nop,serve 0,wrap,serveJump,serve 0].flatten

-- The queue is freed, and its address mapped for a new one.
def reused : List (FifoAction (Fin 1)) :=
  [append 0 nop,serve 0,[.freeBuffer 0,.allocateBuffer 0 4096],append 0 drawContext,serve 0].flatten

-- A handler stalls, and the other queue takes the window. Then a command is appended between dispatch and PUTLLC, which
-- fails; so does the next PUTLLC, its reservation being used up.
def shared : List (FifoAction (Fin 2)) :=
  [append 0 drawContext,append 1 nop,[.process_queue 0,.turn false,.turn true],serve 1,[.process_queue 0,.turn false,.turn false],
    append 0 nop,[.putllc false,.putllc true,.turn false,.turn false,.putllc false,.putllc true,.turn false]].flatten

-- A new queue at the address of the old one is called while it is empty, and served after the other has had the window.
def returned : List (FifoAction (Fin 2)) :=
  [append 0 nop,serve 0,[.freeBuffer 0,.allocateBuffer 0 4096,.process_queue 0,.turn false],
    append 1 drawContext,serve 1,append 0 drawContext,serve 0].flatten

end

section
variable {ι : Type} [DecidableEq ι] {behind : Nat → Bool} {s : Fifo ι} {q : ι}

-- Clients that only append: each command is completed once and in order, from its
-- own words, and no store to write_ptr is lost.
theorem commands_exactly_once (path : Runs.Reached Opened (Step (act behind) appending) s) (live : (s.queue q).live = true) :
    (∃ k, k ≤ (s.queue q).issued.length ∧ (s.queue q).completed = (s.queue q).issued.take k ∧
      (∃ j, j ≤ k ∧ (s.queue q).read_ptr = 128 + 4*CommandFraming.start (s.queue q).issued j) ∧
      ((∀ rptr, s.stage q ≠ some (.recording rptr)) →
        (s.queue q).read_ptr = 128 + 4*CommandFraming.start (s.queue q).issued k)) ∧
    (s.queue q).read_ptr ≤ (s.queue q).write_ptr ∧ (s.queue q).write_ptr = (s.queue q).stored ∧
    ∀ g ∈ s.given, g.words = g.memory := by
  obtain ⟨sound,firsts⟩ := appending_sound path
  have first := firsts q
  have written := sound.written q live
  have ends := written.ends first.aiming
  have same : (s.queue q).issued = (s.queue q).lap := by
    unfold CommandQueue.issued
    rw [first.before,List.nil_append]
  obtain ⟨k,inside,done,⟨j,le,read⟩,settled⟩ := read_boundary sound live first
  have below := start_mono (s.queue q).lap (Nat.le_trans le inside)
  unfold CommandQueue.boundary at ends read settled
  rw [first.base] at ends read settled
  rw [same]
  exact ⟨⟨k,inside,done,⟨j,le,read⟩,settled⟩,by omega,written.stored,fun g listed => (sound.given g listed).1⟩

theorem commands_exactly_once_served : ((after pair shared).queue 0).completed = [drawContext,nop] ∧
    ((after pair shared).queue 1).completed = [nop] ∧ (∀ q, ((after pair shared).queue q).write_ptr = ((after pair shared).queue q).stored) ∧
    ∀ g ∈ (after pair shared).given, g.words = g.memory := by
  have path : Runs.Reached Opened (Step (act nothing) appending) (after pair shared) := after_reached pair_opened (by decide +kernel)
  have live : ∀ q, ((after pair shared).queue q).live = true := by decide +kernel
  exact ⟨by decide +kernel,by decide +kernel,fun q => (commands_exactly_once path (live q)).2.2.1,(commands_exactly_once path (live 0)).2.2.2⟩

-- Clients that wrap, when no call of process_queue begins between a JUMP and the
-- store of spuglSetTarget and no lap overruns a JUMP that is not taken.
theorem laps_exactly_once (path : Runs.Reached Opened (Step (act behind) fun s a => wrapping s a ∧ s.clear a) s)
    (live : (s.queue q).live = true) :
    (∃ k, k ≤ (s.queue q).issued.length ∧ (s.queue q).completed = (s.queue q).issued.take k) ∧
    ((s.queue q).aiming = false → (s.queue q).read_ptr = (s.queue q).write_ptr →
      (s.queue q).completed = (s.queue q).issued) := by
  have sound := wrapping_sound path
  exact ⟨completed_first sound live,drained sound live⟩

theorem laps_exactly_once_wrapped : ((after single wrapped).queue 0).completed = ((after single wrapped).queue 0).issued :=
  (laps_exactly_once (after_reached single_opened (by decide +kernel)) (by decide +kernel)).2 (by decide +kernel) (by decide +kernel)

-- A call that begins before spuglSetTarget has stored serves the old lap again.
theorem laps_served_twice : ¬∀ s : Fifo (Fin 1), Runs.Reached Opened (Step (act nothing) wrapping) s →
    ∃ k, k ≤ (s.queue 0).issued.length ∧ (s.queue 0).completed = (s.queue 0).issued.take k := by
  intro claim
  obtain ⟨k,_,done⟩ := claim (after single early) (after_reached single_opened (by decide +kernel))
  have twice : ((after single early).queue 0).completed.length = 2 := by decide +kernel
  have once : ((after single early).queue 0).issued.length = 1 := by decide +kernel
  have counted := congrArg List.length done
  rw [List.length_take] at counted
  omega

-- Queues that come and go, when no call with something to do finds its first command in
-- the window of an earlier allocation at the same address.
theorem own_words (path : Runs.Reached Opened (Step (act behind) fun s a => reusing s a ∧ s.fresh a) s) :
    ∀ g ∈ s.given, ∀ cell ∈ g.words, cell.writer = some g.generation :=
  fun g listed => ((reusing_sound path).given g listed).2

theorem own_words_served : (after pair returned).given.map HandlerCall.generation = [0,0,1] ∧
    ∀ g ∈ (after pair returned).given, ∀ cell ∈ g.words, cell.writer = some g.generation :=
  ⟨by decide +kernel,own_words (after_reached pair_opened (by decide +kernel))⟩

-- The window of the freed queue is taken for the new one.
theorem old_words_served : ¬∀ s : Fifo (Fin 1), Runs.Reached Opened (Step (act nothing) reusing) s →
    ∀ g ∈ s.given, ∀ cell ∈ g.words, cell.writer = some g.generation := by
  intro claim
  have given := claim (after single reused) (after_reached single_opened (by decide +kernel))
  exact absurd given (by decide +kernel)

end
end Fifo
end Spugl
