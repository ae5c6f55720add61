import Spugl.QueueInvariant

namespace Spugl
open CommandFraming

namespace CommandQueue

-- Command k of the lap, as it stands in memory.
theorem Written.command {c : CommandQueue} (written : c.Written) (here : c.lap[k]? = some x) : c.Spells (c.boundary k) x := by
  intro i word at_
  have inside := (List.getElem?_eq_some_iff.mp at_).1
  have spelled := written.spelled (start c.lap k + i) word (by rw [word_at here inside,at_])
  have place : c.base + 4*(start c.lap k + i) = c.boundary k + 4*i := by unfold boundary; omega
  rwa [place] at spelled

theorem boundary_mono (c : CommandQueue) (le : k ≤ m) : c.boundary k ≤ c.boundary m := by
  have := start_mono c.lap le
  unfold boundary
  omega

theorem Written.reached {c : CommandQueue} (written : c.Written) (ready : c.aiming = false) (inside : m ≤ c.lap.length) :
    c.boundary m ≤ c.write_ptr := by
  rw [written.ends ready]
  exact c.boundary_mono inside

-- The place behind the command, once it is stored in read_ptr.
theorem Recording.recorded {c : CommandQueue} (records : c.Recording rptr k) (written : c.Written) :
    ({c with read_ptr := rptr} : CommandQueue).Stands (some (.looping rptr c.write_ptr)) := by
  have taken : ({c with read_ptr := rptr} : CommandQueue).jump = none := records.steady.1
  have rests : ({c with read_ptr := rptr} : CommandQueue).Rests (k+1) := ⟨records.inside,records.done,records.next⟩
  refine ⟨(resting_none taken).mpr ⟨k+1,rests⟩,rfl,(reading_none taken).mpr ?_⟩
  exact ⟨records.steady.2,k+1,_,rests,records.inside,Nat.le_refl _,written.ends records.steady.2⟩

-- Behind a JUMP the next lap starts with nothing done.
theorem jumped_resting {c : CommandQueue} (done : c.completed = c.before) (target : rptr = c.base) :
    ({c with read_ptr := rptr,jump := none} : CommandQueue).Resting := by
  have taken : ({c with read_ptr := rptr,jump := none} : CommandQueue).jump = none := rfl
  refine (resting_none taken).mpr ⟨0,Nat.zero_le _,?_,target⟩
  show c.completed = c.before ++ []
  rw [List.append_nil]
  exact done

theorem cells_word (c : CommandQueue) (words : List Nat) : (c.cells words).map Cell.word = words := by
  unfold cells
  rw [List.map_map]
  exact List.map_id words

end CommandQueue

namespace FifoWindow

theorem refill_ofs (w : FifoWindow) (c : CommandQueue) (rptr wptr : Nat) :
    (w.refill c rptr wptr).fifo_ofs ≤ rptr ∧ rptr < (w.refill c rptr wptr).fifo_ofs + 128 := by
  simp only [refill]
  omega

theorem refill_area {w : FifoWindow} {c : CommandQueue} (first : (w.refill c rptr wptr).fifo_ofs ≤ p)
    (last : p < (w.refill c rptr wptr).upto) :
    (w.refill c rptr wptr).fifo_area (p - (w.refill c rptr wptr).fifo_ofs) = c.memory p := by
  simp only [upto] at last
  have inside : p - (w.refill c rptr wptr).fifo_ofs < ((w.refill c rptr wptr).fifo_len + 127) / 128 * 128 := by omega
  have place : (w.refill c rptr wptr).fifo_ofs + (p - (w.refill c rptr wptr).fifo_ofs) = p := by omega
  have fetched : (w.refill c rptr wptr).fifo_area (p - (w.refill c rptr wptr).fifo_ofs) =
      c.memory ((w.refill c rptr wptr).fifo_ofs + (p - (w.refill c rptr wptr).fifo_ofs)) := if_pos inside
  rw [fetched,place]

-- A refill in the course of a lap ends at or before the write_ptr it goes by.
theorem refill_upto (w : FifoWindow) (c : CommandQueue) (ahead : rptr ≤ wptr) : (w.refill c rptr wptr).upto ≤ wptr := by
  simp only [upto,refill]
  split
  · omega
  · omega

-- A refill at a JUMP always reaches its target word.
theorem refill_jump (w : FifoWindow) (c : CommandQueue) (seen : wptr < e ∨ wptr = e + 8) : e + 8 ≤ (w.refill c e wptr).upto := by
  simp only [upto,refill,FIFO_SIZE]
  split
  · omega
  · omega

theorem refill_holds {c : CommandQueue} (w : FifoWindow) (written : c.Written) (resting : c.Resting) (read : rptr = c.read_ptr)
    (reading : c.Reading wptr) (more : wptr ≠ rptr) : (w.refill c rptr wptr).Holds c := by
  cases pending : c.jump with
  | none =>
    obtain ⟨ready,k,m,rests,le,inside,same⟩ := (CommandQueue.reading_none pending).mp reading
    have ahead : rptr ≤ wptr := by
      rw [read,rests.read,same]
      exact c.boundary_mono le
    have reached := written.reached ready inside
    have ends := w.refill_upto c ahead
    rw [holds_none pending]
    exact ⟨ready,by omega,fun p => refill_area⟩
  | some e =>
    have place := ((CommandQueue.resting_some pending).mp resting).2
    have seen := (CommandQueue.reading_some pending).mp reading
    have here : rptr = e := read.trans place
    rw [here] at more ⊢
    have whole := w.refill_jump c (show wptr < e ∨ wptr = e + 8 by omega)
    have low := w.refill_ofs c e wptr
    rw [holds_some pending]
    intro first _
    exact ⟨whole,refill_area first (by omega),refill_area (by omega) (by omega)⟩

-- A command that the window holds is given word by word as it was written.
theorem dispatch_words {w : FifoWindow} {c : CommandQueue} (spelled : c.Spells rptr x) (whole : Whole cmdSize x)
    (agrees : ∀ i, i < x.length → rptr + 4*i < w.upto → w.cmd_buf rptr i = c.memory (rptr + 4*i))
    (usable : w.holds rptr = true) :
    x[0]? = some (w.cmd rptr) ∧ x.length = cmdSize (w.cmd rptr) + 1 ∧ w.words rptr = c.cells x ∧
      c.words rptr x.length = c.cells x := by
  simp only [holds,Bool.and_eq_true,decide_eq_true_eq] at usable
  obtain ⟨header,first,counted⟩ := whole.length
  have head : w.cmd rptr = header := by
    unfold cmd
    rw [agrees 0 (by omega) (by omega),spelled 0 header first]
  rw [head] at usable ⊢
  have memory : c.words rptr x.length = c.cells x := by
    unfold CommandQueue.words CommandQueue.cells
    apply List.ext_getElem
    · simp
    · intro i inside inside'
      have less : i < x.length := by simpa using inside'
      simp only [List.getElem_map,List.getElem_range]
      exact spelled i x[i] (List.getElem?_eq_getElem less)
  refine ⟨first,counted,?_,memory⟩
  rw [← memory]
  unfold words CommandQueue.words
  rw [head,counted]
  apply List.map_congr_left
  intro i listed
  have less := List.mem_range.mp listed
  exact agrees i (by omega) (by omega)

end FifoWindow
namespace Fifo

section
variable {ι : Type} [DecidableEq ι] {s : Fifo ι} {q : ι} {behind : Nat → Bool}

theorem stage_current (current : s.current = some (q,st)) : s.stage q = some st := by
  unfold stage
  rw [current]
  exact if_pos rfl

theorem stage_away (current : s.current = some (q,st)) (other : q' ≠ q) : s.stage q' = none := by
  unfold stage
  rw [current]
  exact if_neg (Ne.symm other)

theorem stage_idle (idle : s.current = none) (q : ι) : s.stage q = none := by
  unfold stage
  rw [idle]

-- The server takes up, or goes on with, one queue that keeps its state.
theorem Sound.serve {next : Fifo ι} (sound : s.Sound) (live : (s.queue q).live = true) (queue : next.queue = s.queue)
    (before : ∀ q', q' ≠ q → s.stage q' = none) (after : ∀ q', q' ≠ q → next.stage q' = none)
    (allocations : next.allocations = s.allocations) (older : next.window.owner < s.allocations)
    (follows : s.Follows next q (s.queue q))
    (stands : (s.queue q).Stands (next.stage q))
    (own : next.window.Used (next.stage q) → next.window.fifo_ea = (s.queue q).ea → next.window.owner = (s.queue q).generation)
    (dropped : ∀ rptr, next.stage q = some (.jumping rptr) → next.window.fifo_ea = 0)
    (locked : next.reserved = true → next.stage q ≠ none → next.line = (s.queue q).write_ptr)
    (given : ∀ g ∈ next.given, g.words = g.memory ∧ ∀ cell ∈ g.words, cell.writer = some g.generation) : next.Sound := by
  have same : next.queue = (s.set q (s.queue q)).queue := by
    rw [queue]
    exact (Function.update_eq_self q s.queue).symm
  exact sound.update live same (fun q' other => (after q' other).trans (before q' other).symm) allocations older follows rfl live rfl
    (sound.written q live) stands own dropped locked (fun _ q' other serving => absurd (before q' other) serving) given

theorem Sound.process_queue (sound : s.Sound) (live : (s.queue q).live = true) (idle : s.current = none)
    (clear : s.clear (.process_queue q)) (fresh : s.fresh (.process_queue q)) : (s.act behind (.process_queue q)).Sound := by
  have written := sound.written q live
  have resting : (s.queue q).Resting := by
    have stands := sound.stands q live
    rwa [stage_idle idle] at stands
  have stage : (s.act behind (.process_queue q)).stage q = some (.looping (s.queue q).read_ptr (s.queue q).write_ptr) :=
    stage_current rfl
  refine sound.serve live rfl (fun q' _ => stage_idle idle q') (fun q' other => stage_away rfl other) rfl sound.older
    (.same rfl fun _ => id) ?_ ?_ ?_ (fun _ _ => rfl) sound.given
  · rw [stage]
    refine ⟨resting,rfl,?_⟩
    cases pending : (s.queue q).jump with
    | none =>
      have ready : (s.queue q).aiming = false := by
        cases aims : (s.queue q).aiming with
        | false => rfl
        | true => exact absurd pending (clear aims)
      obtain ⟨k,rests⟩ := (CommandQueue.resting_none pending).mp resting
      rw [CommandQueue.reading_none pending]
      exact ⟨ready,k,_,rests,rests.inside,Nat.le_refl _,written.ends ready⟩
    | some e =>
      rw [CommandQueue.reading_some pending]
      cases aims : (s.queue q).aiming with
      | false => exact .inl (Nat.le_of_lt (written.behind_ready pending aims))
      | true => exact .inr (written.behind_aimed pending aims)
  · rw [stage]
    intro used address
    exact fresh used.1 address used.2
  · intro rptr jumping
    rw [stage] at jumping
    cases jumping

-- What is known of the queue that is being served.
theorem Sound.current (sound : s.Sound) (current : s.current = some (q,st)) : s.stage q = some st ∧ s.stage q ≠ none ∧
    (s.queue q).live = true ∧ (s.queue q).Written ∧ (s.queue q).Stands (some st) := by
  have stage := stage_current current
  have serving : s.stage q ≠ none := by rw [stage]; exact Option.some_ne_none _
  have live := sound.serving q serving
  have stands := sound.stands q live
  rw [stage] at stands
  exact ⟨stage,serving,live,sound.written q live,stands⟩

-- A pass that finds nothing to do.
theorem Sound.leave (sound : s.Sound) (current : s.current = some (q,.looping rptr wptr)) : {s with current := none}.Sound := by
  obtain ⟨_,_,live,_,stands⟩ := sound.current current
  have away : ∀ q', {s with current := none}.stage q' = none := fun q' => stage_idle rfl q'
  refine sound.serve live rfl (fun q' other => stage_away current other) (fun q' _ => away q') rfl sound.older (.same rfl fun _ => id)
    ?_ ?_ ?_ ?_ sound.given
  · rw [away]; exact stands.1
  · intro used; exact absurd (away q) used.serving
  · intro rptr jumping; rw [away] at jumping; cases jumping
  · intro _ serving; exact absurd (away q) serving

theorem Sound.refill (sound : s.Sound) (current : s.current = some (q,.looping rptr wptr)) (more : wptr ≠ rptr) :
    {s with window := s.window.refill (s.queue q) rptr wptr}.Sound := by
  obtain ⟨stage,serving,live,_,stands⟩ := sound.current current
  have same : ∀ q', {s with window := s.window.refill (s.queue q) rptr wptr}.stage q' = s.stage q' := fun _ => rfl
  have held := s.window.refill_holds (sound.written q live) stands.1 stands.2.1 stands.2.2 more
  refine sound.serve live rfl (fun q' other => stage_away current other) (fun q' other => stage_away current other) rfl
    (sound.younger q) (.fetched serving rfl rfl held) ?_ (fun _ _ => rfl) ?_ (fun reserved _ => sound.locked reserved q serving) sound.given
  · rw [same,stage]; exact stands
  · intro rptr jumping; rw [same,stage] at jumping; cases jumping

-- A handler was given words of its queue.
theorem Sound.called (sound : s.Sound) (words : s.window.words rptr = (s.queue q).cells x)
    (there : (s.queue q).words rptr x.length = (s.queue q).cells x) : (s.called q rptr).Sound := by
  have counted : (s.window.words rptr).length = x.length := by rw [words,CommandQueue.cells,List.length_map]
  refine {sound with given := ?_}
  intro g listed
  rcases List.mem_append.mp listed with old | new
  · exact sound.given g old
  · obtain rfl := List.mem_singleton.mp new
    refine ⟨by rw [counted,there,words],?_⟩
    intro cell listed
    rw [words] at listed
    obtain ⟨_,_,rfl⟩ := List.mem_map.mp listed
    rfl

theorem Sound.complete (sound : s.Sound) (current : s.current = some (q,.looping rptr wptr))
    (own : s.window.owner = (s.queue q).generation) (steady : (s.queue q).jump = none ∧ (s.queue q).aiming = false) (rests : (s.queue q).Rests k)
    (here : (s.queue q).lap[k]? = some x) (words : s.window.words rptr = (s.queue q).cells x)
    (next : rptr + 4 + 4*cmdSize (s.window.cmd rptr) = (s.queue q).boundary (k+1)) : (s.complete q rptr).Sound := by
  have stage := stage_current current
  have serving : s.stage q ≠ none := by rw [stage]; exact Option.some_ne_none _
  have live := sound.serving q serving
  have written := sound.written q live
  have inside := (List.getElem?_eq_some_iff.mp here).1
  refine sound.update live rfl ?_ rfl sound.older (.same rfl fun _ => id) rfl live rfl ?_ ?_ ?_ ?_ ?_ ?_ sound.given
  · intro q' other
    rw [stage_away current other]
    exact stage_away rfl other
  · exact ⟨written.low,written.whole,written.spelled,written.ends,written.aimed,written.writing,written.jumps,written.behind,
      written.stored⟩
  · rw [stage_current rfl]
    refine ⟨k,steady,inside,?_,rests.read,next⟩
    show (s.queue q).completed ++ [(s.window.words rptr).map Cell.word] = (s.queue q).before ++ (s.queue q).lap.take (k+1)
    rw [words,CommandQueue.cells_word,rests.done,List.append_assoc,List.take_add_one,here]
    rfl
  · intro _ _
    exact own
  · intro rptr jumping
    rw [stage_current rfl] at jumping
    cases jumping
  · intro reserved _
    exact sound.locked reserved q serving
  · intro _ q' other serving
    exact absurd (stage_away current other) serving

theorem Sound.takeJump (sound : s.Sound) (current : s.current = some (q,.looping rptr wptr)) (pending : (s.queue q).jump = some e) :
    (s.takeJump q (s.queue q).base).Sound := by
  obtain ⟨stage,serving,live,_,stands⟩ := sound.current current
  obtain ⟨done,read⟩ := (CommandQueue.resting_some pending).mp stands.1
  refine sound.serve live rfl (fun q' other => stage_away current other) (fun q' other => stage_away rfl other) rfl sound.older
    (.dropped rfl) ?_ ?_ (fun _ _ => rfl) (fun reserved _ => sound.locked reserved q serving) sound.given
  · rw [stage_current rfl]
    exact ⟨e,pending,done,read,rfl⟩
  · intro _ address
    exact absurd address.symm (sound.mapped q live)

theorem Sound.dispatch (sound : s.Sound) (current : s.current = some (q,.looping rptr wptr)) (more : wptr ≠ rptr)
    (address : s.window.fifo_ea = (s.queue q).ea) (usable : s.window.holds rptr = true) (stall : Bool) :
    (dispatch behind s q rptr stall).Sound := by
  obtain ⟨stage,serving,live,written,stands⟩ := sound.current current
  obtain ⟨resting,read,reading⟩ := stands
  have own := sound.own q (by rw [stage]; exact ⟨more,usable⟩) address
  have held := sound.cached q live address own
  have range : s.window.fifo_ofs ≤ rptr ∧ rptr + 4 ≤ s.window.upto := by
    simp only [FifoWindow.holds,Bool.and_eq_true,decide_eq_true_eq] at usable
    exact usable.1
  cases pending : (s.queue q).jump with
  | none =>
    obtain ⟨ready,k,m,rests,le,inside,same⟩ := (CommandQueue.reading_none pending).mp reading
    have place : rptr = (s.queue q).boundary k := read.trans rests.read
    have less : k < (s.queue q).lap.length := by
      have differ : k ≠ m := fun equal => more (by rw [same,place,equal])
      omega
    have here : (s.queue q).lap[k]? = some (s.queue q).lap[k] := List.getElem?_eq_getElem less
    have fits := written.whole _ (List.getElem_mem less)
    generalize (s.queue q).lap[k] = x at here fits
    have spelled := written.command here
    rw [← place] at spelled
    have agrees : ∀ i, i < x.length → rptr + 4*i < s.window.upto →
        s.window.cmd_buf rptr i = (s.queue q).memory (rptr + 4*i) := by
      intro i _ below
      rw [← ((FifoWindow.holds_none pending).mp held).2.2 (rptr + 4*i) (by omega) below]
      unfold FifoWindow.cmd_buf
      congr 1
      omega
    obtain ⟨first,counted,words,there⟩ := FifoWindow.dispatch_words spelled fits.1 agrees usable
    have next : rptr + 4 + 4*cmdSize (s.window.cmd rptr) = (s.queue q).boundary (k+1) := by
      have after := start_succ here
      unfold CommandQueue.boundary at place ⊢
      omega
    have noted := sound.called words there
    unfold Fifo.dispatch
    simp only [if_neg (fits.2.2 _ (by rw [List.head?_eq_getElem?]; exact first))]
    by_cases func : fifo_commands behind (cmdNumber (s.window.cmd rptr)) = true
    · rw [if_pos func]
      cases stall with
      | true => exact noted.leave current
      | false => exact noted.complete current own ⟨pending,ready⟩ rests here words next
    · rw [if_neg func]
      exact sound.complete current own ⟨pending,ready⟩ rests here words next
  | some e =>
    obtain ⟨_,here⟩ := (CommandQueue.resting_some pending).mp resting
    have place : rptr = e := read.trans here
    rw [← place] at pending
    obtain ⟨whole,head,target⟩ := (FifoWindow.holds_some pending).mp held range.1 (by omega)
    obtain ⟨spelled,_⟩ := written.jumps rptr pending
    have agrees : ∀ i, i < (jumpWords (s.queue q).base).length → rptr + 4*i < s.window.upto →
        s.window.cmd_buf rptr i = (s.queue q).memory (rptr + 4*i) := by
      intro i inside _
      unfold FifoWindow.cmd_buf
      match i,inside with
      | 0,_ => exact head
      | 1,_ =>
        have shift : rptr - s.window.fifo_ofs + 4*1 = rptr + 4 - s.window.fifo_ofs := by omega
        rw [shift]
        exact target
    have fits : Whole cmdSize (jumpWords (s.queue q).base) := ⟨_,_,rfl,rfl⟩
    obtain ⟨first,counted,words,there⟩ := FifoWindow.dispatch_words spelled fits agrees usable
    have cmd : s.window.cmd rptr = beginRing FIFO_COMMAND_JUMP 1 := (Option.some.inj first).symm
    have jumped : (s.window.cmd_buf rptr 1).word = (s.queue q).base := by
      have cell := spelled 1 (s.queue q).base rfl
      rw [agrees 1 Nat.one_lt_two (by omega),cell]
    unfold Fifo.dispatch
    have number : cmdNumber (beginRing FIFO_COMMAND_JUMP 1) = FIFO_COMMAND_JUMP := by decide
    have func : fifo_commands behind FIFO_COMMAND_JUMP = true := rfl
    simp only [cmd,number,func,if_true,jumped]
    exact (sound.called words there).takeJump current pending

theorem Sound.turn (sound : s.Sound) (current : s.current = some (q,.looping rptr wptr)) (stall : Bool) :
    (turn behind s q rptr wptr stall).Sound := by
  unfold Fifo.turn
  split
  · exact sound.leave current
  · rename_i more
    split
    · rename_i hit
      simp only [Bool.and_eq_true,decide_eq_true_eq] at hit
      exact sound.dispatch current more hit.1 hit.2 stall
    · exact sound.refill current more

-- A failed PUTLLC reads the line again.
theorem Sound.reload (sound : s.Sound) (current : s.current = some (q,st)) : (s.reload q).Sound := by
  have stage := stage_current current
  have serving : s.stage q ≠ none := by rw [stage]; exact Option.some_ne_none _
  have live := sound.serving q serving
  exact sound.serve live rfl (fun q' other => stage_away current other) (fun q' other => stage_away current other) rfl sound.older
    (.same rfl fun _ => id) (sound.stands q live) (sound.own q) (sound.dropped q) (fun _ _ => rfl) sound.given

-- The write_ptr that PUTLLC stores is the one that is there.
theorem Sound.same_line (sound : s.Sound) (current : s.current = some (q,st)) (reserved : s.reserved = true) :
    s.line = (s.queue q).write_ptr :=
  sound.locked reserved q (by rw [stage_current current]; exact Option.some_ne_none _)

theorem Written.putllc {c : CommandQueue} (written : c.Written) (rptr : Nat) :
    ({c with read_ptr := rptr} : CommandQueue).Written :=
  ⟨written.low,written.whole,written.spelled,written.ends,written.aimed,written.writing,written.jumps,written.behind,written.stored⟩

-- retry_update stores the place behind the command that was completed.
theorem Sound.record (sound : s.Sound) (current : s.current = some (q,.recording rptr)) (reserved : s.reserved = true) :
    { s.set q {s.queue q with read_ptr := rptr,write_ptr := s.line} with
      current := some (q,.looping rptr s.line),reserved := false }.Sound := by
  obtain ⟨stage,serving,live,written,stands⟩ := sound.current current
  obtain ⟨k,records⟩ := stands
  rw [sound.same_line current reserved]
  refine sound.update live rfl ?_ rfl sound.older (.same rfl ?_) rfl live rfl (Written.putllc written rptr) ?_ ?_ ?_ ?_ ?_ sound.given
  · intro q' other
    rw [stage_away current other]
    exact stage_away rfl other
  · intro _ held
    rw [FifoWindow.holds_none records.steady.1] at held
    exact (FifoWindow.holds_none (c := {s.queue q with read_ptr := rptr}) records.steady.1).mpr held
  · rw [stage_current rfl]
    exact records.recorded written
  · intro _
    exact sound.own q (by rw [stage]; trivial)
  · intro rptr jumping
    rw [stage_current rfl] at jumping
    cases jumping
  · intro held
    cases held
  · intro held
    cases held

-- retry_jump stores the target; then no JUMP is pending.
theorem Sound.recordJump (sound : s.Sound) (current : s.current = some (q,.jumping rptr)) (reserved : s.reserved = true) :
    { s.set q {s.queue q with read_ptr := rptr,write_ptr := s.line,jump := none} with
      current := none,reserved := false }.Sound := by
  obtain ⟨stage,serving,live,written,stands⟩ := sound.current current
  obtain ⟨e,pending,done,read,target⟩ := stands
  rw [sound.same_line current reserved]
  refine sound.update live rfl ?_ rfl sound.older (.dropped (sound.dropped q rptr stage)) rfl live rfl ?_ ?_ ?_ ?_ ?_ ?_ sound.given
  · intro q' other
    rw [stage_away current other]
    exact stage_idle rfl q'
  · refine ⟨written.low,written.whole,written.spelled,written.ends,written.aimed,written.writing,?_,?_,written.stored⟩
    · intro e none
      cases none
    · intro e none
      cases none
  · rw [stage_idle rfl]
    exact CommandQueue.jumped_resting done target
  · intro used
    exact absurd (stage_idle rfl q) used.serving
  · intro rptr jumping
    rw [stage_idle rfl] at jumping
    cases jumping
  · intro held
    cases held
  · intro held
    cases held

theorem allocate_written (ea generation : Nat) (live : Bool) : (CommandQueue.allocate ea generation live).Written := by
  constructor
  · exact Nat.le_refl _
  · intro x listed
    cases listed
  · intro i word at_
    cases at_
  · intro _
    rfl
  · intro aims
    cases aims
  · intro ptr words client
    cases client
  · intro e none
    cases none
  · intro e none
    cases none
  · rfl

theorem allocate_resting (ea generation : Nat) (live : Bool) : (CommandQueue.allocate ea generation live).Resting :=
  (CommandQueue.resting_none rfl).mpr ⟨0,Nat.zero_le _,rfl,rfl⟩

-- A new mapping has a generation that no cached window has.
theorem Sound.allocateBuffer (sound : s.Sound) (gone : (s.queue q).live = false) (mapped : ea ≠ 0)
    (apart : ∀ q', (s.queue q').live = true → (s.queue q').ea ≠ ea) : (s.act behind (.allocateBuffer q ea)).Sound := by
  have self : (s.act behind (.allocateBuffer q ea)).queue q = .allocate ea s.allocations true := set_self s q _
  have rest : ∀ q', q' ≠ q → (s.act behind (.allocateBuffer q ea)).queue q' = s.queue q' := fun q' other => set_other s other _
  have stage : ∀ q', (s.act behind (.allocateBuffer q ea)).stage q' = s.stage q' := fun _ => rfl
  have idle : s.stage q = none := by
    by_contra serving
    have live := sound.serving q serving
    rw [gone] at live
    cases live
  have served : ∀ q', s.stage q' ≠ none → q' ≠ q := by
    intro q' serving here
    rw [here] at serving
    exact serving idle
  constructor
  · intro q' q'' alive alive' same
    by_cases here : q' = q
    · by_cases here' : q'' = q
      · rw [here,here']
      · rw [here,self,rest q'' here'] at same
        rw [rest q'' here'] at alive'
        exact absurd same.symm (apart q'' alive')
    · by_cases here' : q'' = q
      · rw [here',self,rest q' here] at same
        rw [rest q' here] at alive
        exact absurd same (apart q' alive)
      · rw [rest q' here] at alive same
        rw [rest q'' here'] at alive' same
        exact sound.apart q' q'' alive alive' same
  · intro q' alive
    by_cases here : q' = q
    · rw [here,self]; exact mapped
    · rw [rest q' here] at alive ⊢; exact sound.mapped q' alive
  · exact Nat.lt_succ_of_lt sound.older
  · intro q'
    by_cases here : q' = q
    · rw [here,self]; exact Nat.lt_succ_self _
    · rw [rest q' here]; exact Nat.lt_succ_of_lt (sound.younger q')
  · intro q' alive
    by_cases here : q' = q
    · rw [here,self]; exact allocate_written _ _ _
    · rw [rest q' here] at alive ⊢; exact sound.written q' alive
  · intro q' alive
    rw [stage]
    by_cases here : q' = q
    · rw [here,self,idle]; exact allocate_resting _ _ _
    · rw [rest q' here] at alive ⊢; exact sound.stands q' alive
  · intro q' serving
    rw [stage] at serving
    rw [rest q' (served q' serving)]
    exact sound.serving q' serving
  · intro q' alive address owner
    by_cases here : q' = q
    · rw [here,self] at owner
      exact absurd owner (Nat.ne_of_lt sound.older)
    · rw [rest q' here] at alive address owner ⊢
      exact sound.cached q' alive address owner
  · intro q' used
    rw [stage] at used
    rw [rest q' (served q' used.serving)]
    exact sound.own q' used
  · exact sound.dropped
  · intro reserved q' serving
    rw [stage] at serving
    rw [rest q' (served q' serving)]
    exact sound.locked reserved q' serving
  · exact sound.given

theorem Sound.putllc (sound : s.Sound) (held : ok = true → s.reserved = true) : (s.act behind (.putllc ok)).Sound := by
  unfold Fifo.act
  cases current : s.current with
  | none => exact sound
  | some place =>
    obtain ⟨q,st⟩ := place
    cases st with
    | looping rptr wptr => exact sound
    | recording rptr =>
      cases ok with
      | true => exact sound.record current (held rfl)
      | false => exact sound.reload current
    | jumping rptr =>
      cases ok with
      | true => exact sound.recordJump current (held rfl)
      | false => exact sound.reload current

-- What every step keeps, one case for each action.
theorem act_sound (sound : s.Sound) (allowed : s.guarded a) : (s.act behind a).Sound := by
  obtain ⟨disciplined,clear,fresh⟩ := allowed
  cases a with
  | allocateBuffer q ea => exact sound.allocateBuffer disciplined.1 disciplined.2.1 disciplined.2.2
  | freeBuffer q => exact sound.freeBuffer disciplined.2
  | prologue q => exact sound.prologue disciplined.1 disciplined.2.2
  | outRing q word => exact sound.outRing disciplined.1 disciplined.2 clear
  | epilogue q commands =>
    obtain ⟨⟨ptr,_⟩,client,rfl⟩ := Option.map_eq_some_iff.mp disciplined.2.1
    exact sound.epilogue disciplined.1 client disciplined.2.2 clear
  | spuglJump q target =>
    obtain ⟨live,written,level,low,_,below⟩ := disciplined
    obtain ⟨⟨ptr,_⟩,client,rfl⟩ := Option.map_eq_some_iff.mp written
    exact sound.spuglJump live client level low below
  | spuglSetTarget q wp =>
    obtain ⟨live,aims,rfl⟩ := disciplined
    exact sound.spuglSetTarget live aims
  | process_queue q => exact sound.process_queue disciplined.1 disciplined.2 clear fresh
  | turn stall =>
    unfold Fifo.act
    cases current : s.current with
    | none => exact sound
    | some place =>
      obtain ⟨q,st⟩ := place
      cases st with
      | looping rptr wptr => exact sound.turn current stall
      | recording rptr => exact sound
      | jumping rptr => exact sound
  | putllc ok => exact sound.putllc disciplined

theorem start_sound {ea : ι → Nat} {live : ι → Bool} (mapped : ∀ q, live q = true → ea q ≠ 0)
    (apart : ∀ q q', live q = true → live q' = true → ea q = ea q' → q = q') : (start ea live).Sound where
  apart := apart
  mapped := mapped
  older := Nat.one_pos
  younger := fun _ => Nat.one_pos
  written := fun _ _ => allocate_written _ _ _
  stands := fun _ _ => allocate_resting _ _ _
  serving := fun _ serving => absurd rfl serving
  cached := by
    intro q alive address
    exact absurd address.symm (mapped q alive)
  own := fun _ used => absurd rfl used.serving
  dropped := by
    intro q rptr jumping
    cases jumping
  locked := by
    intro reserved
    cases reserved
  given := by
    intro g listed
    cases listed

end
end Fifo
end Spugl
