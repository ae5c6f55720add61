import Spugl.FixedSizes
import Spugl.CommandFootprint
import Spugl.TriangleRing
import Spugl.SyncTest
import Spugl.Retries

namespace Spugl
open Retries

-- A record as writeTriangleBuffer leaves it in a ring.
structure Placed (F : Type) where
  offset : Nat
  next_triangle : Nat
  drawn : Drawn F

-- One queue's side of the SPU, with what it has written: endTriangle and the records
-- of each renderable, by the address of the cache line. `grant` is
-- _currentTriangleOffset and _currentTriangleRewind.
structure Drawing (F κ : Type) where
  globals : Globals F κ
  context : Context F
  grant : Grant
  endTriangle : Nat → Nat
  ring : Nat → List (Placed F)

def Grant.ofEnd (endTriangle : Nat) : Grant :=
  ⟨endTriangle,decide ((endTriangle + 2*TRIANGLE_MAX_SIZE) % 65536 > TRIANGLE_BUFFER_SIZE)⟩

namespace Drawing

section
variable {F κ : Type} (spu : PrimarySpu F) [DecidableEq κ] (slot : κ)

def start : Drawing F κ where
  globals := .start spu
  context := .clear spu
  grant := .ofEnd 0
  endTriangle := fun _ => 0
  ring := fun _ => []

-- The cache lines as the render SPUs have left them. endTriangle is the producer's.
def line (s : Drawing F κ) (lines : Nat → CacheLine Nat) : CacheLine Nat :=
  {lines s.context.renderableCacheLine with endTriangle := s.endTriangle s.context.renderableCacheLine}

def room (s : Drawing F κ) (lines : Nat → CacheLine Nat) : Request → Bool
  | .glSync => !(s.line lines).stillProcessingQueue
  | _ => (s.line lines).getTriangleBuffer.isSome

-- getTriangleBuffer takes a new buffer for this command.
def allocates (s : Drawing F κ) (request : Request) : Bool := takes s.context request && (s.globals.kept slot).isNone

def serve (s : Drawing F κ) (room : Bool) (request : Request) : Bool × Drawing F κ :=
  let done := execute spu s.globals slot s.context room request
  let grant := if s.allocates slot request && !done.stalled then .ofEnd (s.endTriangle s.context.renderableCacheLine) else s.grant
  (done.stalled,match done.drawn with
    | some d =>
      { globals := done.globals
        context := done.context
        grant := grant
        endTriangle := Function.update s.endTriangle d.renderableCacheLine grant.nextPointer
        ring := Function.update s.ring d.renderableCacheLine
          (s.ring d.renderableCacheLine ++ [⟨grant.offset,grant.nextPointer,d⟩]) }
    | none => {s with globals := done.globals,context := done.context,grant := grant})

-- One command of process_queue.
def attempt (s : Drawing F κ) (lines : Nat → CacheLine Nat) (request : Request) : Bool × Drawing F κ :=
  s.serve spu slot (s.room lines request) request

-- The same with room for every triangle and no chunk behind.
def unhindered (s : Drawing F κ) (request : Request) : Bool × Drawing F κ := s.serve spu slot true request

end

section
variable {F κ : Type} {spu : PrimarySpu F} [DecidableEq κ] {slot : κ} {g h : Globals F κ} {context : Context F} {room : Bool}
  {request : Request} {s : Drawing F κ}

theorem getTriangleBuffer_grant {line : CacheLine Nat} {grant : Grant} (got : line.getTriangleBuffer = some grant) :
    grant = .ofEnd line.endTriangle := (getTriangleBuffer_some got).1

theorem buffer_refused (refused : getTriangleBuffer g slot context room = (h,none)) :
    h = {g with currentTriangle := none} ∧ g.kept slot = none := by
  unfold getTriangleBuffer at refused
  split at refused
  · cases refused
  · rename_i kept
    split at refused
    · cases refused
      exact ⟨rfl,kept⟩
    · cases refused

-- It makes no difference whether the buffer of another Context is still there.
theorem buffer_dropped (none : g.kept slot = none) (room : Bool) :
    getTriangleBuffer {g with currentTriangle := Option.none} slot context room = getTriangleBuffer g slot context room := by
  have gone : ({g with currentTriangle := Option.none} : Globals F κ).kept slot = Option.none := rfl
  unfold getTriangleBuffer
  rw [none,gone]

theorem buffer_room (taken : getTriangleBuffer g slot context room = (h,some target)) :
    getTriangleBuffer g slot context true = (h,some target) := by
  obtain ⟨rfl,kept | ⟨kept,rfl,drawable⟩⟩ := buffer_taken taken
  · exact buffer_holding kept
  · exact buffer_fresh kept drawable

-- A handler that stalls has changed nothing but the buffer that the globals hold.
theorem execute_stall (stalled : (execute spu g slot context room request).stalled = true) :
    (execute spu g slot context room request).drawn = none ∧ (execute spu g slot context room request).context = context ∧
      ((execute spu g slot context room request).globals = g ∧ takes context request = false ∨
        (execute spu g slot context room request).globals = {g with currentTriangle := none} ∧ takes context request = true ∧
          g.kept slot = none) := by
  cases request with
  | vertex x y z w =>
    simp only [execute,imp_vertex] at stalled ⊢
    split at stalled
    · cases stalled
    · rename_i drawable
      rw [if_neg drawable]
      split at stalled
      · rename_i refused
        obtain ⟨rfl,kept⟩ := buffer_refused refused
        exact ⟨rfl,rfl,.inr ⟨rfl,by simpa [takes,Context.ready] using drawable,kept⟩⟩
      · split at stalled
        · rw [write_finished] at stalled
          cases stalled
        · cases stalled
  | clearScreen x y z w =>
    simp only [execute,imp_clear_screen] at stalled ⊢
    split at stalled
    · rename_i refused
      obtain ⟨rfl,kept⟩ := buffer_refused refused
      exact ⟨rfl,rfl,.inr ⟨rfl,rfl,kept⟩⟩
    · rw [write_finished] at stalled
      cases stalled
  | loadMatrix command entries =>
    simp only [execute] at stalled
    split at stalled
    · cases stalled
    · split at stalled
      · cases stalled
      · cases stalled
  | vertexAttrib which x y z w =>
    simp only [execute] at stalled
    split at stalled
    · cases stalled
    · cases stalled
  | glSync => exact ⟨rfl,rfl,.inl ⟨rfl,rfl⟩⟩
  | _ => cases stalled

theorem execute_dropped (taking : takes context request = true) (none : g.kept slot = none) (room : Bool) :
    execute spu {g with currentTriangle := Option.none} slot context room request = execute spu g slot context room request := by
  cases request with
  | vertex x y z w =>
    have drawable : context.renderableCacheLine ≠ 0 := by simpa [takes,Context.ready] using taking
    simp only [execute,imp_vertex]
    rw [if_neg drawable,if_neg drawable,buffer_dropped none]
  | clearScreen x y z w =>
    simp only [execute,imp_clear_screen]
    rw [buffer_dropped none]
  | _ => cases taking

theorem execute_room (finished : (execute spu g slot context room request).stalled = false) :
    execute spu g slot context true request = execute spu g slot context room request := by
  cases request with
  | vertex x y z w =>
    simp only [execute,imp_vertex] at finished ⊢
    split
    · rfl
    · rename_i drawable
      rw [if_neg drawable] at finished
      split at finished
      · cases finished
      · rename_i taken
        rw [buffer_room taken]
  | clearScreen x y z w =>
    simp only [execute,imp_clear_screen] at finished ⊢
    split at finished
    · cases finished
    · rename_i taken
      rw [buffer_room taken]
  | glSync =>
    have open_ : room = true := by simpa [execute] using finished
    rw [open_]
  | _ => rfl

-- What a stall leaves of the whole side.
theorem serve_stall (stalled : (s.serve spu slot room request).1 = true) :
    (s.serve spu slot room request).2 = s ∧ takes s.context request = false ∨
      (s.serve spu slot room request).2 = {s with globals := {s.globals with currentTriangle := none}} ∧
        takes s.context request = true ∧ s.globals.kept slot = none := by
  have ended : (execute spu s.globals slot s.context room request).stalled = true := stalled
  obtain ⟨drawn,context,⟨globals,idle⟩ | ⟨globals,taking,kept⟩⟩ := execute_stall ended
  · refine .inl ⟨?_,idle⟩
    unfold serve
    simp only [drawn,context,globals,ended]
    simp
  · refine .inr ⟨?_,taking,kept⟩
    unfold serve
    simp only [drawn,context,globals,ended]
    simp

theorem serve_retried (stalled : (s.serve spu slot room request).1 = true) (room' : Bool) :
    (s.serve spu slot room request).2.serve spu slot room' request = s.serve spu slot room' request := by
  rcases serve_stall stalled with ⟨same,_⟩ | ⟨dropped,taking,kept⟩
  · rw [same]
  · rw [dropped]
    have gone : ({s.globals with currentTriangle := none} : Globals F κ).kept slot = none := rfl
    unfold serve allocates
    simp only [execute_dropped taking kept,kept,gone]

theorem attempt_transparent (spu : PrimarySpu F) (slot : κ) :
    Transparent (attempt spu slot) (unhindered spu slot) where
  retried s lines lines' request stalled := by
    have rooms : (s.attempt spu slot lines request).2.room lines' request = s.room lines' request := by
      rcases serve_stall stalled with ⟨same,_⟩ | ⟨dropped,_,_⟩
      · unfold attempt
        rw [same]
      · unfold attempt
        rw [dropped]
        rfl
    show (s.attempt spu slot lines request).2.serve spu slot _ request = _
    rw [rooms]
    exact serve_retried stalled _
  done s lines request finished := by
    have ended : (execute spu s.globals slot s.context (s.room lines request) request).stalled = false := finished
    unfold attempt unhindered serve
    rw [execute_room ended]

-- All that the rest of the commands and the render SPUs see.
structure Same (s s' : Drawing F κ) : Prop where
  ring : s.ring = s'.ring
  endTriangle : s.endTriangle = s'.endTriangle
  context : s.context = s'.context
  current_state : s.globals.current_state = s'.globals.current_state
  corners : s.globals.corners = s'.globals.corners
  texels : s.globals.texels = s'.globals.texels
  current_colour : s.globals.current_colour = s'.globals.current_colour
  current_texcoord : s.globals.current_texcoord = s'.globals.current_texcoord

theorem stall_same (stalled : (s.serve spu slot room request).1 = true) : Same (s.serve spu slot room request).2 s := by
  rcases serve_stall stalled with ⟨same,_⟩ | ⟨dropped,_,_⟩
  · rw [same]
    exact ⟨rfl,rfl,rfl,rfl,rfl,rfl,rfl,rfl⟩
  · rw [dropped]
    exact ⟨rfl,rfl,rfl,rfl,rfl,rfl,rfl,rfl⟩

-- Any number of turns, with any progress of the render SPUs at each: the commands that
-- returned have done what they do without stalls, and a stall does nothing.
theorem stalls_transparent (spu : PrimarySpu F) (slot : κ) (s : Drawing F κ) (commands : List Request)
    (lines : List (Nat → CacheLine Nat)) :
    let j := lines.foldl (Job.turn (attempt spu slot)) (.start commands s)
    (commands = j.finished ++ j.remaining ∧ ∃ u, Straight (unhindered spu slot) s j.finished u ∧ Same j.state u) ∧
      ∀ (s : Drawing F κ) (room : Bool) (request : Request), (s.serve spu slot room request).1 = true →
        Same (s.serve spu slot room request).2 s := by
  intro j
  refine ⟨?_,fun s room request stalled => stall_same stalled⟩
  obtain ⟨split,u,path,reaches⟩ := turns_inOrder (attempt_transparent spu slot) commands s lines
  refine ⟨split,u,path,?_⟩
  rcases reaches with same | ⟨lines',request,_,stalled,same⟩
  · rw [show j.state = u from same]
    exact ⟨rfl,rfl,rfl,rfl,rfl,rfl,rfl,rfl⟩
  · rw [show j.state = _ from same]
    exact stall_same stalled

end
end Drawing
end Spugl
