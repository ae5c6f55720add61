import Spugl.FixedSizes
import Spugl.DrawingRun
import Spugl.QueueIsolation

namespace Spugl
open Retries

section
variable {F κ : Type} (spu : PrimarySpu F) [DecidableEq κ] (slot : κ)

-- The cache line of the last DRAW_CONTEXT, or 0 where there is none.
def selected (executed : List Request) : Nat :=
  executed.foldl (fun line request => match request with
    | .drawContext id => if (spu.renderables (id % 32)).id = id then (spu.renderables (id % 32)).cacheLine else 0
    | _ => line) 0

-- The command completes a triangle that imp_triangle accepts.
def completing (g : Globals F κ) (context : Context F) : Request → Bool
  | .vertex x y z w =>
    let put := g.insert spu context (floats spu x y z w)
    context.ready && put.complete && (put.corners.triangle spu).isSome
  | .clearScreen x y z w => ((clearCorners spu context.width context.height (floats spu x y z w)).triangle spu).isSome
  | _ => false

-- A triangle goes to the end of one ring, and nothing else moves.
structure Lands (s s' : Drawing F κ) (target : Nat) (d : Drawn F) : Prop where
  ring : s'.ring = Function.update s.ring target (s.ring target ++
    [⟨s.endTriangle target,(Grant.ofEnd (s.endTriangle target)).nextPointer,d⟩])
  endTriangle : s'.endTriangle = Function.update s.endTriangle target (Grant.ofEnd (s.endTriangle target)).nextPointer

abbrev Queue (F κ : Type) := Job (Drawing F κ) Request

namespace Queue

def start (commands : List Request) : Queue F κ := Job.start commands (Drawing.start spu)

def turn (j : Queue F κ) (lines : Nat → CacheLine Nat) : Queue F κ := Job.turn (Drawing.attempt spu slot) j lines

-- The triangle that the next turn emits.
def emits (j : Queue F κ) (lines : Nat → CacheLine Nat) : Option (Drawn F) :=
  match j.remaining with
  | [] => none
  | request :: _ => (execute spu j.state.globals slot j.state.context (j.state.room lines request) request).drawn

-- It lands in the ring of the renderable that was selected last.
def Follows (j : Queue F κ) (lines : Nat → CacheLine Nat) : Prop :=
  ∀ d, j.emits spu slot lines = some d → Lands j.state (j.turn spu slot lines).state (selected spu j.finished) d

-- The next command does not complete a triangle in a buffer of another renderable than
-- the Context names.
def Clean (j : Queue F κ) : Prop :=
  match j.remaining with
  | [] => True
  | request :: _ => completing spu j.state.globals j.state.context request = true →
    ∀ target, j.state.globals.kept slot = some target → target = j.state.context.renderableCacheLine

end Queue

variable {spu slot} {g : Globals F κ} {context : Context F} {room : Bool} {request : Request} {buffer : Nat} {d : Drawn F}

theorem selected_append (executed : List Request) (request : Request) : selected spu (executed ++ [request]) =
    match request with
    | .drawContext id => if (spu.renderables (id % 32)).id = id then (spu.renderables (id % 32)).cacheLine else 0
    | _ => selected spu executed := by
  unfold selected
  rw [List.foldl_append]
  rfl

-- The Context names the renderable of the last DRAW_CONTEXT.
theorem execute_selects {executed : List Request} (before : context.renderableCacheLine = selected spu executed) :
    (execute spu g slot context room request).context.renderableCacheLine = selected spu (executed ++ [request]) := by
  rw [selected_append]
  cases request with
  | drawContext id =>
    simp only [execute,imp_draw_context]
    split <;> rfl
  | _ => exact (execute_frame (v := .renderable) g slot context room _ rfl).trans before

omit [DecidableEq κ] in
theorem write_drawn {target a b : Nat} (drawn : (writeTriangleBuffer spu g context target a b).drawn = some d) :
    (g.corners.triangle spu).isSome = true ∧ d.renderableCacheLine = target := by
  unfold writeTriangleBuffer at drawn
  split at drawn
  · rename_i triangle visible
    cases drawn
    rw [visible]
    exact ⟨rfl,rfl⟩
  · cases drawn

theorem buffer_line {h : Globals F κ} {room : Bool} (taken : getTriangleBuffer g slot context room = (h,some buffer)) :
    h = {g with currentTriangle := some (slot,buffer)} ∧ (g.kept slot).getD context.renderableCacheLine = buffer := by
  obtain ⟨same,kept | ⟨kept,line,_⟩⟩ := buffer_taken taken
  · exact ⟨same,by rw [kept]; rfl⟩
  · exact ⟨same,by rw [kept]; exact line⟩

-- What a command draws, and into which buffer.
theorem execute_drawn (drawn : (execute spu g slot context room request).drawn = some d) :
    completing spu g context request = true ∧ takes context request = true ∧
      (execute spu g slot context room request).stalled = false ∧
        (g.kept slot).getD context.renderableCacheLine = d.renderableCacheLine ∧
          (execute spu g slot context room request).globals.kept slot = none := by
  cases request with
  | vertex x y z w =>
    by_cases drawable : context.renderableCacheLine = 0
    · simp [execute,imp_vertex,drawable] at drawn
    · have ready : context.ready = true := by simpa [Context.ready] using drawable
      cases got : getTriangleBuffer g slot context room with
      | mk h answer =>
        cases answer with
        | none => simp [execute,imp_vertex,drawable,got] at drawn
        | some buffer =>
          obtain ⟨rfl,line⟩ := buffer_line got
          simp only [execute,vertex_taken drawable got] at drawn ⊢
          by_cases complete : (g.insert spu context (floats spu x y z w)).complete = true
          · rw [if_pos complete] at drawn ⊢
            obtain ⟨visible,same⟩ := write_drawn drawn
            refine ⟨?_,ready,write_finished _ _ _ _ _,line.trans same.symm,write_kept visible _ _ _⟩
            simp only [completing,ready,complete,Bool.true_and]
            exact visible
          · rw [if_neg complete] at drawn
            cases drawn
  | clearScreen x y z w =>
    cases got : getTriangleBuffer g slot context room with
    | mk h answer =>
      cases answer with
      | none => simp [execute,imp_clear_screen,got] at drawn
      | some buffer =>
        obtain ⟨rfl,line⟩ := buffer_line got
        simp only [execute,clear_taken got] at drawn ⊢
        obtain ⟨visible,same⟩ := write_drawn drawn
        exact ⟨visible,rfl,write_finished _ _ _ _ _,line.trans same.symm,write_kept visible _ _ _⟩
  | loadMatrix command entries =>
    simp only [execute] at drawn
    split at drawn
    · cases drawn
    · split at drawn
      · cases drawn
      · cases drawn
  | vertexAttrib which x y z w =>
    simp only [execute] at drawn
    split at drawn
    · cases drawn
    · cases drawn
  | _ => cases drawn

omit [DecidableEq κ] in
theorem write_visible {target a b : Nat} (visible : (g.corners.triangle spu).isSome = true) :
    ∃ d, (writeTriangleBuffer spu g context target a b).drawn = some d ∧ d.renderableCacheLine = target := by
  obtain ⟨triangle,found⟩ := Option.isSome_iff_exists.mp visible
  unfold writeTriangleBuffer
  rw [found]
  exact ⟨_,rfl,rfl⟩

-- A held buffer is used, whatever the Context names.
variable (room) in
theorem execute_completes (completes : completing spu g context request = true) (kept : g.kept slot = some buffer) :
    ∃ d, (execute spu g slot context room request).drawn = some d ∧ d.renderableCacheLine = buffer := by
  have got : getTriangleBuffer g slot context room = ({g with currentTriangle := some (slot,buffer)},some buffer) := buffer_holding kept
  cases request with
  | vertex x y z w =>
    simp only [completing,Bool.and_eq_true] at completes
    obtain ⟨⟨ready,complete⟩,visible⟩ := completes
    have drawable : context.renderableCacheLine ≠ 0 := by simpa [Context.ready] using ready
    simp only [execute,vertex_taken drawable got,if_pos complete]
    exact write_visible visible
  | clearScreen x y z w =>
    simp only [execute,clear_taken got]
    exact write_visible completes
  | _ => cases completes

theorem execute_idle (idle : takes context request = false) :
    (execute spu g slot context room request).globals.kept slot = g.kept slot := by
  cases request with
  | vertex x y z w =>
    have unready : context.renderableCacheLine = 0 := by simpa [takes,Context.ready] using idle
    simp [execute,imp_vertex,unready]
  | clearScreen x y z w => cases idle
  | glEnd => exact glEnd_kept g slot
  | glBegin state =>
    simp only [execute]
    split <;> rfl
  | loadMatrix command entries =>
    simp only [execute]
    split
    · rfl
    · split <;> rfl
  | vertexAttrib which x y z w =>
    simp only [execute]
    split <;> rfl
  | _ => rfl

omit [DecidableEq κ] in
theorem write_undrawn {target a b : Nat} (undrawn : (writeTriangleBuffer spu g context target a b).drawn = none) :
    (writeTriangleBuffer spu g context target a b).globals = g := by
  unfold writeTriangleBuffer at undrawn ⊢
  split at undrawn
  · cases undrawn
  · rfl

-- A command that has a buffer and draws nothing keeps it.
theorem execute_keeps (taking : takes context request = true) (finished : (execute spu g slot context room request).stalled = false)
    (undrawn : (execute spu g slot context room request).drawn = none) :
    (execute spu g slot context room request).globals.kept slot = some ((g.kept slot).getD context.renderableCacheLine) := by
  cases request with
  | vertex x y z w =>
    have drawable : context.renderableCacheLine ≠ 0 := by simpa [takes,Context.ready] using taking
    cases got : getTriangleBuffer g slot context room with
    | mk h answer =>
      cases answer with
      | none => simp [execute,imp_vertex,drawable,got] at finished
      | some buffer =>
        obtain ⟨rfl,line⟩ := buffer_line got
        rw [line]
        simp only [execute,vertex_taken drawable got] at undrawn ⊢
        have holding : (g.put slot buffer (g.insert spu context (floats spu x y z w))).kept slot = some buffer := by
          simp [Globals.put,Globals.kept]
        split at undrawn
        · rename_i complete
          rw [if_pos complete,write_undrawn undrawn]
          exact holding
        · rename_i open_
          rw [if_neg open_]
          exact holding
  | clearScreen x y z w =>
    cases got : getTriangleBuffer g slot context room with
    | mk h answer =>
      cases answer with
      | none => simp [execute,imp_clear_screen,got] at finished
      | some buffer =>
        obtain ⟨rfl,line⟩ := buffer_line got
        rw [line]
        simp only [execute,clear_taken got] at undrawn ⊢
        rw [write_undrawn undrawn]
        exact kept_holding {g with corners := clearCorners spu context.width context.height (floats spu x y z w)} slot buffer
  | _ => cases taking

-- A held buffer is at the end of its ring.
def Granted (slot : κ) (s : Drawing F κ) : Prop :=
  ∀ buffer, s.globals.kept slot = some buffer → s.grant = .ofEnd (s.endTriangle buffer)

theorem serve_lands {s : Drawing F κ} (granted : Granted slot s)
    (drawn : (execute spu s.globals slot s.context room request).drawn = some d) :
    Lands s (s.serve spu slot room request).2 d.renderableCacheLine d := by
  obtain ⟨_,taking,finished,line,_⟩ := execute_drawn drawn
  have grant : (if s.allocates slot request && !(execute spu s.globals slot s.context room request).stalled then
      Grant.ofEnd (s.endTriangle s.context.renderableCacheLine) else s.grant) = .ofEnd (s.endTriangle d.renderableCacheLine) := by
    cases kept : s.globals.kept slot with
    | none =>
      rw [kept] at line
      rw [← line]
      simp [Drawing.allocates,taking,kept,finished]
    | some buffer =>
      rw [kept] at line
      rw [← line]
      simpa [Drawing.allocates,kept] using granted buffer kept
  unfold Drawing.serve
  simp only [drawn,grant]
  exact ⟨rfl,rfl⟩

theorem serve_granted {s : Drawing F κ} (granted : Granted slot s) (room : Bool) (request : Request) :
    Granted slot (s.serve spu slot room request).2 := by
  intro buffer kept
  cases drawn : (execute spu s.globals slot s.context room request).drawn with
  | some d =>
    obtain ⟨_,_,_,_,gone⟩ := execute_drawn drawn
    simp only [Drawing.serve,drawn,gone] at kept
    cases kept
  | none =>
    cases ended : (execute spu s.globals slot s.context room request).stalled with
    | true =>
      have stalled : (s.serve spu slot room request).1 = true := ended
      rcases Drawing.serve_stall stalled with ⟨same,_⟩ | ⟨dropped,_,_⟩
      · rw [same] at kept ⊢
        exact granted buffer kept
      · rw [dropped] at kept
        cases kept
    | false =>
      simp only [Drawing.serve,drawn,ended] at kept ⊢
      cases taking : takes s.context request with
      | false =>
        rw [execute_idle taking] at kept
        simpa [Drawing.allocates,taking] using granted buffer kept
      | true =>
        rw [execute_keeps taking ended drawn] at kept
        cases held : s.globals.kept slot with
        | none =>
          rw [held] at kept
          cases kept
          simp [Drawing.allocates,taking,held]
        | some b =>
          rw [held] at kept
          cases kept
          simpa [Drawing.allocates,held] using granted b held

-- The Context names what was selected last.
structure Tracked (spu : PrimarySpu F) (slot : κ) (j : Queue F κ) : Prop where
  named : j.state.context.renderableCacheLine = selected spu j.finished
  granted : Granted slot j.state

theorem Tracked.turn {j : Queue F κ} (tracked : Tracked spu slot j) (lines : Nat → CacheLine Nat) :
    Tracked spu slot (j.turn spu slot lines) := by
  obtain ⟨finished,remaining,s⟩ := j
  obtain ⟨named,granted⟩ := tracked
  cases remaining with
  | nil => exact ⟨named,granted⟩
  | cons request rest =>
    have kept : Granted slot (s.serve spu slot (s.room lines request) request).2 := serve_granted granted _ _
    cases ended : (s.attempt spu slot lines request).1 with
    | true =>
      simp only [Queue.turn,Job.turn,ended,if_true]
      refine ⟨?_,kept⟩
      rcases Drawing.serve_stall ended with ⟨same,_⟩ | ⟨dropped,_,_⟩
      · exact (congrArg (fun s => s.context.renderableCacheLine) same).trans named
      · exact (congrArg (fun s => s.context.renderableCacheLine) dropped).trans named
    | false =>
      simp only [Queue.turn,Job.turn,ended,Bool.false_eq_true,if_false]
      refine ⟨?_,kept⟩
      have context : (s.attempt spu slot lines request).2.context =
          (execute spu s.globals slot s.context (s.room lines request) request).context := by
        unfold Drawing.attempt Drawing.serve
        simp only
        split <;> rfl
      rw [context]
      exact execute_selects named

theorem turns_tracked (commands : List Request) (lines : List (Nat → CacheLine Nat)) :
    Tracked spu slot (lines.foldl (Queue.turn spu slot) (Queue.start spu commands)) := by
  have kept (lines : List (Nat → CacheLine Nat)) (j : Queue F κ) (tracked : Tracked spu slot j) :
      Tracked spu slot (lines.foldl (Queue.turn spu slot) j) := by
    induction lines generalizing j with
    | nil => exact tracked
    | cons l lines ih => exact ih _ (tracked.turn l)
  exact kept lines _ ⟨rfl,fun _ kept => by cases kept⟩

omit [DecidableEq κ] in
theorem lands_unique {s s' : Drawing F κ} {target target' : Nat} (one : Lands s s' target d) (two : Lands s s' target' d) :
    target = target' := by
  by_contra apart
  have here := congrFun (one.ring.symm.trans two.ring) target
  rw [Function.update_self,Function.update_of_ne apart] at here
  simp at here

-- Every run of one queue, at every turn.
theorem triangles_follow (spu : PrimarySpu F) (slot : κ) (commands : List Request) (before : List (Nat → CacheLine Nat))
    (now : Nat → CacheLine Nat) :
    let j := before.foldl (Queue.turn spu slot) (Queue.start spu commands)
    j.Follows spu slot now ↔ j.Clean spu slot := by
  intro j
  obtain ⟨named,granted⟩ : Tracked spu slot j := turns_tracked commands before
  unfold Queue.Follows Queue.Clean Queue.emits
  cases next : j.remaining with
  | nil => simp
  | cons request rest =>
    have after : (j.turn spu slot now).state = (j.state.serve spu slot (j.state.room now request) request).2 := by
      unfold Queue.turn Job.turn
      rw [next]
      simp only
      split <;> rfl
    rw [after,← named]
    constructor
    · intro follows completes buffer kept
      obtain ⟨d,drawn,rfl⟩ := execute_completes (j.state.room now request) completes kept
      exact lands_unique (serve_lands granted drawn) (follows d drawn)
    · intro clean d drawn
      obtain ⟨completes,_,_,line,_⟩ := execute_drawn drawn
      have target : d.renderableCacheLine = j.state.context.renderableCacheLine := by
        cases kept : j.state.globals.kept slot with
        | none => rw [← line,kept]; rfl
        | some buffer =>
          rw [← line,kept]
          exact clean completes buffer kept
      rw [← target]
      exact serve_lands granted drawn

end

-- The renderable changes behind the first vertex of a triangle.
def switching : List Request :=
  target 1 ++ [.glBegin 4,.vertex 0 0 0 1] ++ target 2 ++ [.vertex 16 0 0 1,.vertex 0 16 0 1]

def idleLines : Nat → CacheLine Nat := fun _ => .create 0

def switched : Queue Int Unit := (List.replicate 7 idleLines).foldl (Queue.turn integers ()) (Queue.start integers switching)

theorem triangles_stray : ¬∀ (commands : List Request) (before : List (Nat → CacheLine Nat)) (now : Nat → CacheLine Nat),
    (∀ id, .drawContext id ∈ commands → (integers.renderables (id % 32)).id = id ∧ (integers.renderables (id % 32)).cacheLine ≠ 0) →
    (before.foldl (Queue.turn integers ()) (Queue.start integers commands)).Follows integers () now := by
  intro claim
  have valid : ∀ id, Request.drawContext id ∈ switching →
      (integers.renderables (id % 32)).id = id ∧ (integers.renderables (id % 32)).cacheLine ≠ 0 := by
    intro id member
    have chosen : id = 1 ∨ id = 2 := by simpa [switching,target] using member
    rcases chosen with rfl | rfl <;> decide
  have follows : switched.Follows integers () idleLines := claim switching (List.replicate 7 idleLines) idleLines valid
  have emits : (switched.emits integers () idleLines).isSome = true := by decide +kernel
  obtain ⟨d,drawn⟩ := Option.isSome_iff_exists.mp emits
  have lands := follows d drawn
  have last : selected integers switched.finished = 12288 := by decide +kernel
  rw [last] at lands
  have grown := congrArg List.length (congrFun lands.ring 12288)
  rw [Function.update_self,List.length_append] at grown
  have stayed : ((switched.turn integers () idleLines).state.ring 12288).length = 0 := by decide +kernel
  rw [stayed] at grown
  cases grown

end Spugl
