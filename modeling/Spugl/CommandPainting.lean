import Spugl.FramePainting
import Spugl.RenderableSwitch

namespace Spugl
open HilbertWalk WriteBack Retries

-- The primary SPU with one queue of commands, and a renderable with its pixels. `storing` is the triangle that
-- writeTriangleBuffer is at: its two stores come after the handler has decided about it.
structure Studio (F κ P α ι : Type) where
  queue : Queue F κ
  canvas : Canvas P α ι
  storing : Option (Drawn F)

inductive StudioAction (ι : Type) where
  | run (k : ι)
  | command (others : Nat → CacheLine Nat)
  | store

namespace Studio

section
variable {F κ P α ι : Type} (spu : PrimarySpu F) [DecidableEq κ] [DecidableEq ι] (slot : κ) (ea : Nat) (cache : PixelTiles)
  (shade : Drawn F → ShadedTriangle P α)

-- The cache lines that a handler reads: this renderable's as it is, and the others.
def lines (s : Studio F κ P α ι) (others : Nat → CacheLine Nat) : Nat → CacheLine Nat :=
  Function.update others ea s.canvas.pipeline.system.line

-- The next command asks for a record of this renderable.
def asks (s : Studio F κ P α ι) : Bool :=
  match s.queue.remaining with
  | [] => false
  | request :: _ => s.queue.state.allocates slot request && decide (s.queue.state.context.renderableCacheLine = ea)

def act (s : Studio F κ P α ι) : StudioAction ι → Studio F κ P α ι
  | .run k => {s with canvas := s.canvas.run cache k}
  | .command others =>
    match s.storing with
    | some _ => s
    | none =>
      { queue := s.queue.turn spu slot (s.lines ea others)
        canvas := if s.asks slot ea then s.canvas.act cache .getTriangleBuffer else s.canvas
        storing := (s.queue.emits spu slot (s.lines ea others)).filter fun d => decide (d.renderableCacheLine = ea) }
  | .store =>
    match s.storing,s.canvas.pipeline.producer with
    | some d,.granted _ => {s with canvas := s.canvas.act cache (.write (shade d))}
    | some _,.written _ => {s with canvas := s.canvas.act cache .publish,storing := none}
    | _,_ => s

def allowed (s : Studio F κ P α ι) : StudioAction ι → Prop
  | .run k => RoomySplits s.canvas.pipeline.system k
  | _ => True

def Reached (commands : List Request) (memory : BitVec 64 → α) : Studio F κ P α ι → Prop :=
  Runs.Reached (fun s => ∃ ring shaded painters, s = ⟨Queue.start spu commands,.start ring shaded painters memory,none⟩)
    (Runs.Step (act spu slot ea cache shade) allowed)

-- Where the records of the drawing side stand in the renderable.
def Stores (s : Studio F κ P α ι) : Prop :=
  let next := Grant.ofEnd (place s.canvas.published.length)
  let triangles := (s.queue.state.ring ea).map fun p => shade p.drawn
  match s.storing with
  | none => s.queue.state.endTriangle ea = place s.canvas.published.length ∧
      s.canvas.pipeline.producer = (if s.queue.state.globals.kept slot = some ea then .granted next else .idle) ∧
      s.canvas.published = triangles
  | some d => s.queue.state.globals.kept slot ≠ some ea ∧ s.queue.state.endTriangle ea = next.nextPointer ∧ (shade d).Drawable ∧
      (s.canvas.pipeline.producer = .granted next ∨ s.canvas.pipeline.producer = .written next ∧ s.canvas.shaded next.offset = shade d) ∧
      s.canvas.published ++ [shade d] = triangles

structure Stands (commands : List Request) (initial : BitVec 64 → α) (s : Studio F κ P α ι) : Prop where
  path : Canvas.Reached cache initial s.canvas
  order : InOrder (Drawing.attempt spu slot) (Drawing.unhindered spu slot) commands (Drawing.start spu) s.queue
  granted : Granted slot s.queue.state
  stores : s.Stores slot ea shade

end

section
variable {F κ P α ι : Type} {spu : PrimarySpu F} [DecidableEq κ] [DecidableEq ι] {slot : κ} {ea : Nat} {cache : PixelTiles}
  {shade : Drawn F → ShadedTriangle P α} {g : Globals F κ} {context : Context F} {request : Request} {room : Bool} {d : Drawn F}

omit [DecidableEq κ] in
theorem write_triangle {target a b : Nat} (drawn : (writeTriangleBuffer spu g context target a b).drawn = some d) :
    d.corners.triangle spu = some d.triangle := by
  unfold writeTriangleBuffer at drawn
  split at drawn
  · rename_i triangle visible
    cases drawn
    exact visible
  · cases drawn

-- imp_triangle has made the record of the corners in it.
theorem execute_triangle (drawn : (execute spu g slot context room request).drawn = some d) : d.corners.triangle spu = some d.triangle := by
  cases request with
  | vertex x y z w =>
    simp only [execute,imp_vertex] at drawn
    split at drawn
    · cases drawn
    · split at drawn
      · cases drawn
      · split at drawn
        · exact write_triangle drawn
        · cases drawn
  | clearScreen x y z w =>
    simp only [execute,imp_clear_screen] at drawn
    split at drawn
    · cases drawn
    · exact write_triangle drawn
  | loadMatrix command entries =>
    simp only [execute] at drawn
    split at drawn
    · cases drawn
    · split at drawn <;> cases drawn
  | vertexAttrib which x y z w =>
    simp only [execute] at drawn
    split at drawn <;> cases drawn
  | _ => cases drawn

theorem execute_drawable (shades : ∀ d, (shade d).triangle = d.triangle) (words : ∀ x, Word (spu.convts x))
    (drawn : (execute spu g slot context room request).drawn = some d) : (shade d).Drawable := by
  refine ⟨fun k => spu.convts (d.corners.TRIx k),fun k => spu.convts (d.corners.TRIy k),fun k => words _,fun k => words _,?_⟩
  rw [shades]
  exact execute_triangle drawn

-- A handler that has to ask for a buffer stalls exactly where there is no room.
theorem execute_asks (taking : takes context request = true) (kept : g.kept slot = none) (drawable : context.renderableCacheLine ≠ 0) :
    (execute spu g slot context room request).stalled = !room := by
  have got : getTriangleBuffer g slot context room = if room then ({g with currentTriangle := some (slot,context.renderableCacheLine)},
      some context.renderableCacheLine) else ({g with currentTriangle := none},none) := by
    unfold getTriangleBuffer
    rw [kept]
    cases room <;> simp [drawable]
  cases request with
  | vertex x y z w =>
    simp only [execute,imp_vertex]
    rw [if_neg drawable,got]
    cases room with
    | false => rfl
    | true =>
      rw [if_pos rfl]
      dsimp only
      split
      · exact write_finished _ _ _ _ _
      · rfl
  | clearScreen x y z w =>
    simp only [execute,imp_clear_screen]
    rw [got]
    cases room with
    | false => rfl
    | true => exact write_finished _ _ _ _ _
  | _ => cases taking

-- The cache line carries endTriangle for the records so far.
theorem reached_end {s : Canvas P α ι} {initial : BitVec 64 → α} (apart : Apart cache.inFrame cache.tile)
    (path : Canvas.Reached cache initial s) : s.pipeline.system.line.endTriangle = place s.published.length := by
  obtain ⟨r,t,painted⟩ := reached_painted apart path
  rw [painted.unrolled.named.line,painted.count]
  rfl

section
variable {s : Studio F κ P α ι} {commands : List Request} {initial : BitVec 64 → α}

theorem run_stores (stores : s.Stores slot ea shade) (k : ι) :
    Stores slot ea shade ({s with canvas := s.canvas.run cache k} : Studio F κ P α ι) := by
  obtain ⟨published,shaded,pipeline,_⟩ := Canvas.run_frame cache s.canvas k
  have producer : (s.canvas.run cache k).pipeline.producer = s.canvas.pipeline.producer := by
    rcases pipeline with ran | kept
    · rw [ran]
      rfl
    · rw [kept]
  unfold Stores at stores ⊢
  dsimp only
  rw [published,shaded,producer]
  exact stores

theorem store_stands (apart : Apart cache.inFrame cache.tile) (stands : s.Stands spu slot ea cache shade commands initial) :
    (s.act spu slot ea cache shade .store).Stands spu slot ea cache shade commands initial := by
  obtain ⟨path,order,granted,stores⟩ := stands
  obtain ⟨queue,canvas,storing⟩ := s
  cases storing with
  | none => exact ⟨path,order,granted,stores⟩
  | some d =>
    obtain ⟨kept,ends,drawable,stage,triangles⟩ := stores
    dsimp only at path kept ends stage triangles
    rcases stage with ready | ⟨ready,stored⟩
    · -- The record.
      have after : Canvas.Reached cache initial (canvas.act cache (.write (shade d))) := path.step ⟨.write (shade d),drawable,rfl⟩
      have same : (act spu slot ea cache shade ⟨queue,canvas,some d⟩ .store : Studio F κ P α ι) =
          ⟨queue,canvas.act cache (.write (shade d)),some d⟩ := by
        simp only [act,ready]
      rw [same]
      refine ⟨after,order,granted,kept,?_,drawable,.inr ⟨?_,?_⟩,?_⟩
      · simp only [Canvas.act,ready]
        exact ends
      · simp only [Canvas.act,ready,Pipeline.act]
      · simp only [Canvas.act,ready,Function.update_self]
      · simp only [Canvas.act,ready]
        exact triangles
    · -- endTriangle.
      have after : Canvas.Reached cache initial (canvas.act cache .publish) := path.step ⟨.publish,trivial,rfl⟩
      have same : (act spu slot ea cache shade ⟨queue,canvas,some d⟩ .store : Studio F κ P α ι) =
          ⟨queue,canvas.act cache .publish,none⟩ := by
        simp only [act,ready]
      rw [same]
      have line := reached_end apart after
      refine ⟨after,order,granted,?_,?_,?_⟩
      · refine ends.trans (Eq.trans ?_ line)
        simp only [Canvas.act,ready,Pipeline.act,System.act]
      · rw [if_neg kept]
        simp only [Canvas.act,ready,Pipeline.act]
      · simp only [Canvas.act,ready,stored]
        exact triangles
omit [DecidableEq ι] in
theorem turn_state {queue : Queue F κ} {request : Request} {rest : List Request} (next : queue.remaining = request :: rest)
    (lines : Nat → CacheLine Nat) : (queue.turn spu slot lines).state = (queue.state.attempt spu slot lines request).2 := by
  unfold Queue.turn Job.turn
  rw [next]
  dsimp only
  cases (queue.state.attempt spu slot lines request).1 <;> rfl

omit [DecidableEq κ] in
-- What getTriangleBuffer sees of the renderable.
theorem asked_room (apart : Apart cache.inFrame cache.tile) (path : Canvas.Reached cache initial s.canvas)
    (ends : s.queue.state.endTriangle ea = place s.canvas.published.length) (taking : takes s.queue.state.context request = true)
    (here : s.queue.state.context.renderableCacheLine = ea) (others : Nat → CacheLine Nat) :
    s.queue.state.room (s.lines ea others) request = s.canvas.pipeline.system.line.getTriangleBuffer.isSome := by
  have line : s.queue.state.line (s.lines ea others) = s.canvas.pipeline.system.line := by
    unfold Drawing.line lines
    rw [here,Function.update_self,ends,← reached_end apart path]
  unfold Drawing.room
  rw [line]
  cases request with
  | glSync => cases taking
  | _ => rfl

-- The renderable's side of a call of getTriangleBuffer.
theorem canvas_granted {canvas : Canvas P α ι} (apart : Apart cache.inFrame cache.tile) (path : Canvas.Reached cache initial canvas)
    (room : canvas.pipeline.system.line.getTriangleBuffer.isSome = true) :
    (canvas.act cache .getTriangleBuffer).pipeline.producer = .granted (.ofEnd (place canvas.published.length)) := by
  obtain ⟨grant,got⟩ := Option.isSome_iff_exists.mp room
  simp only [Canvas.act,Pipeline.act,got]
  rw [Drawing.getTriangleBuffer_grant got,reached_end apart path]

theorem canvas_refused {canvas : Canvas P α ι} (room : canvas.pipeline.system.line.getTriangleBuffer.isSome = false) :
    canvas.act cache .getTriangleBuffer = canvas := by
  have refused : canvas.pipeline.system.line.getTriangleBuffer = none := by simpa using room
  simp only [Canvas.act,Pipeline.act,refused]

section
variable {queue : Queue F κ} {canvas : Canvas P α ι} {rest : List Request} {lines : Nat → CacheLine Nat}

omit [DecidableEq ι] in
theorem asks_next {storing : Option (Drawn F)} (next : queue.remaining = request :: rest) :
    (⟨queue,canvas,storing⟩ : Studio F κ P α ι).asks slot ea = true ↔
      takes queue.state.context request = true ∧ queue.state.globals.kept slot = none ∧ queue.state.context.renderableCacheLine = ea := by
  unfold asks
  simp only [next,Drawing.allocates,Bool.and_eq_true,decide_eq_true_eq,Option.isNone_iff_eq_none,and_assoc]

-- A command that draws for this renderable has its record there.
theorem drawn_granted (apart : Apart cache.inFrame cache.tile) (path : Canvas.Reached cache initial canvas)
    (next : queue.remaining = request :: rest) (named : ea ≠ 0)
    (producer : canvas.pipeline.producer =
      if queue.state.globals.kept slot = some ea then .granted (.ofEnd (place canvas.published.length)) else .idle)
    (room : takes queue.state.context request = true → queue.state.context.renderableCacheLine = ea →
      queue.state.room lines request = canvas.pipeline.system.line.getTriangleBuffer.isSome)
    (drawn : (execute spu queue.state.globals slot queue.state.context (queue.state.room lines request) request).drawn = some d)
    (mine : d.renderableCacheLine = ea) :
    (if (⟨queue,canvas,none⟩ : Studio F κ P α ι).asks slot ea then canvas.act cache .getTriangleBuffer else canvas).pipeline.producer =
      .granted (.ofEnd (place canvas.published.length)) := by
  obtain ⟨_,taking,finished,line,_⟩ := execute_drawn drawn
  rw [mine] at line
  cases kept : queue.state.globals.kept slot with
  | none =>
    rw [kept] at line
    have here : queue.state.context.renderableCacheLine = ea := line
    rw [execute_asks taking kept (here ▸ named),room taking here] at finished
    rw [if_pos ((asks_next next).mpr ⟨taking,kept,here⟩)]
    exact canvas_granted apart path (by simpa using finished)
  | some buffer =>
    rw [kept] at line
    obtain rfl : buffer = ea := line
    have holding : ¬(⟨queue,canvas,none⟩ : Studio F κ P α ι).asks slot buffer = true := by
      rw [asks_next next,kept]
      rintro ⟨_,none,_⟩
      cases none
    rw [if_neg holding,producer,if_pos kept]

-- And so has one that goes on with a triangle of it.
theorem undrawn_kept (apart : Apart cache.inFrame cache.tile) (path : Canvas.Reached cache initial canvas)
    (next : queue.remaining = request :: rest) (named : ea ≠ 0)
    (producer : canvas.pipeline.producer =
      if queue.state.globals.kept slot = some ea then .granted (.ofEnd (place canvas.published.length)) else .idle)
    (room : takes queue.state.context request = true → queue.state.context.renderableCacheLine = ea →
      queue.state.room lines request = canvas.pipeline.system.line.getTriangleBuffer.isSome)
    (undrawn : (execute spu queue.state.globals slot queue.state.context (queue.state.room lines request) request).drawn = none) :
    (if (⟨queue,canvas,none⟩ : Studio F κ P α ι).asks slot ea then canvas.act cache .getTriangleBuffer else canvas).pipeline.producer =
      if (queue.state.attempt spu slot lines request).2.globals.kept slot = some ea then .granted (.ofEnd (place canvas.published.length))
      else .idle := by
  cases ended : (execute spu queue.state.globals slot queue.state.context (queue.state.room lines request) request).stalled with
  | true =>
    have stalled : (queue.state.serve spu slot (queue.state.room lines request) request).1 = true := ended
    rcases Drawing.serve_stall stalled with ⟨same,idle⟩ | ⟨dropped,taking,kept⟩
    · have silent : ¬(⟨queue,canvas,none⟩ : Studio F κ P α ι).asks slot ea = true := by
        rw [asks_next next,idle]
        rintro ⟨not,_⟩
        cases not
      rw [if_neg silent,Drawing.attempt,same]
      exact producer
    · have gone : ({queue.state.globals with currentTriangle := none} : Globals F κ).kept slot = none := rfl
      have other : ¬(none : Option Nat) = some ea := nofun
      rw [Drawing.attempt,dropped,gone,if_neg other]
      rw [kept,if_neg other] at producer
      split
      · rename_i asking
        obtain ⟨_,_,here⟩ := (asks_next next).mp asking
        rw [execute_asks taking kept (here ▸ named),room taking here] at ended
        rw [canvas_refused (by simpa using ended)]
        exact producer
      · exact producer
  | false =>
    have after : (queue.state.attempt spu slot lines request).2.globals =
        (execute spu queue.state.globals slot queue.state.context (queue.state.room lines request) request).globals := by
      unfold Drawing.attempt Drawing.serve
      simp only [undrawn]
    rw [after]
    cases taking : takes queue.state.context request with
    | false =>
      have silent : ¬(⟨queue,canvas,none⟩ : Studio F κ P α ι).asks slot ea = true := by
        rw [asks_next next,taking]
        rintro ⟨not,_⟩
        cases not
      rw [if_neg silent,execute_idle taking]
      exact producer
    | true =>
      rw [execute_keeps taking ended undrawn]
      cases kept : queue.state.globals.kept slot with
      | some buffer =>
        have holding : ¬(⟨queue,canvas,none⟩ : Studio F κ P α ι).asks slot ea = true := by
          rw [asks_next next,kept]
          rintro ⟨_,none,_⟩
          cases none
        rw [if_neg holding,producer,kept]
        rfl
      | none =>
        rw [kept,if_neg nofun] at producer
        rw [Option.getD_none]
        by_cases here : queue.state.context.renderableCacheLine = ea
        · rw [execute_asks taking kept (here ▸ named),room taking here] at ended
          rw [if_pos ((asks_next next).mpr ⟨taking,kept,here⟩),if_pos (congrArg some here)]
          exact canvas_granted apart path (by simpa using ended)
        · have elsewhere : ¬(⟨queue,canvas,none⟩ : Studio F κ P α ι).asks slot ea = true := by
            rw [asks_next next]
            exact fun asking => here asking.2.2
          rw [if_neg elsewhere,if_neg fun same => here (Option.some.inj same)]
          exact producer

end

theorem command_stands (apart : Apart cache.inFrame cache.tile) (named : ea ≠ 0) (shades : ∀ d, (shade d).triangle = d.triangle)
    (words : ∀ x, Word (spu.convts x)) (stands : s.Stands spu slot ea cache shade commands initial) (others : Nat → CacheLine Nat) :
    (s.act spu slot ea cache shade (.command others)).Stands spu slot ea cache shade commands initial := by
  obtain ⟨path,order,granted,stores⟩ := stands
  obtain ⟨queue,canvas,storing⟩ := s
  cases storing with
  | some d => exact ⟨path,order,granted,stores⟩
  | none =>
    cases next : queue.remaining with
    | nil =>
      obtain ⟨finished,remaining,state⟩ := queue
      cases next
      exact ⟨path,order,granted,stores⟩
    | cons request rest =>
      obtain ⟨ends,producer,triangles⟩ := stores
      dsimp only at path order granted ends producer triangles
      have order := order.turn (Drawing.attempt_transparent spu slot) (Function.update others ea canvas.pipeline.system.line)
      have room (taking : takes queue.state.context request = true) (here : queue.state.context.renderableCacheLine = ea) :
          queue.state.room (Function.update others ea canvas.pipeline.system.line) request =
            canvas.pipeline.system.line.getTriangleBuffer.isSome :=
        asked_room (s := ⟨queue,canvas,none⟩) apart path ends taking here others
      have attempted : (queue.turn spu slot (Function.update others ea canvas.pipeline.system.line)).state =
          (queue.state.attempt spu slot (Function.update others ea canvas.pipeline.system.line) request).2 := turn_state next _
      have emitted : (queue.emits spu slot (Function.update others ea canvas.pipeline.system.line)) = (execute spu queue.state.globals slot
          queue.state.context (queue.state.room (Function.update others ea canvas.pipeline.system.line) request) request).drawn := by
        unfold Queue.emits
        rw [next]
      have after : Canvas.Reached cache initial
          (if (⟨queue,canvas,none⟩ : Studio F κ P α ι).asks slot ea then canvas.act cache .getTriangleBuffer else canvas) := by
        split
        · rename_i asking
          obtain ⟨_,kept,_⟩ := (asks_next next).mp asking
          refine path.step ⟨.getTriangleBuffer,?_,rfl⟩
          show canvas.pipeline.producer.grant = none
          rw [producer,kept,if_neg nofun]
          rfl
        · exact path
      have granted' : Granted slot (queue.turn spu slot (Function.update others ea canvas.pipeline.system.line)).state := by
        rw [attempted]
        exact serve_granted granted _ _
      refine ⟨after,order,granted',?_⟩
      have same : (if (⟨queue,canvas,none⟩ : Studio F κ P α ι).asks slot ea then canvas.act cache .getTriangleBuffer else canvas).published =
          canvas.published := by
        split <;> rfl
      unfold Stores
      simp only [act,lines,emitted,attempted,same]
      cases drawn : (execute spu queue.state.globals slot queue.state.context
          (queue.state.room (Function.update others ea canvas.pipeline.system.line) request) request).drawn with
      | some d =>
        have lands := serve_lands granted drawn
        have gone : (queue.state.attempt spu slot (Function.update others ea canvas.pipeline.system.line) request).2.globals.kept slot = none := by
          unfold Drawing.attempt Drawing.serve
          simp only [drawn]
          exact (execute_drawn drawn).2.2.2.2
        by_cases mine : d.renderableCacheLine = ea
        · rw [mine] at lands
          rw [Option.filter_some_pos (by simpa using mine)]
          refine ⟨by rw [gone]; nofun,?_,execute_drawable shades words drawn,
            .inl (drawn_granted apart path next named producer room drawn mine),?_⟩
          · rw [Drawing.attempt,lands.endTriangle,Function.update_self,ends]
          · rw [Drawing.attempt,lands.ring,Function.update_self,List.map_append,triangles]
            rfl
        · have silent : ¬(⟨queue,canvas,none⟩ : Studio F κ P α ι).asks slot ea = true := by
            intro asking
            obtain ⟨_,kept,here⟩ := (asks_next next).mp asking
            have line := (execute_drawn drawn).2.2.2.1
            rw [kept] at line
            exact mine (line.symm.trans here)
          have idle : canvas.pipeline.producer = .idle := by
            rw [producer,if_neg]
            intro kept
            have line := (execute_drawn drawn).2.2.2.1
            rw [kept] at line
            exact mine line.symm
          rw [Option.filter_some_neg (by simpa using mine)]
          refine ⟨?_,?_,?_⟩
          · rw [Drawing.attempt,lands.endTriangle,Function.update_of_ne (Ne.symm mine)]
            exact ends
          · rw [if_neg silent,gone,if_neg nofun]
            exact idle
          · rw [Drawing.attempt,lands.ring,Function.update_of_ne (Ne.symm mine)]
            exact triangles
      | none =>
        have still : (queue.state.attempt spu slot (Function.update others ea canvas.pipeline.system.line) request).2.endTriangle =
            queue.state.endTriangle ∧ (queue.state.attempt spu slot (Function.update others ea canvas.pipeline.system.line) request).2.ring =
              queue.state.ring := by
          unfold Drawing.attempt Drawing.serve
          simp only [drawn,and_self]
        rw [Option.filter_none]
        refine ⟨?_,undrawn_kept apart path next named producer room drawn,?_⟩
        · rw [still.1]
          exact ends
        · rw [still.2]
          exact triangles

theorem reached_stands (apart : Apart cache.inFrame cache.tile) (named : ea ≠ 0) (shades : ∀ d, (shade d).triangle = d.triangle)
    (words : ∀ x, Word (spu.convts x)) (path : Reached spu slot ea cache shade commands initial s) :
    s.Stands spu slot ea cache shade commands initial := by
  refine Runs.Reached.invariant _ ?_ ?_ path
  · rintro _ ⟨ring,shaded,painters,rfl⟩
    exact ⟨.start ⟨ring,shaded,painters,rfl⟩,⟨rfl,_,.nil,.inl rfl⟩,nofun,rfl,rfl,rfl⟩
  · rintro s _ stands ⟨a,allowed,rfl⟩
    cases a with
    | run k => exact ⟨stands.path.step ⟨.run k,allowed,rfl⟩,stands.order,stands.granted,run_stores stands.stores k⟩
    | command others => exact command_stands apart named shades words stands others
    | store => exact store_stands apart stands

-- The queue as if nothing had stalled.
theorem Stands.unhindered (stands : s.Stands spu slot ea cache shade commands initial) : commands = s.queue.finished ++ s.queue.remaining ∧
    ∃ u, Straight (Drawing.unhindered spu slot) (Drawing.start spu) s.queue.finished u ∧ u.ring = s.queue.state.ring := by
  obtain ⟨split,u,path,reaches⟩ := stands.order
  refine ⟨split,u,path,?_⟩
  rcases reaches with same | ⟨lines,request,_,stalled,same⟩
  · rw [same]
  · rw [same]
    exact (Drawing.stall_same stalled).ring.symm

-- What is published, and the one that is being stored.
theorem Stands.published (stands : s.Stands spu slot ea cache shade commands initial) :
    (s.queue.state.ring ea).map (fun p => shade p.drawn) = s.canvas.published ++ (s.storing.map shade).toList := by
  have stores := stands.stores
  unfold Stores at stores
  cases storing : s.storing with
  | none =>
    simp only [storing] at stores
    simpa using stores.2.2.symm
  | some d =>
    simp only [storing] at stores
    simpa using stores.2.2.2.2.symm

end
end

-- From the queue to the pixels: in every run of the primary SPU through a queue of commands, with its stalls, and of any
-- number of render SPUs, the frame shows the first so many of the triangles that the commands draw when nothing stalls;
-- and where glSync lets the queue go on the frame has all the triangles of the commands before it.
theorem commands_painted {F κ P α ι : Type} [DecidableEq κ] [DecidableEq ι] {spu : PrimarySpu F} {slot : κ} {ea : Nat}
    {shade : Drawn F → ShadedTriangle P α} {buffer : BitVec 64} {width height stride : Nat} {commands : List Request}
    {initial : BitVec 64 → α} {s : Studio F κ P α ι} (fits : FrameFits buffer width height stride) (named : ea ≠ 0)
    (shades : ∀ d, (shade d).triangle = d.triangle) (words : ∀ x, Word (spu.convts x))
    (path : Reached spu slot ea (createRenderable buffer width height stride) shade commands initial s) :
    let cache := createRenderable buffer width height stride
    commands = s.queue.finished ++ s.queue.remaining ∧
    ∃ u, Straight (Drawing.unhindered spu slot) (Drawing.start spu) s.queue.finished u ∧
      (∀ tile, cache.shows tile → ∃ p, p ≤ (u.ring ea).length ∧ fetch s.canvas.memory (cache.tileAt tile) =
        (((u.ring ea).map fun p => shade p.drawn).take p).foldl (fun pixels t => t.paint tile pixels) (fetch initial (cache.tileAt tile))) ∧
      ∀ others, s.storing = none → s.queue.state.context.renderableCacheLine = ea →
        (s.queue.state.attempt spu slot (s.lines ea others) .glSync).1 = false →
        s.canvas.memory = cache.paintAll ((u.ring ea).map fun p => shade p.drawn) initial := by
  intro cache
  have apart := created_apart fits
  have stands := reached_stands apart named shades words path
  obtain ⟨split,u,straight,ring⟩ := stands.unhindered
  obtain ⟨r,t,painted⟩ := reached_painted apart stands.path
  have published := stands.published
  refine ⟨split,u,straight,?_,?_⟩
  · intro tile shown
    obtain ⟨p,upto,pixels⟩ := painted.shows tile shown
    have length := congrArg List.length published
    rw [List.length_map,List.length_append] at length
    refine ⟨p,by rw [ring]; omega,?_⟩
    rw [ring,published,List.take_append_of_le_length upto]
    exact pixels
  · intro others stored here done
    rw [stored] at published
    rw [ring,published]
    -- glSync has looked at the cache line as it is.
    have ends : s.queue.state.endTriangle ea = s.canvas.pipeline.system.line.endTriangle := by
      have stores := stands.stores
      unfold Stores at stores
      simp only [stored] at stores
      rw [stores.1,reached_end apart stands.path]
    have line : s.queue.state.line (s.lines ea others) = s.canvas.pipeline.system.line := by
      unfold Drawing.line lines
      rw [here,Function.update_self,ends]
    have drained : s.canvas.pipeline.system.line.stillProcessingQueue = false := by
      rw [← line]
      simpa [Drawing.attempt,Drawing.serve,execute,Drawing.room] using done
    simpa using painted.finished apart drained

-- A frame is cleared, and glSync stalls. One SPU has the tiles of the frame, and the other one those behind it.
def studioCommands : List Request := [.drawContext 1,.clearScreen 0 0 0 1,.glSync]

def studioShade (d : Drawn Int) : ShadedTriangle Nat Nat := {shadedTriangle 5 with triangle := d.triangle}

def studioAct (s : Studio Int Unit Nat Nat (Fin 2)) (a : StudioAction (Fin 2)) : Studio Int Unit Nat Nat (Fin 2) :=
  s.act integers () 8192 smallFrame studioShade a

abbrev StudioReached : Studio Int Unit Nat Nat (Fin 2) → Prop :=
  Reached integers () 8192 smallFrame studioShade studioCommands fun _ => 0

def studioStalled : Studio Int Unit Nat Nat (Fin 2) :=
  [.command idleLines,.command idleLines,.store,.store,.command idleLines].foldl studioAct
    ⟨Queue.start integers studioCommands,paintedStart,none⟩

def studioSplit : Studio Int Unit Nat Nat (Fin 2) := (fun s => studioAct s (.run 0))^[5] studioStalled

def studioClaimed : Studio Int Unit Nat Nat (Fin 2) := (fun s => studioAct s (.run 1))^[2] studioSplit

def studioPassed : Studio Int Unit Nat Nat (Fin 2) := {studioClaimed with canvas := studioClaimed.canvas.passed 1}

def studioReleased : Studio Int Unit Nat Nat (Fin 2) := (fun s => studioAct s (.run 1))^[2] studioPassed

def studioDrained : Studio Int Unit Nat Nat (Fin 2) := (fun s => studioAct s (.run 0))^[8] studioReleased

def studioSynced : Studio Int Unit Nat Nat (Fin 2) := studioAct studioDrained (.command idleLines)

theorem integers_words (x : Int) : Word (integers.convts x) := by
  unfold Word integers
  dsimp only
  omega

instance (s : Studio Int Unit Nat Nat (Fin 2)) (k : Fin 2) : Decidable (s.allowed (.run k)) :=
  inferInstanceAs (Decidable (RoomySplits s.canvas.pipeline.system k))

-- The right angle of the clear is just outside of the frame.
def studioCorner : Fin 4 → Int × Int
  | 0 => (258,-254)
  | 1 => (258,258)
  | 2 => (-254,258)
  | 3 => (0,0)

theorem studio_inner (triangle : ShadedTriangle Nat Nat) (member : triangle ∈ studioClaimed.canvas.published) (tile : Nat) (outer : 16 ≤ tile)
    (inside : tile < 4096) : triangle.covers tile = false := by
  have lanes : ∀ t ∈ studioClaimed.canvas.published, ∀ k, t.triangle.area k = (exactTriangle studioCorner).area k ∧
      t.triangle.area_dx k = (exactTriangle studioCorner).area_dx k ∧ t.triangle.area_dy k = (exactTriangle studioCorner).area_dy k := by
    decide +kernel
  have own := lanes triangle member
  have same : triangle.triangle = exactTriangle studioCorner :=
    (Triangle.mk.injEq ..).mpr ⟨funext fun k => (own k).1,funext fun k => (own k).2.1,funext fun k => (own k).2.2⟩
  unfold ShadedTriangle.covers
  rw [same]
  exact decide_eq_false (outer_passes (v := studioCorner) rfl rfl rfl (by decide) (by decide) (by decide) (by decide) outer inside)

theorem studioSynced_reached : StudioReached studioSynced := by
  have stalled : StudioReached studioStalled :=
    Runs.Reached.follow (.start ⟨_,_,_,rfl⟩) ⟨trivial,trivial,trivial,trivial,trivial,trivial⟩
  have split : StudioReached studioSplit :=
    Runs.Reached.iterate (a := StudioAction.run 0) stalled 5 (by decide +kernel)
  have claimed : StudioReached studioClaimed :=
    Runs.Reached.iterate (a := StudioAction.run 1) split 2 (by decide +kernel)
  have path := (reached_stands smallFrame_apart (by decide) (fun _ => rfl) integers_words claimed).path
  obtain ⟨roomy,beyond⟩ := path.passes smallFrame_apart studio_inner (by decide +kernel : studioClaimed.canvas.scans 1 16 = true)
  have passed : StudioReached studioPassed := by
    refine claimed.step ⟨.run 1,roomy,?_⟩
    unfold studioPassed
    rw [← beyond]
    rfl
  have released : StudioReached studioReleased :=
    Runs.Reached.iterate (a := StudioAction.run 1) passed 2 (by decide +kernel)
  have drained : StudioReached studioDrained :=
    Runs.Reached.iterate (a := StudioAction.run 0) released 8 (by decide +kernel)
  exact drained.step ⟨.command idleLines,trivial,rfl⟩

theorem commands_painted_sync : studioStalled.queue.remaining.length = 1 ∧ studioSynced.queue.finished = studioCommands ∧
    ∃ u, Straight (Drawing.unhindered integers ()) (Drawing.start integers) studioCommands u ∧
      studioSynced.canvas.memory = smallFrame.paintAll ((u.ring 8192).map fun p => studioShade p.drawn) fun _ => 0 := by
  obtain ⟨split,u,straight,_,synced⟩ :=
    commands_painted ⟨by decide,by decide,by decide,by decide⟩ (by decide) (fun _ => rfl) integers_words studioSynced_reached
  have all : studioSynced.queue.remaining.length = 0 := by decide +kernel
  rw [List.length_eq_zero_iff.mp all,List.append_nil] at split
  have stored : studioSynced.storing.isNone = true := by decide +kernel
  refine ⟨by decide +kernel,split.symm,u,split ▸ straight,synced idleLines (Option.isNone_iff_eq_none.mp stored) ?_ ?_⟩
  · decide +kernel
  · decide +kernel

end Studio
end Spugl
