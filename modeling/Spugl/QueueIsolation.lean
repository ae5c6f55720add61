import Spugl.CommandFootprint
import Spugl.Runs

namespace Spugl
open SharedVariables Runs

-- A command queue gets a slot once. The slot goes to other queues before and after.
inductive Life (κ : Type) where
  | unborn
  | live (slot : κ)
  | gone
  deriving DecidableEq

-- `executed` are the commands that returned, and `emitted` the triangles of their
-- handlers. `writer` and `keeping` are history: who wrote a variable last, and the
-- renderable of the buffer that a queue took last and has not written.
structure Primary (F ι κ : Type) where
  globals : Globals F κ
  contexts : κ → Context F
  life : ι → Life κ
  queue : ι → List Request
  executed : ι → List Request
  emitted : ι → List (Drawn F)
  writer : Option κ × Var → Option ι
  keeping : ι → Option Nat

inductive PrimaryAction (ι κ : Type) where
  | allocate (q : ι) (slot : κ)
  | free (q : ι)
  | write (q : ι) (request : Request)
  | turn (q : ι) (room : Bool)

-- Where a variable of a queue in this slot is.
def home (slot : κ) (v : Var) : Option κ × Var := (if v.inContext then some slot else none,v)

section
variable {F ι κ : Type} (spu : PrimarySpu F) [DecidableEq ι] [DecidableEq κ]

namespace Primary

def start : Primary F ι κ where
  globals := .start spu
  contexts := fun _ => .clear spu
  life := fun _ => .unborn
  queue := fun _ => []
  executed := fun _ => []
  emitted := fun _ => []
  writer := fun _ => none
  keeping := fun _ => none

def Begun (s : Primary F ι κ) : Prop := s = start spu

-- The places that a command writes.
def Marks (s : Primary F ι κ) (slot : κ) (request : Request) (l : Option κ × Var) : Prop :=
  l = home slot l.2 ∧ writes spu s.globals (s.contexts slot) request l.2 = true

instance (s : Primary F ι κ) (slot : κ) (request : Request) : DecidablePred (s.Marks spu slot request) :=
  fun _ => inferInstanceAs (Decidable (_ ∧ _))

def finish (s : Primary F ι κ) (q : ι) (slot : κ) (request : Request) (rest : List Request) (done : Handled F κ) : Primary F ι κ where
  globals := done.globals
  contexts := Function.update s.contexts slot done.context
  life := s.life
  queue := Function.update s.queue q rest
  executed := Function.update s.executed q (s.executed q ++ [request])
  emitted := Function.update s.emitted q (s.emitted q ++ done.drawn.toList)
  writer := mark s.writer q (s.Marks spu slot request)
  keeping := if takes (s.contexts slot) request then Function.update s.keeping q (done.globals.kept slot) else s.keeping

-- One command of process_queue. A command that stalls stays in the queue.
def turn (s : Primary F ι κ) (q : ι) (room : Bool) : Primary F ι κ :=
  match s.life q,s.queue q with
  | .live slot,request :: rest =>
    let done := execute spu s.globals slot (s.contexts slot) room request
    if done.stalled then {s with globals := done.globals} else s.finish spu q slot request rest done
  | _,_ => s

def act (s : Primary F ι κ) : PrimaryAction ι κ → Primary F ι κ
  | .allocate q slot => {s with life := Function.update s.life q (.live slot)}
  | .free q => {s with life := Function.update s.life q .gone}
  | .write q request => {s with queue := Function.update s.queue q (s.queue q ++ [request])}
  | .turn q room => s.turn spu q room

def legal (s : Primary F ι κ) : PrimaryAction ι κ → Prop
  | .allocate q slot => s.life q = .unborn ∧ ∀ q', s.life q' ≠ .live slot
  | .free q => s.life q ≠ .unborn
  | .write _ _ | .turn _ _ => True

-- The next command of q uses only what q itself wrote last, or nobody since the start.
def Undisturbed (s : Primary F ι κ) (q : ι) : Prop :=
  match s.life q,s.queue q with
  | .live slot,request :: _ =>
    (∀ v, reads spu s.globals slot (s.contexts slot) request v = true → Own s.writer q (home slot v)) ∧
    (takes (s.contexts slot) request = true → SameBuffer s.globals slot (s.contexts slot) (s.keeping q))
  | _,_ => True

def undisturbed (q : ι) (s : Primary F ι κ) (a : PrimaryAction ι κ) : Prop :=
  s.legal a ∧ ∀ room, a = .turn q room → s.Undisturbed spu q

end Primary

-- The same handlers with one queue, one slot and render SPUs that are never behind.
structure Alone (F : Type) where
  globals : Globals F Unit
  context : Context F
  emitted : List (Drawn F)

def Alone.start : Alone F := ⟨.start spu,.clear spu,[]⟩

def Alone.step (o : Alone F) (request : Request) : Alone F :=
  let done := execute spu o.globals () o.context true request
  ⟨done.globals,done.context,o.emitted ++ done.drawn.toList⟩

def alone (requests : List Request) : Alone F := requests.foldl (Alone.step spu) (Alone.start spu)

theorem alone_append (requests : List Request) (request : Request) :
    alone spu (requests ++ [request]) = (alone spu requests).step spu request := by
  unfold alone
  rw [List.foldl_append]
  rfl

-- What a queue would find by itself it finds wherever no other queue wrote.
structure Isolated (s : Primary F ι κ) (q : ι) : Prop where
  untouched : ∀ slot v, s.writer (home slot v) = none →
    look s.globals (s.contexts slot) v = look (Globals.start spu : Globals F κ) (.clear spu) v
  unborn : s.life q = .unborn → s.executed q = [] ∧ ∀ l, s.writer l ≠ some q
  view : ∀ slot, s.life q = .live slot → AgreeOn (fun v => Own s.writer q (home slot v))
    (look s.globals (s.contexts slot)) (look (alone spu (s.executed q)).globals (alone spu (s.executed q)).context)
  keeping : s.keeping q = (alone spu (s.executed q)).globals.kept ()
  emitted : s.emitted q = (alone spu (s.executed q)).emitted

variable {spu} {s : Primary F ι κ} {q q' : ι} {slot : κ} {request : Request} {rest : List Request} {room : Bool}

omit [DecidableEq ι] [DecidableEq κ] in
theorem look_globals (g : Globals F κ) (context context' : Context F) (v : Var) (shared : v.inContext = false) :
    look g context v = look g context' v := by
  cases v with
  | renderable | size | shader | modelview => cases shared
  | _ => rfl

omit [DecidableEq ι] [DecidableEq κ] in
theorem look_context (g g' : Globals F κ) (context : Context F) (v : Var) (own : v.inContext = true) :
    look g context v = look g' context v := by
  cases v with
  | renderable | size | shader | modelview => rfl
  | _ => cases own

omit [DecidableEq ι] in
-- Nobody finds a change in what a command does not write.
theorem finish_look {v : Var} (unmarked : ¬s.Marks spu slot request (home slot' v)) :
    look (execute spu s.globals slot (s.contexts slot) room request).globals
      (Function.update s.contexts slot (execute spu s.globals slot (s.contexts slot) room request).context slot') v =
        look s.globals (s.contexts slot') v := by
  cases own : v.inContext with
  | true =>
    by_cases same : slot' = slot
    · subst same
      rw [Function.update_self]
      apply execute_frame
      rw [← Bool.not_eq_true]
      exact fun written => unmarked ⟨rfl,written⟩
    · rw [Function.update_of_ne same]
      exact look_context _ _ _ v own
  | false =>
    have unwritten : writes spu s.globals (s.contexts slot) request v = false := by
      rw [← Bool.not_eq_true]
      refine fun written => unmarked ⟨?_,written⟩
      simp [home,own]
    rw [look_globals _ _ (execute spu s.globals slot (s.contexts slot) room request).context v own,
      execute_frame _ _ _ _ _ unwritten]
    exact look_globals _ _ _ v own

omit [DecidableEq ι] [DecidableEq κ] in
theorem start_isolated (q : ι) : Isolated spu (Primary.start spu : Primary F ι κ) q where
  untouched _ _ _ := rfl
  unborn _ := ⟨rfl,fun _ same => by cases same⟩
  view _ live := by cases live
  keeping := rfl
  emitted := rfl

omit [DecidableEq κ] in
-- A new queue finds the slot as it is, and owns in it what nobody has written.
theorem Isolated.allocate (isolated : Isolated spu s q) (unborn : s.life q' = .unborn) (slot : κ) :
    Isolated spu {s with life := Function.update s.life q' (.live slot)} q where
  untouched := isolated.untouched
  unborn still := by
    by_cases same : q = q'
    · subst same
      simp at still
    · exact isolated.unborn ((Function.update_of_ne same _ _).symm.trans still)
  view slot' live := by
    by_cases same : q = q'
    · subst same
      obtain ⟨none,never⟩ := isolated.unborn unborn
      intro v own
      rcases own with untouched | mine
      · rw [none]
        exact (isolated.untouched slot' v untouched).trans (by cases v <;> rfl)
      · exact absurd mine (never _)
    · exact isolated.view slot' ((Function.update_of_ne same _ _).symm.trans live)
  keeping := isolated.keeping
  emitted := isolated.emitted

omit [DecidableEq κ] in
theorem Isolated.free (isolated : Isolated spu s q) (q' : ι) :
    Isolated spu {s with life := Function.update s.life q' .gone} q where
  untouched := isolated.untouched
  unborn still := by
    by_cases same : q = q'
    · subst same
      simp at still
    · exact isolated.unborn ((Function.update_of_ne same _ _).symm.trans still)
  view slot' live := by
    by_cases same : q = q'
    · subst same
      simp at live
    · exact isolated.view slot' ((Function.update_of_ne same _ _).symm.trans live)
  keeping := isolated.keeping
  emitted := isolated.emitted

omit [DecidableEq ι] in
-- A command that stalls is seen by nobody.
theorem Isolated.stall (isolated : Isolated spu s q)
    (stalled : (execute spu s.globals slot (s.contexts slot) room request).stalled = true) :
    Isolated spu {s with globals := (execute spu s.globals slot (s.contexts slot) room request).globals} q where
  untouched slot' v none := (stall_look stalled _ v).trans (isolated.untouched slot' v none)
  unborn := isolated.unborn
  view slot' live v own := (stall_look stalled _ v).trans (isolated.view slot' live v own)
  keeping := isolated.keeping
  emitted := isolated.emitted

omit [DecidableEq ι] in
theorem Isolated.finish_untouched {v : Var} (isolated : Isolated spu s q)
    (none : mark s.writer q' (s.Marks spu slot request) (home slot' v) = none) :
    look (execute spu s.globals slot (s.contexts slot) room request).globals
      (Function.update s.contexts slot (execute spu s.globals slot (s.contexts slot) room request).context slot') v =
        look (Globals.start spu : Globals F κ) (.clear spu) v := by
  by_cases marked : s.Marks spu slot request (home slot' v)
  · rw [mark_written marked] at none
    cases none
  · rw [mark_kept marked] at none
    exact (finish_look marked).trans (isolated.untouched slot' v none)

-- Another queue's command.
theorem Isolated.other (isolated : Isolated spu s q) (other : q' ≠ q) :
    Isolated spu (s.finish spu q' slot request rest (execute spu s.globals slot (s.contexts slot) room request)) q := by
  have executed : (s.finish spu q' slot request rest (execute spu s.globals slot (s.contexts slot) room request)).executed q =
      s.executed q := Function.update_of_ne other.symm _ _
  refine ⟨fun slot' v none => ?_,fun unborn => ?_,fun slot' live' v own => ?_,?_,?_⟩
  · exact isolated.finish_untouched none
  · obtain ⟨none,never⟩ := isolated.unborn unborn
    refine ⟨executed.trans none,fun l mine => ?_⟩
    by_cases marked : s.Marks spu slot request l
    · exact other (Option.some.inj ((mark_written marked).symm.trans mine))
    · exact never l ((mark_kept marked).symm.trans mine)
  · rw [executed]
    obtain ⟨unmarked,own⟩ := own_mark_other other own
    exact (finish_look unmarked).trans (isolated.view slot' live' v own)
  · rw [executed,← isolated.keeping]
    simp only [Primary.finish]
    split
    · exact Function.update_of_ne other.symm _ _
    · rfl
  · rw [executed,← isolated.emitted]
    exact Function.update_of_ne other.symm _ _

-- The queue's own command, which does what it does alone.
theorem Isolated.own (isolated : Isolated spu s q) (live : s.life q = .live slot) (next : s.queue q = request :: rest)
    (undisturbed : s.Undisturbed spu q)
    (finished : (execute spu s.globals slot (s.contexts slot) room request).stalled = false) :
    Isolated spu (s.finish spu q slot request rest (execute spu s.globals slot (s.contexts slot) room request)) q := by
  unfold Primary.Undisturbed at undisturbed
  rw [live,next] at undisturbed
  obtain ⟨read,buffer⟩ := undisturbed
  rw [isolated.keeping] at buffer
  have alike : Alike spu s.globals slot (s.contexts slot) (alone spu (s.executed q)).globals ()
      (alone spu (s.executed q)).context request := ⟨(isolated.view slot live).mono read,buffer⟩
  have step := execute_same alike finished
  have executed : (s.finish spu q slot request rest (execute spu s.globals slot (s.contexts slot) room request)).executed q =
      s.executed q ++ [request] := Function.update_self _ _ _
  refine ⟨fun slot' v none => ?_,fun unborn => ?_,fun slot' live' => ?_,?_,?_⟩
  · exact isolated.finish_untouched none
  · exact absurd (live.symm.trans unborn) (by simp)
  · obtain rfl : slot = slot' := Life.live.inj (live.symm.trans live')
    rw [executed,alone_append]
    have after := (isolated.view slot live).step step.wrote
      (fun v unwritten => execute_frame _ _ _ _ _ (Bool.not_eq_true _ ▸ unwritten))
      (fun v unwritten => execute_frame _ _ _ _ _ ((step.writes v).trans (Bool.not_eq_true _ ▸ unwritten)))
    have here : (s.finish spu q slot request rest (execute spu s.globals slot (s.contexts slot) room request)).contexts slot =
        (execute spu s.globals slot (s.contexts slot) room request).context := Function.update_self _ _ _
    rw [here]
    apply after.mono
    intro v own
    exact (own_mark own).imp And.right id
  · rw [executed,alone_append]
    simp only [Primary.finish,Alone.step]
    cases taking : takes (s.contexts slot) request with
    | true =>
      rw [if_pos rfl,Function.update_self]
      exact (step.kept taking).symm
    | false =>
      rw [if_neg (by simp),isolated.keeping]
      exact (step.left taking).symm
  · rw [executed,alone_append]
    simp only [Primary.finish,Alone.step,Function.update_self]
    rw [step.drawn,isolated.emitted]

theorem act_isolated {a : PrimaryAction ι κ} (isolated : Isolated spu s q) (allowed : Primary.undisturbed spu q s a) :
    Isolated spu (s.act spu a) q := by
  cases a with
  | allocate q' slot => exact isolated.allocate allowed.1.1 slot
  | free q' => exact isolated.free q'
  | write q' request => exact ⟨isolated.untouched,isolated.unborn,isolated.view,isolated.keeping,isolated.emitted⟩
  | turn q' room =>
    simp only [Primary.act,Primary.turn]
    split
    · rename_i slot request rest live next
      split
      · rename_i stalled
        exact isolated.stall stalled
      · rename_i finished
        by_cases mine : q' = q
        · subst mine
          exact isolated.own live next (allowed.2 room rfl) (Bool.not_eq_true _ ▸ finished)
        · exact isolated.other mine
    · exact isolated

theorem run_isolated (path : Runs.Reached (Primary.Begun spu) (Step (Primary.act spu) (Primary.undisturbed spu q)) s) :
    Isolated spu s q := by
  apply path.invariant (fun s => Isolated spu s q)
  · rintro s rfl
    exact start_isolated q
  · rintro s next isolated ⟨a,allowed,rfl⟩
    exact act_isolated isolated allowed

end

section
variable {F ι κ : Type} {spu : PrimarySpu F} [DecidableEq ι] [DecidableEq κ]

instance (g : Globals F κ) (slot : κ) (context : Context F) (own : Option Nat) : Decidable (SameBuffer g slot context own) := by
  unfold SameBuffer
  exact match g.kept slot with
  | some _ => inferInstance
  | none => inferInstance

instance (s : Primary F ι κ) (q : ι) : Decidable (s.Undisturbed spu q) := by
  unfold Primary.Undisturbed
  exact match s.life q,s.queue q with
  | .live _,_ :: _ => inferInstanceAs (Decidable (_ ∧ _))
  | .live _,[] => .isTrue trivial
  | .unborn,_ => .isTrue trivial
  | .gone,_ => .isTrue trivial

instance (s : Primary F (Fin n) κ) : (a : PrimaryAction (Fin n) κ) → Decidable (s.legal a)
  | .allocate _ _ => inferInstanceAs (Decidable (_ ∧ _))
  | .free _ => inferInstanceAs (Decidable (_ ≠ _))
  | .write _ _ | .turn _ _ => .isTrue trivial

instance (s : Primary F (Fin n) κ) (q : Fin n) : (a : PrimaryAction (Fin n) κ) → Decidable (Primary.undisturbed spu q s a)
  | .turn q' room => decidable_of_iff (q' = q → s.Undisturbed spu q)
    ⟨fun own => ⟨trivial,fun _ same => own (PrimaryAction.turn.inj same).1⟩,
      fun both same => both.2 room (congrArg (PrimaryAction.turn · room) same)⟩
  | .allocate q' slot => decidable_of_iff (s.legal (.allocate q' slot)) ⟨fun legal => ⟨legal,fun _ same => by cases same⟩,And.left⟩
  | .free q' => decidable_of_iff (s.legal (.free q')) ⟨fun legal => ⟨legal,fun _ same => by cases same⟩,And.left⟩
  | .write q' request => .isTrue ⟨trivial,fun _ same => by cases same⟩

end

-- Arithmetic on the integers that single precision holds exactly, with w always 1.
def integers : PrimarySpu Int where
  zero := 0
  one := 1
  neg := fun x => -x
  mul := fun x y => x * y
  madd := fun x y z => x * y + z
  recip := fun x => 1 / x
  ofWord := fun n => n
  ofInt := fun n => n
  convts := fun x => max (-2^31) (min (2^31 - 1) (x * 2^19))
  corners := ⟨0,0,0,0,0,0,0,0⟩
  texels := ⟨0,0,0,0⟩
  straySteps := fun _ => ⟨0,0,0,0⟩
  strayShuffle := fun _ old _ => old
  renderables := fun id => ⟨id,4096*(id+1),64,64⟩
  memory_table := fun id => 65536*id

-- A queue runs some commands with room for all its triangles.
def serve (q : Fin 2) (requests : List Request) : List (PrimaryAction (Fin 2) (Fin 2)) :=
  requests.map (.write q) ++ requests.map fun _ => .turn q true

def target (id : Nat) : List Request :=
  [.drawContext id,.loadMatrix FIFO_COMMAND_LOAD_MODELVIEW_MATRIX [1,0,0,0,0,1,0,0,0,0,1,0,0,0,0,1]]

def colours (n : Nat) : List Request := [.colour n n n 1,.texcoord n n 0 1]

def drawing : List Request := [.glBegin 4,.vertex 0 0 0 1,.vertex 16 0 0 1,.vertex 0 16 0 1,.glEnd]

def ran (actions : List (PrimaryAction (Fin 2) (Fin 2))) : Primary Int (Fin 2) (Fin 2) :=
  actions.foldl (Primary.act integers) (Primary.start integers)

theorem ran_reached {allowed : Primary Int (Fin 2) (Fin 2) → PrimaryAction (Fin 2) (Fin 2) → Prop}
    {actions : List (PrimaryAction (Fin 2) (Fin 2))} (admits : Admits (Primary.act integers) allowed (Primary.start integers) actions) :
    Runs.Reached (Primary.Begun integers) (Step (Primary.act integers) allowed) (ran actions) := by
  have begun : Primary.Begun integers (Primary.start integers : Primary Int (Fin 2) (Fin 2)) := rfl
  exact (Runs.Reached.start begun).follow admits

-- Queue 0 by itself, and with queue 1 between its commands and a stall at its first
-- vertex.
def separate : List (PrimaryAction (Fin 2) (Fin 2)) := .allocate 0 0 :: serve 0 (target 1 ++ colours 3 ++ drawing)

def between : List (PrimaryAction (Fin 2) (Fin 2)) :=
  .allocate 1 1 :: serve 1 (target 2 ++ colours 9 ++ drawing) ++ .allocate 0 0 :: serve 0 (target 1) ++ serve 1 drawing ++
    serve 0 (colours 3) ++ drawing.map (.write 0) ++ [.turn 0 true,.turn 0 false] ++ drawing.tail.map fun _ => .turn 0 true

-- Queue 0 sets no colour.
def plain : List (PrimaryAction (Fin 2) (Fin 2)) := .allocate 0 0 :: serve 0 (target 1 ++ drawing)

def coloured : List (PrimaryAction (Fin 2) (Fin 2)) := .allocate 1 1 :: serve 1 (colours 9) ++ plain

section
variable {F ι κ ι' κ' : Type} {spu : PrimarySpu F} [DecidableEq ι] [DecidableEq κ] [DecidableEq ι'] [DecidableEq κ']
  {s : Primary F ι κ} {s' : Primary F ι' κ'} {q : ι} {q' : ι'}

-- Any two runs in which the commands of a queue use nothing that another queue wrote
-- last: the queue's triangles depend on its commands alone.
theorem queues_isolated (path : Runs.Reached (Primary.Begun spu) (Step (Primary.act spu) (Primary.undisturbed spu q)) s)
    (path' : Runs.Reached (Primary.Begun spu) (Step (Primary.act spu) (Primary.undisturbed spu q')) s')
    (same : s.executed q = s'.executed q') : s.emitted q = s'.emitted q' := by
  rw [(run_isolated path).emitted,(run_isolated path').emitted,same]

theorem queues_isolated_drawn : (ran between).emitted 0 = (ran separate).emitted 0 ∧ ((ran separate).emitted 0).length = 1 :=
  ⟨queues_isolated (q := 0) (ran_reached (by decide +kernel)) (ran_reached (by decide +kernel)) (by decide +kernel),
    by decide +kernel⟩

-- current_colour is what queue 1 has left in it.
theorem colours_leak : ¬∀ s s' : Primary Int (Fin 2) (Fin 2),
    Runs.Reached (Primary.Begun integers) (Step (Primary.act integers) Primary.legal) s →
    Runs.Reached (Primary.Begun integers) (Step (Primary.act integers) Primary.legal) s' →
    s.executed 0 = s'.executed 0 → s.emitted 0 = s'.emitted 0 := by
  intro claim
  have same := claim (ran plain) (ran coloured) (ran_reached (by decide +kernel)) (ran_reached (by decide +kernel)) (by decide +kernel)
  have reds := congrArg (List.map fun d => d.corners.TRIr 0) same
  exact absurd reds (by decide +kernel)

end
end Spugl
