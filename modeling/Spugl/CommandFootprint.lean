import Spugl.DrawingState
import Spugl.SharedVariables

namespace Spugl
open SharedVariables

-- What the handlers keep from one command to the next and use in a triangle.
inductive Var where
  | current_state
  | corners
  | texels
  | current_colour
  | current_texcoord
  | renderable
  | size
  | shader
  | modelview
  deriving DecidableEq

def Var.all : List Var :=
  [.current_state,.corners,.texels,.current_colour,.current_texcoord,.renderable,.size,.shader,.modelview]

theorem Var.mem_all (v : Var) : v ∈ Var.all := by cases v <;> decide

instance (p : Var → Prop) [DecidablePred p] : Decidable (∀ v, p v) :=
  decidable_of_iff (∀ v ∈ Var.all, p v) ⟨fun all v => all v (Var.mem_all v),fun all v _ => all v⟩

def Var.inContext : Var → Bool
  | .renderable | .size | .shader | .modelview => true
  | .current_state | .corners | .texels | .current_colour | .current_texcoord => false

def Var.Value (F : Type) : Var → Type
  | .current_state => Int
  | .corners => Corners F
  | .texels => Texels F
  | .current_colour | .current_texcoord => Float4 F
  | .renderable => Nat
  | .size | .shader => Nat × Nat
  | .modelview => Matrix F

section
variable {F κ κ' : Type} (spu : PrimarySpu F) [DecidableEq κ] [DecidableEq κ']

def look (g : Globals F κ) (context : Context F) : (v : Var) → v.Value F
  | .current_state => g.current_state
  | .corners => g.corners
  | .texels => g.texels
  | .current_colour => g.current_colour
  | .current_texcoord => g.current_texcoord
  | .renderable => context.renderableCacheLine
  | .size => (context.width,context.height)
  | .shader => (context.pixel_shader_ea,context.pixel_shader_length)
  | .modelview => context.modelview_matrix

-- The closing shuffle of glEnd.
def Globals.closes (g : Globals F κ) : Bool := decide (0 ≤ g.current_state) && decide ((shuffle_map spu g.current_state).end_ ≠ 0)

def Context.ready (context : Context F) : Bool := decide (context.renderableCacheLine ≠ 0)

-- The variables whose values a command uses. The registers count only where they are
-- not all replaced, and the shader and the texture only where a triangle comes out.
-- What glSync looks at decides about its stall alone.
def reads (g : Globals F κ) (slot : κ) (context : Context F) : Request → Var → Bool
  | .vertex x y z w,v =>
    let put := g.insert spu context (floats spu x y z w)
    match v with
    | .renderable => true
    | .current_state | .current_colour | .current_texcoord | .modelview => context.ready
    | .corners | .texels => context.ready && decide ((shuffle_map spu g.current_state).insert ≠ 0)
    | .shader => context.ready && put.complete && (put.corners.triangle spu).isSome
    | .size => false
  | .clearScreen x y z w,v =>
    match v with
    | .renderable => decide (g.kept slot = none)
    | .size => true
    | .texels => ((clearCorners spu context.width context.height (floats spu x y z w)).triangle spu).isSome
    | _ => false
  | .glEnd,v =>
    match v with
    | .current_state => true
    | .corners | .texels => g.closes spu
    | _ => false
  | _,_ => false

def writes (g : Globals F κ) (context : Context F) : Request → Var → Bool
  | .vertex _ _ _ _,v =>
    match v with
    | .current_state | .corners | .texels => context.ready
    | _ => false
  | .clearScreen _ _ _ _,v => decide (v = .corners)
  | .glBegin state,v => decide (v = .current_state) && imp_validate_state spu state
  | .glEnd,v =>
    match v with
    | .current_state => true
    | .corners | .texels => g.closes spu
    | _ => false
  | .colour _ _ _ _,v => decide (v = .current_colour)
  | .texcoord _ _ _ _,v => decide (v = .current_texcoord)
  | .loadMatrix command _,v => decide (v = .modelview) && decide (command = FIFO_COMMAND_LOAD_MODELVIEW_MATRIX)
  | .drawContext id,v =>
    match v with
    | .renderable => true
    | .size => decide ((spu.renderables (id % 32)).id = id)
    | _ => false
  | .selectPixelShader _ _ _,v => decide (v = .shader)
  | _,_ => false

-- The commands that take the triangle buffer.
def takes (context : Context F) : Request → Bool
  | .vertex _ _ _ _ => context.ready
  | .clearScreen _ _ _ _ => true
  | _ => false

-- A buffer that is held for the Context is the other side's too; where none is held
-- the other side's, if it has one, is for the renderable of the Context.
def SameBuffer (g : Globals F κ) (slot : κ) (context : Context F) (own : Option Nat) : Prop :=
  match g.kept slot with
  | some target => own = some target
  | none => own.getD context.renderableCacheLine = context.renderableCacheLine

variable {spu} {g h : Globals F κ} {g' : Globals F κ'} {slot : κ} {slot' : κ'} {context context' : Context F} {room : Bool}

theorem kept_holding (g : Globals F κ) (slot : κ) (target : Nat) :
    ({g with currentTriangle := some (slot,target)} : Globals F κ).kept slot = some target := by
  simp [Globals.kept]

theorem held_of_kept (kept : g.kept slot = some target) : g.currentTriangle = some (slot,target) := by
  obtain ⟨held,found,same⟩ := Option.bind_eq_some_iff.mp kept
  split at same
  · rename_i mine
    cases same
    rw [found,← mine]
  · cases same

-- A buffer is the held one, or a fresh one of the renderable.
theorem buffer_taken (taken : getTriangleBuffer g slot context room = (h,some target)) :
    h = {g with currentTriangle := some (slot,target)} ∧
      (g.kept slot = some target ∨ g.kept slot = none ∧ context.renderableCacheLine = target ∧ target ≠ 0) := by
  unfold getTriangleBuffer at taken
  split at taken
  · rename_i held kept
    cases taken
    refine ⟨?_,.inl kept⟩
    rw [← held_of_kept kept]
  · rename_i kept
    split at taken
    · cases taken
    · rename_i free
      cases taken
      refine ⟨rfl,.inr ⟨kept,rfl,?_⟩⟩
      intro zero
      exact free (by simp [zero])

theorem buffer_holding (kept : g.kept slot = some target) :
    getTriangleBuffer g slot context room = ({g with currentTriangle := some (slot,target)},some target) := by
  unfold getTriangleBuffer
  rw [kept,← held_of_kept kept]

theorem buffer_fresh (kept : g.kept slot = none) (drawable : context.renderableCacheLine ≠ 0) :
    getTriangleBuffer g slot context true =
      ({g with currentTriangle := some (slot,context.renderableCacheLine)},some context.renderableCacheLine) := by
  unfold getTriangleBuffer
  rw [kept]
  simp [drawable]

theorem buffer_same (taken : getTriangleBuffer g slot context room = (h,some target))
    (same : SameBuffer g slot context (g'.kept slot'))
    (agree : g.kept slot = none → context'.renderableCacheLine = context.renderableCacheLine) :
    getTriangleBuffer g' slot' context' true = ({g' with currentTriangle := some (slot',target)},some target) := by
  obtain ⟨_,kept | ⟨kept,rfl,drawable⟩⟩ := buffer_taken taken
  · unfold SameBuffer at same
    rw [kept] at same
    exact buffer_holding same
  · have equal := agree kept
    unfold SameBuffer at same
    rw [kept] at same
    cases own : g'.kept slot' with
    | some t =>
      rw [own] at same
      rw [← same]
      exact buffer_holding own
    | none =>
      rw [← equal]
      apply buffer_fresh own
      rw [equal]
      exact drawable

-- Pattern 0 takes nothing from the old registers.
theorem corners_replaced (t t' : Corners F) (s col : Float4 F) : t.shuffle_in spu 0 s col = t'.shuffle_in spu 0 s col := rfl

theorem texels_replaced (t t' : Texels F) (tex : Float4 F) : t.shuffle_in spu 0 tex = t'.shuffle_in spu 0 tex := rfl

theorem insertVertex_same {corners corners' : Corners F} {texels texels' : Texels F} (s col tex : Float4 F)
    (same : (shuffle_map spu state).insert ≠ 0 → corners = corners' ∧ texels = texels') :
    insertVertex spu state corners texels s col tex = insertVertex spu state corners' texels' s col tex := by
  by_cases first : (shuffle_map spu state).insert = 0
  · unfold insertVertex
    simp only [first,corners_replaced corners corners',texels_replaced texels texels']
  · obtain ⟨rfl,rfl⟩ := same first
    rfl

-- Taking and writing the buffer changes nothing but the buffer.
theorem buffer_look (taken : getTriangleBuffer g slot context room = (h,answer)) (other : Context F) (v : Var) :
    look h other v = look g other v := by
  unfold getTriangleBuffer at taken
  split at taken
  · cases taken; rfl
  · split at taken
    · cases taken; cases v <;> rfl
    · cases taken; cases v <;> rfl

omit [DecidableEq κ] in
theorem write_look (g : Globals F κ) (context : Context F) (target shader_ea shader_length : Nat) (v : Var) :
    look (writeTriangleBuffer spu g context target shader_ea shader_length).globals
      (writeTriangleBuffer spu g context target shader_ea shader_length).context v = look g context v := by
  unfold writeTriangleBuffer
  split
  · cases v <;> rfl
  · rfl

theorem vertex_frame (g : Globals F κ) (slot : κ) (context : Context F) (room : Bool) (p : Float4 F)
    (state : context.ready = true → v ≠ .current_state) (corners : context.ready = true → v ≠ .corners)
    (texels : context.ready = true → v ≠ .texels) :
    look (imp_vertex spu g slot context room p).globals (imp_vertex spu g slot context room p).context v = look g context v := by
  unfold imp_vertex
  split
  · rfl
  · rename_i drawable
    have ready : context.ready = true := by simpa [Context.ready] using drawable
    split
    · rename_i h taken
      exact buffer_look taken context v
    · rename_i h target taken
      have same : look {h with
          current_state := (h.insert spu context p).state
          corners := (h.insert spu context p).corners
          texels := (h.insert spu context p).texels} context v = look h context v := by
        cases v with
        | current_state => exact absurd rfl (state ready)
        | corners => exact absurd rfl (corners ready)
        | texels => exact absurd rfl (texels ready)
        | _ => rfl
      rw [← buffer_look taken context v,← same]
      simp only
      split
      · rw [write_look]
      · rfl

theorem clear_frame (g : Globals F κ) (slot : κ) (context : Context F) (room : Bool) (col : Float4 F) (other : v ≠ .corners) :
    look (imp_clear_screen spu g slot context room col).globals (imp_clear_screen spu g slot context room col).context v =
      look g context v := by
  unfold imp_clear_screen
  split
  · rename_i h taken
    exact buffer_look taken context v
  · rename_i h target taken
    rw [write_look,← buffer_look taken context v]
    cases v with
    | corners => exact absurd rfl other
    | _ => rfl

omit [DecidableEq κ] in
theorem glEnd_closes (closes : g.closes spu = true) :
    imp_glEnd spu g = {g with
      corners := g.corners.shuffle_in spu (shuffle_map spu g.current_state).end_ (zeros spu) (zeros spu)
      texels := g.texels.shuffle_in spu (shuffle_map spu g.current_state).end_ (zeros spu)
      current_state := -1} := by
  simp only [Globals.closes,Bool.and_eq_true,decide_eq_true_eq] at closes
  unfold imp_glEnd imp_close_segment
  rw [if_neg (Int.not_lt.mpr closes.1),if_neg closes.2]

omit [DecidableEq κ] in
theorem glEnd_leaves (leaves : g.closes spu = false) : imp_glEnd spu g = {g with current_state := -1} := by
  simp only [Globals.closes,Bool.and_eq_false_iff,decide_eq_false_iff_not,Decidable.not_not] at leaves
  unfold imp_glEnd imp_close_segment
  split
  · rfl
  · rename_i inside
    rw [if_pos (leaves.resolve_left fun negative => inside (Int.not_le.mp negative))]

theorem glEnd_kept (g : Globals F κ) (slot : κ) : (imp_glEnd spu g).kept slot = g.kept slot := by
  cases closes : g.closes spu with
  | true => rw [glEnd_closes closes]; rfl
  | false => rw [glEnd_leaves closes]; rfl

-- A command changes only what it writes.
theorem execute_frame (g : Globals F κ) (slot : κ) (context : Context F) (room : Bool) (request : Request)
    (unwritten : writes spu g context request v = false) :
    look (execute spu g slot context room request).globals (execute spu g slot context room request).context v =
      look g context v := by
  cases request with
  | vertex x y z w =>
    apply vertex_frame
    · rintro ready rfl; simp [writes,ready] at unwritten
    · rintro ready rfl; simp [writes,ready] at unwritten
    · rintro ready rfl; simp [writes,ready] at unwritten
  | clearScreen x y z w =>
    apply clear_frame
    rintro rfl
    simp [writes] at unwritten
  | glBegin state =>
    simp only [execute]
    split
    · rename_i valid
      cases v with
      | current_state => simp [writes,valid] at unwritten
      | _ => rfl
    · rfl
  | glEnd =>
    simp only [execute]
    cases closes : g.closes spu with
    | true =>
      rw [glEnd_closes closes]
      cases v with
      | current_state | corners | texels => simp [writes,closes] at unwritten
      | _ => rfl
    | false =>
      rw [glEnd_leaves closes]
      cases v with
      | current_state => simp [writes] at unwritten
      | _ => rfl
  | loadMatrix command entries =>
    simp only [execute]
    split
    · rename_i modelview
      cases v with
      | modelview => simp [writes,modelview] at unwritten
      | _ => rfl
    · split
      · cases v <;> rfl
      · cases v <;> rfl
  | drawContext id =>
    simp only [execute,imp_draw_context]
    split
    · rename_i found
      cases v with
      | renderable => simp [writes] at unwritten
      | size => simp [writes,found] at unwritten
      | _ => rfl
    · cases v with
      | renderable => simp [writes] at unwritten
      | _ => rfl
  | vertexAttrib which x y z w =>
    simp only [execute]
    split
    · cases v <;> rfl
    · rfl
  | colour x y z w =>
    cases v with
    | current_colour => simp [writes] at unwritten
    | _ => rfl
  | texcoord x y z w =>
    cases v with
    | current_texcoord => simp [writes] at unwritten
    | _ => rfl
  | bindTexture texture => cases v <;> rfl
  | selectPixelShader bufid offset length =>
    cases v with
    | shader => simp [writes] at unwritten
    | _ => rfl
  | _ => rfl

theorem write_kept (visible : (g.corners.triangle spu).isSome = true) (target a b : Nat) :
    (writeTriangleBuffer spu g context target a b).globals.kept slot = none := by
  obtain ⟨triangle,found⟩ := Option.isSome_iff_exists.mp visible
  unfold writeTriangleBuffer
  rw [found]
  rfl

omit [DecidableEq κ] in
theorem write_left (invisible : g.corners.triangle spu = none) (target a b : Nat) :
    writeTriangleBuffer spu g context target a b = ⟨false,g,context,none⟩ := by
  unfold writeTriangleBuffer
  rw [invisible]

omit [DecidableEq κ] in
theorem write_finished (g : Globals F κ) (context : Context F) (target a b : Nat) :
    (writeTriangleBuffer spu g context target a b).stalled = false := by
  unfold writeTriangleBuffer
  split
  · rfl
  · rfl

-- Both sides write the same triangle, and hold the same buffer afterwards.
theorem write_same {h : Globals F κ} {h' : Globals F κ'} (context context' : Context F) (target a b a' b' : Nat)
    (kept : h.kept slot = h'.kept slot') (corners : h.corners = h'.corners)
    (used : (h.corners.triangle spu).isSome = true → h.texels = h'.texels ∧ a = a' ∧ b = b') :
    (writeTriangleBuffer spu h' context' target a' b').drawn = (writeTriangleBuffer spu h context target a b).drawn ∧
      (writeTriangleBuffer spu h' context' target a' b').globals.kept slot' =
        (writeTriangleBuffer spu h context target a b).globals.kept slot := by
  cases out : h.corners.triangle spu with
  | some triangle =>
    have visible : (h.corners.triangle spu).isSome = true := by rw [out]; rfl
    obtain ⟨texels,rfl,rfl⟩ := used visible
    have visible' := visible
    rw [corners] at visible'
    rw [write_kept visible,write_kept visible']
    refine ⟨?_,rfl⟩
    unfold writeTriangleBuffer
    rw [← corners,← texels,out]
  | none =>
    have out' := out
    rw [corners] at out'
    rw [write_left out,write_left out']
    exact ⟨rfl,kept.symm⟩

-- One command on two sides that agree on what it reads.
structure Alike (spu : PrimarySpu F) (g : Globals F κ) (slot : κ) (context : Context F) (g' : Globals F κ') (slot' : κ')
    (context' : Context F) (request : Request) : Prop where
  agree : AgreeOn (fun v => reads spu g slot context request v = true) (look g context) (look g' context')
  buffer : takes context request = true → SameBuffer g slot context (g'.kept slot')

-- What comes of it, when the first side does not stall.
structure SameStep (spu : PrimarySpu F) (g : Globals F κ) (slot : κ) (context : Context F) (g' : Globals F κ') (slot' : κ')
    (context' : Context F) (request : Request) (done : Handled F κ) (done' : Handled F κ') : Prop where
  finished : done'.stalled = false
  drawn : done'.drawn = done.drawn
  writes : ∀ v, writes spu g' context' request v = writes spu g context request v
  wrote : AgreeOn (fun v => Spugl.writes spu g context request v = true) (look done.globals done.context)
    (look done'.globals done'.context)
  kept : takes context request = true → done'.globals.kept slot' = done.globals.kept slot
  left : takes context request = false → done'.globals.kept slot' = g'.kept slot'

omit [DecidableEq κ] [DecidableEq κ'] in
theorem insert_same (state : g.current_state = g'.current_state) (colour : g.current_colour = g'.current_colour)
    (texcoord : g.current_texcoord = g'.current_texcoord) (modelview : context.modelview_matrix = context'.modelview_matrix)
    (registers : (shuffle_map spu g.current_state).insert ≠ 0 → g.corners = g'.corners ∧ g.texels = g'.texels) (p : Float4 F) :
    g.insert spu context p = g'.insert spu context' p := by
  unfold Globals.insert
  rw [← state,← colour,← texcoord,← modelview]
  exact insertVertex_same _ _ _ registers

-- The registers and the state after a vertex, with the buffer still to be written.
def Globals.put (g : Globals F κ) (slot : κ) (target : Nat) (a : Assembled F) : Globals F κ :=
  {g with current_state := a.state,corners := a.corners,texels := a.texels,currentTriangle := some (slot,target)}

theorem vertex_taken (drawable : context.renderableCacheLine ≠ 0)
    (taken : getTriangleBuffer g slot context room = ({g with currentTriangle := some (slot,target)},some target)) (p : Float4 F) :
    imp_vertex spu g slot context room p =
      if (g.insert spu context p).complete then writeTriangleBuffer spu (g.put slot target (g.insert spu context p)) context target
        context.pixel_shader_ea context.pixel_shader_length
      else ⟨false,g.put slot target (g.insert spu context p),context,none⟩ := by
  unfold imp_vertex
  rw [if_neg drawable,taken]
  rfl

theorem vertex_same (alike : Alike spu g slot context g' slot' context' (.vertex x y z w))
    (finished : (execute spu g slot context room (.vertex x y z w)).stalled = false) :
    SameStep spu g slot context g' slot' context' (.vertex x y z w) (execute spu g slot context room (.vertex x y z w))
      (execute spu g' slot' context' true (.vertex x y z w)) := by
  have same : context.renderableCacheLine = context'.renderableCacheLine := alike.agree .renderable rfl
  by_cases drawable : context.renderableCacheLine = 0
  · have drawable' : context'.renderableCacheLine = 0 := by rw [← same]; exact drawable
    have idle : context.ready = false := by simp [Context.ready,drawable]
    have idle' : context'.ready = false := by simp [Context.ready,drawable']
    simp only [execute,imp_vertex,drawable,drawable',if_true]
    refine ⟨rfl,rfl,fun v => ?_,fun v written => ?_,fun taken => ?_,fun _ => rfl⟩
    · cases v <;> simp [writes,idle,idle']
    · cases v <;> simp [writes,idle] at written
    · simp [takes,idle] at taken
  · have ready : context.ready = true := by simpa [Context.ready] using drawable
    have ready' : context'.ready = true := by simpa [Context.ready,same] using drawable
    have put : g.insert spu context (floats spu x y z w) = g'.insert spu context' (floats spu x y z w) := by
      apply insert_same
      · exact alike.agree .current_state ready
      · exact alike.agree .current_colour ready
      · exact alike.agree .current_texcoord ready
      · exact alike.agree .modelview ready
      · intro old
        have read : (context.ready && decide ((shuffle_map spu g.current_state).insert ≠ 0)) = true := by simp [ready,old]
        exact ⟨alike.agree .corners read,alike.agree .texels read⟩
    simp only [execute] at finished ⊢
    -- The vertex did not stall, so it had a buffer.
    cases got : getTriangleBuffer g slot context room with
    | mk h answer =>
      cases answer with
      | none =>
        unfold imp_vertex at finished
        rw [if_neg drawable,got] at finished
        cases finished
      | some target =>
        obtain ⟨rfl,_⟩ := buffer_taken got
        have got' := buffer_same got (alike.buffer ready) (fun _ => same.symm)
        have drawable' : context'.renderableCacheLine ≠ 0 := by rw [← same]; exact drawable
        rw [vertex_taken drawable got,vertex_taken drawable' got',← put]
        generalize made : g.insert spu context (floats spu x y z w) = a
        have kept : (g.put slot target a).kept slot = (g'.put slot' target a).kept slot' := by
          simp [Globals.put,Globals.kept]
        have steps : ∀ v, writes spu g' context' (.vertex x y z w) v = writes spu g context (.vertex x y z w) v := by
          intro v
          cases v <;> simp [writes,ready,ready']
        have wrote : AgreeOn (fun v => writes spu g context (.vertex x y z w) v = true) (look (g.put slot target a) context)
            (look (g'.put slot' target a) context') := by
          intro v written
          cases v with
          | current_state | corners | texels => rfl
          | _ => simp [writes] at written
        by_cases complete : a.complete = true
        · rw [if_pos complete,if_pos complete]
          have shader (visible : (a.corners.triangle spu).isSome = true) :
              context.pixel_shader_ea = context'.pixel_shader_ea ∧ context.pixel_shader_length = context'.pixel_shader_length := by
            have read : (context.ready && a.complete && (a.corners.triangle spu).isSome) = true := by
              rw [ready,complete,visible]
              rfl
            rw [← made] at read
            exact Prod.mk.inj (alike.agree .shader read)
          have written := write_same context context' target context.pixel_shader_ea context.pixel_shader_length
            context'.pixel_shader_ea context'.pixel_shader_length kept rfl (fun visible => ⟨rfl,shader visible⟩)
          exact ⟨write_finished _ _ _ _ _,written.1,steps,fun v w => by rw [write_look,write_look]; exact wrote v w,
            fun _ => written.2,fun idle => by simp [takes,ready] at idle⟩
        · rw [if_neg complete,if_neg complete]
          exact ⟨rfl,rfl,steps,wrote,fun _ => kept.symm,fun idle => by simp [takes,ready] at idle⟩

theorem clear_taken (taken : getTriangleBuffer g slot context room = ({g with currentTriangle := some (slot,target)},some target))
    (col : Float4 F) :
    imp_clear_screen spu g slot context room col =
      writeTriangleBuffer spu {g with
        corners := clearCorners spu context.width context.height col
        currentTriangle := some (slot,target)} context target 0 1 := by
  unfold imp_clear_screen
  rw [taken]

theorem clear_same (alike : Alike spu g slot context g' slot' context' (.clearScreen x y z w))
    (finished : (execute spu g slot context room (.clearScreen x y z w)).stalled = false) :
    SameStep spu g slot context g' slot' context' (.clearScreen x y z w) (execute spu g slot context room (.clearScreen x y z w))
      (execute spu g' slot' context' true (.clearScreen x y z w)) := by
  obtain ⟨width,height⟩ := Prod.mk.inj (alike.agree .size rfl)
  simp only [execute] at finished ⊢
  cases got : getTriangleBuffer g slot context room with
  | mk h answer =>
    cases answer with
    | none =>
      unfold imp_clear_screen at finished
      rw [got] at finished
      cases finished
    | some target =>
      obtain ⟨rfl,_⟩ := buffer_taken got
      have got' := buffer_same got (alike.buffer rfl) (fun none => (alike.agree .renderable (decide_eq_true none)).symm)
      rw [clear_taken got,clear_taken got',← width,← height]
      have kept := (kept_holding {g with corners := clearCorners spu context.width context.height (floats spu x y z w)} slot
        target).trans (kept_holding {g' with corners := clearCorners spu context.width context.height (floats spu x y z w)} slot'
        target).symm
      have written := write_same context context' target 0 1 0 1 kept rfl (fun visible => ⟨alike.agree .texels visible,rfl,rfl⟩)
      refine ⟨write_finished _ _ _ _ _,written.1,fun v => rfl,fun v w => ?_,fun _ => written.2,fun idle => by cases idle⟩
      rw [write_look,write_look]
      obtain rfl : v = .corners := of_decide_eq_true w
      rfl

theorem glEnd_same (alike : Alike spu g slot context g' slot' context' .glEnd) :
    SameStep spu g slot context g' slot' context' .glEnd (execute spu g slot context room .glEnd)
      (execute spu g' slot' context' true .glEnd) := by
  have state : g.current_state = g'.current_state := alike.agree .current_state rfl
  have closes : g'.closes spu = g.closes spu := by unfold Globals.closes; rw [state]
  refine ⟨rfl,rfl,fun v => ?_,fun v written => ?_,fun taken => (nomatch taken),fun _ => glEnd_kept g' slot'⟩
  · cases v with
    | corners | texels => exact closes
    | _ => rfl
  · cases v with
    | current_state => rfl
    | corners =>
      have corners : g.corners = g'.corners := alike.agree .corners written
      simp only [execute,glEnd_closes written,glEnd_closes (closes.trans written),look,state,corners]
      rfl
    | texels =>
      have texels : g.texels = g'.texels := alike.agree .texels written
      simp only [execute,glEnd_closes written,glEnd_closes (closes.trans written),look,state,texels]
      rfl
    | _ => cases written

-- A command that does not stall does the same on any side that agrees on what it
-- reads, one that has room for its triangles included.
theorem execute_same (alike : Alike spu g slot context g' slot' context' request)
    (finished : (execute spu g slot context room request).stalled = false) :
    SameStep spu g slot context g' slot' context' request (execute spu g slot context room request)
      (execute spu g' slot' context' true request) := by
  cases request with
  | vertex x y z w => exact vertex_same alike finished
  | clearScreen x y z w => exact clear_same alike finished
  | glEnd => exact glEnd_same alike
  | glBegin state =>
    refine ⟨rfl,rfl,fun _ => rfl,fun v written => ?_,fun taken => (nomatch taken),fun _ => ?_⟩
    · obtain ⟨place,valid⟩ := Bool.and_eq_true_iff.mp written
      obtain rfl : v = .current_state := of_decide_eq_true place
      simp only [execute,if_pos valid]
      rfl
    · simp only [execute]
      split
      · rfl
      · rfl
  | loadMatrix command entries =>
    simp only [execute]
    split
    · refine ⟨rfl,rfl,fun _ => rfl,fun v written => ?_,fun taken => (nomatch taken),fun _ => rfl⟩
      obtain rfl : v = .modelview := of_decide_eq_true (Bool.and_eq_true_iff.mp written).1
      rfl
    · rename_i other
      have none (v : Var) : writes spu g context (.loadMatrix command entries) v = false := by simp [writes,other]
      split
      · exact ⟨rfl,rfl,fun _ => rfl,fun v written => absurd written (by simp [none]),fun taken => (nomatch taken),fun _ => rfl⟩
      · exact ⟨rfl,rfl,fun _ => rfl,fun v written => absurd written (by simp [none]),fun taken => (nomatch taken),fun _ => rfl⟩
  | drawContext id =>
    refine ⟨rfl,rfl,fun _ => rfl,fun v written => ?_,fun taken => (nomatch taken),fun _ => rfl⟩
    simp only [execute,imp_draw_context]
    cases v with
    | renderable =>
      split
      · rfl
      · rfl
    | size =>
      rw [if_pos (of_decide_eq_true written),if_pos (of_decide_eq_true written)]
      rfl
    | _ => cases written
  | selectPixelShader bufid offset length =>
    refine ⟨rfl,rfl,fun _ => rfl,fun v written => ?_,fun taken => (nomatch taken),fun _ => rfl⟩
    obtain rfl : v = .shader := of_decide_eq_true written
    rfl
  | colour x y z w =>
    refine ⟨rfl,rfl,fun _ => rfl,fun v written => ?_,fun taken => (nomatch taken),fun _ => rfl⟩
    obtain rfl : v = .current_colour := of_decide_eq_true written
    rfl
  | texcoord x y z w =>
    refine ⟨rfl,rfl,fun _ => rfl,fun v written => ?_,fun taken => (nomatch taken),fun _ => rfl⟩
    obtain rfl : v = .current_texcoord := of_decide_eq_true written
    rfl
  | vertexAttrib which x y z w =>
    simp only [execute]
    split
    · exact ⟨rfl,rfl,fun _ => rfl,fun v written => (nomatch written),fun taken => (nomatch taken),fun _ => rfl⟩
    · exact ⟨rfl,rfl,fun _ => rfl,fun v written => (nomatch written),fun taken => (nomatch taken),fun _ => rfl⟩
  | _ => exact ⟨rfl,rfl,fun _ => rfl,fun v written => (nomatch written),fun taken => (nomatch taken),fun _ => rfl⟩

-- A stall changes the buffer at most.
theorem stall_look (stalled : (execute spu g slot context room request).stalled = true) (other : Context F) (v : Var) :
    look (execute spu g slot context room request).globals other v = look g other v := by
  cases request with
  | vertex x y z w =>
    simp only [execute,imp_vertex] at stalled ⊢
    split at stalled
    · cases stalled
    · rename_i drawable
      rw [if_neg drawable]
      split at stalled
      · rename_i taken
        exact buffer_look taken other v
      · split at stalled
        · rw [write_finished] at stalled
          cases stalled
        · cases stalled
  | clearScreen x y z w =>
    simp only [execute,imp_clear_screen] at stalled ⊢
    split at stalled
    · rename_i taken
      exact buffer_look taken other v
    · rw [write_finished] at stalled
      cases stalled
  | loadMatrix command entries =>
    simp only [execute] at stalled
    split at stalled
    · cases stalled
    · split at stalled
      · cases stalled
      · cases stalled
  | vertexAttrib which x y z w =>
    simp only [execute] at stalled
    split at stalled
    · cases stalled
    · cases stalled
  | glSync => rfl
  | _ => cases stalled

end
end Spugl
