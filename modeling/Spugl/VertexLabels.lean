import Spugl.FixedSizes
import Spugl.DrawingRun

namespace Spugl
open Retries

-- A vertex by its glBegin and its number behind it, with the values that imp_vertex
-- puts into the registers for it.
structure Tagged (F : Type) where
  group : Nat
  index : Nat
  s : Float4 F
  col : Float4 F
  tex : Float4 F

-- The vertices that the lanes of the registers hold.
abbrev HeldBy (F : Type) := Fin 4 → Option (Tagged F)

-- A call of imp_triangle by imp_vertex.
structure TriangleCall (F : Type) where
  corners : Corners F
  texels : Texels F
  lanes : HeldBy F

-- The handlers' state. `group`, `index`, `lanes` and `calls` are history.
structure Assembly (F κ : Type) where
  globals : Globals F κ
  context : Context F
  group : Nat
  index : Nat
  lanes : HeldBy F
  calls : List (TriangleCall F)

def Sel.lane (old : HeldBy F) (new : Tagged F) : Sel → Option (Tagged F)
  | .SEL_A k => old k
  | .SEL_B0 => some new
  | .SEL_00 => none

def shuffleLanes (pattern : Nat) (old : HeldBy F) (new : Tagged F) : HeldBy F :=
  match shuffles[pattern]? with
  | some (a,b,c,d) => fun
    | 0 => a.lane old new
    | 1 => b.lane old new
    | 2 => c.lane old new
    | 3 => d.lane old new
  | none => fun _ => none

-- The registers of this lane are those of the vertex.
structure Tagged.At (t : Tagged F) (corners : Corners F) (texels : Texels F) (k : Fin 4) : Prop where
  TRIx : corners.TRIx k = t.s.x
  TRIy : corners.TRIy k = t.s.y
  TRIz : corners.TRIz k = t.s.z
  TRIw : corners.TRIw k = t.s.w
  TRIr : corners.TRIr k = t.col.x
  TRIg : corners.TRIg k = t.col.y
  TRIb : corners.TRIb k = t.col.z
  TRIa : corners.TRIa k = t.col.w
  TRIs : texels.TRIs k = t.tex.x
  TRIt : texels.TRIt k = t.tex.y
  TRIu : texels.TRIu k = t.tex.z
  TRIv : texels.TRIv k = t.tex.w

def Carries (corners : Corners F) (texels : Texels F) (lanes : HeldBy F) : Prop :=
  ∀ k t, lanes k = some t → t.At corners texels k

section
variable {F κ : Type} (spu : PrimarySpu F) [DecidableEq κ] (slot : κ)

-- shuffle_in on the lanes, with the fake point of a quad.
def insertLanes (state : Int) (lanes : HeldBy F) (t : Tagged F) : HeldBy F :=
  let entry := shuffle_map spu state
  let lanes := shuffleLanes entry.insert lanes t
  if entry.add = ADD_TRIANGLE2 then shuffleLanes (shuffle_map spu entry.next).insert lanes t else lanes

namespace Assembly

def start (globals : Globals F κ) (context : Context F) : Assembly F κ := ⟨globals,context,0,0,fun _ => none,[]⟩

def tagged (s : Assembly F κ) (v : Float4 F) : Tagged F :=
  let (p,recip) := position spu s.context.modelview_matrix v
  ⟨s.group,s.index,p,s.globals.current_colour.scale spu recip,s.globals.current_texcoord.scale spu recip⟩

def finish (s : Assembly F κ) (request : Request) (globals : Globals F κ) (context : Context F) : Assembly F κ :=
  match request with
  | .glBegin _ => {s with globals := globals,context := context,group := s.group + 1,index := 0}
  | .vertex x y z w => if s.context.ready then
      let v := floats spu x y z w
      let lanes := insertLanes spu s.globals.current_state s.lanes (s.tagged spu v)
      { globals := globals
        context := context
        group := s.group
        index := s.index + 1
        lanes := lanes
        calls := s.calls ++ if (s.globals.insert spu s.context v).complete then [⟨globals.corners,globals.texels,lanes⟩] else [] }
    else {s with globals := globals,context := context}
  | .clearScreen _ _ _ _ | .glEnd => {s with globals := globals,context := context,lanes := fun _ => none}
  | _ => {s with globals := globals,context := context}

def serve (s : Assembly F κ) (room : Bool) (request : Request) : Bool × Assembly F κ :=
  let done := execute spu s.globals slot s.context room request
  (done.stalled,if done.stalled then {s with globals := done.globals} else s.finish spu request done.globals done.context)

def unhindered (s : Assembly F κ) (request : Request) : Bool × Assembly F κ := s.serve spu slot true request

end Assembly

variable {spu slot} {corners : Corners F} {texels : Texels F} {lanes : HeldBy F}

-- One register, and the values `f` of the vertices in it.
theorem spu_shuffle_lane (f : Tagged F → F) {old : Vec F} (held : ∀ k t, lanes k = some t → old k = f t) (pattern : Nat)
    (new : Tagged F) (k : Fin 4) (t : Tagged F) (at_ : shuffleLanes pattern lanes new k = some t) :
    spu_shuffle spu pattern old (f new) k = f t := by
  have select (sel : Sel) (at_ : sel.lane lanes new = some t) : sel.select spu old (f new) = f t := by
    cases sel with
    | SEL_A k => exact held k t at_
    | SEL_B0 =>
      obtain rfl : new = t := Option.some.inj at_
      rfl
    | SEL_00 => cases at_
  unfold shuffleLanes at at_
  unfold spu_shuffle
  cases entry : shuffles[pattern]? with
  | none =>
    rw [entry] at at_
    cases at_
  | some sels =>
    obtain ⟨a,b,c,d⟩ := sels
    rw [entry] at at_
    fin_cases k
    · exact select a at_
    · exact select b at_
    · exact select c at_
    · exact select d at_

theorem Carries.shuffle_in (carries : Carries corners texels lanes) (pattern : Nat) (t : Tagged F) :
    Carries (corners.shuffle_in spu pattern t.s t.col) (texels.shuffle_in spu pattern t.tex) (shuffleLanes pattern lanes t) := by
  intro k u at_
  exact
    { TRIx := spu_shuffle_lane (fun t => t.s.x) (fun k t at_ => (carries k t at_).TRIx) pattern t k u at_
      TRIy := spu_shuffle_lane (fun t => t.s.y) (fun k t at_ => (carries k t at_).TRIy) pattern t k u at_
      TRIz := spu_shuffle_lane (fun t => t.s.z) (fun k t at_ => (carries k t at_).TRIz) pattern t k u at_
      TRIw := spu_shuffle_lane (fun t => t.s.w) (fun k t at_ => (carries k t at_).TRIw) pattern t k u at_
      TRIr := spu_shuffle_lane (fun t => t.col.x) (fun k t at_ => (carries k t at_).TRIr) pattern t k u at_
      TRIg := spu_shuffle_lane (fun t => t.col.y) (fun k t at_ => (carries k t at_).TRIg) pattern t k u at_
      TRIb := spu_shuffle_lane (fun t => t.col.z) (fun k t at_ => (carries k t at_).TRIb) pattern t k u at_
      TRIa := spu_shuffle_lane (fun t => t.col.w) (fun k t at_ => (carries k t at_).TRIa) pattern t k u at_
      TRIs := spu_shuffle_lane (fun t => t.tex.x) (fun k t at_ => (carries k t at_).TRIs) pattern t k u at_
      TRIt := spu_shuffle_lane (fun t => t.tex.y) (fun k t at_ => (carries k t at_).TRIt) pattern t k u at_
      TRIu := spu_shuffle_lane (fun t => t.tex.z) (fun k t at_ => (carries k t at_).TRIu) pattern t k u at_
      TRIv := spu_shuffle_lane (fun t => t.tex.w) (fun k t at_ => (carries k t at_).TRIv) pattern t k u at_ }

variable (spu) in
theorem Carries.insert (carries : Carries corners texels lanes) (state : Int) (t : Tagged F) :
    Carries (insertVertex spu state corners texels t.s t.col t.tex).corners
      (insertVertex spu state corners texels t.s t.col t.tex).texels (insertLanes spu state lanes t) := by
  unfold insertVertex insertLanes
  by_cases quad : (shuffle_map spu state).add = ADD_TRIANGLE2
  · simp only [quad,if_true]
    exact (carries.shuffle_in _ t).shuffle_in _ t
  · simp only [quad,if_false]
    exact carries.shuffle_in _ t

omit [DecidableEq κ] in
theorem tagged_insert (s : Assembly F κ) (v : Float4 F) :
    s.globals.insert spu s.context v = insertVertex spu s.globals.current_state s.globals.corners s.globals.texels
      (s.tagged spu v).s (s.tagged spu v).col (s.tagged spu v).tex := rfl

end
end Spugl
