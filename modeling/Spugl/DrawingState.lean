import Spugl.CommandEncoding
import Spugl.TriangleSetup

namespace Spugl

abbrev ADD_LINE : Nat := 1
abbrev ADD_TRIANGLE : Nat := 2
abbrev ADD_POINT : Nat := 3
abbrev ADD_TRIANGLE2 : Nat := 4
abbrev NUM_FRAGMENT_UNIFORM_VECTORS : Nat := 16

structure ShuffleEntry where
  next : Nat
  insert : Nat
  end_ : Nat
  add : Nat

structure Float4 (F : Type) where
  x : F
  y : F
  z : F
  w : F
  deriving DecidableEq

-- vec_float4
abbrev Vec (F : Type) := Fin 4 → F

-- The four vectors of a matrix.
structure Matrix (F : Type) where
  x : Vec F
  y : Vec F
  z : Vec F
  w : Vec F

-- The registers that hold positions and colours, and those of the texture.
structure Corners (F : Type) where
  TRIx : Vec F
  TRIy : Vec F
  TRIz : Vec F
  TRIw : Vec F
  TRIr : Vec F
  TRIg : Vec F
  TRIb : Vec F
  TRIa : Vec F

structure Texels (F : Type) where
  TRIs : Vec F
  TRIt : Vec F
  TRIu : Vec F
  TRIv : Vec F

structure Renderable where
  id : Nat
  cacheLine : Nat
  width : Nat
  height : Nat

-- What the handlers take as it is: the arithmetic of the SPU, the registers when its
-- program starts, the bytes around shuffle_map and behind shuffles, and the two
-- tables of the server. `convts` is spu_convts by 19 bits.
structure PrimarySpu (F : Type) where
  zero : F
  one : F
  neg : F → F
  mul : F → F → F
  madd : F → F → F → F
  recip : F → F
  ofWord : Nat → F
  ofInt : Nat → F
  convts : F → Int
  corners : Corners F
  texels : Texels F
  straySteps : Int → ShuffleEntry
  strayShuffle : Nat → Vec F → F → Vec F
  renderables : Nat → Renderable
  memory_table : Nat → Nat

def shuffle_table : List ShuffleEntry := [
  ⟨0,0,0,ADD_POINT⟩,⟨10,0,0,0⟩,⟨11,0,0,0⟩,⟨12,0,0,0⟩,⟨13,0,0,0⟩,
  ⟨14,0,0,0⟩,⟨18,0,0,0⟩,⟨21,0,0,0⟩,⟨24,0,0,0⟩,⟨27,0,0,0⟩,
  ⟨1,1,0,ADD_LINE⟩,⟨11,1,2,ADD_LINE⟩,⟨12,1,0,ADD_LINE⟩,
  ⟨14,3,0,0⟩,⟨4,3,0,ADD_TRIANGLE⟩,
  ⟨16,3,0,0⟩,⟨17,3,0,ADD_TRIANGLE⟩,⟨16,4,0,ADD_TRIANGLE⟩,
  ⟨19,3,0,0⟩,⟨20,3,0,ADD_TRIANGLE⟩,⟨20,5,0,ADD_TRIANGLE⟩,
  ⟨22,6,0,0⟩,⟨23,6,0,0⟩,⟨30,6,0,ADD_TRIANGLE2⟩,
  ⟨22,6,0,0⟩,⟨25,6,0,0⟩,⟨31,6,0,ADD_TRIANGLE2⟩,
  ⟨28,3,0,0⟩,⟨4,3,0,ADD_TRIANGLE⟩,⟨29,7,8,ADD_TRIANGLE⟩,
  ⟨7,10,0,ADD_TRIANGLE⟩,⟨25,9,0,ADD_TRIANGLE⟩]

-- A word of spu_shuffle's result: one of the old vector, the new one, or zero.
inductive Sel where
  | SEL_A (k : Fin 4)
  | SEL_B0
  | SEL_00

def shuffles : List (Sel × Sel × Sel × Sel) := [
  (.SEL_B0,.SEL_B0,.SEL_B0,.SEL_B0),
  (.SEL_A 1,.SEL_B0,.SEL_B0,.SEL_A 3),
  (.SEL_A 1,.SEL_A 3,.SEL_00,.SEL_00),
  (.SEL_A 1,.SEL_A 2,.SEL_B0,.SEL_A 3),
  (.SEL_A 2,.SEL_A 1,.SEL_B0,.SEL_A 3),
  (.SEL_A 0,.SEL_A 2,.SEL_B0,.SEL_A 3),
  (.SEL_A 1,.SEL_A 2,.SEL_A 3,.SEL_B0),
  (.SEL_A 0,.SEL_A 2,.SEL_B0,.SEL_A 3),
  (.SEL_A 0,.SEL_A 1,.SEL_A 3,.SEL_00),
  (.SEL_A 2,.SEL_A 1,.SEL_A 3,.SEL_A 0),
  (.SEL_A 2,.SEL_A 3,.SEL_A 0,.SEL_A 1),
  (.SEL_A 2,.SEL_A 1,.SEL_B0,.SEL_A 0)]

-- The record of one queue slot. None of its fields is reset when the slot gets
-- another queue.
structure Context (F : Type) where
  renderableCacheLine : Nat
  width : Nat
  height : Nat
  pixel_shader_ea : Nat
  pixel_shader_length : Nat
  modelview_matrix : Matrix F
  projection_matrix : Matrix F
  texture_matrix : Matrix F
  fragment_uniform_vectors : Nat → Float4 F

-- What all queues share. currentTriangle is the buffer that is allocated and not
-- written, with the slot of its Context and the cache line that it was read from.
structure Globals (F κ : Type) where
  current_state : Int
  corners : Corners F
  texels : Texels F
  current_colour : Float4 F
  current_texcoord : Float4 F
  current_texture : Nat
  currentTriangle : Option (κ × Nat)

-- A triangle as it is written for the render SPUs of one renderable.
structure Drawn (F : Type) where
  renderableCacheLine : Nat
  triangle : Triangle
  shader_ea : Nat
  shader_length : Nat
  corners : Corners F
  texels : Texels F

-- A handler's return: `stalled` is its non-zero result.
structure Handled (F κ : Type) where
  stalled : Bool
  globals : Globals F κ
  context : Context F
  drawn : Option (Drawn F)

section
variable {F κ : Type} (spu : PrimarySpu F)

-- current_state is -1 outside of glBegin and glEnd, and nothing checks it.
def shuffle_map (state : Int) : ShuffleEntry :=
  match (if 0 ≤ state then shuffle_table[state.toNat]? else none) with
  | some entry => entry
  | none => spu.straySteps state

def Sel.select (old : Vec F) (new : F) : Sel → F
  | .SEL_A k => old k
  | .SEL_B0 => new
  | .SEL_00 => spu.zero

def spu_shuffle (pattern : Nat) (old : Vec F) (new : F) : Vec F :=
  match shuffles[pattern]? with
  | some (a,b,c,d) => fun
    | 0 => a.select spu old new
    | 1 => b.select spu old new
    | 2 => c.select spu old new
    | 3 => d.select spu old new
  | none => spu.strayShuffle pattern old new

-- shuffle_in, for the two groups of registers.
def Corners.shuffle_in (pattern : Nat) (t : Corners F) (s col : Float4 F) : Corners F where
  TRIx := spu_shuffle spu pattern t.TRIx s.x
  TRIy := spu_shuffle spu pattern t.TRIy s.y
  TRIz := spu_shuffle spu pattern t.TRIz s.z
  TRIw := spu_shuffle spu pattern t.TRIw s.w
  TRIr := spu_shuffle spu pattern t.TRIr col.x
  TRIg := spu_shuffle spu pattern t.TRIg col.y
  TRIb := spu_shuffle spu pattern t.TRIb col.z
  TRIa := spu_shuffle spu pattern t.TRIa col.w

def Texels.shuffle_in (pattern : Nat) (t : Texels F) (tex : Float4 F) : Texels F where
  TRIs := spu_shuffle spu pattern t.TRIs tex.x
  TRIt := spu_shuffle spu pattern t.TRIt tex.y
  TRIu := spu_shuffle spu pattern t.TRIu tex.z
  TRIv := spu_shuffle spu pattern t.TRIv tex.w

def zeros : Float4 F := ⟨spu.zero,spu.zero,spu.zero,spu.zero⟩

-- A static Context.
def Context.clear : Context F :=
  let zero : Vec F := fun _ => spu.zero
  ⟨0,0,0,0,0,⟨zero,zero,zero,zero⟩,⟨zero,zero,zero,zero⟩,⟨zero,zero,zero,zero⟩,fun _ => zeros spu⟩

def Globals.start : Globals F κ where
  current_state := -1
  corners := spu.corners
  texels := spu.texels
  current_colour := ⟨spu.one,spu.one,spu.one,spu.one⟩
  current_texcoord := ⟨spu.zero,spu.zero,spu.zero,spu.one⟩
  current_texture := 0
  currentTriangle := none

-- The vertex after the modelview matrix and the division, and what its colour and
-- its texture coordinates are divided by.
def position (m : Matrix F) (v : Float4 F) : Float4 F × F :=
  let matres : Vec F := fun k =>
    spu.madd v.x (m.x k) (spu.madd v.y (m.y k) (spu.madd v.z (m.z k) (spu.mul v.w (m.w k))))
  let recip := spu.recip (matres 3)
  (⟨spu.mul (matres 0) recip,spu.mul (matres 1) recip,spu.mul (matres 2) recip,recip⟩,recip)

def Float4.scale (v : Float4 F) (recip : F) : Float4 F :=
  ⟨spu.mul v.x recip,spu.mul v.y recip,spu.mul v.z recip,spu.mul v.w recip⟩

-- imp_triangle on the registers.
def Corners.triangle (t : Corners F) : Option Triangle :=
  imp_triangle (fun k => spu.convts (t.TRIx k)) (fun k => spu.convts (t.TRIy k))

-- shuffle_in and the switch of imp_vertex. The fake point of a quad follows at once.
structure Assembled (F : Type) where
  state : Int
  corners : Corners F
  texels : Texels F
  complete : Bool

def insertVertex (state : Int) (corners : Corners F) (texels : Texels F) (s col tex : Float4 F) : Assembled F :=
  let entry := shuffle_map spu state
  let corners := corners.shuffle_in spu entry.insert s col
  let texels := texels.shuffle_in spu entry.insert tex
  if entry.add = ADD_TRIANGLE2 then
    let fake := shuffle_map spu entry.next
    ⟨fake.next,corners.shuffle_in spu fake.insert s col,texels.shuffle_in spu fake.insert tex,true⟩
  else ⟨entry.next,corners,texels,decide (entry.add = ADD_TRIANGLE)⟩

def Globals.insert (g : Globals F κ) (context : Context F) (v : Float4 F) : Assembled F :=
  let (s,recip) := position spu context.modelview_matrix v
  insertVertex spu g.current_state g.corners g.texels s (g.current_colour.scale spu recip) (g.current_texcoord.scale spu recip)

variable [DecidableEq κ]

-- The buffer that is allocated for this Context.
def Globals.kept (g : Globals F κ) (slot : κ) : Option Nat :=
  g.currentTriangle.bind fun held => if held.1 = slot then some held.2 else none

-- `room` is what the cache line shows of the render SPUs' progress.
def getTriangleBuffer (g : Globals F κ) (slot : κ) (context : Context F) (room : Bool) : Globals F κ × Option Nat :=
  match g.kept slot with
  | some target => (g,some target)
  | none =>
    if context.renderableCacheLine = 0 || !room then ({g with currentTriangle := none},none)
    else ({g with currentTriangle := some (slot,context.renderableCacheLine)},some context.renderableCacheLine)

-- An invisible triangle leaves the buffer as it is.
def writeTriangleBuffer (g : Globals F κ) (context : Context F) (target shader_ea shader_length : Nat) : Handled F κ :=
  match g.corners.triangle spu with
  | some triangle => ⟨false,{g with currentTriangle := none},context,some ⟨target,triangle,shader_ea,shader_length,g.corners,g.texels⟩⟩
  | none => ⟨false,g,context,none⟩

def imp_vertex (g : Globals F κ) (slot : κ) (context : Context F) (room : Bool) (v : Float4 F) : Handled F κ :=
  if context.renderableCacheLine = 0 then ⟨false,g,context,none⟩ else
  match getTriangleBuffer g slot context room with
  | (g,none) => ⟨true,g,context,none⟩
  | (g,some target) =>
    let put := g.insert spu context v
    let g := {g with current_state := put.state,corners := put.corners,texels := put.texels}
    if put.complete then writeTriangleBuffer spu g context target context.pixel_shader_ea context.pixel_shader_length
    else ⟨false,g,context,none⟩

-- A triangle that covers the frame.
def clearCorners (width height : Nat) (col : Float4 F) : Corners F :=
  let w := spu.ofInt width
  let h := spu.ofInt height
  { TRIx := fun | 0 => w | 1 => w | 2 => spu.neg w | 3 => spu.zero
    TRIy := fun | 0 => spu.neg h | 1 => h | 2 => h | 3 => spu.zero
    TRIz := fun _ => spu.zero
    TRIw := fun _ => spu.one
    TRIr := fun _ => col.x
    TRIg := fun _ => col.y
    TRIb := fun _ => col.z
    TRIa := fun _ => col.w }

def imp_clear_screen (g : Globals F κ) (slot : κ) (context : Context F) (room : Bool) (col : Float4 F) : Handled F κ :=
  match getTriangleBuffer g slot context room with
  | (g,none) => ⟨true,g,context,none⟩
  | (g,some target) =>
    writeTriangleBuffer spu {g with corners := clearCorners spu context.width context.height col} context target 0 1

def imp_validate_state (state : Nat) : Bool := decide (state < 32) && decide ((shuffle_map spu state).insert = 0)

-- The vertex of the closing shuffle is not set; patterns 2 and 8 do not take it.
def imp_close_segment (g : Globals F κ) : Globals F κ :=
  let closing := (shuffle_map spu g.current_state).end_
  if closing = 0 then g
  else {g with corners := g.corners.shuffle_in spu closing (zeros spu) (zeros spu),texels := g.texels.shuffle_in spu closing (zeros spu)}

def imp_glEnd (g : Globals F κ) : Globals F κ :=
  {(if g.current_state < 0 then g else imp_close_segment spu g) with current_state := -1}

def loadMatrix (entries : List Nat) : Matrix F :=
  let row (i : Nat) : Vec F := fun k => spu.ofWord (entries.getD (4*i+k) 0)
  ⟨row 0,row 1,row 2,row 3⟩

def imp_draw_context (context : Context F) (id : Nat) : Context F :=
  let renderable := spu.renderables (id % 32)
  if renderable.id = id then
    {context with renderableCacheLine := renderable.cacheLine,width := renderable.width,height := renderable.height}
  else {context with renderableCacheLine := 0}

def floats (x y z w : Nat) : Float4 F := ⟨spu.ofWord x,spu.ofWord y,spu.ofWord z,spu.ofWord w⟩

-- One call of a handler. A JUMP counts as returned, since process_queue takes it.
def execute (g : Globals F κ) (slot : κ) (context : Context F) (room : Bool) : Request → Handled F κ
  | .nop | .jump _ | .poke _ _ _ | .glFlush => ⟨false,g,context,none⟩
  | .glSync => ⟨!room,g,context,none⟩
  | .loadMatrix command entries =>
    if command = FIFO_COMMAND_LOAD_MODELVIEW_MATRIX then ⟨false,g,{context with modelview_matrix := loadMatrix spu entries},none⟩
    else if command = FIFO_COMMAND_LOAD_PROJECTION_MATRIX then
      ⟨false,g,{context with projection_matrix := loadMatrix spu entries},none⟩
    else ⟨false,g,{context with texture_matrix := loadMatrix spu entries},none⟩
  | .drawContext id => ⟨false,g,imp_draw_context spu context id,none⟩
  | .vertexAttrib which x y z w =>
    if which < NUM_FRAGMENT_UNIFORM_VECTORS then
      ⟨false,g,{context with fragment_uniform_vectors := Function.update context.fragment_uniform_vectors which (floats spu x y z w)},
        none⟩
    else ⟨false,g,context,none⟩
  | .glBegin state => ⟨false,if imp_validate_state spu state then {g with current_state := state} else g,context,none⟩
  | .glEnd => ⟨false,imp_glEnd spu g,context,none⟩
  | .vertex x y z w => imp_vertex spu g slot context room (floats spu x y z w)
  | .colour x y z w => ⟨false,{g with current_colour := floats spu x y z w},context,none⟩
  | .texcoord x y z w => ⟨false,{g with current_texcoord := floats spu x y z w},context,none⟩
  | .bindTexture texture => ⟨false,{g with current_texture := texture},context,none⟩
  | .clearScreen x y z w => imp_clear_screen spu g slot context room (floats spu x y z w)
  | .selectPixelShader bufid offset length =>
    ⟨false,g,{context with pixel_shader_ea := spu.memory_table (bufid % 256) + offset,pixel_shader_length := length},none⟩

end
end Spugl
