import Spugl.FixedSizes
import Spugl.CommandQueue

namespace Spugl
open CommandFraming

@[match_pattern] abbrev FIFO_COMMAND_LOAD_MODELVIEW_MATRIX : Nat := 2
@[match_pattern] abbrev FIFO_COMMAND_LOAD_PROJECTION_MATRIX : Nat := 3
@[match_pattern] abbrev FIFO_COMMAND_LOAD_TEXTURE_MATRIX : Nat := 4
@[match_pattern] abbrev FIFO_COMMAND_POKE : Nat := 5
@[match_pattern] abbrev FIFO_COMMAND_DRAW_CONTEXT : Nat := 6
@[match_pattern] abbrev FIFO_COMMAND_LOAD_VERTEX_ATTRIB_1 : Nat := 7
@[match_pattern] abbrev FIFO_COMMAND_LOAD_VERTEX_ATTRIB_2 : Nat := 8
@[match_pattern] abbrev FIFO_COMMAND_LOAD_VERTEX_ATTRIB_3 : Nat := 9
@[match_pattern] abbrev FIFO_COMMAND_LOAD_VERTEX_ATTRIB_4 : Nat := 10
@[match_pattern] abbrev FIFO_COMMAND_GL_BEGIN : Nat := 15
@[match_pattern] abbrev FIFO_COMMAND_GL_END : Nat := 16
@[match_pattern] abbrev FIFO_COMMAND_GL_VERTEX2 : Nat := 17
@[match_pattern] abbrev FIFO_COMMAND_GL_VERTEX3 : Nat := 18
@[match_pattern] abbrev FIFO_COMMAND_GL_VERTEX4 : Nat := 19
@[match_pattern] abbrev FIFO_COMMAND_GL_COLOR3 : Nat := 20
@[match_pattern] abbrev FIFO_COMMAND_GL_COLOR4 : Nat := 21
@[match_pattern] abbrev FIFO_COMMAND_GL_TEX_COORD2 : Nat := 22
@[match_pattern] abbrev FIFO_COMMAND_GL_TEX_COORD3 : Nat := 23
@[match_pattern] abbrev FIFO_COMMAND_GL_TEX_COORD4 : Nat := 24
@[match_pattern] abbrev FIFO_COMMAND_OLD_GL_BIND_TEXTURE : Nat := 25
@[match_pattern] abbrev FIFO_COMMAND_GL_SYNC : Nat := 26
@[match_pattern] abbrev FIFO_COMMAND_GL_FLUSH : Nat := 27
@[match_pattern] abbrev FIFO_COMMAND_CLEAR_SCREEN : Nat := 28
@[match_pattern] abbrev FIFO_COMMAND_SELECT_PIXEL_SHADER : Nat := 29

-- What is left open of floating point: the word of a value, a byte over 255.0, and
-- the words of 0.0f and 1.0f.
structure FloatWords (F : Type) where
  word : F → Nat
  per255 : Nat → F
  zero : Nat
  one : Nat

-- The entry points that write the FIFO. A matrix has 16 entries.
inductive Call (F : Type) where
  | spuglNop
  | spuglDrawContext (target : Nat)
  | glLoadMatrixd (mat : Fin 16 → F)
  | glLoadMatrixf (mat : Fin 16 → F)
  | glLoadIdentity
  | glVertexAttrib1fv (index : Nat) (mat : Fin 1 → F)
  | glVertexAttrib2fv (index : Nat) (mat : Fin 2 → F)
  | glVertexAttrib3fv (index : Nat) (mat : Fin 3 → F)
  | glVertexAttrib4fv (index : Nat) (mat : Fin 4 → F)
  | glVertexAttrib1f (index : Nat) (x : F)
  | glVertexAttrib2f (index : Nat) (x y : F)
  | glVertexAttrib3f (index : Nat) (x y z : F)
  | glVertexAttrib4f (index : Nat) (x y z w : F)
  | glBegin (type : Nat)
  | glEnd
  | glVertex2f (x y : F)
  | glVertex3f (x y z : F)
  | glColor3f (r g b : F)
  | glColor4f (r g b a : F)
  | glColor3ub (r g b : Nat)
  | glColor4ub (r g b a : Nat)
  | glTexCoord2f (s t : F)
  | glTexCoord3f (s t u : F)
  | glTexCoord4f (s t u v : F)
  | glFlush
  | spuglClearScreen (r g b a : Nat)
  | spuglSelectPixelShader_ (bufferid offset length : Nat)
  | spuglPoke (buffer value : Nat)

-- One BEGIN_RING with the words written up to the next one.
structure Ring where
  command : Nat
  size : Nat
  data : List Nat

def Ring.words (r : Ring) : List Nat := beginRing r.command r.size :: r.data

-- What a handler makes of its words. Floats are kept as the words they are.
inductive Request where
  | nop
  | jump (target : Nat)
  | poke (bufid offset value : Nat)
  | loadMatrix (command : Nat) (entries : List Nat)
  | drawContext (id : Nat)
  | vertexAttrib (which : Nat) (x y z w : Nat)
  | glBegin (state : Nat)
  | glEnd
  | vertex (x y z w : Nat)
  | colour (x y z w : Nat)
  | texcoord (x y z w : Nat)
  | bindTexture (texture : Nat)
  | glSync
  | glFlush
  | clearScreen (x y z w : Nat)
  | selectPixelShader (bufid offset length : Nat)
  deriving DecidableEq

section
variable {F : Type} (float : FloatWords F) (libspe2 : Bool) (bufferBase : Nat → Option (Nat × Nat))

-- OUT_RINGf for each entry of an array.
def outRingf (mat : Fin n → F) : List Nat := (List.finRange n).map fun i => float.word (mat i)

def identity : List Nat :=
  [float.one,float.zero,float.zero,float.zero,float.zero,float.one,float.zero,float.zero,
    float.zero,float.zero,float.one,float.zero,float.zero,float.zero,float.zero,float.one]

-- `bufferBase` is spuglBufferBaseAddress, with the id and the base of the buffer;
-- `libspe2` is the build option USE_LIBSPE2.
def rings : Call F → List Ring
  | .spuglNop => [⟨FIFO_COMMAND_NOP,0,[]⟩]
  | .spuglDrawContext target => [⟨FIFO_COMMAND_DRAW_CONTEXT,1,[target]⟩]
  | .glLoadMatrixd mat => [⟨FIFO_COMMAND_LOAD_MODELVIEW_MATRIX,16,outRingf float mat⟩]
  | .glLoadMatrixf mat => [⟨FIFO_COMMAND_LOAD_MODELVIEW_MATRIX,16,outRingf float mat⟩]
  | .glLoadIdentity => [⟨FIFO_COMMAND_LOAD_MODELVIEW_MATRIX,16,identity float⟩]
  | .glVertexAttrib1fv _ mat => [⟨FIFO_COMMAND_LOAD_VERTEX_ATTRIB_1,2,outRingf float mat⟩]
  | .glVertexAttrib2fv _ mat => [⟨FIFO_COMMAND_LOAD_VERTEX_ATTRIB_2,3,outRingf float mat⟩]
  | .glVertexAttrib3fv _ mat => [⟨FIFO_COMMAND_LOAD_VERTEX_ATTRIB_3,4,outRingf float mat⟩]
  | .glVertexAttrib4fv _ mat => [⟨FIFO_COMMAND_LOAD_VERTEX_ATTRIB_4,5,outRingf float mat⟩]
  | .glVertexAttrib1f _ x => [⟨FIFO_COMMAND_LOAD_VERTEX_ATTRIB_1,2,[float.word x]⟩]
  | .glVertexAttrib2f _ x y => [⟨FIFO_COMMAND_LOAD_VERTEX_ATTRIB_2,3,[float.word x,float.word y]⟩]
  | .glVertexAttrib3f _ x y z => [⟨FIFO_COMMAND_LOAD_VERTEX_ATTRIB_3,4,[float.word x,float.word y,float.word z]⟩]
  | .glVertexAttrib4f _ x y z w => [⟨FIFO_COMMAND_LOAD_VERTEX_ATTRIB_4,5,[float.word x,float.word y,float.word z,float.word w]⟩]
  | .glBegin type => [⟨FIFO_COMMAND_GL_BEGIN,1,[type]⟩]
  | .glEnd => [⟨FIFO_COMMAND_GL_END,0,[]⟩]
  | .glVertex2f x y => [⟨FIFO_COMMAND_GL_VERTEX2,2,[float.word x,float.word y]⟩]
  | .glVertex3f x y z => [⟨FIFO_COMMAND_GL_VERTEX3,3,[float.word x,float.word y,float.word z]⟩]
  | .glColor3f r g b => [⟨FIFO_COMMAND_GL_COLOR3,3,[float.word r,float.word g,float.word b]⟩]
  | .glColor4f r g b a => [⟨FIFO_COMMAND_GL_COLOR4,3,[float.word r,float.word g,float.word b,float.word a]⟩]
  | .glColor3ub r g b =>
    [⟨FIFO_COMMAND_GL_COLOR3,3,[float.word (float.per255 r),float.word (float.per255 g),float.word (float.per255 b)]⟩]
  | .glColor4ub r g b a => [⟨FIFO_COMMAND_GL_COLOR4,4,[float.word (float.per255 r),float.word (float.per255 g),
      float.word (float.per255 b),float.word (float.per255 a)]⟩]
  | .glTexCoord2f s t => [⟨FIFO_COMMAND_GL_TEX_COORD2,2,[float.word s,float.word t]⟩]
  | .glTexCoord3f s t u => [⟨FIFO_COMMAND_GL_TEX_COORD3,3,[float.word s,float.word t,float.word u]⟩]
  | .glTexCoord4f s t u v => [⟨FIFO_COMMAND_GL_TEX_COORD4,4,[float.word s,float.word t,float.word u,float.word v]⟩]
  | .glFlush => if libspe2 then [⟨FIFO_COMMAND_GL_SYNC,0,[]⟩,⟨FIFO_COMMAND_GL_FLUSH,0,[]⟩] else [⟨FIFO_COMMAND_GL_SYNC,0,[]⟩]
  | .spuglClearScreen r g b a => [⟨FIFO_COMMAND_CLEAR_SCREEN,4,[float.word (float.per255 r),float.word (float.per255 g),
      float.word (float.per255 b),float.word (float.per255 a)]⟩]
  | .spuglSelectPixelShader_ bufferid offset length => [⟨FIFO_COMMAND_SELECT_PIXEL_SHADER,3,[bufferid,offset,length]⟩]
  | .spuglPoke buffer value => match bufferBase buffer with
    | some (bufid,base) => [⟨FIFO_COMMAND_POKE,3,[bufid,buffer - base,value]⟩]
    | none => []

-- The handlers, as far as they read their words: `data i` is the word at from[i].
def handle (command : Nat) (data : Nat → Nat) : Option Request :=
  match command with
  | FIFO_COMMAND_NOP => some .nop
  | FIFO_COMMAND_JUMP => some (.jump (data 0))
  | FIFO_COMMAND_LOAD_MODELVIEW_MATRIX => some (.loadMatrix FIFO_COMMAND_LOAD_MODELVIEW_MATRIX ((List.range 16).map data))
  | FIFO_COMMAND_LOAD_PROJECTION_MATRIX => some (.loadMatrix FIFO_COMMAND_LOAD_PROJECTION_MATRIX ((List.range 16).map data))
  | FIFO_COMMAND_LOAD_TEXTURE_MATRIX => some (.loadMatrix FIFO_COMMAND_LOAD_TEXTURE_MATRIX ((List.range 16).map data))
  | FIFO_COMMAND_POKE => some (.poke (data 0) (data 1) (data 2))
  | FIFO_COMMAND_DRAW_CONTEXT => some (.drawContext (data 0))
  | FIFO_COMMAND_LOAD_VERTEX_ATTRIB_1 => some (.vertexAttrib (data 0) (data 1) float.zero float.zero float.one)
  | FIFO_COMMAND_LOAD_VERTEX_ATTRIB_2 => some (.vertexAttrib (data 0) (data 1) (data 2) float.zero float.one)
  | FIFO_COMMAND_LOAD_VERTEX_ATTRIB_3 => some (.vertexAttrib (data 0) (data 1) (data 2) (data 3) float.one)
  | FIFO_COMMAND_LOAD_VERTEX_ATTRIB_4 => some (.vertexAttrib (data 0) (data 1) (data 2) (data 3) (data 4))
  | FIFO_COMMAND_GL_BEGIN => some (.glBegin (data 0))
  | FIFO_COMMAND_GL_END => some .glEnd
  | FIFO_COMMAND_GL_VERTEX2 => some (.vertex (data 0) (data 1) float.zero float.one)
  | FIFO_COMMAND_GL_VERTEX3 => some (.vertex (data 0) (data 1) (data 2) float.one)
  | FIFO_COMMAND_GL_VERTEX4 => some (.vertex (data 0) (data 1) (data 2) (data 3))
  | FIFO_COMMAND_GL_COLOR3 => some (.colour (data 0) (data 1) (data 2) float.one)
  | FIFO_COMMAND_GL_COLOR4 => some (.colour (data 0) (data 1) (data 2) (data 3))
  | FIFO_COMMAND_GL_TEX_COORD2 => some (.texcoord (data 0) (data 1) float.zero float.one)
  | FIFO_COMMAND_GL_TEX_COORD3 => some (.texcoord (data 0) (data 1) (data 2) float.one)
  | FIFO_COMMAND_GL_TEX_COORD4 => some (.texcoord (data 0) (data 1) (data 2) (data 3))
  | FIFO_COMMAND_OLD_GL_BIND_TEXTURE => some (.bindTexture (data 1))
  | FIFO_COMMAND_GL_SYNC => some .glSync
  | FIFO_COMMAND_GL_FLUSH => some .glFlush
  | FIFO_COMMAND_CLEAR_SCREEN => some (.clearScreen (data 0) (data 1) (data 2) (data 3))
  | FIFO_COMMAND_SELECT_PIXEL_SHADER => some (.selectPixelShader (data 0) (data 1) (data 2))
  | _ => none

-- What each call asks for, in its own arguments.
def requested : Call F → List Request
  | .spuglNop => [.nop]
  | .spuglDrawContext target => [.drawContext target]
  | .glLoadMatrixd mat => [.loadMatrix FIFO_COMMAND_LOAD_MODELVIEW_MATRIX (outRingf float mat)]
  | .glLoadMatrixf mat => [.loadMatrix FIFO_COMMAND_LOAD_MODELVIEW_MATRIX (outRingf float mat)]
  | .glLoadIdentity => [.loadMatrix FIFO_COMMAND_LOAD_MODELVIEW_MATRIX (identity float)]
  | .glVertexAttrib1fv index mat => [.vertexAttrib index (float.word (mat 0)) float.zero float.zero float.one]
  | .glVertexAttrib2fv index mat => [.vertexAttrib index (float.word (mat 0)) (float.word (mat 1)) float.zero float.one]
  | .glVertexAttrib3fv index mat => [.vertexAttrib index (float.word (mat 0)) (float.word (mat 1)) (float.word (mat 2)) float.one]
  | .glVertexAttrib4fv index mat =>
    [.vertexAttrib index (float.word (mat 0)) (float.word (mat 1)) (float.word (mat 2)) (float.word (mat 3))]
  | .glVertexAttrib1f index x => [.vertexAttrib index (float.word x) float.zero float.zero float.one]
  | .glVertexAttrib2f index x y => [.vertexAttrib index (float.word x) (float.word y) float.zero float.one]
  | .glVertexAttrib3f index x y z => [.vertexAttrib index (float.word x) (float.word y) (float.word z) float.one]
  | .glVertexAttrib4f index x y z w => [.vertexAttrib index (float.word x) (float.word y) (float.word z) (float.word w)]
  | .glBegin type => [.glBegin type]
  | .glEnd => [.glEnd]
  | .glVertex2f x y => [.vertex (float.word x) (float.word y) float.zero float.one]
  | .glVertex3f x y z => [.vertex (float.word x) (float.word y) (float.word z) float.one]
  | .glColor3f r g b => [.colour (float.word r) (float.word g) (float.word b) float.one]
  | .glColor4f r g b a => [.colour (float.word r) (float.word g) (float.word b) (float.word a)]
  | .glColor3ub r g b =>
    [.colour (float.word (float.per255 r)) (float.word (float.per255 g)) (float.word (float.per255 b)) float.one]
  | .glColor4ub r g b a => [.colour (float.word (float.per255 r)) (float.word (float.per255 g)) (float.word (float.per255 b))
      (float.word (float.per255 a))]
  | .glTexCoord2f s t => [.texcoord (float.word s) (float.word t) float.zero float.one]
  | .glTexCoord3f s t u => [.texcoord (float.word s) (float.word t) (float.word u) float.one]
  | .glTexCoord4f s t u v => [.texcoord (float.word s) (float.word t) (float.word u) (float.word v)]
  | .glFlush => if libspe2 then [.glSync,.glFlush] else [.glSync]
  | .spuglClearScreen r g b a => [.clearScreen (float.word (float.per255 r)) (float.word (float.per255 g))
      (float.word (float.per255 b)) (float.word (float.per255 a))]
  | .spuglSelectPixelShader_ bufferid offset length => [.selectPixelShader bufferid offset length]
  | .spuglPoke buffer value => match bufferBase buffer with
    | some (bufid,base) => [.poke bufid (buffer - base) value]
    | none => []

def allRings (calls : List (Call F)) : List Ring := calls.flatMap (rings float libspe2 bufferBase)

def encoded (calls : List (Call F)) : List (List Nat) := (allRings float libspe2 bufferBase calls).map Ring.words

def stream (calls : List (Call F)) : List Nat := (encoded float libspe2 bufferBase calls).flatten

-- The stream splits into one command for each BEGIN_RING, and the handler of each,
-- with `from` at the word behind its header, reads what the call asked for.
structure Agrees (calls : List (Call F)) : Prop where
  framed : split cmdSize (stream float libspe2 bufferBase calls).length (stream float libspe2 bufferBase calls) =
    some (encoded float libspe2 bufferBase calls)
  counted : (encoded float libspe2 bufferBase calls).length = (calls.flatMap (requested float libspe2 bufferBase)).length
  read : ∀ k cmd, (encoded float libspe2 bufferBase calls)[k]?.bind List.head? = some cmd →
    handle float (cmdNumber cmd)
      (fun i => (stream float libspe2 bufferBase calls).getD (start (encoded float libspe2 bufferBase calls) k + 1 + i) 0) =
      (calls.flatMap (requested float libspe2 bufferBase))[k]?

end

-- The calls that declare another number of words than they write.
def Call.misdeclared : Call F → Bool
  | .glVertexAttrib1fv _ _ | .glVertexAttrib2fv _ _ | .glVertexAttrib3fv _ _ | .glVertexAttrib4fv _ _ => true
  | .glVertexAttrib1f _ _ | .glVertexAttrib2f _ _ _ | .glVertexAttrib3f _ _ _ _ | .glVertexAttrib4f _ _ _ _ _ => true
  | .glColor4f _ _ _ _ => true
  | _ => false

-- A BEGIN_RING whose size is the number of its words, and which its handler reads as
-- the request.
structure Ring.Serves (float : FloatWords F) (r : Ring) (request : Request) : Prop where
  named : r.command < 2^24
  counted : r.data.length = r.size
  reads : ∀ data : Nat → Nat, (∀ i w, r.data[i]? = some w → data i = w) → handle float r.command data = some request

section
variable {F : Type} {float : FloatWords F} {libspe2 : Bool} {bufferBase : Nat → Option (Nat × Nat)} {command : Nat}

theorem Ring.Serves.whole {r : Ring} (serves : r.Serves float request) : Whole cmdSize r.words :=
  ⟨_,_,rfl,by rw [cmdSize_beginRing serves.named,serves.counted]⟩

-- Handlers by the number of words they take.
theorem serves_none {request : Request} (named : command < 2^24) (handled : ∀ data, handle float command data = some request) :
    Ring.Serves float ⟨command,0,[]⟩ request :=
  ⟨named,rfl,fun data _ => handled data⟩

theorem serves_one {f : Nat → Request} (named : command < 2^24) (handled : ∀ data, handle float command data = some (f (data 0)))
    (a : Nat) : Ring.Serves float ⟨command,1,[a]⟩ (f a) := by
  refine ⟨named,rfl,fun data read => ?_⟩
  rw [handled,read 0 a rfl]

theorem serves_two {f : Nat → Nat → Request} (named : command < 2^24)
    (handled : ∀ data, handle float command data = some (f (data 0) (data 1))) (a b : Nat) :
    Ring.Serves float ⟨command,2,[a,b]⟩ (f a b) := by
  refine ⟨named,rfl,fun data read => ?_⟩
  rw [handled,read 0 a rfl,read 1 b rfl]

theorem serves_three {f : Nat → Nat → Nat → Request} (named : command < 2^24)
    (handled : ∀ data, handle float command data = some (f (data 0) (data 1) (data 2))) (a b c : Nat) :
    Ring.Serves float ⟨command,3,[a,b,c]⟩ (f a b c) := by
  refine ⟨named,rfl,fun data read => ?_⟩
  rw [handled,read 0 a rfl,read 1 b rfl,read 2 c rfl]

theorem serves_four {f : Nat → Nat → Nat → Nat → Request} (named : command < 2^24)
    (handled : ∀ data, handle float command data = some (f (data 0) (data 1) (data 2) (data 3))) (a b c d : Nat) :
    Ring.Serves float ⟨command,4,[a,b,c,d]⟩ (f a b c d) := by
  refine ⟨named,rfl,fun data read => ?_⟩
  rw [handled,read 0 a rfl,read 1 b rfl,read 2 c rfl,read 3 d rfl]

theorem matrix_serves {entries : List Nat} (counted : entries.length = 16) :
    Ring.Serves float ⟨FIFO_COMMAND_LOAD_MODELVIEW_MATRIX,16,entries⟩ (.loadMatrix FIFO_COMMAND_LOAD_MODELVIEW_MATRIX entries) := by
  refine ⟨(by decide : 2 < 2^24),counted,fun data read => ?_⟩
  have same : (List.range 16).map data = entries := by
    apply List.ext_getElem
    · rw [List.length_map,List.length_range,counted]
    · intro i _ inside
      rw [List.getElem_map,List.getElem_range]
      exact read i entries[i] (List.getElem?_eq_getElem inside)
  show some (Request.loadMatrix 2 ((List.range 16).map data)) = _
  rw [same]

theorem outRingf_length (mat : Fin n → F) : (outRingf float mat).length = n := by
  unfold outRingf
  rw [List.length_map,List.length_finRange]

variable (float libspe2 bufferBase) in
theorem rings_serve (call : Call F) (good : call.misdeclared = false) :
    List.Forall₂ (Ring.Serves float) (rings float libspe2 bufferBase call) (requested float libspe2 bufferBase call) := by
  cases call with
  | spuglNop => exact .cons (serves_none (by decide) fun _ => rfl) .nil
  | spuglDrawContext target => exact .cons (serves_one (by decide) (fun _ => rfl) _) .nil
  | glLoadMatrixd mat => exact .cons (matrix_serves (outRingf_length mat)) .nil
  | glLoadMatrixf mat => exact .cons (matrix_serves (outRingf_length mat)) .nil
  | glLoadIdentity => exact .cons (matrix_serves rfl) .nil
  | glBegin type => exact .cons (serves_one (by decide) (fun _ => rfl) _) .nil
  | glEnd => exact .cons (serves_none (by decide) fun _ => rfl) .nil
  | glVertex2f x y => exact .cons (serves_two (f := fun x y => .vertex x y _ _) (by decide) (fun _ => rfl) _ _) .nil
  | glVertex3f x y z => exact .cons (serves_three (f := fun x y z => .vertex x y z _) (by decide) (fun _ => rfl) _ _ _) .nil
  | glColor3f r g b => exact .cons (serves_three (f := fun x y z => .colour x y z _) (by decide) (fun _ => rfl) _ _ _) .nil
  | glColor3ub r g b => exact .cons (serves_three (f := fun x y z => .colour x y z _) (by decide) (fun _ => rfl) _ _ _) .nil
  | glColor4ub r g b a => exact .cons (serves_four (by decide) (fun _ => rfl) _ _ _ _) .nil
  | glTexCoord2f s t => exact .cons (serves_two (f := fun x y => .texcoord x y _ _) (by decide) (fun _ => rfl) _ _) .nil
  | glTexCoord3f s t u => exact .cons (serves_three (f := fun x y z => .texcoord x y z _) (by decide) (fun _ => rfl) _ _ _) .nil
  | glTexCoord4f s t u v => exact .cons (serves_four (by decide) (fun _ => rfl) _ _ _ _) .nil
  | glFlush =>
    cases libspe2 with
    | true => exact .cons (serves_none (by decide) fun _ => rfl) (.cons (serves_none (by decide) fun _ => rfl) .nil)
    | false => exact .cons (serves_none (by decide) fun _ => rfl) .nil
  | spuglClearScreen r g b a => exact .cons (serves_four (by decide) (fun _ => rfl) _ _ _ _) .nil
  | spuglSelectPixelShader_ bufferid offset length => exact .cons (serves_three (by decide) (fun _ => rfl) _ _ _) .nil
  | spuglPoke buffer value =>
    simp only [rings,requested]
    split
    · exact .cons (serves_three (by decide) (fun _ => rfl) _ _ _) .nil
    · exact .nil
  | _ => cases good

theorem Ring.not_whole {size : Nat} {data : List Nat} (named : command < 2^24) (counted : data.length = written) (other : written ≠ size) :
    ¬Whole cmdSize (Ring.mk command size data).words := by
  rintro ⟨header,rest,same,declared⟩
  obtain ⟨rfl,rfl⟩ := List.cons.inj same
  rw [cmdSize_beginRing named,counted] at declared
  exact other declared

variable (float libspe2 bufferBase) in
-- A call that misdeclares writes a command that its header does not measure.
theorem rings_misdeclare (call : Call F) (bad : call.misdeclared = true) :
    ∃ r ∈ rings float libspe2 bufferBase call, ¬Whole cmdSize r.words := by
  cases call with
  | glVertexAttrib1fv index mat => exact ⟨_,List.mem_singleton_self _,Ring.not_whole (by decide) (outRingf_length mat) (by decide)⟩
  | glVertexAttrib2fv index mat => exact ⟨_,List.mem_singleton_self _,Ring.not_whole (by decide) (outRingf_length mat) (by decide)⟩
  | glVertexAttrib3fv index mat => exact ⟨_,List.mem_singleton_self _,Ring.not_whole (by decide) (outRingf_length mat) (by decide)⟩
  | glVertexAttrib4fv index mat => exact ⟨_,List.mem_singleton_self _,Ring.not_whole (by decide) (outRingf_length mat) (by decide)⟩
  | glVertexAttrib1f index x => exact ⟨_,List.mem_singleton_self _,Ring.not_whole (by decide) rfl (by simp)⟩
  | glVertexAttrib2f index x y => exact ⟨_,List.mem_singleton_self _,Ring.not_whole (by decide) rfl (by simp)⟩
  | glVertexAttrib3f index x y z => exact ⟨_,List.mem_singleton_self _,Ring.not_whole (by decide) rfl (by simp)⟩
  | glVertexAttrib4f index x y z w => exact ⟨_,List.mem_singleton_self _,Ring.not_whole (by decide) rfl (by simp)⟩
  | glColor4f r g b a => exact ⟨_,List.mem_singleton_self _,Ring.not_whole (by decide) rfl (by simp)⟩
  | _ => cases bad

variable (float libspe2 bufferBase) in
theorem allRings_serve {calls : List (Call F)} (good : ∀ call ∈ calls, call.misdeclared = false) :
    List.Forall₂ (Ring.Serves float) (allRings float libspe2 bufferBase calls) (calls.flatMap (requested float libspe2 bufferBase)) := by
  induction calls with
  | nil => exact .nil
  | cons call calls ih =>
    unfold allRings
    rw [List.flatMap_cons,List.flatMap_cons]
    have first := rings_serve float libspe2 bufferBase call (good call List.mem_cons_self)
    exact List.rel_append first (ih fun other listed => good other (List.mem_cons_of_mem _ listed))

-- A run of commands that serve their requests is framed, and every handler reads its
-- own words wherever the command lies.
theorem serves_framed {rs : List Ring} {requests : List Request} (serve : List.Forall₂ (Ring.Serves float) rs requests) :
    ∀ c ∈ rs.map Ring.words, Whole cmdSize c := by
  induction serve with
  | nil => intro c listed; cases listed
  | cons one _ ih =>
    intro c listed
    rcases List.mem_cons.mp listed with first | later
    · rw [first]
      exact one.whole
    · exact ih c later

theorem serves_read {k : Nat} {r : Ring} {rs : List Ring} {requests : List Request} (serve : List.Forall₂ (Ring.Serves float) rs requests)
    (here : rs[k]? = some r) : ∃ request, requests[k]? = some request ∧ r.Serves float request := by
  induction serve generalizing k with
  | nil => cases here
  | cons one _ ih =>
    cases k with
    | zero => cases here; exact ⟨_,rfl,one⟩
    | succ k => exact ih here

-- The encoders and the handlers agree on exactly the sequences with no call whose
-- declared length is wrong.
theorem encoding_agrees (float : FloatWords F) (libspe2 : Bool) (bufferBase : Nat → Option (Nat × Nat)) (calls : List (Call F)) :
    Agrees float libspe2 bufferBase calls ↔ ∀ call ∈ calls, call.misdeclared = false := by
  constructor
  · intro agrees call listed
    obtain ⟨_,whole⟩ := split_whole agrees.framed
    by_contra bad
    obtain ⟨r,written,torn⟩ := rings_misdeclare float libspe2 bufferBase call
      (Bool.not_eq_false _ ▸ bad)
    apply torn
    apply whole
    exact List.mem_map_of_mem (List.mem_flatMap.mpr ⟨call,listed,written⟩)
  · intro good
    have serve := allRings_serve float libspe2 bufferBase good
    refine ⟨?_,?_,?_⟩
    · exact split_flatten (serves_framed serve) (Nat.le_refl _)
    · rw [encoded,List.length_map]
      exact serve.length_eq
    · intro k cmd head
      obtain ⟨c,here,head⟩ := Option.bind_eq_some_iff.mp head
      have found := here
      rw [encoded,List.getElem?_map] at found
      obtain ⟨r,listed,rfl⟩ := Option.map_eq_some_iff.mp found
      obtain ⟨request,asked,serves⟩ := serves_read serve listed
      cases head
      rw [asked,cmdNumber_beginRing serves.named]
      apply serves.reads
      intro i w word
      have inside : i + 1 < r.words.length := by
        obtain ⟨less,_⟩ := List.getElem?_eq_some_iff.mp word
        exact Nat.succ_lt_succ less
      have lies := word_at here inside
      rw [List.getD_eq_getElem?_getD,stream,Nat.add_assoc,Nat.add_comm 1,lies]
      show (r.data[i]?).getD 0 = w
      rw [word]
      rfl

end

-- The header claims glBegin's header as the second word, and glBegin's type comes to
-- be read as a header.
theorem encoding_disagrees : ¬∀ (float : FloatWords Nat) (libspe2 : Bool) (bufferBase : Nat → Option (Nat × Nat))
    (calls : List (Call Nat)), Agrees float libspe2 bufferBase calls := by
  intro claim
  have agrees := claim ⟨id,id,0,1⟩ false (fun _ => none) [.glVertexAttrib1f 3 7,.glBegin 4,.glEnd]
  exact absurd agrees.framed (by decide +kernel)

end Spugl
