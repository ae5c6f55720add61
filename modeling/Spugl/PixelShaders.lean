import Spugl.Rasterisation
import Spugl.TileBuffers

namespace Spugl

-- vec_float4 and vec_uint4
abbrev FloatLanes (F : Type) := Fin 4 → F
abbrev Words := Fin 4 → BitVec 32

-- The arithmetic of the shaders, lane by lane. How the SPU rounds is left to the operations.
structure SpuFloat (F : Type) where
  one : F
  add : F → F → F
  sub : F → F → F
  mul : F → F → F
  madd : F → F → F → F
  div : F → F → F
  convtf : Int → Nat → F
  convtu : F → Nat → BitVec 32

-- The values of the three edges at the start of a tile, and their steps to the next four pixels and to the next line.
def edgeStart (A hdx : Lanes) : Edges := fun e =>
  let Aabc_dx := spu_splats (spu_rlmaska hdx 5 e.castSucc)
  let Aabc_dx0123 := spu_add wrap32 (shuf_0101 Aabc_dx) (shuf_0011 (spu_sl Aabc_dx 1))
  spu_add wrap32 Aabc_dx0123 (spu_splats (A e.castSucc))

def edge_dx4 (hdx : Lanes) : Edges := fun e => spu_splats (spu_sl (spu_rlmaska hdx 5) 2 e.castSucc)

def edge_dy (hdx hdy : Lanes) : Edges := fun e =>
  let A_dx := spu_rlmaska hdx 5
  let A_dx28 := spu_sub wrap32 (spu_sl A_dx 5) (spu_sl A_dx 2)
  spu_splats (spu_sub wrap32 (spu_rlmaska hdy 5) A_dx28 e.castSucc)

-- The do loop of the shaders. `acc` is what a shader carries along besides the edges.
def shadeLoop (colour : S → Words) (right down : S → S) (A_dx4 A_dy : Edges) : Nat → Nat → Edges → S → (Nat → Words) → Nat → Words
  | 0,_,_,_,pixelbuffer => pixelbuffer
  | left+1,ptr,Aabc,acc,pixelbuffer =>
    let current := pixelbuffer ptr
    let stored := Function.update pixelbuffer ptr fun k => if pixel Aabc k then colour acc k else current k
    if (left+1) % 8 = 1 then
      shadeLoop colour right down A_dx4 A_dy left (ptr+1) (fun e => spu_add wrap32 (Aabc e) (A_dy e)) (down acc) stored
    else
      shadeLoop colour right down A_dx4 A_dy left (ptr+1) (fun e => spu_add wrap32 (Aabc e) (A_dx4 e)) (right acc) stored

def maskRender (A hdx hdy : Lanes) (pixelbuffer : Nat → Words) : Nat → Words :=
  shadeLoop (fun _ _ => 0x7fff30#32) id id (edge_dx4 hdx) (edge_dy hdx hdy) (32*8) 0 (edgeStart A hdx) () pixelbuffer

section
variable {F : Type} (f : SpuFloat F)

def extract (param tAa tAb tAc : FloatLanes F) : FloatLanes F := fun k =>
  f.madd (param 0) (tAa k) (f.madd (param 1) (tAb k) (f.mul (param 2) (tAc k)))

-- spu_convtf of the three edges, and a parameter of the triangle there.
def along (param : FloatLanes F) (Aabc : Edges) : FloatLanes F :=
  extract f param (fun k => f.convtf (Aabc 0 k) 5) (fun k => f.convtf (Aabc 1 k) 5) (fun k => f.convtf (Aabc 2 k) 5)

-- wA, rA, gA and bA
structure Interpolated (F : Type) where
  w : FloatLanes F
  r : FloatLanes F
  g : FloatLanes F
  b : FloatLanes F

def Interpolated.step (acc delta : Interpolated F) : Interpolated F where
  w := fun k => f.add (acc.w k) (delta.w k)
  r := fun k => f.add (acc.r k) (delta.r k)
  g := fun k => f.add (acc.g k) (delta.g k)
  b := fun k => f.add (acc.b k) (delta.b k)

def Interpolated.colour (acc : Interpolated F) : Words := fun k =>
  let w := f.div f.one (acc.w k)
  let red := (f.convtu (f.mul (acc.r k) w) 32 >>> 8) &&& 0xff0000#32
  let green := (f.convtu (f.mul (acc.g k) w) 32 >>> 16) &&& 0xff00#32
  let blue := f.convtu (f.mul (acc.b k) w) 32 >>> 24
  (blue ||| green) ||| red

def flatAt (params : Nat → FloatLanes F) (Aabc : Edges) : Interpolated F :=
  ⟨along f (params 3) Aabc,along f (params 4) Aabc,along f (params 5) Aabc,along f (params 6) Aabc⟩

def flatRenderFunc (params : Nat → FloatLanes F) (A hdx hdy : Lanes) (pixelbuffer : Nat → Words) : Nat → Words :=
  shadeLoop (Interpolated.colour f) (fun acc => acc.step f (flatAt f params (edge_dx4 hdx)))
    (fun acc => acc.step f (flatAt f params (edge_dy hdx hdy))) (edge_dx4 hdx) (edge_dy hdx hdy) (32*8) 0 (edgeStart A hdx)
    (flatAt f params (edgeStart A hdx)) pixelbuffer

-- The texture shader draws s, t and the mipmap level kA as a colour, as far as it goes. Its start is that of the tile's first
-- pixel in all lanes.
def mipmap (wA sA tA wA_dx sA_dx tA_dx wA_dy sA_dy tA_dy : FloatLanes F) : FloatLanes F := fun k =>
  let mip_wA_mult := f.sub (f.mul (sA_dx k) (tA_dy k)) (f.mul (sA_dy k) (tA_dx k))
  let mip_sA_mult := f.sub (f.mul (tA_dx k) (wA_dy k)) (f.mul (tA_dy k) (wA_dx k))
  let mip_tA_mult := f.sub (f.mul (wA_dx k) (sA_dy k)) (f.mul (wA_dy k) (sA_dx k))
  f.add (f.add (f.mul mip_wA_mult (wA k)) (f.mul mip_sA_mult (sA k))) (f.mul mip_tA_mult (tA k))

def textureAt (params : Nat → FloatLanes F) (hdx hdy : Lanes) (Aabc : Edges) : Interpolated F :=
  let A_dx : Edges := fun e => spu_splats (spu_rlmaska hdx 5 e.castSucc)
  let A_dy : Edges := fun e => spu_splats (spu_rlmaska hdy 5 e.castSucc)
  let wA := along f (params 3) Aabc
  let sA := along f (params 4) Aabc
  let tA := along f (params 5) Aabc
  ⟨wA,sA,tA,mipmap f wA sA tA (along f (params 3) A_dx) (along f (params 4) A_dx) (along f (params 5) A_dx)
    (along f (params 3) A_dy) (along f (params 4) A_dy) (along f (params 5) A_dy)⟩

def textureRenderFunc (params : Nat → FloatLanes F) (A hdx hdy : Lanes) (pixelbuffer : Nat → Words) : Nat → Words :=
  let first : Edges := fun e => spu_splats (A e.castSucc)
  shadeLoop (Interpolated.colour f) (fun acc => acc.step f (textureAt f params hdx hdy (edge_dx4 hdx)))
    (fun acc => acc.step f (textureAt f params hdx hdy (edge_dy hdx hdy))) (edge_dx4 hdx) (edge_dy hdx hdy) (32*8) 0 (edgeStart A hdx)
    (textureAt f params hdx hdy first) pixelbuffer

def clearInitFunc (params : Nat → FloatLanes F) : Words := Interpolated.colour f ⟨params 3,params 4,params 5,params 6⟩

end

def clearLoop (colour : Words) : Nat → Nat → (Nat → Words) → Nat → Words
  | 0,_,pixelbuffer => pixelbuffer
  | left+1,ptr,pixelbuffer => clearLoop colour left (ptr+1) (Function.update pixelbuffer ptr colour)

def clearRenderFunc (scratch : Words) (pixelbuffer : Nat → Words) : Nat → Words := clearLoop scratch (32*8) 0 pixelbuffer

-- What load_shader may return.
inductive PixelShader where
  | mask
  | flat
  | texture
  | clear
  | null
  deriving DecidableEq

section
variable {F : Type} (f : SpuFloat F)

def PixelShader.renderFunc (params : Nat → FloatLanes F) (A hdx hdy : Lanes) (pixelbuffer : Nat → Words) : PixelShader → Nat → Words
  | .mask => maskRender A hdx hdy pixelbuffer
  | .flat => flatRenderFunc f params A hdx hdy pixelbuffer
  | .texture => textureRenderFunc f params A hdx hdy pixelbuffer
  | .clear => clearRenderFunc (clearInitFunc f params) pixelbuffer
  | .null => pixelbuffer

-- What a loop carries along when it comes to four pixels.
def carried (right down : S → S) (start : S) : Nat → S
  | 0 => start
  | ptr+1 => if ptr % 8 = 7 then down (carried right down start ptr) else right (carried right down start ptr)

-- The word of a pixel that is painted.
def PixelShader.colour (params : Nat → FloatLanes F) (A hdx hdy : Lanes) (w : Nat) : PixelShader → BitVec 32
  | .mask => 0x7fff30#32
  | .flat => (carried (fun acc => acc.step f (flatAt f params (edge_dx4 hdx))) (fun acc => acc.step f (flatAt f params (edge_dy hdx hdy)))
      (flatAt f params (edgeStart A hdx)) (w / 4)).colour f ⟨w % 4,Nat.mod_lt _ (by decide)⟩
  | .texture => (carried (fun acc => acc.step f (textureAt f params hdx hdy (edge_dx4 hdx)))
      (fun acc => acc.step f (textureAt f params hdx hdy (edge_dy hdx hdy)))
      (textureAt f params hdx hdy fun e => spu_splats (A e.castSucc)) (w / 4)).colour f ⟨w % 4,Nat.mod_lt _ (by decide)⟩
  | .clear => clearInitFunc f params ⟨w % 4,Nat.mod_lt _ (by decide)⟩
  | .null => 0

-- Which pixels of a tile it paints.
def PixelShader.paints (A hdx hdy : Lanes) (w : Nat) : PixelShader → Bool
  | .clear => true
  | .null => false
  | _ => negative A hdx hdy w

end

section
variable {S : Type} {colour : S → Words} {right down : S → S} {A hdx hdy : Lanes}

-- The edges that the loop carries are those of the pixels it is at.
theorem edgeStart_value (e : Fin 3) (k : Fin 4) : edgeStart A hdx e k = wrap32 (valueAt A hdx hdy e (4*0 + k.val)) := by
  have column : (4*0 + k.val) % 32 = k.val := by omega
  have line : (4*0 + k.val) / 32 = 0 := by omega
  simp only [edgeStart,spu_add]
  rw [start_lanes,wrap32_add_left]
  simp only [valueAt,column,line,spu_splats,spu_rlmaska]
  congr 1
  push_cast
  ring

theorem edge_right (ptr : Nat) (k : Fin 4) (e : Fin 3) (more : ptr % 8 ≠ 7) :
    wrap32 (wrap32 (valueAt A hdx hdy e (4*ptr + k.val)) + edge_dx4 hdx e k) = wrap32 (valueAt A hdx hdy e (4*(ptr+1) + k.val)) := by
  have step : edge_dx4 hdx e k = wrap32 (hdx e.castSucc / 2^5 * 2^2) := rfl
  rw [step,wrap32_add_left,wrap32_add_right,value_right ptr k more]

theorem edge_down (ptr : Nat) (k : Fin 4) (e : Fin 3) (last : ptr % 8 = 7) :
    wrap32 (wrap32 (valueAt A hdx hdy e (4*ptr + k.val)) + edge_dy hdx hdy e k) = wrap32 (valueAt A hdx hdy e (4*(ptr+1) + k.val)) := by
  have step : edge_dy hdx hdy e k =
      wrap32 (hdy e.castSucc / 2^5 - (hdx e.castSucc / 2^5 * 2^5 - hdx e.castSucc / 2^5 * 2^2)) := by
    simp only [edge_dy,spu_splats,spu_sub,spu_sl,spu_rlmaska,wrap32_sub_left,wrap32_sub_right]
  rw [step,wrap32_add_left,wrap32_add_right,value_down ptr k last]

-- The loop touches the words in front of it, each where all three edges are negative.
theorem shadeLoop_word (start : S) (left ptr : Nat) (counted : left + ptr = 256) (Aabc : Edges)
    (here : ∀ e k, Aabc e k = wrap32 (valueAt A hdx hdy e (4*ptr + k.val))) (pixelbuffer : Nat → Words) (q : Nat) (k : Fin 4) :
    shadeLoop colour right down (edge_dx4 hdx) (edge_dy hdx hdy) left ptr Aabc (carried right down start ptr) pixelbuffer q k =
      if (ptr ≤ q ∧ q < 256) ∧ negative A hdx hdy (4*q + k.val) = true then colour (carried right down start q) k
      else pixelbuffer q k := by
  induction left generalizing ptr Aabc pixelbuffer with
  | zero =>
    rw [shadeLoop,if_neg]
    rintro ⟨range,_⟩
    omega
  | succ left ih =>
    have lane : pixel Aabc k = negative A hdx hdy (4*ptr + k.val) := by simp only [pixel,negative,here]
    have rest (later : Edges) (value : ∀ e k, later e k = wrap32 (valueAt A hdx hdy e (4*(ptr+1) + k.val))) :
        shadeLoop colour right down (edge_dx4 hdx) (edge_dy hdx hdy) left (ptr+1) later (carried right down start (ptr+1))
          (Function.update pixelbuffer ptr fun k => if pixel Aabc k then colour (carried right down start ptr) k else pixelbuffer ptr k) q k =
        if (ptr ≤ q ∧ q < 256) ∧ negative A hdx hdy (4*q + k.val) = true then colour (carried right down start q) k
        else pixelbuffer q k := by
      rw [ih (ptr+1) (by omega) later value]
      by_cases now : q = ptr
      · subst now
        have behind : ¬((q+1 ≤ q ∧ q < 256) ∧ negative A hdx hdy (4*q + k.val) = true) := by omega
        have inside : q ≤ q ∧ q < 256 := by omega
        rw [if_neg behind,Function.update_self,lane]
        simp only [inside,and_self,true_and]
      · have front : (ptr+1 ≤ q ∧ q < 256) ↔ (ptr ≤ q ∧ q < 256) := by omega
        rw [Function.update_of_ne now]
        simp only [front]
    unfold shadeLoop
    dsimp only
    split
    · rename_i last
      have row : ptr % 8 = 7 := by omega
      have next : carried right down start (ptr+1) = down (carried right down start ptr) := if_pos row
      rw [← next]
      refine rest _ fun e k => ?_
      simp only [spu_add,here]
      exact edge_down ptr k e row
    · rename_i more
      have row : ptr % 8 ≠ 7 := by omega
      have next : carried right down start (ptr+1) = right (carried right down start ptr) := if_neg row
      rw [← next]
      refine rest _ fun e k => ?_
      simp only [spu_add,here]
      exact edge_right ptr k e row

theorem clearLoop_word (scratch : Words) (left ptr : Nat) (pixelbuffer : Nat → Words) (q : Nat) :
    clearLoop scratch left ptr pixelbuffer q = if ptr ≤ q ∧ q < ptr + left then scratch else pixelbuffer q := by
  induction left generalizing ptr pixelbuffer with
  | zero =>
    rw [clearLoop,if_neg (by omega)]
  | succ left ih =>
    rw [clearLoop,ih]
    by_cases now : q = ptr
    · subst now
      rw [if_neg (by omega),Function.update_self,if_pos (by omega)]
    · have front : (ptr+1 ≤ q ∧ q < ptr+1+left) ↔ (ptr ≤ q ∧ q < ptr+(left+1)) := by omega
      rw [Function.update_of_ne now]
      simp only [front]

-- The shaders, word by word.
theorem PixelShader.render_word {F : Type} (f : SpuFloat F) (params : Nat → FloatLanes F) (shader : PixelShader) (pixelbuffer : Nat → Words)
    (less : w < 1024) : shader.renderFunc f params A hdx hdy pixelbuffer (w / 4) ⟨w % 4,Nat.mod_lt _ (by decide)⟩ =
      if shader.paints A hdx hdy w then shader.colour f params A hdx hdy w
      else pixelbuffer (w / 4) ⟨w % 4,Nat.mod_lt _ (by decide)⟩ := by
  have number : 4*(w / 4) + w % 4 = w := Nat.div_add_mod w 4
  have inside : 0 ≤ w / 4 ∧ w / 4 < 256 := by omega
  have masked {S : Type} (colour : S → Words) (right down : S → S) (start : S) :
      shadeLoop colour right down (edge_dx4 hdx) (edge_dy hdx hdy) (32*8) 0 (edgeStart A hdx) start pixelbuffer (w / 4)
          ⟨w % 4,Nat.mod_lt _ (by decide)⟩ =
        if negative A hdx hdy w then colour (carried right down start (w / 4)) ⟨w % 4,Nat.mod_lt _ (by decide)⟩
        else pixelbuffer (w / 4) ⟨w % 4,Nat.mod_lt _ (by decide)⟩ := by
    refine (shadeLoop_word start (32*8) 0 rfl (edgeStart A hdx) edgeStart_value pixelbuffer _ _).trans ?_
    simp only [inside,and_self,true_and,number]
  cases shader with
  | mask =>
    rw [PixelShader.renderFunc,maskRender,masked]
    rfl
  | flat =>
    rw [PixelShader.renderFunc,flatRenderFunc,masked]
    rfl
  | texture =>
    rw [PixelShader.renderFunc,textureRenderFunc,masked]
    rfl
  | clear =>
    refine (congrFun (clearLoop_word _ _ _ _ _) _).trans ?_
    rw [if_pos (by omega)]
    rfl
  | null => rfl

end

end Spugl
