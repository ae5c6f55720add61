import Spugl.TriangleSetup

namespace Spugl

def spu_sl (a : Lanes) (n : Nat) : Lanes := fun k => wrap32 (a k * 2^n)

def shuf_0101 (a : Lanes) : Lanes
  | 0 => 0
  | 1 => a 0
  | 2 => 0
  | 3 => a 0

def shuf_0011 (a : Lanes) : Lanes
  | 0 => 0
  | 1 => 0
  | 2 => a 0
  | 3 => a 0

-- Aa, Ab and Ac: one vector of four pixels for each edge.
abbrev Edges := Fin 3 → Lanes

-- Lane k of spu_rlmaska(allNeg,-31).
def pixel (Aabc : Edges) (k : Fin 4) : Bool := decide (∀ e, Aabc e k < 0)

-- The do loop. A splat of lane e stands for spu_splats(spu_extract(..)); `left` is
-- taken to be promoted to every lane. The result lists the words of the pixel
-- buffer that get the colour.
def renderLoop (A_dx4 A_dy : Edges) : Nat → Nat → Edges → List Nat
  | 0,_,_ => []
  | left+1,ptr,Aabc =>
    ((List.finRange 4).filter (pixel Aabc)).map (fun k => 4*ptr + k.val) ++
      renderLoop A_dx4 A_dy left (ptr+1)
        (fun e => spu_add wrap32 (Aabc e) (if (left+1) % 8 = 1 then A_dy e else A_dx4 e))

def maskRenderFunc (A hdx hdy : Lanes) : List Nat :=
  let A_dx := spu_rlmaska hdx 5
  let A_dx4 := spu_sl A_dx 2
  let A_dx32 := spu_sl A_dx 5
  let A_dx28 := spu_sub wrap32 A_dx32 A_dx4
  let A_dy := spu_sub wrap32 (spu_rlmaska hdy 5) A_dx28
  let Aabc_dx (e : Fin 3) : Lanes := spu_splats (A_dx e.castSucc)
  let Aabc_dx0101 (e : Fin 3) := shuf_0101 (Aabc_dx e)
  let Aabc_dx0022 (e : Fin 3) := shuf_0011 (spu_sl (Aabc_dx e) 1)
  let Aabc_dx0123 (e : Fin 3) := spu_add wrap32 (Aabc_dx0101 e) (Aabc_dx0022 e)
  let Aabc (e : Fin 3) := spu_add wrap32 (Aabc_dx0123 e) (spu_splats (A e.castSucc))
  renderLoop (fun e => spu_splats (A_dx4 e.castSucc)) (fun e => spu_splats (A_dy e.castSucc)) (32*8) 0 Aabc

theorem wrap32_add_left (x y : Int) : wrap32 (wrap32 x + y) = wrap32 (x + y) := Int.bmod_add_bmod

theorem wrap32_add_right (x y : Int) : wrap32 (x + wrap32 y) = wrap32 (x + y) := Int.add_bmod_bmod

theorem wrap32_sub_left (x y : Int) : wrap32 (wrap32 x - y) = wrap32 (x - y) := Int.bmod_sub_bmod

theorem wrap32_sub_right (x y : Int) : wrap32 (x - wrap32 y) = wrap32 (x - y) := Int.sub_bmod_bmod

-- Word w of a buffer is pixel (w % 32,w / 32) of its tile.
def valueAt (A hdx hdy : Lanes) (e : Fin 3) (w : Nat) : Int :=
  A e.castSucc + (w % 32 : Nat) * (hdx e.castSucc / 2^5) + (w / 32 : Nat) * (hdy e.castSucc / 2^5)

def negative (A hdx hdy : Lanes) (w : Nat) : Bool := decide (∀ e, wrap32 (valueAt A hdx hdy e w) < 0)

-- One vector to the right, or to the start of the next line.
theorem value_right (ptr : Nat) (k : Fin 4) (more : ptr % 8 ≠ 7) :
    valueAt A hdx hdy e (4*(ptr+1) + k.val) = valueAt A hdx hdy e (4*ptr + k.val) + hdx e.castSucc / 2^5 * 2^2 := by
  have column : (4*(ptr+1) + k.val) % 32 = (4*ptr + k.val) % 32 + 4 := by omega
  have line : (4*(ptr+1) + k.val) / 32 = (4*ptr + k.val) / 32 := by omega
  simp only [valueAt,column,line]
  push_cast
  ring

theorem value_down (ptr : Nat) (k : Fin 4) (last : ptr % 8 = 7) :
    valueAt A hdx hdy e (4*(ptr+1) + k.val) = valueAt A hdx hdy e (4*ptr + k.val) +
      (hdy e.castSucc / 2^5 - (hdx e.castSucc / 2^5 * 2^5 - hdx e.castSucc / 2^5 * 2^2)) := by
  have column : (4*ptr + k.val) % 32 = (4*(ptr+1) + k.val) % 32 + 28 := by omega
  have line : (4*(ptr+1) + k.val) / 32 = (4*ptr + k.val) / 32 + 1 := by omega
  simp only [valueAt,column,line]
  push_cast
  ring

theorem renderLoop_exact (A hdx hdy : Lanes) {A_dx4 A_dy : Edges}
    (right : ∀ e k, A_dx4 e k = wrap32 (hdx e.castSucc / 2^5 * 2^2))
    (down : ∀ e k, A_dy e k = wrap32 (hdy e.castSucc / 2^5 - (hdx e.castSucc / 2^5 * 2^5 - hdx e.castSucc / 2^5 * 2^2)))
    (left ptr : Nat) (counted : left + ptr = 256) (Aabc : Edges)
    (here : ∀ e k, Aabc e k = wrap32 (valueAt A hdx hdy e (4*ptr + k.val))) :
    renderLoop A_dx4 A_dy left ptr Aabc = (List.range' (4*ptr) (4*left)).filter (negative A hdx hdy) := by
  induction left generalizing ptr Aabc with
  | zero => rfl
  | succ left ih =>
    have next : ∀ e k, spu_add wrap32 (Aabc e) (if (left+1) % 8 = 1 then A_dy e else A_dx4 e) k =
        wrap32 (valueAt A hdx hdy e (4*(ptr+1) + k.val)) := by
      intro e k
      simp only [spu_add,here e k,wrap32_add_left]
      split
      · rename_i last
        rw [down e k,wrap32_add_right,value_down ptr k (by omega)]
      · rename_i more
        rw [right e k,wrap32_add_right,value_right ptr k (by omega)]
    have lanes : ((List.finRange 4).filter (pixel Aabc)).map (fun k => 4*ptr + k.val) =
        (List.range' (4*ptr) 4).filter (negative A hdx hdy) := by
      have four : List.range' (4*ptr) 4 = (List.finRange 4).map (fun k => 4*ptr + k.val) := rfl
      rw [four,List.filter_map]
      congr 2
      funext k
      simp only [pixel,negative,Function.comp,here]
    have count : 4*(left+1) = 4 + 4*left := by omega
    rw [renderLoop,ih (ptr+1) (by omega) _ next,lanes,count,← List.range'_append_1,List.filter_append]
    rfl

-- Lane k starts k pixels to the right.
theorem start_lanes (a : Int) (k : Fin 4) :
    wrap32 (shuf_0101 (spu_splats a) k + shuf_0011 (spu_sl (spu_splats a) 1) k) = wrap32 (k.val * a) := by
  match k with
  | 0 => simp [shuf_0101,shuf_0011]
  | 1 => simp [shuf_0101,shuf_0011,spu_splats]
  | 2 =>
    have two : 0 + a * 2^1 = 2 * a := by ring
    simp only [shuf_0101,shuf_0011,spu_splats,spu_sl,wrap32_add_right,two]
    rfl
  | 3 =>
    have three : a + a * 2^1 = 3 * a := by ring
    simp only [shuf_0101,shuf_0011,spu_splats,spu_sl,wrap32_add_right,three]
    rfl

-- What the loop colours, in terms of the edge value of each pixel.
theorem maskRenderFunc_exact (A hdx hdy : Lanes) :
    maskRenderFunc A hdx hdy = (List.range 1024).filter (negative A hdx hdy) := by
  unfold maskRenderFunc
  rw [List.range_eq_range']
  apply renderLoop_exact A hdx hdy
  · intro e k; rfl
  · intro e k
    simp only [spu_splats,spu_sub,spu_sl,spu_rlmaska,wrap32_sub_left,wrap32_sub_right]
  · rfl
  · intro e k
    have column : (4*0 + k.val) % 32 = k.val := by omega
    have line : (4*0 + k.val) / 32 = 0 := by omega
    simp only [spu_add]
    rw [start_lanes,wrap32_add_left]
    simp only [valueAt,column,line,spu_splats,spu_rlmaska]
    congr 1
    push_cast
    ring

end Spugl
