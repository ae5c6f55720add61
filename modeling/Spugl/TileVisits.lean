import Spugl.TileWalk

namespace Spugl
open HilbertWalk

-- What changes from one call of subdivide or of findFirstTile to the next.
structure Square where
  A : Lanes
  Adx : Lanes
  Ady : Lanes
  y : Nat × Nat
  i : Nat
  base : Nat
  baseadd : Fin 4 → Nat
  type : Turn

section
variable (wrap : Int → Int)

-- The return value -1 is that of no tile. The other parameters are as in subdivide.
def findFirstTile : Nat → Lanes → Lanes → Lanes → Nat × Nat → Nat → Nat → (Fin 4 → Nat) → Turn → Nat → Nat → Int
  | 0,_,_,_,_,_,_,_,_,_,_ => -1
  | fuel+1,A,Adx,Ady,y,i,base,baseadd,type,v_start,v_end =>
    if outside wrap A Adx Ady then -1 else
    let i := i / 2
    let baseadd := fun k => baseadd k / 4
    if i ≠ 0 then
      let hdx := spu_rlmaska Adx 1
      let hdy := spu_rlmaska Ady 1
      let A_hdx := spu_add wrap A hdx
      let A_hdy := spu_add wrap A hdy
      let A_hdx_hdy := spu_add wrap A_hdx hdy
      let Adx_hdx := spu_sub wrap Adx hdx
      let Ady_hdy := spu_sub wrap Ady hdy
      let bit0 := type.1
      let bit1 := type.2
      let add (x y' : Bool) : Nat × Nat := (y.1 + if x then i else 0,y.2 + if y' then i else 0)
      let newbase (k : Fin 4) : Nat := base + wordsRight baseadd k
      let baseend (k : Fin 4) : Nat := base + baseadd k
      let v_process (k : Fin 4) : Bool := decide (v_start < baseend k) && decide (newbase k < v_end)
      let first := if v_process 0 then
        findFirstTile fuel (spu_sel A A_hdx_hdy bit1) (spu_sel hdx Adx_hdx bit1) (spu_sel hdy Ady_hdy bit1)
          (add bit1 bit1) i (newbase 0) baseadd (!bit0,bit1) v_start v_end else -1
      if 0 ≤ first then first else
      let first := if v_process 1 then
        findFirstTile fuel (spu_sel A_hdy A_hdx bit0) (spu_sel hdx Adx_hdx bit0) (spu_sel Ady_hdy hdy bit0)
          (add bit0 (!bit0)) i (newbase 1) baseadd (bit0,bit1) v_start v_end else -1
      if 0 ≤ first then first else
      let first := if v_process 2 then
        findFirstTile fuel (spu_sel A_hdx_hdy A bit1) (spu_sel Adx_hdx hdx bit1) (spu_sel Ady_hdy hdy bit1)
          (add (!bit1) (!bit1)) i (newbase 2) baseadd (bit0,bit1) v_start v_end else -1
      if 0 ≤ first then first else
      let first := if v_process 3 then
        findFirstTile fuel (spu_sel A_hdx A_hdy bit0) (spu_sel Adx_hdx hdx bit0) (spu_sel hdy Ady_hdy bit0)
          (add (!bit0) bit0) i (newbase 3) baseadd (bit0,!bit1) v_start v_end else -1
      if 0 ≤ first then first else -1
    else base

-- The arguments of the four calls.
def Square.quarter (s : Square) (k : Fin 4) : Square :=
  let i := s.i / 2
  let baseadd := fun k => s.baseadd k / 4
  let hdx := spu_rlmaska s.Adx 1
  let hdy := spu_rlmaska s.Ady 1
  let A_hdx := spu_add wrap s.A hdx
  let A_hdy := spu_add wrap s.A hdy
  let A_hdx_hdy := spu_add wrap A_hdx hdy
  let Adx_hdx := spu_sub wrap s.Adx hdx
  let Ady_hdy := spu_sub wrap s.Ady hdy
  let bit0 := s.type.1
  let bit1 := s.type.2
  let add (x y' : Bool) : Nat × Nat := (s.y.1 + if x then i else 0,s.y.2 + if y' then i else 0)
  let newbase := s.base + wordsRight baseadd k
  match k with
  | 0 => ⟨spu_sel s.A A_hdx_hdy bit1,spu_sel hdx Adx_hdx bit1,spu_sel hdy Ady_hdy bit1,add bit1 bit1,i,newbase,baseadd,(!bit0,bit1)⟩
  | 1 => ⟨spu_sel A_hdy A_hdx bit0,spu_sel hdx Adx_hdx bit0,spu_sel Ady_hdy hdy bit0,add bit0 (!bit0),i,newbase,baseadd,(bit0,bit1)⟩
  | 2 => ⟨spu_sel A_hdx_hdy s.A bit1,spu_sel Adx_hdx hdx bit1,spu_sel Ady_hdy hdy bit1,add (!bit1) (!bit1),i,newbase,baseadd,(bit0,bit1)⟩
  | 3 => ⟨spu_sel A_hdx A_hdy bit0,spu_sel Adx_hdx hdx bit0,spu_sel hdy Ady_hdy bit0,add (!bit0) bit0,i,newbase,baseadd,(bit0,!bit1)⟩

def Square.outside (s : Square) : Bool := Spugl.outside wrap s.A s.Adx s.Ady

-- The leaves that a walk reaches, in its order: `enter` is tested in each square and `call`
-- before each of the four calls.
def visited (enter : Square → Bool) (call : Square → Fin 4 → Bool) : Nat → Square → List Square
  | 0,_ => []
  | fuel+1,s =>
    if !enter s then []
    else if s.i / 2 = 0 then [s]
    else ((List.finRange 4).filter (call s)).flatMap fun k => visited enter call fuel (s.quarter wrap k)

-- And with all tests ignored.
def leaves : Nat → Square → List Square := visited wrap (fun _ => true) fun _ _ => true

-- The two range tests.
def beforeEnd (blockMax : Int) (s : Square) (k : Fin 4) : Bool := decide (((s.quarter wrap k).base : Int) < blockMax)

def inRange (v_start v_end : Nat) (s : Square) (k : Fin 4) : Bool :=
  decide (v_start < s.base + s.baseadd k / 4) && decide ((s.quarter wrap k).base < v_end)

-- What subdivide does in a leaf.
def record (blockStart blockMax : Int) (limit : Nat × Nat) (found : Nat → Option Leaf) (s : Square) : Nat → Option Leaf :=
  if 0 ≤ (s.base : Int) - blockStart ∧ (s.base : Int) - blockStart < blockMax ∧ ¬(limit.1 < s.y.1 ∨ limit.2 < s.y.2) then
    Function.update found ((s.base : Int) - blockStart).toNat (some ⟨s.y.1,s.y.2,s.A⟩)
  else found

-- What findFirstTile returns for the leaves it would come to.
def firstOf : List Square → Int
  | [] => -1
  | s :: _ => s.base

end

section
variable {wrap : Int → Int} {enter : Square → Bool} {call : Square → Fin 4 → Bool} {s : Square}

theorem visited_leaf (entered : enter s = true) (leaf : s.i / 2 = 0) : visited wrap enter call (fuel+1) s = [s] := by
  simp only [visited,entered,Bool.not_true,Bool.false_eq_true,if_false,leaf,if_true]

theorem visited_out (out : enter s = false) : visited wrap enter call fuel s = [] := by
  cases fuel with
  | zero => rfl
  | succ fuel => simp only [visited,out,Bool.not_false,if_true]

-- The walk of one quarter, if it is called for.
def called (wrap : Int → Int) (enter : Square → Bool) (call : Square → Fin 4 → Bool) (fuel : Nat) (s : Square) (k : Fin 4) : List Square :=
  if call s k then visited wrap enter call fuel (s.quarter wrap k) else []

theorem visited_quarters (entered : enter s = true) (inner : s.i / 2 ≠ 0) : visited wrap enter call (fuel+1) s =
    called wrap enter call fuel s 0 ++ (called wrap enter call fuel s 1 ++
      (called wrap enter call fuel s 2 ++ called wrap enter call fuel s 3)) := by
  have quarters : List.finRange 4 = [0,1,2,3] := by decide
  simp only [visited,entered,Bool.not_true,Bool.false_eq_true,if_false,inner,quarters,List.filter_cons,List.filter_nil,called]
  cases call s 0 <;> cases call s 1 <;> cases call s 2 <;> cases call s 3 <;> simp

theorem firstOf_append (l l' : List Square) : firstOf (l ++ l') = if 0 ≤ firstOf l then firstOf l else firstOf l' := by
  cases l with
  | nil => rfl
  | cons s rest => exact (if_pos (Int.natCast_nonneg s.base)).symm

theorem firstOf_last (l : List Square) : (if 0 ≤ firstOf l then firstOf l else -1) = firstOf l := by
  cases l with
  | nil => rfl
  | cons s rest => exact if_pos (Int.natCast_nonneg s.base)

theorem firstOf_called (fuel : Nat) (s : Square) (k : Fin 4) : firstOf (called wrap enter call fuel s k) =
    if call s k then firstOf (visited wrap enter call fuel (s.quarter wrap k)) else -1 := by
  unfold called
  split <;> rfl

theorem foldl_called (f : (Nat → Option Leaf) → Square → Nat → Option Leaf) (found : Nat → Option Leaf) (fuel : Nat) (s : Square) (k : Fin 4) :
    (called wrap enter call fuel s k).foldl f found =
      if call s k then (visited wrap enter call fuel (s.quarter wrap k)).foldl f found else found := by
  unfold called
  split <;> rfl

-- Both functions do this walk.
theorem subdivide_visited (fuel : Nat) (s : Square) (blockStart blockMax : Int) (limit : Nat × Nat) (found : Nat → Option Leaf) :
    subdivide wrap fuel s.A s.Adx s.Ady s.y s.i s.base s.baseadd s.type blockStart blockMax limit found =
      (visited wrap (fun s => !s.outside wrap) (beforeEnd wrap blockMax) fuel s).foldl (record blockStart blockMax limit) found := by
  induction fuel generalizing s found with
  | zero => rfl
  | succ fuel ih =>
    cases gone : s.outside wrap with
    | true =>
      rw [visited_out (by rw [gone]; rfl)]
      exact if_pos gone
    | false =>
      have entered : (!s.outside wrap) = true := by rw [gone]; rfl
      have seen : outside wrap s.A s.Adx s.Ady = false := gone
      by_cases leaf : s.i / 2 = 0
      · rw [visited_leaf entered leaf,subdivide]
        simp only [seen,Bool.false_eq_true,if_false,leaf,ne_eq,not_true_eq_false]
        rfl
      · rw [visited_quarters entered leaf]
        simp only [List.foldl_append,foldl_called,← ih,beforeEnd,decide_eq_true_eq]
        rw [subdivide]
        simp only [seen,Bool.false_eq_true,if_false,ne_eq,leaf,not_false_eq_true,if_true]
        rfl

theorem findFirstTile_visited (fuel : Nat) (s : Square) (v_start v_end : Nat) :
    findFirstTile wrap fuel s.A s.Adx s.Ady s.y s.i s.base s.baseadd s.type v_start v_end =
      firstOf (visited wrap (fun s => !s.outside wrap) (inRange wrap v_start v_end) fuel s) := by
  induction fuel generalizing s with
  | zero => rfl
  | succ fuel ih =>
    cases gone : s.outside wrap with
    | true =>
      rw [visited_out (by rw [gone]; rfl)]
      exact if_pos gone
    | false =>
      have entered : (!s.outside wrap) = true := by rw [gone]; rfl
      have seen : outside wrap s.A s.Adx s.Ady = false := gone
      by_cases leaf : s.i / 2 = 0
      · rw [visited_leaf entered leaf,findFirstTile]
        simp only [seen,Bool.false_eq_true,if_false,leaf,ne_eq,not_true_eq_false]
        rfl
      · rw [visited_quarters entered leaf]
        simp only [firstOf_append]
        rw [← firstOf_last (called _ _ _ fuel s 3)]
        simp only [firstOf_called,← ih,inRange]
        rw [findFirstTile]
        simp only [seen,Bool.false_eq_true,if_false,ne_eq,leaf,not_false_eq_true,if_true]
        rfl

theorem visited_inner (entered : enter s = true) (inner : s.i / 2 ≠ 0) {t : Square} : t ∈ visited wrap enter call (fuel+1) s ↔
    ∃ k, call s k = true ∧ t ∈ visited wrap enter call fuel (s.quarter wrap k) := by
  simp only [visited,entered,Bool.not_true,Bool.false_eq_true,if_false,inner,List.mem_flatMap,List.mem_filter,List.mem_finRange,true_and]

-- Where a square lies does not depend on the values at its corners.
structure Square.At (s : Square) (n x y base : Nat) (o : Turn) : Prop where
  place : s.y = (x,y)
  size : s.i = 2^n
  base : s.base = base
  counts : s.baseadd = fun k => 4^n * (k.val+1)
  type : s.type = o

theorem quarter_at (at_ : s.At (n+1) x y base o) (k : Fin 4) : (s.quarter wrap k).At n (x + offset n (corner o k).1)
    (y + offset n (corner o k).2) (base + 4^n * k.val) (turn o k) := by
  obtain ⟨place,size,first,counts,type⟩ := at_
  have half : 2^(n+1) / 2 = 2^n := by rw [pow_succ]; omega
  obtain ⟨b0,b1⟩ := o
  unfold Square.quarter
  simp only [place,size,first,counts,type,half,quarters_quarter]
  match k with
  | 0 => exact ⟨rfl,rfl,rfl,rfl,rfl⟩
  | 1 => exact ⟨rfl,rfl,rfl,rfl,rfl⟩
  | 2 => exact ⟨rfl,rfl,rfl,rfl,rfl⟩
  | 3 => exact ⟨rfl,rfl,rfl,rfl,rfl⟩

theorem visited_place {x y base : Nat} {o : Turn} (at_ : s.At n x y base o) : ∀ t ∈ visited wrap enter call fuel s,
    ∃ b, b < 4^n ∧ t.base = base + b ∧ t.y = (x + (cell n o b).1,y + (cell n o b).2) := by
  induction fuel generalizing s n x y base o with
  | zero => exact fun t member => nomatch member
  | succ fuel ih =>
    intro t member
    cases entered : enter s with
    | false =>
      rw [visited_out entered] at member
      cases member
    | true =>
      cases n with
      | zero =>
        rw [visited_leaf entered (by rw [at_.size]; rfl)] at member
        obtain rfl := List.mem_singleton.mp member
        exact ⟨0,Nat.one_pos,at_.base,at_.place⟩
      | succ n =>
        have positive : 0 < 2^n := Nat.pow_pos (by decide)
        have inner : s.i / 2 ≠ 0 := by rw [at_.size,pow_succ]; omega
        obtain ⟨k,_,inside⟩ := (visited_inner entered inner).mp member
        obtain ⟨b,less,number,place⟩ := ih (quarter_at at_ k) t inside
        have wide : 0 < 4^n := Nat.pow_pos (by decide)
        have q : (4^n * k.val + b) / 4^n = k.val := by rw [Nat.mul_add_div wide,Nat.div_eq_of_lt less,Nat.add_zero]
        have rest : (4^n * k.val + b) % 4^n = b := by rw [Nat.mul_add_mod,Nat.mod_eq_of_lt less]
        refine ⟨4^n * k.val + b,?_,?_,?_⟩
        · rw [pow_succ]
          have few : k.val ≤ 3 := by omega
          have bound : 4^n * k.val ≤ 4^n * 3 := Nat.mul_le_mul_left _ few
          omega
        · omega
        · rw [place]
          simp only [cell,q,rest,Nat.add_assoc]

-- The leaves of subdivide lie in front of the end.
theorem visited_before {last : Int} (inner : s.i / 2 ≠ 0) : ∀ t ∈ visited wrap enter (beforeEnd wrap last) fuel s, (t.base : Int) < last := by
  induction fuel generalizing s with
  | zero => exact fun t member => nomatch member
  | succ fuel ih =>
    intro t member
    cases entered : enter s with
    | false =>
      rw [visited_out entered] at member
      cases member
    | true =>
      obtain ⟨k,before,inside⟩ := (visited_inner entered inner).mp member
      by_cases leaf : (s.quarter wrap k).i / 2 = 0
      · cases here : enter (s.quarter wrap k) with
        | false =>
          rw [visited_out here] at inside
          cases inside
        | true =>
          cases fuel with
          | zero => cases inside
          | succ fuel =>
            rw [visited_leaf here leaf] at inside
            obtain rfl := List.mem_singleton.mp inside
            exact of_decide_eq_true before
      · exact ih leaf t inside

end
end Spugl
