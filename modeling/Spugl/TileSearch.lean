import Spugl.TileVisits
import Spugl.Rasterisation

namespace Spugl
open HilbertWalk

def Triangle.findFirstTriangleTile (triangle : Triangle) (chunkStart chunkEnd : Nat) : Int :=
  findFirstTile wrap32 7 triangle.area triangle.area_dx triangle.area_dy (0,0) 64 0 (fun k => 4096*(k.val+1)) (false,false)
    chunkStart (chunkEnd+1)

-- Where both functions begin.
def rootSquare (triangle : Triangle) : Square :=
  ⟨triangle.area,triangle.area_dx,triangle.area_dy,(0,0),64,0,fun k => 4096*(k.val+1),(false,false)⟩

-- The leaves that subdivide comes to for a chunk.
def chunkLeaves (triangle : Triangle) (chunkEnd : Nat) : List Square :=
  visited wrap32 (fun s => !s.outside wrap32) (beforeEnd wrap32 (chunkEnd+1)) 7 (rootSquare triangle)

-- found |= 0x80000000>>block
def mark (blockStart blockMax : Int) (limit : Nat × Nat) (found : BitVec 32) (s : Square) : BitVec 32 :=
  if 0 ≤ (s.base : Int) - blockStart ∧ (s.base : Int) - blockStart < blockMax ∧ ¬(limit.1 < s.y.1 ∨ limit.2 < s.y.2) then
    found ||| (0x80000000#32 >>> ((s.base : Int) - blockStart).toNat)
  else found

-- What subdivide returns to processTriangleChunks.
def foundBits (triangle : Triangle) (limit : Nat × Nat) (firstTile chunkEnd : Nat) : BitVec 32 :=
  (chunkLeaves triangle chunkEnd).foldl (mark firstTile (chunkEnd+1) limit) 0

-- No edge has all four corner values of the tile at its outer side.
def Passes (triangle : Triangle) (tile : Nat) : Prop :=
  let c := cell 6 (false,false) tile
  let value := planeAt triangle.area (spu_rlmaska triangle.area_dx 6) (spu_rlmaska triangle.area_dy 6)
  ¬∃ k, 0 ≤ value c.1 c.2 k ∧ 0 ≤ value (c.1+1) c.2 k ∧ 0 ≤ value c.1 (c.2+1) k ∧ 0 ≤ value (c.1+1) (c.2+1) k

-- The squares that a square is divided into, at all levels.
inductive Square.Within (wrap : Int → Int) (s : Square) : Square → Prop where
  | self : Square.Within wrap s s
  | quarter (k : Fin 4) : Square.Within wrap s t → t.i / 2 ≠ 0 → Square.Within wrap s (t.quarter wrap k)

section
variable {wrap : Int → Int} {A p q : Lanes} {n m N : Nat} {x y base : Nat} {o : Turn}

-- A square of the grid, with the plane that belongs to the triangle.
def tileSquare (A p q : Lanes) (n x y base : Nat) (o : Turn) : Square :=
  ⟨planeAt A p q x y,scaled n p,scaled n q,(x,y),2^n,base,fun k => 4^n * (k.val+1),o⟩

theorem tileSquare_inner (A p q : Lanes) (n x y base : Nat) (o : Turn) : (tileSquare A p q (n+1) x y base o).i / 2 ≠ 0 := by
  have positive : 0 < 2^n := Nat.pow_pos (by decide)
  simp only [tileSquare,pow_succ]
  omega

theorem tileSquare_quarter (fits : Fits wrap N A p q) (x_le : x+2^(n+1) ≤ 2^N) (y_le : y+2^(n+1) ≤ 2^N) (k : Fin 4) :
    (tileSquare A p q (n+1) x y base o).quarter wrap k =
      tileSquare A p q n (x + offset n (corner o k).1) (y + offset n (corner o k).2) (base + 4^n * k) (turn o k) := by
  obtain ⟨level,addX,addY,addXY⟩ := fits.halves x_le y_le
  have half : 2^(n+1) / 2 = 2^n := by rw [pow_succ]; omega
  obtain ⟨b0,b1⟩ := o
  unfold Square.quarter tileSquare
  simp only [half,quarters_quarter,halve_scaled,addX,addY,addXY,fits.restX level,fits.restY level]
  match k with
  | 0 => cases b1 <;> rfl
  | 1 => cases b0 <;> rfl
  | 2 => cases b1 <;> rfl
  | 3 => cases b0 <;> rfl

-- A quadrant stays in the square.
theorem corner_bounds (o : Turn) (c : Nat) (x y : Nat) :
    (x ≤ x + offset n (corner o c).1 ∧ x + offset n (corner o c).1 + 2^n ≤ x + 2^(n+1)) ∧
      y ≤ y + offset n (corner o c).2 ∧ y + offset n (corner o c).2 + 2^n ≤ y + 2^(n+1) := by
  have cx := offset_le n (corner o c).1
  have cy := offset_le n (corner o c).2
  rw [pow_succ]
  omega

theorem within_tile (fits : Fits wrap N A p q) (x_le : x+2^n ≤ 2^N) (y_le : y+2^n ≤ 2^N)
    (within : Square.Within wrap (tileSquare A p q n x y base o) t) : ∃ m x' y' base' o', t = tileSquare A p q m x' y' base' o' ∧
      (x ≤ x' ∧ x'+2^m ≤ x+2^n) ∧ y ≤ y' ∧ y'+2^m ≤ y+2^n := by
  induction within with
  | self => exact ⟨n,x,y,base,o,rfl,⟨Nat.le_refl _,Nat.le_refl _⟩,Nat.le_refl _,Nat.le_refl _⟩
  | quarter k _ inner ih =>
    obtain ⟨m,x',y',base',o',rfl,inX,inY⟩ := ih
    cases m with
    | zero => exact absurd (by simp [tileSquare]) inner
    | succ m =>
      have bounds := corner_bounds (n := m) o' k x' y'
      refine ⟨m,_,_,_,_,tileSquare_quarter fits (by omega) (by omega) k,?_,?_⟩
      · omega
      · omega

-- What lies in a square that is ruled out is ruled out.
theorem outside_within (fits : Fits wrap N A p q) (x_le : x+2^n ≤ 2^N) (y_le : y+2^n ≤ 2^N)
    (gone : (tileSquare A p q n x y base o).outside wrap = true) (within : Square.Within wrap (tileSquare A p q n x y base o) t) :
    t.outside wrap = true := by
  obtain ⟨m,x',y',base',o',rfl,inX,inY⟩ := within_tile fits x_le y_le within
  obtain ⟨k,inside⟩ := fits.outside_all x_le y_le gone
  refine (fits.outside_exact (by omega) (by omega)).mpr ⟨k,?_⟩
  have place (u v : Nat) (u_in : x ≤ u ∧ u ≤ x+2^n) (v_in : y ≤ v ∧ v ≤ y+2^n) : 0 ≤ planeAt A p q u v k := by
    have there := inside (u-x) (v-y) (by omega) (by omega)
    rwa [Nat.add_sub_cancel' u_in.1,Nat.add_sub_cancel' v_in.1] at there
  have positive : 0 < 2^m := Nat.pow_pos (by decide)
  exact ⟨place _ _ (by omega) (by omega),place _ _ (by omega) (by omega),place _ _ (by omega) (by omega),place _ _ (by omega) (by omega)⟩

theorem quarter_base (k : Fin 4) : ((tileSquare A p q (n+1) x y base o).quarter wrap k).base = base + 4^n * k.val := by
  unfold Square.quarter tileSquare
  simp only [quarters_quarter]
  match k with
  | 0 => rfl
  | 1 => rfl
  | 2 => rfl
  | 3 => rfl

-- The quarters that a range of tiles asks for.
def Asks (call : Square → Fin 4 → Bool) (A p q : Lanes) (first last : Nat) : Prop :=
  ∀ n x y base o (k : Fin 4), call (tileSquare A p q (n+1) x y base o) k = true ↔
    first < base + 4^n * (k.val+1) ∧ base + 4^n * k.val < last

theorem inRange_asks (wrap : Int → Int) (A p q : Lanes) (v_start v_end : Nat) :
    Asks (inRange wrap v_start v_end) A p q v_start v_end := by
  intro n x y base o k
  have quarter : 4^(n+1) * (k.val+1) / 4 = 4^n * (k.val+1) := congrFun (quarters_quarter n) k
  unfold inRange
  rw [quarter_base,Bool.and_eq_true,decide_eq_true_eq,decide_eq_true_eq]
  simp only [tileSquare,quarter]

theorem beforeEnd_asks (wrap : Int → Int) (A p q : Lanes) (last : Nat) : Asks (beforeEnd wrap last) A p q 0 last := by
  intro n x y base o k
  have positive : 0 < 4^n * (k.val+1) := Nat.mul_pos (Nat.pow_pos (by decide)) (Nat.succ_pos _)
  unfold beforeEnd
  rw [quarter_base,decide_eq_true_eq,Nat.cast_lt]
  exact ⟨fun less => ⟨by omega,less⟩,fun both => both.2⟩

-- The tile at a place passes its own test.
def Kept (wrap : Int → Int) (A p q : Lanes) (x y : Nat) : Prop := outside wrap (planeAt A p q x y) (scaled 0 p) (scaled 0 q) = false

-- The tiles of a square that a walk over a range comes to.
def Reaches (wrap : Int → Int) (A p q : Lanes) (n x y base : Nat) (o : Turn) (first last b : Nat) : Prop :=
  ∃ j, j < 4^n ∧ b = base + j ∧ (first ≤ b ∧ b < last) ∧ Kept wrap A p q (x + (cell n o j).1) (y + (cell n o j).2)

theorem reaches_quarters : Reaches wrap A p q (n+1) x y base o first last b ↔
    ∃ k : Fin 4, Reaches wrap A p q n (x + offset n (corner o k).1) (y + offset n (corner o k).2) (base + 4^n * k) (turn o k) first last b := by
  have positive : 0 < 4^n := Nat.pow_pos (by decide)
  constructor
  · rintro ⟨j,less,rfl,range,kept⟩
    have whole := Nat.div_add_mod j (4^n)
    have q : j / 4^n < 4 := by
      rw [Nat.div_lt_iff_lt_mul positive]; rw [pow_succ] at less; omega
    refine ⟨⟨j / 4^n,q⟩,j % 4^n,Nat.mod_lt j positive,?_,range,?_⟩
    · rw [Nat.add_assoc,whole]
    · simp only [cell,← Nat.add_assoc] at kept
      exact kept
  · rintro ⟨k,j,less,rfl,range,kept⟩
    have at_ : (4^n * k.val + j) / 4^n = k := by rw [Nat.mul_add_div positive,Nat.div_eq_of_lt less,Nat.add_zero]
    have rest : (4^n * k.val + j) % 4^n = j := by rw [Nat.mul_add_mod,Nat.mod_eq_of_lt less]
    refine ⟨4^n * k.val + j,?_,Nat.add_assoc _ _ _,range,?_⟩
    · have most := Nat.mul_le_mul_left (4^n) (Nat.le_of_lt_succ k.isLt)
      rw [pow_succ]; omega
    · simp only [cell,at_,rest,← Nat.add_assoc]
      exact kept

variable {call : Square → Fin 4 → Bool} {first last b fuel : Nat}

theorem some_quarter {P : Fin 4 → Prop} : (P 0 ∨ P 1 ∨ P 2 ∨ P 3) ↔ ∃ k, P k := by
  constructor
  · rintro (here | here | here | here)
    · exact ⟨0,here⟩
    · exact ⟨1,here⟩
    · exact ⟨2,here⟩
    · exact ⟨3,here⟩
  · rintro ⟨k,here⟩
    match k with
    | 0 => exact .inl here
    | 1 => exact .inr (.inl here)
    | 2 => exact .inr (.inr (.inl here))
    | 3 => exact .inr (.inr (.inr here))

-- What a walk over a range should come to in a square, in this order.
def Exactly (wrap : Int → Int) (A p q : Lanes) (n x y base : Nat) (o : Turn) (first last : Nat) (l : List Square) : Prop :=
  (∀ b, b ∈ l.map Square.base ↔ Reaches wrap A p q n x y base o first last b) ∧ (l.map Square.base).Pairwise (· < ·)

theorem outside_exactly (fits : Fits wrap N A p q) (x_le : x+2^n ≤ 2^N) (y_le : y+2^n ≤ 2^N)
    (gone : (tileSquare A p q n x y base o).outside wrap = true) : Exactly wrap A p q n x y base o first last [] := by
  refine ⟨fun b => ⟨fun member => (nomatch member),?_⟩,List.Pairwise.nil⟩
  rintro ⟨j,_,_,_,kept⟩
  have inside := cell_lt n o j
  have out := outside_inner fits x_le y_le gone inside.1 inside.2
  rw [Kept,out] at kept
  cases kept

theorem leaf_exactly (overlap : first < base + 1 ∧ base < last) (kept : (tileSquare A p q 0 x y base o).outside wrap = false) :
    Exactly wrap A p q 0 x y base o first last [tileSquare A p q 0 x y base o] := by
  refine ⟨fun b => ?_,List.pairwise_singleton _ _⟩
  simp only [List.map_cons,List.map_nil,List.mem_singleton]
  constructor
  · rintro rfl
    exact ⟨0,Nat.one_pos,rfl,⟨Nat.le_of_lt_succ overlap.1,overlap.2⟩,kept⟩
  · rintro ⟨j,less,rfl,_⟩
    rw [pow_zero] at less
    simp only [tileSquare]
    omega

-- The lists of the four quarters, one behind the other.
theorem quarters_exactly {l : Fin 4 → List Square} (quarter : ∀ k : Fin 4, Exactly wrap A p q n (x + offset n (corner o k).1)
    (y + offset n (corner o k).2) (base + 4^n * k) (turn o k) first last (l k)) :
    Exactly wrap A p q (n+1) x y base o first last (l 0 ++ (l 1 ++ (l 2 ++ l 3))) := by
  constructor
  · intro b
    rw [reaches_quarters,← some_quarter]
    simp only [List.map_append,List.mem_append,(quarter _).1]
  · have bounds (k : Fin 4) : ∀ b ∈ (l k).map Square.base, base + 4^n * k.val ≤ b ∧ b < base + 4^n * k.val + 4^n := by
      intro b member
      obtain ⟨j,less,rfl,_⟩ := ((quarter k).1 b).mp member
      omega
    have b0 := bounds 0
    have b1 := bounds 1
    have b2 := bounds 2
    have b3 := bounds 3
    simp only [Fin.val_zero,Fin.val_one,Fin.val_two,show ((3 : Fin 4).val) = 3 from rfl] at b0 b1 b2 b3
    simp only [List.map_append,List.pairwise_append,List.mem_append]
    refine ⟨(quarter 0).2,⟨(quarter 1).2,⟨(quarter 2).2,(quarter 3).2,?_⟩,?_⟩,?_⟩
    · intro a a_in b b_in
      have := b2 a a_in
      have := b3 b b_in
      omega
    · intro a a_in b b_in
      have := b1 a a_in
      rcases b_in with b_in | b_in
      · have := b2 b b_in
        omega
      · have := b3 b b_in
        omega
    · intro a a_in b b_in
      have := b0 a a_in
      rcases b_in with b_in | b_in | b_in
      · have := b1 b b_in
        omega
      · have := b2 b b_in
        omega
      · have := b3 b b_in
        omega

-- A walk comes to the tiles of its range that pass, in their order.
theorem visited_exactly (fits : Fits wrap N A p q) (asks : Asks call A p q first last) (x_le : x+2^n ≤ 2^N) (y_le : y+2^n ≤ 2^N)
    (enough : n < fuel) (overlap : first < base + 4^n ∧ base < last) : Exactly wrap A p q n x y base o first last
      (visited wrap (fun s => !s.outside wrap) call fuel (tileSquare A p q n x y base o)) := by
  induction n generalizing fuel x y base o with
  | zero =>
    obtain ⟨fuel,rfl⟩ := Nat.exists_eq_succ_of_ne_zero (Nat.ne_zero_of_lt enough)
    cases gone : (tileSquare A p q 0 x y base o).outside wrap with
    | true =>
      rw [visited_out (by rw [gone]; rfl)]
      exact outside_exactly fits x_le y_le gone
    | false =>
      rw [visited_leaf (by rw [gone]; rfl) (by simp [tileSquare])]
      exact leaf_exactly overlap gone
  | succ n ih =>
    obtain ⟨fuel,rfl⟩ := Nat.exists_eq_succ_of_ne_zero (Nat.ne_zero_of_lt enough)
    cases gone : (tileSquare A p q (n+1) x y base o).outside wrap with
    | true =>
      rw [visited_out (by rw [gone]; rfl)]
      exact outside_exactly fits x_le y_le gone
    | false =>
      rw [visited_quarters (by rw [gone]; rfl) (tileSquare_inner A p q n x y base o)]
      apply quarters_exactly
      intro k
      have bounds := corner_bounds (n := n) o k.val x y
      have asked := asks n x y base o k
      unfold called
      split
      · rename_i yes
        obtain ⟨above,below⟩ := asked.mp yes
        rw [tileSquare_quarter fits x_le y_le]
        exact ih (by omega) (by omega) (by omega) ⟨by rw [Nat.mul_add,Nat.mul_one] at above; omega,below⟩
      · rename_i no
        refine ⟨fun b => ⟨fun member => (nomatch member),?_⟩,List.Pairwise.nil⟩
        rintro ⟨j,less,rfl,range,_⟩
        refine absurd (asked.mpr ?_) no
        rw [Nat.mul_add,Nat.mul_one]
        omega

end

-- The walk of findFirstTile stops at the least.
theorem firstOf_least {l : List Square} {P : Nat → Prop} (exact : ∀ b, b ∈ l.map Square.base ↔ P b)
    (sorted : (l.map Square.base).Pairwise (· < ·)) :
    (∃ t : Nat, firstOf l = t ∧ P t ∧ ∀ b, P b → t ≤ b) ∨ (firstOf l = -1 ∧ ∀ b, ¬P b) := by
  cases l with
  | nil => exact .inr ⟨rfl,fun b holds => nomatch (exact b).mpr holds⟩
  | cons s rest =>
    rw [List.map_cons] at exact sorted
    refine .inl ⟨s.base,rfl,(exact s.base).mp List.mem_cons_self,?_⟩
    intro b holds
    rcases List.mem_cons.mp ((exact b).mpr holds) with rfl | later
    · exact Nat.le_refl _
    · exact Nat.le_of_lt (List.rel_of_pairwise_cons sorted later)

theorem bit_of_block (block k : Nat) (k_lt : k < 32) : (0x80000000#32 >>> block).getLsbD (31 - k) = decide (block = k) := by
  have top : 0x80000000#32 = BitVec.twoPow 32 31 := by decide
  have same : 31 = block + (31 - k) ↔ block = k := by omega
  rw [BitVec.getLsbD_ushiftRight,top,BitVec.getLsbD_twoPow]
  simp only [same]
  rfl

-- A bit is set exactly when the arrays have an entry for the block.
theorem record_mark {blockStart blockMax : Int} {limit : Nat × Nat} (l : List Square) {word : BitVec 32} {found : Nat → Option Leaf}
    (agree : ∀ k, k < 32 → word.getLsbD (31 - k) = (found k).isSome) :
    ∀ k, k < 32 → (l.foldl (mark blockStart blockMax limit) word).getLsbD (31 - k) =
      (l.foldl (record blockStart blockMax limit) found k).isSome := by
  induction l generalizing word found with
  | nil => exact agree
  | cons s rest ih =>
    rw [List.foldl_cons,List.foldl_cons]
    apply ih
    intro k k_lt
    unfold mark record
    split
    · rw [BitVec.getLsbD_or,bit_of_block _ k k_lt,agree k k_lt]
      by_cases same : ((s.base : Int) - blockStart).toNat = k
      · rw [same,Function.update_self]
        simp
      · rw [Function.update_of_ne (Ne.symm same)]
        simp [same]
    · exact agree k k_lt

section
variable {v : Fin 4 → Int × Int} {limit : Nat × Nat} {chunkStart chunkEnd : Nat}

theorem root_tile (v : Fin 4 → Int × Int) : rootSquare (exactTriangle v) =
    tileSquare (exactTriangle v).area (tileX v) (tileY v) 6 0 0 0 (false,false) := by
  have origin : planeAt (exactTriangle v).area (tileX v) (tileY v) 0 0 = (exactTriangle v).area := by
    funext k
    simp [planeAt]
  simp only [tileSquare,origin]
  rfl

-- The walks begin at the root with seven levels of calls.
theorem visited_root (grid : ∀ i, OnGrid (v i)) (asks : Asks call (exactTriangle v).area (tileX v) (tileY v) first last)
    (overlap : first < 4096 ∧ 0 < last) : Exactly wrap32 (exactTriangle v).area (tileX v) (tileY v) 6 0 0 0 (false,false) first last
      (visited wrap32 (fun s => !s.outside wrap32) call 7 (rootSquare (exactTriangle v))) := by
  rw [root_tile]
  exact visited_exactly (exact_fits grid) asks (by decide) (by decide) (by decide) ⟨by omega,overlap.2⟩

-- In vertices: no edge has all four corners of the tile on its outer side.
theorem passes_sides (v : Fin 4 → Int × Int) (tile : Nat) : Passes (exactTriangle v) tile ↔
    ¬∃ k, 0 ≤ side v k (128*((cell 6 (false,false) tile).1 : Nat),128*((cell 6 (false,false) tile).2 : Nat)) ∧
      0 ≤ side v k (128*((cell 6 (false,false) tile).1+1 : Nat),128*((cell 6 (false,false) tile).2 : Nat)) ∧
      0 ≤ side v k (128*((cell 6 (false,false) tile).1 : Nat),128*((cell 6 (false,false) tile).2+1 : Nat)) ∧
      0 ≤ side v k (128*((cell 6 (false,false) tile).1+1 : Nat),128*((cell 6 (false,false) tile).2+1 : Nat)) := by
  have stepX : spu_rlmaska (exactTriangle v).area_dx 6 = tileX v := tile_steps _
  have stepY : spu_rlmaska (exactTriangle v).area_dy 6 = tileY v := tile_steps _
  unfold Passes
  rw [stepX,stepY]
  simp only [plane_exact]

theorem passes_kept (grid : ∀ i, OnGrid (v i)) (tile : Nat) : Passes (exactTriangle v) tile ↔
    Kept wrap32 (exactTriangle v).area (tileX v) (tileY v) (cell 6 (false,false) tile).1 (cell 6 (false,false) tile).2 := by
  have inside := cell_lt 6 (false,false) tile
  have exact := (exact_fits grid).outside_exact (m := 0) (x := (cell 6 (false,false) tile).1) (y := (cell 6 (false,false) tile).2)
    (by omega) (by omega)
  have stepX : spu_rlmaska (exactTriangle v).area_dx 6 = tileX v := tile_steps _
  have stepY : spu_rlmaska (exactTriangle v).area_dy 6 = tileY v := tile_steps _
  unfold Passes Kept
  rw [stepX,stepY,← Bool.not_eq_true,exact]
  rfl

-- Among the tiles of a range, those that pass.
theorem reaches_passes (grid : ∀ i, OnGrid (v i)) (bounded : last ≤ 4096) (b : Nat) :
    Reaches wrap32 (exactTriangle v).area (tileX v) (tileY v) 6 0 0 0 (false,false) first last b ↔
      (first ≤ b ∧ b < last) ∧ Passes (exactTriangle v) b := by
  constructor
  · rintro ⟨j,less,rfl,range,kept⟩
    simp only [Nat.zero_add] at range kept ⊢
    exact ⟨range,(passes_kept grid j).mpr kept⟩
  · rintro ⟨range,passes⟩
    refine ⟨b,by omega,(Nat.zero_add b).symm,range,?_⟩
    simp only [Nat.zero_add]
    exact (passes_kept grid b).mp passes

theorem findFirst_exact (grid : ∀ i, OnGrid (v i)) (ordered : chunkStart ≤ chunkEnd) (bounded : chunkEnd < 4096) :
    (∃ t : Nat, Triangle.findFirstTriangleTile (exactTriangle v) chunkStart chunkEnd = t ∧
      ((chunkStart ≤ t ∧ t ≤ chunkEnd) ∧ Passes (exactTriangle v) t) ∧
      ∀ b, chunkStart ≤ b → b ≤ chunkEnd → Passes (exactTriangle v) b → t ≤ b) ∨
    (Triangle.findFirstTriangleTile (exactTriangle v) chunkStart chunkEnd = -1 ∧
      ∀ b, chunkStart ≤ b → b ≤ chunkEnd → ¬Passes (exactTriangle v) b) := by
  have walk : Triangle.findFirstTriangleTile (exactTriangle v) chunkStart chunkEnd = firstOf (visited wrap32 (fun s => !s.outside wrap32)
      (inRange wrap32 chunkStart (chunkEnd+1)) 7 (rootSquare (exactTriangle v))) :=
    findFirstTile_visited 7 (rootSquare (exactTriangle v)) chunkStart (chunkEnd+1)
  have exactly := visited_root grid (inRange_asks wrap32 _ _ _ chunkStart (chunkEnd+1)) ⟨by omega,by omega⟩
  rw [walk]
  rcases firstOf_least exactly.1 exactly.2 with ⟨t,same,here,least⟩ | ⟨none,nowhere⟩
  · obtain ⟨range,passes⟩ := (reaches_passes grid bounded t).mp here
    refine .inl ⟨t,same,⟨⟨range.1,by omega⟩,passes⟩,?_⟩
    intro b low high there
    exact least b ((reaches_passes grid bounded b).mpr ⟨⟨low,by omega⟩,there⟩)
  · refine .inr ⟨none,?_⟩
    intro b low high there
    exact nowhere b ((reaches_passes grid bounded b).mpr ⟨⟨low,by omega⟩,there⟩)

theorem found_blocks (triangle : Triangle) (limit : Nat × Nat) (firstTile chunkEnd : Nat) (k : Nat) (k_lt : k < 32) :
    (foundBits triangle limit firstTile chunkEnd).getLsbD (31 - k) = (blocksToProcess triangle limit firstTile chunkEnd k).isSome := by
  have walk : blocksToProcess triangle limit firstTile chunkEnd =
      (chunkLeaves triangle chunkEnd).foldl (record firstTile (chunkEnd+1) limit) (fun _ => none) :=
    subdivide_visited 7 (rootSquare triangle) firstTile (chunkEnd+1) limit _
  rw [walk]
  refine record_mark _ ?_ k k_lt
  intro k _
  simp

theorem found_exact (grid : ∀ i, OnGrid (v i)) (bounded : chunkEnd < 4096) (wide : 63 ≤ limit.1 ∧ 63 ≤ limit.2) (k : Nat) (k_lt : k < 32) :
    (foundBits (exactTriangle v) limit chunkStart chunkEnd).getLsbD (31 - k) = true ↔
      chunkStart + k ≤ chunkEnd ∧ Passes (exactTriangle v) (chunkStart + k) := by
  rw [found_blocks _ _ _ _ k k_lt]
  by_cases inside : chunkStart + k < 4096
  · have cells := cell_lt 6 (false,false) (chunkStart + k)
    have shown : ¬(limit.1 < (cell 6 (false,false) (chunkStart + k)).1 ∨ limit.2 < (cell 6 (false,false) (chunkStart + k)).2) := by omega
    rw [blocks_exact grid bounded inside,passes_kept grid,Kept]
    simp only [drawn,shown,decide_false,Bool.not_false,Bool.and_true]
    by_cases early : chunkStart + k ≤ chunkEnd
    · have less : ((chunkStart + k : Nat) : Int) < (chunkEnd : Int) + 1 := by omega
      rw [decide_eq_true less]
      cases outside wrap32 (planeAt (exactTriangle v).area (tileX v) (tileY v) (cell 6 (false,false) (chunkStart + k)).1
        (cell 6 (false,false) (chunkStart + k)).2) (scaled 0 (tileX v)) (scaled 0 (tileY v)) <;> simp [early]
    · have late : ¬((chunkStart + k : Nat) : Int) < (chunkEnd : Int) + 1 := by omega
      rw [decide_eq_false late]
      simp [early]
  · rw [blocks_beyond grid (Nat.not_lt.mp inside)]
    constructor
    · intro none
      cases none
    · intro both
      omega

-- The two walks agree, tile by tile. No square that is ruled out holds a tile that passes,
-- and subdivide comes to no tile behind the chunk.
theorem walks_agree {TRIx TRIy : Lanes} (wordX : ∀ k, Word (TRIx k)) (wordY : ∀ k, Word (TRIy k)) {triangle : Triangle}
    (accepted : imp_triangle TRIx TRIy = some triangle) {chunkStart chunkEnd : Nat} (ordered : chunkStart ≤ chunkEnd)
    (bounded : chunkEnd < 4096) :
    ((∃ t : Nat, Triangle.findFirstTriangleTile triangle chunkStart chunkEnd = t ∧ ((chunkStart ≤ t ∧ t ≤ chunkEnd) ∧ Passes triangle t) ∧
        ∀ b, chunkStart ≤ b → b ≤ chunkEnd → Passes triangle b → t ≤ b) ∨
      (Triangle.findFirstTriangleTile triangle chunkStart chunkEnd = -1 ∧ ∀ b, chunkStart ≤ b → b ≤ chunkEnd → ¬Passes triangle b)) ∧
    (chunkEnd < chunkStart + 16 → ∀ limit : Nat × Nat, 63 ≤ limit.1 ∧ 63 ≤ limit.2 → ∀ k, k < 32 →
      ((foundBits triangle limit chunkStart chunkEnd).getLsbD (31 - k) = true ↔ chunkStart + k ≤ chunkEnd ∧ Passes triangle (chunkStart + k))) ∧
    (∀ s t, Square.Within wrap32 (rootSquare triangle) s → s.outside wrap32 = true → Square.Within wrap32 s t → t.outside wrap32 = true) ∧
    ∀ s ∈ chunkLeaves triangle chunkEnd, (s.base : Int) - chunkStart < chunkEnd + 1 := by
  have grid := vertex_grid wordX wordY
  rw [imp_triangle_exact wordX wordY] at accepted
  split at accepted
  · obtain rfl := Option.some.inj accepted
    refine ⟨findFirst_exact grid ordered bounded,fun _ limit wide k k_lt => found_exact grid bounded wide k k_lt,?_,?_⟩
    · intro s t reached gone within
      rw [root_tile] at reached
      obtain ⟨m,x,y,base,o,rfl,inX,inY⟩ := within_tile (exact_fits grid) (by decide) (by decide) reached
      exact outside_within (exact_fits grid) (by omega) (by omega) gone within
    · intro s member
      have exactly := visited_root grid (beforeEnd_asks wrap32 (exactTriangle (vertex TRIx TRIy)).area (tileX (vertex TRIx TRIy))
        (tileY (vertex TRIx TRIy)) (chunkEnd+1)) ⟨by omega,by omega⟩
      obtain ⟨_,_,_,range,_⟩ := (exactly.1 s.base).mp (List.mem_map_of_mem member)
      omega
  · cases accepted

theorem walks_agree_wide : (∃ t : Nat, Triangle.findFirstTriangleTile (exactTriangle (vertex wideX wideY)) 0 15 = t ∨
    Triangle.findFirstTriangleTile (exactTriangle (vertex wideX wideY)) 0 15 = -1) ∧
    ∀ k, k < 32 → ((foundBits (exactTriangle (vertex wideX wideY)) (63,63) 0 15).getLsbD (31 - k) = true ↔
      0 + k ≤ 15 ∧ Passes (exactTriangle (vertex wideX wideY)) (0 + k)) := by
  obtain ⟨first,found,_⟩ := walks_agree wide_words.1 wide_words.2 wide_accepted (Nat.zero_le 15) (by decide)
  refine ⟨?_,found (by decide) (63,63) (by decide)⟩
  rcases first with ⟨t,same,_⟩ | ⟨none,_⟩
  · exact ⟨t,.inl same⟩
  · exact ⟨0,.inr none⟩

end

end Spugl
