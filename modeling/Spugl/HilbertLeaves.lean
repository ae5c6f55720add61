import Spugl.TileVisits

namespace Spugl
open HilbertWalk

-- A delta is halved downwards in the lower half of a square and upwards in the upper one.
def part (half : Bool) (d : Int) : Int := if half then d - d / 2 else d / 2

def shift (half : Bool) (d : Int) : Int := if half then d / 2 else 0

-- What the first x of 2^n steps make of a delta.
def slope : Nat → Int → Nat → Int
  | 0,_,_ => 0
  | n+1,d,x => shift (decide (2^n ≤ x)) d + slope n (part (decide (2^n ≤ x)) d) (x % 2^n)

theorem slope_offset (less : a < 2^n) (half : Bool) (d : Int) :
    slope (n+1) d (offset n half + a) = shift half d + slope n (part half d) a := by
  obtain ⟨above,rest⟩ := offset_split less half
  rw [slope,above,rest]

theorem slope_exact (less : x < 2^n) (d : Int) : slope n (2^n * d) x = x * d := by
  induction n generalizing x with
  | zero =>
    obtain rfl := Nat.lt_one_iff.mp less
    simp [slope]
  | succ n ih =>
    have rest : x % 2^n < 2^n := Nat.mod_lt x (Nat.pow_pos (by decide))
    have half : (2:Int)^(n+1) * d / 2 = 2^n * d := by rw [pow_succ,Int.mul_right_comm]; omega
    have parts (h : Bool) : part h (2^(n+1) * d) = 2^n * d := by
      cases h with
      | false => exact half
      | true =>
        simp only [part,if_true,half]
        rw [pow_succ]
        ring
    have whole : ((offset n (decide (2^n ≤ x)) : Nat) : Int) + (x % 2^n : Nat) = x := by
      exact_mod_cast split_offset less
    rw [slope,parts,ih rest,← whole,Int.add_mul]
    congr 1
    by_cases above : 2^n ≤ x
    · simp [shift,offset,above,half]
    · simp [shift,offset,above]

-- The square that a walk of depth n starts with.
def square (n : Nat) (A Adx Ady : Lanes) (x y base : Nat) (type : Turn) : Square :=
  ⟨A,Adx,Ady,(x,y),2^n,base,fun k => 4^n * (k+1),type⟩

theorem halved (a : Lanes) : spu_rlmaska a 1 = fun l => a l / 2 := by
  funext l
  simp only [spu_rlmaska,pow_one]

theorem plain_add (a b : Lanes) : spu_add id a b = fun l => a l + b l := rfl

theorem plain_sub (a b : Lanes) : spu_sub id a b = fun l => a l - b l := rfl

theorem square_quarter (n : Nat) (A Adx Ady : Lanes) (x y base : Nat) (o : Turn) (k : Fin 4) :
    (square (n+1) A Adx Ady x y base o).quarter id k =
      square n (fun l => A l + shift (corner o k).1 (Adx l) + shift (corner o k).2 (Ady l)) (fun l => part (corner o k).1 (Adx l))
        (fun l => part (corner o k).2 (Ady l)) (x + offset n (corner o k).1) (y + offset n (corner o k).2) (base + 4^n * k)
        (turn o k) := by
  have half : 2^(n+1) / 2 = 2^n := by rw [pow_succ]; omega
  have quarters : (fun k : Fin 4 => 4^(n+1) * (k.val+1) / 4) = fun k => 4^n * (k.val+1) := by
    funext k
    rw [pow_succ,Nat.mul_right_comm,Nat.mul_div_cancel _ (by decide)]
  obtain ⟨b0,b1⟩ := o
  unfold Square.quarter square
  simp only [half,quarters,halved,plain_add,plain_sub]
  match k with
  | 0 => cases b1 <;> simp [corner,turn,shift,part,offset,spu_sel,wordsRight]
  | 1 => cases b0 <;> simp [corner,turn,shift,part,offset,spu_sel,wordsRight]
  | 2 => cases b1 <;> simp [corner,turn,shift,part,offset,spu_sel,wordsRight]
  | 3 => cases b0 <;> simp [corner,turn,shift,part,offset,spu_sel,wordsRight]

-- A leaf by its index.
def leafNumber (n : Nat) (A Adx Ady : Lanes) (x y base : Nat) (o : Turn) (b : Nat) : Nat × (Nat × Nat) × Lanes :=
  (base + b,(x + (cell n o b).1,y + (cell n o b).2),
    fun l => A l + slope n (Adx l) (cell n o b).1 + slope n (Ady l) (cell n o b).2)

theorem leafNumber_quarter (n : Nat) (A Adx Ady : Lanes) (x y base : Nat) (o : Turn) (k : Nat) (less : b < 4^n) :
    leafNumber n (fun l => A l + shift (corner o k).1 (Adx l) + shift (corner o k).2 (Ady l)) (fun l => part (corner o k).1 (Adx l))
        (fun l => part (corner o k).2 (Ady l)) (x + offset n (corner o k).1) (y + offset n (corner o k).2) (base + 4^n * k)
        (turn o k) b =
      leafNumber (n+1) A Adx Ady x y base o (4^n * k + b) := by
  have positive : 0 < 4^n := Nat.pow_pos (by decide)
  have q : (4^n * k + b) / 4^n = k := by rw [Nat.mul_add_div positive,Nat.div_eq_of_lt less,Nat.add_zero]
  have rest : (4^n * k + b) % 4^n = b := by rw [Nat.mul_add_mod,Nat.mod_eq_of_lt less]
  have inner := cell_lt n (turn o k) b
  unfold leafNumber
  simp only [cell,q,rest,slope_offset inner.1,slope_offset inner.2,Nat.add_assoc,Prod.mk.injEq,true_and]
  funext l
  ring

theorem range_quarters (m : Nat) : List.range (m * 4) = (List.range m).map (m * 0 + ·) ++ ((List.range m).map (m * 1 + ·) ++
    ((List.range m).map (m * 2 + ·) ++ (List.range m).map (m * 3 + ·))) := by
  have sum : m * 4 = m + (m + (m + m)) := by omega
  rw [sum,List.range_add,List.range_add,List.range_add]
  simp only [List.map_append,List.map_map,Nat.mul_zero,Nat.mul_one,Function.comp_def,← Nat.add_assoc,Nat.zero_add,List.map_id_fun',
    id_eq]
  congr 3
  all_goals simp only [List.map_inj_left]; intro b _; omega

theorem leaves_exact (n extra : Nat) (A Adx Ady : Lanes) (x y base : Nat) (o : Turn) :
    (leaves id (n + 1 + extra) (square n A Adx Ady x y base o)).map (fun s => (s.base,s.y,s.A)) =
      (List.range (4^n)).map (leafNumber n A Adx Ady x y base o) := by
  induction n generalizing A Adx Ady x y base o with
  | zero =>
    have fuel : 0 + 1 + extra = extra + 1 := by omega
    rw [leaves,fuel,visited_leaf rfl (by simp [square])]
    simp [square,leafNumber,cell,slope]
  | succ n ih =>
    have inner : (square (n+1) A Adx Ady x y base o).i / 2 ≠ 0 := by
      have positive : 0 < 2^n := Nat.pow_pos (by decide)
      simp only [square,pow_succ]
      omega
    have fuel : n + 1 + 1 + extra = (n + 1 + extra) + 1 := by omega
    rw [leaves,fuel,visited_quarters rfl inner]
    simp only [List.map_append,called,if_true,square_quarter]
    rw [pow_succ,range_quarters]
    simp only [List.map_append,List.map_map]
    have quarter (k : Fin 4) : List.map (fun s : Square => (s.base,s.y,s.A)) (visited id (fun _ => true) (fun _ _ => true) (n + 1 + extra)
        (square n (fun l => A l + shift (corner o k).1 (Adx l) + shift (corner o k).2 (Ady l)) (fun l => part (corner o k).1 (Adx l))
          (fun l => part (corner o k).2 (Ady l)) (x + offset n (corner o k).1) (y + offset n (corner o k).2) (base + 4^n * k)
          (turn o k))) = (List.range (4^n)).map (leafNumber (n+1) A Adx Ady x y base o ∘ (4^n * k + ·)) := by
      refine (ih _ _ _ _ _ _ _).trans (List.map_congr_left ?_)
      intro b member
      exact leafNumber_quarter n A Adx Ady x y base o k (List.mem_range.mp member)
    exact congrArg₂ (· ++ ·) (quarter 0) (congrArg₂ (· ++ ·) (quarter 1) (congrArg₂ (· ++ ·) (quarter 2) (quarter 3)))

section
variable (n extra : Nat) (A Adx Ady : Lanes) (type : Turn)

-- The walk over the whole grid, as it is begun with base 0.
def grid : List Square := leaves id (n + 1 + extra) (square n A Adx Ady 0 0 0 type)

theorem grid_bases : (grid n extra A Adx Ady type).map Square.base = List.range (4^n) := by
  have exact := congrArg (List.map Prod.fst) (leaves_exact n extra A Adx Ady 0 0 0 type)
  simp only [List.map_map] at exact
  refine exact.trans ((List.map_congr_left fun b _ => ?_).trans (List.map_id _))
  exact Nat.zero_add b

theorem grid_places : (grid n extra A Adx Ady type).map Square.y = (List.range (4^n)).map (cell n type) := by
  have exact := congrArg (List.map fun v : Nat × (Nat × Nat) × Lanes => v.2.1) (leaves_exact n extra A Adx Ady 0 0 0 type)
  simp only [List.map_map] at exact
  refine exact.trans (List.map_congr_left fun b _ => ?_)
  exact Prod.ext (Nat.zero_add _) (Nat.zero_add _)

theorem grid_values : ∀ s ∈ grid n extra A Adx Ady type, ∀ k, s.A k = A k + slope n (Adx k) s.y.1 + slope n (Ady k) s.y.2 := by
  intro s member k
  have there := List.mem_map_of_mem (f := fun s : Square => (s.base,s.y,s.A)) member
  rw [grid,leaves_exact] at there
  obtain ⟨b,_,same⟩ := List.mem_map.mp there
  simp only [leafNumber,Nat.zero_add,Prod.mk.injEq] at same
  rw [← same.2.1,← same.2.2]

theorem cells_cover : (grid n extra A Adx Ady type).map Square.y |>.Nodup := by
  rw [grid_places]
  refine List.Nodup.map_on ?_ List.nodup_range
  intro b b_in b' b'_in same
  rw [← index_cell (o := type) (List.mem_range.mp b_in),same,index_cell (List.mem_range.mp b'_in)]

theorem cells_within (x y : Nat) : (x,y) ∈ (grid n extra A Adx Ady type).map Square.y ↔ x < 2^n ∧ y < 2^n := by
  rw [grid_places]
  constructor
  · intro member
    obtain ⟨b,_,same⟩ := List.mem_map.mp member
    have inside := cell_lt n type b
    rw [same] at inside
    exact inside
  · intro inside
    exact List.mem_map.mpr ⟨index n type x y,List.mem_range.mpr (index_lt n type x y),cell_index inside.1 inside.2⟩

theorem cells_chain : ((grid n extra A Adx Ady type).map Square.y).IsChain Adjacent := by
  rw [grid_places,List.isChain_iff_getElem]
  intro b inside
  simp only [List.length_map,List.length_range] at inside
  simp only [List.getElem_map,List.getElem_range]
  exact cell_next inside

end

-- The walk of both functions, at every depth and from every orientation.
theorem subdivision_hilbert (n : Nat) : ∃ f g : Int → Nat → Int,
    (∀ d x, x < 2^n → 2^n ∣ d → f d x = x * d / 2^n ∧ g d x = x * d / 2^n) ∧
    ∀ (extra : Nat) (A Adx Ady : Lanes) (type : Turn), ∃ walk, walk = grid n extra A Adx Ady type ∧
      walk.map Square.base = List.range (4^n) ∧
      (walk.map Square.y).Nodup ∧ (∀ x y, (x,y) ∈ walk.map Square.y ↔ x < 2^n ∧ y < 2^n) ∧
      (walk.map Square.y).IsChain Adjacent ∧
      (∀ s ∈ walk, ∀ k, s.A k = A k + f (Adx k) s.y.1 + g (Ady k) s.y.2) ∧
      (∀ blockStart blockMax limit found, subdivide id (n + 1 + extra) A Adx Ady (0,0) (2^n) 0 (fun k => 4^n * (k+1)) type blockStart blockMax
        limit found = (visited id (fun s => !s.outside id) (beforeEnd id blockMax) (n + 1 + extra) (square n A Adx Ady 0 0 0 type)).foldl
          (record blockStart blockMax limit) found) ∧
      ∀ v_start v_end, findFirstTile id (n + 1 + extra) A Adx Ady (0,0) (2^n) 0 (fun k => 4^n * (k+1)) type v_start v_end =
        firstOf (visited id (fun s => !s.outside id) (inRange id v_start v_end) (n + 1 + extra) (square n A Adx Ady 0 0 0 type)) := by
  refine ⟨slope n,slope n,?_,?_⟩
  · intro d x less divides
    obtain ⟨e,rfl⟩ := divides
    have positive : (0:Int) < 2^n := Int.pow_pos (by decide)
    have exact : (x : Int) * (2^n * e) / 2^n = x * e := by
      rw [Int.mul_left_comm,Int.mul_ediv_cancel_left _ positive.ne']
    rw [exact]
    exact ⟨slope_exact less e,slope_exact less e⟩
  · intro extra A Adx Ady type
    refine ⟨_,rfl,grid_bases n extra A Adx Ady type,cells_cover n extra A Adx Ady type,cells_within n extra A Adx Ady type,
      cells_chain n extra A Adx Ady type,grid_values n extra A Adx Ady type,?_,?_⟩
    · intro blockStart blockMax limit found
      exact subdivide_visited (n + 1 + extra) (square n A Adx Ady 0 0 0 type) blockStart blockMax limit found
    · intro v_start v_end
      exact findFirstTile_visited (n + 1 + extra) (square n A Adx Ady 0 0 0 type) v_start v_end

theorem subdivision_hilbert_two : ∃ f g : Int → Nat → Int, f 6 1 = 3 ∧ g 4 1 = 2 ∧
    ∀ s ∈ grid 1 0 (fun _ => 5) (fun _ => 6) (fun _ => 4) (false,false), ∀ k, s.A k = 5 + f 6 s.y.1 + g 4 s.y.2 := by
  obtain ⟨f,g,steps,walks⟩ := subdivision_hilbert 1
  obtain ⟨walk,rfl,_,_,_,_,values,_⟩ := walks 0 (fun _ => 5) (fun _ => 6) (fun _ => 4) (false,false)
  exact ⟨f,g,(steps 6 1 (by decide) (by decide)).1,(steps 4 1 (by decide) (by decide)).2,values⟩

end Spugl
