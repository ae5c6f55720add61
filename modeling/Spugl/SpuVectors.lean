import Spugl.FixedSizes

namespace SpuVectors

-- A quadword by its lanes, which hold unsigned numbers. The bytes of a halfword lie high
-- byte first, and word 0 is the one that scalars are taken from.
abbrev Bytes := Fin 16 → Nat

abbrev Halves := Fin 8 → Nat

theorem even_less (j : Fin 8) : 2 * j.val < 16 := by omega

theorem odd_less (j : Fin 8) : 2 * j.val + 1 < 16 := by omega

theorem lane_less (inside : 16 ≤ k ∧ k < 32) : k - 16 < 16 := by omega

def bytes (v : Halves) : Bytes := fun i =>
  if i.val % 2 = 0 then v ⟨i.val / 2,by omega⟩ / 256 else v ⟨i.val / 2,by omega⟩ % 256

def halves (b : Bytes) : Halves := fun j => 256 * b ⟨2 * j.val,even_less j⟩ + b ⟨2 * j.val + 1,odd_less j⟩

def word (b : Bytes) : BitVec 32 := BitVec.ofNat 32 (256 * (256 * (256 * b 0 + b 1) + b 2) + b 3)

-- An array of sixteen halfwords is two quadwords.
abbrev Array16 := Fin 16 → Nat

def front (v : Array16) : Halves := fun j => v ⟨j.val,by omega⟩

def back (v : Array16) : Halves := fun j => v ⟨8 + j.val,by omega⟩

-- A control byte selects a byte of both operands, or from 128 on a constant.
def spu_shuffle (a b c : Bytes) : Bytes := fun i =>
  if 224 ≤ c i then 128
  else if 192 ≤ c i then 255
  else if 128 ≤ c i then 0
  else if h : c i % 32 < 16 then a ⟨c i % 32,h⟩ else b ⟨c i % 32 - 16,by omega⟩

def spu_splats (x : Nat) : Bytes := fun _ => x
def spu_and (a b : Bytes) : Bytes := fun i => a i &&& b i
def spu_or (a b : Bytes) : Bytes := fun i => a i ||| b i
def spu_nor (a b : Bytes) : Bytes := fun i => 255 - (a i ||| b i)
def spu_orc (a b : Bytes) : Bytes := fun i => a i ||| (255 - b i)
def cmpeqBytes (a b : Bytes) : Bytes := fun i => if a i = b i then 255 else 0
def cmpgtBytes (a b : Bytes) : Bytes := fun i => if b i < a i then 255 else 0

def splatsHalves (x : Nat) : Halves := fun _ => x
def cmpeqHalves (a b : Halves) : Halves := fun j => if a j = b j then 65535 else 0
def cmpgtHalves (a b : Halves) : Halves := fun j => if b j < a j then 65535 else 0
def slHalves (a : Halves) (n : Nat) : Halves := fun j => a j * 2^n % 65536
def subHalves (a b : Halves) : Halves := fun j => (a j + 65536 - b j) % 65536
def selHalves (a b mask : Halves) : Halves := fun j => (a j &&& (65535 - mask j)) ||| (b j &&& mask j)

-- The lowest bits of the bytes, on the right of word 0.
def spu_gather (b : Bytes) : BitVec 32 := (BitVec.ofFnBE fun i : Fin 16 => b i % 2 == 1).setWidth 32

def spu_cntlz (w : BitVec 32) : BitVec 32 := BitVec.ofNat 32 ((List.range 32).findIdx w.getMsbD)

-- Words are selected whole here: a mask is what a comparison gives.
def cmpeqWord (a b : BitVec 32) : BitVec 32 := if a = b then BitVec.allOnes 32 else 0

def selWord (a b mask : BitVec 32) : BitVec 32 := (a &&& ~~~mask) ||| (b &&& mask)

def si_rotqby (a : Bytes) (count : BitVec 32) : Bytes := fun i => a ⟨(i.val + count.toNat) % 16,by omega⟩

-- The controls that put byte 3 of the first operand at an address.
def si_cbd (address : BitVec 32) : Bytes := fun i => if i.val = address.toNat % 16 then 3 else 16 + i.val

@[simp] theorem halves_bytes (v : Halves) : halves (bytes v) = v := by
  funext j
  have even : 2 * j.val % 2 = 0 := by omega
  have odd : ¬(2 * j.val + 1) % 2 = 0 := by omega
  have first : 2 * j.val / 2 = j.val := by omega
  have second : (2 * j.val + 1) / 2 = j.val := by omega
  simp only [halves,bytes,even,odd,if_true,if_false,first,second]
  exact Nat.div_add_mod (v j) 256

theorem shuffle_first {a b c : Bytes} (at_ : c i = k) (less : k < 16) : spu_shuffle a b c i = a ⟨k,less⟩ := by
  have place : c i % 32 = k := by omega
  unfold spu_shuffle
  rw [if_neg (by omega),if_neg (by omega),if_neg (by omega),dif_pos (by omega)]
  simp only [place]

theorem shuffle_second {a b c : Bytes} (at_ : c i = 16 + k) (less : k < 16) : spu_shuffle a b c i = b ⟨k,less⟩ := by
  have place : c i % 32 - 16 = k := by omega
  unfold spu_shuffle
  rw [if_neg (by omega),if_neg (by omega),if_neg (by omega),dif_neg (by omega)]
  simp only [place]

-- A byte of an array by its number.
def byteOf (v : Array16) (n : Nat) (less : n < 32) : Nat :=
  if n % 2 = 0 then v ⟨n / 2,by omega⟩ / 256 else v ⟨n / 2,by omega⟩ % 256

theorem shuffle_array (v : Array16) (c : Bytes) (i : Fin 16) (small : c i < 128) :
    spu_shuffle (bytes (front v)) (bytes (back v)) c i = byteOf v (c i % 32) (Nat.mod_lt _ (by decide)) := by
  unfold spu_shuffle byteOf bytes front back
  rw [if_neg (by omega),if_neg (by omega),if_neg (by omega)]
  split
  · rfl
  · rename_i high
    have parity : (c i % 32 - 16) % 2 = c i % 32 % 2 := by omega
    have place : 8 + (c i % 32 - 16) / 2 = c i % 32 / 2 := by omega
    simp only [parity,place]

theorem gather_bit (b : Bytes) (k : Nat) :
    (spu_gather b).getMsbD k = if h : 16 ≤ k ∧ k < 32 then b ⟨k - 16,lane_less h⟩ % 2 == 1 else false := by
  unfold spu_gather
  rw [BitVec.getMsbD_setWidth,BitVec.getMsbD_ofFnBE]
  by_cases inside : 16 ≤ k ∧ k < 32
  · have place : k + 16 - 32 = k - 16 := by omega
    have less : k + 16 - 32 < 16 := by omega
    rw [dif_pos less,dif_pos inside,decide_eq_true (show 32 - 16 ≤ k by omega)]
    simp only [place,Bool.true_and]
  · rw [dif_neg inside]
    by_cases low : 32 - 16 ≤ k
    · have high : ¬k + 16 - 32 < 16 := by omega
      rw [dif_neg high,Bool.and_false]
    · rw [decide_eq_false low,Bool.false_and]

-- The sixteen lanes at the front of a word.
def Lanes16 (w : BitVec 32) (lane : Fin 16 → Bool) : Prop := ∀ k, k < 32 → w.getMsbD k = if h : k < 16 then lane ⟨k,h⟩ else false

theorem gather_lanes (b : Bytes) : Lanes16 (spu_gather b <<< 16) fun i => b i % 2 == 1 := by
  intro k less
  rw [BitVec.getMsbD_shiftLeft,gather_bit]
  by_cases low : k < 16
  · have inside : 16 ≤ k + 16 ∧ k + 16 < 32 := by omega
    rw [dif_pos inside,dif_pos low]
    simp only [Nat.add_sub_cancel]
  · rw [dif_neg low,dif_neg (by omega)]

theorem cntlz_at {w : BitVec 32} (less : i < 32) (here : w.getMsbD i = true) (before : ∀ j, j < i → w.getMsbD j = false) :
    spu_cntlz w = BitVec.ofNat 32 i := by
  have found : (List.range 32).findIdx w.getMsbD = i := by
    rw [List.findIdx_eq (by simpa using less)]
    simp only [List.getElem_range]
    exact ⟨here,before⟩
  rw [spu_cntlz,found]

theorem word_zero {w : BitVec 32} : w = 0 ↔ ∀ i, i < 32 → w.getMsbD i = false := by
  constructor
  · rintro rfl i _
    exact BitVec.getMsbD_zero
  · intro none
    apply BitVec.eq_of_getMsbD_eq
    intro i less
    rw [none i less]
    exact BitVec.getMsbD_zero.symm

theorem Lanes16.zero {w : BitVec 32} (lanes : Lanes16 w lane) : w = 0 ↔ ∀ i, lane i = false := by
  rw [word_zero]
  constructor
  · intro none i
    have bit := lanes i.val (by omega)
    rw [none i.val (by omega),dif_pos i.isLt] at bit
    exact bit.symm
  · intro none k less
    rw [lanes k less]
    split
    · exact none _
    · rfl

theorem Lanes16.cntlz {w : BitVec 32} (lanes : Lanes16 w lane) (here : lane i = true) (before : ∀ j, j < i → lane j = false) :
    spu_cntlz w = BitVec.ofNat 32 i.val := by
  apply cntlz_at (by omega)
  · rw [lanes i.val (by omega),dif_pos i.isLt]
    exact here
  · intro j less
    rw [lanes j (by omega),dif_pos (by omega)]
    exact before _ less

-- Only the low byte of word 0 counts in an address or in a rotation.
theorem word_toNat (b : Bytes) : (word b).toNat % 256 = b 3 % 256 := by
  unfold word
  rw [BitVec.toNat_ofNat]
  omega

theorem rotqby_word (a b : Bytes) (small : b 3 < 16) : si_rotqby a (word b + 13) 3 = a ⟨b 3,small⟩ := by
  have low := word_toNat b
  have count : (word b + 13).toNat % 16 = (b 3 + 13) % 16 := by
    rw [BitVec.toNat_add]
    have thirteen : (13 : BitVec 32).toNat = 13 := rfl
    omega
  have place : (3 + (word b + 13).toNat) % 16 = b 3 := by omega
  unfold si_rotqby
  exact congrArg a (Fin.ext place)

theorem rotqby_number (a : Bytes) (i : Fin 16) : si_rotqby a (BitVec.ofNat 32 i.val + 13) 3 = a i := by
  have place : ∀ i : Fin 16, (3 + (BitVec.ofNat 32 i.val + 13).toNat) % 16 = i.val := by decide
  unfold si_rotqby
  exact congrArg a (Fin.ext (place i))

theorem shuffle_cbd (a b : Bytes) (address : BitVec 32) (i : Fin 16) :
    spu_shuffle a b (si_cbd address) i = if i.val = address.toNat % 16 then a 3 else b i := by
  by_cases here : i.val = address.toNat % 16
  · rw [if_pos here,shuffle_first (k := 3) (by rw [si_cbd,if_pos here]) (by decide)]
    rfl
  · rw [if_neg here,shuffle_second (k := i.val) (by rw [si_cbd,if_neg here]) i.isLt]

-- 0x80000000>>k
def bitAt (k : Nat) : BitVec 32 := 0x80000000#32 >>> k

-- while (found) { block = cntlz(found); found &= ~(0x80000000>>block); ... }
def setBits : Nat → BitVec 32 → List Nat
  | 0,_ => []
  | fuel+1,found =>
    let block := (spu_cntlz found).toNat
    if found = 0 then [] else block :: setBits fuel (found &&& ~~~bitAt block)

theorem bitAt_bit (less : j < 32) : (bitAt k).getMsbD j = decide (j = k) := by
  have first : ∀ i : Fin 32, (0x80000000#32).getMsbD i.val = decide (i.val = 0) := by decide
  unfold bitAt
  rw [BitVec.getMsbD_ushiftRight]
  rw [decide_eq_true less,Bool.true_and]
  by_cases before : j < k
  · rw [decide_eq_true before,decide_eq_false (by omega)]
    rfl
  · have here : (0x80000000#32).getMsbD (j-k) = decide (j-k = 0) := first ⟨j-k,by omega⟩
    rw [here,decide_eq_false before,Bool.not_false,Bool.true_and]
    exact decide_eq_decide.mpr (by omega)

theorem first_bit {w : BitVec 32} (some_ : w ≠ 0) : ∃ k, k < 32 ∧ w.getMsbD k = true ∧ ∀ j, j < k → w.getMsbD j = false := by
  have there : ∃ k, k < 32 ∧ w.getMsbD k = true := by
    by_contra none
    push Not at none
    exact some_ (word_zero.mpr fun k less => Bool.eq_false_iff.mpr (none k less))
  classical
  refine ⟨Nat.find there,(Nat.find_spec there).1,(Nat.find_spec there).2,?_⟩
  intro j less
  have early := Nat.find_min there less
  have inside := (Nat.find_spec there).1
  exact Bool.eq_false_iff.mpr fun bit => early ⟨by omega,bit⟩

-- The loop meets the bits from the front.
theorem setBits_exact {found : BitVec 32} (clear : ∀ k, k < n → found.getMsbD k = false) (enough : 32 ≤ fuel + n) :
    setBits fuel found = (List.range' n (32-n)).filter found.getMsbD := by
  induction fuel generalizing n found with
  | zero =>
    have none : 32 - n = 0 := by omega
    rw [none]
    rfl
  | succ fuel ih =>
    unfold setBits
    simp only
    split
    · rename_i zero
      rw [eq_comm,List.filter_eq_nil_iff]
      intro k _
      rw [zero,BitVec.ofNat_eq_ofNat,BitVec.getMsbD_zero]
      exact nofun
    · rename_i some_
      obtain ⟨k,less,here,before⟩ := first_bit some_
      have from_ : n ≤ k := by
        by_contra early
        rw [clear k (by omega)] at here
        cases here
      have number : (spu_cntlz found).toNat = k := by
        rw [cntlz_at less here before,BitVec.toNat_ofNat]
        omega
      have rest {j : Nat} (inside : j < 32) : (found &&& ~~~bitAt k).getMsbD j = (found.getMsbD j && !decide (j = k)) := by
        rw [BitVec.getMsbD_and,BitVec.getMsbD_not,bitAt_bit inside,decide_eq_true inside,Bool.true_and]
      have cleared : ∀ j, j < k+1 → (found &&& ~~~bitAt k).getMsbD j = false := by
        intro j early
        rw [rest (by omega)]
        by_cases isK : j = k
        · simp [isK]
        · rw [before j (by omega),Bool.false_and]
      have later : setBits fuel (found &&& ~~~bitAt k) = (List.range' (k+1) (32-(k+1))).filter (found &&& ~~~bitAt k).getMsbD :=
        ih cleared (by omega)
      have parts : List.range' n (32-n) = List.range' n (k-n) ++ k :: List.range' (k+1) (32-(k+1)) := by
        have count : 32 - n = (k-n) + (1 + (32-(k+1))) := by omega
        rw [count,← List.range'_append_1,← List.range'_append_1]
        have place : n + (k-n) = k := by omega
        rw [place]
        rfl
      have nothing : (List.range' n (k-n)).filter found.getMsbD = [] := by
        rw [List.filter_eq_nil_iff]
        intro j member
        rw [before j (by have := List.mem_range'_1.mp member; omega)]
        exact nofun
      rw [number,later,parts,List.filter_append,nothing,List.nil_append,List.filter_cons_of_pos here]
      congr 1
      apply List.filter_congr
      intro j member
      have inside := List.mem_range'_1.mp member
      rw [rest (by omega),decide_eq_false (by omega),Bool.not_false,Bool.and_true]

end SpuVectors
