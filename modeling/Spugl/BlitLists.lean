import Spugl.WriteBack
import Spugl.FixedSizes

namespace Spugl
open WriteBack

-- What the cache line says of the frame.
structure PixelTiles where
  pixelBuffer : BitVec 64
  pixelTileDx : BitVec 32
  pixelTileDy : BitVec 32
  pixelLineDy : BitVec 32
  maxBlockX : BitVec 8
  maxBlockY : BitVec 8

-- And what blockManagementCreateRenderable writes there.
def createRenderable (buffer : BitVec 64) (width height stride : Int) : PixelTiles where
  pixelBuffer := buffer + BitVec.ofInt 64 ((stride * (height % 32)).tdiv 2)
  pixelTileDx := 4 * 32
  pixelTileDy := BitVec.ofInt 32 (stride * 32)
  pixelLineDy := BitVec.ofInt 32 stride
  maxBlockX := BitVec.ofInt 8 (width / 32 - 1)
  maxBlockY := BitVec.ofInt 8 (height / 32 - 1)

def mfc_ea2h (ea : BitVec 64) : BitVec 32 := (ea >>> 32).setWidth 32

def mfc_ea2l (ea : BitVec 64) : BitVec 32 := ea.setWidth 32

-- The elements of a DMA list: a size and the low word of an address.
abbrev DmaList := List (BitVec 32 × BitVec 32)

def populate_blit_list (eal lineDy : BitVec 32) : DmaList :=
  let eal1 := eal + lineDy
  let stride2 := lineDy <<< 1
  let stride8 := lineDy <<< 3
  let block0 : Fin 4 → BitVec 32 := ![128,eal,128,eal1]
  let step2 : Fin 4 → BitVec 32 := ![0,stride2,0,stride2]
  let step4 := step2 + step2
  let step6 := step4 + step2
  let step8 : Fin 4 → BitVec 32 := ![0,stride8,0,stride8]
  let step16 := step8 + step8
  let block2 := block0 + step2
  let block4 := block0 + step4
  let block6 := block0 + step6
  let block8 := block0 + step8
  let block10 := block8 + step2
  let block12 := block8 + step4
  let block14 := block8 + step6
  let block16 := block8 + step8
  let block18 := step16 + block2
  let block20 := step16 + block4
  let block22 := step16 + block6
  let block24 := step16 + block8
  let block26 := step16 + block10
  let block28 := step16 + block12
  let block30 := step16 + block14
  [block0,block2,block4,block6,block8,block10,block12,block14,block16,block18,block20,block22,block24,block26,block28,block30].flatMap
    fun v => [(v 0,v 1),(v 2,v 3)]

-- A list command: all its elements lie in the 4GB that its EAH names.
structure Transfer where
  eah : BitVec 32
  list : DmaList
  deriving DecidableEq

def Transfer.addresses (t : Transfer) : List (BitVec 64) :=
  t.list.flatMap fun element => (List.range element.1.toNat).map fun i => (t.eah ++ element.2 : BitVec 64) + BitVec.ofNat 64 i

-- A block_buffer has 4*32*32 bytes, and its list moves as many.
def Transfer.address (t : Transfer) (n : Fin 4096) : BitVec 64 := t.addresses[n.val]?.getD 0

namespace PixelTiles

def pixelbuffer_ea (cache : PixelTiles) (coord : Nat × Nat) : BitVec 64 :=
  let offsetx := BitVec.ofNat 32 coord.1 * cache.pixelTileDx
  let offsety := BitVec.ofNat 32 coord.2 * cache.pixelTileDy
  cache.pixelBuffer + offsetx.setWidth 64 + offsety.setWidth 64

def transfer (cache : PixelTiles) (coord : Nat × Nat) : Transfer :=
  let ea := cache.pixelbuffer_ea coord
  ⟨mfc_ea2h ea,populate_blit_list (mfc_ea2l ea) cache.pixelLineDy⟩

-- A tile of the frame: 32 lines of 128 bytes.
def tile (cache : PixelTiles) (coord : Nat × Nat) (n : Fin 4096) : BitVec 64 :=
  let ea := cache.pixelbuffer_ea coord
  let line := mfc_ea2l ea + BitVec.ofNat 32 (n.val / 128) * cache.pixelLineDy
  (mfc_ea2h ea ++ line : BitVec 64) + BitVec.ofNat 64 (n.val % 128)

def inFrame (cache : PixelTiles) (coord : Nat × Nat) : Prop :=
  coord.1 ≤ cache.maxBlockX.toNat ∧ coord.2 ≤ cache.maxBlockY.toNat

end PixelTiles

section
variable (eal lineDy : BitVec 32)

-- Two lines of a tile, and the distance from one pair of lines to another.
def linePair (k : BitVec 32) : Fin 4 → BitVec 32 := ![128,eal + k * lineDy,128,eal + (k+1) * lineDy]

def lineStep (m : BitVec 32) : Fin 4 → BitVec 32 := ![0,m * lineDy,0,m * lineDy]

theorem lineStep_add (m m' : BitVec 32) : lineStep lineDy m + lineStep lineDy m' = lineStep lineDy (m+m') := by
  simp [lineStep,add_mul]

theorem linePair_add (k m : BitVec 32) : linePair eal lineDy k + lineStep lineDy m = linePair eal lineDy (k+m) := by
  have one : eal + k * lineDy + m * lineDy = eal + (k+m) * lineDy := by ring
  have other : eal + (k+1) * lineDy + m * lineDy = eal + (k+m+1) * lineDy := by ring
  simp only [linePair,lineStep,Matrix.cons_add_cons,add_zero,Matrix.empty_add_empty,one,other]

theorem lineStep_pair (k m : BitVec 32) : lineStep lineDy m + linePair eal lineDy k = linePair eal lineDy (k+m) := by
  rw [add_comm,linePair_add]

theorem populate_pairs : populate_blit_list eal lineDy = ((List.range 16).map fun k => linePair eal lineDy (BitVec.ofNat 32 (2*k))).flatMap
    fun v => [(v 0,v 1),(v 2,v 3)] := by
  have first : (![128,eal,128,eal + lineDy] : Fin 4 → BitVec 32) = linePair eal lineDy 0 := by simp [linePair]
  have two : (![0,lineDy <<< 1,0,lineDy <<< 1] : Fin 4 → BitVec 32) = lineStep lineDy 2 := by
    rw [BitVec.shiftLeft_eq_mul_twoPow,mul_comm lineDy]
    rfl
  have eight : (![0,lineDy <<< 3,0,lineDy <<< 3] : Fin 4 → BitVec 32) = lineStep lineDy 8 := by
    rw [BitVec.shiftLeft_eq_mul_twoPow,mul_comm lineDy]
    rfl
  unfold populate_blit_list
  simp only [first,two,eight,lineStep_add,linePair_add,lineStep_pair]
  rfl

theorem blit_list_lines : populate_blit_list eal lineDy = (List.range 32).map fun k => (128,eal + BitVec.ofNat 32 k * lineDy) := by
  have next (k : Nat) : BitVec.ofNat 32 (2*k) + 1 = BitVec.ofNat 32 (2*k+1) := (BitVec.ofNat_add ..).symm
  rw [populate_pairs]
  simp only [List.flatMap_map,linePair,Matrix.cons_val,next]
  rfl

end

-- Rows of equal length, one behind the other.
theorem flatMap_rows (f : Nat → Nat → α) (rows width : Nat) (positive : 0 < width) :
    ((List.range rows).flatMap fun k => (List.range width).map (f k)) = (List.range (rows * width)).map fun n => f (n / width) (n % width) := by
  induction rows with
  | zero => simp
  | succ rows ih =>
    rw [List.range_succ,List.flatMap_append,ih,Nat.succ_mul,List.range_add,List.map_append,List.map_map]
    congr 1
    simp only [List.flatMap_cons,List.flatMap_nil,List.append_nil,List.map_inj_left]
    intro i member
    have less := List.mem_range.mp member
    simp only [Function.comp_apply,Nat.add_comm (rows * width),Nat.add_mul_div_right i rows positive,Nat.add_mul_mod_self_right,
      Nat.div_eq_of_lt less,Nat.mod_eq_of_lt less,Nat.zero_add]

theorem rows_apart {width : Nat} (less : i < width) (less' : i' < width) (same : k' * width + i' = k * width + i) : k = k' ∧ i = i' := by
  have row (k : Nat) {i : Nat} (less : i < width) : (k * width + i) / width = k := by
    rw [Nat.mul_comm,Nat.mul_add_div (by omega),Nat.div_eq_of_lt less,Nat.add_zero]
  have rows : k = k' := by rw [← row k less,← same,row k' less']
  subst rows
  exact ⟨rfl,(Nat.add_left_cancel same).symm⟩

-- A tile's list moves the tile.
theorem PixelTiles.transfer_address (cache : PixelTiles) (coord : Nat × Nat) : (cache.transfer coord).address = cache.tile coord := by
  funext n
  let byte (k i : Nat) : BitVec 64 := (mfc_ea2h (cache.pixelbuffer_ea coord) ++
    (mfc_ea2l (cache.pixelbuffer_ea coord) + BitVec.ofNat 32 k * cache.pixelLineDy) : BitVec 64) + BitVec.ofNat 64 i
  have bytes : (cache.transfer coord).addresses = (List.range (32 * 128)).map fun n => byte (n / 128) (n % 128) := by
    rw [← flatMap_rows byte 32 128 (by decide)]
    have lines : (cache.transfer coord).list = _ := blit_list_lines _ _
    rw [Transfer.addresses,lines,List.flatMap_map]
    rfl
  have inside : n.val < 32 * 128 := n.isLt
  unfold Transfer.address
  rw [bytes,List.getElem?_map,List.getElem?_range inside]
  rfl

section
variable {buffer : BitVec 64} {width height stride : Nat} {coord : Nat × Nat}

theorem small_ofInt {n : Nat} (size : 1 ≤ n) : (BitVec.ofInt 8 ((n : Int) - 1)).toNat ≤ n - 1 := by
  rw [BitVec.toNat_ofInt]
  omega

-- The server's pointers have 32 bits, and a line of the frame holds its pixels.
structure FrameFits (buffer : BitVec 64) (width height stride : Nat) : Prop where
  wide : 32 ≤ width
  high : 32 ≤ height
  lines : 4*width ≤ stride
  ends : buffer.toNat + stride*height ≤ 2^32

-- The limit test leaves the lines out that do not fill a tile.
theorem FrameFits.limits (fits : FrameFits buffer width height stride)
    (inside : (createRenderable buffer width height stride).inFrame coord) :
    coord.1 ≤ width / 32 - 1 ∧ coord.2 ≤ height / 32 - 1 := by
  obtain ⟨wide,high,_,_⟩ := fits
  constructor
  · refine Nat.le_trans inside.1 ?_
    exact small_ofInt (n := width / 32) (by omega)
  · refine Nat.le_trans inside.2 ?_
    exact small_ofInt (n := height / 32) (by omega)

-- The tiles lie below the lines that are left over.
theorem FrameFits.within (fits : FrameFits buffer width height stride)
    (inside : (createRenderable buffer width height stride).inFrame coord) :
    128*coord.1 + 128 ≤ stride ∧ stride * (height % 32) / 2 + 32*stride*coord.2 + 32*stride ≤ stride * height := by
  obtain ⟨x,y⟩ := fits.limits inside
  obtain ⟨wide,high,lines,_⟩ := fits
  constructor
  · omega
  · have rows : coord.2 + 1 ≤ height / 32 := by omega
    have used : 32*stride*coord.2 + 32*stride ≤ 32*stride*(height/32) := by
      rw [← Nat.mul_succ]
      exact Nat.mul_le_mul_left _ rows
    have whole : stride * height = 32*stride*(height/32) + stride*(height%32) := by
      conv_lhs => rw [← Nat.div_add_mod height 32]
      ring
    omega

theorem FrameFits.below (fits : FrameFits buffer width height stride)
    (inside : (createRenderable buffer width height stride).inFrame coord) :
    128*coord.1 + 128 ≤ stride ∧ buffer.toNat + stride * (height % 32) / 2 + 32*stride*coord.2 + 32*stride ≤ 2^32 := by
  obtain ⟨line,lines⟩ := fits.within inside
  have ends := fits.ends
  exact ⟨line,by omega⟩

-- Half of what is left over stays above the tiles.
theorem created_skip (stride height : Nat) :
    ((stride : Int) * ((height : Int) % 32)).tdiv 2 = ((stride * (height % 32) / 2 : Nat) : Int) := by
  rw [Int.tdiv_eq_ediv_of_nonneg (Int.mul_nonneg (Int.natCast_nonneg _) (Int.emod_nonneg _ (by decide)))]
  push_cast
  rfl

theorem created_ea (fits : FrameFits buffer width height stride) (inside : (createRenderable buffer width height stride).inFrame coord) :
    ((createRenderable buffer width height stride).pixelbuffer_ea coord).toNat =
      buffer.toNat + stride * (height % 32) / 2 + 32*stride*coord.2 + 128*coord.1 := by
  obtain ⟨line,below⟩ := fits.below inside
  have offsetx : (BitVec.ofNat 32 coord.1 * (4*32)).toNat = 128*coord.1 := by
    rw [BitVec.toNat_mul,BitVec.toNat_ofNat]
    have number : (4*32 : BitVec 32).toNat = 128 := rfl
    rw [number]
    omega
  have offsety : (BitVec.ofNat 32 coord.2 * BitVec.ofInt 32 ((stride : Int) * 32)).toNat = 32*stride*coord.2 := by
    have number : (stride : Int) * 32 = ((32*stride : Nat) : Int) := by push_cast; ring
    rw [number,BitVec.ofInt_natCast,BitVec.toNat_mul,BitVec.toNat_ofNat,BitVec.toNat_ofNat,← Nat.mul_mod,Nat.mul_comm]
    omega
  unfold PixelTiles.pixelbuffer_ea createRenderable
  simp only [created_skip,BitVec.ofInt_natCast]
  rw [BitVec.toNat_add,BitVec.toNat_add,BitVec.toNat_add,BitVec.toNat_setWidth,BitVec.toNat_setWidth,offsetx,offsety,BitVec.toNat_ofNat]
  omega

theorem created_tile (fits : FrameFits buffer width height stride) (inside : (createRenderable buffer width height stride).inFrame coord)
    (n : Fin 4096) : ((createRenderable buffer width height stride).tile coord n).toNat =
      buffer.toNat + stride * (height % 32) / 2 + ((32*coord.2 + n.val / 128) * stride + (128*coord.1 + n.val % 128)) := by
  obtain ⟨line,below⟩ := fits.below inside
  have ea := created_ea fits inside
  have row : n.val / 128 ≤ 31 := by omega
  have rows : n.val / 128 * stride ≤ 31 * stride := Nat.mul_le_mul_right _ row
  have split : (32*coord.2 + n.val / 128) * stride = 32*stride*coord.2 + n.val / 128 * stride := by ring
  have high : mfc_ea2h ((createRenderable buffer width height stride).pixelbuffer_ea coord) = 0 := by
    apply BitVec.eq_of_toNat_eq
    rw [mfc_ea2h,BitVec.toNat_setWidth,BitVec.toNat_ushiftRight,ea,Nat.shiftRight_eq_div_pow]
    exact Nat.mod_eq_zero_of_dvd (by rw [Nat.div_eq_of_lt (by omega)]; exact Nat.dvd_zero _)
  have low : (mfc_ea2l ((createRenderable buffer width height stride).pixelbuffer_ea coord) +
      BitVec.ofNat 32 (n.val / 128) * BitVec.ofInt 32 stride).toNat =
      buffer.toNat + stride * (height % 32) / 2 + 32*stride*coord.2 + 128*coord.1 + n.val / 128 * stride := by
    rw [BitVec.toNat_add,mfc_ea2l,BitVec.toNat_setWidth,ea,BitVec.ofInt_natCast,BitVec.toNat_mul,BitVec.toNat_ofNat,BitVec.toNat_ofNat,
      ← Nat.mul_mod]
    omega
  have word : (mfc_ea2h ((createRenderable buffer width height stride).pixelbuffer_ea coord) ++
      (mfc_ea2l ((createRenderable buffer width height stride).pixelbuffer_ea coord) + BitVec.ofNat 32 (n.val / 128) *
        BitVec.ofInt 32 stride) : BitVec 64).toNat =
      buffer.toNat + stride * (height % 32) / 2 + 32*stride*coord.2 + 128*coord.1 + n.val / 128 * stride := by
    rw [high,BitVec.toNat_append,low]
    simp
  rw [PixelTiles.tile,BitVec.toNat_add,BitVec.toNat_ofNat]
  refine (congrArg (fun x => (x + n.val % 128 % 2^64) % 2^64) word).trans ?_
  omega

-- A frame's tiles have no byte in common.
theorem created_apart (fits : FrameFits buffer width height stride) :
    Apart (createRenderable buffer width height stride).inFrame (createRenderable buffer width height stride).tile := by
  have same {c c' : Nat × Nat} {n n' : Fin 4096} (inside : (createRenderable buffer width height stride).inFrame c)
      (inside' : (createRenderable buffer width height stride).inFrame c')
      (equal : (createRenderable buffer width height stride).tile c n = (createRenderable buffer width height stride).tile c' n') :
      c = c' ∧ n = n' := by
    have place := created_tile fits inside n
    have place' := created_tile fits inside' n'
    have line := (fits.below inside).1
    have line' := (fits.below inside').1
    rw [equal,place'] at place
    have number := Nat.add_left_cancel place
    obtain ⟨row,rest⟩ := rows_apart (by omega) (by omega) number
    exact ⟨Prod.ext (by omega) (by omega),Fin.ext (by omega)⟩
  exact ⟨fun c inside n n' equal => (same inside inside equal).2,fun c c' n n' inside inside' equal => (same inside inside' equal).1⟩

end

end Spugl
