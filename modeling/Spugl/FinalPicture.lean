import Spugl.FramePainting
import Spugl.PixelShaders

namespace Spugl
open HilbertWalk WriteBack EdgeFunction

-- The bytes of a word in memory, the high one first.
def joinBytes (bytes : Fin 4 → BitVec 8) : BitVec 32 := bytes 0 ++ bytes 1 ++ bytes 2 ++ bytes 3

def splitByte (word : BitVec 32) (i : Fin 4) : BitVec 8 := word.extractLsb' (8*(3 - i.val)) 8

theorem joinBytes_split (word : BitVec 32) : joinBytes (splitByte word) = word := by
  apply BitVec.eq_of_getLsbD_eq
  intro i less
  simp only [joinBytes,splitByte,BitVec.getLsbD_append,BitVec.getLsbD_extractLsb']
  grind

-- Word w of a block_buffer, which the shaders have as quadwords of four.
def wordOf (pixels : Pixels (BitVec 8)) (w : Nat) : BitVec 32 := joinBytes fun i => pixels (Fin.ofNat 4096 (4*w + i.val))

def toQuads (pixels : Pixels (BitVec 8)) : Nat → Words := fun q k => wordOf pixels (4*q + k.val)

def toBytes (pixelbuffer : Nat → Words) : Pixels (BitVec 8) := fun n =>
  splitByte (pixelbuffer (n.val / 16) (Fin.ofNat 4 (n.val / 4))) (Fin.ofNat 4 n.val)

theorem wordOf_toBytes (pixelbuffer : Nat → Words) (less : w < 1024) :
    wordOf (toBytes pixelbuffer) w = pixelbuffer (w / 4) ⟨w % 4,Nat.mod_lt _ (by decide)⟩ := by
  have byte (i : Fin 4) : toBytes pixelbuffer (Fin.ofNat 4096 (4*w + i.val)) =
      splitByte (pixelbuffer (w / 4) ⟨w % 4,Nat.mod_lt _ (by decide)⟩) i := by
    have number : (4*w + i.val) % 4096 = 4*w + i.val := Nat.mod_eq_of_lt (by omega)
    have quad : (4*w + i.val) / 16 = w / 4 := by omega
    have lane : Fin.ofNat 4 ((4*w + i.val) / 4) = ⟨w % 4,Nat.mod_lt _ (by decide)⟩ := Fin.ext (by simp only [Fin.ofNat]; omega)
    have place : Fin.ofNat 4 (4*w + i.val) = i := Fin.ext (by simp only [Fin.ofNat]; omega)
    simp only [toBytes,Fin.ofNat,number] at lane place ⊢
    simp only [quad,lane,place]
  unfold wordOf
  simp only [byte]
  exact joinBytes_split _

theorem toQuads_word (pixels : Pixels (BitVec 8)) (w : Nat) :
    toQuads pixels (w / 4) ⟨w % 4,Nat.mod_lt _ (by decide)⟩ = wordOf pixels w := by
  unfold toQuads
  rw [Nat.div_add_mod]

section
variable {F : Type} (f : SpuFloat F)

-- A shader on the bytes of a tile.
def PixelShader.onBytes (shader : PixelShader) (params : Nat → FloatLanes F) (A hdx hdy : Lanes) (pixels : Pixels (BitVec 8)) :
    Pixels (BitVec 8) := toBytes (shader.renderFunc f params A hdx hdy (toQuads pixels))

theorem PixelShader.onBytes_word (shader : PixelShader) (params : Nat → FloatLanes F) (A hdx hdy : Lanes) (pixels : Pixels (BitVec 8))
    (less : w < 1024) : wordOf (shader.onBytes f params A hdx hdy pixels) w =
      if shader.paints A hdx hdy w then shader.colour f params A hdx hdy w else wordOf pixels w := by
  unfold PixelShader.onBytes
  rw [wordOf_toBytes _ less,PixelShader.render_word f params shader _ less,toQuads_word]

end

-- What imp_triangle had when it filled in a record, and the shader that load_shader finds for it.
structure Submitted (F : Type) where
  TRIx : Lanes
  TRIy : Lanes
  wordX : ∀ k, Word (TRIx k)
  wordY : ∀ k, Word (TRIy k)
  triangle : Triangle
  accepted : imp_triangle TRIx TRIy = some triangle
  shader_params : Nat → FloatLanes F
  shader : PixelShader

namespace Submitted

variable {F : Type}

def shaded (f : SpuFloat F) (t : Submitted F) : ShadedTriangle (Nat → FloatLanes F) (BitVec 8) where
  triangle := t.triangle
  shader_params := t.shader_params
  shader := t.shader.onBytes f

-- The pixels that a triangle is to paint: those of its inside, and for a clear those of all tiles it meets.
def inside (t : Submitted F) (px py : Nat) : Prop :=
  match t.shader with
  | .clear => Passes t.triangle (tileNumber px py)
  | .null => False
  | _ => Covers (vertex t.TRIx t.TRIy) px py

instance (t : Submitted F) (px py : Nat) : Decidable (t.inside px py) := by
  unfold inside
  split <;> infer_instance

-- And their words.
def colour (f : SpuFloat F) (t : Submitted F) (px py : Nat) : BitVec 32 :=
  t.shader.colour f t.shader_params ((t.shaded f).tileA (tileNumber px py)) (spu_rlmaska t.triangle.area_dx 6)
    (spu_rlmaska t.triangle.area_dy 6) (px % 32 + 32*(py % 32))

theorem drawable (f : SpuFloat F) (t : Submitted F) : (t.shaded f).Drawable := ⟨t.TRIx,t.TRIy,t.wordX,t.wordY,t.accepted⟩

def word (f : SpuFloat F) (px py : Nat) (old : BitVec 32) (t : Submitted F) : BitVec 32 :=
  if t.inside px py then t.colour f px py else old

end Submitted

section
variable {F : Type} {f : SpuFloat F} {px py : Nat}

theorem pixel_place (px_lt : px < 2048) (py_lt : py < 2048) : cell 6 (false,false) (tileNumber px py) = (px / 32,py / 32) :=
  cell_index (by omega) (by omega)

-- One triangle at one pixel.
theorem Submitted.paint_word (t : Submitted F) (px_lt : px < 2048) (py_lt : py < 2048) (pixels : Pixels (BitVec 8)) :
    wordOf ((t.shaded f).paint (tileNumber px py) pixels) (px % 32 + 32*(py % 32)) =
      t.word f px py (wordOf pixels (px % 32 + 32*(py % 32))) := by
  obtain ⟨same,_⟩ := accepted_exact t.wordX t.wordY t.accepted
  have grid := vertex_grid t.wordX t.wordY
  have place := pixel_place px_lt py_lt
  have less : px % 32 + 32*(py % 32) < 1024 := by omega
  have column : 32*(px / 32) + (px % 32 + 32*(py % 32)) % 32 = px := by omega
  have line : 32*(py / 32) + (px % 32 + 32*(py % 32)) / 32 = py := by omega
  have right : spu_rlmaska t.triangle.area_dx 6 = tileX (vertex t.TRIx t.TRIy) := by
    rw [same]
    exact tile_steps _
  have down : spu_rlmaska t.triangle.area_dy 6 = tileY (vertex t.TRIx t.TRIy) := by
    rw [same]
    exact tile_steps _
  have value : (t.shaded f).tileA (tileNumber px py) = planeAt (exactTriangle (vertex t.TRIx t.TRIy)).area (tileX (vertex t.TRIx t.TRIy))
      (tileY (vertex t.TRIx t.TRIy)) (px / 32) (py / 32) := by
    unfold ShadedTriangle.tileA
    rw [show (t.shaded f).triangle = t.triangle from rfl,right,down,place,same]
  -- The edges of the shader are those of the triangle.
  have signs : negative ((t.shaded f).tileA (tileNumber px py)) (spu_rlmaska t.triangle.area_dx 6) (spu_rlmaska t.triangle.area_dy 6)
      (px % 32 + 32*(py % 32)) = true ↔ Covers (vertex t.TRIx t.TRIy) px py := by
    rw [value,right,down,negative_exact grid (by omega) (by omega) less,column,line]
  -- And a pixel inside has its tile drawn.
  have drawn : Covers (vertex t.TRIx t.TRIy) px py → Passes t.triangle (tileNumber px py) := by
    intro covers
    rw [same,passes_kept grid]
    unfold Kept
    rw [place]
    exact covered_inside grid (by omega) (by omega) less (by rwa [column,line])
  have both : t.inside px py ↔ Passes t.triangle (tileNumber px py) ∧ t.shader.paints ((t.shaded f).tileA (tileNumber px py))
      (spu_rlmaska t.triangle.area_dx 6) (spu_rlmaska t.triangle.area_dy 6) (px % 32 + 32*(py % 32)) = true := by
    unfold Submitted.inside
    cases t.shader with
    | clear => exact ⟨fun passes => ⟨passes,rfl⟩,And.left⟩
    | null => exact ⟨False.elim,fun none => by cases none.2⟩
    | _ => exact ⟨fun covers => ⟨drawn covers,signs.mpr covers⟩,fun paints => signs.mp paints.2⟩
  unfold ShadedTriangle.paint ShadedTriangle.covers Submitted.word
  by_cases passes : Passes t.triangle (tileNumber px py)
  · have rendered : wordOf ((t.shaded f).render ((t.shaded f).tileA (tileNumber px py)) pixels) (px % 32 + 32*(py % 32)) = _ :=
      PixelShader.onBytes_word f t.shader t.shader_params _ _ _ pixels less
    rw [if_pos (show decide (Passes (t.shaded f).triangle _) = true from decide_eq_true passes),rendered]
    exact if_congr (both.trans (and_iff_right passes)).symm rfl rfl
  · rw [if_neg (show ¬decide (Passes (t.shaded f).triangle _) = true from fun yes => passes (of_decide_eq_true yes)),if_neg fun inside => passes (both.mp inside).1]

-- And all of them.
theorem painting_word (triangles : List (Submitted F)) (px_lt : px < 2048) (py_lt : py < 2048) (pixels : Pixels (BitVec 8)) :
    wordOf ((triangles.map (Submitted.shaded f)).foldl (fun pixels t => t.paint (tileNumber px py) pixels) pixels) (px % 32 + 32*(py % 32)) =
      triangles.foldl (Submitted.word f px py) (wordOf pixels (px % 32 + 32*(py % 32))) := by
  induction triangles generalizing pixels with
  | nil => rfl
  | cons t rest ih => rw [List.map_cons,List.foldl_cons,List.foldl_cons,ih,t.paint_word px_lt py_lt]

end

-- The address of a pixel, and its word.
def pixelAddress (buffer : BitVec 64) (height stride px py : Nat) : BitVec 64 :=
  BitVec.ofNat 64 (buffer.toNat + stride * (height % 32) / 2 + stride*py + 4*px)

def readWord (memory : BitVec 64 → BitVec 8) (a : BitVec 64) : BitVec 32 := joinBytes fun i => memory (a + BitVec.ofNat 64 i.val)

section
variable {buffer : BitVec 64} {width height stride px py : Nat}

theorem OnScreen.shows (screen : OnScreen (createRenderable buffer width height stride).limit px py) :
    (createRenderable buffer width height stride).shows (tileNumber px py) := by
  obtain ⟨⟨wide,px_lt⟩,high,py_lt⟩ := screen
  refine ⟨?_,index_lt 6 _ _ _⟩
  rw [pixel_place px_lt py_lt]
  unfold PixelTiles.limit at wide high
  constructor
  · show px / 32 ≤ _
    omega
  · show py / 32 ≤ _
    omega

-- A pixel's word in the frame is its word in the tile.
theorem pixel_word (fits : FrameFits buffer width height stride) (screen : OnScreen (createRenderable buffer width height stride).limit px py)
    (memory : BitVec 64 → BitVec 8) : readWord memory (pixelAddress buffer height stride px py) =
      wordOf (fetch memory ((createRenderable buffer width height stride).tileAt (tileNumber px py))) (px % 32 + 32*(py % 32)) := by
  have shown := screen.shows
  obtain ⟨⟨_,px_lt⟩,_,py_lt⟩ := screen
  have inside := shown.1
  rw [pixel_place px_lt py_lt] at inside
  have ends := fits.ends
  obtain ⟨line,lines⟩ := fits.within inside
  dsimp only at line lines
  unfold readWord wordOf fetch PixelTiles.tileAt
  congr 1
  funext i
  congr 1
  rw [pixel_place px_lt py_lt]
  apply BitVec.eq_of_toNat_eq
  have number : (Fin.ofNat 4096 (4*(px % 32 + 32*(py % 32)) + i.val)).val = 128*(py % 32) + (4*(px % 32) + i.val) := by
    simp only [Fin.ofNat]
    omega
  have row : (128*(py % 32) + (4*(px % 32) + i.val)) / 128 = py % 32 := by omega
  have column : (128*(py % 32) + (4*(px % 32) + i.val)) % 128 = 4*(px % 32) + i.val := by omega
  have above : stride*py = 32*stride*(py/32) + stride*(py % 32) := by
    calc stride*py = stride*(32*(py/32) + py % 32) := by rw [Nat.div_add_mod]
      _ = 32*stride*(py/32) + stride*(py % 32) := by ring
  have last : stride*(py % 32) ≤ stride*31 := Nat.mul_le_mul_left _ (by omega)
  have split : (32*(py/32) + py % 32)*stride = stride*py := by rw [Nat.div_add_mod,Nat.mul_comm]
  rw [created_tile fits inside,number,row,column,split,pixelAddress,BitVec.toNat_add,BitVec.toNat_ofNat,BitVec.toNat_ofNat]
  have four := i.isLt
  omega


-- The pixels of a tile at any time.
theorem reached_words {F ι : Type} [DecidableEq ι] {f : SpuFloat F} {initial : BitVec 64 → BitVec 8}
    {s : Canvas (Nat → FloatLanes F) (BitVec 8) ι} {submitted : List (Submitted F)} (fits : FrameFits buffer width height stride)
    (path : Canvas.Reached (createRenderable buffer width height stride) initial s)
    (same : s.published = submitted.map (Submitted.shaded f)) (tile : Nat) : ∃ p, p ≤ submitted.length ∧
      ∀ px py, OnScreen (createRenderable buffer width height stride).limit px py → tileNumber px py = tile →
        readWord s.memory (pixelAddress buffer height stride px py) =
          (submitted.take p).foldl (Submitted.word f px py) (readWord initial (pixelAddress buffer height stride px py)) := by
  obtain ⟨r,t,painted⟩ := reached_painted (created_apart fits) path
  by_cases shown : (createRenderable buffer width height stride).shows tile
  · obtain ⟨p,upto,looks⟩ := painted.shows tile shown
    rw [same,List.length_map] at upto
    rw [same,← List.map_take] at looks
    refine ⟨p,upto,?_⟩
    rintro px py screen rfl
    rw [pixel_word fits screen,pixel_word fits screen,looks]
    exact painting_word _ screen.1.2 screen.2.2 _
  · refine ⟨0,Nat.zero_le _,?_⟩
    rintro px py screen rfl
    exact absurd screen.shows shown

-- The picture that is left when the renderable is drained.
theorem drained_word {F ι : Type} [DecidableEq ι] {f : SpuFloat F} {initial : BitVec 64 → BitVec 8}
    {s : Canvas (Nat → FloatLanes F) (BitVec 8) ι} {submitted : List (Submitted F)} (fits : FrameFits buffer width height stride)
    (path : Canvas.Reached (createRenderable buffer width height stride) initial s)
    (same : s.published = submitted.map (Submitted.shaded f)) (drained : s.pipeline.system.line.stillProcessingQueue = false)
    (screen : OnScreen (createRenderable buffer width height stride).limit px py) :
    readWord s.memory (pixelAddress buffer height stride px py) =
      submitted.foldl (Submitted.word f px py) (readWord initial (pixelAddress buffer height stride px py)) := by
  obtain ⟨r,t,painted⟩ := reached_painted (created_apart fits) path
  have drawn := painted.finished (created_apart fits) drained
  rw [pixel_word fits screen,pixel_word fits screen,drawn,paintAll_fetch (created_apart fits) painted.drawable screen.shows,same]
  exact painting_word _ screen.1.2 screen.2.2 _

end

-- All pixels of a tile always show the same number of triangles, each the last one of these that is over it, and once
-- glSync finds the renderable drained all triangles.
theorem picture_exact {F ι : Type} [DecidableEq ι] {f : SpuFloat F} {buffer : BitVec 64} {width height stride : Nat}
    {initial : BitVec 64 → BitVec 8} {s : Canvas (Nat → FloatLanes F) (BitVec 8) ι} {submitted : List (Submitted F)}
    (fits : FrameFits buffer width height stride) (path : Canvas.Reached (createRenderable buffer width height stride) initial s)
    (same : s.published = submitted.map (Submitted.shaded f)) :
    (∀ tile, ∃ p, p ≤ submitted.length ∧
      ∀ px py, OnScreen (createRenderable buffer width height stride).limit px py → tileNumber px py = tile →
        readWord s.memory (pixelAddress buffer height stride px py) =
          (submitted.take p).foldl (Submitted.word f px py) (readWord initial (pixelAddress buffer height stride px py))) ∧
    (s.pipeline.system.line.stillProcessingQueue = false →
      ∀ px py, OnScreen (createRenderable buffer width height stride).limit px py →
        readWord s.memory (pixelAddress buffer height stride px py) =
          submitted.foldl (Submitted.word f px py) (readWord initial (pixelAddress buffer height stride px py))) :=
  ⟨reached_words fits path same,fun drained _ _ screen => drained_word fits path same drained screen⟩

-- spu_convts(.., 31-12) of a whole number.
def convts (n : Int) : Int := max (-2^31) (min (2^31 - 1) (n * 2^19))

-- What the registers TRIx and TRIy of imp_clear_screen are converted to.
def clearX (width : Nat) : Lanes := fun k => convts (vec_int4 width width (-width) 0 k)
def clearY (height : Nat) : Lanes := fun k => convts (vec_int4 (-height) height height 0 k)

theorem convts_word (n : Int) : Word (convts n) := by
  unfold Word convts
  omega

theorem clear_words (width height : Nat) : (∀ k, Word (clearX width k)) ∧ ∀ k, Word (clearY height k) :=
  ⟨fun _ => convts_word _,fun _ => convts_word _⟩

-- The right and the left end of it, or the lower and the upper one, about the middle 2 of the first sample point.
theorem clear_ends {n : Nat} (positive : 0 < n) : -16382 ≤ quarterPixel (convts (-(n:Int))) ∧ quarterPixel (convts (-(n:Int))) ≤ -2 ∧
    3 ≤ quarterPixel (convts n) + quarterPixel (convts (-(n:Int))) ∧ quarterPixel (convts n) + quarterPixel (convts (-(n:Int))) ≤ 4 ∧
    min 16384 (4*(n:Int)) < quarterPixel (convts n) := by
  unfold quarterPixel convts
  omega

theorem clear_vertex (width height : Nat) : vertex (clearX width) (clearY height) 0 = (quarterPixel (convts width),quarterPixel (convts (-height))) ∧
    vertex (clearX width) (clearY height) 1 = (quarterPixel (convts width),quarterPixel (convts height)) ∧
    vertex (clearX width) (clearY height) 2 = (quarterPixel (convts (-width)),quarterPixel (convts height)) := ⟨rfl,rfl,rfl⟩

theorem edge_corner (x x' y y' : Int) : edge (x,y) (x',y) (x,y') = (y' - y)*(x - x') := by
  simp only [edge,sub_self,zero_mul,zero_add]

theorem clear_turned (wide : 0 < width) (high : 0 < height) : edge (vertex (clearX width) (clearY height) 1)
    (vertex (clearX width) (clearY height) 2) (vertex (clearX width) (clearY height) 0) < 0 := by
  obtain ⟨first,second,third⟩ := clear_vertex width height
  obtain ⟨_,left,_,_,right⟩ := clear_ends wide
  obtain ⟨_,top,_,_,bottom⟩ := clear_ends high
  have across : 0 < quarterPixel (convts width) - quarterPixel (convts (-width)) := by omega
  have down : quarterPixel (convts (-height)) - quarterPixel (convts height) < 0 := by omega
  rw [first,second,third,edge_corner]
  exact mul_neg_of_neg_of_pos down across

theorem clear_accepted (wide : 0 < width) (high : 0 < height) : imp_triangle (clearX width) (clearY height) =
    some (exactTriangle (vertex (clearX width) (clearY height))) :=
  (imp_triangle_exact (clear_words width height).1 (clear_words width height).2).trans (if_pos (clear_turned wide high))

-- A corner inside of each edge.
theorem passes_corner {v : Fin 4 → Int × Int} {tile : Nat} (corner : ∀ k, ∃ x y, (x = (cell 6 (false,false) tile).1 ∨ x = (cell 6 (false,false) tile).1 + 1) ∧
    (y = (cell 6 (false,false) tile).2 ∨ y = (cell 6 (false,false) tile).2 + 1) ∧ side v k (128*(x:Nat),128*(y:Nat)) < 0) :
    Passes (exactTriangle v) tile := by
  rw [passes_sides]
  rintro ⟨k,one,two,three,four⟩
  obtain ⟨x,y,rfl | rfl,rfl | rfl,below⟩ := corner k
  · exact absurd one (not_le.mpr below)
  · exact absurd three (not_le.mpr below)
  · exact absurd two (not_le.mpr below)
  · exact absurd four (not_le.mpr below)

-- A triangle with a right angle below and to the right of a tile, and its long side through the middle or above.
theorem passes_below {v : Fin 4 → Int × Int} {tile : Nat} {x x' y y' : Int} (first : v 0 = (x,y')) (second : v 1 = (x,y)) (third : v 2 = (x',y))
    (left : x' ≤ -2) (top : y' ≤ -2) (middle : x + x' ≤ 4) (middle' : y + y' ≤ 4)
    (right : 128*((cell 6 (false,false) tile).1 : Int) < x) (bottom : 128*((cell 6 (false,false) tile).2 : Int) < y) (wide : 0 < x) (high : 0 < y) :
    Passes (exactTriangle v) tile := by
  have across : 0 < x - x' := by omega
  have down : 0 < y - y' := by omega
  apply passes_corner
  intro k
  match k with
  | 0 =>
    refine ⟨_,_,.inl rfl,.inl rfl,?_⟩
    have below := mul_neg_of_neg_of_pos (sub_neg.mpr bottom) across
    simpa only [side,edge,second,third,sub_self,mul_zero,zero_add] using below
  | 1 =>
    -- The far corner of the tile is past the long side.
    refine ⟨_,_,.inr rfl,.inr rfl,?_⟩
    have far : x - x' < 2*(128*((cell 6 (false,false) tile).1 + 1 : Int) - x') := by omega
    have low : 2*(y - 128*((cell 6 (false,false) tile).2 + 1 : Int)) < y - y' := by omega
    have one := mul_lt_mul_of_pos_right far down
    have two := mul_lt_mul_of_pos_left low across
    simp only [side,edge,third,first]
    push_cast
    linarith only [one,two]
  | 2 =>
    refine ⟨_,_,.inl rfl,.inl rfl,?_⟩
    have below := mul_neg_of_neg_of_pos (sub_neg.mpr right) down
    simpa only [side,edge,first,second,sub_self,mul_zero,add_zero] using below
  | 3 => exact ⟨_,_,.inl rfl,.inl rfl,by simp only [side]; decide⟩

-- The triangle of imp_clear_screen meets each tile of the view port.
theorem clear_passes {tile : Nat} (wide : 32*((cell 6 (false,false) tile).1 + 1) ≤ width)
    (high : 32*((cell 6 (false,false) tile).2 + 1) ≤ height) : Passes (exactTriangle (vertex (clearX width) (clearY height))) tile := by
  obtain ⟨first,second,third⟩ := clear_vertex width height
  obtain ⟨x_lt,y_lt⟩ := cell_lt 6 (false,false) tile
  obtain ⟨_,left,_,middle,right⟩ := clear_ends (n := width) (by omega)
  obtain ⟨_,top,_,middle',bottom⟩ := clear_ends (n := height) (by omega)
  exact passes_below first second third left top middle middle' (by omega) (by omega) (by omega) (by omega)

-- A screen that is cleared: TRIw is 1.0, and the colour is in the other registers.
def clearParams {F : Type} (f : SpuFloat F) (r g b : F) (rest : Nat → FloatLanes F) : Nat → FloatLanes F
  | 3 => fun _ => f.one
  | 4 => fun _ => r
  | 5 => fun _ => g
  | 6 => fun _ => b
  | n => rest n

def Submitted.clear {F : Type} (f : SpuFloat F) (wide : 0 < width) (high : 0 < height) (r g b : F) (rest : Nat → FloatLanes F) :
    Submitted F where
  TRIx := clearX width
  TRIy := clearY height
  wordX := (clear_words width height).1
  wordY := (clear_words width height).2
  triangle := exactTriangle (vertex (clearX width) (clearY height))
  accepted := clear_accepted wide high
  shader_params := clearParams f r g b rest
  shader := .clear

def clearColour {F : Type} (f : SpuFloat F) (r g b : F) : BitVec 32 :=
  Interpolated.colour f ⟨fun _ => f.one,fun _ => r,fun _ => g,fun _ => b⟩ 0

section
variable {F : Type} {f : SpuFloat F} {buffer : BitVec 64} {width height stride px py : Nat}

theorem FrameFits.positive (fits : FrameFits buffer width height stride) : 0 < width ∧ 0 < height :=
  ⟨Nat.lt_of_lt_of_le (by decide) fits.wide,Nat.lt_of_lt_of_le (by decide) fits.high⟩

-- Whatever was at a pixel of the frame, the clear puts its colour there.
theorem clear_word (fits : FrameFits buffer width height stride) (screen : OnScreen (createRenderable buffer width height stride).limit px py)
    (r g b : F) (rest : Nat → FloatLanes F) (old : BitVec 32) :
    (Submitted.clear f fits.positive.1 fits.positive.2 r g b rest).word f px py old = clearColour f r g b := by
  have shown := screen.shows.1
  obtain ⟨columns,lines⟩ := fits.limits shown
  have enough := fits.wide
  have enough' := fits.high
  have meets : Passes (exactTriangle (vertex (clearX width) (clearY height))) (tileNumber px py) := clear_passes (by omega) (by omega)
  exact if_pos meets

end

-- A tile shows nothing of what was there before the clear once it shows the clear, and with the renderable drained no
-- pixel does.
theorem picture_cleared {F ι : Type} [DecidableEq ι] {f : SpuFloat F} {buffer : BitVec 64} {width height stride : Nat}
    {initial : BitVec 64 → BitVec 8} {s : Canvas (Nat → FloatLanes F) (BitVec 8) ι} {earlier later : List (Submitted F)} {r g b : F}
    {rest : Nat → FloatLanes F} (fits : FrameFits buffer width height stride)
    (path : Canvas.Reached (createRenderable buffer width height stride) initial s)
    (same : s.published = (earlier ++ Submitted.clear f fits.positive.1 fits.positive.2 r g b rest :: later).map (Submitted.shaded f)) :
    (∀ tile, (∃ p, p ≤ earlier.length ∧
        ∀ px py, OnScreen (createRenderable buffer width height stride).limit px py → tileNumber px py = tile →
          readWord s.memory (pixelAddress buffer height stride px py) =
            (earlier.take p).foldl (Submitted.word f px py) (readWord initial (pixelAddress buffer height stride px py))) ∨
      ∃ q, q ≤ later.length ∧
        ∀ px py, OnScreen (createRenderable buffer width height stride).limit px py → tileNumber px py = tile →
          readWord s.memory (pixelAddress buffer height stride px py) =
            (later.take q).foldl (Submitted.word f px py) (clearColour f r g b)) ∧
    (s.pipeline.system.line.stillProcessingQueue = false →
      ∀ px py, OnScreen (createRenderable buffer width height stride).limit px py →
        readWord s.memory (pixelAddress buffer height stride px py) =
          later.foldl (Submitted.word f px py) (clearColour f r g b)) := by
  constructor
  · intro tile
    obtain ⟨p,upto,words⟩ := reached_words fits path same tile
    rw [List.length_append,List.length_cons] at upto
    by_cases before : p ≤ earlier.length
    · refine .inl ⟨p,before,fun px py screen there => ?_⟩
      rw [words px py screen there,List.take_append_of_le_length before]
    · obtain ⟨q,rfl⟩ : ∃ q, p = earlier.length + (q+1) := ⟨p - earlier.length - 1,by omega⟩
      refine .inr ⟨q,by omega,fun px py screen there => ?_⟩
      rw [words px py screen there,List.take_length_add_append,List.take_succ_cons,List.foldl_append,List.foldl_cons,
        clear_word fits screen]
  · intro drained px py screen
    rw [drained_word fits path same drained screen,List.foldl_append,List.foldl_cons,clear_word fits screen]

-- Whole numbers for floats.
def plainFloat : SpuFloat Int where
  one := 1
  add := (· + ·)
  sub := (· - ·)
  mul := (· * ·)
  madd := fun a b c => a*b + c
  div := (· / ·)
  convtf := fun a _ => a
  convtu := fun a _ => BitVec.ofInt 32 a

theorem smallFits : FrameFits 4096 64 64 256 := ⟨by decide,by decide,by decide,by decide⟩

-- Two triangles with a right angle, one over most of the small frame and one in its first tile.
def cornerX (n : Int) : Lanes := vec_int4 (wordAt n) (wordAt n) (wordAt (-20)) 0
def cornerY (n : Int) : Lanes := vec_int4 (wordAt (-20)) (wordAt n) (wordAt n) 0

theorem corner_words {n : Int} (low : -16000 ≤ n) (high : n ≤ 16000) : (∀ k, Word (cornerX n k)) ∧ ∀ k, Word (cornerY n k) := by
  constructor <;> intro k <;> fin_cases k <;> simp only [cornerX,cornerY,vec_int4,wordAt,Word] <;> omega

theorem corner_vertex (n : Int) : vertex (cornerX n) (cornerY n) 0 = (n,-20) ∧ vertex (cornerX n) (cornerY n) 1 = (n,n) ∧
    vertex (cornerX n) (cornerY n) 2 = (-20,n) := by
  simp only [vertex,cornerX,cornerY,vec_int4,wordAt,quarterPixel,Prod.mk.injEq]
  omega

theorem corner_accepted {n : Int} (low : 0 ≤ n) (high : n ≤ 16000) :
    imp_triangle (cornerX n) (cornerY n) = some (exactTriangle (vertex (cornerX n) (cornerY n))) := by
  obtain ⟨wordX,wordY⟩ := corner_words (by omega) high
  obtain ⟨first,second,third⟩ := corner_vertex n
  refine (imp_triangle_exact wordX wordY).trans (if_pos ?_)
  rw [first,second,third,edge_corner]
  exact mul_neg_of_neg_of_pos (by omega) (by omega)

def cornerSubmitted (n : Int) (low : 0 ≤ n) (high : n ≤ 16000) : Submitted Int where
  TRIx := cornerX n
  TRIy := cornerY n
  wordX := (corner_words (by omega) high).1
  wordY := (corner_words (by omega) high).2
  triangle := exactTriangle (vertex (cornerX n) (cornerY n))
  accepted := corner_accepted low high
  shader_params := fun _ _ => 0
  shader := .mask

def farSubmitted : Submitted Int := cornerSubmitted 250 (by decide) (by decide)

def nearSubmitted : Submitted Int := cornerSubmitted 60 (by decide) (by decide)

def smallClear : Submitted Int :=
  .clear plainFloat smallFits.positive.1 smallFits.positive.2 0x30000000 0x50000000 0x70000000 fun _ _ => 0

-- The clear comes between the two, over a memory in which no two pixels are alike.
def smallTriangles : List (Submitted Int) := [farSubmitted,smallClear,nearSubmitted]

def smallMemory (a : BitVec 64) : BitVec 8 := a.setWidth 8 ^^^ (a >>> 8).setWidth 8

def clearedWritten : Canvas (Nat → FloatLanes Int) (BitVec 8) (Fin 2) :=
  (smallTriangles.flatMap fun t => [.getTriangleBuffer,.write (t.shaded plainFloat),.publish]).foldl (Canvas.act smallFrame)
    (.start (fun _ => ⟨fun _ => false,0⟩) (fun _ => smallClear.shaded plainFloat)
      (fun _ => ⟨smallClear.shaded plainFloat,⟨0,fun _ => (0,0),fun _ _ => 0,fun _ => [],fun _ _ => 0,fun _ => 0,fun _ => 0,[],[]⟩,
        false,0,[]⟩) smallMemory)

-- One SPU has the four tiles, the other one looks through the rest meanwhile, and the first one draws.
def clearedSplit : Canvas (Nat → FloatLanes Int) (BitVec 8) (Fin 2) := (fun s => s.run smallFrame 0)^[5] clearedWritten

def clearedClaimed : Canvas (Nat → FloatLanes Int) (BitVec 8) (Fin 2) := (fun s => s.run smallFrame 1)^[2] clearedSplit

def clearedPassed : Canvas (Nat → FloatLanes Int) (BitVec 8) (Fin 2) := (fun s => s.passed 1)^[3] clearedClaimed

def clearedReleased : Canvas (Nat → FloatLanes Int) (BitVec 8) (Fin 2) := (fun s => s.run smallFrame 1)^[2] clearedPassed

def clearedSmall : Canvas (Nat → FloatLanes Int) (BitVec 8) (Fin 2) := (fun s => s.run smallFrame 0)^[10] clearedReleased

theorem clearedClaimed_published : clearedClaimed.published = smallTriangles.map (Submitted.shaded plainFloat) := by
  unfold clearedClaimed clearedSplit
  rw [Canvas.runs_published,Canvas.runs_published]
  rfl

-- All three are in the first 16 tiles.
theorem smallTriangles_inner (triangle : ShadedTriangle (Nat → FloatLanes Int) (BitVec 8))
    (member : triangle ∈ smallTriangles.map (Submitted.shaded plainFloat)) (tile : Nat) (outer : 16 ≤ tile) (inside : tile < 4096) :
    triangle.covers tile = false := by
  have corner (n : Int) (low : 0 ≤ n) (high : n ≤ 512) : ¬Passes (exactTriangle (vertex (cornerX n) (cornerY n))) tile := by
    obtain ⟨first,second,third⟩ := corner_vertex n
    exact outer_passes first second third (by omega) (by omega) high high outer inside
  have cleared : ¬Passes (exactTriangle (vertex (clearX 64) (clearY 64))) tile := by
    obtain ⟨first,second,third⟩ := clear_vertex 64 64
    exact outer_passes first second third (by decide) (by decide) (by decide) (by decide) outer inside
  simp only [smallTriangles,List.map_cons,List.map_nil,List.mem_cons,List.not_mem_nil,or_false] at member
  rcases member with rfl | rfl | rfl
  · exact decide_eq_false (corner 250 (by decide) (by decide))
  · exact decide_eq_false cleared
  · exact decide_eq_false (corner 60 (by decide) (by decide))

theorem clearedSmall_reached : Canvas.Reached smallFrame smallMemory clearedSmall := by
  have written : Canvas.Reached smallFrame smallMemory clearedWritten :=
    Runs.Reached.follow (.start ⟨_,_,_,rfl⟩) ⟨rfl,farSubmitted.drawable plainFloat,trivial,rfl,smallClear.drawable plainFloat,trivial,
      rfl,nearSubmitted.drawable plainFloat,trivial,trivial⟩
  have split : Canvas.Reached smallFrame smallMemory clearedSplit := written.runs 0 5 (by decide +kernel)
  have claimed : Canvas.Reached smallFrame smallMemory clearedClaimed := split.runs 1 2 (by decide +kernel)
  have passed : Canvas.Reached smallFrame smallMemory clearedPassed :=
    (claimed.passing smallFrame_apart (clearedClaimed_published ▸ smallTriangles_inner) 3 (by decide +kernel))
  have released : Canvas.Reached smallFrame smallMemory clearedReleased := passed.runs 1 2 (by decide +kernel)
  exact released.runs 0 10 (by decide +kernel)

theorem clearedSmall_published : clearedSmall.published = smallTriangles.map (Submitted.shaded plainFloat) := by
  unfold clearedSmall clearedReleased clearedPassed
  rw [Canvas.runs_published,Canvas.runs_published,Canvas.passed_all]
  exact clearedClaimed_published

theorem clearedSmall_drained : clearedSmall.pipeline.system.line.stillProcessingQueue = false := by decide +kernel

theorem on_small (left : px < 64) (above : py < 64) : OnScreen smallFrame.limit px py :=
  ⟨⟨left,Nat.lt_trans left (by decide)⟩,above,Nat.lt_trans above (by decide)⟩

-- The corner has its triangle, and the rest of the frame the colour of the clear.
theorem picture_exact_small : readWord clearedSmall.memory (pixelAddress 4096 64 256 12 12) = 0x7fff30#32 ∧
    readWord clearedSmall.memory (pixelAddress 4096 64 256 55 55) = 0x305070#32 ∧
    readWord smallMemory (pixelAddress 4096 64 256 55 55) = 0x9b9a9998#32 := by
  have drawn := (picture_exact smallFits clearedSmall_reached clearedSmall_published).2 clearedSmall_drained
  refine ⟨?_,?_,by decide +kernel⟩
  · exact (drawn 12 12 (on_small (by decide) (by decide))).trans (by decide +kernel)
  · exact (drawn 55 55 (on_small (by decide) (by decide))).trans (by decide +kernel)

-- The triangle before the clear is gone.
theorem picture_cleared_small : clearColour plainFloat 0x30000000 0x50000000 0x70000000 = 0x305070#32 ∧
    farSubmitted.word plainFloat 55 55 (readWord smallMemory (pixelAddress 4096 64 256 55 55)) = 0x7fff30#32 ∧
    ∀ px py, OnScreen smallFrame.limit px py → readWord clearedSmall.memory (pixelAddress 4096 64 256 px py) =
      nearSubmitted.word plainFloat px py (clearColour plainFloat 0x30000000 0x50000000 0x70000000) := by
  have same : clearedSmall.published = ([farSubmitted] ++ smallClear :: [nearSubmitted]).map (Submitted.shaded plainFloat) :=
    clearedSmall_published
  exact ⟨by decide +kernel,by decide +kernel,(picture_cleared smallFits clearedSmall_reached same).2 clearedSmall_drained⟩

end Spugl
