import Spugl.Rasterisation

namespace Spugl
open EdgeFunction

-- The rounded point of a vertex from its two conversion results.
def point (c : Int × Int) : Int × Int := (quarterPixel c.1,quarterPixel c.2)

-- imp_triangle on three vertices; the fourth lanes of the registers are free.
def drawTriangle (a b c spare : Int × Int) : Option Triangle :=
  imp_triangle (vec_int4 a.1 b.1 c.1 spare.1) (vec_int4 a.2 b.2 c.2 spare.2)

def sample (px py : Nat) : Int × Int := (4*px,4*py)

def WordPair (a : Int × Int) : Prop := Word a.1 ∧ Word a.2

section
variable {a b c spare : Int × Int} {limit : Nat × Nat} {ranges : List (Nat × Nat)} {px py : Nat}

theorem lanes_words {a b c d : Int} (first : Word a) (second : Word b) (third : Word c) (fourth : Word d) (k : Fin 4) :
    Word (vec_int4 a b c d k) := by
  match k with
  | 0 => exact first
  | 1 => exact second
  | 2 => exact third
  | 3 => exact fourth

-- A triangle paints, once, the pixels on the screen that lie strictly inside it.
theorem drawn_interior (limit : Nat × Nat) (px py : Nat) (wordA : WordPair a) (wordB : WordPair b) (wordC : WordPair c) (wordS : WordPair spare)
    (accepted : drawTriangle a b c spare = some triangle) (cover : Covering ranges) :
    edge (point b) (point c) (point a) < 0 ∧ (paint triangle limit ranges).count (px,py) ≤ 1 ∧
      (0 < (paint triangle limit ranges).count (px,py) ↔
        OnScreen limit px py ∧ Interior (point a) (point b) (point c) (sample px py)) := by
  have wordX := lanes_words wordA.1 wordB.1 wordC.1 wordS.1
  have wordY := lanes_words wordA.2 wordB.2 wordC.2 wordS.2
  obtain ⟨rfl,turned⟩ := accepted_exact wordX wordY accepted
  have grid := vertex_grid wordX wordY
  have inside := interior_iff (z := sample px py) turned
  refine ⟨turned,List.nodup_iff_count_le_one.mp (paint_nodup grid cover) _,?_⟩
  rw [List.count_pos_iff,paint_mem grid cover]
  exact and_congr_right fun _ => inside.symm

end

-- Two triangles on the two sides of PQ. The pixels of the frame that they should
-- share out are painted by exactly one of them, save those on the open edge.
theorem shared_edge_once {P Q R S spare spare' : Int × Int} (wordP : WordPair P) (wordQ : WordPair Q) (wordR : WordPair R)
    (wordS : WordPair S) (wordSpare : WordPair spare) (wordSpare' : WordPair spare')
    (accepted : drawTriangle P Q R spare = some triangle) (accepted' : drawTriangle Q P S spare' = some triangle')
    (cover : Covering ranges) (cover' : Covering ranges') (limit : Nat × Nat)
    (inFrame : px < 32*(limit.1+1) ∧ py < 32*(limit.2+1))
    (shared : Interior (point P) (point Q) (point R) (sample px py) ∨ Interior (point Q) (point P) (point S) (sample px py) ∨
      OnSegment (point P) (point Q) (sample px py)) :
    (paint triangle limit ranges).count (px,py) + (paint triangle' limit ranges').count (px,py) = 1 ↔
      (px < 2048 ∧ py < 2048) ∧ ¬OnSegment (point P) (point Q) (sample px py) := by
  obtain ⟨turned,once,first⟩ := drawn_interior limit px py wordP wordQ wordR wordSpare accepted cover
  obtain ⟨turned',once',second⟩ := drawn_interior limit px py wordQ wordP wordS wordSpare' accepted' cover'
  have screen : OnScreen limit px py ↔ px < 2048 ∧ py < 2048 := by unfold OnScreen; omega
  rw [screen] at first second
  constructor
  · intro one
    by_cases left : 0 < (paint triangle limit ranges).count (px,py)
    · have facts := first.mp left
      exact ⟨facts.1,fun between => between.outside turned facts.2⟩
    · have facts := second.mp (by omega)
      exact ⟨facts.1,fun between => between.swap.outside turned' facts.2⟩
  · intro facts
    obtain ⟨seen,strict⟩ := facts
    rcases shared with inside | inside | between
    · have left := first.mpr ⟨seen,inside⟩
      have right : ¬0 < (paint triangle' limit ranges').count (px,py) := fun painted =>
        inside.opposite turned turned' (second.mp painted).2
      omega
    · have right := second.mpr ⟨seen,inside⟩
      have left : ¬0 < (paint triangle limit ranges).count (px,py) := fun painted =>
        (first.mp painted).2.opposite turned turned' inside
      omega
    · exact absurd between strict

-- PQ is the line y = 0 from pixel 0 to pixel 16, with R below it and S above.
def wedgeP : Int × Int := (wordAt 0,wordAt 0)
def wedgeQ : Int × Int := (wordAt 64,wordAt 0)
def wedgeR : Int × Int := (wordAt 0,wordAt 64)
def wedgeS : Int × Int := (wordAt 0,wordAt (-64))

theorem wedge_words : WordPair wedgeP ∧ WordPair wedgeQ ∧ WordPair wedgeR ∧ WordPair wedgeS := by
  unfold WordPair; decide

theorem wedge_accepted : (drawTriangle wedgeP wedgeQ wedgeR wedgeP).isSome ∧
    (drawTriangle wedgeQ wedgeP wedgeS wedgeP).isSome := by decide

theorem shared_edge_once_wedge :
    (paint ((drawTriangle wedgeP wedgeQ wedgeR wedgeP).get wedge_accepted.1) (63,63) sixteens).count (4,4) +
      (paint ((drawTriangle wedgeQ wedgeP wedgeS wedgeP).get wedge_accepted.2) (63,63) sixteens).count (4,4) = 1 := by
  have inside : Interior (point wedgeP) (point wedgeQ) (point wedgeR) (sample 4 4) := (interior_iff (by decide)).mpr (by decide)
  apply (shared_edge_once wedge_words.1 wedge_words.2.1 wedge_words.2.2.1 wedge_words.2.2.2 wedge_words.1 wedge_words.1
    (Option.some_get _).symm (Option.some_get _).symm sixteens_covering sixteens_covering (63,63) (by decide) (.inl inside)).mpr
  refine ⟨by decide,fun between => ?_⟩
  exact absurd between.edge_zero (by decide)

theorem shared_edge_torn : ¬∀ (P Q R S spare : Int × Int) (triangle triangle' : Triangle) (ranges : List (Nat × Nat))
    (limit : Nat × Nat) (px py : Nat), WordPair P → WordPair Q → WordPair R → WordPair S → WordPair spare →
    drawTriangle P Q R spare = some triangle → drawTriangle Q P S spare = some triangle' → Covering ranges →
    px < 32*(limit.1+1) → py < 32*(limit.2+1) →
    (Interior (point P) (point Q) (point R) (sample px py) ∨ Interior (point Q) (point P) (point S) (sample px py) ∨
      OnSegment (point P) (point Q) (sample px py)) →
    (paint triangle limit ranges).count (px,py) + (paint triangle' limit ranges).count (px,py) = 1 := by
  intro claim
  have between : OnSegment (point wedgeP) (point wedgeQ) (sample 4 0) := ⟨3,1,by decide,by decide,by decide,by decide⟩
  have one := claim wedgeP wedgeQ wedgeR wedgeS wedgeP _ _ sixteens (63,63) 4 0 wedge_words.1 wedge_words.2.1
    wedge_words.2.2.1 wedge_words.2.2.2 wedge_words.1 (Option.some_get wedge_accepted.1).symm
    (Option.some_get wedge_accepted.2).symm sixteens_covering (by decide) (by decide) (.inr (.inr between))
  obtain ⟨turned,_,first⟩ := drawn_interior (63,63) 4 0 wedge_words.1 wedge_words.2.1
    wedge_words.2.2.1 wedge_words.1 (Option.some_get wedge_accepted.1).symm sixteens_covering
  obtain ⟨turned',_,second⟩ := drawn_interior (63,63) 4 0 wedge_words.2.1 wedge_words.1
    wedge_words.2.2.2 wedge_words.1 (Option.some_get wedge_accepted.2).symm sixteens_covering
  have left := mt first.mp fun facts => between.outside turned facts.2
  have right := mt second.mp fun facts => between.swap.outside turned' facts.2
  omega

end Spugl
