import Spugl.FramePainting
import Spugl.RenderableTable

namespace Spugl
open HilbertWalk WriteBack

-- ps3fb_ioctl_res
structure ScreenInfo where
  xres : Nat
  yres : Nat
  xoff : Nat
  yoff : Nat
  num_frames : Nat

-- The fields of `screen` that drawing depends on. `visible` is what the last FSEL has shown.
structure Screen where
  renderable_id : Fin 2 → BitVec 32
  width : Nat
  height : Nat
  stride : Nat
  visible_frame : Nat
  draw_frame : Nat
  draw_size : Nat
  num_frames : Nat
  mmap_base : Nat
  visible : Nat

-- What rand and malloc return for the two renderables of Screen_open.
structure ScreenCalls where
  mmap_base : Nat
  rand : Fin 2 → BitVec 32
  cacheLine : Fin 2 → Nat

namespace Screen

-- The two calls of blockManagementCreateRenderable, that for renderable_id[1] first.
def calls (info : ScreenInfo) (given : ScreenCalls) : List RenderableCall :=
  let width := info.xres - 2*info.xoff
  let height := info.yres - 2*info.yoff
  let stride := info.xres*4
  let visible_frame := (info.yoff*info.xres + info.xoff)*4
  let draw_frame := if info.num_frames < 2 then visible_frame else visible_frame + info.yres*info.xres*4
  [⟨BitVec.ofNat 64 (given.mmap_base + visible_frame),width,height,stride,given.rand 1,given.cacheLine 1⟩,
    ⟨BitVec.ofNat 64 (given.mmap_base + draw_frame),width,height,stride,given.rand 0,given.cacheLine 0⟩]

-- Screen_open, where all system calls succeed.
def Screen_open (info : ScreenInfo) (given : ScreenCalls) (t : RenderableTable) : Screen × RenderableTable :=
  let made := t.createAll (calls info given)
  let visible_frame := (info.yoff*info.xres + info.xoff)*4
  ({renderable_id := fun
      | 0 => made.2.getD 1 0
      | 1 => made.2.getD 0 0
    width := info.xres - 2*info.xoff
    height := info.yres - 2*info.yoff
    stride := info.xres*4
    visible_frame := visible_frame
    draw_frame := if info.num_frames < 2 then visible_frame else visible_frame + info.yres*info.xres*4
    draw_size := info.yres*info.xres*4
    num_frames := if info.num_frames > 1 then 2 else 1
    mmap_base := given.mmap_base
    visible := 0},made.1)

def Screen_swap (screen : Screen) : Screen × BitVec 32 :=
  let showFrame := screen.num_frames - 1 - screen.visible
  ({screen with visible := showFrame,draw_frame := screen.visible_frame,visible_frame := screen.draw_frame},
    screen.renderable_id (Fin.ofNat 2 showFrame))

-- The bytes of the frame that is on the screen.
def shown (screen : Screen) (a : BitVec 64) : Prop :=
  screen.mmap_base + screen.visible*screen.draw_size ≤ a.toNat ∧ a.toNat < screen.mmap_base + (screen.visible+1)*screen.draw_size

end Screen

-- Where frame k of the mapping begins that a renderable is made for.
def ScreenInfo.start (info : ScreenInfo) (k : Nat) : Nat := (info.yoff*info.xres + info.xoff)*4 + k*(info.yres*info.xres*4)

-- Each direction has room for a tile between the borders, and addresses have 32 bits.
structure ScreenFits (info : ScreenInfo) (given : ScreenCalls) : Prop where
  wide : 2*info.xoff + 32 ≤ info.xres
  high : 2*info.yoff + 32 ≤ info.yres
  mapped : 0 < given.mmap_base
  ends : given.mmap_base + 2*(info.yres*info.xres*4) + 4*info.xoff ≤ 2^32
  lines : ∀ k, given.cacheLine k ≠ 0
  apart : given.cacheLine 1 ≠ given.cacheLine 0

section
variable {info : ScreenInfo} {given : ScreenCalls} {k : Nat}

theorem ScreenFits.lines_used (fits : ScreenFits info given) :
    info.xres*4*(info.yres - 2*info.yoff) + 2*(info.yoff*info.xres)*4 = info.yres*info.xres*4 := by
  have high := fits.high
  obtain ⟨rest,same⟩ : ∃ rest, info.yres = 2*info.yoff + rest := ⟨info.yres - 2*info.yoff,by omega⟩
  rw [same,Nat.add_sub_cancel_left]
  ring

theorem ScreenFits.start (fits : ScreenFits info given) (frame : k < 2) :
    (BitVec.ofNat 64 (given.mmap_base + info.start k)).toNat = given.mmap_base + info.start k := by
  have used := fits.lines_used
  have ends := fits.ends
  have mapping : k*(info.yres*info.xres*4) ≤ 1*(info.yres*info.xres*4) := Nat.mul_le_mul_right _ (Nat.le_of_lt_succ frame)
  rw [BitVec.toNat_ofNat]
  apply Nat.mod_eq_of_lt
  unfold ScreenInfo.start
  omega

theorem ScreenFits.frame (fits : ScreenFits info given) (frame : k < 2) : FrameFits (BitVec.ofNat 64 (given.mmap_base + info.start k))
    (info.xres - 2*info.xoff) (info.yres - 2*info.yoff) (info.xres*4) := by
  have wide := fits.wide
  have high := fits.high
  have used := fits.lines_used
  have ends := fits.ends
  have mapping : k*(info.yres*info.xres*4) ≤ 1*(info.yres*info.xres*4) := Nat.mul_le_mul_right _ (Nat.le_of_lt_succ frame)
  refine ⟨by omega,by omega,by omega,?_⟩
  rw [fits.start frame]
  unfold ScreenInfo.start
  omega

-- The tiles of frame k are in its part of the mapping.
theorem ScreenFits.inside (fits : ScreenFits info given) (frame : k < 2) {coord : Nat × Nat}
    (shown : (createRenderable (BitVec.ofNat 64 (given.mmap_base + info.start k)) (info.xres - 2*info.xoff : Nat)
      (info.yres - 2*info.yoff : Nat) (info.xres*4 : Nat)).inFrame coord) (n : Fin 4096) :
    let a := (createRenderable (BitVec.ofNat 64 (given.mmap_base + info.start k)) (info.xres - 2*info.xoff : Nat)
      (info.yres - 2*info.yoff : Nat) (info.xres*4 : Nat)).tile coord n
    given.mmap_base + k*(info.yres*info.xres*4) ≤ a.toNat ∧ a.toNat < given.mmap_base + (k+1)*(info.yres*info.xres*4) := by
  have wide := fits.wide
  have used := fits.lines_used
  obtain ⟨columns,rows⟩ := (fits.frame frame).limits shown
  dsimp only
  rw [created_tile (fits.frame frame) shown,fits.start frame]
  generalize same : info.yres - 2*info.yoff = height at *
  have tall : 32 ≤ height := by
    have high := fits.high
    omega
  -- The last line of the last tile, with all of what is left over above it.
  have above : info.xres*4*(height % 32) / 2 ≤ info.xres*4*(height % 32) := Nat.div_le_self _ _
  have line : (32*coord.2 + n.val/128)*(info.xres*4) ≤ (32*(height/32) - 1)*(info.xres*4) := Nat.mul_le_mul_right _ (by omega)
  have whole : info.xres*4*(height % 32) + (32*(height/32) - 1)*(info.xres*4) + info.xres*4 = info.xres*4*height := by
    have count : height % 32 + (32*(height/32) - 1) + 1 = height := by omega
    calc info.xres*4*(height % 32) + (32*(height/32) - 1)*(info.xres*4) + info.xres*4 =
          info.xres*4*(height % 32 + (32*(height/32) - 1) + 1) := by ring
      _ = info.xres*4*height := by rw [count]
  have next : (k+1)*(info.yres*info.xres*4) = k*(info.yres*info.xres*4) + info.yres*info.xres*4 := Nat.succ_mul _ _
  rw [next]
  unfold ScreenInfo.start
  omega

-- So drawing in one frame leaves the other as it is.
theorem ScreenFits.hidden (fits : ScreenFits info given) (frame : k < 2) {k' : Nat} (other : k' ≠ k) {P ι : Type} [DecidableEq ι]
    {initial : BitVec 64 → BitVec 8} {s : Canvas P (BitVec 8) ι}
    (path : Canvas.Reached (createRenderable (BitVec.ofNat 64 (given.mmap_base + info.start k)) (info.xres - 2*info.xoff : Nat)
      (info.yres - 2*info.yoff : Nat) (info.xres*4 : Nat)) initial s) {a : BitVec 64}
    (low : given.mmap_base + k'*(info.yres*info.xres*4) ≤ a.toNat) (high : a.toNat < given.mmap_base + (k'+1)*(info.yres*info.xres*4)) :
    s.memory a = initial a := by
  obtain ⟨r,t,painted⟩ := reached_painted (created_apart (fits.frame frame)) path
  apply painted.outside
  rintro tile ⟨inside,_⟩ n rfl
  obtain ⟨below,above⟩ := fits.inside frame inside n
  unfold PixelTiles.tileAt at low high
  rcases Nat.lt_or_gt_of_ne other with less | more
  · have order : (k'+1)*(info.yres*info.xres*4) ≤ k*(info.yres*info.xres*4) := Nat.mul_le_mul_right _ less
    exact absurd high (by omega)
  · have order : (k+1)*(info.yres*info.xres*4) ≤ k'*(info.yres*info.xres*4) := Nat.mul_le_mul_right _ more
    omega

end

-- What a screen with two frames keeps, whatever is swapped: which frame is shown, and the renderables of both.
structure Flipping (info : ScreenInfo) (given : ScreenCalls) (t : RenderableTable) (screen : Screen) : Prop where
  visible : screen.visible < 2
  frames : screen.num_frames = 2
  base : screen.mmap_base = given.mmap_base
  size : screen.draw_size = info.yres*info.xres*4
  seen : screen.visible_frame = info.start screen.visible
  draw : screen.draw_frame = info.start (1 - screen.visible)
  renderables : ∀ showFrame, showFrame < 2 → ∃ rand cacheLine,
    t.blockManagementGetRenderable (screen.renderable_id (Fin.ofNat 2 showFrame)) =
      some (RenderableCall.record ⟨BitVec.ofNat 64 (given.mmap_base + info.start (1 - showFrame)),info.xres - 2*info.xoff,
        info.yres - 2*info.yoff,info.xres*4,rand,cacheLine⟩ (1 - showFrame))

section
variable {info : ScreenInfo} {given : ScreenCalls} {t : RenderableTable} {screen : Screen}

theorem opened_id (info : ScreenInfo) (given : ScreenCalls) (t : RenderableTable) :
    (Screen.Screen_open info given t).1.renderable_id 0 = (t.createAll (Screen.calls info given)).2.getD 1 0 ∧
      (Screen.Screen_open info given t).1.renderable_id 1 = (t.createAll (Screen.calls info given)).2.getD 0 0 := ⟨rfl,rfl⟩

theorem opened_table (info : ScreenInfo) (given : ScreenCalls) (t : RenderableTable) :
    (Screen.Screen_open info given t).2 = (t.createAll (Screen.calls info given)).1 := rfl

theorem opened_flipping (fits : ScreenFits info given) (two : 1 < info.num_frames) :
    Flipping info given (Screen.Screen_open info given .blockManagementInit).2 (Screen.Screen_open info given .blockManagementInit).1 := by
  have more : ¬info.num_frames < 2 := Nat.not_lt.mpr two
  have zero : info.start 0 = (info.yoff*info.xres + info.xoff)*4 := by
    unfold ScreenInfo.start
    omega
  have one : info.start 1 = (info.yoff*info.xres + info.xoff)*4 + info.yres*info.xres*4 := by
    unfold ScreenInfo.start
    omega
  have calls : Screen.calls info given =
      [⟨BitVec.ofNat 64 (given.mmap_base + info.start 0),info.xres - 2*info.xoff,info.yres - 2*info.yoff,info.xres*4,given.rand 1,given.cacheLine 1⟩,
        ⟨BitVec.ofNat 64 (given.mmap_base + info.start 1),info.xres - 2*info.xoff,info.yres - 2*info.yoff,info.xres*4,given.rand 0,given.cacheLine 0⟩] := by
    unfold Screen.calls
    rw [zero,one]
    dsimp only
    rw [if_neg more]
  have buffer {k : Nat} (frame : k < 2) : BitVec.ofNat 64 (given.mmap_base + info.start k) ≠ 0 := by
    intro none
    have value := fits.start frame
    rw [none] at value
    have mapped := fits.mapped
    exact absurd value (by simp; omega)
  have buffers : ∀ call ∈ Screen.calls info given, call.buffer ≠ 0 := by
    rw [calls]
    simp only [List.mem_cons,List.not_mem_nil,or_false]
    rintro call (rfl | rfl)
    · exact buffer (by decide)
    · exact buffer (by decide)
  have lines : ∀ call ∈ Screen.calls info given, call.cacheLine ≠ 0 := by
    rw [calls]
    simp only [List.mem_cons,List.not_mem_nil,or_false]
    rintro call (rfl | rfl)
    · exact fits.lines 1
    · exact fits.lines 0
  have distinct : (([] ++ Screen.calls info given).map RenderableCall.cacheLine).Nodup := by
    rw [calls]
    simp [fits.apart]
  obtain ⟨filled,_,ids⟩ := filled_start.all buffers lines distinct
  have made : ([] ++ Screen.calls info given).take 32 = Screen.calls info given := by
    rw [calls]
    rfl
  rw [made] at filled
  -- renderable_id[1] is the first record, and renderable_id[0] the second.
  have first : (Screen.calls info given)[0]? = some ⟨BitVec.ofNat 64 (given.mmap_base + info.start 0),info.xres - 2*info.xoff,
      info.yres - 2*info.yoff,info.xres*4,given.rand 1,given.cacheLine 1⟩ := by rw [calls]; rfl
  have second : (Screen.calls info given)[1]? = some ⟨BitVec.ofNat 64 (given.mmap_base + info.start 1),info.xres - 2*info.xoff,
      info.yres - 2*info.yoff,info.xres*4,given.rand 0,given.cacheLine 0⟩ := by rw [calls]; rfl
  refine ⟨Nat.zero_lt_two,if_pos two,rfl,rfl,zero.symm,?_,?_⟩
  · show (if info.num_frames < 2 then _ else _) = info.start 1
    rw [if_neg more,one]
  · intro showFrame less
    obtain ⟨id0,id1⟩ := opened_id info given .blockManagementInit
    rw [opened_table]
    interval_cases showFrame
    · refine ⟨given.rand 0,given.cacheLine 0,?_⟩
      rw [List.getD_eq_getElem?_getD,ids 1 _ second] at id0
      rw [show Fin.ofNat 2 0 = 0 from rfl,id0]
      exact filled.found second
    · refine ⟨given.rand 1,given.cacheLine 1,?_⟩
      rw [List.getD_eq_getElem?_getD,ids 0 _ first] at id1
      rw [show Fin.ofNat 2 1 = 1 from rfl,id1]
      exact filled.found first

theorem Flipping.swap (flipping : Flipping info given t screen) : Flipping info given t screen.Screen_swap.1 := by
  obtain ⟨visible,frames,base,size,seen,draw,renderables⟩ := flipping
  have shows : screen.Screen_swap.1.visible = 1 - screen.visible := by
    unfold Screen.Screen_swap
    dsimp only
    omega
  refine ⟨?_,frames,base,size,?_,?_,renderables⟩
  · omega
  · rw [shows]
    exact draw
  · rw [shows,show 1 - (1 - screen.visible) = screen.visible by omega]
    exact seen

theorem Flipping.swaps (flipping : Flipping info given t screen) (count : Nat) :
    Flipping info given t ((fun screen => screen.Screen_swap.1)^[count] screen) := by
  induction count with
  | zero => exact flipping
  | succ count ih =>
    rw [Function.iterate_succ_apply']
    exact ih.swap

end

-- After any number of flips: the id that the client gets back is that of a renderable in draw_frame, and whatever the
-- render SPUs draw in this one, the frame on the screen keeps every byte.
theorem flip_hidden {info : ScreenInfo} {given : ScreenCalls} (fits : ScreenFits info given) (two : 1 < info.num_frames) (count : Nat) :
    let opened := Screen.Screen_open info given .blockManagementInit
    let flipped := ((fun screen => screen.Screen_swap.1)^[count] opened.1).Screen_swap
    ∃ record, opened.2.blockManagementGetRenderable flipped.2 = some record ∧
      record.ea.toNat = given.mmap_base + flipped.1.draw_frame ∧
      ∀ {P ι : Type} [DecidableEq ι] {initial : BitVec 64 → BitVec 8} {s : Canvas P (BitVec 8) ι},
        Canvas.Reached (createRenderable record.ea record.width record.height record.stride) initial s →
        ∀ a, flipped.1.shown a → s.memory a = initial a := by
  have before := (opened_flipping fits two).swaps count
  dsimp only
  generalize (fun screen : Screen => screen.Screen_swap.1)^[count] (Screen.Screen_open info given .blockManagementInit).1 = screen at before ⊢
  have flipping := before.swap
  have visible := flipping.visible
  have shows : screen.Screen_swap.1.visible = 1 - screen.visible := by
    have frames := before.frames
    unfold Screen.Screen_swap
    dsimp only
    omega
  obtain ⟨rand,cacheLine,found⟩ := before.renderables (screen.num_frames - 1 - screen.visible) flipping.visible
  refine ⟨_,found,?_,?_⟩
  · rw [flipping.draw]
    exact fits.start (by omega)
  · intro P ι _ initial s path a on
    obtain ⟨low,high⟩ := on
    rw [flipping.base,flipping.size] at low high
    exact fits.hidden (k := 1 - screen.Screen_swap.1.visible) (by omega) (by omega) path low high

-- A small screen with borders.
def smallInfo : ScreenInfo := ⟨80,100,8,4,2⟩

def smallGiven : ScreenCalls := ⟨0x10000,fun k => BitVec.ofNat 32 (k.val+7),fun k => 0x4000*(k.val+1)⟩

theorem smallScreen_fits : ScreenFits smallInfo smallGiven :=
  ⟨by decide,by decide,by decide,by decide,by decide,by decide⟩

-- A render SPU in the frame that is not shown, with two of its tiles written back.
def hiddenFrame : PixelTiles := createRenderable 98848 (64 : Nat) (92 : Nat) (320 : Nat)

def screenTriangle : ShadedTriangle Nat (BitVec 8) := ⟨exactTriangle (vertex wideX wideY),0x55,fun colour _ _ _ _ _ => BitVec.ofNat 8 colour⟩

def screenMemory (a : BitVec 64) : BitVec 8 := a.setWidth 8

def hiddenWritten : Canvas Nat (BitVec 8) (Fin 2) :=
  [.getTriangleBuffer,.write screenTriangle,.publish].foldl (Canvas.act hiddenFrame) (.start (fun _ => ⟨fun _ => false,0⟩)
    (fun _ => screenTriangle) (fun _ => ⟨screenTriangle,⟨0,fun _ => (0,0),fun _ _ => 0,fun _ => [],fun _ _ => 0,fun _ => 0,fun _ => 0,[],[]⟩,
      false,0,[]⟩) screenMemory)

def hiddenPainted : Canvas Nat (BitVec 8) (Fin 2) := (fun s => s.run hiddenFrame 0)^[9] hiddenWritten

theorem hiddenPainted_reached : Canvas.Reached hiddenFrame screenMemory hiddenPainted := by
  have written : Canvas.Reached hiddenFrame screenMemory hiddenWritten :=
    Runs.Reached.follow (.start ⟨_,_,_,rfl⟩) ⟨rfl,⟨wideX,wideY,wide_words.1,wide_words.2,wide_accepted⟩,trivial,trivial⟩
  exact written.runs 0 9 (by decide +kernel)

theorem flip_hidden_small :
    let opened := Screen.Screen_open smallInfo smallGiven .blockManagementInit
    let flipped := ((fun screen : Screen => screen.Screen_swap.1)^[3] opened.1).Screen_swap
    (∃ record, opened.2.blockManagementGetRenderable flipped.2 = some record ∧ record.ea.toNat = 0x10000 + ((4*80 + 8)*4 + 100*80*4)) ∧
      (hiddenPainted.painters 0).buffers.writes.length = 2 ∧ ∀ a, flipped.1.shown a → hiddenPainted.memory a = screenMemory a := by
  intro opened flipped
  obtain ⟨record,found,ea,hidden⟩ := flip_hidden smallScreen_fits (by decide) 3
  have fields : (opened.2.blockManagementGetRenderable flipped.2).map (fun record => (record.ea,record.width,record.height,record.stride)) =
      some (98848#64,64,92,320) := by decide +kernel
  rw [show opened.2.blockManagementGetRenderable flipped.2 = some record from found] at fields
  obtain ⟨buffer,id,width,height,stride,cacheLine⟩ := record
  obtain ⟨rfl,rfl,rfl,rfl⟩ : buffer = 98848#64 ∧ width = 64 ∧ height = 92 ∧ stride = 320 := by simpa using fields
  exact ⟨⟨_,found,ea⟩,by decide +kernel,hidden hiddenPainted_reached⟩

end Spugl
