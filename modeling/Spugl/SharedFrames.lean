import Spugl.ScreenFrames

namespace Spugl
open HilbertWalk WriteBack

-- The renderables of the task list, and the SPUs that draw all of them: each SPU has one set of buffers, and the memory is one.
-- `cache_ea` is the rest of the list that an SPU has in front of it, from the cache line in hand on.
structure Frames (κ P α ι : Type) where
  pipelines : κ → Pipeline ι
  shaded : κ → Nat → ShadedTriangle P α
  published : κ → List (ShadedTriangle P α)
  painters : ι → Painter P α
  memory : BitVec 64 → α
  cache_ea : ι → List κ

def CanvasAction.produces : CanvasAction P α ι → Bool
  | .run _ => false
  | _ => true

inductive FramesAction (κ P α ι : Type) where
  | run (k : ι)
  | trynextcacheline (k : ι)
  | produce (c : κ) (a : CanvasAction P α ι)

namespace Frames

variable {κ P α ι : Type} [DecidableEq κ] [DecidableEq ι]

def start (ring : Nat → TriangleRecord Nat) (shaded : κ → Nat → ShadedTriangle P α) (painters : ι → Painter P α)
    (memory : BitVec 64 → α) : Frames κ P α ι where
  pipelines := fun _ => .start ring
  shaded := shaded
  published := fun _ => []
  painters := fun k => {painters k with unflushed := []}
  memory := memory
  cache_ea := fun _ => []

-- What an SPU has of one renderable: nothing to write back when it is at another one.
def painter (w : Frames κ P α ι) (c : κ) (k : ι) : Painter P α :=
  if (w.cache_ea k).head? = some c then w.painters k else {w.painters k with unflushed := []}

def canvas (w : Frames κ P α ι) (c : κ) : Canvas P α ι := ⟨w.pipelines c,w.shaded c,w.published c,w.painter c,w.memory⟩

-- SPU k has come to `s` in renderable c.
def put (w : Frames κ P α ι) (c : κ) (k : ι) (s : Canvas P α ι) : Frames κ P α ι :=
  {w with
    pipelines := Function.update w.pipelines c s.pipeline
    painters := Function.update w.painters k (s.painters k)
    memory := s.memory}

-- An SPU without a cache line calls process_render_tasks again, which reads the head of the list.
def run (caches : κ → PixelTiles) (tasks : List κ) (w : Frames κ P α ι) (k : ι) : Frames κ P α ι :=
  match w.cache_ea k with
  | [] => {w with cache_ea := Function.update w.cache_ea k tasks}
  | c :: _ => w.put c k ((w.canvas c).run (caches c) k)

def act (caches : κ → PixelTiles) (tasks : List κ) (w : Frames κ P α ι) : FramesAction κ P α ι → Frames κ P α ι
  | .run k => w.run caches tasks k
  | .trynextcacheline k => {w with cache_ea := Function.update w.cache_ea k (w.cache_ea k).tail}
  | .produce c a =>
    let s := (w.canvas c).act (caches c) a
    {w with
      pipelines := Function.update w.pipelines c s.pipeline
      shaded := Function.update w.shaded c s.shaded
      published := Function.update w.published c s.published}

-- An SPU leaves a cache line when it has no chunk of it.
def allowed (w : Frames κ P α ι) : FramesAction κ P α ι → Prop
  | .run k => ∀ c ∈ (w.cache_ea k).head?, (w.canvas c).allowed (.run k)
  | .trynextcacheline k => ∀ c ∈ (w.cache_ea k).head?, (w.pipelines c).system.spus k = .idle
  | .produce c a => a.produces = true ∧ (w.canvas c).allowed a

def Reached (caches : κ → PixelTiles) (tasks : List κ) (memory : BitVec 64 → α) : Frames κ P α ι → Prop :=
  Runs.Reached (fun w => ∃ ring shaded painters, w = start ring shaded painters memory) (Runs.Step (act caches tasks) allowed)

end Frames

section
variable {P α ι : Type} {cache : PixelTiles} {initial initial' memory : BitVec 64 → α} {s : Canvas P α ι} {r : TriangleRing} {t : System Nat ι}

-- The picture of a tile takes of the memory at the start what is in the tile.
theorem picture_initial {published : List (ShadedTriangle P α)} {tile : Nat}
    (same : fetch initial' (cache.tileAt tile) = fetch initial (cache.tileAt tile)) :
    picture cache published initial' t tile = picture cache published initial t tile := by
  unfold picture
  rw [same]

theorem Painted.resting (painted : Painted cache initial s r t) (idle : s.pipeline.system.spus k = .idle) : t.spus k = .idle := by
  have named := painted.unrolled.named.spus k
  cases at_ : t.spus k with
  | idle => rfl
  | rendering =>
    rw [at_] at named
    obtain ⟨_,named,_⟩ := named
    rw [idle] at named
    cases named
  | _ =>
    rw [at_] at named
    rw [show s.pipeline.system.spus k = _ from named] at idle
    cases idle

theorem Painted.idle_flushed (painted : Painted cache initial s r t) (idle : s.pipeline.system.spus k = .idle) :
    (s.painters k).unflushed = [] := by
  have paints := painted.paints k
  rw [painted.resting idle] at paints
  exact paints

-- The same renderable while its SPUs are busy elsewhere, and memory changes that is not its own.
theorem Painted.elsewhere {painters : ι → Painter P α} (painted : Painted cache initial s r t)
    (idle : ∀ k, painters k = s.painters k ∨ (painters k).unflushed = [] ∧ s.pipeline.system.spus k = .idle)
    (own : ∀ tile, cache.shows tile → fetch memory (cache.tileAt tile) = fetch s.memory (cache.tileAt tile))
    (begun : ∀ tile, cache.shows tile → fetch initial' (cache.tileAt tile) = fetch initial (cache.tileAt tile))
    (others : ∀ a, (∀ tile, cache.shows tile → ∀ n, cache.tileAt tile n ≠ a) → memory a = initial' a) :
    Painted cache initial' {s with painters := painters,memory := memory} r t := by
  have blocks (k : ι) : (painters k = s.painters k) ∨ (painters k).blocks (t.spus k) = [] ∧ (s.painters k).blocks (t.spus k) = [] := by
    rcases idle k with same | ⟨none,rest⟩
    · exact .inl same
    · rw [painted.resting rest]
      exact .inr ⟨none,painted.idle_flushed rest⟩
  refine ⟨painted.unrolled,painted.count,painted.covers,painted.shaded,painted.written,painted.drawable,?_,?_,?_,?_,others⟩
  · intro k
    rcases idle k with same | ⟨none,rest⟩
    · dsimp only
      rw [same]
      exact painted.paints k
    · dsimp only
      rw [painted.resting rest]
      exact none
  · intro k block member
    dsimp only at member ⊢
    rcases blocks k with same | ⟨none,_⟩
    · rw [same] at member ⊢
      have keeps := painted.keeps k block member
      exact ⟨keeps.shown,keeps.list,keeps.pixels.trans (picture_initial (begun _ keeps.shown)).symm⟩
    · rw [none] at member
      cases member
  · intro tile shown free
    dsimp only at free ⊢
    rw [own tile shown,picture_initial (begun tile shown)]
    refine painted.current tile shown fun k block member => ?_
    rcases blocks k with same | ⟨_,none⟩
    · rw [← same] at member ⊢
      exact free k block member
    · rw [none] at member
      cases member
  · intro tile shown
    dsimp only
    rw [own tile shown,begun tile shown]
    exact painted.shows tile shown

end

section
variable {P α ι : Type} [DecidableEq ι] {cache : PixelTiles} {s : Canvas P α ι}

theorem System.run_others {t : System Nat ι} {k k' : ι} (other : k' ≠ k) : (t.run k).spus k' = t.spus k' := by
  have stored (line : CacheLine Nat) (done failed : Spu Nat) : (t.putllc k line done failed).spus k' = t.spus k' := by
    unfold System.putllc
    split <;> exact Function.update_of_ne other _ _
  unfold System.run
  cases t.spus k with
  | claiming =>
    dsimp only
    split
    · exact Function.update_of_ne other _ _
    · exact stored _ _ _
  | scanning =>
    dsimp only
    split
    · exact Function.update_of_ne other _ _
    · split <;> exact Function.update_of_ne other _ _
  | storing =>
    dsimp only
    split <;> exact stored _ _ _
  | rendering =>
    dsimp only
    split
    · exact Function.update_of_ne other _ _
    · split <;> exact Function.update_of_ne other _ _
  | releasing => exact stored _ _ _
  | _ => exact Function.update_of_ne other _ _

-- What the primary SPU leaves alone.
theorem Canvas.act_frame (cache : PixelTiles) {a : CanvasAction P α ι} (produces : a.produces = true) :
    (s.act cache a).painters = s.painters ∧ (s.act cache a).memory = s.memory ∧
      (s.act cache a).pipeline.system.spus = s.pipeline.system.spus := by
  cases a with
  | run => cases produces
  | getTriangleBuffer =>
    refine ⟨rfl,rfl,?_⟩
    show (s.pipeline.act .getTriangleBuffer).system.spus = _
    unfold Pipeline.act
    dsimp only
    split <;> rfl
  | abandon => exact ⟨rfl,rfl,rfl⟩
  | write t =>
    unfold Canvas.act
    cases at_ : s.pipeline.producer with
    | granted g =>
      refine ⟨rfl,rfl,?_⟩
      show (s.pipeline.act (.write t.covers)).system.spus = _
      simp only [Pipeline.act,at_]
      rfl
    | _ => exact ⟨rfl,rfl,rfl⟩
  | publish =>
    unfold Canvas.act
    cases at_ : s.pipeline.producer with
    | written g =>
      refine ⟨rfl,rfl,?_⟩
      show (s.pipeline.act .publish).system.spus = _
      simp only [Pipeline.act,at_]
      rfl
    | _ => exact ⟨rfl,rfl,rfl⟩

end

open Classical in
-- A memory in the tiles of a frame, and another one around them.
noncomputable def PixelTiles.within (cache : PixelTiles) (inner outer : BitVec 64 → α) (a : BitVec 64) : α :=
  if ∃ tile, cache.shows tile ∧ ∃ n, cache.tileAt tile n = a then inner a else outer a

theorem PixelTiles.within_tile {cache : PixelTiles} {tile : Nat} (shown : cache.shows tile) (inner outer : BitVec 64 → α) :
    fetch (cache.within inner outer) (cache.tileAt tile) = fetch inner (cache.tileAt tile) :=
  funext fun n => if_pos ⟨tile,shown,n,rfl⟩

theorem PixelTiles.within_outside {cache : PixelTiles} {a : BitVec 64} (out : ∀ tile, cache.shows tile → ∀ n, cache.tileAt tile n ≠ a)
    (inner outer : BitVec 64 → α) : cache.within inner outer a = outer a :=
  if_neg fun ⟨tile,shown,n,same⟩ => out tile shown n same

-- The frames have no byte in common.
structure Separate (caches : κ → PixelTiles) : Prop where
  apart : ∀ c, Apart (caches c).inFrame (caches c).tile
  others : ∀ c c' tile tile' n n', (caches c).shows tile → (caches c').shows tile' →
    (caches c).tileAt tile n = (caches c').tileAt tile' n' → c = c'

-- Each renderable by itself is as if it were the only one; an SPU works at the cache line in hand only.
structure Together {κ P α ι : Type} [DecidableEq κ] (caches : κ → PixelTiles) (initial : BitVec 64 → α) (w : Frames κ P α ι) : Prop where
  painted : ∀ c, ∃ begun r t, (∀ tile, (caches c).shows tile → fetch begun ((caches c).tileAt tile) = fetch initial ((caches c).tileAt tile)) ∧
    Painted (caches c) begun (w.canvas c) r t
  working : ∀ k c, (w.pipelines c).system.spus k ≠ .idle → (w.cache_ea k).head? = some c
  flushed : ∀ k, w.cache_ea k = [] → (w.painters k).unflushed = []
  outside : ∀ a, (∀ c tile, (caches c).shows tile → ∀ n, (caches c).tileAt tile n ≠ a) → w.memory a = initial a

section
variable {κ P α ι : Type} [DecidableEq κ] [DecidableEq ι] {caches : κ → PixelTiles} {initial : BitVec 64 → α} {w : Frames κ P α ι}
  {tasks : List κ} {k : ι}

omit [DecidableEq ι] in
theorem Frames.painter_congr {w' : Frames κ P α ι} {c : κ} (head : (w'.cache_ea k).head? = (w.cache_ea k).head?)
    (same : w'.painters k = w.painters k) : w'.painter c k = w.painter c k := by
  unfold Frames.painter
  simp only [head,same]

omit [DecidableEq ι] in
theorem Frames.painter_own {c : κ} (head : (w.cache_ea k).head? = some c) : w.painter c k = w.painters k := if_pos head

omit [DecidableEq ι] in
theorem Frames.painter_unflushed {c : κ} (flushed : (w.painters k).unflushed = []) : (w.painter c k).unflushed = [] := by
  unfold Frames.painter
  split
  · exact flushed
  · rfl

-- An SPU that is idle everywhere may turn to any cache line.
theorem Together.seek (together : Together caches initial w) (idle : ∀ c, (w.pipelines c).system.spus k = .idle)
    (flushed : (w.painters k).unflushed = []) (list : List κ) :
    Together caches initial {w with cache_ea := Function.update w.cache_ea k list} := by
  refine ⟨?_,?_,?_,together.outside⟩
  · intro c
    obtain ⟨begun,r,t,same,painted⟩ := together.painted c
    refine ⟨begun,r,t,same,painted.elsewhere ?_ (fun _ _ => rfl) (fun _ _ => rfl) painted.outside⟩
    intro k'
    by_cases isK : k' = k
    · subst isK
      exact .inr ⟨Frames.painter_unflushed flushed,idle c⟩
    · exact .inl (Frames.painter_congr (congrArg List.head? (Function.update_of_ne isK _ _)) rfl)
  · intro k' c busy
    by_cases isK : k' = k
    · subst isK
      exact absurd (idle c) busy
    · dsimp only
      rw [Function.update_of_ne isK]
      exact together.working k' c busy
  · intro k' none
    by_cases isK : k' = k
    · subst isK
      exact flushed
    · dsimp only at none
      rw [Function.update_of_ne isK] at none
      exact together.flushed k' none

theorem Frames.put_own {c : κ} {s : Canvas P α ι} (head : (w.cache_ea k).head? = some c) (shaded : s.shaded = w.shaded c)
    (published : s.published = w.published c) (painters : ∀ k', k' ≠ k → s.painters k' = w.painter c k') : (w.put c k s).canvas c = s := by
  obtain ⟨pipeline,shaded',published',painters',memory⟩ := s
  dsimp only at shaded published painters
  subst shaded published
  refine (Canvas.mk.injEq ..).mpr ⟨Function.update_self _ _ _,rfl,rfl,?_,rfl⟩
  funext k'
  by_cases isK : k' = k
  · subst isK
    refine (Frames.painter_own ?_).trans (Function.update_self _ _ _)
    exact head
  · rw [painters k' isK]
    exact Frames.painter_congr rfl (Function.update_of_ne isK _ _)

theorem Frames.put_other {c c' : κ} (other : c' ≠ c) (s : Canvas P α ι) : (w.put c k s).canvas c' =
    {w.canvas c' with painters := (w.put c k s).painter c',memory := s.memory} :=
  (Canvas.mk.injEq ..).mpr ⟨Function.update_of_ne other _ _,rfl,rfl,rfl,rfl⟩

-- The canvas of the renderable in hand takes the step, and the others do not see it.
theorem Together.run (separate : Separate caches) (together : Together caches initial w)
    (roomy : ∀ c ∈ (w.cache_ea k).head?, (w.canvas c).allowed (.run k)) : Together caches initial (w.run caches tasks k) := by
  unfold Frames.run
  cases list : w.cache_ea k with
  | nil =>
    refine together.seek (fun c => ?_) (together.flushed k list) tasks
    by_contra busy
    have head := together.working k c busy
    rw [list] at head
    cases head
  | cons c rest =>
    have head : (w.cache_ea k).head? = some c := congrArg List.head? list
    obtain ⟨begun,r,t,same,painted⟩ := together.painted c
    obtain ⟨published,shaded,pipeline,painters⟩ := (w.canvas c).run_frame (caches c) k
    obtain ⟨r',t',after⟩ := painted.run (separate.apart c) k (roomy c head)
    dsimp only
    generalize (w.canvas c).run (caches c) k = s at published shaded pipeline painters after ⊢
    have memory (a : BitVec 64) (out : ∀ tile, (caches c).shows tile → ∀ n, (caches c).tileAt tile n ≠ a) : s.memory a = w.memory a :=
      (after.outside a out).trans (painted.outside a out).symm
    refine ⟨?_,?_,?_,?_⟩
    · intro c'
      by_cases isC : c' = c
      · subst isC
        refine ⟨begun,r',t',same,?_⟩
        rw [Frames.put_own head shaded published painters]
        exact after
      · obtain ⟨begun',r'',t'',same',painted'⟩ := together.painted c'
        refine ⟨(caches c').within begun' s.memory,r'',t'',?_,?_⟩
        · intro tile shown
          exact (PixelTiles.within_tile shown _ _).trans (same' tile shown)
        · rw [Frames.put_other isC]
          refine painted'.elsewhere ?_ ?_ (fun tile shown => PixelTiles.within_tile shown _ _)
            (fun a out => (PixelTiles.within_outside out _ _).symm)
          · intro k'
            by_cases isK : k' = k
            · subst isK
              have masked : (w.put c k' s).painter c' k' = {s.painters k' with unflushed := []} := by
                have elsewhere : ((w.put c k' s).cache_ea k').head? ≠ some c' := by
                  intro here
                  exact isC (Option.some.inj (here.symm.trans head))
                unfold Frames.painter
                rw [if_neg elsewhere]
                simp only [Frames.put,Function.update_self]
              refine .inr ⟨by rw [masked],?_⟩
              by_contra busy
              exact isC (Option.some.inj ((together.working k' c' busy).symm.trans head))
            · exact .inl (Frames.painter_congr rfl (Function.update_of_ne isK _ _))
          · intro tile shown
            funext n
            refine memory _ fun tile' shown' n' equal => isC ?_
            exact (separate.others c c' tile' tile n' n shown' shown equal).symm
    · intro k' c' busy
      by_cases isC : c' = c
      · subst isC
        by_cases isK : k' = k
        · subst isK
          exact head
        · refine together.working k' c' fun idle => busy ?_
          have still : s.pipeline.system.spus k' = .idle := by
            rcases pipeline with ran | kept
            · rw [ran]
              exact (System.run_others isK).trans idle
            · rw [kept]
              exact idle
          show (Function.update w.pipelines c' s.pipeline c').system.spus k' = .idle
          rw [Function.update_self,still]
      · refine together.working k' c' fun idle => busy ?_
        show (Function.update w.pipelines c s.pipeline c').system.spus k' = .idle
        rw [Function.update_of_ne isC,idle]
    · intro k' none
      by_cases isK : k' = k
      · subst isK
        rw [show (w.put c k' s).cache_ea k' = w.cache_ea k' from rfl,list] at none
        cases none
      · rw [show (w.put c k s).painters k' = w.painters k' from Function.update_of_ne isK _ _]
        exact together.flushed k' none
    · intro a out
      exact (memory a (out c)).trans (together.outside a out)

theorem Together.act (separate : Separate caches) (together : Together caches initial w) (a : FramesAction κ P α ι)
    (allowed : w.allowed a) : Together caches initial (w.act caches tasks a) := by
  cases a with
  | run k => exact together.run separate allowed
  | trynextcacheline k =>
    have idle (c : κ) : (w.pipelines c).system.spus k = .idle := by
      by_contra busy
      exact busy (allowed c (together.working k c busy))
    refine together.seek idle ?_ _
    cases list : w.cache_ea k with
    | nil => exact together.flushed k list
    | cons c rest =>
      have head : (w.cache_ea k).head? = some c := congrArg List.head? list
      obtain ⟨_,_,_,_,painted⟩ := together.painted c
      rw [← Frames.painter_own head]
      exact painted.idle_flushed (idle c)
  | produce c a =>
    obtain ⟨produces,allowed⟩ := allowed
    obtain ⟨painters,memory,spus⟩ := (w.canvas c).act_frame (caches c) produces
    refine ⟨?_,?_,together.flushed,together.outside⟩
    · intro c'
      by_cases isC : c' = c
      · subst isC
        obtain ⟨begun,r,t,same,painted⟩ := together.painted c'
        obtain ⟨r',t',after⟩ := painted.act (separate.apart c') a allowed
        refine ⟨begun,r',t',same,?_⟩
        have own : (w.act caches tasks (.produce c' a)).canvas c' = (w.canvas c').act (caches c') a := by
          unfold Frames.act
          dsimp only
          generalize (w.canvas c').act (caches c') a = s at painters memory ⊢
          obtain ⟨pipeline,shaded,published,painters',memory'⟩ := s
          dsimp only at painters memory
          subst painters memory
          exact (Canvas.mk.injEq ..).mpr ⟨Function.update_self _ _ _,Function.update_self _ _ _,Function.update_self _ _ _,rfl,rfl⟩
        rw [own]
        exact after
      · obtain ⟨begun,r,t,same,painted⟩ := together.painted c'
        refine ⟨begun,r,t,same,?_⟩
        have other : (w.act caches tasks (.produce c a)).canvas c' = w.canvas c' :=
          (Canvas.mk.injEq ..).mpr ⟨Function.update_of_ne isC _ _,Function.update_of_ne isC _ _,Function.update_of_ne isC _ _,rfl,rfl⟩
        rw [other]
        exact painted
    · intro k c' busy
      refine together.working k c' fun idle => busy ?_
      show (Function.update w.pipelines c ((w.canvas c).act (caches c) a).pipeline c').system.spus k = .idle
      by_cases isC : c' = c
      · subst isC
        rw [Function.update_self,spus]
        exact idle
      · rw [Function.update_of_ne isC,idle]

theorem start_together (ring : Nat → TriangleRecord Nat) (shaded : κ → Nat → ShadedTriangle P α) (painters : ι → Painter P α)
    (memory : BitVec 64 → α) : Together caches memory (Frames.start ring shaded painters memory) := by
  refine ⟨?_,?_,fun _ _ => rfl,fun _ _ => rfl⟩
  · intro c
    exact ⟨memory,_,_,fun _ _ => rfl,start_painted (caches c) ring (shaded c) painters memory⟩
  · intro k c busy
    exact absurd rfl busy

theorem reached_together (separate : Separate caches) (path : Frames.Reached caches tasks initial w) : Together caches initial w := by
  refine Runs.Reached.invariant (Together caches initial) ?_ ?_ path
  · rintro _ ⟨ring,shaded,painters,rfl⟩
    exact start_together ring shaded painters initial
  · rintro _ _ together ⟨a,allowed,rfl⟩
    exact together.act separate a allowed

end

-- Any number of renderables that any number of SPUs draw together, each in turn: no frame has anything of another one in
-- it, at any time, and each is complete once it is found drained, whatever the others are at.
theorem frames_painted {κ P α ι : Type} [DecidableEq κ] [DecidableEq ι] {caches : κ → PixelTiles} {tasks : List κ}
    {initial : BitVec 64 → α} {w : Frames κ P α ι} (separate : Separate caches) (path : Frames.Reached caches tasks initial w) :
    (∀ c tile, (caches c).shows tile → ∃ p, p ≤ (w.published c).length ∧ fetch w.memory ((caches c).tileAt tile) =
      ((w.published c).take p).foldl (fun pixels t => t.paint tile pixels) (fetch initial ((caches c).tileAt tile))) ∧
    (∀ c, (w.pipelines c).system.line.stillProcessingQueue = false → ∀ tile, (caches c).shows tile →
      fetch w.memory ((caches c).tileAt tile) =
        (w.published c).foldl (fun pixels t => t.paint tile pixels) (fetch initial ((caches c).tileAt tile))) ∧
    (∀ a, (∀ c tile, (caches c).shows tile → ∀ n, (caches c).tileAt tile n ≠ a) → w.memory a = initial a) ∧
    ∀ k c c', (w.pipelines c).system.spus k ≠ .idle → (w.pipelines c').system.spus k ≠ .idle → c = c' := by
  have together := reached_together separate path
  refine ⟨?_,?_,together.outside,?_⟩
  · intro c tile shown
    obtain ⟨begun,r,t,same,painted⟩ := together.painted c
    rw [← same tile shown]
    exact painted.shows tile shown
  · intro c drained tile shown
    obtain ⟨begun,r,t,same,painted⟩ := together.painted c
    have finished : w.memory = (caches c).paintAll (w.published c) begun := painted.finished (separate.apart c) drained
    rw [← same tile shown,finished]
    exact paintAll_fetch (separate.apart c) painted.drawable shown begun
  · intro k c c' one two
    exact Option.some.inj ((together.working k c one).symm.trans (together.working k c' two))

-- The two frames of a screen.
def screenFrames (info : ScreenInfo) (given : ScreenCalls) (k : Fin 2) : PixelTiles :=
  createRenderable (BitVec.ofNat 64 (given.mmap_base + info.start k.val)) (info.xres - 2*info.xoff : Nat) (info.yres - 2*info.yoff : Nat)
    (info.xres*4 : Nat)

theorem ScreenFits.separate (fits : ScreenFits info given) : Separate (screenFrames info given) := by
  refine ⟨fun k => created_apart (fits.frame k.isLt),?_⟩
  intro c c' tile tile' n n' shown shown' same
  obtain ⟨low,high⟩ := fits.inside c.isLt shown.1 n
  obtain ⟨low',high'⟩ := fits.inside c'.isLt shown'.1 n'
  have place := congrArg BitVec.toNat same
  unfold PixelTiles.tileAt screenFrames at place
  have before (one two : Nat) (less : one < two) : (one+1)*(info.yres*info.xres*4) ≤ two*(info.yres*info.xres*4) := Nat.mul_le_mul_right _ less
  apply Fin.ext
  rcases Nat.lt_trichotomy c.val c'.val with less | equal | more
  · have order := before _ _ less
    omega
  · exact equal
  · have order := before _ _ more
    omega

instance (w : Frames (Fin 2) Nat Nat (Fin 2)) (k : Fin 2) : Decidable (w.allowed (.run k)) :=
  inferInstanceAs (Decidable (∀ c ∈ (w.cache_ea k).head?, RoomySplits (w.pipelines c).system k))

instance : (spu : Spu Nat) → Decidable (spu = .idle)
  | .idle => .isTrue rfl
  | .claiming _ => .isFalse nofun
  | .scanning _ => .isFalse nofun
  | .splitting _ _ _ => .isFalse nofun
  | .storing _ _ _ _ => .isFalse nofun
  | .rendering _ _ _ => .isFalse nofun
  | .finishing _ => .isFalse nofun
  | .releasing _ _ => .isFalse nofun

instance (w : Frames (Fin 2) Nat Nat (Fin 2)) (k : Fin 2) : Decidable (w.allowed (.trynextcacheline k)) :=
  inferInstanceAs (Decidable (∀ c ∈ (w.cache_ea k).head?, (w.pipelines c).system.spus k = .idle))

abbrev FramesReached : Frames (Fin 2) Nat Nat (Fin 2) → Prop :=
  Frames.Reached (screenFrames smallInfo smallGiven) [1,0] fun _ => 0

-- A triangle in each frame. The first SPU takes the second frame, and the other one goes on to the first and writes it back
-- while the first SPU is at work.
def framesWritten : Frames (Fin 2) Nat Nat (Fin 2) :=
  [.produce 1 .getTriangleBuffer,.produce 1 (.write (shadedTriangle 5)),.produce 1 .publish,
    .produce 0 .getTriangleBuffer,.produce 0 (.write (shadedTriangle 9)),.produce 0 .publish].foldl
    (Frames.act (screenFrames smallInfo smallGiven) [1,0]) (.start (fun _ => ⟨fun _ => false,0⟩) (fun _ _ => shadedTriangle 0)
      (fun _ => ⟨shadedTriangle 0,emptyBuffers,false,0,[]⟩) fun _ => 0)

def framesClaimed : Frames (Fin 2) Nat Nat (Fin 2) := (fun w => w.run (screenFrames smallInfo smallGiven) [1,0] 0)^[8] framesWritten

def framesNext : Frames (Fin 2) Nat Nat (Fin 2) :=
  [.run 1,.trynextcacheline 1].foldl (Frames.act (screenFrames smallInfo smallGiven) [1,0]) framesClaimed

def framesOther : Frames (Fin 2) Nat Nat (Fin 2) := (fun w => w.run (screenFrames smallInfo smallGiven) [1,0] 1)^[10] framesNext

def framesSmall : Frames (Fin 2) Nat Nat (Fin 2) := (fun w => w.run (screenFrames smallInfo smallGiven) [1,0] 0)^[2] framesOther

theorem framesSmall_reached : FramesReached framesSmall := by
  have written : FramesReached framesWritten :=
    Runs.Reached.follow (.start ⟨_,_,_,rfl⟩) ⟨⟨rfl,rfl⟩,⟨rfl,wide_drawable⟩,⟨rfl,trivial⟩,⟨rfl,rfl⟩,⟨rfl,wide_drawable⟩,⟨rfl,trivial⟩,trivial⟩
  have claimed : FramesReached framesClaimed :=
    Runs.Reached.iterate (a := FramesAction.run 0) written 8 (by decide +kernel)
  have next : FramesReached framesNext :=
    Runs.Reached.follow claimed ⟨by decide +kernel,by decide +kernel,trivial⟩
  have other : FramesReached framesOther :=
    Runs.Reached.iterate (a := FramesAction.run 1) next 10 (by decide +kernel)
  exact Runs.Reached.iterate (a := FramesAction.run 0) other 2 (by decide +kernel)

theorem frames_painted_small : (∀ c, (framesSmall.published c).map ShadedTriangle.shader_params = [if c = 1 then 5 else 9]) ∧
    (∀ k, 0 < (framesSmall.painters k).buffers.writes.length) ∧
    (∀ c, ∃ p, p ≤ (framesSmall.published c).length ∧ fetch framesSmall.memory ((screenFrames smallInfo smallGiven c).tileAt 0) =
      ((framesSmall.published c).take p).foldl (fun pixels t => t.paint 0 pixels)
        (fetch (fun _ => 0) ((screenFrames smallInfo smallGiven c).tileAt 0))) := by
  obtain ⟨shows,_,_,_⟩ := frames_painted smallScreen_fits.separate framesSmall_reached
  refine ⟨by decide +kernel,by decide +kernel,fun c => shows c 0 ?_⟩
  fin_cases c
  · exact ⟨⟨by decide,by decide⟩,by decide⟩
  · exact ⟨⟨by decide,by decide⟩,by decide⟩

end Spugl
