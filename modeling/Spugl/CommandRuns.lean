import Spugl.FixedSizes
import Spugl.QueueIsolation

namespace Spugl

-- A command as some queue meets it: the slot of its Context, and what the cache line
-- shows of the render SPUs' progress.
structure Met (κ : Type) where
  slot : κ
  room : Bool
  request : Request

-- What the handlers of all queues work on.
structure Handlers (F κ : Type) where
  globals : Globals F κ
  contexts : κ → Context F

-- An access to one of the two tables, by its index.
inductive TableRead where
  | shuffle_map (state : Int)
  | shuffles (pattern : Nat)

def TableRead.Inside : TableRead → Prop
  | .shuffle_map state => 0 ≤ state ∧ state < shuffle_table.length
  | .shuffles pattern => pattern < Spugl.shuffles.length

section
variable {F κ : Type} (spu : PrimarySpu F)

-- imp_vertex reads the insert column before it looks for a renderable.
def vertexReads [DecidableEq κ] (g : Globals F κ) (slot : κ) (context : Context F) (room : Bool) : List TableRead :=
  let entry := shuffle_map spu g.current_state
  .shuffle_map g.current_state ::
    if context.renderableCacheLine = 0 then [] else
    match (getTriangleBuffer g slot context room).2 with
    | none => []
    | some _ => [.shuffles entry.insert,.shuffle_map g.current_state] ++
      if entry.add = ADD_TRIANGLE2 then
        [.shuffle_map g.current_state,.shuffle_map entry.next,.shuffles (shuffle_map spu entry.next).insert,.shuffle_map entry.next]
      else [.shuffle_map g.current_state]

def closeReads (state : Int) : List TableRead :=
  let closing := (shuffle_map spu state).end_
  .shuffle_map state :: if closing = 0 then [] else [.shuffles closing,.shuffle_map state]

variable [DecidableEq κ]

-- The accesses of imp_vertex and imp_close_segment in one call of a handler.
def tableReads (g : Globals F κ) (slot : κ) (context : Context F) (room : Bool) : Request → List TableRead
  | .vertex _ _ _ _ => vertexReads spu g slot context room
  | .glEnd => if g.current_state < 0 then [] else closeReads spu g.current_state
  | _ => []

-- The cache lines a handler reads with GETLLAR.
def lockLineReads (g : Globals F κ) (slot : κ) (context : Context F) : Request → List Nat
  | .vertex _ _ _ _ => if context.renderableCacheLine = 0 || (g.kept slot).isSome then [] else [context.renderableCacheLine]
  | .clearScreen _ _ _ _ => if context.renderableCacheLine = 0 || (g.kept slot).isSome then [] else [context.renderableCacheLine]
  | .glSync => [context.renderableCacheLine]
  | _ => []

namespace Handlers

def start : Handlers F κ := ⟨.start spu,fun _ => .clear spu⟩

def handled (s : Handlers F κ) (m : Met κ) : Handled F κ := execute spu s.globals m.slot (s.contexts m.slot) m.room m.request

def step (s : Handlers F κ) (m : Met κ) : Handlers F κ :=
  ⟨(s.handled spu m).globals,Function.update s.contexts m.slot (s.handled spu m).context⟩

def reads (s : Handlers F κ) (m : Met κ) : List TableRead := tableReads spu s.globals m.slot (s.contexts m.slot) m.room m.request

end Handlers

-- A property of every command of a run, with the state it meets.
def Throughout (P : Handlers F κ → Met κ → Prop) : Handlers F κ → List (Met κ) → Prop
  | _,[] => True
  | s,m :: rest => P s m ∧ Throughout P (s.step spu m) rest

end

section
variable {F κ : Type} {spu : PrimarySpu F} [DecidableEq κ] {s : Handlers F κ} {m : Met κ}

theorem Throughout.congr {P Q : Handlers F κ → Met κ → Prop} (same : ∀ s m, P s m ↔ Q s m) (s : Handlers F κ) (commands : List (Met κ)) :
    Throughout spu P s commands ↔ Throughout spu Q s commands := by
  induction commands generalizing s with
  | nil => exact Iff.rfl
  | cons m rest ih => exact and_congr (same s m) (ih _)

-- Under an invariant that the commands of a run keep, as long as they are as P says.
theorem Throughout.under {P Q : Handlers F κ → Met κ → Prop} (Valid : Handlers F κ → Prop)
    (one : ∀ s m, Valid s → P s m → Q s m ∧ Valid (s.step spu m)) (s : Handlers F κ) (commands : List (Met κ)) (valid : Valid s)
    (holds : Throughout spu P s commands) : Throughout spu Q s commands := by
  induction commands generalizing s with
  | nil => trivial
  | cons m rest ih =>
    obtain ⟨kept,next⟩ := one s m valid holds.1
    exact ⟨kept,ih _ next holds.2⟩

theorem Throughout.imp {P Q : Handlers F κ → Met κ → Prop} (one : ∀ s m, P s m → Q s m) (s : Handlers F κ) (commands : List (Met κ))
    (holds : Throughout spu P s commands) : Throughout spu Q s commands :=
  Throughout.under (fun _ => True) (fun s m _ p => ⟨one s m p,trivial⟩) s commands trivial holds

def ReadsInside (spu : PrimarySpu F) (s : Handlers F κ) (m : Met κ) : Prop := ∀ read ∈ s.reads spu m, read.Inside

-- The vertices of a primitive, and no others.
def BetweenBeginAndEnd (s : Handlers F κ) (m : Met κ) : Prop :=
  ∀ x y z w, m.request = .vertex x y z w → 0 ≤ s.globals.current_state

-- Each row of shuffle_map leads to a row of shuffle_map and to patterns of shuffles.
theorem shuffle_table_closed : ∀ i : Fin 32, ∃ entry, shuffle_table[i.val]? = some entry ∧ entry.next < 32 ∧ entry.insert < 12 ∧
    entry.end_ < 12 := by decide

theorem shuffle_map_row (spu : PrimarySpu F) {state : Int} (low : 0 ≤ state) (high : state < 32) : (shuffle_map spu state).next < 32 ∧
    (shuffle_map spu state).insert < 12 ∧ (shuffle_map spu state).end_ < 12 := by
  obtain ⟨entry,at_,closed⟩ := shuffle_table_closed ⟨state.toNat,by omega⟩
  have found : shuffle_map spu state = entry := by
    unfold shuffle_map
    rw [if_pos low]
    simp only at at_
    rw [at_]
  rw [found]
  exact closed

def StateInside (s : Handlers F κ) : Prop := s.globals.current_state = -1 ∨ (0 ≤ s.globals.current_state ∧ s.globals.current_state < 32)

theorem row_inside {state : Int} (low : 0 ≤ state) (high : state < 32) : (TableRead.shuffle_map state).Inside := ⟨low,high⟩

theorem next_inside {state : Int} (low : 0 ≤ state) (high : state < 32) :
    (TableRead.shuffle_map (shuffle_map spu state).next).Inside := by
  have next := (shuffle_map_row spu low high).1
  exact row_inside (by omega) (by omega)

theorem vertexReads_inside {g : Globals F κ} {slot : κ} {context : Context F} {room : Bool} (low : 0 ≤ g.current_state)
    (high : g.current_state < 32) : ∀ read ∈ vertexReads spu g slot context room, read.Inside := by
  obtain ⟨next,insert,_⟩ := shuffle_map_row spu low high
  have row := row_inside low high
  have onward : (TableRead.shuffle_map (shuffle_map spu g.current_state).next).Inside := next_inside low high
  have fake := (shuffle_map_row spu (Int.natCast_nonneg (shuffle_map spu g.current_state).next) (by omega)).2.1
  intro read member
  simp only [vertexReads,List.mem_cons] at member
  rcases member with rfl | member
  · exact row
  · split at member
    · cases member
    · split at member
      · cases member
      · rcases List.mem_append.mp member with member | member
        · simp only [List.mem_cons,List.not_mem_nil,or_false] at member
          rcases member with rfl | rfl
          · exact insert
          · exact row
        · split at member
          · simp only [List.mem_cons,List.not_mem_nil,or_false] at member
            rcases member with rfl | rfl | rfl | rfl
            · exact row
            · exact onward
            · exact fake
            · exact onward
          · simp only [List.mem_cons,List.not_mem_nil,or_false] at member
            subst member
            exact row

theorem closeReads_inside {state : Int} (low : 0 ≤ state) (high : state < 32) : ∀ read ∈ closeReads spu state, read.Inside := by
  have row := row_inside low high
  intro read member
  simp only [closeReads,List.mem_cons] at member
  rcases member with rfl | member
  · exact row
  · split at member
    · cases member
    · simp only [List.mem_cons,List.not_mem_nil,or_false] at member
      rcases member with rfl | rfl
      · exact (shuffle_map_row spu low high).2.2
      · exact row

theorem reads_inside (valid : StateInside s) (between : BetweenBeginAndEnd s m) : ReadsInside spu s m := by
  unfold ReadsInside Handlers.reads
  cases request : m.request with
  | vertex x y z w =>
    have low := between x y z w request
    rcases valid with outside | ⟨_,high⟩
    · omega
    · exact vertexReads_inside low high
  | glEnd =>
    intro read member
    simp only [tableReads] at member
    split at member
    · cases member
    · rename_i open_
      rcases valid with outside | ⟨low,high⟩
      · omega
      · exact closeReads_inside low high read member
  | _ => intro read member; cases member

-- current_state after a vertex is again a row.
theorem vertex_state (low : 0 ≤ s.globals.current_state) (high : s.globals.current_state < 32) (slot : κ) (context : Context F) (room : Bool)
    (v : Float4 F) : 0 ≤ (imp_vertex spu s.globals slot context room v).globals.current_state ∧
      (imp_vertex spu s.globals slot context room v).globals.current_state < 32 := by
  have next := (shuffle_map_row spu low high).1
  have fake := (shuffle_map_row spu (Int.natCast_nonneg (shuffle_map spu s.globals.current_state).next) (by omega)).1
  unfold imp_vertex
  split
  · exact ⟨low,high⟩
  · split
    · rename_i g refused
      have same : g.current_state = s.globals.current_state := by
        unfold getTriangleBuffer at refused
        split at refused
        · cases refused
        · split at refused
          · cases refused; rfl
          · cases refused
      exact same ▸ ⟨low,high⟩
    · rename_i g target taken
      have same : g = {s.globals with currentTriangle := some (slot,target)} := (buffer_taken taken).1
      have state : 0 ≤ (g.insert spu context v).state ∧ (g.insert spu context v).state < 32 := by
        rw [same]
        simp only [Globals.insert,insertVertex]
        split
        · exact ⟨by simp only; omega,by simp only; omega⟩
        · exact ⟨by simp only; omega,by simp only; omega⟩
      dsimp only
      split
      · unfold writeTriangleBuffer
        split <;> exact state
      · exact state

theorem step_state (valid : StateInside s) (between : BetweenBeginAndEnd s m) : StateInside (s.step spu m) := by
  unfold StateInside Handlers.step Handlers.handled
  cases request : m.request with
  | vertex x y z w =>
    have low := between x y z w request
    rcases valid with outside | ⟨_,high⟩
    · omega
    · exact .inr (vertex_state low high _ _ _ _)
  | glBegin state =>
    simp only [execute]
    split
    · rename_i accepted
      simp only [imp_validate_state,Bool.and_eq_true,decide_eq_true_eq] at accepted
      exact .inr ⟨by simp only; omega,by simp only; omega⟩
    · exact valid
  | glEnd => exact .inl rfl
  | clearScreen x y z w =>
    have kept : (imp_clear_screen spu s.globals m.slot (s.contexts m.slot) m.room (floats spu x y z w)).globals.current_state =
        s.globals.current_state := by
      unfold imp_clear_screen getTriangleBuffer
      split
      · rename_i g refused
        split at refused
        · cases refused
        · split at refused
          · cases refused; rfl
          · cases refused
      · rename_i g target taken
        have same : g.current_state = s.globals.current_state := by
          split at taken
          · cases taken; rfl
          · split at taken
            · cases taken
            · cases taken; rfl
        unfold writeTriangleBuffer
        split <;> exact same
    simp only [execute,kept]
    exact valid
  | loadMatrix command entries =>
    simp only [execute]
    split
    · exact valid
    · split <;> exact valid
  | vertexAttrib which x y z w =>
    simp only [execute]
    split <;> exact valid
  | _ => exact valid

-- A vertex outside of glBegin and glEnd reads the row in front of the table.
theorem reads_between (inside : ReadsInside spu s m) : BetweenBeginAndEnd s m := by
  intro x y z w request
  have member : TableRead.shuffle_map s.globals.current_state ∈ s.reads spu m := by
    unfold Handlers.reads
    rw [request]
    exact List.mem_cons_self
  exact (inside _ member).1

-- Every run of commands, of any queues and with any stalls.
theorem table_reads_inside (spu : PrimarySpu F) (commands : List (Met κ)) :
    Throughout spu (ReadsInside spu) (.start spu) commands ↔ Throughout spu BetweenBeginAndEnd (.start spu) commands := by
  constructor
  · exact Throughout.imp (fun _ _ => reads_between) _ commands
  · apply Throughout.under StateInside
    · intro s m valid between
      exact ⟨reads_inside valid between,step_state valid between⟩
    · exact .inl rfl

end

-- The first command is a vertex.
theorem table_read_outside :
    ¬Throughout integers (ReadsInside integers) (.start integers) [(⟨(),true,.vertex 0 0 0 0⟩ : Met Unit)] := by
  intro inside
  have low : (0 : Int) ≤ -1 := reads_between inside.1 0 0 0 0 rfl
  omega

section
variable {F κ : Type} {spu : PrimarySpu F} [DecidableEq κ] {s : Handlers F κ} {m : Met κ}

-- What a command without a renderable may do: return 0, read no cache line at address
-- 0, and write no triangle.
structure Harmless (spu : PrimarySpu F) (s : Handlers F κ) (m : Met κ) : Prop where
  done : (s.handled spu m).stalled = false
  reads : 0 ∉ lockLineReads s.globals m.slot (s.contexts m.slot) m.request
  quiet : (s.handled spu m).drawn = none

def HarmlessWithout (spu : PrimarySpu F) (s : Handlers F κ) (m : Met κ) : Prop :=
  (s.contexts m.slot).renderableCacheLine = 0 → Harmless spu s m

-- The triangle of a clear-screen command.
def clearTriangle (spu : PrimarySpu F) (context : Context F) (x y z w : Nat) : Option Triangle :=
  (clearCorners spu context.width context.height (floats spu x y z w)).triangle spu

-- No sync, and no clear unless it finds the buffer of an earlier renderable and its
-- triangle is invisible.
def Avoids (spu : PrimarySpu F) (s : Handlers F κ) (m : Met κ) : Prop :=
  (s.contexts m.slot).renderableCacheLine = 0 → m.request ≠ .glSync ∧ ∀ x y z w, m.request = .clearScreen x y z w →
    (s.globals.kept m.slot).isSome ∧ clearTriangle spu (s.contexts m.slot) x y z w = none

theorem clear_pending {g : Globals F κ} {slot : κ} {context : Context F} {room : Bool} {col : Float4 F} {target : Nat}
    (kept : g.kept slot = some target) :
    imp_clear_screen spu g slot context room col = writeTriangleBuffer spu
      {g with currentTriangle := some (slot,target),corners := clearCorners spu context.width context.height col} context target 0 1 := by
  unfold imp_clear_screen
  rw [buffer_holding kept]

theorem clear_stuck {g : Globals F κ} {slot : κ} {context : Context F} {room : Bool} {col : Float4 F} (kept : g.kept slot = none)
    (missing : context.renderableCacheLine = 0) :
    imp_clear_screen spu g slot context room col = ⟨true,{g with currentTriangle := none},context,none⟩ := by
  unfold imp_clear_screen getTriangleBuffer
  rw [kept]
  simp [missing]

theorem harmless_exact (s : Handlers F κ) (m : Met κ) : HarmlessWithout spu s m ↔ Avoids spu s m := by
  apply imp_congr_right
  intro missing
  constructor
  · intro harmless
    refine ⟨?_,?_⟩
    · intro sync
      have reads := harmless.reads
      rw [sync] at reads
      exact reads (by simp [lockLineReads,missing])
    · intro x y z w clear
      have done := harmless.done
      have quiet := harmless.quiet
      unfold Handlers.handled at done quiet
      rw [clear] at done quiet
      simp only [execute] at done quiet
      cases kept : s.globals.kept m.slot with
      | none =>
        rw [clear_stuck kept missing] at done
        cases done
      | some target =>
        refine ⟨rfl,?_⟩
        rw [clear_pending kept] at quiet
        unfold writeTriangleBuffer at quiet
        split at quiet
        · cases quiet
        · assumption
  · rintro ⟨noSync,noClear⟩
    cases request : m.request with
    | vertex x y z w =>
      have same : s.handled spu m = ⟨false,s.globals,s.contexts m.slot,none⟩ := by
        unfold Handlers.handled
        rw [request]
        simp [execute,imp_vertex,missing]
      refine ⟨by rw [same],?_,by rw [same]⟩
      rw [request]
      simp [lockLineReads,missing]
    | clearScreen x y z w =>
      obtain ⟨pending,invisible⟩ := noClear x y z w request
      obtain ⟨target,kept⟩ := Option.isSome_iff_exists.mp pending
      have same : s.handled spu m =
          imp_clear_screen spu s.globals m.slot (s.contexts m.slot) m.room (floats spu x y z w) := by
        unfold Handlers.handled
        rw [request]
        rfl
      rw [clear_pending kept] at same
      have unwritten : (s.handled spu m).stalled = false ∧ (s.handled spu m).drawn = none := by
        rw [same]
        unfold writeTriangleBuffer
        unfold clearTriangle at invisible
        simp [invisible]
      refine ⟨unwritten.1,?_,unwritten.2⟩
      rw [request]
      simp [lockLineReads,missing]
    | glSync => exact absurd request noSync
    | loadMatrix command entries =>
      have same : (s.handled spu m).stalled = false ∧ (s.handled spu m).drawn = none := by
        unfold Handlers.handled
        rw [request]
        simp only [execute]
        split
        · exact ⟨rfl,rfl⟩
        · split <;> exact ⟨rfl,rfl⟩
      exact ⟨same.1,by rw [request]; exact List.not_mem_nil,same.2⟩
    | vertexAttrib which x y z w =>
      have same : (s.handled spu m).stalled = false ∧ (s.handled spu m).drawn = none := by
        unfold Handlers.handled
        rw [request]
        simp only [execute]
        split <;> exact ⟨rfl,rfl⟩
      exact ⟨same.1,by rw [request]; exact List.not_mem_nil,same.2⟩
    | _ =>
      refine ⟨?_,by rw [request]; exact List.not_mem_nil,?_⟩ <;> unfold Handlers.handled <;> rw [request] <;> rfl

-- Every run, from any state of the handlers.
theorem drawing_without_renderable (spu : PrimarySpu F) (s : Handlers F κ) (commands : List (Met κ)) :
    Throughout spu (HarmlessWithout spu) s commands ↔ Throughout spu (Avoids spu) s commands :=
  Throughout.congr harmless_exact s commands

end

-- A clear before any DRAW_CONTEXT is tried for ever, and a sync reads address 0.
theorem clear_without_renderable :
    ¬Throughout integers (HarmlessWithout integers) (.start integers) [(⟨(),true,.clearScreen 0 0 0 0⟩ : Met Unit)] ∧
      ¬Throughout integers (HarmlessWithout integers) (.start integers) [(⟨(),true,.glSync⟩ : Met Unit)] := by
  refine ⟨?_,?_⟩
  · rintro ⟨harmless,_⟩
    have pending := ((harmless_exact _ _).mp harmless rfl).2 0 0 0 0 rfl
    cases pending.1
  · rintro ⟨harmless,_⟩
    exact ((harmless_exact _ _).mp harmless rfl).1 rfl

end Spugl
