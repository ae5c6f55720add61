import Spugl.FixedSizes
import Spugl.VertexLabels
import Spugl.QueueIsolation

namespace Spugl
open Retries

inductive Mode where
  | triangles
  | strip
  | fan
  deriving DecidableEq

-- GL_TRIANGLES, GL_TRIANGLE_STRIP, GL_TRIANGLE_FAN
def Mode.number : Mode → Nat
  | .triangles => 4
  | .strip => 5
  | .fan => 6

abbrev Triple (α : Type) := α × α × α

def Triple.map (f : α → β) (t : Triple α) : Triple β := (f t.1,f t.2.1,f t.2.2)

-- The decomposition of n vertices.
def Mode.expected : Mode → Nat → List (Triple Nat)
  | .triangles,n => (List.range (n/3)).map fun k => (3*k,3*k+1,3*k+2)
  | .strip,n => (List.range (n-2)).map fun i => if i % 2 = 0 then (i,i+1,i+2) else (i+1,i,i+2)
  | .fan,n => (List.range (n-2)).map fun i => (0,i+1,i+2)

-- And what shuffle_map makes of them. The second vertex of a strip is taken for the
-- third of a triangle, and separate triangles follow.
def Mode.assembled : Mode → Nat → List (Triple Nat)
  | .strip,n => if n < 2 then [] else (0,0,1) :: (List.range ((n-2)/3)).map fun k => (3*k+2,3*k+3,3*k+4)
  | mode,n => mode.expected n

def Distinct [DecidableEq α] (t : Triple α) : Bool := decide (t.1 ≠ t.2.1) && decide (t.2.1 ≠ t.2.2) && decide (t.1 ≠ t.2.2)

def Rotated (t u : Triple α) : Prop := u = t ∨ u = (t.2.1,t.2.2,t.1) ∨ u = (t.2.2,t.1,t.2.1)

-- A request that may come between two vertices.
def Request.between : Request → Bool
  | .vertex _ _ _ _ | .clearScreen _ _ _ _ | .glBegin _ | .glEnd | .drawContext _ | .jump _ => false
  | _ => true

def Request.isVertex : Request → Bool
  | .vertex _ _ _ _ => true
  | _ => false

-- glBegin, vertices with anything between them, and glEnd.
structure Group where
  mode : Mode
  body : List Request
  only : ∀ request ∈ body, request.isVertex = true ∨ request.between = true

def Group.requests (g : Group) : List Request := .glBegin g.mode.number :: g.body ++ [.glEnd]

def Group.vertices (g : Group) : Nat := g.body.countP Request.isVertex

-- The triples of some groups, counted from k.
def labelled (list : Group → List (Triple Nat)) : Nat → List Group → List (Triple (Nat × Nat))
  | _,[] => []
  | k,g :: groups => (list g).map (Triple.map (k,·)) ++ labelled list (k+1) groups

def expectedTriples (groups : List Group) : List (Triple (Nat × Nat)) := labelled (fun g => g.mode.expected g.vertices) 1 groups

def assembledTriples (groups : List Group) : List (Triple (Nat × Nat)) := labelled (fun g => g.mode.assembled g.vertices) 1 groups

def label : Option (Tagged F) → Nat × Nat
  | some t => (t.group,t.index)
  | none => (0,0)

def TriangleCall.triple (call : TriangleCall F) : Triple (Nat × Nat) :=
  (label (call.lanes 0),label (call.lanes 1),label (call.lanes 2))

-- The first three lanes are those of vertices.
def TriangleCall.Carried (call : TriangleCall F) : Prop :=
  ∀ k : Fin 4, k ≠ 3 → ∃ t, call.lanes k = some t ∧ t.At call.corners call.texels k

def Names (lanes : HeldBy F) (g : Nat) (k : Fin 4) (i : Nat) : Prop := ∃ t, lanes k = some t ∧ t.group = g ∧ t.index = i

-- The state and the lanes behind so many vertices of a group.
inductive Progress (lanes : HeldBy F) (g : Nat) : Mode → Nat → Int → Prop where
  | triangles0 (k : Nat) : Progress lanes g .triangles (3*k) 4
  | triangles1 (k : Nat) : Names lanes g 1 (3*k) → Names lanes g 2 (3*k) → Progress lanes g .triangles (3*k+1) 13
  | triangles2 (k : Nat) : Names lanes g 1 (3*k) → Names lanes g 2 (3*k+1) → Progress lanes g .triangles (3*k+2) 14
  | strip0 : Progress lanes g .strip 0 5
  | strip1 : Names lanes g 1 0 → Names lanes g 2 0 → Progress lanes g .strip 1 14
  | strip2 (k : Nat) : Progress lanes g .strip (3*k+2) 4
  | strip3 (k : Nat) : Names lanes g 1 (3*k+2) → Names lanes g 2 (3*k+2) → Progress lanes g .strip (3*k+3) 13
  | strip4 (k : Nat) : Names lanes g 1 (3*k+2) → Names lanes g 2 (3*k+3) → Progress lanes g .strip (3*k+4) 14
  | fan0 : Progress lanes g .fan 0 6
  | fan1 : Names lanes g 1 0 → Names lanes g 2 0 → Progress lanes g .fan 1 18
  | fan2 : Names lanes g 1 0 → Names lanes g 2 1 → Progress lanes g .fan 2 19
  | fan3 (k : Nat) : Names lanes g 0 0 → Names lanes g 2 (k+2) → Progress lanes g .fan (k+3) 20

section
variable {F κ : Type} {spu : PrimarySpu F} [DecidableEq κ] {slot : κ} {lanes : HeldBy F} {mode : Mode} {state : Int}
  {t : Tagged F} {next pattern close x y z w : Nat} {room : Bool} {request : Request} {prior : List (Triple (Nat × Nat))}

def tripleOf (lanes : HeldBy F) : Triple (Nat × Nat) := (label (lanes 0),label (lanes 1),label (lanes 2))

theorem label_names (names : Names lanes g k i) : label (lanes k) = (g,i) := by
  obtain ⟨t,at_,rfl,rfl⟩ := names
  rw [at_]
  rfl

theorem tripleOf_names (first : Names lanes g 0 i) (second : Names lanes g 1 j) (third : Names lanes g 2 k) :
    tripleOf lanes = Triple.map (g,·) (i,j,k) := by
  unfold tripleOf
  rw [label_names first,label_names second,label_names third]
  rfl

-- What patterns 3 and 5 keep.
theorem add_first (names : Names lanes g 1 i) (t : Tagged F) : Names (shuffleLanes 3 lanes t) g 0 i := names

theorem add_second (names : Names lanes g 2 i) (t : Tagged F) : Names (shuffleLanes 3 lanes t) g 1 i := names

theorem fan_first (names : Names lanes g 0 i) (t : Tagged F) : Names (shuffleLanes 5 lanes t) g 0 i := names

theorem fan_second (names : Names lanes g 2 i) (t : Tagged F) : Names (shuffleLanes 5 lanes t) g 1 i := names

theorem fill_names (t : Tagged F) (k : Fin 4) : Names (shuffleLanes 0 lanes t) t.group k t.index := by
  fin_cases k <;> exact ⟨t,rfl,rfl,rfl⟩

-- One vertex of shuffle_map's way through a group: the next state, and the triple that
-- comes out, if one does.
structure Advances (spu : PrimarySpu F) (lanes : HeldBy F) (mode : Mode) (n : Nat) (state : Int) (t : Tagged F) : Prop where
  single : (shuffle_map spu state).add ≠ ADD_TRIANGLE2
  progress : Progress (insertLanes spu state lanes t) t.group mode (n+1) (shuffle_map spu state).next
  out : (shuffle_map spu state).add = ADD_TRIANGLE → ∃ i j k, mode.assembled (n+1) = mode.assembled n ++ [(i,j,k)] ∧
    Names (insertLanes spu state lanes t) t.group 0 i ∧ Names (insertLanes spu state lanes t) t.group 1 j ∧
      Names (insertLanes spu state lanes t) t.group 2 k
  quiet : (shuffle_map spu state).add ≠ ADD_TRIANGLE → mode.assembled (n+1) = mode.assembled n

theorem triangles_quiet (k : Nat) (less : r < 3) : Mode.assembled .triangles (3*k+r) = Mode.assembled .triangles (3*k) := by
  simp only [Mode.assembled,Mode.expected]
  rw [show (3*k+r)/3 = 3*k/3 by omega]

theorem triangles_out (k : Nat) : Mode.assembled .triangles (3*k+3) = Mode.assembled .triangles (3*k) ++ [(3*k,3*k+1,3*k+2)] := by
  simp only [Mode.assembled,Mode.expected]
  rw [show (3*k+3)/3 = k+1 by omega,show 3*k/3 = k by omega,List.range_succ,List.map_append]
  rfl

theorem strip_quiet (k : Nat) (less : r < 3) : Mode.assembled .strip (3*k+2+r) = Mode.assembled .strip (3*k+2) := by
  simp only [Mode.assembled]
  rw [if_neg (by omega),if_neg (by omega),show (3*k+2+r-2)/3 = (3*k+2-2)/3 by omega]

theorem strip_out (k : Nat) : Mode.assembled .strip (3*k+5) = Mode.assembled .strip (3*k+2) ++ [(3*k+2,3*k+3,3*k+4)] := by
  simp only [Mode.assembled]
  rw [if_neg (by omega),if_neg (by omega),show (3*k+5-2)/3 = k+1 by omega,show (3*k+2-2)/3 = k by omega,List.range_succ,
    List.map_append]
  rfl

theorem fan_out (k : Nat) : Mode.assembled .fan (k+3) = Mode.assembled .fan (k+2) ++ [(0,k+1,k+2)] := by
  simp only [Mode.assembled,Mode.expected]
  rw [show k+3-2 = k+1 by omega,show k+2-2 = k by omega,List.range_succ,List.map_append]
  rfl

theorem insert_single {entry : ShuffleEntry} (found : shuffle_map spu state = entry) (single : entry.add ≠ ADD_TRIANGLE2) :
    insertLanes spu state lanes t = shuffleLanes entry.insert lanes t := by
  unfold insertLanes
  rw [found]
  exact if_neg single

theorem quiet_advances (found : shuffle_map spu state = ⟨next,pattern,close,0⟩)
    (progress : Progress (shuffleLanes pattern lanes t) t.group mode (n+1) next)
    (same : mode.assembled (n+1) = mode.assembled n) : Advances spu lanes mode n state t := by
  have inserted : insertLanes spu state lanes t = shuffleLanes pattern lanes t := insert_single found (by simp)
  refine ⟨?_,?_,?_,fun _ => same⟩
  · rw [found]
    simp
  · rw [inserted,found]
    exact progress
  · intro out
    rw [found] at out
    simp at out

theorem out_advances {i j k : Nat} (found : shuffle_map spu state = ⟨next,pattern,close,ADD_TRIANGLE⟩)
    (progress : Progress (shuffleLanes pattern lanes t) t.group mode (n+1) next)
    (more : mode.assembled (n+1) = mode.assembled n ++ [(i,j,k)])
    (first : Names (shuffleLanes pattern lanes t) t.group 0 i) (second : Names (shuffleLanes pattern lanes t) t.group 1 j)
    (third : Names (shuffleLanes pattern lanes t) t.group 2 k) : Advances spu lanes mode n state t := by
  have inserted : insertLanes spu state lanes t = shuffleLanes pattern lanes t := insert_single found (by simp)
  refine ⟨?_,?_,fun _ => ⟨i,j,k,more,?_,?_,?_⟩,?_⟩
  · rw [found]
    simp
  · rw [inserted,found]
    exact progress
  · rw [inserted]
    exact first
  · rw [inserted]
    exact second
  · rw [inserted]
    exact third
  · intro quiet
    rw [found] at quiet
    exact absurd rfl quiet

-- One case for each row of the table that a group can be at.
theorem Progress.advances (progress : Progress lanes t.group mode t.index state) : Advances spu lanes mode t.index state t := by
  have new (pattern : Nat) (last : ∀ lanes : HeldBy F, shuffleLanes pattern lanes t 2 = some t) :
      Names (shuffleLanes pattern lanes t) t.group 2 t.index := ⟨t,last lanes,rfl,rfl⟩
  have added := new 3 fun _ => rfl
  have fanned := new 5 fun _ => rfl
  generalize count : t.index = n at progress added fanned
  have filled (k : Fin 4) : Names (shuffleLanes 0 lanes t) t.group k n := count ▸ fill_names t k
  cases progress with
  | triangles0 k => exact quiet_advances rfl (.triangles1 k (filled 1) (filled 2)) (triangles_quiet k (by decide))
  | triangles1 k one two =>
    have same := (triangles_quiet k (r := 2) (by decide)).trans (triangles_quiet k (r := 1) (by decide)).symm
    exact quiet_advances rfl (.triangles2 k (add_second two t) added) same
  | triangles2 k one two =>
    have more := (triangles_out k).trans (congrArg (· ++ _) (triangles_quiet k (r := 2) (by decide)).symm)
    exact out_advances rfl (.triangles0 (k+1)) more (add_first one t) (add_second two t) added
  | strip0 => exact quiet_advances rfl (.strip1 (filled 1) (filled 2)) rfl
  | strip1 one two => exact out_advances rfl (.strip2 0) rfl (add_first one t) (add_second two t) added
  | strip2 k => exact quiet_advances rfl (.strip3 k (filled 1) (filled 2)) (strip_quiet k (r := 1) (by decide))
  | strip3 k one two =>
    have same := (strip_quiet k (r := 2) (by decide)).trans (strip_quiet k (r := 1) (by decide)).symm
    exact quiet_advances rfl (.strip4 k (add_second two t) added) same
  | strip4 k one two =>
    have more := (strip_out k).trans (congrArg (· ++ _) (strip_quiet k (r := 2) (by decide)).symm)
    exact out_advances rfl (.strip2 (k+1)) more (add_first one t) (add_second two t) added
  | fan0 => exact quiet_advances rfl (.fan1 (filled 1) (filled 2)) rfl
  | fan1 one two => exact quiet_advances rfl (.fan2 (add_second two t) added) rfl
  | fan2 one two => exact out_advances rfl (.fan3 0 (add_first one t) added) rfl (add_first one t) (add_second two t) added
  | fan3 k zero two =>
    exact out_advances rfl (.fan3 (k+1) (fan_first zero t) fanned) (fan_out (k+1)) (fan_first zero t) (fan_second two t) fanned

namespace Assembly

omit [DecidableEq κ] in
theorem finish_dropped (s : Assembly F κ) (request : Request) (globals : Globals F κ) (context : Context F) :
    finish spu {s with globals := {s.globals with currentTriangle := none}} request globals context =
      s.finish spu request globals context := by
  cases request <;> rfl

theorem serve_stall {s : Assembly F κ} (stalled : (s.serve spu slot room request).1 = true) :
    (s.serve spu slot room request).2 = s ∨
      (s.serve spu slot room request).2 = {s with globals := {s.globals with currentTriangle := none}} ∧
        takes s.context request = true ∧ s.globals.kept slot = none := by
  have ended : (execute spu s.globals slot s.context room request).stalled = true := stalled
  have left : (s.serve spu slot room request).2 = {s with globals := (execute spu s.globals slot s.context room request).globals} :=
    if_pos ended
  obtain ⟨_,_,⟨globals,_⟩ | ⟨globals,taking,kept⟩⟩ := Drawing.execute_stall ended
  · refine .inl (left.trans ?_)
    rw [globals]
  · refine .inr ⟨left.trans ?_,taking,kept⟩
    rw [globals]

theorem transparent (spu : PrimarySpu F) (slot : κ) : Transparent (serve spu slot) (unhindered spu slot) where
  retried s room room' request stalled := by
    rcases serve_stall stalled with same | ⟨dropped,taking,kept⟩
    · rw [same]
    · rw [dropped]
      unfold serve
      simp only [Drawing.execute_dropped taking kept,finish_dropped]
  done s room request finished := by
    have ended : (execute spu s.globals slot s.context room request).stalled = false := finished
    unfold unhindered serve
    rw [Drawing.execute_room ended]

theorem unhindered_done {s : Assembly F κ} (finished : (s.unhindered spu slot request).1 = false) :
    (s.unhindered spu slot request).2 = s.finish spu request (execute spu s.globals slot s.context true request).globals
      (execute spu s.globals slot s.context true request).context := by
  have ended : (execute spu s.globals slot s.context true request).stalled = false := finished
  unfold unhindered serve
  simp [ended]

end Assembly

-- In the middle of a group.
structure Grouping (mode : Mode) (prior : List (Triple (Nat × Nat))) (s : Assembly F κ) : Prop where
  ready : s.context.ready = true
  carries : Carries s.globals.corners s.globals.texels s.lanes
  progress : Progress s.lanes s.group mode s.index s.globals.current_state
  calls : s.calls.map TriangleCall.triple = prior ++ (mode.assembled s.index).map (Triple.map (s.group,·))
  carried : ∀ call ∈ s.calls, call.Carried

omit [DecidableEq κ] in
theorem write_registers (g : Globals F κ) (context : Context F) (target a b : Nat) :
    let done := writeTriangleBuffer spu g context target a b
    done.globals.corners = g.corners ∧ done.globals.texels = g.texels ∧ done.globals.current_state = g.current_state ∧
      done.context = context := by
  unfold writeTriangleBuffer
  split <;> exact ⟨rfl,rfl,rfl,rfl⟩

-- The registers and the state that a vertex leaves, with a triangle or without.
theorem vertex_leaves {g : Globals F κ} {context : Context F} (ready : context.ready = true)
    (finished : (execute spu g slot context room (.vertex x y z w)).stalled = false) :
    let put := g.insert spu context (floats spu x y z w)
    let done := execute spu g slot context room (.vertex x y z w)
    done.globals.corners = put.corners ∧ done.globals.texels = put.texels ∧ done.globals.current_state = put.state ∧
      done.context = context := by
  have drawable : context.renderableCacheLine ≠ 0 := by simpa [Context.ready] using ready
  cases got : getTriangleBuffer g slot context room with
  | mk h answer =>
    cases answer with
    | none => simp [execute,imp_vertex,drawable,got] at finished
    | some target =>
      obtain ⟨rfl,_⟩ := buffer_taken got
      simp only [execute,vertex_taken drawable got]
      split
      · exact write_registers _ _ _ _ _
      · exact ⟨rfl,rfl,rfl,rfl⟩

theorem insertVertex_single (single : (shuffle_map spu state).add ≠ ADD_TRIANGLE2) (corners : Corners F) (texels : Texels F)
    (p col tex : Float4 F) :
    (insertVertex spu state corners texels p col tex).state = (shuffle_map spu state).next ∧
      (insertVertex spu state corners texels p col tex).complete = decide ((shuffle_map spu state).add = ADD_TRIANGLE) := by
  unfold insertVertex
  simp only [if_neg single,and_self]

theorem Grouping.vertex {s : Assembly F κ} (grouping : Grouping mode prior s)
    (finished : (s.unhindered spu slot (.vertex x y z w)).1 = false) :
    Grouping mode prior (s.unhindered spu slot (.vertex x y z w)).2 ∧
      (s.unhindered spu slot (.vertex x y z w)).2.index = s.index + 1 ∧
      (s.unhindered spu slot (.vertex x y z w)).2.group = s.group := by
  obtain ⟨ready,carries,progress,calls,carried⟩ := grouping
  obtain ⟨corners,texels,current,context⟩ := vertex_leaves ready finished
  rw [tagged_insert] at corners texels current
  generalize tag : s.tagged spu (floats spu x y z w) = t at corners texels current
  have group : t.group = s.group := by rw [← tag]; rfl
  have index : t.index = s.index := by rw [← tag]; rfl
  rw [← group,← index] at progress
  have advances : Advances spu s.lanes mode t.index s.globals.current_state t := progress.advances
  have complete : (s.globals.insert spu s.context (floats spu x y z w)).complete =
      decide ((shuffle_map spu s.globals.current_state).add = ADD_TRIANGLE) := by
    rw [tagged_insert]
    exact (insertVertex_single advances.single _ _ _ _ _).2
  rw [(insertVertex_single advances.single _ _ _ _ _).1] at current
  rw [Assembly.unhindered_done finished]
  simp only [Assembly.finish,ready,if_true,tag,complete]
  have held := carries.insert spu s.globals.current_state t
  rw [← corners,← texels] at held
  refine ⟨⟨?_,held,?_,?_,?_⟩,trivial,trivial⟩
  · rw [context]
    exact ready
  · rw [current,← group,← index]
    exact advances.progress
  · by_cases out : (shuffle_map spu s.globals.current_state).add = ADD_TRIANGLE
    · obtain ⟨i,j,k,more,first,second,third⟩ := advances.out out
      simp only [out,decide_true,if_true,List.map_append,calls]
      rw [← index,more,List.map_append,List.append_assoc,← group]
      have named := tripleOf_names first second third
      simp only [List.map_cons,List.map_nil]
      rw [← named]
      rfl
    · simp only [out,decide_false,Bool.false_eq_true,if_false,List.append_nil,calls]
      rw [← index,advances.quiet out]
  · intro call member
    by_cases out : (shuffle_map spu s.globals.current_state).add = ADD_TRIANGLE
    · obtain ⟨i,j,k,_,⟨a,first,_⟩,⟨b,second,_⟩,⟨d,third,_⟩⟩ := advances.out out
      simp only [out,decide_true,if_true] at member
      rcases List.mem_append.mp member with old | new
      · exact carried call old
      · obtain rfl := List.mem_singleton.mp new
        intro lane inner
        fin_cases lane
        · exact ⟨a,first,held 0 a first⟩
        · exact ⟨b,second,held 1 b second⟩
        · exact ⟨d,third,held 2 d third⟩
        · exact absurd rfl inner
    · simp only [out,decide_false,Bool.false_eq_true,if_false,List.append_nil] at member
      exact carried call member

variable (spu) in
omit [DecidableEq κ] in
theorem between_unwritten (g : Globals F κ) (context : Context F) (between : request.between = true) (v : Var)
    (own : v = .current_state ∨ v = .corners ∨ v = .texels ∨ v = .renderable) : writes spu g context request v = false := by
  cases request with
  | vertex | clearScreen | glBegin | glEnd | drawContext | jump => cases between
  | _ => rcases own with rfl | rfl | rfl | rfl <;> rfl

theorem Grouping.between {s : Assembly F κ} (grouping : Grouping mode prior s) (between : request.between = true)
    (finished : (s.unhindered spu slot request).1 = false) :
    Grouping mode prior (s.unhindered spu slot request).2 ∧ (s.unhindered spu slot request).2.index = s.index ∧
      (s.unhindered spu slot request).2.group = s.group := by
  obtain ⟨ready,carries,progress,calls,carried⟩ := grouping
  have same (v : Var) (own : v = .current_state ∨ v = .corners ∨ v = .texels ∨ v = .renderable) :=
    execute_frame s.globals slot s.context true request (between_unwritten spu s.globals s.context between v own)
  have state := same .current_state (.inl rfl)
  have corners := same .corners (.inr (.inl rfl))
  have texels := same .texels (.inr (.inr (.inl rfl)))
  have line := same .renderable (.inr (.inr (.inr rfl)))
  simp only [look] at state corners texels line
  rw [Assembly.unhindered_done finished]
  have plain : s.finish spu request (execute spu s.globals slot s.context true request).globals
      (execute spu s.globals slot s.context true request).context =
      {s with
        globals := (execute spu s.globals slot s.context true request).globals
        context := (execute spu s.globals slot s.context true request).context} := by
    cases request with
    | vertex | clearScreen | glBegin | glEnd | drawContext | jump => cases between
    | _ => rfl
  rw [plain]
  refine ⟨⟨?_,?_,?_,calls,carried⟩,rfl,rfl⟩
  · simpa [Context.ready,line] using ready
  · rw [corners,texels]
    exact carries
  · rw [state]
    exact progress

theorem Grouping.body {s s' : Assembly F κ} {body : List Request} (grouping : Grouping mode prior s) (path : Straight (Assembly.unhindered spu slot) s body s')
    (only : ∀ request ∈ body, request.isVertex = true ∨ request.between = true) :
    Grouping mode prior s' ∧ s'.index = s.index + body.countP Request.isVertex ∧ s'.group = s.group := by
  induction path with
  | nil => exact ⟨grouping,rfl,rfl⟩
  | @cons s request rest s' done path ih =>
    have later := fun r member => only r (List.mem_cons_of_mem _ member)
    rcases only request List.mem_cons_self with isVertex | between
    · cases request with
      | vertex x y z w =>
        obtain ⟨after,index,group⟩ := grouping.vertex done
        obtain ⟨final,count,same⟩ := ih after later
        refine ⟨final,?_,same.trans group⟩
        rw [count,index,List.countP_cons_of_pos isVertex]
        omega
      | _ => cases isVertex
    · obtain ⟨after,index,group⟩ := grouping.between between done
      obtain ⟨final,count,same⟩ := ih after later
      have other : ¬request.isVertex = true := by
        cases request with
        | vertex => cases between
        | _ => exact Bool.false_ne_true
      refine ⟨final,?_,same.trans group⟩
      rw [count,index,List.countP_cons_of_neg other]

-- Before and behind the groups.
structure Resting (k : Nat) (prior : List (Triple (Nat × Nat))) (s : Assembly F κ) : Prop where
  ready : s.context.ready = true
  lanes : s.lanes = fun _ => none
  group : s.group = k
  calls : s.calls.map TriangleCall.triple = prior
  carried : ∀ call ∈ s.calls, call.Carried

theorem validate_mode (mode : Mode) : imp_validate_state spu mode.number = true := by cases mode <;> rfl

variable (spu slot) in
theorem Resting.glBegin {s : Assembly F κ} (resting : Resting k prior s) (mode : Mode) :
    Grouping mode prior (s.unhindered spu slot (.glBegin mode.number)).2 ∧
      (s.unhindered spu slot (.glBegin mode.number)).2.index = 0 ∧
      (s.unhindered spu slot (.glBegin mode.number)).2.group = k + 1 := by
  obtain ⟨ready,lanes,group,calls,carried⟩ := resting
  have after : (s.unhindered spu slot (.glBegin mode.number)).2 =
      {s with globals := {s.globals with current_state := mode.number},group := s.group + 1,index := 0} := by
    rw [Assembly.unhindered_done rfl]
    simp only [Assembly.finish,execute,validate_mode,if_true]
  rw [after]
  refine ⟨⟨ready,?_,?_,?_,carried⟩,rfl,by rw [← group]⟩
  · intro k t at_
    rw [lanes] at at_
    cases at_
  · cases mode with
    | triangles => exact .triangles0 0
    | strip => exact .strip0
    | fan => exact .fan0
  · rw [calls]
    cases mode <;> simp [Mode.assembled,Mode.expected]

variable (spu slot) in
theorem Grouping.glEnd {s : Assembly F κ} (grouping : Grouping mode prior s) :
    Resting s.group (prior ++ (mode.assembled s.index).map (Triple.map (s.group,·))) (s.unhindered spu slot .glEnd).2 := by
  rw [Assembly.unhindered_done rfl]
  exact ⟨grouping.ready,rfl,rfl,grouping.calls,grouping.carried⟩

theorem Resting.requests {s s' : Assembly F κ} (resting : Resting k prior s) (g : Group)
    (path : Straight (Assembly.unhindered spu slot) s g.requests s') :
    Resting (k+1) (prior ++ (g.mode.assembled g.vertices).map (Triple.map (k+1,·))) s' := by
  cases path with
  | cons _ path =>
    obtain ⟨inside,index,group⟩ := resting.glBegin spu slot g.mode
    obtain ⟨middle,path,ending⟩ := path.split
    obtain ⟨last,count,same⟩ := inside.body path g.only
    cases ending with
    | cons _ done =>
      cases done with
      | nil =>
        have rested := last.glEnd spu slot
        rw [count,same,index,group,Nat.zero_add] at rested
        exact rested

theorem Resting.groups {s s' : Assembly F κ} (resting : Resting k prior s) (groups : List Group)
    (path : Straight (Assembly.unhindered spu slot) s (groups.flatMap Group.requests) s') :
    Resting (k + groups.length) (prior ++ labelled (fun g => g.mode.assembled g.vertices) (k+1) groups) s' := by
  induction groups generalizing k prior s with
  | nil =>
    cases path with
    | nil =>
      simp only [labelled,List.append_nil]
      exact resting
  | cons g groups ih =>
    rw [List.flatMap_cons] at path
    obtain ⟨middle,one,rest⟩ := path.split
    have after := ih (resting.requests g one) rest
    simp only [labelled,List.length_cons]
    rw [← List.append_assoc,show k + (groups.length + 1) = k + 1 + groups.length by omega]
    exact after

end

theorem distinct_map [DecidableEq α] [DecidableEq β] (f : α → β) (injective : Function.Injective f) (t : Triple α) :
    Distinct (Triple.map f t) = Distinct t := by
  simp [Distinct,Triple.map,injective.eq_iff]

-- Without its degenerate triple a strip comes out right only when it has none at all.
theorem assembled_right (mode : Mode) (n : Nat) (short : mode = .strip → n ≤ 2) :
    (mode.assembled n).filter Distinct = mode.expected n := by
  cases mode with
  | triangles =>
    apply List.filter_eq_self.mpr
    intro t member
    obtain ⟨k,_,rfl⟩ := List.mem_map.mp member
    simp [Distinct]
  | fan =>
    apply List.filter_eq_self.mpr
    intro t member
    obtain ⟨k,_,rfl⟩ := List.mem_map.mp member
    simp [Distinct]
  | strip =>
    have small := short rfl
    interval_cases n <;> rfl

theorem strip_fewer (more : 2 < n) : ((Mode.assembled .strip n).filter Distinct).length < (Mode.expected .strip n).length := by
  have degenerate : ¬Distinct ((0,0,1) : Triple Nat) = true := by decide
  simp only [Mode.assembled,Mode.expected,if_neg (show ¬n < 2 by omega),List.filter_cons_of_neg degenerate,List.length_map,
    List.length_range]
  have upto := List.length_filter_le Distinct ((List.range ((n-2)/3)).map fun k => ((3*k+2,3*k+3,3*k+4) : Triple Nat))
  rw [List.length_map,List.length_range] at upto
  omega

theorem assembled_fewer (mode : Mode) (n : Nat) : ((mode.assembled n).filter Distinct).length ≤ (mode.expected n).length := by
  by_cases short : mode = .strip → n ≤ 2
  · rw [assembled_right mode n short]
  · obtain ⟨rfl,more⟩ := Classical.not_imp.mp short
    exact Nat.le_of_lt (strip_fewer (by omega))

theorem labelled_filter (list : Group → List (Triple Nat)) (k : Nat) (groups : List Group) :
    (labelled list k groups).filter Distinct = labelled (fun g => (list g).filter Distinct) k groups := by
  induction groups generalizing k with
  | nil => rfl
  | cons g groups ih =>
    have same : Distinct ∘ Triple.map (k,·) = (Distinct : Triple Nat → Bool) :=
      funext (distinct_map _ (Prod.mk_right_injective k))
    simp only [labelled,List.filter_append,List.filter_map,same,ih]

theorem labelled_fewer (k : Nat) (groups : List Group) :
    (labelled (fun g => (g.mode.assembled g.vertices).filter Distinct) k groups).length ≤
      (labelled (fun g => g.mode.expected g.vertices) k groups).length := by
  induction groups generalizing k with
  | nil => rfl
  | cons g groups ih =>
    simp only [labelled,List.length_append,List.length_map]
    exact Nat.add_le_add (assembled_fewer _ _) (ih (k+1))

theorem strips_short {k : Nat} {groups : List Group}
    (same : (labelled (fun g => (g.mode.assembled g.vertices).filter Distinct) k groups).length =
      (labelled (fun g => g.mode.expected g.vertices) k groups).length) :
    ∀ g ∈ groups, g.mode = .strip → g.vertices ≤ 2 := by
  induction groups generalizing k with
  | nil => intro g member; cases member
  | cons g groups ih =>
    simp only [labelled,List.length_append,List.length_map] at same
    have first := assembled_fewer g.mode g.vertices
    have rest := labelled_fewer (k+1) groups
    intro g' member
    rcases List.mem_cons.mp member with rfl | later
    · intro strip
      by_contra more
      have less := strip_fewer (n := g'.vertices) (by omega)
      rw [← strip] at less
      omega
    · exact ih (k := k+1) (by omega) g' later

theorem rotated_exact (groups : List Group) :
    List.Forall₂ Rotated ((assembledTriples groups).filter Distinct) (expectedTriples groups) ↔
      ∀ g ∈ groups, g.mode = .strip → g.vertices ≤ 2 := by
  unfold assembledTriples expectedTriples
  rw [labelled_filter]
  constructor
  · intro rotated
    exact strips_short rotated.length_eq
  · intro short
    have same (k : Nat) : labelled (fun g => (g.mode.assembled g.vertices).filter Distinct) k groups =
        labelled (fun g => g.mode.expected g.vertices) k groups := by
      induction groups generalizing k with
      | nil => rfl
      | cons g groups ih =>
        have later := ih (fun g' member => short g' (List.mem_cons_of_mem _ member)) (k+1)
        simp only [labelled,assembled_right g.mode g.vertices (short g List.mem_cons_self),later]
    rw [same 1]
    exact List.forall₂_same.mpr fun t _ => .inl rfl

section
variable {F κ : Type} [DecidableEq κ]

-- Any groups, with any stalls: the vertices in the registers at each call of
-- imp_triangle, and when these calls are the decomposition.
theorem primitives_assembled (spu : PrimarySpu F) (slot : κ) (globals : Globals F κ) (context : Context F) (groups : List Group)
    (rooms : List Bool) (drawable : context.renderableCacheLine ≠ 0)
    (done : (rooms.foldl (Job.turn (Assembly.serve spu slot))
      (.start (groups.flatMap Group.requests) (Assembly.start globals context))).remaining = []) :
    let calls := (rooms.foldl (Job.turn (Assembly.serve spu slot))
      (.start (groups.flatMap Group.requests) (Assembly.start globals context))).state.calls
    (∀ call ∈ calls, call.Carried) ∧
      (List.Forall₂ Rotated ((calls.map TriangleCall.triple).filter Distinct) (expectedTriples groups) ↔
        ∀ g ∈ groups, g.mode = .strip → g.vertices ≤ 2) := by
  have begin_ : Resting 0 [] (Assembly.start globals context) :=
    ⟨decide_eq_true drawable,rfl,rfl,rfl,fun call member => by cases member⟩
  have final := begin_.groups groups (turns_done (Assembly.transparent spu slot) done)
  refine ⟨final.carried,?_⟩
  rw [final.calls]
  exact rotated_exact groups

end

def threeVertices (mode : Mode) : Group where
  mode := mode
  body := [.vertex 0 0 0 1,.vertex 16 0 0 1,.vertex 0 16 0 1]
  only := by decide

-- The last vertex stalls once.
def stalledOnce : List Bool := [true,true,true,false,true,true]

def threeOf (mode : Mode) : Job (Assembly Int Unit) Request :=
  stalledOnce.foldl (Job.turn (Assembly.serve integers ()))
    (.start ([threeVertices mode].flatMap Group.requests) (Assembly.start (.start integers) (imp_draw_context integers (.clear integers) 1)))

theorem threeOf_done (mode : Mode) : (threeOf mode).remaining = [] := by
  apply List.isEmpty_iff.mp
  cases mode <;> decide +kernel

theorem primitives_assembled_fan : (∀ call ∈ (threeOf .fan).state.calls, call.Carried) ∧
    (List.Forall₂ Rotated (((threeOf .fan).state.calls.map TriangleCall.triple).filter Distinct) (expectedTriples [threeVertices .fan]) ↔
      ∀ g ∈ [threeVertices .fan], g.mode = .strip → g.vertices ≤ 2) :=
  primitives_assembled integers () (.start integers) (imp_draw_context integers (.clear integers) 1) [threeVertices .fan] stalledOnce
    (by decide +kernel) (threeOf_done .fan)

-- The triangle of a strip of three vertices never comes.
theorem strip_unassembled : ¬∀ (groups : List Group) (rooms : List Bool),
    let job := rooms.foldl (Job.turn (Assembly.serve integers ()))
      (.start (groups.flatMap Group.requests) (Assembly.start (.start integers) (imp_draw_context integers (.clear integers) 1)))
    job.remaining = [] → List.Forall₂ Rotated ((job.state.calls.map TriangleCall.triple).filter Distinct) (expectedTriples groups) := by
  intro claim
  have rotated := (claim [threeVertices .strip] stalledOnce (threeOf_done .strip)).length_eq
  have none : (((threeOf .strip).state.calls.map TriangleCall.triple).filter Distinct).length = 0 := by decide +kernel
  have one : (expectedTriples [threeVertices .strip]).length = 1 := by decide
  rw [one] at rotated
  exact absurd (none.symm.trans rotated) (by decide)

end Spugl
