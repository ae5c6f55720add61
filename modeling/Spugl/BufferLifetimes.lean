import Spugl.BufferUses

namespace Spugl

section
variable {ι : Type} {s : Pipeline ι} {r : TriangleRing}

-- The unconsumed records are those that some used slot has yet to pass.
theorem Ringed.unconsumed (valid : Ringed s r) : s.Unconsumed offset ↔
    ∃ i q, s.system.line.chunkNext i ≠ .free ∧ r.passed i ≤ q ∧ q < r.records.length ∧ offset = place q := by
  have links : (fun p => (s.system.ring p).next_triangle) = r.next_triangle := funext fun p => (valid.links p).symm
  unfold Pipeline.Unconsumed
  rw [links]
  constructor
  · rintro ⟨i,n,used,rfl,open_⟩
    obtain ⟨at_,upto,near⟩ := valid.pointer used
    rw [at_,← valid.line] at open_
    obtain ⟨here,inside⟩ := valid.ring.chased (k := n) upto near fun m less => open_ m (Nat.le_of_lt less)
    have last := open_ n (Nat.le_refl _)
    rw [here,valid.ring.ends] at last
    have apart : r.passed i + n ≠ r.records.length := fun same => last (congrArg place same)
    exact ⟨i,r.passed i + n,used,Nat.le_add_right _ _,by omega,by rw [at_]; exact here⟩
  · rintro ⟨i,q,used,low,high,rfl⟩
    obtain ⟨at_,upto,near⟩ := valid.pointer used
    have chased : ∀ m, r.passed i + m ≤ r.records.length → chase r.next_triangle m (s.system.line.chunkTriangle i) = place (r.passed i + m) := by
      intro m inside
      rw [at_]
      exact valid.ring.chase_place near inside
    refine ⟨i,q - r.passed i,used,?_,?_⟩
    · rw [chased _ (by omega)]
      congr 1
      omega
    · intro m less
      rw [chased m (by omega),valid.ends]
      exact place_apart (by omega) (by omega)

theorem Ringed.fresh (valid : Ringed s r) (granted : s.producer.grant = some g) : ¬s.Unconsumed g.offset := by
  rw [valid.unconsumed]
  rintro ⟨i,q,used,low,high,same⟩
  obtain ⟨rfl,room⟩ := valid.ring.granted g (by rw [valid.producer]; exact granted)
  have near := room i (by rw [valid.line]; exact used)
  exact place_apart high (by omega) same.symm

theorem Ringed.rendered (valid : Ringed s r) (at_ : s.system.spus k = .rendering v triangle window)
    (more : v.chunkTriangle ≠ v.endTriangle) : s.Unconsumed v.chunkTriangle := by
  have follows := valid.follows k
  rw [at_] at follows
  obtain ⟨p,e,behind,_⟩ := follows
  have used : s.system.line.chunkNext v.chunkToProcess ≠ .free :=
    valid.custody.marking.used (k := k) (n := .chunk true v.chunkNext) (by rw [at_]; exact .inl ⟨rfl,rfl⟩)
  have apart := (valid.arrived behind used).not.mp more
  obtain ⟨pointer,_,from_,upto,known⟩ := behind
  exact valid.unconsumed.mpr ⟨v.chunkToProcess,p,used,from_,by omega,pointer⟩

variable [DecidableEq ι]

-- No step of a pipeline but the store of endTriangle makes anything unconsumed.
theorem Ringed.step (valid : Ringed s r) (a : PipelineAction ι) (allowed : s.allowed SpareSplits a) :
    (∃ r', Ringed (s.act a) r') ∧ ∀ offset, (s.act a).Unconsumed offset →
      s.Unconsumed offset ∨ ∃ g, a = .publish ∧ s.producer = .written g ∧ offset = g.offset := by
  obtain ⟨r',valid',onward | ⟨g,rfl,written,published⟩⟩ := valid.act a allowed
  · refine ⟨⟨r',valid'⟩,fun offset unconsumed => .inl ?_⟩
    obtain ⟨i,q,used,low,high,rfl⟩ := valid'.unconsumed.mp unconsumed
    obtain ⟨j,before,less⟩ := onward.passed i (by rw [valid'.line]; exact used)
    rw [onward.records] at high
    exact valid.unconsumed.mpr ⟨j,q,by rw [← valid.line]; exact before,Nat.le_trans less low,high,rfl⟩
  · refine ⟨⟨r',valid'⟩,fun offset unconsumed => ?_⟩
    obtain ⟨i,q,used,low,high,rfl⟩ := valid'.unconsumed.mp unconsumed
    rw [published.records,List.length_append,List.length_singleton] at high
    rw [published.passed] at low
    rw [← valid'.line,published.used,valid.line] at used
    rcases Nat.lt_or_eq_of_le (Nat.lt_succ_iff.mp high) with less | last
    · exact .inl (valid.unconsumed.mpr ⟨i,q,used,low,less,rfl⟩)
    · obtain ⟨same,_⟩ := valid.ring.granted g (by rw [valid.producer,written]; rfl)
      exact .inr ⟨g,rfl,written,by rw [last,same]⟩

end

section
variable {F κ : Type} {spu : PrimarySpu F} [DecidableEq κ] {g : Globals F κ} {slot : κ} {context : Context F} {room : Bool}
  {request : Request} {d : Drawn F}

-- A triangle takes the shader of the Context, and that of a clear has none.
theorem execute_shader (drawn : (execute spu g slot context room request).drawn = some d) : d.shader_ea = 0 ∨
    (∀ x y z w, request ≠ .clearScreen x y z w) ∧ d.shader_ea = context.pixel_shader_ea ∧ d.shader_length = context.pixel_shader_length := by
  have written {h : Globals F κ} {target a b : Nat} (drawn : (writeTriangleBuffer spu h context target a b).drawn = some d) :
      d.shader_ea = a ∧ d.shader_length = b := by
    unfold writeTriangleBuffer at drawn
    split at drawn
    · cases drawn
      exact ⟨rfl,rfl⟩
    · cases drawn
  cases request with
  | vertex x y z w =>
    simp only [execute,imp_vertex] at drawn
    split at drawn
    · cases drawn
    · split at drawn
      · cases drawn
      · split at drawn
        · exact .inr ⟨fun _ _ _ _ same => (by cases same),written drawn⟩
        · cases drawn
  | clearScreen x y z w =>
    simp only [execute,imp_clear_screen] at drawn
    split at drawn
    · cases drawn
    · exact .inl (written drawn).1
  | loadMatrix command entries =>
    simp only [execute] at drawn
    split at drawn
    · cases drawn
    · split at drawn
      · cases drawn
      · cases drawn
  | vertexAttrib which x y z w =>
    simp only [execute] at drawn
    split at drawn
    · cases drawn
    · cases drawn
  | _ => cases drawn

-- Only a select command changes it.
theorem execute_unselected (other : ∀ bufid offset length, request ≠ .selectPixelShader bufid offset length) :
    (execute spu g slot context room request).context.pixel_shader_ea = context.pixel_shader_ea ∧
      (execute spu g slot context room request).context.pixel_shader_length = context.pixel_shader_length := by
  have unwritten : writes spu g context request .shader = false := by
    cases request with
    | selectPixelShader bufid offset length => exact absurd rfl (other bufid offset length)
    | _ => rfl
  exact Prod.mk.inj (execute_frame g slot context room request unwritten)

end

-- A part of a buffer, from an address or from an offset on.
def Allocation.Spans (a : Allocation) (ea bytes : Nat) : Prop := Inside a.range ea ∧ ea + bytes ≤ a.buffer + a.size

namespace Ledger

def Owns (s : Ledger) (id ea bytes : Nat) : Prop := ∃ a, s.Live a ∧ a.id = id ∧ a.Spans ea bytes

def Offers (s : Ledger) (id offset bytes : Nat) : Prop := ∃ a, s.Live a ∧ a.id = id ∧ offset < a.size ∧ offset + bytes ≤ a.size

def Aimed (s : Ledger) (u : ShaderUse) : Prop := u.shader_ea = 0 ∨ ∃ id, u.named = some id ∧ s.Owns id u.shader_ea u.shader_length

section
variable {s : Ledger}

theorem Offers.owns {id offset bytes : Nat} (placed : s.Placed) (offers : s.Offers id offset bytes) : s.Owns id (s.ea_table (blockSlot id) + offset) bytes := by
  obtain ⟨a,live,rfl,inside,room⟩ := offers
  have at_ := placed.ea_table a live.1
  refine ⟨a,live,rfl,?_⟩
  unfold Allocation.Spans Inside
  rw [show s.ea_table (blockSlot a.id) = a.buffer from at_]
  exact ⟨⟨Nat.le_add_right _ _,Nat.add_lt_add_left inside _⟩,by omega⟩

theorem Apart.clear {x y : Nat × Nat} (apart : Apart x y) (here : Inside x ea) : ¬Inside y ea := by
  intro there
  unfold Apart at apart
  unfold Inside at here there
  omega

-- What a live Allocation has is not mapped for another one that comes or goes.
theorem Placed.clear (placed : s.Placed) {a : Allocation} (live : s.Live a) (member : x ∈ s.task.ranges) (here : Inside a.range ea) :
    ¬Inside x ea := by
  have apart := (List.pairwise_append.mp placed.apart).2.2 x member a.range (List.mem_map_of_mem live.1)
  exact fun there => Apart.clear apart there here

end
end Ledger

namespace Daemon
open Function

-- What the commands, the Contexts and the records that are not yet consumed name is live,
-- and has the bytes that they mean.
structure Kept {F ι : Type} (s : Daemon F ι) : Prop where
  sound : s.ledger.Sound
  placed : s.ledger.Placed
  rings : ∀ line, ∃ r, Ringed (s.pipelines line) r
  writing : ∀ line, (s.pipelines line).producer.writing = true → ∃ u, s.drawn = some (line,u)
  queued : ∀ slot, ∀ request ∈ s.queue slot, ∀ id offset bytes, request.names = some (id,offset,bytes) → s.ledger.Offers id offset bytes
  selected : ∀ slot id, s.selected slot = some id → s.ledger.Owns id (s.contexts slot).pixel_shader_ea (s.contexts slot).pixel_shader_length
  consumed : ∀ line offset, (s.pipelines line).Unconsumed offset → s.ledger.Aimed (s.shaders line offset)
  drawn : ∀ line u, s.drawn = some (line,u) → s.ledger.Aimed u
  written : ∀ line u g, s.drawn = some (line,u) → (s.pipelines line).producer = .written g → s.shaders line g.offset = u

section
variable {F ι : Type} {spu : PrimarySpu F} {s : Daemon F ι}

-- An empty ring has no record.
theorem start_consumed (ring : Nat → TriangleRecord Nat) (offset : Nat) : ¬(Pipeline.start (ι := ι) ring).Unconsumed offset := by
  rw [(start_ringed (ι := ι) ring).unconsumed]
  rintro ⟨i,q,_,low,high,_⟩
  exact Nat.not_lt_zero q high

theorem start_kept (rings : Nat → Nat → TriangleRecord Nat) (shaders : Nat → Nat → ShaderUse) : Kept (start (ι := ι) spu rings shaders) where
  sound := Ledger.start_sound
  placed := Ledger.start_placed
  rings line := ⟨_,start_ringed (rings line)⟩
  writing _ writing := by cases writing
  queued _ _ member := by cases member
  selected _ _ none := by cases none
  consumed line offset unconsumed := absurd unconsumed (start_consumed (rings line) offset)
  drawn _ _ none := by cases none
  written _ _ _ none := by cases none

theorem Kept.server (kept : Kept s) (legal : s.legal (.server ch)) (careful : ∀ a ∈ s.ledger.disposes ch, ¬s.Uses a) : Kept (s.server ch) := by
  have changes : s.ledger.Changes ch (s.ledger.server ch) := Ledger.server_changes kept.sound
  have still {a : Allocation} (live : s.ledger.Live a) (uses : s.Uses a) : (s.ledger.server ch).Live a :=
    live.change changes fun given => careful a given uses
  have aimed {u : ShaderUse} (aimed : s.ledger.Aimed u) (uses : ∀ a : Allocation, u.carries a.range → s.Uses a) :
      (s.ledger.server ch).Aimed u := by
    rcases aimed with none | ⟨id,named,a,live,same,spans⟩
    · exact .inl none
    · by_cases none : u.shader_ea = 0
      · exact .inl none
      · exact .inr ⟨id,named,a,still live (uses a ⟨none,spans.1⟩),same,spans⟩
  refine ⟨Ledger.server_sound kept.sound legal.1,kept.placed.act kept.sound legal.2,kept.rings,kept.writing,?_,?_,?_,?_,kept.written⟩
  · intro slot request member id offset bytes names
    have before : request ∈ s.queue slot := by
      unfold Daemon.server at member
      cases unmapping : s.ledger.task.unmapping with
      | none =>
        simp only [unmapping] at member
        exact member
      | some del =>
        simp only [unmapping] at member
        by_cases same : slot = del.slot
        · rw [same,update_self] at member
          cases member
        · rw [update_of_ne same] at member
          exact member
    obtain ⟨a,live,rfl,room⟩ := kept.queued slot request before _ offset bytes names
    exact ⟨a,still live (.inr (.inr ⟨slot,request,before,_,names⟩)),rfl,room⟩
  · intro slot id selected
    obtain ⟨before,out⟩ := Option.filter_eq_some_iff.mp selected
    obtain ⟨a,live,rfl,spans⟩ := kept.selected slot _ before
    refine ⟨a,live.change changes ?_,rfl,spans⟩
    intro given
    simp only [Bool.not_eq_true',List.any_eq_false] at out
    exact out a given (by simp)
  · intro line offset unconsumed
    exact aimed (kept.consumed line offset unconsumed) fun a carries => .inl ⟨line,offset,unconsumed,carries⟩
  · intro line u drawn
    exact aimed (kept.drawn line u drawn) fun a carries => .inr (.inl ⟨line,u,drawn,carries⟩)

theorem Kept.process_queues (kept : Kept s) (ok : Bool) : Kept {s with ledger := s.ledger.act (.spu ok)} := by
  obtain ⟨list,_,_⟩ := s.ledger.process_queues_same ok
  have live {a : Allocation} (live : s.ledger.Live a) : (s.ledger.process_queues ok).Live a := by
    unfold Ledger.Live
    rw [list]
    exact live
  have owns {id ea bytes : Nat} (owns : s.ledger.Owns id ea bytes) : (s.ledger.process_queues ok).Owns id ea bytes :=
    owns.imp fun _ both => ⟨live both.1,both.2⟩
  have aimed {u : ShaderUse} (aimed : s.ledger.Aimed u) : (s.ledger.process_queues ok).Aimed u :=
    aimed.imp id fun named => named.imp fun _ both => ⟨both.1,owns both.2⟩
  refine ⟨Ledger.spu_sound kept.sound ok,kept.placed.act (a := .spu ok) kept.sound trivial,kept.rings,kept.writing,?_,?_,?_,?_,kept.written⟩
  · intro slot request member id offset bytes names
    exact (kept.queued slot request member id offset bytes names).imp fun _ both => ⟨live both.1,both.2⟩
  · intro slot id selected
    exact owns (kept.selected slot id selected)
  · intro line offset unconsumed
    exact aimed (kept.consumed line offset unconsumed)
  · intro line u drawn
    exact aimed (kept.drawn line u drawn)

theorem Kept.write (kept : Kept s) (slot : Nat) (request : Request) (offers : ∀ id offset bytes, request.names = some (id,offset,bytes) →
    s.ledger.Offers id offset bytes) : Kept {s with queue := update s.queue slot (s.queue slot ++ [request])} := by
  refine ⟨kept.sound,kept.placed,kept.rings,kept.writing,?_,kept.selected,kept.consumed,kept.drawn,kept.written⟩
  intro slot' request' member
  by_cases same : slot' = slot
  · subst same
    simp only [update_self] at member
    rcases List.mem_append.mp member with old | new
    · exact kept.queued slot' request' old
    · obtain rfl := List.mem_singleton.mp new
      exact offers
  · simp only [update_of_ne same] at member
    exact kept.queued slot' request' member

theorem Kept.rings_update (kept : Kept s) (line : Nat) {p : Pipeline ι} (ringed : ∃ r, Ringed p r) :
    ∀ line', ∃ r, Ringed (update s.pipelines line p line') r :=
  (forall_update_iff s.pipelines fun _ t => ∃ r, Ringed t r).mpr ⟨ringed,fun line' _ => kept.rings line'⟩

theorem next_some (next : s.next = some (slot,request,rest)) : s.queue slot = request :: rest := by
  unfold Daemon.next at next
  split at next
  · split at next
    · rename_i commands
      cases next
      exact commands
    · cases next
  · cases next

theorem unconsumed_congr {t u : Pipeline ι} (same : t.system = u.system) : t.Unconsumed offset ↔ u.Unconsumed offset := by
  unfold Pipeline.Unconsumed
  rw [same]

variable [DecidableEq ι]

-- Taking a buffer moves no record.
theorem Kept.granted (kept : Kept s) (idle : s.drawn = none) (slot : Nat) (request : Request) (line : Nat) :
    (∃ r, Ringed (s.granted slot request line) r) ∧ (s.granted slot request line).producer.writing = false ∧
      (s.granted slot request line).system = (s.pipelines line).system := by
  have free : (s.pipelines line).producer.writing = false := by
    rw [← Bool.not_eq_true]
    intro writing
    obtain ⟨u,drawn⟩ := kept.writing line writing
    rw [idle] at drawn
    cases drawn
  obtain ⟨r,valid⟩ := kept.rings line
  obtain ⟨r',dropped⟩ := (valid.step .abandon free).1
  unfold Daemon.granted
  split
  · simp only
    split
    · refine ⟨(dropped.step .getTriangleBuffer rfl).1,?_⟩
      simp only [Pipeline.act]
      split
      · exact ⟨rfl,rfl⟩
      · exact ⟨rfl,rfl⟩
    · exact ⟨⟨r',dropped⟩,rfl,rfl⟩
  · exact ⟨⟨r,valid⟩,free,rfl⟩

theorem Kept.record (kept : Kept s) (covers : Nat → Bool) : Kept (s.record covers) := by
  unfold Daemon.record
  split
  · rename_i line u drawn
    split
    · rename_i g granted
      obtain ⟨r,valid⟩ := kept.rings line
      obtain ⟨rings,consumed⟩ := valid.step (.write covers) trivial
      have fresh := valid.fresh (g := g) (by rw [granted]; rfl)
      refine ⟨kept.sound,kept.placed,kept.rings_update line rings,?_,kept.queued,kept.selected,?_,kept.drawn,?_⟩
      · intro line' writing
        by_cases same : line' = line
        · subst same
          exact ⟨u,drawn⟩
        · simp only [update_of_ne same] at writing
          exact kept.writing line' writing
      · intro line' offset unconsumed
        by_cases same : line' = line
        · subst same
          simp only [update_self] at unconsumed ⊢
          rcases consumed offset unconsumed with before | ⟨_,publish,_⟩
          · have apart : offset ≠ g.offset := fun same => fresh (same ▸ before)
            rw [update_of_ne apart]
            exact kept.consumed line' offset before
          · cases publish
        · simp only [update_of_ne same] at unconsumed ⊢
          exact kept.consumed line' offset unconsumed
      · intro line' u' g' drawn' written
        obtain ⟨rfl,rfl⟩ := Prod.mk.inj (Option.some.inj (drawn.symm.trans drawn'))
        simp only [update_self,Pipeline.act,granted] at written ⊢
        cases written
        rw [update_self]
    · exact kept
  · exact kept

theorem Kept.publish (kept : Kept s) : Kept s.publish := by
  unfold Daemon.publish
  split
  · rename_i line u drawn
    split
    · rename_i g written
      obtain ⟨r,valid⟩ := kept.rings line
      obtain ⟨rings,consumed⟩ := valid.step .publish trivial
      refine ⟨kept.sound,kept.placed,kept.rings_update line rings,?_,kept.queued,kept.selected,?_,(fun _ _ none => by cases none),fun _ _ _ none => by cases none⟩
      · intro line' writing
        by_cases same : line' = line
        · subst same
          simp only [update_self,Pipeline.act,written] at writing
          cases writing
        · simp only [update_of_ne same] at writing
          obtain ⟨u',other⟩ := kept.writing line' writing
          exact absurd (Prod.mk.inj (Option.some.inj (drawn.symm.trans other))).1.symm same
      · intro line' offset unconsumed
        by_cases same : line' = line
        · subst same
          simp only [update_self] at unconsumed
          rcases consumed offset unconsumed with before | ⟨g',_,written',rfl⟩
          · exact kept.consumed line' offset before
          · show s.ledger.Aimed (s.shaders line' g'.offset)
            rw [kept.written line' u g' drawn written']
            exact kept.drawn line' u drawn
        · simp only [update_of_ne same] at unconsumed
          exact kept.consumed line' offset unconsumed
    · exact kept
  · exact kept

theorem Kept.run (kept : Kept s) (line : Nat) (k : ι) (spare : SpareSplits (s.pipelines line).system k) :
    Kept {s with pipelines := update s.pipelines line ((s.pipelines line).act (.run k))} := by
  obtain ⟨r,valid⟩ := kept.rings line
  obtain ⟨rings,consumed⟩ := valid.step (.run k) spare
  have producer (line' : Nat) : (update s.pipelines line ((s.pipelines line).act (.run k)) line').producer = (s.pipelines line').producer := by
    by_cases same : line' = line
    · subst same
      rw [update_self]
      rfl
    · rw [update_of_ne same]
  refine ⟨kept.sound,kept.placed,kept.rings_update line rings,?_,kept.queued,kept.selected,?_,kept.drawn,?_⟩
  · intro line' writing
    rw [producer] at writing
    exact kept.writing line' writing
  · intro line' offset unconsumed
    by_cases same : line' = line
    · subst same
      simp only [update_self] at unconsumed
      rcases consumed offset unconsumed with before | ⟨_,publish,_⟩
      · exact kept.consumed line' offset before
      · cases publish
    · simp only [update_of_ne same] at unconsumed
      exact kept.consumed line' offset unconsumed
  · intro line' u g drawn written
    rw [producer] at written
    exact kept.written line' u g drawn written

omit [DecidableEq ι] in
-- A triangle has the shader of its Context, whose buffer is still there.
theorem Kept.draws (kept : Kept s) (next : s.next = some (slot,request,rest)) (careful : s.careful spu .execute)
    (triangle : (s.handled spu slot request).drawn = some d) : s.ledger.Aimed ⟨d.shader_ea,d.shader_length,s.selected slot⟩ := by
  rcases execute_shader triangle with zero | ⟨other,ea,length⟩
  · exact .inl zero
  · rcases careful slot request rest next (execute_drawn triangle).1 with ⟨x,y,z,w,clear⟩ | zero | some
    · exact absurd clear (other x y z w)
    · exact .inl (ea.trans zero)
    · obtain ⟨id,selected⟩ := Option.isSome_iff_exists.mp some
      refine .inr ⟨id,selected,?_⟩
      simp only [ea,length]
      exact kept.selected slot id selected

theorem Kept.execute (kept : Kept s) (idle : s.drawn = none) (careful : s.careful spu .execute) : Kept (s.execute spu) := by
  unfold Daemon.execute
  split
  · rename_i slot request rest next
    have commands := next_some next
    have inside : request ∈ s.queue slot := by rw [commands]; exact List.mem_cons_self
    have granted := kept.granted idle slot request
    refine ⟨kept.sound,kept.placed,fun line => (granted line).1,?_,?_,?_,?_,?_,?_⟩
    · intro line writing
      exact absurd ((granted line).2.1.symm.trans writing) Bool.false_ne_true
    · intro slot' request' member
      refine kept.queued slot' request' ?_
      simp only at member
      split at member
      · exact member
      · by_cases same : slot' = slot
        · subst same
          rw [update_self] at member
          rw [commands]
          exact List.mem_cons_of_mem _ member
        · rw [update_of_ne same] at member
          exact member
    · intro slot' id selected
      by_cases other : ∀ bufid offset length, request ≠ .selectPixelShader bufid offset length
      · have before : s.selected slot' = some id := by
          cases request with
          | selectPixelShader bufid offset length => exact absurd rfl (other bufid offset length)
          | _ => exact selected
        have owns := kept.selected slot' id before
        by_cases same : slot' = slot
        · subst same
          simp only [update_self]
          have frame : (s.handled spu slot' request).context.pixel_shader_ea = (s.contexts slot').pixel_shader_ea ∧
              (s.handled spu slot' request).context.pixel_shader_length = (s.contexts slot').pixel_shader_length := execute_unselected other
          rw [frame.1,frame.2]
          exact owns
        · simp only [update_of_ne same]
          exact owns
      · obtain ⟨bufid,offset,length,rfl⟩ : ∃ bufid offset length, request = .selectPixelShader bufid offset length := by
          by_contra none
          exact other fun bufid offset length same => none ⟨bufid,offset,length,same⟩
        by_cases same : slot' = slot
        · subst same
          simp only [update_self] at selected ⊢
          cases selected
          exact (kept.queued slot' _ inside _ offset length rfl).owns kept.placed
        · simp only [update_of_ne same] at selected ⊢
          exact kept.selected slot' id selected
    · intro line offset unconsumed
      exact kept.consumed line offset ((unconsumed_congr (granted line).2.2).mp unconsumed)
    · intro line u drawn
      obtain ⟨d,triangle,same⟩ := Option.map_eq_some_iff.mp drawn
      obtain ⟨rfl,rfl⟩ := Prod.mk.inj same
      exact kept.draws next careful triangle
    · intro line u g _ written
      have writing := (granted line).2.1
      rw [written] at writing
      cases writing
  · exact kept

theorem Kept.act (kept : Kept s) {a : DaemonAction ι} (legal : s.legal a) (careful : s.careful spu a) : Kept (s.act spu a) := by
  cases a with
  | server ch => exact kept.server legal careful
  | spu ok => exact kept.process_queues ok
  | write slot request =>
    refine kept.write slot request ?_
    intro id offset bytes names
    obtain ⟨a,member,live,rest⟩ := careful id offset bytes names
    exact ⟨a,⟨member,live⟩,rest⟩
  | execute => exact kept.execute legal careful
  | record covers => exact kept.record covers
  | publish => exact kept.publish
  | run line k => exact kept.run line k careful

end

section
variable {F ι : Type} {s : Daemon F ι}

theorem Kept.hits {id ea bytes : Nat} (kept : Kept s) (owns : s.ledger.Owns id ea bytes) : s.Hits id ea bytes := by
  obtain ⟨a,live,same,inside,room⟩ := owns
  refine ⟨a,live.1,same,?_,kept.placed.ea_table a live.1,inside.1,room⟩
  exact kept.sound.mapped.mem_iff.mpr (List.mem_append_right _ (List.mem_map_of_mem live.1))

theorem Kept.apart (kept : Kept s) {u : ShaderUse} (aimed : s.ledger.Aimed u) (member : x ∈ s.ledger.task.ranges) : ¬u.carries x := by
  rintro ⟨some,there⟩
  rcases aimed with zero | ⟨id,_,a,live,_,spans⟩
  · exact some zero
  · exact kept.placed.clear live member spans.1 there

theorem Kept.outlives (kept : Kept s) : Outlives s := by
  have named {slot : Nat} {request : Request} {id : Nat} {part : Nat × Nat} (member : request ∈ s.queue slot)
      (names : request.names = some (id,part)) : ¬s.ledger.unlisted (blockSlot id) := by
    obtain ⟨a,live,rfl,_⟩ := kept.queued slot request member id part.1 part.2 names
    exact fun out => out (List.mem_map_of_mem live.1)
  refine ⟨?_,?_,?_,?_,?_⟩
  · intro del unmapping
    have fits := kept.sound.fits
    have range : del.range ∈ s.ledger.task.ranges := by
      cases at_ : s.ledger.task with
      | unmap _ p =>
        rw [at_] at unmapping
        cases unmapping
        exact List.mem_cons_self
      | _ => rw [at_] at unmapping; cases unmapping
    rintro (⟨line,offset,unconsumed,carries⟩ | ⟨line,u,drawn,carries⟩ | ⟨slot,request,member,part,names⟩)
    · exact kept.apart (kept.consumed line offset unconsumed) range carries
    · exact kept.apart (kept.drawn line u drawn) range carries
    · apply named member names
      cases at_ : s.ledger.task with
      | unmap _ p =>
        rw [at_] at unmapping fits
        cases unmapping
        exact fits.2
      | _ => rw [at_] at unmapping; cases unmapping
  · intro slot memory placing q request member id part names same
    apply named member names
    have fits := kept.sound.fits
    cases at_ : s.ledger.task with
    | store r fd memory' i j word =>
      rw [at_] at placing fits
      cases placing
      rw [same]
      exact fits.2.2.2.2.1
    | _ => rw [at_] at placing; cases placing
  · intro x member line offset unconsumed
    exact kept.apart (kept.consumed line offset unconsumed) member
  · intro line k v triangle window at_ more
    obtain ⟨r,valid⟩ := kept.rings line
    rcases kept.consumed line _ (valid.rendered at_ more) with zero | ⟨id,named,owns⟩
    · exact .inl zero
    · exact .inr ⟨id,named,kept.hits owns⟩
  · intro slot request rest next id offset bytes names
    have member : request ∈ s.queue slot := by rw [next_some next]; exact List.mem_cons_self
    exact kept.hits ((kept.queued slot request member id offset bytes names).owns kept.placed)

end

section
variable {F ι : Type}

instance (s : Daemon F ι) : (a : DaemonAction ι) → Decidable (s.legal a)
  | .server ch => inferInstanceAs (Decidable (s.ledger.legal (.server ch) ∧ s.ledger.mapsApart (.server ch)))
  | .spu _ => inferInstanceAs (Decidable (s.ledger.spu.processing.isSome = true → s.drawn = none))
  | .write slot _ =>
    inferInstanceAs (Decidable (∃ q ∈ s.ledger.list.allocations, q.commandQueue = true ∧ q.countDisposed = false ∧ q.slot = slot))
  | .execute => inferInstanceAs (Decidable (s.drawn = none))
  | .record _ | .publish | .run _ _ => .isTrue trivial

-- Enough to be careful, where the server gives back nothing.
def cautious (spu : PrimarySpu F) (s : Daemon F ι) : DaemonAction ι → Bool
  | .server ch => (s.ledger.disposes ch).isEmpty
  | .write _ request =>
    match request.names with
    | some (id,offset,bytes) => s.ledger.list.allocations.any fun a =>
      !a.countDisposed && decide (a.id = id) && decide (offset < a.size) && decide (offset + bytes ≤ a.size)
    | none => true
  | .execute =>
    match s.next with
    | some (slot,request,_) => !completing (s.primary spu) s.globals (s.contexts slot) request || (s.selected slot).isSome
    | none => true
  | .run line k =>
    match (s.pipelines line).system.spus k with
    | .storing v _ _ _ => decide (v.freeChunk = v.claimed)
    | _ => true
  | .spu _ | .record _ | .publish => true

theorem cautious_careful {spu : PrimarySpu F} {s : Daemon F ι} {a : DaemonAction ι} (cautious : s.cautious spu a = true) : s.careful spu a := by
  cases a with
  | server ch =>
    intro a given
    rw [List.isEmpty_iff.mp cautious] at given
    cases given
  | write slot request =>
    intro id offset bytes names
    simp only [Daemon.cautious,names,List.any_eq_true,Bool.and_eq_true,Bool.not_eq_true',decide_eq_true_eq] at cautious
    obtain ⟨a,member,⟨⟨live,same⟩,inside⟩,room⟩ := cautious
    exact ⟨a,member,live,same,inside,room⟩
  | execute =>
    intro slot request rest next completes
    simp only [Daemon.cautious,next,completes,Bool.not_true,Bool.false_or] at cautious
    exact .inr (.inr cautious)
  | run line k =>
    show SpareSplits (s.pipelines line).system k
    unfold SpareSplits
    cases at_ : (s.pipelines line).system.spus k with
    | storing v triangle firstTile cache =>
      simp only [Daemon.cautious,at_,decide_eq_true_eq] at cautious
      exact fun _ => .inl cautious
    | _ => trivial
  | _ => trivial

end

section
variable {F ι : Type} [DecidableEq ι] {spu : PrimarySpu F}

-- While only the server has been at work, nothing is in use.
theorem served_unused (rings : Nat → Nat → TriangleRecord Nat) (shaders : Nat → Nat → ShaderUse) (choices : List Choice) (a : Allocation) :
    ¬((choices.map DaemonAction.server).foldl (act spu) (start (ι := ι) spu rings shaders)).Uses a := by
  suffices quiet : ∀ s : Daemon F ι, (s.pipelines = fun line => .start (rings line)) → s.drawn = none → (∀ slot, s.queue slot = []) →
      ¬((choices.map DaemonAction.server).foldl (act spu) s).Uses a from quiet _ rfl rfl fun _ => rfl
  induction choices with
  | nil =>
    intro s pipelines idle empty
    show ¬s.Uses a
    rintro (⟨line,offset,unconsumed,_⟩ | ⟨line,u,drawn,_⟩ | ⟨slot,request,member,_⟩)
    · rw [pipelines] at unconsumed
      exact start_consumed _ _ unconsumed
    · rw [idle] at drawn
      cases drawn
    · rw [empty] at member
      cases member
  | cons ch rest ih =>
    intro s pipelines idle empty
    refine ih (s.server ch) pipelines idle ?_
    intro slot
    unfold Daemon.server
    cases unmapping : s.ledger.task.unmapping with
    | none => exact empty slot
    | some del =>
      simp only
      by_cases same : slot = del.slot
      · rw [same,update_self]
      · rw [update_of_ne same,empty slot]

end

-- The next step of the server: an event that it takes, or what it is at.
def serves (event : Event) (fd memory : Option Nat) : Choice := ⟨event,fd,memory,true,7⟩

def goesOn (n : Nat) : List Choice := List.replicate n (serves .sweep none none)

def allocates (commandQueue : Bool) (size fd memory : Nat) : List Choice :=
  [serves (.alloc 0 commandQueue size) (some fd) none,serves .sweep none none,serves .sweep none (some memory)] ++ goesOn 2

-- A client with a queue in slot 0 and a buffer in slot 16.
def opening : List Choice := serves (.connect 5) none none :: allocates true 4096 6 8192 ++ allocates false 65536 7 65536

def freeing (id : Nat) : Choice := serves (.free 0 id) none none

-- The primary SPU locks the queue, and serves a triangle with a shader of the buffer.
def shaded : List Request := target 1 ++ [.selectPixelShader (blockId 16 7) 256 128,.poke (blockId 16 7) 0 1] ++ drawing.take 4

def shading : List (DaemonAction (Fin 1)) :=
  List.replicate 4 (.spu true) ++ shaded.map (.write 0) ++ shaded.map (fun _ => .execute) ++ [.record fun t => t == 5,.publish]

def begun : Daemon Int (Fin 1) := .start integers (fun _ _ => ⟨fun _ => false,0⟩) fun _ _ => ⟨0,0,none⟩

def afterwards (actions : List (DaemonAction (Fin 1))) : Daemon Int (Fin 1) := actions.foldl (act integers) begun

-- The client frees the buffer before its triangle is drawn, and the server looks at the counts.
def freed : List (DaemonAction (Fin 1)) := opening.map .server ++ shading ++ (freeing (blockId 16 7) :: goesOn 6).map .server

-- In every run of clients, server and SPUs in which no buffer is given back that is still
-- in use, each buffer outlives its uses.
theorem buffers_outlive {F ι : Type} [DecidableEq ι] {spu : PrimarySpu F} {s : Daemon F ι}
    (path : Runs.Reached (Begun spu) (Runs.Step (act spu) fun s a => s.legal a ∧ s.careful spu a) s) : Outlives s := by
  refine Kept.outlives (Runs.Reached.invariant Kept ?_ ?_ path)
  · rintro _ ⟨rings,shaders,rfl⟩
    exact start_kept rings shaders
  · rintro _ _ kept ⟨a,⟨legal,careful⟩,rfl⟩
    exact kept.act legal careful

-- Another buffer is freed before, and the render SPU draws the triangle.
theorem buffers_outlive_drawn : Outlives (afterwards (
    (opening ++ allocates false 4096 8 131072).map .server ++ [.server (freeing (blockId 17 7))] ++ (goesOn 9).map .server ++ shading ++
      List.replicate 5 (.run 8192 0))) := by
  apply buffers_outlive
  unfold afterwards
  rw [List.foldl_append,List.foldl_append,List.foldl_append,List.foldl_append]
  have careful (actions : List (DaemonAction (Fin 1))) (s : Daemon Int (Fin 1))
      (admits : Runs.Admits (act integers) (fun s a => s.legal a ∧ s.cautious integers a = true) s actions) :
      Runs.Admits (act integers) (fun s a => s.legal a ∧ s.careful integers a) s actions :=
    admits.imp fun _ _ both => ⟨both.1,cautious_careful both.2⟩
  refine Runs.Reached.follow (Runs.Reached.follow (Runs.Reached.follow (Runs.Reached.follow (Runs.Reached.follow (.start ⟨_,_,rfl⟩)
    (careful _ _ ?_)) ⟨⟨?_,fun a _ => served_unused _ _ _ a⟩,trivial⟩) (careful _ _ ?_)) (careful _ _ ?_)) (careful _ _ ?_)
  all_goals decide +kernel

theorem buffer_unmapped : ¬∀ s : Daemon Int (Fin 1), Runs.Reached (Begun integers) (Runs.Step (act integers) legal) s → Outlives s := by
  intro claim
  have path : Runs.Reached (Begun integers) (Runs.Step (act integers) legal) (afterwards freed) :=
    Runs.Reached.follow (.start ⟨_,_,rfl⟩) (by decide +kernel)
  have unmapping : (afterwards freed).ledger.task.unmapping =
      some ⟨65536,65536,blockId 16 7,7,false,none,none,true⟩ := by decide +kernel
  refine (claim _ path).unmapped _ unmapping (.inl ⟨8192,0,⟨0,0,?_,?_,?_⟩,?_⟩)
  · decide +kernel
  · decide +kernel
  · intro m none
    obtain rfl := Nat.le_zero.mp none
    decide +kernel
  · decide +kernel

end Daemon
end Spugl
