import Spugl.FixedSizes
import Spugl.SyncDrained
import Spugl.RenderableSwitch
import Spugl.BufferChanges

namespace Spugl

-- What a record of a triangle buffer has of its shader. `named` is history: the id in
-- the command that selected it.
structure ShaderUse where
  shader_ea : Nat
  shader_length : Nat
  named : Option Nat
  deriving DecidableEq

-- The buffer that a command reads or writes: its id, and the part from offset on.
def Request.names : Request → Option (Nat × Nat × Nat)
  | .poke bufid offset _ => some (bufid,offset,4)
  | .selectPixelShader bufid offset length => some (bufid,offset,length)
  | _ => none

def SpuTask.processing : SpuTask → Option Nat
  | .process current => some current
  | _ => none

def ServerTask.unmapping : ServerTask → Option Allocation
  | .unmap del _ => some del
  | _ => none

def Inside (x : Nat × Nat) (ea : Nat) : Prop := x.1 ≤ ea ∧ ea < x.1 + x.2

instance (x : Nat × Nat) (ea : Nat) : Decidable (Inside x ea) := inferInstanceAs (Decidable (_ ∧ _))

def ShaderUse.carries (u : ShaderUse) (x : Nat × Nat) : Prop := u.shader_ea ≠ 0 ∧ Inside x u.shader_ea

instance (u : ShaderUse) (x : Nat × Nat) : Decidable (u.carries x) := inferInstanceAs (Decidable (_ ∧ _))

namespace Pipeline

-- The records from the pointer of a chunk on.
def Unconsumed {ι : Type} (s : Pipeline ι) (offset : Nat) : Prop :=
  ∃ i n, s.system.line.chunkNext i ≠ .free ∧
    chase (fun p => (s.system.ring p).next_triangle) n (s.system.line.chunkTriangle i) = offset ∧
    ∀ m, m ≤ n → chase (fun p => (s.system.ring p).next_triangle) m (s.system.line.chunkTriangle i) ≠ s.system.line.endTriangle

end Pipeline

-- spugld: the server with its lists and tables, the commands that its clients have written
-- to each queue, the primary SPU, and the render SPUs of each renderable, by the address of
-- its cache line. `shaders` are the shader fields of the records. `drawn` is the triangle
-- that is being written to a buffer. `selected` is history: the id in each Context's last
-- select command, until that buffer is freed.
structure Daemon (F ι : Type) where
  ledger : Ledger
  queue : Nat → List Request
  globals : Globals F Nat
  contexts : Nat → Context F
  pipelines : Nat → Pipeline ι
  shaders : Nat → Nat → ShaderUse
  drawn : Option (Nat × ShaderUse)
  selected : Nat → Option Nat

inductive DaemonAction (ι : Type) where
  | server (ch : Choice)
  | spu (ok : Bool)
  | write (slot : Nat) (request : Request)
  | execute
  | record (covers : Nat → Bool)
  | publish
  | run (line : Nat) (k : ι)

namespace Daemon
open Function

section
variable {F ι : Type} [DecidableEq ι] (spu : PrimarySpu F) (s : Daemon F ι)

omit [DecidableEq ι] in
def start (rings : Nat → Nat → TriangleRecord Nat) (shaders : Nat → Nat → ShaderUse) : Daemon F ι where
  ledger := .start
  queue := fun _ => []
  globals := .start spu
  contexts := fun _ => .clear spu
  pipelines := fun line => .start (rings line)
  shaders := shaders
  drawn := none
  selected := fun _ => none

-- A queue that is unmapped takes its commands with it.
def server (ch : Choice) : Daemon F ι :=
  { s with
    ledger := s.ledger.act (.server ch)
    queue := match s.ledger.task.unmapping with
      | some del => update s.queue del.slot []
      | none => s.queue
    selected := fun slot => (s.selected slot).filter fun id => !(s.ledger.disposes ch).any fun a => a.id == id }

def room (slot : Nat) (request : Request) : Bool :=
  let line := (s.pipelines (s.contexts slot).renderableCacheLine).system.line
  match request with
  | .glSync => !line.stillProcessingQueue
  | _ => line.getTriangleBuffer.isSome

-- The table of addresses is the server's.
def primary : PrimarySpu F := {spu with memory_table := s.ledger.ea_table}

def handled (slot : Nat) (request : Request) : Handled F Nat :=
  Spugl.execute (s.primary spu) s.globals slot (s.contexts slot) (s.room slot request) request

-- getTriangleBuffer drops what is held for another Context.
def granted (slot : Nat) (request : Request) : Nat → Pipeline ι :=
  if takes (s.contexts slot) request && (s.globals.kept slot).isNone then
    let line := (s.contexts slot).renderableCacheLine
    fun l => if l = line ∧ line ≠ 0 then ((s.pipelines l).act .abandon).act .getTriangleBuffer else (s.pipelines l).act .abandon
  else s.pipelines

-- The next command of the queue that process_queues has locked.
def next : Option (Nat × Request × List Request) :=
  match s.ledger.spu.processing with
  | some slot =>
    match s.queue slot with
    | request :: rest => some (slot,request,rest)
    | [] => none
  | none => none

-- One command of process_queue, up to the two stores of writeTriangleBuffer.
def execute : Daemon F ι :=
  match s.next with
  | some (slot,request,rest) =>
    let done := s.handled spu slot request
    { s with
      globals := done.globals
      contexts := update s.contexts slot done.context
      pipelines := s.granted slot request
      queue := if done.stalled then s.queue else update s.queue slot rest
      drawn := done.drawn.map fun d => (d.renderableCacheLine,⟨d.shader_ea,d.shader_length,s.selected slot⟩)
      selected := match request with
        | .selectPixelShader bufid _ _ => update s.selected slot (some bufid)
        | _ => s.selected }
  | none => s

def record (covers : Nat → Bool) : Daemon F ι :=
  match s.drawn with
  | some (line,u) =>
    match (s.pipelines line).producer with
    | .granted g =>
      { s with
        pipelines := update s.pipelines line ((s.pipelines line).act (.write covers))
        shaders := update s.shaders line (update (s.shaders line) g.offset u) }
    | _ => s
  | none => s

def publish : Daemon F ι :=
  match s.drawn with
  | some (line,_) =>
    match (s.pipelines line).producer with
    | .written _ => {s with pipelines := update s.pipelines line ((s.pipelines line).act .publish),drawn := none}
    | _ => s
  | none => s

def act (s : Daemon F ι) : DaemonAction ι → Daemon F ι
  | .server ch => s.server ch
  | .spu ok => {s with ledger := s.ledger.act (.spu ok)}
  | .write slot request => {s with queue := update s.queue slot (s.queue slot ++ [request])}
  | .execute => s.execute spu
  | .record covers => s.record covers
  | .publish => s.publish
  | .run line k => {s with pipelines := update s.pipelines line ((s.pipelines line).act (.run k))}

-- A client writes to a queue that it has. The primary SPU is one program: a command ends
-- before the next, and process_queue before the lock is given back.
def legal (s : Daemon F ι) : DaemonAction ι → Prop
  | .server ch => s.ledger.legal (.server ch) ∧ s.ledger.mapsApart (.server ch)
  | .spu _ => s.ledger.spu.processing.isSome = true → s.drawn = none
  | .write slot _ => ∃ q ∈ s.ledger.list.allocations, q.commandQueue = true ∧ q.countDisposed = false ∧ q.slot = slot
  | .execute => s.drawn = none
  | .record _ | .publish | .run _ _ => True

-- What still needs the memory of an Allocation: a triangle that some chunk has to pass, one
-- that is on its way there, or a command.
def Uses (a : Allocation) : Prop :=
  (∃ line offset, (s.pipelines line).Unconsumed offset ∧ (s.shaders line offset).carries a.range) ∨
  (∃ line u, s.drawn = some (line,u) ∧ u.carries a.range) ∨
  ∃ slot, ∃ request ∈ s.queue slot, ∃ part, request.names = some (a.id,part)

-- The bytes are those of the buffer that was named.
def Hits (id ea bytes : Nat) : Prop :=
  ∃ a ∈ s.ledger.list.allocations, a.id = id ∧ a.buffer ∈ s.ledger.mapped ∧ s.ledger.ea_table a.slot = a.buffer ∧
    a.buffer ≤ ea ∧ ea + bytes ≤ a.buffer + a.size

-- Buffers outlive their uses: nothing is unmapped that is in use, no slot and no memory is
-- given away that is, and each transfer of a shader or a poke is where it was meant to be.
-- A render SPU with a triangle to draw is about to call load_shader.
structure Outlives : Prop where
  unmapped : ∀ del, s.ledger.task.unmapping = some del → ¬s.Uses del
  slots : ∀ slot memory, s.ledger.task.placing = some (slot,memory) → ∀ q, ∀ request ∈ s.queue q, ∀ id part,
    request.names = some (id,part) → blockSlot id ≠ slot
  memory : ∀ x ∈ s.ledger.task.ranges, ∀ line offset, (s.pipelines line).Unconsumed offset → ¬(s.shaders line offset).carries x
  fetched : ∀ line k v triangle window, (s.pipelines line).system.spus k = .rendering v triangle window → v.chunkTriangle ≠ v.endTriangle →
    (s.shaders line v.chunkTriangle).shader_ea = 0 ∨ ∃ id, (s.shaders line v.chunkTriangle).named = some id ∧
      s.Hits id (s.shaders line v.chunkTriangle).shader_ea (s.shaders line v.chunkTriangle).shader_length
  poked : ∀ slot request rest, s.next = some (slot,request,rest) → ∀ id offset bytes, request.names = some (id,offset,bytes) →
    s.Hits id (s.ledger.ea_table (blockSlot id) + offset) bytes

-- No client gives back a buffer that is in use, names one that it does not have or a part
-- outside of it, or draws with the shader of a buffer that has been freed since; and the
-- render SPUs split chunks into slots of their own.
def careful (s : Daemon F ι) : DaemonAction ι → Prop
  | .server ch => ∀ a ∈ s.ledger.disposes ch, ¬s.Uses a
  | .write _ request => ∀ id offset bytes, request.names = some (id,offset,bytes) →
    ∃ a ∈ s.ledger.list.allocations, a.countDisposed = false ∧ a.id = id ∧ offset < a.size ∧ offset + bytes ≤ a.size
  | .execute => ∀ slot request rest, s.next = some (slot,request,rest) →
    completing (s.primary spu) s.globals (s.contexts slot) request = true → (∃ x y z w, request = .clearScreen x y z w) ∨
      (s.contexts slot).pixel_shader_ea = 0 ∨ (s.selected slot).isSome = true
  | .run line k => SpareSplits (s.pipelines line).system k
  | .spu _ | .record _ | .publish => True

def Begun (s : Daemon F ι) : Prop := ∃ rings shaders, s = start spu rings shaders

end
end Daemon
end Spugl
