import Spugl.Runs
import Spugl.Allocations

namespace Spugl

-- What a client writes to its socket.
inductive Message where
  | alloc (commandQueue : Bool)
  | free (id : Nat)
  | flush (id call : Nat)
  deriving DecidableEq

-- And what it reads there. The call that a reply answers is history: the reply itself
-- carries nothing.
inductive Answer where
  | allocated (id : Option Nat)
  | flushed (call : Nat)
  deriving DecidableEq

-- What the library is in. glFlush first writes GL_SYNC and GL_FLUSH and then its request.
inductive Waiting where
  | nothing
  | allocating (commandQueue : Bool)
  | appended (id call : Nat)
  | flushing (id call : Nat)
  deriving DecidableEq

-- A client with the buffers in its list, and its socket in both directions.
structure Client where
  buffers : List (Nat × Bool)
  waiting : Waiting
  requests : List Message
  answers : List Answer

def Client.fresh : Client := ⟨[],.nothing,[],[]⟩

-- A call of glFlush, by its number. A reply is kept with the call whose GL_FLUSH set
-- the flag that it was sent for, if there was one.
structure FlushCall where
  client : Nat
  received : Bool
  executed : Bool
  replies : List (Option Nat)

-- The server, the lock that the primary SPU holds, the GL_FLUSHes in the queue of each
-- slot that are not executed, and the clients by their sockets. A socket stays open in
-- the server: handleDisconnect overwrites the fd, so main has nothing to close.
structure Handshake where
  table : Nat → Int
  list : ConnectionList
  spu : Option Nat
  memory : Nat → List Nat
  accepted : List Nat
  clients : Nat → Client
  made : Nat
  calls : Nat → FlushCall

-- Memory that open, lseek, write and mmap gave for a request.
structure Mapped where
  buffer : Nat
  size : Nat
  fd : Nat

namespace Handshake
open Function

def start : Handshake where
  table := fun _ => -1
  list := ⟨[],[]⟩
  spu := none
  memory := fun _ => []
  accepted := []
  clients := fun _ => .fresh
  made := 0
  calls := fun _ => ⟨0,false,false,[]⟩

def connection (fd : Nat) (k : Connection) : Bool := k.fd == some fd

def connected (s : Handshake) (fd : Nat) : Bool := s.list.first.any (connection fd)

def onClient (s : Handshake) (fd : Nat) (f : Client → Client) : Handshake :=
  {s with clients := update s.clients fd (f (s.clients fd))}

def onCall (s : Handshake) (n : Nat) (f : FlushCall → FlushCall) : Handshake := {s with calls := update s.calls n (f (s.calls n))}

def onAllocations (s : Handshake) (fd : Nat) (allocations : List Allocation) : Handshake :=
  let first := (updateFirst (connection fd) (fun k => {k with allocations := allocations}) s.list.first).getD s.list.first
  {s with list := {s.list with first := first}}

def answer (s : Handshake) (fd : Nat) (a : Answer) : Handshake := s.onClient fd fun c => {c with answers := c.answers ++ [a]}

-- The first negative entry, in words of four as in blockManagementAllocateBlock.
def blockManagementAllocateBlock (s : Handshake) (commandQueue : Bool) : Option Nat :=
  (blockRange commandQueue).find? fun i => decide (s.table i < 0)

def allocateBuffer (s : Handshake) (fd : Nat) (own : List Allocation) (commandQueue : Bool) (mapped : Option Mapped) (key : Nat) : Handshake :=
  match mapped,s.blockManagementAllocateBlock commandQueue with
  | some m,some i =>
    let n : Allocation := ⟨m.buffer,m.size,blockId i key,m.fd,commandQueue,none,none,false⟩
    let s := {s with table := update s.table i 1,memory := update s.memory i []}
    (s.onAllocations fd (n :: own)).answer fd (.allocated (some n.id))
  | _,_ => s.answer fd (.allocated none)

def freeBuffer (s : Handshake) (fd : Nat) (own : List Allocation) (id : Nat) : Handshake :=
  match updateFirst (disposable id) .dispose own with
  | some own => {s with table := update s.table (blockSlot id) (s.table (blockSlot id) - 1)}.onAllocations fd own
  | none => s

def flushable (id : Nat) (a : Allocation) : Bool := a.id == id && a.commandQueue

def flushQueue (s : Handshake) (fd : Nat) (own : List Allocation) (id n : Nat) : Handshake :=
  match updateFirst (flushable id) (fun a => {a with flushWait := some n}) own with
  | some own => s.onAllocations fd own
  | none => (s.onCall n fun c => {c with replies := c.replies ++ [none]}).answer fd (.flushed n)

def handleConnectionData (s : Handshake) (fd : Nat) (own : List Allocation) (mapped : Option Mapped) (key : Nat) : Message → Handshake
  | .alloc commandQueue => s.allocateBuffer fd own commandQueue mapped key
  | .free id => s.freeBuffer fd own id
  | .flush id n => (s.onCall n fun c => {c with received := true}).flushQueue fd own id n

-- blockManagementBlockCountDispose for all that it was not called for.
def disposeCounts (table : Nat → Int) (own : List Allocation) : Nat → Int :=
  own.foldl (fun table a => if a.countDisposed then table else update table a.slot (table a.slot - 1)) table

def handleDisconnect (s : Handshake) (fd : Nat) : Handshake :=
  match s.list.first.find? (connection fd) with
  | some k =>
    { s with
      table := disposeCounts s.table k.allocations
      list :=
        { first := s.list.first.filter fun k => !connection fd k
          firstClosed := ⟨none,k.allocations.map .dispose⟩ :: s.list.firstClosed } }
  | none => s

-- The flags behind processOutstandingRequests, and what it sends.
def acknowledge (a : Allocation) : Allocation :=
  if a.flushWait.isSome && a.flushDone.isSome then {a with flushWait := none,flushDone := none} else a

def acknowledged (fd : Option Nat) (a : Allocation) : List (Nat × Nat × Nat) :=
  match fd,a.flushWait,a.flushDone with
  | some fd,some n,some m => [(fd,n,m)]
  | _,_,_ => []

-- blockManagementTryFree comes behind the acknowledgement.
def processOutstandingRequests (fd : Option Nat) (table : Nat → Int) : List Allocation → (Nat → Int) × List Allocation × List (Nat × Nat × Nat)
  | [] => (table,[],[])
  | del :: rest =>
    if 0 < table del.slot then
      let (table,rest,sent) := processOutstandingRequests fd table rest
      (table,acknowledge del :: rest,acknowledged fd del ++ sent)
    else
      let (table,rest,sent) := processOutstandingRequests fd (update table del.slot (-1)) rest
      (table,rest,acknowledged fd del ++ sent)

def processConnections (table : Nat → Int) : List Connection → (Nat → Int) × List Connection × List (Nat × Nat × Nat)
  | [] => (table,[],[])
  | k :: rest =>
    let (table,own,sent) := processOutstandingRequests k.fd table k.allocations
    let (table,rest,more) := processConnections table rest
    (table,⟨k.fd,own⟩ :: rest,sent ++ more)

def deliver (s : Handshake) (sent : List (Nat × Nat × Nat)) : Handshake :=
  { s with
    clients := fun fd => {s.clients fd with
      answers := (s.clients fd).answers ++ (sent.filter fun r => r.1 == fd).map fun r => .flushed r.2.1}
    calls := fun n => {s.calls n with replies := (s.calls n).replies ++ (sent.filter fun r => r.2.1 == n).map fun r => some r.2.2} }

def sweep (s : Handshake) : Handshake :=
  let (table,first,sent) := processConnections s.table s.list.first
  let (table,closed,more) := processConnections table s.list.firstClosed
  {s with table := table,list := ⟨first,closed.filter fun k => !k.allocations.isEmpty⟩}.deliver (sent ++ more)

-- The callback for the GL_FLUSH of call n, executed from the queue in the slot.
def flushed (slot : Nat) (a : Allocation) : Bool := a.slot == slot && a.commandQueue

def receivedFlush (slot n : Nat) : List Connection → List Connection
  | [] => []
  | k :: rest =>
    match updateFirst (flushed slot) (fun a => {a with flushDone := some n}) k.allocations with
    | some own => {k with allocations := own} :: rest
    | none => k :: receivedFlush slot n rest

inductive Act where
  | accept (fd : Nat)
  | allocate (fd : Nat) (commandQueue : Bool)
  | free (fd id : Nat)
  | glFlush (fd id : Nat)
  | spuglFlush (fd : Nat)
  | recv (fd : Nat)
  | handle (fd : Nat) (mapped : Option Mapped) (key : Nat)
  | disconnect (fd : Nat)
  | sweep
  | lock (slot : Nat)
  | execute
  | unlock

-- A client that was allowed to go on reads its reply.
def read (c : Client) : Client :=
  match c.waiting,c.answers with
  | .allocating commandQueue,.allocated id :: rest =>
    {c with buffers := (id.toList.map (·,commandQueue)) ++ c.buffers,waiting := .nothing,answers := rest}
  | .flushing _ _,_ :: rest => {c with waiting := .nothing,answers := rest}
  | _,_ => c

def act (s : Handshake) : Act → Handshake
  | .accept fd => if fd ∈ s.accepted then s else
      {s with accepted := fd :: s.accepted,list := {s.list with first := ⟨some fd,[]⟩ :: s.list.first}}
  | .allocate fd commandQueue => if s.connected fd ∧ (s.clients fd).waiting = .nothing then
      s.onClient fd fun c => {c with waiting := .allocating commandQueue,requests := c.requests ++ [.alloc commandQueue]}
    else s
  | .free fd id => if s.connected fd ∧ (s.clients fd).waiting = .nothing ∧ id ∈ (s.clients fd).buffers.map Prod.fst then
      s.onClient fd fun c =>
        {c with buffers := c.buffers.filter fun b => b.1 != id,requests := c.requests ++ [.free id]}
    else s
  | .glFlush fd id => if s.connected fd ∧ (s.clients fd).waiting = .nothing ∧ (id,true) ∈ (s.clients fd).buffers then
      { s.onClient fd fun c => {c with waiting := .appended id s.made} with
        memory := update s.memory (blockSlot id) (s.memory (blockSlot id) ++ [s.made])
        made := s.made + 1
        calls := update s.calls s.made ⟨fd,false,false,[]⟩ }
    else s
  | .spuglFlush fd =>
    match (s.clients fd).waiting with
    | .appended id n => if s.connected fd then
        s.onClient fd fun c => {c with waiting := .flushing id n,requests := c.requests ++ [.flush id n]}
      else s
    | _ => s
  | .recv fd => if s.connected fd then s.onClient fd read else s
  | .handle fd mapped key =>
    match s.list.first.find? (connection fd),(s.clients fd).requests with
    | some k,request :: rest =>
      (s.onClient fd fun c => {c with requests := rest}).handleConnectionData fd k.allocations mapped key request
    | _,_ => s
  | .disconnect fd => s.handleDisconnect fd
  | .sweep => s.sweep
  | .lock slot => if s.spu = none ∧ slot < commandBuffers ∧ 0 < s.table slot then
      {s with table := update s.table slot (s.table slot + 1),spu := some slot}
    else s
  | .execute =>
    match s.spu with
    | some slot =>
      match s.memory slot with
      | n :: rest =>
        { s.onCall n fun c => {c with executed := true} with
          memory := update s.memory slot rest
          list := {s.list with first := receivedFlush slot n s.list.first} }
      | [] => s
    | none => s
  | .unlock =>
    match s.spu with
    | some slot => {s with table := update s.table slot (s.table slot - 1),spu := none}
    | none => s

def Reached : Handshake → Prop := Runs.Reached (· = start) (Runs.Step act fun _ _ => True)

end Handshake
end Spugl
