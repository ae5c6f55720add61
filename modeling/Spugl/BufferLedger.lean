import Spugl.Runs
import Spugl.Allocations

namespace Spugl

-- The four bytes from i on, and a store of four. The tables start at 128-byte
-- boundaries, so that a word is in one cache line.
def lwarx (table : Nat → Int) (i : Nat) : Nat → Int := fun j => table (i + j)

def stwcx (table : Nat → Int) (i : Nat) (word : Nat → Int) : Nat → Int :=
  fun k => if i ≤ k ∧ k < i + 4 then word (k - i) else table k

-- An allocation that has been asked for, by the connection's place in the list.
structure BlockRequest where
  connection : Nat
  commandQueue : Bool
  size : Nat

-- A pointer into the lists.
structure Place where
  closed : Bool
  connection : Nat
  allocation : Nat

-- Where the server is. `dispose` goes back to the main loop or into handleDisconnect.
inductive ServerTask where
  | main
  | opened (r : BlockRequest) (fd : Nat)
  | extended (r : BlockRequest) (fd : Nat)
  | search (r : BlockRequest) (fd memory i : Nat)
  | store (r : BlockRequest) (fd memory i j : Nat) (word : Nat → Int)
  | unmapFailed (fd memory : Nat)
  | closeFailed (fd : Nat)
  | failed
  | dispose (id : Nat) (resume : Option (Nat × Nat))
  | disposeStore (id : Nat) (word : Nat → Int) (resume : Option (Nat × Nat))
  | disconnect (connection allocation : Nat)
  | sweep (p : Place)
  | tryFree (del : Allocation) (p : Place)
  | tryFreeStore (del : Allocation) (word : Nat → Int) (p : Place)
  | unmap (del : Allocation) (p : Place)
  | close (fd : Nat) (p : Place)

-- Where the primary SPU is in process_queues, with its copy of the line.
inductive SpuTask where
  | sleep
  | retry (current : Nat)
  | scan (current : Nat) (buf : Nat → Int)
  | lock (current : Nat) (buf : Nat → Int)
  | process (current : Nat)
  | retryUnlock (current : Nat)
  | unlock (current : Nat) (buf : Nat → Int)

def SpuTask.holds : SpuTask → Option Nat
  | .process current | .retryUnlock current | .unlock current _ => some current
  | _ => none

-- What an allocation found when it began, for comparison.
structure Snapshot where
  list : ConnectionList
  mapped : List Nat
  files : List Nat
  ea_table : Nat → Nat
  counts : Nat → Int

-- The lock table, the lists, what mmap has mapped and what files are open, and both
-- programs with their reservations. `maps` and `unmaps` are all calls so far.
structure Ledger where
  table : Nat → Int
  ea_table : Nat → Nat
  list : ConnectionList
  mapped : List Nat
  files : List Nat
  maps : List Nat
  unmaps : List Nat
  task : ServerTask
  reserved : Option Nat
  spu : SpuTask
  spuReserved : Bool
  next_queue : Nat
  stopat : Nat
  began : Snapshot

inductive Event where
  | connect (fd : Nat)
  | alloc (connection : Nat) (commandQueue : Bool) (size : Nat)
  | free (connection id : Nat)
  | disconnect (connection : Nat)
  | sweep

-- What comes from outside: the next event, what open and mmap give, whether lseek and
-- write succeed or nothing disturbs a store, and rand().
structure Choice where
  event : Event
  fd : Option Nat
  memory : Option Nat
  ok : Bool
  key : Nat

namespace Ledger
open Function

def start : Ledger where
  table := fun _ => -1
  ea_table := fun _ => 0
  list := ⟨[],[]⟩
  mapped := []
  files := []
  maps := []
  unmaps := []
  task := .main
  reserved := none
  spu := .sleep
  spuReserved := false
  next_queue := 0
  stopat := 0
  began := ⟨⟨[],[]⟩,[],[],fun _ => 0,fun _ => -1⟩

def locks (s : Ledger) : Nat → Int := lockOf s.spu.holds

def snapshot (s : Ledger) : Snapshot := ⟨s.list,s.mapped,s.files,s.ea_table,fun i => s.table i - s.locks i⟩

def blockStart (commandQueue : Bool) : Nat := if commandQueue then 0 else commandBuffers

def blockEnd (commandQueue : Bool) : Nat := if commandQueue then commandBuffers else dataBuffers

def connections (s : Ledger) (closed : Bool) : List Connection := if closed then s.list.firstClosed else s.list.first

def onConnections (s : Ledger) (closed : Bool) (l : List Connection) : Ledger :=
  {s with list := if closed then {s.list with firstClosed := l} else {s.list with first := l}}

-- A store to the first line takes the SPU's reservation away.
def commit (s : Ledger) (i : Nat) (word : Nat → Int) : Ledger :=
  {s with table := stwcx s.table i word,reserved := none,spuReserved := s.spuReserved && !decide (i < 128)}

def handle (s : Ledger) (ch : Choice) : Ledger :=
  match ch.event with
  | .connect fd => s.onConnections false (⟨some fd,[]⟩ :: s.list.first)
  | .alloc connection commandQueue size => if connection < s.list.first.length then
      match ch.fd with
      | some fd => {s with files := fd :: s.files,task := .opened ⟨connection,commandQueue,size⟩ fd,began := s.snapshot}
      | none => {s with task := .failed,began := s.snapshot}
    else s
  | .free connection id =>
    match s.list.first[connection]? with
    | some k =>
      match updateFirst (disposable id) .dispose k.allocations with
      | some own => {s.onConnections false (s.list.first.set connection {k with allocations := own}) with task := .dispose id none}
      | none => s
    | none => s
  | .disconnect connection => if connection < s.list.first.length then {s with task := .disconnect connection 0} else s
  | .sweep => {s with task := .sweep ⟨false,0,0⟩}

-- allocateBuffer and blockManagementAllocateBlock
def allocateBuffer (s : Ledger) (ch : Choice) : ServerTask → Ledger
  | .opened r fd => {s with task := if ch.ok then .extended r fd else .closeFailed fd}
  | .extended r fd =>
    match ch.memory with
    | some memory =>
      { s with
        mapped := memory :: s.mapped
        maps := memory :: s.maps
        task := .search r fd memory (blockStart r.commandQueue) }
    | none => {s with task := .closeFailed fd}
  | .search r fd memory i => if i < blockEnd r.commandQueue then
      let word := lwarx s.table i
      match [0,1,2,3].find? fun j => decide (word j < 0) with
      | some j => {s with ea_table := update s.ea_table (i + j) memory,reserved := some i,task := .store r fd memory i j word}
      | none => {s with reserved := some i,task := .search r fd memory (i + 4)}
    else {s with task := .unmapFailed fd memory}
  | .store r fd memory i j word => if s.reserved = some i ∧ ch.ok then
      match s.list.first[r.connection]? with
      | some k =>
        let n : Allocation := ⟨memory,r.size,blockId (i + j) ch.key,fd,r.commandQueue,none,none,false⟩
        {(s.commit i (update word j 1)).onConnections false (s.list.first.set r.connection {k with allocations := n :: k.allocations}) with
          task := .main}
      | none => s
    else {s with reserved := none,task := .search r fd memory i}
  | .unmapFailed fd memory => {s with mapped := s.mapped.erase memory,unmaps := memory :: s.unmaps,task := .closeFailed fd}
  | .closeFailed fd => {s with files := s.files.erase fd,task := .failed}
  | _ => s

def wordOf (id : Nat) : Nat := blockSlot id / 4 * 4

def byteOf (id : Nat) : Nat := blockSlot id % 4

def resumed : Option (Nat × Nat) → ServerTask
  | some (connection,allocation) => .disconnect connection (allocation + 1)
  | none => .main

-- blockManagementBlockCountDispose
def blockCountDispose (s : Ledger) (ch : Choice) : ServerTask → Ledger
  | .dispose id resume => {s with reserved := some (wordOf id),task := .disposeStore id (lwarx s.table (wordOf id)) resume}
  | .disposeStore id word resume => if s.reserved = some (wordOf id) ∧ ch.ok then
      {s.commit (wordOf id) (update word (byteOf id) (word (byteOf id) - 1)) with task := resumed resume}
    else {s with reserved := none,task := .dispose id resume}
  | _ => s

def handleDisconnect (s : Ledger) (connection allocation : Nat) : Ledger :=
  match s.list.first[connection]? with
  | some k =>
    match k.allocations[allocation]? with
    | some a => if a.countDisposed then {s with task := .disconnect connection (allocation + 1)} else
        {s.onConnections false (s.list.first.set connection {k with allocations := k.allocations.set allocation a.dispose}) with
          task := .dispose a.id (some (connection,allocation))}
    | none =>
      { s with
        list := ⟨s.list.first.eraseIdx connection,⟨none,k.allocations⟩ :: s.list.firstClosed⟩
        task := .main }
  | none => {s with task := .main}

-- The two loops of main over processOutstandingRequests, and blockManagementTryFree.
def processOutstandingRequests (s : Ledger) (ch : Choice) : ServerTask → Ledger
  | .sweep p =>
    match (s.connections p.closed)[p.connection]? with
    | some k =>
      match k.allocations[p.allocation]? with
      | some del => {s with task := .tryFree del p}
      | none => if p.closed ∧ k.allocations = [] then
          {s.onConnections p.closed ((s.connections p.closed).eraseIdx p.connection) with task := .sweep ⟨p.closed,p.connection,0⟩}
        else {s with task := .sweep ⟨p.closed,p.connection + 1,0⟩}
    | none => {s with task := if p.closed then .main else .sweep ⟨true,0,0⟩}
  | .tryFree del p =>
    let word := lwarx s.table (wordOf del.id)
    if 0 < word (byteOf del.id) then {s with reserved := some (wordOf del.id),task := .sweep {p with allocation := p.allocation + 1}}
    else {s with reserved := some (wordOf del.id),task := .tryFreeStore del word p}
  | .tryFreeStore del word p => if s.reserved = some (wordOf del.id) ∧ ch.ok then
      match (s.connections p.closed)[p.connection]? with
      | some k =>
        {(s.commit (wordOf del.id) (update word (byteOf del.id) (-1))).onConnections p.closed
          ((s.connections p.closed).set p.connection {k with allocations := k.allocations.eraseIdx p.allocation}) with task := .unmap del p}
      | none => s
    else {s with reserved := none,task := .tryFree del p}
  | .unmap del p => {s with mapped := s.mapped.erase del.buffer,unmaps := del.buffer :: s.unmaps,task := .close del.fd p}
  | .close fd p => {s with files := s.files.erase fd,task := .sweep p}
  | _ => s

def server (s : Ledger) (ch : Choice) : Ledger :=
  match s.task with
  | .main => s.handle ch
  | .failed => {s with task := .main}
  | .dispose id resume => s.blockCountDispose ch (.dispose id resume)
  | .disposeStore id word resume => s.blockCountDispose ch (.disposeStore id word resume)
  | .disconnect connection allocation => s.handleDisconnect connection allocation
  | .sweep p => s.processOutstandingRequests ch (.sweep p)
  | .tryFree del p => s.processOutstandingRequests ch (.tryFree del p)
  | .tryFreeStore del word p => s.processOutstandingRequests ch (.tryFreeStore del word p)
  | .unmap del p => s.processOutstandingRequests ch (.unmap del p)
  | .close fd p => s.processOutstandingRequests ch (.close fd p)
  | task => s.allocateBuffer ch task

-- PUTLLC of the line, with one byte changed.
def putllc (s : Ledger) (buf : Nat → Int) : Ledger :=
  { s with
    table := fun i => if i < 128 then buf i else s.table i
    spuReserved := false
    reserved := s.reserved.filter fun i => !decide (i < 128) }

def next (s : Ledger) (current : Nat) (buf : Nat → Int) : SpuTask :=
  let current := (current + 1) % commandBuffers
  if current = s.stopat then .sleep else .scan current buf

def process_queues (s : Ledger) (ok : Bool) : Ledger :=
  match s.spu with
  | .sleep => {s with spu := .retry s.next_queue,stopat := s.next_queue}
  | .retry current => {s with spu := .scan current s.table,spuReserved := true}
  | .scan current buf => {s with spu := if 0 < buf current then .lock current buf else s.next current buf}
  | .lock current buf => if s.spuReserved ∧ ok then
      {s.putllc (update buf current (buf current + 1)) with spu := .process current}
    else {s with spu := .retry current,spuReserved := false}
  | .process current => {s with spu := .retryUnlock current,next_queue := (current + 1) % commandBuffers}
  | .retryUnlock current => {s with spu := .unlock current s.table,spuReserved := true}
  | .unlock current buf => if s.spuReserved ∧ ok then
      {s.putllc (update buf current (buf current - 1)) with spu := s.next current (update buf current (buf current - 1))}
    else {s with spu := .retryUnlock current,spuReserved := false}

inductive Act where
  | server (ch : Choice)
  | spu (ok : Bool)

def act (s : Ledger) : Act → Ledger
  | .server ch => s.server ch
  | .spu ok => s.process_queues ok

-- The system gives file numbers and addresses that are not in use.
def legal (s : Ledger) : Act → Prop
  | .server ch => (∀ fd ∈ ch.fd, fd ∉ s.files) ∧ ∀ memory ∈ ch.memory, memory ∉ s.mapped
  | .spu _ => True

instance (s : Ledger) (a : Act) : Decidable (s.legal a) :=
  match a with
  | .server ch => inferInstanceAs (Decidable ((∀ fd ∈ ch.fd, fd ∉ s.files) ∧ ∀ memory ∈ ch.memory, memory ∉ s.mapped))
  | .spu _ => .isTrue trivial

def Reached : Ledger → Prop := Runs.Reached (· = start) (Runs.Step act legal)

end Ledger
end Spugl
