import Spugl.Runs
import Spugl.FlushHandshake

namespace Spugl

-- A Connection that main has made. The number of the client and the socket that accept
-- returned for it are history: the record itself has only an fd.
structure ClientRecord where
  number : Nat
  socket : Nat
  connection : Connection
  deriving DecidableEq

-- What a client can send, by its command. The ones that are only answered carry nothing.
inductive SPUGL_request where
  | getVersion
  | negotiateVersion (major minor : Nat)
  | allocBuffer
  | allocCommandQueue
  | free (id : Nat)
  | flush (id call : Nat)
  | screenSize
  | sync
  | flip
  | registerPixelShader
  | invalid (command : Nat)

-- What ppoll and then recv and allocateBuffer give for one connection. A request is none
-- if it is short.
structure Revents where
  pollin : Bool
  hangup : Bool
  request : Option SPUGL_request
  allocated : Option Allocation

-- An iteration of the main loop: what comes from outside. The table is the one that
-- blockManagementTryFree finds.
structure Iteration where
  woken : Bool
  revents : Nat → Revents
  incoming : Bool
  client_connection : Option Nat
  table : Nat → Int

-- The lists of main, the client sockets that are open, and as history the clients so far,
-- the records that were freed and all that close was called with for a record.
structure Sockets where
  first : List ClientRecord
  firstClosed : List ClientRecord
  connectionCount : Nat
  opened : List Nat
  accepted : Nat
  freed : List ClientRecord
  closes : List (Nat × Option Nat)

namespace Sockets

def start : Sockets where
  first := []
  firstClosed := []
  connectionCount := 0
  opened := []
  accepted := 0
  freed := []
  closes := []

-- VERSION_MAJOR is 0 and VERSION_MINOR is 3. With true the connection is bad.
def handleConnectionData (own : List Allocation) (p : Revents) : List Allocation × Bool :=
  match p.request with
  | none => (own,true)
  | some (.negotiateVersion major minor) => (own,decide (0 < major ∨ (major = 0 ∧ 3 < minor)))
  | some .allocBuffer => ((p.allocated.map fun n => {n with commandQueue := false}).toList ++ own,false)
  | some .allocCommandQueue => ((p.allocated.map fun n => {n with commandQueue := true}).toList ++ own,false)
  | some (.free id) => ((updateFirst (disposable id) .dispose own).getD own,false)
  | some (.flush id call) => ((updateFirst (Handshake.flushable id) (fun a => {a with flushWait := some call}) own).getD own,false)
  | some (.invalid _) => (own,true)
  | some _ => (own,false)

def handleDisconnect (k : ClientRecord) (own : List Allocation) : ClientRecord :=
  {k with connection := ⟨none,own.map .dispose⟩}

-- The walk along list.first in step with the poll array, which is as long as the count was.
def walk (revents : Nat → Revents) : Nat → Nat → List ClientRecord → List ClientRecord → List ClientRecord × List ClientRecord × Nat
  | _,count,[],closed => ([],closed,count)
  | i,count,k :: rest,closed =>
    if i ≤ count then
      let (own,bad) := if (revents i).pollin then handleConnectionData k.connection.allocations (revents i)
        else (k.connection.allocations,false)
      if bad || (revents i).hangup then walk revents (i + 1) (count - 1) rest (handleDisconnect k own :: closed)
      else
        let (rest,closed,count) := walk revents (i + 1) count rest closed
        ({k with connection := ⟨k.connection.fd,own⟩} :: rest,closed,count)
    else (k :: rest,closed,count)

def accept (s : Sockets) : Option Nat → Sockets
  | none => s
  | some fd =>
    { s with
      first := ⟨s.accepted,fd,⟨some fd,[]⟩⟩ :: s.first
      connectionCount := s.connectionCount + 1
      opened := fd :: s.opened
      accepted := s.accepted + 1 }

def events (s : Sockets) (it : Iteration) : Sockets :=
  if it.woken then
    let (first,firstClosed,count) := walk it.revents 1 s.connectionCount s.first s.firstClosed
    let s := {s with first := first,firstClosed := firstClosed,connectionCount := count}
    if it.incoming then s.accept it.client_connection else s
  else s

def processOutstandingRequests (table : Nat → Int) (k : ClientRecord) : ClientRecord :=
  let (_,own,_) := Handshake.processOutstandingRequests k.connection.fd table k.connection.allocations
  {k with connection := ⟨k.connection.fd,own⟩}

def close (opened : List Nat) : Option Nat → List Nat
  | some fd => opened.erase fd
  | none => opened

-- What stays in the list, and what is closed and freed.
def sweepClosed (table : Nat → Int) : List ClientRecord → List ClientRecord × List ClientRecord
  | [] => ([],[])
  | k :: rest =>
    let conn := processOutstandingRequests table k
    let (kept,gone) := sweepClosed table rest
    if conn.connection.allocations.isEmpty then (kept,conn :: gone) else (conn :: kept,gone)

def sweep (s : Sockets) (table : Nat → Int) : Sockets :=
  let (kept,gone) := sweepClosed table s.firstClosed
  { s with
    first := s.first.map (processOutstandingRequests table)
    firstClosed := kept
    opened := gone.foldl (fun opened k => close opened k.connection.fd) s.opened
    freed := s.freed ++ gone
    closes := s.closes ++ gone.map fun k => (k.number,k.connection.fd) }

def act (s : Sockets) (it : Iteration) : Sockets := (s.events it).sweep it.table

def legal (s : Sockets) (it : Iteration) : Prop := ∀ fd, it.client_connection = some fd → fd ∉ s.opened

instance (s : Sockets) (it : Iteration) : Decidable (legal s it) :=
  match h : it.client_connection with
  | none => .isTrue fun fd same => by rw [h] at same; cases same
  | some fd => decidable_of_iff (fd ∉ s.opened) ⟨fun out fd' same => by rw [h] at same; cases same; exact out,fun all => all fd h⟩

-- A record is in one list or freed, and in none twice. It is freed when its allocations are.
structure Filed (s : Sockets) : Prop where
  once : ((s.first ++ s.firstClosed ++ s.freed).map ClientRecord.number).Perm (List.range s.accepted)
  counted : s.connectionCount = s.first.length
  drained : ∀ k ∈ s.freed, k.connection.allocations = []

-- And its socket was closed by then.
structure Lifecycle (s : Sockets) : Prop extends Filed s where
  closed : ∀ k ∈ s.freed, s.closes.count (k.number,some k.socket) = 1
  open_ : s.opened.length = (s.first ++ s.firstClosed).length

-- No closed connection loses the last of its allocations.
def Occupied (s : Sockets) (it : Iteration) : Prop :=
  ∀ k ∈ (s.events it).firstClosed, ∃ a ∈ k.connection.allocations, 0 < it.table a.slot

-- What holds besides in every run: handleDisconnect has put -1 over the fd before close
-- reads it.
structure Leaking (s : Sockets) : Prop extends Filed s where
  marked : ∀ k ∈ s.firstClosed ++ s.freed, k.connection.fd = none
  nothing : ∀ c ∈ s.closes, c.2 = none
  accepted_ : s.opened.length = s.accepted

variable {s : Sockets} {it : Iteration} {table : Nat → Int}

theorem walk_count (revents : Nat → Revents) (i count : Nat) (l closed : List ClientRecord) (enough : l.length ≤ count) :
    (walk revents i count l closed).2.2 + l.length = count + (walk revents i count l closed).1.length := by
  induction l generalizing i count closed with
  | nil => rfl
  | cons k rest ih =>
    simp only [List.length_cons] at enough ⊢
    unfold walk
    split
    · split
      rename_i own bad _
      simp only
      split
      · have after := ih (i + 1) (count - 1) (handleDisconnect k own :: closed) (by omega)
        omega
      · have after := ih (i + 1) count closed (by omega)
        exact congrArg Nat.succ after
    · simp only [List.length_cons]

theorem walk_once (revents : Nat → Revents) (i count : Nat) (l closed : List ClientRecord) :
    (((walk revents i count l closed).1 ++ (walk revents i count l closed).2.1).map ClientRecord.number).Perm
      ((l ++ closed).map ClientRecord.number) := by
  induction l generalizing i count closed with
  | nil => exact .refl _
  | cons k rest ih =>
    unfold walk
    split
    · split
      rename_i own bad _
      simp only
      split
      · have after := ih (i + 1) (count - 1) (handleDisconnect k own :: closed)
        refine after.trans ?_
        simp only [List.map_append,List.map_cons]
        exact List.perm_middle
      · exact (ih (i + 1) count closed).cons k.number
    · exact .refl _

theorem walk_marked (revents : Nat → Revents) (i count : Nat) (l closed : List ClientRecord)
    (marked : ∀ k ∈ closed, k.connection.fd = none) : ∀ k ∈ (walk revents i count l closed).2.1, k.connection.fd = none := by
  induction l generalizing i count closed with
  | nil => exact marked
  | cons k rest ih =>
    unfold walk
    split
    · split
      rename_i own bad _
      simp only
      split
      · apply ih
        intro k' member
        rcases List.mem_cons.mp member with rfl | old
        · rfl
        · exact marked k' old
      · exact ih (i + 1) count closed marked
    · exact marked

theorem accept_leaking (leaking : Leaking s) (fd : Option Nat) : Leaking (s.accept fd) := by
  cases fd with
  | none => exact leaking
  | some fd =>
    refine ⟨⟨?_,?_,leaking.drained⟩,leaking.marked,leaking.nothing,?_⟩
    · simp only [accept,List.cons_append,List.map_cons,List.range_succ]
      exact (leaking.once.cons s.accepted).trans (List.perm_append_singleton _ _).symm
    · simp only [accept,List.length_cons,leaking.counted]
    · simp only [accept,List.length_cons,leaking.accepted_]

theorem events_leaking (leaking : Leaking s) (it : Iteration) : Leaking (s.events it) := by
  unfold events
  split
  · have walked : Leaking { s with
        first := (walk it.revents 1 s.connectionCount s.first s.firstClosed).1
        firstClosed := (walk it.revents 1 s.connectionCount s.first s.firstClosed).2.1
        connectionCount := (walk it.revents 1 s.connectionCount s.first s.firstClosed).2.2 } := by
      refine ⟨⟨?_,?_,leaking.drained⟩,?_,leaking.nothing,leaking.accepted_⟩
      · refine List.Perm.trans ?_ leaking.once
        have walked := walk_once it.revents 1 s.connectionCount s.first s.firstClosed
        simp only [List.map_append] at walked ⊢
        exact walked.append_right _
      · have count := walk_count it.revents 1 s.connectionCount s.first s.firstClosed (Nat.le_of_eq leaking.counted.symm)
        have before := leaking.counted
        simp only
        omega
      · intro k member
        rcases List.mem_append.mp member with closed | freed
        · exact walk_marked _ _ _ _ _ (fun k' old => leaking.marked k' (List.mem_append_left _ old)) k closed
        · exact leaking.marked k (List.mem_append_right _ freed)
    simp only
    split
    · exact accept_leaking walked _
    · exact walked
  · exact leaking

@[simp] theorem processOutstandingRequests_number (k : ClientRecord) : (processOutstandingRequests table k).number = k.number := rfl

@[simp] theorem processOutstandingRequests_fd (k : ClientRecord) :
    (processOutstandingRequests table k).connection.fd = k.connection.fd := rfl

theorem sweepClosed_once (l : List ClientRecord) :
    (((sweepClosed table l).1 ++ (sweepClosed table l).2).map ClientRecord.number).Perm (l.map ClientRecord.number) := by
  induction l with
  | nil => exact .refl _
  | cons k rest ih =>
    simp only [sweepClosed,List.map_cons]
    split
    · rw [List.map_append,List.map_cons,processOutstandingRequests_number]
      rw [List.map_append] at ih
      exact List.perm_middle.trans (ih.cons _)
    · rw [List.cons_append,List.map_cons,processOutstandingRequests_number]
      exact ih.cons _

theorem sweepClosed_marked (l : List ClientRecord) (marked : ∀ k ∈ l, k.connection.fd = none) :
    ∀ k ∈ (sweepClosed table l).1 ++ (sweepClosed table l).2, k.connection.fd = none := by
  induction l with
  | nil => exact marked
  | cons k rest ih =>
    have here := marked k List.mem_cons_self
    have more := ih fun k' old => marked k' (List.mem_cons_of_mem _ old)
    simp only [sweepClosed]
    split
    · intro k' member
      rcases List.mem_cons.mp (List.perm_middle.mem_iff.mp member) with rfl | old
      · exact here
      · exact more k' old
    · intro k' member
      rcases List.mem_cons.mp member with rfl | old
      · exact here
      · exact more k' old

theorem sweepClosed_drained (l : List ClientRecord) : ∀ k ∈ (sweepClosed table l).2, k.connection.allocations = [] := by
  induction l with
  | nil => intro k member; cases member
  | cons k rest ih =>
    simp only [sweepClosed]
    split
    · rename_i none
      intro k' member
      rcases List.mem_cons.mp member with rfl | old
      · exact List.isEmpty_iff.mp none
      · exact ih k' old
    · exact ih

theorem close_marked (gone : List ClientRecord) (marked : ∀ k ∈ gone, k.connection.fd = none) (opened : List Nat) :
    gone.foldl (fun opened k => close opened k.connection.fd) opened = opened := by
  induction gone with
  | nil => rfl
  | cons k rest ih =>
    rw [List.foldl_cons,marked k List.mem_cons_self]
    exact ih fun k' old => marked k' (List.mem_cons_of_mem _ old)

theorem sweep_leaking (leaking : Leaking s) (table : Nat → Int) : Leaking (s.sweep table) := by
  have marked : ∀ k ∈ (sweepClosed table s.firstClosed).1 ++ (sweepClosed table s.firstClosed).2, k.connection.fd = none :=
    sweepClosed_marked s.firstClosed fun k old => leaking.marked k (List.mem_append_left _ old)
  have gone : ∀ k ∈ (sweepClosed table s.firstClosed).2, k.connection.fd = none :=
    fun k member => marked k (List.mem_append_right _ member)
  refine ⟨⟨?_,?_,?_⟩,?_,?_,?_⟩
  · refine List.Perm.trans ?_ leaking.once
    have once : (((sweepClosed table s.firstClosed).1 ++ (sweepClosed table s.firstClosed).2).map ClientRecord.number).Perm
        (s.firstClosed.map ClientRecord.number) := sweepClosed_once s.firstClosed
    simp only [sweep,List.map_append,List.map_map] at once ⊢
    have first : s.first.map (ClientRecord.number ∘ processOutstandingRequests table) = s.first.map ClientRecord.number := rfl
    rw [first,List.append_assoc,List.append_assoc]
    refine List.Perm.append_left _ ?_
    refine List.Perm.trans ?_ (once.append_right _)
    rw [List.append_assoc]
    exact List.Perm.append_left _ List.perm_append_comm
  · simp only [sweep,List.length_map,leaking.counted]
  · intro k member
    rcases List.mem_append.mp member with old | new
    · exact leaking.drained k old
    · exact sweepClosed_drained s.firstClosed k new
  · intro k member
    rcases List.mem_append.mp member with kept | freed
    · exact marked k (List.mem_append_left _ kept)
    · rcases List.mem_append.mp freed with old | new
      · exact leaking.marked k (List.mem_append_right _ old)
      · exact gone k new
  · intro c member
    rcases List.mem_append.mp member with old | new
    · exact leaking.nothing c old
    · obtain ⟨k,freed,rfl⟩ := List.mem_map.mp new
      exact gone k freed
  · simp only [sweep,close_marked _ gone,leaking.accepted_]

theorem act_leaking (leaking : Leaking s) (it : Iteration) : Leaking (s.act it) := sweep_leaking (events_leaking leaking it) it.table

-- What blockManagementTryFree leaves.
theorem processed_none (fd : Option Nat) (table : Nat → Int) (own : List Allocation) :
    (Handshake.processOutstandingRequests fd table own).2.1 = [] ↔ ∀ a ∈ own, table a.slot ≤ 0 := by
  induction own generalizing table with
  | nil => exact ⟨fun _ _ member => (nomatch member),fun _ => rfl⟩
  | cons del rest ih =>
    unfold Handshake.processOutstandingRequests
    split
    · rename_i used
      constructor
      · intro none
        cases none
      · intro all
        have unused := all del List.mem_cons_self
        omega
    · rename_i unused
      simp only
      rw [ih]
      have lowered (a : Allocation) : Function.update table del.slot (-1) a.slot ≤ 0 ↔ table a.slot ≤ 0 := by
        by_cases same : a.slot = del.slot
        · rw [same,Function.update_self]
          omega
        · rw [Function.update_of_ne same]
      simp only [lowered,List.mem_cons,forall_eq_or_imp]
      exact ⟨fun all => ⟨by omega,all⟩,fun all => all.2⟩

theorem sweepClosed_none (l : List ClientRecord) :
    (sweepClosed table l).2 = [] ↔ ∀ k ∈ l, ∃ a ∈ k.connection.allocations, 0 < table a.slot := by
  induction l with
  | nil => exact ⟨fun _ _ member => (nomatch member),fun _ => rfl⟩
  | cons k rest ih =>
    have here : (processOutstandingRequests table k).connection.allocations = [] ↔ ¬∃ a ∈ k.connection.allocations, 0 < table a.slot := by
      simp only [not_exists,not_and,Int.not_lt]
      exact processed_none k.connection.fd table k.connection.allocations
    simp only [sweepClosed,List.isEmpty_iff,List.mem_cons,forall_eq_or_imp]
    split
    · rename_i empty
      exact ⟨fun none => (nomatch none),fun all => absurd all.1 (here.mp empty)⟩
    · rename_i left
      have some_ := not_not.mp fun none => left (here.mpr none)
      exact ih.trans ⟨fun all => ⟨some_,all⟩,fun all => all.2⟩

theorem lifecycle_exactly (leaking : Leaking s) : Lifecycle s ↔ s.freed = [] := by
  constructor
  · intro lifecycle
    apply List.eq_nil_iff_forall_not_mem.mpr
    intro k member
    have once := lifecycle.closed k member
    have inside : (k.number,some k.socket) ∈ s.closes := List.count_pos_iff.mp (by omega)
    exact nomatch leaking.nothing _ inside
  · intro none
    refine ⟨leaking.toFiled,?_,?_⟩
    · intro k member
      rw [none] at member
      cases member
    · have length := leaking.once.length_eq
      rw [none,List.append_nil,List.length_map,List.length_range] at length
      exact leaking.accepted_.trans length.symm

theorem events_freed (s : Sockets) (it : Iteration) : (s.events it).freed = s.freed := by
  unfold events
  split
  · simp only
    split
    · cases it.client_connection <;> rfl
    · rfl
  · rfl

theorem freed_exactly (none : s.freed = []) : (s.act it).freed = [] ↔ Occupied s it := by
  have freed : (s.act it).freed = (sweepClosed it.table (s.events it).firstClosed).2 := by
    simp only [act,sweep,events_freed,none,List.nil_append]
  rw [freed]
  exact sweepClosed_none _

theorem start_leaking : Leaking start where
  once := .refl _
  counted := rfl
  drained := fun _ member => nomatch member
  marked := fun _ member => nomatch member
  nothing := fun _ member => nomatch member
  accepted_ := rfl

-- Each record is where it belongs in every run. The socket of a client is closed with its
-- record only as long as no record is freed.
theorem sockets_closed (iterations : List Iteration) (admits : Runs.Admits act legal start iterations) :
    Runs.Always act Filed start iterations ∧
      (Runs.Always act Lifecycle start iterations ↔ Runs.Admits act Occupied start iterations) := by
  have kept (s : Sockets) (it : Iteration) (leaking : Leaking s) (_ : legal s it) : Leaking (s.act it) := act_leaking leaking it
  have begun : Lifecycle start := (lifecycle_exactly start_leaking).mpr rfl
  refine ⟨Runs.Always.invariant kept (fun _ leaking => leaking.toFiled) start_leaking admits,?_⟩
  refine Runs.Always.exactly kept ?_ start_leaking begun admits
  intro s it leaking lifecycle _
  have none := (lifecycle_exactly leaking).mp lifecycle
  exact (lifecycle_exactly (act_leaking leaking it)).trans (freed_exactly none)

-- A client that connects and one that hangs up, without any allocation.
def calls : Iteration := ⟨true,fun _ => ⟨false,false,none,none⟩,true,some 5,fun _ => -1⟩

def hangsUp : Iteration := ⟨true,fun _ => ⟨false,true,none,none⟩,false,none,fun _ => -1⟩

instance (s : Sockets) (it : Iteration) : Decidable (Occupied s it) :=
  inferInstanceAs (Decidable (∀ k ∈ (s.events it).firstClosed, ∃ a ∈ k.connection.allocations, 0 < it.table a.slot))

-- A client with a queue, and a second one. The first hangs up while its queue is in use, and its record waits through two
-- sweeps.
def waiting : List Iteration :=
  let used : Nat → Int := fun slot => if slot = 0 then 1 else -1
  [calls,⟨true,fun _ => ⟨true,false,some .allocCommandQueue,some ⟨4096,4096,0,7,true,none,none,false⟩⟩,true,some 6,used⟩,
    ⟨true,fun i => ⟨false,decide (i = 2),none,none⟩,false,none,used⟩,⟨false,fun _ => ⟨false,false,none,none⟩,false,none,used⟩]

theorem sockets_closed_waiting : Runs.Always act Filed start waiting ∧ Runs.Always act Lifecycle start waiting ∧
    (waiting.foldl act start).firstClosed.length = 1 :=
  have closed := sockets_closed waiting (by decide)
  ⟨closed.1,closed.2.mpr (by decide),by decide⟩

theorem socket_left_open : Runs.Admits act legal start [calls,hangsUp] ∧ ¬Runs.Always act Lifecycle start [calls,hangsUp] := by
  refine ⟨by decide,?_⟩
  intro always
  have left := always.2.2.open_
  revert left
  decide

end Sockets

end Spugl
