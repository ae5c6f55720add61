import Spugl.FlushHandshake

namespace Spugl

def Waiting.call : Waiting → Option (Nat × Nat)
  | .appended id n | .flushing id n => some (id,n)
  | _ => none

abbrev Client.calling (c : Client) : Option (Nat × Nat) := c.waiting.call

-- The buffers of a client, with the one whose reply is still in the socket.
def Client.known (c : Client) : List (Nat × Bool) :=
  match c.waiting,c.answers with
  | .allocating commandQueue,[.allocated (some id)] => (id,commandQueue) :: c.buffers
  | _,_ => c.buffers

namespace Handshake
open Function

-- What stands in the two directions of the socket.
inductive Socket (calls : Nat → FlushCall) : Waiting → List Message → List Answer → Prop where
  | idle : (∀ m ∈ requests, ∃ id, m = .free id) → Socket calls .nothing requests []
  | allocating : (∀ m ∈ requests, ∃ id, m = .free id) → Socket calls (.allocating commandQueue) (requests ++ [.alloc commandQueue]) []
  | allocated : Socket calls (.allocating commandQueue) [] [.allocated given]
  | appended : (∀ m ∈ requests, ∃ id, m = .free id) → (calls n).received = false → (calls n).replies = [] →
      Socket calls (.appended queue n) requests []
  | asked : (∀ m ∈ requests, ∃ id, m = .free id) → (calls n).received = false → (calls n).replies = [] →
      Socket calls (.flushing queue n) (requests ++ [.flush queue n]) []
  | received : (calls n).received = true → (calls n).replies = [] → Socket calls (.flushing queue n) [] []
  | replied : (calls n).received = true → (calls n).replies = [some n] → Socket calls (.flushing queue n) [] [.flushed n]

def Quiet (memory : Nat → List Nat) (a : Allocation) : Prop := memory a.slot = [] ∧ a.flushWait = none ∧ a.flushDone = none

-- The GL_FLUSH of a call is in the queue or its flag is set, and the other flag is set
-- when the request has arrived.
structure Pending (calls : Nat → FlushCall) (memory : Nat → List Nat) (n : Nat) (a : Allocation) : Prop where
  wait : a.flushWait = if (calls n).received then some n else none
  done : memory a.slot = [n] ∧ a.flushDone = none ∧ (calls n).executed = false ∨
    memory a.slot = [] ∧ a.flushDone = some n ∧ (calls n).executed = true

def Unanswered (calls : Nat → FlushCall) (c : Client) (id n : Nat) : Prop := c.calling = some (id,n) ∧ (calls n).replies = []

-- What holds between the server and one client that is connected.
structure Talks (calls : Nat → FlushCall) (made : Nat) (memory : Nat → List Nat) (fd : Nat) (own : List Allocation) (c : Client) : Prop where
  single : (c.known.map Prod.fst).Nodup
  owned : ∀ b ∈ c.known, ∃ a ∈ own, a.id = b.1 ∧ a.commandQueue = b.2 ∧ a.countDisposed = false
  freed : ∀ id, .free id ∈ c.requests → id ∉ c.known.map Prod.fst
  socket : Socket calls c.waiting c.requests c.answers
  calling : ∀ id n, c.calling = some (id,n) → n < made ∧ (calls n).client = fd ∧ (id,true) ∈ c.buffers
  pending : ∀ a ∈ own, ∀ n, Unanswered calls c a.id n → Pending calls memory n a
  quiet : ∀ a ∈ own, (∀ n, ¬Unanswered calls c a.id n) → Quiet memory a
  settled : ∀ n, n < made → (calls n).client = fd → (calls n).replies = [] → ∃ id, c.calling = some (id,n)

def entries (l : List Allocation) : List (Nat × Bool) := l.map fun a => (a.slot,a.countDisposed)

structure Sound (s : Handshake) : Prop where
  counted : Counted s.table (lockOf s.spu) (entries s.list.allocations)
  fds : (s.list.first.map Connection.fd).Nodup
  opened : ∀ k ∈ s.list.first, ∃ fd ∈ s.accepted, k.fd = some fd
  closed : ∀ k ∈ s.list.firstClosed, k.fd = none
  strangers : ∀ fd, fd ∉ s.accepted → s.clients fd = .fresh ∧ ∀ n, n < s.made → (s.calls n).client ≠ fd
  talks : ∀ k ∈ s.list.first, ∀ fd, k.fd = some fd → Talks s.calls s.made s.memory fd k.allocations (s.clients fd)
  answers : ∀ n, (s.calls n).replies = [] ∨ (s.calls n).replies = [some n] ∧ (s.calls n).executed = true
  unmade : ∀ n, s.made ≤ n → (s.calls n).received = false ∧ (s.calls n).replies = []
  queued : ∀ i n, n ∈ s.memory i → n < s.made ∧ ∀ k ∈ s.list.first, k.fd = some (s.calls n).client →
    ∃ a ∈ k.allocations, a.slot = i

theorem start_sound : Sound start where
  counted := by
    refine ⟨List.nodup_nil,?_,fun i _ => ⟨rfl,rfl⟩,fun i => Int.le_refl 0⟩
    intro e member
    cases member
  fds := List.nodup_nil
  opened k member := by cases member
  closed k member := by cases member
  strangers fd _ := ⟨rfl,fun n less => absurd less (Nat.not_lt_zero n)⟩
  talks k member := by cases member
  answers n := .inl rfl
  unmade n _ := ⟨rfl,rfl⟩
  queued i n member := by cases member

-- Slots decide: one Allocation for each.
theorem same_slot {table locks : Nat → Int} {l : List Allocation} (counted : Counted table locks (entries l)) (one : a ∈ l) (two : b ∈ l)
    (same : a.slot = b.slot) : a = b := by
  have slots : (l.map Allocation.slot).Nodup := by
    have nodup := counted.slots
    rwa [entries,List.map_map] at nodup
  exact List.inj_on_of_nodup_map slots one two same

theorem own_part {list : ConnectionList} (member : k ∈ list.first) (inside : a ∈ k.allocations) : a ∈ list.allocations :=
  List.mem_flatMap.mpr ⟨k,List.mem_append_left _ member,inside⟩

-- The sweep of one connection's list.
theorem process_sent (fd : Option Nat) (table : Nat → Int) (own : List Allocation) :
    (processOutstandingRequests fd table own).2.2 = own.flatMap (acknowledged fd) := by
  induction own generalizing table with
  | nil => rfl
  | cons del rest ih =>
    unfold processOutstandingRequests
    split <;> simp only [List.flatMap_cons,ih]

theorem process_member (fd : Option Nat) (table : Nat → Int) (own : List Allocation)
    (member : b ∈ (processOutstandingRequests fd table own).2.1) : ∃ a ∈ own, b = acknowledge a := by
  induction own generalizing table with
  | nil => cases member
  | cons del rest ih =>
    unfold processOutstandingRequests at member
    split at member
    · rcases List.mem_cons.mp member with rfl | later
      · exact ⟨del,List.mem_cons_self,rfl⟩
      · obtain ⟨a,inside,same⟩ := ih _ later
        exact ⟨a,List.mem_cons_of_mem _ inside,same⟩
    · obtain ⟨a,inside,same⟩ := ih _ member
      exact ⟨a,List.mem_cons_of_mem _ inside,same⟩

theorem acknowledge_kept (a : Allocation) : (acknowledge a).id = a.id ∧ (acknowledge a).commandQueue = a.commandQueue ∧
    (acknowledge a).countDisposed = a.countDisposed := by
  unfold acknowledge
  split <;> exact ⟨rfl,rfl,rfl⟩

theorem process_counted (fd : Option Nat) {table locks : Nat → Int} {own : List Allocation} {before after : List (Nat × Bool)}
    (counted : Counted table locks (before ++ entries own ++ after)) :
    Counted (processOutstandingRequests fd table own).1 locks (before ++ entries (processOutstandingRequests fd table own).2.1 ++ after) ∧
      ∀ a ∈ own, a.countDisposed = false → acknowledge a ∈ (processOutstandingRequests fd table own).2.1 := by
  induction own generalizing table before with
  | nil => exact ⟨counted,fun a member => by cases member⟩
  | cons del rest ih =>
    have front : Counted table locks (before ++ (del.slot,del.countDisposed) :: (entries rest ++ after)) := by
      simpa [entries] using counted
    unfold processOutstandingRequests
    split
    · have shape : before ++ (del.slot,del.countDisposed) :: (entries rest ++ after) =
          (before ++ [(del.slot,del.countDisposed)]) ++ entries rest ++ after := by simp
      rw [shape] at front
      obtain ⟨later,kept⟩ := ih front
      obtain ⟨id,_,flag⟩ := acknowledge_kept del
      refine ⟨?_,?_⟩
      · have entry : entries (acknowledge del :: (processOutstandingRequests fd table rest).2.1) =
            (del.slot,del.countDisposed) :: entries (processOutstandingRequests fd table rest).2.1 := by
          simp only [entries,List.map_cons,Allocation.slot,id,flag]
        simp only [entry]
        simpa using later
      · intro a member live
        rcases List.mem_cons.mp member with rfl | old
        · exact List.mem_cons_self
        · exact List.mem_cons_of_mem _ (kept a old live)
    · rename_i idle
      obtain ⟨gone,_,removed⟩ := front.remove (Int.not_lt.mp idle)
      rw [← List.append_assoc] at removed
      obtain ⟨later,kept⟩ := ih removed
      refine ⟨later,?_⟩
      intro a member live
      rcases List.mem_cons.mp member with rfl | old
      · rw [gone] at live
        cases live
      · exact kept a old live

-- What a sweep leaves of a connection.
structure Swept (k k' : Connection) : Prop where
  fd : k'.fd = k.fd
  only : ∀ b ∈ k'.allocations, ∃ a ∈ k.allocations, b = acknowledge a
  kept : ∀ a ∈ k.allocations, a.countDisposed = false → acknowledge a ∈ k'.allocations

theorem entries_append (l m : List Allocation) : entries (l ++ m) = entries l ++ entries m := List.map_append

theorem connections_sent (table : Nat → Int) (l : List Connection) :
    (processConnections table l).2.2 = l.flatMap fun k => k.allocations.flatMap (acknowledged k.fd) := by
  induction l generalizing table with
  | nil => rfl
  | cons k rest ih =>
    unfold processConnections
    simp only [List.flatMap_cons,process_sent,ih]

theorem connections_counted {table locks : Nat → Int} {l : List Connection} {before after : List (Nat × Bool)}
    (counted : Counted table locks (before ++ entries (owned l) ++ after)) :
    Counted (processConnections table l).1 locks (before ++ entries (owned (processConnections table l).2.1) ++ after) ∧
      List.Forall₂ Swept l (processConnections table l).2.1 := by
  induction l generalizing table before with
  | nil => exact ⟨counted,.nil⟩
  | cons k rest ih =>
    have front : Counted table locks (before ++ entries k.allocations ++ (entries (owned rest) ++ after)) := by
      simpa [owned,entries_append] using counted
    obtain ⟨one,kept⟩ := process_counted k.fd front
    rw [← List.append_assoc] at one
    obtain ⟨all,swept⟩ := ih one
    unfold processConnections
    refine ⟨?_,.cons ⟨rfl,fun b member => process_member _ _ _ member,kept⟩ swept⟩
    simpa [owned,entries_append] using all

-- A step that only one client is concerned in.
structure Exchange (s s' : Handshake) (fd : Nat) (own own' : List Allocation) (before after : List Connection) : Prop where
  front : s.list.first = before ++ ⟨some fd,own⟩ :: after
  behind : s'.list.first = before ++ ⟨some fd,own'⟩ :: after
  closed : s'.list.firstClosed = s.list.firstClosed
  accepted : s'.accepted = s.accepted
  grown : s.made ≤ s'.made
  clients : ∀ other, other ≠ fd → s'.clients other = s.clients other
  kept : ∀ n, n < s.made → (s.calls n).client ≠ fd → s'.calls n = s.calls n
  fresh : ∀ n, n < s'.made → (s'.calls n).client ≠ fd → n < s.made ∧ (s.calls n).client ≠ fd
  memory : ∀ i, (∀ a ∈ own', a.slot ≠ i) → s'.memory i = s.memory i
  slots : ∀ a ∈ own, ∃ b ∈ own', b.slot = a.slot

section
variable {calls calls' : Nat → FlushCall} {made made' fd : Nat} {memory memory' : Nat → List Nat} {own : List Allocation}
  {c : Client} {s s' : Handshake} {before after : List Connection} {own' : List Allocation}

theorem Socket.congr {w : Waiting} (socket : Socket calls w requests answers)
    (same : ∀ id n, w.call = some (id,n) → (calls' n).received = (calls n).received ∧ (calls' n).replies = (calls n).replies) :
    Socket calls' w requests answers := by
  cases socket with
  | idle frees => exact .idle frees
  | allocating frees => exact .allocating frees
  | allocated => exact .allocated
  | appended frees received replies =>
    obtain ⟨one,two⟩ := same _ _ rfl
    exact .appended frees (one.trans received) (two.trans replies)
  | asked frees received replies =>
    obtain ⟨one,two⟩ := same _ _ rfl
    exact .asked frees (one.trans received) (two.trans replies)
  | received received replies =>
    obtain ⟨one,two⟩ := same _ _ rfl
    exact .received (one.trans received) (two.trans replies)
  | replied received replies =>
    obtain ⟨one,two⟩ := same _ _ rfl
    exact .replied (one.trans received) (two.trans replies)

theorem Talks.frame (talks : Talks calls made memory fd own c) (grown : made ≤ made')
    (kept : ∀ n, n < made → (calls n).client = fd → calls' n = calls n)
    (fresh : ∀ n, n < made' → (calls' n).client = fd → n < made ∧ (calls n).client = fd)
    (same : ∀ a ∈ own, memory' a.slot = memory a.slot) : Talks calls' made' memory' fd own c := by
  have current (id n : Nat) (calling : c.calling = some (id,n)) : calls' n = calls n := by
    obtain ⟨less,client,_⟩ := talks.calling id n calling
    exact kept n less client
  have unanswered (id n : Nat) : Unanswered calls' c id n ↔ Unanswered calls c id n := by
    unfold Unanswered
    constructor
    · rintro ⟨calling,replies⟩
      exact ⟨calling,current id n calling ▸ replies⟩
    · rintro ⟨calling,replies⟩
      exact ⟨calling,(current id n calling).symm ▸ replies⟩
  refine ⟨talks.single,talks.owned,talks.freed,talks.socket.congr ?_,?_,?_,?_,?_⟩
  · intro id n calling
    rw [current id n calling]
    exact ⟨rfl,rfl⟩
  · intro id n calling
    obtain ⟨less,client,listed⟩ := talks.calling id n calling
    exact ⟨Nat.lt_of_lt_of_le less grown,by rw [current id n calling]; exact client,listed⟩
  · intro a inside n open_
    have was := (unanswered a.id n).mp open_
    obtain ⟨wait,done⟩ := talks.pending a inside n was
    have eq := current a.id n was.1
    exact ⟨by rw [eq]; exact wait,by rw [eq,same a inside]; exact done⟩
  · intro a inside none
    have quiet := talks.quiet a inside fun n was => none n ((unanswered a.id n).mpr was)
    unfold Quiet
    rw [same a inside]
    exact quiet
  · intro n less client replies
    obtain ⟨was,old⟩ := fresh n less client
    exact talks.settled n was old (kept n was old ▸ replies)

theorem Talks.working (talks : Talks calls made memory fd own c) (inside : a ∈ own) (busy : ¬Quiet memory a) :
    ∃ n, Unanswered calls c a.id n ∧ Pending calls memory n a := by
  by_contra none
  refine busy (talks.quiet a inside fun n open_ => none ⟨n,open_,talks.pending a inside n open_⟩)

-- A call is in a command queue of its client.
theorem Talks.kind (talks : Talks calls made memory fd own c) (slots : ∀ a ∈ own, ∀ b ∈ own, a.slot = b.slot → a = b) (inside : a ∈ own)
    (calling : c.calling = some (a.id,n)) : a.commandQueue = true := by
  have known : c.known = c.buffers := by
    unfold Client.known
    cases waiting : c.waiting with
    | allocating =>
      rw [Client.calling,waiting] at calling
      cases calling
    | _ => rfl
  obtain ⟨_,_,listed⟩ := talks.calling a.id n calling
  obtain ⟨b,there,id,queue,_⟩ := talks.owned (a.id,true) (known ▸ listed)
  rw [slots a inside b there (congrArg blockSlot id.symm)]
  exact queue

theorem Talks.queued (talks : Talks calls made memory fd own c) (inside : a ∈ own) (member : n ∈ memory a.slot) :
    n < made ∧ (calls n).client = fd := by
  have busy : ¬Quiet memory a := by
    rintro ⟨empty,_⟩
    rw [empty] at member
    cases member
  obtain ⟨m,unanswered,pending⟩ := talks.working inside busy
  rcases pending.done with ⟨queue,_,_⟩ | ⟨queue,_,_⟩
  · rw [queue] at member
    obtain rfl := List.mem_singleton.mp member
    obtain ⟨less,client,_⟩ := talks.calling a.id n unanswered.1
    exact ⟨less,client⟩
  · rw [queue] at member
    cases member

theorem apart_slots {table locks : Nat → Int} {x y z : List Allocation} (counted : Counted table locks (entries (x ++ y ++ z)))
    (outside : a ∈ x ∨ a ∈ z) : ∀ b ∈ y, b.slot ≠ a.slot := by
  intro b inside same
  have slots := counted.slots
  simp only [entries,List.map_append,List.map_map] at slots
  have first : (Prod.fst ∘ fun a : Allocation => (a.slot,a.countDisposed)) = Allocation.slot := rfl
  rw [first,List.nodup_append,List.nodup_append] at slots
  obtain ⟨⟨_,_,left⟩,_,right⟩ := slots
  rcases outside with outside | outside
  · exact left a.slot (List.mem_map_of_mem outside) b.slot (List.mem_map_of_mem inside) same.symm
  · exact right b.slot (List.mem_append_right _ (List.mem_map_of_mem inside)) a.slot (List.mem_map_of_mem outside) same

theorem Sound.exchange (sound : Sound s) (exchange : Exchange s s' fd own own' before after)
    (counted : Counted s'.table (lockOf s'.spu) (entries s'.list.allocations))
    (talks : Talks s'.calls s'.made s'.memory fd own' (s'.clients fd))
    (answers : ∀ n, (s'.calls n).replies = [] ∨ (s'.calls n).replies = [some n] ∧ (s'.calls n).executed = true)
    (unmade : ∀ n, s'.made ≤ n → (s'.calls n).received = false ∧ (s'.calls n).replies = []) : Sound s' := by
  obtain ⟨front,behind,closed,accepted,grown,clients,kept,fresh,memory,slots⟩ := exchange
  have fds := sound.fds
  rw [front,List.map_append,List.map_cons] at fds
  -- The other connections, and what they keep.
  have others (k : Connection) (other : k ∈ before ∨ k ∈ after) : k ∈ s.list.first ∧ k.fd ≠ some fd := by
    obtain ⟨_,later,apart⟩ := List.nodup_append.mp fds
    rcases other with left | right
    · refine ⟨by rw [front]; exact List.mem_append_left _ left,fun same => ?_⟩
      exact apart k.fd (List.mem_map_of_mem left) (some fd) List.mem_cons_self same
    · refine ⟨by rw [front]; exact List.mem_append_right _ (List.mem_cons_of_mem _ right),fun same => ?_⟩
      exact (List.nodup_cons.mp later).1 (List.mem_map.mpr ⟨k,right,same⟩)
  have members (k : Connection) : k ∈ s'.list.first ↔ k = ⟨some fd,own'⟩ ∨ k ∈ before ∨ k ∈ after := by
    rw [behind,List.mem_append,List.mem_cons]
    tauto
  have untouched (k : Connection) (other : k ∈ before ∨ k ∈ after) (a : Allocation) (inside : a ∈ k.allocations) :
      ∀ b ∈ own', b.slot ≠ a.slot := by
    have all := counted
    rw [all_owned,behind,owned_split,List.append_assoc] at all
    refine apart_slots all ?_
    rcases other with left | right
    · exact .inl (List.mem_flatMap.mpr ⟨k,left,inside⟩)
    · exact .inr (List.mem_append_left _ (List.mem_flatMap.mpr ⟨k,right,inside⟩))
  have mine : (⟨some fd,own⟩ : Connection) ∈ s.list.first := by rw [front]; exact List.mem_append_right _ List.mem_cons_self
  refine ⟨counted,?_,?_,?_,?_,?_,answers,unmade,?_⟩
  · rw [behind,List.map_append,List.map_cons]
    exact fds
  · intro k member
    rw [accepted]
    rcases (members k).mp member with rfl | other
    · obtain ⟨fd',listed,same⟩ := sound.opened _ mine
      exact ⟨fd',listed,same⟩
    · exact sound.opened k (others k other).1
  · intro k member
    rw [closed] at member
    exact sound.closed k member
  · intro stranger out
    rw [accepted] at out
    have apart : stranger ≠ fd := by
      rintro rfl
      obtain ⟨fd',listed,same⟩ := sound.opened _ mine
      exact out (Option.some.inj same ▸ listed)
    obtain ⟨clean,none⟩ := sound.strangers stranger out
    refine ⟨by rw [clients stranger apart]; exact clean,?_⟩
    intro n less client
    obtain ⟨old,foreign⟩ := fresh n less (client ▸ apart)
    exact none n old (kept n old foreign ▸ client)
  · intro k member fd' same
    rcases (members k).mp member with rfl | other
    · obtain rfl : fd = fd' := Option.some.inj same
      exact talks
    · obtain ⟨was,foreign⟩ := others k other
      have apart : fd' ≠ fd := fun eq => foreign (same.trans (congrArg some eq))
      rw [clients fd' apart]
      refine (sound.talks k was fd' same).frame grown ?_ ?_ ?_
      · intro n less client
        exact kept n less (client ▸ apart)
      · intro n less client
        obtain ⟨old,foreign⟩ := fresh n less (client ▸ apart)
        exact ⟨old,kept n old foreign ▸ client⟩
      · intro a inside
        exact memory a.slot (untouched k other a inside)
  · intro i n member
    by_cases inside : ∃ a ∈ own', a.slot = i
    · obtain ⟨a,listed,rfl⟩ := inside
      obtain ⟨less,client⟩ := talks.queued listed member
      refine ⟨less,?_⟩
      intro k there same
      rcases (members k).mp there with rfl | other
      · exact ⟨a,listed,rfl⟩
      · exact absurd (same.trans (congrArg some client)) (others k other).2
    · have out : ∀ a ∈ own', a.slot ≠ i := fun a listed same => inside ⟨a,listed,same⟩
      rw [memory i out] at member
      obtain ⟨less,there⟩ := sound.queued i n member
      have foreign : (s.calls n).client ≠ fd := by
        intro client
        obtain ⟨a,listed,same⟩ := there _ mine (congrArg some client.symm)
        obtain ⟨b,new,slot⟩ := slots a listed
        exact out b new (slot.trans same)
      refine ⟨Nat.lt_of_lt_of_le less grown,?_⟩
      intro k member' same
      rw [kept n less foreign] at same
      rcases (members k).mp member' with rfl | other
      · exact absurd (Option.some.inj same).symm foreign
      · exact there k (others k other).1 same

-- The client goes on without a change of its call.
theorem Talks.recast {c' : Client} (talks : Talks calls made memory fd own c) (same : c'.calling = c.calling)
    (single : (c'.known.map Prod.fst).Nodup)
    (owned : ∀ b ∈ c'.known, ∃ a ∈ own, a.id = b.1 ∧ a.commandQueue = b.2 ∧ a.countDisposed = false)
    (freed : ∀ id, .free id ∈ c'.requests → id ∉ c'.known.map Prod.fst)
    (socket : Socket calls c'.waiting c'.requests c'.answers)
    (listed : ∀ id n, c.calling = some (id,n) → (id,true) ∈ c'.buffers) : Talks calls made memory fd own c' := by
  refine ⟨single,owned,freed,socket,?_,?_,?_,?_⟩
  · intro id n calling
    rw [same] at calling
    obtain ⟨less,client,_⟩ := talks.calling id n calling
    exact ⟨less,client,listed id n calling⟩
  · intro a inside n open_
    unfold Unanswered at open_
    rw [same] at open_
    exact talks.pending a inside n open_
  · intro a inside none
    unfold Unanswered at none
    rw [same] at none
    exact talks.quiet a inside none
  · rw [same]
    exact talks.settled

theorem Talks.idle (talks : Talks calls made memory fd own c) (idle : c.waiting = .nothing) :
    (∀ m ∈ c.requests, ∃ id, m = .free id) ∧ c.answers = [] ∧ c.known = c.buffers ∧ c.calling = none := by
  have socket := talks.socket
  rw [idle] at socket
  have known : c.known = c.buffers := by
    unfold Client.known
    rw [idle]
  have calling : c.calling = none := by
    unfold Client.calling
    rw [idle]
    rfl
  generalize c.answers = answers at socket ⊢
  cases socket with
  | idle frees => exact ⟨frees,rfl,known,calling⟩

theorem Talks.allocate (talks : Talks calls made memory fd own c) (idle : c.waiting = .nothing) (commandQueue : Bool) :
    Talks calls made memory fd own {c with waiting := .allocating commandQueue,requests := c.requests ++ [.alloc commandQueue]} := by
  obtain ⟨frees,answers,known,calling⟩ := talks.idle idle
  have same : Client.known {c with waiting := .allocating commandQueue,requests := c.requests ++ [.alloc commandQueue]} = c.known := by
    unfold Client.known
    simp only [answers,idle]
  refine talks.recast calling.symm (same ▸ talks.single) (same ▸ talks.owned) ?_ ?_ ?_
  · intro id member
    rw [same]
    rcases List.mem_append.mp member with old | new
    · exact talks.freed id old
    · cases List.mem_singleton.mp new
  · simp only [answers]
    exact .allocating frees
  · intro id n was
    rw [calling] at was
    cases was

theorem Talks.free (talks : Talks calls made memory fd own c) (idle : c.waiting = .nothing) (id : Nat) :
    Talks calls made memory fd own {c with buffers := c.buffers.filter fun b => b.1 != id,requests := c.requests ++ [.free id]} := by
  obtain ⟨frees,answers,known,calling⟩ := talks.idle idle
  have less : Client.known {c with buffers := c.buffers.filter fun b => b.1 != id,requests := c.requests ++ [.free id]} =
      c.known.filter fun b => b.1 != id := by
    unfold Client.known
    simp only [idle]
  refine talks.recast rfl ?_ ?_ ?_ ?_ ?_
  · rw [less]
    exact (List.filter_sublist.map _).nodup talks.single
  · intro b member
    rw [less] at member
    exact talks.owned b (List.mem_of_mem_filter member)
  · intro other member
    rw [less]
    intro listed
    obtain ⟨b,inside,rfl⟩ := List.mem_map.mp listed
    obtain ⟨was,apart⟩ := List.mem_filter.mp inside
    rcases List.mem_append.mp member with old | new
    · exact talks.freed b.1 old (List.mem_map_of_mem was)
    · obtain rfl : b.1 = id := Message.free.inj (List.mem_singleton.mp new)
      simp at apart
  · simp only [idle,answers]
    refine .idle ?_
    intro m member
    rcases List.mem_append.mp member with old | new
    · exact frees m old
    · exact ⟨id,List.mem_singleton.mp new⟩
  · intro other n was
    rw [calling] at was
    cases was

theorem Talks.send (talks : Talks calls made memory fd own c) (appended : c.waiting = .appended queue n) :
    Talks calls made memory fd own {c with waiting := .flushing queue n,requests := c.requests ++ [.flush queue n]} := by
  have calling : c.calling = some (queue,n) := by
    unfold Client.calling
    rw [appended]
    rfl
  have same : Client.known {c with waiting := .flushing queue n,requests := c.requests ++ [.flush queue n]} = c.known := by
    unfold Client.known
    simp only [appended]
  refine talks.recast calling.symm (same ▸ talks.single) (same ▸ talks.owned) ?_ ?_ ?_
  · intro id member
    rw [same]
    rcases List.mem_append.mp member with old | new
    · exact talks.freed id old
    · cases List.mem_singleton.mp new
  · have socket := talks.socket
    rw [appended] at socket
    simp only
    generalize c.answers = answers at socket ⊢
    cases socket with
    | appended frees received replies => exact .asked frees received replies
  · intro id m was
    exact (talks.calling id m was).2.2

theorem Talks.read (talks : Talks calls made memory fd own c) : Talks calls made memory fd own (read c) := by
  have socket := talks.socket
  unfold Handshake.read
  cases waiting : c.waiting with
  | nothing => simpa only [waiting] using talks
  | appended => simpa only [waiting] using talks
  | allocating commandQueue =>
    cases answers : c.answers with
    | nil => simpa only [waiting,answers] using talks
    | cons first rest =>
      rw [waiting,answers] at socket
      generalize requests : c.requests = requests' at socket
      cases socket with
      | @allocated _ given =>
        have same : Client.known ⟨(given.toList.map (·,commandQueue)) ++ c.buffers,.nothing,c.requests,[]⟩ = c.known := by
          unfold Client.known
          rw [waiting,answers]
          cases given <;> rfl
        refine talks.recast ?_ (same ▸ talks.single) (same ▸ talks.owned) ?_ ?_ ?_
        · simp only [Client.calling,waiting]
          rfl
        · intro id member
          exact absurd member List.not_mem_nil
        · exact .idle fun m member => absurd member List.not_mem_nil
        · intro id n was
          rw [Client.calling,waiting] at was
          cases was
  | flushing queue n =>
    cases answers : c.answers with
    | nil => simpa only [waiting,answers] using talks
    | cons first rest =>
      rw [waiting,answers] at socket
      generalize requests : c.requests = requests' at socket
      have calling : c.calling = some (queue,n) := by rw [Client.calling,waiting]; rfl
      cases socket with
      | replied received replies =>
        have same : Client.known {c with waiting := .nothing,answers := []} = c.known := by
          unfold Client.known
          rw [waiting]
        -- Its call was answered: nothing is pending before or behind.
        have none (id m : Nat) : ¬Unanswered calls c id m := by
          rintro ⟨was,empty⟩
          obtain ⟨rfl,rfl⟩ := Prod.mk.inj (Option.some.inj (calling.symm.trans was))
          rw [replies] at empty
          cases empty
        refine ⟨same ▸ talks.single,same ▸ talks.owned,?_,?_,?_,?_,?_,?_⟩
        · intro id member
          exact absurd member List.not_mem_nil
        · exact .idle fun m member => absurd member List.not_mem_nil
        · intro id m was
          cases was
        · intro a inside m was
          cases was.1
        · intro a inside _
          exact talks.quiet a inside fun m => none a.id m
        · intro m less client empty
          obtain ⟨id,was⟩ := talks.settled m less client empty
          exact absurd ⟨was,empty⟩ (none id m)

theorem Talks.append (talks : Talks calls made memory fd own c) (idle : c.waiting = .nothing) (listed : (queue,true) ∈ c.buffers)
    (slots : ∀ a ∈ own, ∀ b ∈ own, a.slot = b.slot → a = b) :
    Talks (update calls made ⟨fd,false,false,[]⟩) (made + 1)
      (update memory (blockSlot queue) (memory (blockSlot queue) ++ [made])) fd own {c with waiting := .appended queue made} := by
  obtain ⟨frees,answers,known,calling⟩ := talks.idle idle
  have same : Client.known {c with waiting := .appended queue made} = c.known := by
    rw [known]
    rfl
  have none (id n : Nat) : ¬Unanswered calls c id n := by
    rintro ⟨was,_⟩
    rw [calling] at was
    cases was
  have old (n : Nat) (less : n < made) : update calls made ⟨fd,false,false,[]⟩ n = calls n :=
    update_of_ne (Nat.ne_of_lt less) _ _
  refine ⟨same ▸ talks.single,same ▸ talks.owned,?_,?_,?_,?_,?_,?_⟩
  · rw [same]
    exact talks.freed
  · simp only [answers]
    exact .appended frees (by rw [update_self]) (by rw [update_self])
  · intro id n was
    obtain ⟨rfl,rfl⟩ := Prod.mk.inj (Option.some.inj was)
    exact ⟨Nat.lt_succ_self _,by rw [update_self],listed⟩
  · intro a inside n open_
    obtain ⟨rfl,rfl⟩ := Prod.mk.inj (Option.some.inj open_.1)
    obtain ⟨empty,wait,done⟩ := talks.quiet a inside fun n => none a.id n
    refine ⟨?_,.inl ⟨?_,done,by rw [update_self]⟩⟩
    · rw [update_self]
      exact wait
    · rw [update_self]
      change memory a.slot ++ [made] = [made]
      rw [empty]
      rfl
  · intro a inside quiet
    have apart : a.slot ≠ blockSlot queue := by
      intro eq
      obtain ⟨b,there,id,_⟩ := talks.owned (queue,true) (known ▸ listed)
      have one := slots a inside b there (eq.trans (congrArg blockSlot id.symm))
      refine quiet made ⟨?_,by rw [update_self]⟩
      rw [one,id]
      rfl
    unfold Quiet
    rw [update_of_ne apart]
    exact talks.quiet a inside fun n => none a.id n
  · intro n less client replies
    by_cases new : n = made
    · exact ⟨queue,new ▸ rfl⟩
    · have was : n < made := by omega
      rw [old n was] at client replies
      obtain ⟨id,before⟩ := talks.settled n was client replies
      rw [calling] at before
      cases before

-- One Allocation and one call change.
theorem Talks.change {a a' : Allocation} {x y : List Allocation} {c' : Client} (talks : Talks calls made memory fd (x ++ a :: y) c)
    (id : a'.id = a.id) (kind : a'.commandQueue = a.commandQueue) (calling : c'.calling = c.calling) (known : c'.known = c.known)
    (buffers : c'.buffers = c.buffers) (alive : a'.countDisposed = a.countDisposed ∨ a.id ∉ c.known.map Prod.fst)
    (requests : ∀ m ∈ c'.requests, m ∈ c.requests) (socket : Socket calls' c'.waiting c'.requests c'.answers)
    (same : ∀ n, (calls' n).client = (calls n).client ∧ (calls' n).replies = (calls n).replies)
    (others : ∀ b ∈ x ++ y, memory' b.slot = memory b.slot ∧ ∀ n, Unanswered calls c b.id n → calls' n = calls n)
    (mine : ∀ n, Unanswered calls c a.id n → Pending calls' memory' n a')
    (quiet : (∀ n, ¬Unanswered calls c a.id n) → Quiet memory' a') : Talks calls' made memory' fd (x ++ a' :: y) c' := by
  have unanswered (id n : Nat) : Unanswered calls' c' id n ↔ Unanswered calls c id n := by
    unfold Unanswered
    rw [calling,(same n).2]
  have members (l : Allocation) (b : Allocation) : b ∈ x ++ l :: y ↔ b = l ∨ b ∈ x ++ y := by
    simp only [List.mem_append,List.mem_cons]
    tauto
  refine ⟨known ▸ talks.single,?_,?_,socket,?_,?_,?_,?_⟩
  · intro b listed
    rw [known] at listed
    obtain ⟨d,inside,was,queue,live⟩ := talks.owned b listed
    rcases (members a d).mp inside with rfl | other
    · refine ⟨a',(members a' a').mpr (.inl rfl),id.trans was,kind.trans queue,?_⟩
      rcases alive with still | gone
      · exact still.trans live
      · exact absurd (was ▸ List.mem_map_of_mem listed) gone
    · exact ⟨d,(members a' d).mpr (.inr other),was,queue,live⟩
  · intro id member
    rw [known]
    exact talks.freed id (requests _ member)
  · intro id n was
    rw [calling] at was
    obtain ⟨less,client,listed⟩ := talks.calling id n was
    exact ⟨less,(same n).1.trans client,buffers ▸ listed⟩
  · intro b inside n open_
    have was := (unanswered b.id n).mp open_
    rcases (members a' b).mp inside with rfl | other
    · exact mine n (id ▸ was)
    · obtain ⟨queue,call⟩ := others b other
      obtain ⟨wait,done⟩ := talks.pending b ((members a b).mpr (.inr other)) n was
      exact ⟨by rw [call n was]; exact wait,by rw [call n was,queue]; exact done⟩
  · intro b inside none
    have was (n : Nat) : ¬Unanswered calls c b.id n := fun open_ => none n ((unanswered b.id n).mpr open_)
    rcases (members a' b).mp inside with rfl | other
    · exact quiet fun n => id ▸ was n
    · unfold Quiet
      rw [(others b other).1]
      exact talks.quiet b ((members a b).mpr (.inr other)) was
  · intro n less client replies
    rw [(same n).1] at client
    rw [(same n).2] at replies
    rw [calling]
    exact talks.settled n less client replies

theorem Socket.pop {w : Waiting} (socket : Socket calls w requests answers) (first : requests = .free queue :: rest) :
    Socket calls w rest answers := by
  have frees {l : List Message} (all : ∀ m ∈ .free queue :: l, ∃ id, m = .free id) : ∀ m ∈ l, ∃ id, m = .free id :=
    fun m member => all m (List.mem_cons_of_mem _ member)
  have tail {l : List Message} {last : Message} (split : l ++ [last] = .free queue :: rest) (other : last ≠ .free queue) :
      ∃ l', l = .free queue :: l' ∧ rest = l' ++ [last] := by
    cases l with
    | nil => exact absurd (List.cons.inj split).1 other
    | cons m l' =>
      obtain ⟨rfl,eq⟩ := List.cons.inj split
      exact ⟨l',rfl,eq.symm⟩
  cases socket with
  | idle all =>
    subst first
    exact .idle (frees all)
  | allocating all =>
    obtain ⟨l,rfl,rfl⟩ := tail first (by simp)
    exact .allocating (frees all)
  | allocated => cases first
  | appended all received replies =>
    subst first
    exact .appended (frees all) received replies
  | asked all received replies =>
    obtain ⟨l,rfl,rfl⟩ := tail first (by simp)
    exact .asked (frees all) received replies
  | received => cases first
  | replied => cases first

-- A request that is no free comes last.
theorem Socket.last {w : Waiting} (socket : Socket calls w requests answers) (first : requests = m :: rest) (other : ∀ id, m ≠ .free id) :
    rest = [] ∧ answers = [] ∧ ((∃ commandQueue, m = .alloc commandQueue ∧ w = .allocating commandQueue) ∨
      ∃ id n, m = .flush id n ∧ w = .flushing id n ∧ (calls n).received = false ∧ (calls n).replies = []) := by
  have none {l : List Message} (all : ∀ m ∈ l, ∃ id, m = .free id) : m ∉ l := by
    intro member
    obtain ⟨id,same⟩ := all m member
    exact other id same
  have alone {l : List Message} {last : Message} (all : ∀ m ∈ l, ∃ id, m = .free id) (split : l ++ [last] = m :: rest) :
      m = last ∧ rest = [] := by
    cases l with
    | nil =>
      obtain ⟨rfl,rfl⟩ := List.cons.inj split
      exact ⟨rfl,rfl⟩
    | cons m' l' =>
      obtain ⟨rfl,_⟩ := List.cons.inj split
      exact absurd List.mem_cons_self (none all)
  cases socket with
  | idle all =>
    subst first
    exact absurd List.mem_cons_self (none all)
  | allocating all =>
    obtain ⟨rfl,rfl⟩ := alone all first
    exact ⟨rfl,rfl,.inl ⟨_,rfl,rfl⟩⟩
  | allocated => cases first
  | appended all =>
    subst first
    exact absurd List.mem_cons_self (none all)
  | asked all received replies =>
    obtain ⟨rfl,rfl⟩ := alone all first
    exact ⟨rfl,rfl,.inr ⟨_,_,rfl,rfl,received,replies⟩⟩
  | received => cases first
  | replied => cases first

theorem Talks.refused (talks : Talks calls made memory fd own c) (waiting : c.waiting = .allocating commandQueue) (answers : c.answers = []) :
    Talks calls made memory fd own {c with requests := [],answers := c.answers ++ [.allocated none]} := by
  have same : Client.known {c with requests := [],answers := c.answers ++ [.allocated none]} = c.known := by
    unfold Client.known
    simp only [waiting,answers]
    rfl
  refine talks.recast rfl (same ▸ talks.single) (same ▸ talks.owned) ?_ ?_ ?_
  · intro id member
    exact absurd member List.not_mem_nil
  · simp only [waiting,answers]
    exact .allocated
  · intro id n calling
    exact (talks.calling id n calling).2.2

theorem Talks.served (talks : Talks calls made memory fd own c) (waiting : c.waiting = .allocating commandQueue) (answers : c.answers = [])
    {n : Allocation} (clean : n.commandQueue = commandQueue ∧ n.flushWait = none ∧ n.flushDone = none ∧ n.countDisposed = false)
    (apart : ∀ a ∈ own, a.slot ≠ n.slot) :
    Talks calls made (update memory n.slot []) fd (n :: own) {c with requests := [],answers := c.answers ++ [.allocated (some n.id)]} := by
  have known : c.known = c.buffers := by
    unfold Client.known
    simp only [waiting,answers]
  have more : Client.known {c with requests := [],answers := c.answers ++ [.allocated (some n.id)]} = (n.id,commandQueue) :: c.known := by
    rw [known]
    unfold Client.known
    simp only [waiting,answers]
    rfl
  have calling : c.calling = none := by rw [Client.calling,waiting]; rfl
  have none (id m : Nat) : ¬Unanswered calls c id m := by
    rintro ⟨was,_⟩
    rw [calling] at was
    cases was
  obtain ⟨queue,wait,done,live⟩ := clean
  refine ⟨?_,?_,?_,?_,?_,?_,?_,?_⟩
  · rw [more]
    refine List.nodup_cons.mpr ⟨?_,talks.single⟩
    intro member
    obtain ⟨b,listed,same⟩ := List.mem_map.mp member
    obtain ⟨a,inside,id,_⟩ := talks.owned b listed
    exact apart a inside (congrArg blockSlot (id.trans same))
  · intro b member
    rw [more] at member
    rcases List.mem_cons.mp member with rfl | old
    · exact ⟨n,List.mem_cons_self,rfl,queue,live⟩
    · obtain ⟨a,inside,rest⟩ := talks.owned b old
      exact ⟨a,List.mem_cons_of_mem _ inside,rest⟩
  · intro id member
    exact absurd member List.not_mem_nil
  · simp only [waiting,answers]
    exact .allocated
  · intro id m was
    exact absurd (calling.symm.trans was) (by simp)
  · intro a inside m open_
    exact absurd open_ (none a.id m)
  · intro a inside _
    unfold Quiet
    rcases List.mem_cons.mp inside with rfl | old
    · rw [update_self]
      exact ⟨rfl,wait,done⟩
    · rw [update_of_ne (apart a old)]
      exact talks.quiet a old fun m => none a.id m
  · exact talks.settled

theorem acknowledged_none (one : a.flushWait = none ∨ a.flushDone = none) (fd : Option Nat) : acknowledged fd a = [] ∧ acknowledge a = a := by
  unfold acknowledged acknowledge
  rcases one with none | none
  · rw [none]
    refine ⟨?_,rfl⟩
    cases fd <;> rfl
  · rw [none]
    refine ⟨?_,by simp⟩
    cases fd <;> cases a.flushWait <;> rfl

-- What a sweep sends to a client: nothing, or the reply to its call.
structure Replying (calls : Nat → FlushCall) (memory : Nat → List Nat) (fd : Nat) (own : List Allocation) (c : Client)
    (a : Allocation) (n : Nat) : Prop where
  inside : a ∈ own
  waiting : c.waiting = .flushing a.id n
  requests : c.requests = []
  answers : c.answers = []
  received : (calls n).received = true
  executed : (calls n).executed = true
  replies : (calls n).replies = []
  memory : memory a.slot = []
  sent : own.flatMap (acknowledged (some fd)) = [(fd,n,n)]
  clean : (acknowledge a).flushWait = none ∧ (acknowledge a).flushDone = none

theorem Socket.answered {w : Waiting} (socket : Socket calls w requests answers) (call : w.call = some (queue,n))
    (received : (calls n).received = true) (replies : (calls n).replies = []) : w = .flushing queue n ∧ requests = [] ∧ answers = [] := by
  cases socket with
  | idle => cases call
  | allocating => cases call
  | allocated => cases call
  | appended _ not =>
    obtain ⟨rfl,rfl⟩ := Prod.mk.inj (Option.some.inj call)
    rw [not] at received
    cases received
  | asked _ not =>
    obtain ⟨rfl,rfl⟩ := Prod.mk.inj (Option.some.inj call)
    rw [not] at received
    cases received
  | received =>
    obtain ⟨rfl,rfl⟩ := Prod.mk.inj (Option.some.inj call)
    exact ⟨rfl,rfl,rfl⟩
  | replied _ given =>
    obtain ⟨rfl,rfl⟩ := Prod.mk.inj (Option.some.inj call)
    rw [given] at replies
    cases replies

theorem Talks.sent (talks : Talks calls made memory fd own c) (nodup : (own.map Allocation.slot).Nodup) :
    (own.flatMap (acknowledged (some fd)) = [] ∧ ∀ a ∈ own, acknowledge a = a) ∨ ∃ a n, Replying calls memory fd own c a n := by
  by_cases ready : ∃ a ∈ own, a.flushWait ≠ none ∧ a.flushDone ≠ none
  · obtain ⟨a,inside,wait,done⟩ := ready
    obtain ⟨n,unanswered,pending⟩ := talks.working inside fun quiet => wait quiet.2.1
    have received : (calls n).received = true := by
      have given := pending.wait
      split at given
      · assumption
      · exact absurd given wait
    obtain ⟨memory,flag,executed⟩ : memory a.slot = [] ∧ a.flushDone = some n ∧ (calls n).executed = true := by
      rcases pending.done with ⟨_,none,_⟩ | rest
      · exact absurd none done
      · exact rest
    obtain ⟨waiting,requests,answers⟩ := talks.socket.answered unanswered.1 received unanswered.2
    have flagged : a.flushWait = some n := by rw [pending.wait,received]; rfl
    have rest (b : Allocation) (there : b ∈ own) (apart : b.id ≠ a.id) : acknowledged (some fd) b = [] := by
      have quiet := talks.quiet b there fun m open_ => apart (Prod.mk.inj (Option.some.inj (open_.1.symm.trans unanswered.1))).1
      exact (acknowledged_none (.inl quiet.2.1) _).1
    refine .inr ⟨a,n,inside,waiting,requests,answers,received,executed,unanswered.2,memory,?_,?_⟩
    rotate_left
    · unfold acknowledge
      rw [flagged,flag]
      exact ⟨rfl,rfl⟩
    obtain ⟨x,y,rfl⟩ := List.append_of_mem inside
    rw [List.map_append,List.map_cons] at nodup
    obtain ⟨out,_⟩ := List.nodup_cons.mp (List.perm_middle.nodup_iff.mp nodup)
    have silent (b : Allocation) (there : b ∈ x ++ y) : acknowledged (some fd) b = [] := by
      refine rest b ?_ ?_
      · simp only [List.mem_append,List.mem_cons] at there ⊢
        tauto
      · intro same
        refine out ?_
        rw [← List.map_append]
        exact List.mem_map.mpr ⟨b,there,congrArg blockSlot same⟩
    rw [List.flatMap_append,List.flatMap_cons,List.flatMap_eq_nil_iff.mpr fun b left => silent b (List.mem_append_left _ left),
      List.flatMap_eq_nil_iff.mpr fun b right => silent b (List.mem_append_right _ right)]
    unfold acknowledged
    rw [flagged,flag]
    rfl
  · have one (a : Allocation) (inside : a ∈ own) : a.flushWait = none ∨ a.flushDone = none := by
      by_contra both
      rw [not_or] at both
      exact ready ⟨a,inside,both⟩
    refine .inl ⟨List.flatMap_eq_nil_iff.mpr fun a inside => (acknowledged_none (one a inside) _).1,?_⟩
    intro a inside
    exact (acknowledged_none (one a inside) (some fd)).2

theorem Talks.swept (talks : Talks calls made memory fd own c) (nodup : (own.map Allocation.slot).Nodup)
    (only : ∀ b ∈ own', ∃ a ∈ own, b = acknowledge a) (kept : ∀ a ∈ own, a.countDisposed = false → acknowledge a ∈ own')
    (same : ∀ n, calls' n = {calls n with replies := (calls' n).replies})
    (replies : ∀ n, (calls n).client = fd → (calls' n).replies = (calls n).replies ++
      ((own.flatMap (acknowledged (some fd))).filter fun r => r.2.1 == n).map fun r => some r.2.2) :
    Talks calls' made memory fd own' {c with answers := c.answers ++ (own.flatMap (acknowledged (some fd))).map fun r => .flushed r.2.1} := by
  have client (n : Nat) : (calls' n).client = (calls n).client := by rw [same n]
  have alive (b : Nat × Bool) (listed : b ∈ c.known) : ∃ a ∈ own', a.id = b.1 ∧ a.commandQueue = b.2 ∧ a.countDisposed = false := by
    obtain ⟨a,inside,id,queue,live⟩ := talks.owned b listed
    obtain ⟨id',queue',live'⟩ := acknowledge_kept a
    exact ⟨acknowledge a,kept a inside live,id'.trans id,queue'.trans queue,live'.trans live⟩
  rcases talks.sent nodup with ⟨silent,plain⟩ | ⟨a,n,replying⟩
  · rw [silent]
    simp only [silent,List.filter_nil,List.map_nil,List.append_nil] at replies ⊢
    have old (n : Nat) (mine : (calls n).client = fd) : calls' n = calls n := by rw [same n,replies n mine]
    have framed := talks.frame (Nat.le_refl made) (fun n _ mine => old n mine) (fun n less mine => ⟨less,(client n).symm.trans mine⟩)
      (fun a _ => rfl)
    have inside (b : Allocation) (member : b ∈ own') : b ∈ own := by
      obtain ⟨a,there,rfl⟩ := only b member
      rw [plain a there]
      exact there
    exact ⟨framed.single,alive,framed.freed,framed.socket,framed.calling,fun b member => framed.pending b (inside b member),
      fun b member => framed.quiet b (inside b member),framed.settled⟩
  · rw [replying.sent] at replies ⊢
    have calling : c.calling = some (a.id,n) := by rw [Client.calling,replying.waiting]; rfl
    obtain ⟨less,mine,_⟩ := talks.calling a.id n calling
    have given : (calls' n).replies = [some n] := by
      rw [replies n mine,replying.replies]
      simp
    have known : Client.known {c with answers := c.answers ++ [.flushed n]} = c.known := by
      unfold Client.known
      simp only [replying.waiting]
    have none (id m : Nat) : ¬Unanswered calls' {c with answers := c.answers ++ [.flushed n]} id m := by
      rintro ⟨was,empty⟩
      obtain ⟨_,rfl⟩ := Prod.mk.inj (Option.some.inj (calling.symm.trans was))
      rw [given] at empty
      cases empty
    refine ⟨known ▸ talks.single,known ▸ alive,known ▸ talks.freed,?_,?_,?_,?_,?_⟩
    · simp only [replying.waiting,replying.requests,replying.answers]
      exact .replied (by rw [same n]; exact replying.received) given
    · intro id m was
      obtain ⟨before,owner,listed⟩ := talks.calling id m was
      exact ⟨before,(client m).trans owner,listed⟩
    · intro b _ m open_
      exact absurd open_ (none b.id m)
    · intro b member _
      obtain ⟨d,there,rfl⟩ := only b member
      have slot : (acknowledge d).slot = d.slot := congrArg blockSlot (acknowledge_kept d).1
      unfold Quiet
      rw [slot]
      by_cases caller : d.id = a.id
      · have one : d = a := List.inj_on_of_nodup_map nodup there replying.inside (congrArg blockSlot caller)
        rw [one]
        exact ⟨replying.memory,replying.clean⟩
      · have quiet := talks.quiet d there fun m open_ => caller (Prod.mk.inj (Option.some.inj (open_.1.symm.trans calling))).1
        rw [(acknowledged_none (.inl quiet.2.1) (some fd)).2]
        exact quiet
    · intro m before owner empty
      rw [client m] at owner
      have was : (calls m).replies = [] := (List.append_eq_nil_iff.mp ((replies m owner).symm.trans empty)).1
      exact talks.settled m before owner was

end
end Handshake
end Spugl
