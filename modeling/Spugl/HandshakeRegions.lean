import Spugl.FlushReplies

namespace Spugl

-- What the server has mapped for a client, and the descriptor of the file behind it.
structure Region where
  id : Nat
  buffer : Nat
  size : Nat
  fd : Nat
  deriving DecidableEq

abbrev Region.slot (r : Region) : Nat := blockSlot r.id

def Allocation.region (a : Allocation) : Region := ⟨a.id,a.buffer,a.size,a.fd⟩

-- An allocation reply that the client has not read.
def Client.replied (c : Client) : Option Nat :=
  match c.waiting,c.answers with
  | .allocating _,.allocated id :: _ => id
  | _,_ => none

namespace Handshake
open Function

def regions (s : Handshake) : List Region := s.list.allocations.map Allocation.region

section
variable {s : Handshake} {fd : Nat} {own own' : List Allocation} {l l' : List Connection} {r : Region}

theorem regions_mem : r ∈ s.regions ↔ ∃ k, (k ∈ s.list.first ∨ k ∈ s.list.firstClosed) ∧ r ∈ k.allocations.map Allocation.region := by
  simp only [regions,ConnectionList.allocations,List.mem_map,List.mem_flatMap,List.mem_append]
  constructor
  · rintro ⟨a,⟨k,listed,inside⟩,same⟩
    exact ⟨k,listed,a,inside,same⟩
  · rintro ⟨k,listed,a,inside,same⟩
    exact ⟨a,⟨k,listed,inside⟩,same⟩

theorem acknowledge_region (a : Allocation) : (acknowledge a).region = a.region := by
  unfold acknowledge
  split <;> rfl

theorem updateFirst_regions {p : Allocation → Bool} {f : Allocation → Allocation} (same : ∀ a, (f a).region = a.region)
    (found : updateFirst p f own = some own') : own'.map Allocation.region = own.map Allocation.region := by
  obtain ⟨before,a,after,rfl,rfl,_⟩ := updateFirst_split found
  simp only [List.map_append,List.map_cons,same]

-- Another list of connections over the same memory.
def Over (l l' : List Connection) : Prop :=
  ∀ k' ∈ l', ∃ k ∈ l, k'.fd = k.fd ∧ k'.allocations.map Allocation.region ⊆ k.allocations.map Allocation.region

theorem processed_over (table : Nat → Int) (l : List Connection) : Over l (processConnections table l).2.1 := by
  induction l generalizing table with
  | nil =>
    intro k' member
    cases member
  | cons k rest ih =>
    intro k' member
    rcases List.mem_cons.mp member with rfl | later
    · refine ⟨k,List.mem_cons_self,rfl,?_⟩
      intro r inside
      obtain ⟨a,there,rfl⟩ := List.mem_map.mp inside
      obtain ⟨b,before,rfl⟩ := process_member k.fd table k.allocations there
      exact List.mem_map.mpr ⟨b,before,(acknowledge_region b).symm⟩
    · obtain ⟨k₀,there,rest⟩ := ih _ k' later
      exact ⟨k₀,List.mem_cons_of_mem _ there,rest⟩

theorem received_over (slot n : Nat) (l : List Connection) : Over l (receivedFlush slot n l) := by
  rcases receivedFlush_cases slot n l with ⟨_,same⟩ | ⟨before,fd,x,a,y,after,split,_,behind⟩
  · rw [same]
    exact fun k member => ⟨k,member,rfl,List.Subset.refl _⟩
  · rw [behind,split]
    intro k' member
    rcases List.mem_append.mp member with front | later
    · exact ⟨k',List.mem_append_left _ front,rfl,List.Subset.refl _⟩
    · rcases List.mem_cons.mp later with rfl | later
      · refine ⟨⟨fd,x ++ a :: y⟩,List.mem_append_right _ List.mem_cons_self,rfl,?_⟩
        simp [Allocation.region]
      · exact ⟨k',List.mem_append_right _ (List.mem_cons_of_mem _ later),rfl,List.Subset.refl _⟩

-- A connection gets another list of its own.
theorem onAllocations_first (s : Handshake) (fd : Nat) (own' : List Allocation) (member : k' ∈ (s.onAllocations fd own').list.first) :
    k' ∈ s.list.first ∨ ∃ k ∈ s.list.first, k'.fd = k.fd ∧ k'.allocations = own' := by
  simp only [onAllocations] at member
  cases found : updateFirst (connection fd) (fun k => {k with allocations := own'}) s.list.first with
  | none =>
    rw [found] at member
    exact .inl member
  | some first =>
    rw [found] at member
    obtain ⟨before,k,after,split,rfl,_⟩ := updateFirst_split found
    rw [split]
    rcases List.mem_append.mp member with front | later
    · exact .inl (List.mem_append_left _ front)
    · rcases List.mem_cons.mp later with rfl | later
      · exact .inr ⟨k,List.mem_append_right _ List.mem_cons_self,rfl,rfl⟩
      · exact .inl (List.mem_append_right _ (List.mem_cons_of_mem _ later))

theorem onAllocations_regions (s : Handshake) (fd : Nat) (own' : List Allocation) (member : r ∈ (s.onAllocations fd own').regions) :
    r ∈ s.regions ∨ r ∈ own'.map Allocation.region := by
  obtain ⟨k',listed,inside⟩ := regions_mem.mp member
  rcases listed with first | closed
  · rcases onAllocations_first s fd own' first with old | ⟨_,_,_,given⟩
    · exact .inl (regions_mem.mpr ⟨k',.inl old,inside⟩)
    · exact .inr (given ▸ inside)
  · exact .inl (regions_mem.mpr ⟨k',.inr closed,inside⟩)

theorem onAllocations_connected (s : Handshake) (fd fd' : Nat) (own' : List Allocation)
    (connected : (s.onAllocations fd own').connected fd' = true) : s.connected fd' = true := by
  obtain ⟨k',member,here⟩ := List.any_eq_true.mp connected
  rcases onAllocations_first s fd own' member with old | ⟨k,listed,same,_⟩
  · exact List.any_eq_true.mpr ⟨k',old,here⟩
  · refine List.any_eq_true.mpr ⟨k,listed,?_⟩
    unfold connection at here ⊢
    rw [← same]
    exact here

theorem over_connected (same : Over s.list.first l) (connected : l.any (connection fd) = true) : s.connected fd = true := by
  obtain ⟨k',member,here⟩ := List.any_eq_true.mp connected
  obtain ⟨k,listed,fd,_⟩ := same k' member
  refine List.any_eq_true.mpr ⟨k,listed,?_⟩
  unfold connection at here ⊢
  rw [← fd]
  exact here

end

section
variable {s : Handshake} {fd fd' id : Nat} {own own' : List Allocation} {mapped : Option Mapped} {key : Nat} {r : Region}

-- What only takes memory away, and gives none to a client.
structure Quietly (s s' : Handshake) : Prop where
  regions : s'.regions ⊆ s.regions
  connected : ∀ fd, s'.connected fd = true → s.connected fd = true ∨ s.clients fd = .fresh
  replied : ∀ fd id, (s'.clients fd).replied = some id → (s.clients fd).replied = some id

theorem Quietly.clients {s' : Handshake} (list : s'.list = s.list)
    (replied : ∀ fd id, (s'.clients fd).replied = some id → (s.clients fd).replied = some id) : Quietly s s' := by
  refine ⟨?_,?_,replied⟩
  · unfold Handshake.regions
    rw [list]
    exact List.Subset.refl _
  · intro fd connected
    unfold Handshake.connected at connected ⊢
    rw [← list]
    exact .inl connected

theorem Quietly.same (list : s'.list = s.list) (clients : s'.clients = s.clients) : Quietly s s' := by
  apply Quietly.clients list
  intro fd id replied
  rwa [clients] at replied

theorem replied_more (c : Client) (more : List Answer) (replied : Client.replied {c with answers := c.answers ++ more} = some id) :
    c.replied = some id ∨ .allocated (some id) ∈ more := by
  unfold Client.replied at replied ⊢
  cases waiting : c.waiting with
  | allocating commandQueue =>
    simp only [waiting] at replied
    cases answers : c.answers with
    | nil =>
      rw [answers,List.nil_append] at replied
      cases more with
      | nil => cases replied
      | cons a rest =>
        cases a with
        | allocated given => exact .inr (replied ▸ List.mem_cons_self)
        | flushed => cases replied
    | cons a rest =>
      rw [answers] at replied
      cases a with
      | allocated given => exact .inl replied
      | flushed => cases replied
  | _ =>
    simp only [waiting] at replied
    cases replied

theorem replied_onClient {f : Client → Client} (kept : ∀ id, (f (s.clients fd)).replied = some id → (s.clients fd).replied = some id)
    (fd' id : Nat) (replied : ((s.onClient fd f).clients fd').replied = some id) : (s.clients fd').replied = some id := by
  by_cases same : fd' = fd
  · subst same
    simp only [onClient,update_self] at replied
    exact kept id replied
  · simp only [onClient,update_of_ne same] at replied
    exact replied

theorem accept_quietly (sound : Sound s) (fd : Nat) : Quietly s (s.act (.accept fd)) := by
  simp only [act]
  split
  · exact .same rfl rfl
  · rename_i new
    refine ⟨?_,?_,fun _ _ replied => replied⟩
    · intro r member
      obtain ⟨k,listed,inside⟩ := regions_mem.mp member
      rcases listed with first | closed
      · rcases List.mem_cons.mp first with rfl | old
        · cases inside
        · exact regions_mem.mpr ⟨k,.inl old,inside⟩
      · exact regions_mem.mpr ⟨k,.inr closed,inside⟩
    · intro fd' connected
      obtain ⟨k,listed,here⟩ := List.any_eq_true.mp connected
      rcases List.mem_cons.mp listed with rfl | old
      · obtain rfl : fd = fd' := by simpa [connection] using here
        exact .inr (sound.strangers fd new).1
      · exact .inl (List.any_eq_true.mpr ⟨k,old,here⟩)

theorem allocate_quietly (sound : Sound s) (fd : Nat) (commandQueue : Bool) : Quietly s (s.act (.allocate fd commandQueue)) := by
  simp only [act]
  split
  · rename_i may
    refine Quietly.clients rfl ?_
    intro fd' id replied
    refine replied_onClient ?_ fd' id replied
    intro id given
    obtain ⟨before,own,after,front⟩ := connected_split may.1
    have answers := ((sound.mine front).idle may.2).2.1
    simp only [Client.replied,answers] at given
    cases given
  · exact .same rfl rfl

theorem free_quietly (s : Handshake) (fd id : Nat) : Quietly s (s.act (.free fd id)) := by
  simp only [act]
  split
  · exact .clients rfl fun fd' id => replied_onClient (fun _ given => given) fd' id
  · exact .same rfl rfl

theorem glFlush_quietly (s : Handshake) (fd id : Nat) : Quietly s (s.act (.glFlush fd id)) := by
  simp only [act]
  split
  · refine Quietly.clients rfl ?_
    intro fd' given replied
    refine replied_onClient (f := fun c => {c with waiting := .appended id s.made}) ?_ fd' given replied
    intro _ none
    cases none
  · exact .same rfl rfl

theorem spuglFlush_quietly (s : Handshake) (fd : Nat) : Quietly s (s.act (.spuglFlush fd)) := by
  simp only [act]
  split
  · split
    · refine .clients rfl fun fd' id => replied_onClient (fun _ given => ?_) fd' id
      cases given
    · exact .same rfl rfl
  · exact .same rfl rfl

theorem read_replied (c : Client) (replied : (read c).replied = some id) : c.replied = some id := by
  unfold read at replied
  split at replied
  · cases replied
  · cases replied
  · exact replied

theorem recv_quietly (s : Handshake) (fd : Nat) : Quietly s (s.act (.recv fd)) := by
  simp only [act]
  split
  · exact .clients rfl fun fd' id => replied_onClient (fun _ => read_replied _) fd' id
  · exact .same rfl rfl

theorem disconnect_quietly (s : Handshake) (fd : Nat) : Quietly s (s.act (.disconnect fd)) := by
  simp only [act,handleDisconnect]
  split
  · rename_i k found
    refine ⟨?_,?_,fun _ _ replied => replied⟩
    · intro r member
      obtain ⟨k',listed,inside⟩ := regions_mem.mp member
      rcases listed with first | closed
      · exact regions_mem.mpr ⟨k',.inl (List.mem_of_mem_filter first),inside⟩
      · rcases List.mem_cons.mp closed with rfl | old
        · refine regions_mem.mpr ⟨k,.inl (List.mem_of_find?_eq_some found),?_⟩
          simpa [Allocation.dispose,Allocation.region] using inside
        · exact regions_mem.mpr ⟨k',.inr old,inside⟩
    · intro fd' connected
      obtain ⟨k',listed,here⟩ := List.any_eq_true.mp connected
      exact .inl (List.any_eq_true.mpr ⟨k',List.mem_of_mem_filter listed,here⟩)
  · exact .same rfl rfl

theorem sweep_quietly (s : Handshake) : Quietly s (s.act .sweep) := by
  refine ⟨?_,?_,?_⟩
  · intro r member
    obtain ⟨k',listed,inside⟩ := regions_mem.mp member
    rcases listed with first | closed
    · obtain ⟨k,there,_,fewer⟩ := processed_over s.table s.list.first k' first
      exact regions_mem.mpr ⟨k,.inl there,fewer inside⟩
    · obtain ⟨k,there,_,fewer⟩ := processed_over _ s.list.firstClosed k' (List.mem_of_mem_filter closed)
      exact regions_mem.mpr ⟨k,.inr there,fewer inside⟩
  · intro fd connected
    exact .inl (over_connected (processed_over s.table s.list.first) connected)
  · intro fd id replied
    rcases replied_more (s.clients fd) _ replied with old | new
    · exact old
    · obtain ⟨_,_,other⟩ := List.mem_map.mp new
      cases other

theorem execute_quietly (s : Handshake) : Quietly s (s.act .execute) := by
  simp only [act]
  split
  · rename_i slot held
    split
    · rename_i n rest queued
      refine ⟨?_,?_,fun _ _ replied => replied⟩
      · intro r member
        obtain ⟨k',listed,inside⟩ := regions_mem.mp member
        rcases listed with first | closed
        · obtain ⟨k,there,_,fewer⟩ := received_over slot n s.list.first k' first
          exact regions_mem.mpr ⟨k,.inl there,fewer inside⟩
        · exact regions_mem.mpr ⟨k',.inr closed,inside⟩
      · intro fd connected
        exact .inl (over_connected (received_over slot n s.list.first) connected)
    · exact .same rfl rfl
  · exact .same rfl rfl

theorem lock_quietly (s : Handshake) (slot : Nat) : Quietly s (s.act (.lock slot)) := by
  simp only [act]
  split <;> exact .same rfl rfl

theorem unlock_quietly (s : Handshake) : Quietly s (s.act .unlock) := by
  simp only [act]
  split <;> exact .same rfl rfl

-- The new region of a request.
def given (s : Handshake) (mapped : Option Mapped) (key : Nat) : Message → Option Region
  | .alloc commandQueue =>
    match mapped,s.blockManagementAllocateBlock commandQueue with
    | some m,some i => some ⟨blockId i key,m.buffer,m.size,m.fd⟩
    | _,_ => none
  | _ => none

theorem handled_regions {m : Message} (inside : own.map Allocation.region ⊆ s.regions)
    (member : r ∈ (s.handleConnectionData fd own mapped key m).regions) : r ∈ s.regions ∨ r ∈ s.given mapped key m := by
  cases m with
  | alloc commandQueue =>
    simp only [handleConnectionData,allocateBuffer] at member
    unfold given
    split at member
    · rename_i m i found
      simp only [found]
      rcases onAllocations_regions _ fd _ member with old | new
      · exact .inl old
      · rcases List.mem_cons.mp new with rfl | old
        · exact .inr rfl
        · exact .inl (inside old)
    · exact .inl member
  | free id =>
    simp only [handleConnectionData,freeBuffer] at member
    split at member
    · rename_i own' found
      rcases onAllocations_regions _ fd _ member with old | new
      · exact .inl old
      · rw [updateFirst_regions (f := Allocation.dispose) (fun _ => rfl) found] at new
        exact .inl (inside new)
    · exact .inl member
  | flush id n =>
    simp only [handleConnectionData,flushQueue] at member
    split at member
    · rename_i own' found
      rcases onAllocations_regions _ fd _ member with old | new
      · exact .inl old
      · rw [updateFirst_regions (f := fun a => {a with flushWait := some n}) (fun _ => rfl) found] at new
        exact .inl (inside new)
    · exact .inl member

theorem handled_connected {m : Message} (connected : (s.handleConnectionData fd own mapped key m).connected fd' = true) :
    s.connected fd' = true := by
  cases m with
  | alloc commandQueue =>
    simp only [handleConnectionData,allocateBuffer] at connected
    split at connected
    · exact onAllocations_connected _ fd fd' _ connected
    · exact connected
  | free id =>
    simp only [handleConnectionData,freeBuffer] at connected
    split at connected
    · exact onAllocations_connected _ fd fd' _ connected
    · exact connected
  | flush id n =>
    simp only [handleConnectionData,flushQueue] at connected
    split at connected
    · exact onAllocations_connected _ fd fd' _ connected
    · exact connected

theorem answer_replied (a : Answer) (replied : ((s.answer fd a).clients fd').replied = some id) :
    (s.clients fd').replied = some id ∨ fd' = fd ∧ a = .allocated (some id) := by
  by_cases same : fd' = fd
  · subst same
    simp only [answer,onClient,update_self] at replied
    rcases replied_more _ _ replied with old | new
    · exact .inl old
    · exact .inr ⟨rfl,(List.mem_singleton.mp new).symm⟩
  · simp only [answer,onClient,update_of_ne same] at replied
    exact .inl replied

theorem handled_replied {m : Message} (replied : ((s.handleConnectionData fd own mapped key m).clients fd').replied = some id) :
    (s.clients fd').replied = some id ∨ fd' = fd ∧ ∃ r ∈ s.given mapped key m, r.id = id := by
  cases m with
  | alloc commandQueue =>
    simp only [handleConnectionData,allocateBuffer] at replied
    unfold given
    split at replied
    · rename_i m i found
      simp only [found]
      rcases answer_replied _ replied with old | ⟨own,new⟩
      · exact .inl old
      · exact .inr ⟨own,_,rfl,Option.some.inj (Answer.allocated.inj new)⟩
    · rcases answer_replied _ replied with old | ⟨_,new⟩
      · exact .inl old
      · cases new
  | free id =>
    simp only [handleConnectionData,freeBuffer] at replied
    split at replied <;> exact .inl replied
  | flush id n =>
    simp only [handleConnectionData,flushQueue] at replied
    split at replied
    · exact .inl replied
    · rcases answer_replied _ replied with old | ⟨_,new⟩
      · exact .inl old
      · cases new

theorem answer_buffers (a : Answer) : ((s.answer fd a).clients fd').buffers = (s.clients fd').buffers := by
  by_cases same : fd' = fd
  · subst same
    simp only [answer,onClient,update_self]
  · simp only [answer,onClient,update_of_ne same]

theorem handled_buffers (m : Message) : ((s.handleConnectionData fd own mapped key m).clients fd').buffers = (s.clients fd').buffers := by
  cases m with
  | alloc commandQueue =>
    simp only [handleConnectionData,allocateBuffer]
    split <;> exact answer_buffers _
  | free id =>
    simp only [handleConnectionData,freeBuffer]
    split <;> rfl
  | flush id n =>
    simp only [handleConnectionData,flushQueue]
    split
    · rfl
    · exact answer_buffers _

-- The request that the server takes next from a socket, and the region that it makes.
def received (s : Handshake) (fd : Nat) : Option Message :=
  match s.list.first.find? (connection fd),(s.clients fd).requests with
  | some _,request :: _ => some request
  | _,_ => none

def placed (s : Handshake) (fd : Nat) (mapped : Option Mapped) (key : Nat) : Option Region := (s.received fd).bind (s.given mapped key)

structure Serves (s s' : Handshake) (fd : Nat) (placed : Option Region) : Prop where
  regions : ∀ r ∈ s'.regions, r ∈ s.regions ∨ r ∈ placed
  connected : ∀ fd', s'.connected fd' = true → s.connected fd' = true
  replied : ∀ fd' id, (s'.clients fd').replied = some id → (s.clients fd').replied = some id ∨ fd' = fd ∧ ∃ r ∈ placed, r.id = id
  buffers : ∀ fd', (s'.clients fd').buffers = (s.clients fd').buffers

theorem handle_serves (s : Handshake) (fd : Nat) (mapped : Option Mapped) (key : Nat) :
    Serves s (s.act (.handle fd mapped key)) fd (s.placed fd mapped key) := by
  simp only [act]
  split
  · rename_i k request rest found asked
    have placed : s.placed fd mapped key = s.given mapped key request := by
      unfold Handshake.placed received
      rw [found,asked]
      rfl
    rw [placed]
    have inside : k.allocations.map Allocation.region ⊆ s.regions := by
      intro r member
      exact regions_mem.mpr ⟨k,.inl (List.mem_of_find?_eq_some found),member⟩
    -- The request is taken off the socket first.
    have taken (fd' : Nat) : ((s.onClient fd fun c => {c with requests := rest}).clients fd').replied = (s.clients fd').replied ∧
        ((s.onClient fd fun c => {c with requests := rest}).clients fd').buffers = (s.clients fd').buffers := by
      by_cases same : fd' = fd
      · subst same
        simp only [onClient,update_self,Client.replied,and_self]
      · simp only [onClient,update_of_ne same,and_self]
    have regions : (s.onClient fd fun c => {c with requests := rest}).regions = s.regions := rfl
    have given : (s.onClient fd fun c => {c with requests := rest}).given mapped key request = s.given mapped key request := by
      cases request <;> rfl
    have connected (fd' : Nat) : (s.onClient fd fun c => {c with requests := rest}).connected fd' = s.connected fd' := rfl
    generalize (s.onClient fd fun c => {c with requests := rest}) = s' at taken regions given connected
    rw [← given]
    rw [← regions] at inside
    refine ⟨?_,?_,?_,?_⟩
    · intro r member
      rw [← regions]
      exact handled_regions inside member
    · intro fd' after
      rw [← connected]
      exact handled_connected after
    · intro fd' id replied
      rw [← (taken fd').1]
      exact handled_replied replied
    · intro fd'
      exact (handled_buffers request).trans (taken fd').2
  · exact ⟨fun r member => .inl member,fun _ connected => connected,fun _ _ replied => .inl replied,fun _ => rfl⟩

theorem Serves.quietly (serves : Serves s s' fd none) : Quietly s s' := by
  refine ⟨?_,fun fd' connected => .inl (serves.connected fd' connected),?_⟩
  · intro r member
    rcases serves.regions r member with old | new
    · exact old
    · cases new
  · intro fd' id replied
    rcases serves.replied fd' id replied with old | ⟨_,_,new,_⟩
    · exact old
    · cases new

end

section
variable {s : Handshake} {fd id : Nat}

theorem buffers_known (c : Client) : c.buffers.Sublist c.known := by
  unfold Client.known
  split
  · exact List.sublist_cons_self _ _
  · exact List.Sublist.refl _

theorem Sound.replied_known (sound : Sound s) (connected : s.connected fd = true) (replied : (s.clients fd).replied = some id) :
    ∃ commandQueue, (id,commandQueue) ∈ (s.clients fd).known := by
  obtain ⟨before,own,after,front⟩ := connected_split connected
  have socket := (sound.mine front).socket
  unfold Client.replied at replied
  unfold Client.known
  generalize (s.clients fd).waiting = waiting,(s.clients fd).requests = requests,(s.clients fd).answers = answers at socket replied ⊢
  cases socket with
  | allocated =>
    obtain rfl := replied
    exact ⟨_,List.mem_cons_self⟩
  | _ => cases replied

theorem Sound.replied_last (sound : Sound s) (connected : s.connected fd = true) (replied : (s.clients fd).replied = some id) :
    (s.clients fd).requests = [] := by
  obtain ⟨before,own,after,front⟩ := connected_split connected
  have socket := (sound.mine front).socket
  unfold Client.replied at replied
  generalize (s.clients fd).waiting = waiting,(s.clients fd).requests = requests,(s.clients fd).answers = answers at socket replied ⊢
  cases socket with
  | allocated => rfl
  | _ => cases replied

-- The region of a buffer that a client knows of is its own connection's.
theorem Sound.region (sound : Sound s) (connected : s.connected fd = true) (known : b ∈ (s.clients fd).known) :
    ∃ k ∈ s.list.first, k.fd = some fd ∧ ∃ a ∈ k.allocations, a.id = b.1 ∧ a.region ∈ s.regions := by
  obtain ⟨before,own,after,front⟩ := connected_split connected
  obtain ⟨a,inside,id,_⟩ := (sound.mine front).owned b known
  have listed := connected_at front
  exact ⟨_,listed,rfl,a,inside,id,regions_mem.mpr ⟨_,.inl listed,List.mem_map_of_mem inside⟩⟩

-- One slot is one connection's.
theorem Sound.one_client (sound : Sound s) (one : k ∈ s.list.first) (two : k' ∈ s.list.first) (inside : a ∈ k.allocations)
    (inside' : a' ∈ k'.allocations) (same : a.slot = a'.slot) : k = k' := by
  have slots := sound.counted.slots
  rw [entries,List.map_map,ConnectionList.allocations,List.map_flatMap,List.nodup_flatMap] at slots
  have symmetric : Std.Symm (List.Disjoint on fun k : Connection => k.allocations.map (Prod.fst ∘ fun a => (a.slot,a.countDisposed))) :=
    ⟨fun _ _ disjoint => List.Disjoint.symm disjoint⟩
  by_contra other
  have apart := slots.2.forall (List.mem_append_left _ one) (List.mem_append_left _ two) other
  exact apart (List.mem_map.mpr ⟨a,inside,rfl⟩) (List.mem_map.mpr ⟨a',inside',same.symm⟩)

end

end Handshake

end Spugl
