import Spugl.HandshakeInvariant

namespace Spugl.Handshake
open Function

variable {s : Handshake} {fd : Nat} {own own' : List Allocation} {before after : List Connection} {k : Connection}

theorem located (found : s.list.first.find? (connection fd) = some k) :
    ∃ before after, s.list.first = before ++ ⟨some fd,k.allocations⟩ :: after := by
  obtain ⟨here,before,after,split,_⟩ := List.find?_eq_some_iff_append.mp found
  obtain ⟨fd',allocations⟩ := k
  obtain rfl : fd' = some fd := by simpa [connection] using here
  exact ⟨before,after,split⟩

theorem connected_split (connected : s.connected fd = true) :
    ∃ before own after, s.list.first = before ++ ⟨some fd,own⟩ :: after := by
  obtain ⟨k,member,here⟩ := List.any_eq_true.mp connected
  obtain ⟨before,after,split⟩ := List.append_of_mem member
  obtain ⟨fd',own⟩ := k
  obtain rfl : fd' = some fd := by simpa [connection] using here
  exact ⟨before,own,after,split⟩

theorem connected_at (front : s.list.first = before ++ ⟨some fd,own⟩ :: after) : (⟨some fd,own⟩ : Connection) ∈ s.list.first := by
  rw [front]
  exact List.mem_append_right _ List.mem_cons_self

-- An allocation is replaced by one in the same slot.
theorem same_slots {x y : List Allocation} {a a' : Allocation} (same : a'.slot = a.slot) :
    ∀ b ∈ x ++ a :: y, ∃ b' ∈ x ++ a' :: y, b'.slot = b.slot := by
  intro b inside
  rcases List.mem_append.mp inside with left | right
  · exact ⟨b,List.mem_append_left _ left,rfl⟩
  · rcases List.mem_cons.mp right with rfl | right
    · exact ⟨a',List.mem_append_right _ List.mem_cons_self,same⟩
    · exact ⟨b,List.mem_append_right _ (List.mem_cons_of_mem _ right),rfl⟩

theorem Sound.apart (sound : Sound s) (front : s.list.first = before ++ ⟨some fd,own⟩ :: after) :
    ∀ k ∈ before, connection fd k = false := by
  intro k member
  have fds := sound.fds
  rw [front,List.map_append,List.map_cons] at fds
  have other : k.fd ≠ some fd := (List.nodup_append.mp fds).2.2 k.fd (List.mem_map_of_mem member) (some fd) List.mem_cons_self
  simpa [connection] using other

theorem first_updated (front : s.list.first = before ++ ⟨some fd,own⟩ :: after) (apart : ∀ k ∈ before, connection fd k = false) :
    (updateFirst (connection fd) (fun k => {k with allocations := own'}) s.list.first).getD s.list.first =
      before ++ ⟨some fd,own'⟩ :: after := by
  rw [front,updateFirst_at apart (by simp [connection])]
  rfl

theorem Sound.slots (sound : Sound s) (front : s.list.first = before ++ ⟨some fd,own⟩ :: after) :
    ∀ a ∈ own, ∀ b ∈ own, a.slot = b.slot → a = b := by
  have inside := connected_at front
  intro a one b two same
  exact same_slot sound.counted (own_part inside one) (own_part inside two) same

theorem Sound.mine (sound : Sound s) (front : s.list.first = before ++ ⟨some fd,own⟩ :: after) :
    Talks s.calls s.made s.memory fd own (s.clients fd) := sound.talks _ (connected_at front) fd rfl

-- The entries with those of one connection in the middle.
theorem entries_at (front : s.list.first = before ++ ⟨some fd,own⟩ :: after) :
    entries s.list.allocations = entries (owned before) ++ entries own ++ (entries (owned after) ++ entries (owned s.list.firstClosed)) := by
  rw [all_owned,front,owned_split]
  simp only [entries_append,List.append_assoc]

theorem entries_split (before after closed : List Connection) (fd : Option Nat) (x y : List Allocation) (a : Allocation) :
    entries (ConnectionList.allocations ⟨before ++ ⟨fd,x ++ a :: y⟩ :: after,closed⟩) =
      (entries (owned before) ++ entries x) ++ (a.slot,a.countDisposed) :: (entries y ++ (entries (owned after) ++ entries (owned closed))) := by
  rw [all_owned,owned_split]
  simp [entries]

theorem Sound.counted_at (sound : Sound s) (front : s.list.first = before ++ ⟨some fd,own⟩ :: after) :
    Counted s.table (lockOf s.spu)
      (entries (owned before) ++ entries own ++ (entries (owned after) ++ entries (owned s.list.firstClosed))) := by
  rw [← entries_at front]
  exact sound.counted

-- A step of a client by itself.
theorem Sound.client (sound : Sound s) (front : s.list.first = before ++ ⟨some fd,own⟩ :: after) {f : Client → Client}
    (talks : Talks s.calls s.made s.memory fd own (f (s.clients fd))) : Sound (s.onClient fd f) := by
  have exchange : Exchange s (s.onClient fd f) fd own own before after :=
    { front := front
      behind := front
      closed := rfl
      accepted := rfl
      grown := Nat.le_refl _
      clients := fun other apart => update_of_ne apart _ _
      kept := fun _ _ _ => rfl
      fresh := fun _ less client => ⟨less,client⟩
      memory := fun _ _ => rfl
      slots := fun a member => ⟨a,member,rfl⟩ }
  refine sound.exchange exchange sound.counted ?_ sound.answers sound.unmade
  simp only [onClient,update_self]
  exact talks

theorem accept_sound (sound : Sound s) (fd : Nat) : Sound (s.act (.accept fd)) := by
  simp only [act]
  split
  · exact sound
  · rename_i new
    obtain ⟨clean,none⟩ := sound.strangers fd new
    have opened (k : Connection) (member : k ∈ s.list.first) : k.fd ≠ some fd := by
      intro same
      obtain ⟨fd',listed,eq⟩ := sound.opened k member
      exact new (Option.some.inj (eq.symm.trans same) ▸ listed)
    refine ⟨sound.counted,?_,?_,sound.closed,?_,?_,sound.answers,sound.unmade,?_⟩
    · refine List.nodup_cons.mpr ⟨?_,sound.fds⟩
      intro member
      obtain ⟨k,listed,same⟩ := List.mem_map.mp member
      exact opened k listed same
    · intro k member
      rcases List.mem_cons.mp member with rfl | old
      · exact ⟨fd,List.mem_cons_self,rfl⟩
      · obtain ⟨fd',listed,same⟩ := sound.opened k old
        exact ⟨fd',List.mem_cons_of_mem _ listed,same⟩
    · intro stranger out
      exact sound.strangers stranger fun listed => out (List.mem_cons_of_mem _ listed)
    · intro k member fd' same
      rcases List.mem_cons.mp member with rfl | old
      · obtain rfl : fd = fd' := Option.some.inj same
        refine ⟨?_,?_,?_,?_,?_,?_,?_,?_⟩
        all_goals simp only [clean]
        · exact List.nodup_nil
        · intro b listed
          cases listed
        · intro id member
          cases member
        · exact .idle fun m member => by cases member
        · intro id n calling
          cases calling
        · intro a inside
          cases inside
        · intro a inside
          cases inside
        · intro n less client
          exact absurd client (none n less)
      · exact sound.talks k old fd' same
    · intro i n member
      obtain ⟨less,there⟩ := sound.queued i n member
      refine ⟨less,?_⟩
      intro k inside same
      rcases List.mem_cons.mp inside with rfl | old
      · exact absurd (Option.some.inj same).symm (none n less)
      · exact there k old same

theorem allocate_sound (sound : Sound s) (fd : Nat) (commandQueue : Bool) : Sound (s.act (.allocate fd commandQueue)) := by
  simp only [act]
  split
  · rename_i guard
    obtain ⟨before,own,after,front⟩ := connected_split guard.1
    exact sound.client front ((sound.mine front).allocate guard.2 commandQueue)
  · exact sound

theorem free_sound (sound : Sound s) (fd id : Nat) : Sound (s.act (.free fd id)) := by
  simp only [act]
  split
  · rename_i guard
    obtain ⟨before,own,after,front⟩ := connected_split guard.1
    exact sound.client front ((sound.mine front).free guard.2.1 id)
  · exact sound

theorem glFlush_sound (sound : Sound s) (fd id : Nat) : Sound (s.act (.glFlush fd id)) := by
  simp only [act]
  split
  · rename_i guard
    obtain ⟨connected,idle,listed⟩ := guard
    obtain ⟨before,own,after,front⟩ := connected_split connected
    have talks := sound.mine front
    obtain ⟨a,inside,same,_⟩ := talks.owned (id,true) ((talks.idle idle).2.2.1 ▸ listed)
    have old (n : Nat) (less : n < s.made) : update s.calls s.made ⟨fd,false,false,[]⟩ n = s.calls n :=
      update_of_ne (Nat.ne_of_lt less) _ _
    refine sound.exchange (?_ : Exchange s _ fd own own before after) sound.counted ?_ ?_ ?_
    · refine ⟨front,front,rfl,rfl,Nat.le_succ _,?_,?_,?_,?_,fun a member => ⟨a,member,rfl⟩⟩
      · intro other apart
        exact update_of_ne apart _ _
      · intro n less _
        exact old n less
      · intro n less client
        simp only at less client
        by_cases new : n = s.made
        · rw [new,update_self] at client
          exact absurd rfl client
        · have was : n < s.made := by omega
          rw [old n was] at client
          exact ⟨was,client⟩
      · intro i out
        refine update_of_ne ?_ _ _
        rintro rfl
        exact out a inside (congrArg blockSlot same)
    · simp only [onClient,update_self]
      exact talks.append idle listed (sound.slots front)
    · intro n
      by_cases new : n = s.made
      · rw [new]
        exact .inl (by simp only [update_self])
      · simp only [update_of_ne new]
        exact sound.answers n
    · intro n more
      simp only at more
      have new : n ≠ s.made := by omega
      simp only [update_of_ne new]
      exact sound.unmade n (by omega)
  · exact sound

theorem spuglFlush_sound (sound : Sound s) (fd : Nat) : Sound (s.act (.spuglFlush fd)) := by
  simp only [act]
  split
  · rename_i id n appended
    split
    · rename_i connected
      obtain ⟨before,own,after,front⟩ := connected_split connected
      exact sound.client front ((sound.mine front).send appended)
    · exact sound
  · exact sound

theorem recv_sound (sound : Sound s) (fd : Nat) : Sound (s.act (.recv fd)) := by
  simp only [act]
  split
  · rename_i connected
    obtain ⟨before,own,after,front⟩ := connected_split connected
    exact sound.client front (sound.mine front).read
  · exact sound

theorem answer_onClient (s : Handshake) (f : Client → Client) (a : Answer) :
    (s.onClient fd f).answer fd a = s.onClient fd fun c => {f c with answers := (f c).answers ++ [a]} := by
  simp only [answer,onClient,update_self,update_idem]

theorem handle_alloc (sound : Sound s) (front : s.list.first = before ++ ⟨some fd,own⟩ :: after)
    (asked : (s.clients fd).requests = .alloc commandQueue :: rest) (mapped : Option Mapped) (key : Nat) :
    Sound ((s.onClient fd fun c => {c with requests := rest}).allocateBuffer fd own commandQueue mapped key) := by
  have talks := sound.mine front
  obtain ⟨rfl,answers,⟨_,same,waiting⟩ | ⟨_,_,same,_⟩⟩ := talks.socket.last asked (by simp)
  · obtain rfl := Message.alloc.inj same
    have refused : Sound ((s.onClient fd fun c => {c with requests := []}).answer fd (.allocated none)) := by
      rw [answer_onClient]
      exact sound.client front (talks.refused waiting answers)
    unfold allocateBuffer
    cases mapped with
    | none => exact refused
    | some m =>
      cases found : (s.onClient fd fun c => {c with requests := []}).blockManagementAllocateBlock commandQueue with
      | none => exact refused
      | some i =>
        have found' : (blockRange commandQueue).find? (fun i => decide (s.table i < 0)) = some i := found
        have free : s.table i < 0 := by simpa using List.find?_some found'
        have less : i < dataBuffers := (blockRange_less (List.mem_of_find?_eq_some found)).1
        have slot : blockSlot (blockId i key) = i := blockSlot_blockId less
        have counted := sound.counted_at front
        have out := counted.taken free
        have apart (a : Allocation) (inside : a ∈ own) : a.slot ≠ blockSlot (blockId i key) := by
          intro same
          refine out (List.mem_map.mpr ⟨(a.slot,a.countDisposed),?_,same.trans slot⟩)
          exact List.mem_append_left _ (List.mem_append_right _ (List.mem_map_of_mem inside))
        simp only [onClient,onAllocations,first_updated front (sound.apart front)]
        refine sound.exchange
          (?_ : Exchange s _ fd own (⟨m.buffer,m.size,blockId i key,m.fd,commandQueue,none,none,false⟩ :: own) before after) ?_ ?_ ?_ ?_
        · refine ⟨front,rfl,rfl,rfl,Nat.le_refl _,?_,fun _ _ _ => rfl,fun _ less client => ⟨less,client⟩,?_,?_⟩
          · intro other different
            simp only [answer,onClient]
            rw [update_of_ne different,update_of_ne different]
          · intro j none
            refine update_of_ne ?_ _ _
            rintro rfl
            exact none _ List.mem_cons_self slot
          · intro a inside
            exact ⟨a,List.mem_cons_of_mem _ inside,rfl⟩
        · have more := counted.add free
          refine more.perm ?_
          have split := entries_split before after s.list.firstClosed (some fd) [] own
            ⟨m.buffer,m.size,blockId i key,m.fd,commandQueue,none,none,false⟩
          simp only [List.nil_append,Allocation.slot,slot] at split
          simp only [answer,onClient]
          rw [split,List.append_assoc]
          simp only [entries,List.map_nil,List.append_nil]
          exact List.perm_middle.symm
        · simp only [answer,onClient,update_self]
          have given := talks.served waiting answers (n := ⟨m.buffer,m.size,blockId i key,m.fd,commandQueue,none,none,false⟩)
            ⟨rfl,rfl,rfl,rfl⟩ apart
          rw [show Allocation.slot ⟨m.buffer,m.size,blockId i key,m.fd,commandQueue,none,none,false⟩ = i from slot] at given
          exact given
        · exact sound.answers
        · exact sound.unmade
  · cases same

theorem handle_free (sound : Sound s) (front : s.list.first = before ++ ⟨some fd,own⟩ :: after)
    (asked : (s.clients fd).requests = .free queue :: rest) :
    Sound ((s.onClient fd fun c => {c with requests := rest}).freeBuffer fd own queue) := by
  have talks := sound.mine front
  have socket := talks.socket.pop asked
  have known : Client.known {s.clients fd with requests := rest} = (s.clients fd).known := rfl
  have out : queue ∉ (s.clients fd).known.map Prod.fst := talks.freed queue (by rw [asked]; exact List.mem_cons_self)
  have later (m : Message) (member : m ∈ rest) : m ∈ (s.clients fd).requests := by
    rw [asked]
    exact List.mem_cons_of_mem _ member
  unfold freeBuffer
  cases found : updateFirst (disposable queue) Allocation.dispose own with
  | none =>
    refine sound.client front (talks.recast rfl talks.single talks.owned ?_ socket fun id n was => (talks.calling id n was).2.2)
    intro other member
    exact talks.freed other (later _ member)
  | some own' =>
    obtain ⟨x,a,y,rfl,rfl,here⟩ := updateFirst_split found
    have matched : a.id = queue ∧ a.countDisposed = false := by simpa [disposable] using here
    obtain ⟨rfl,live⟩ := matched
    simp only [onClient,onAllocations,first_updated front (sound.apart front)]
    refine sound.exchange (?_ : Exchange s _ fd (x ++ a :: y) (x ++ a.dispose :: y) before after) ?_ ?_ ?_ ?_
    · refine ⟨front,rfl,rfl,rfl,Nat.le_refl _,?_,fun _ _ _ => rfl,fun _ less client => ⟨less,client⟩,fun _ _ => rfl,?_⟩
      · intro other different
        exact update_of_ne different _ _
      · intro b inside
        rcases List.mem_append.mp inside with left | right
        · exact ⟨b,List.mem_append_left _ left,rfl⟩
        · rcases List.mem_cons.mp right with rfl | right
          · exact ⟨b.dispose,List.mem_append_right _ List.mem_cons_self,rfl⟩
          · exact ⟨b,List.mem_append_right _ (List.mem_cons_of_mem _ right),rfl⟩
    · have counted := sound.counted
      rw [show s.list = ⟨before ++ ⟨some fd,x ++ a :: y⟩ :: after,s.list.firstClosed⟩ by rw [← front],entries_split,live] at counted
      rw [entries_split]
      exact counted.dispose
    · simp only [update_self]
      refine talks.change rfl rfl rfl rfl rfl (.inr out) later socket (fun _ => ⟨rfl,rfl⟩) (fun _ _ => ⟨rfl,fun _ _ => rfl⟩) ?_ ?_
      · intro n open_
        have pending := talks.pending a (List.mem_append_right _ List.mem_cons_self) n open_
        exact ⟨pending.wait,pending.done⟩
      · exact talks.quiet a (List.mem_append_right _ List.mem_cons_self)
    · exact sound.answers
    · exact sound.unmade

theorem Sound.others {x y : List Allocation} {a : Allocation} (sound : Sound s)
    (front : s.list.first = before ++ ⟨some fd,x ++ a :: y⟩ :: after) : ∀ b ∈ x ++ y, b.slot ≠ a.slot := by
  have counted := sound.counted
  rw [show s.list = ⟨before ++ ⟨some fd,x ++ a :: y⟩ :: after,s.list.firstClosed⟩ by rw [← front],entries_split] at counted
  obtain ⟨out,_⟩ := counted.middle
  intro b inside same
  refine out (List.mem_map.mpr ⟨(b.slot,b.countDisposed),?_,same⟩)
  rcases List.mem_append.mp inside with left | right
  · exact List.mem_append_left _ (List.mem_append_right _ (List.mem_map_of_mem left))
  · exact List.mem_append_right _ (List.mem_append_left _ (List.mem_map_of_mem right))

theorem Sound.nodup (sound : Sound s) (front : s.list.first = before ++ ⟨some fd,own⟩ :: after) : (own.map Allocation.slot).Nodup := by
  have slots := (sound.counted_at front).slots
  simp only [List.map_append] at slots
  have own := (List.nodup_append.mp (List.nodup_append.mp slots).1).2.1
  rwa [entries,List.map_map] at own

-- One Allocation keeps its place in the table.
theorem Sound.flagged {x y : List Allocation} {a a' : Allocation} (sound : Sound s)
    (front : s.list.first = before ++ ⟨some fd,x ++ a :: y⟩ :: after) (id : a'.id = a.id) (same : a'.countDisposed = a.countDisposed) :
    Counted s.table (lockOf s.spu)
      (entries (ConnectionList.allocations ⟨before ++ ⟨some fd,x ++ a' :: y⟩ :: after,s.list.firstClosed⟩)) := by
  have counted := sound.counted
  rw [show s.list = ⟨before ++ ⟨some fd,x ++ a :: y⟩ :: after,s.list.firstClosed⟩ by rw [← front],entries_split] at counted
  rw [entries_split,show a'.slot = a.slot from congrArg blockSlot id,same]
  exact counted

theorem handle_flush (sound : Sound s) (front : s.list.first = before ++ ⟨some fd,own⟩ :: after)
    (asked : (s.clients fd).requests = .flush queue n :: rest) :
    Sound (((s.onClient fd fun c => {c with requests := rest}).onCall n fun c => {c with received := true}).flushQueue fd own queue n) := by
  have talks := sound.mine front
  obtain ⟨rfl,answers,⟨_,same,_⟩ | ⟨_,_,same,waiting,_,replies⟩⟩ := talks.socket.last asked (by simp)
  · cases same
  obtain ⟨rfl,rfl⟩ := Message.flush.inj same
  have calling : (s.clients fd).calling = some (queue,n) := by rw [Client.calling,waiting]; rfl
  have known : (s.clients fd).known = (s.clients fd).buffers := by
    unfold Client.known
    rw [waiting]
  obtain ⟨less,client,listed⟩ := talks.calling queue n calling
  have open_ : Unanswered s.calls (s.clients fd) queue n := ⟨calling,replies⟩
  have only (id m : Nat) (was : Unanswered s.calls (s.clients fd) id m) : id = queue ∧ m = n := by
    obtain ⟨rfl,rfl⟩ := Prod.mk.inj (Option.some.inj (calling.symm.trans was.1))
    exact ⟨rfl,rfl⟩
  unfold flushQueue
  cases found : updateFirst (flushable queue) (fun a => {a with flushWait := some n}) own with
  | none =>
    -- The client's queue is in its list.
    obtain ⟨a,inside,id,kind,_⟩ := talks.owned (queue,true) (known ▸ listed)
    have out := updateFirst_none.mp found a inside
    simp [flushable,id,kind] at out
  | some own' =>
    obtain ⟨x,a,y,rfl,rfl,here⟩ := updateFirst_split found
    obtain ⟨rfl,_⟩ : a.id = queue ∧ a.commandQueue = true := by simpa [flushable] using here
    have middle : a ∈ x ++ a :: y := List.mem_append_right _ List.mem_cons_self
    simp only [onClient,onCall,onAllocations,first_updated front (sound.apart front)]
    refine sound.exchange
      (?_ : Exchange s _ fd (x ++ a :: y) (x ++ {a with flushWait := some n} :: y) before after) (sound.flagged front rfl rfl) ?_ ?_ ?_
    · refine ⟨front,rfl,rfl,rfl,Nat.le_refl _,?_,?_,?_,fun _ _ => rfl,?_⟩
      · intro other different
        exact update_of_ne different _ _
      · intro m _ foreign
        exact update_of_ne (fun eq => foreign (by rw [eq]; exact client)) _ _
      · intro m was foreign
        refine ⟨was,fun mine => foreign ?_⟩
        by_cases eq : m = n
        · simp only [eq,update_self]
          exact client
        · simp only [update_of_ne eq]
          exact mine
      · exact same_slots rfl
    · simp only [update_self]
      refine talks.change rfl rfl rfl rfl rfl (.inl rfl) (fun m member => absurd member List.not_mem_nil) ?_ ?_ ?_ ?_ ?_
      · simp only [waiting,answers]
        exact .received (by rw [update_self]) (by rw [update_self]; exact replies)
      · intro m
        by_cases eq : m = n
        · rw [eq,update_self]
          exact ⟨rfl,rfl⟩
        · rw [update_of_ne eq]
          exact ⟨rfl,rfl⟩
      · intro b other
        refine ⟨rfl,fun m was => ?_⟩
        exact absurd (congrArg blockSlot (only b.id m was).1) (sound.others front b other)
      · intro m was
        obtain ⟨_,rfl⟩ := only a.id m was
        have pending := talks.pending a middle m was
        refine ⟨?_,?_⟩
        · rw [update_self]
          rfl
        · rw [update_self]
          exact pending.done
      · intro none
        exact absurd open_ (none n)
    · intro m
      by_cases eq : m = n
      · simp only [eq,update_self]
        exact .inl replies
      · simp only [update_of_ne eq]
        exact sound.answers m
    · intro m more
      have eq : m ≠ n := fun eq => absurd less (Nat.not_lt.mpr (eq ▸ more))
      simp only [update_of_ne eq]
      exact sound.unmade m more

theorem handle_sound (sound : Sound s) (fd : Nat) (mapped : Option Mapped) (key : Nat) : Sound (s.act (.handle fd mapped key)) := by
  simp only [act]
  split
  · rename_i k request rest found asked
    obtain ⟨before,after,front⟩ := located found
    cases request with
    | alloc commandQueue => exact handle_alloc sound front asked mapped key
    | free id => exact handle_free sound front asked
    | flush id n => exact handle_flush sound front asked
  · exact sound

theorem disposeCounts_counted {table locks : Nat → Int} {own : List Allocation} {before after : List (Nat × Bool)}
    (counted : Counted table locks (before ++ entries own ++ after)) :
    Counted (disposeCounts table own) locks (before ++ entries (own.map .dispose) ++ after) := by
  unfold disposeCounts
  induction own generalizing table before with
  | nil => exact counted
  | cons a rest ih =>
    have front : Counted table locks (before ++ (a.slot,a.countDisposed) :: (entries rest ++ after)) := by
      simpa [entries] using counted
    have next : Counted (if a.countDisposed then table else update table a.slot (table a.slot - 1)) locks
        ((before ++ [(a.slot,true)]) ++ entries rest ++ after) := by
      simp only [List.append_assoc,List.cons_append,List.nil_append]
      cases disposed : a.countDisposed with
      | true =>
        rw [disposed] at front
        exact front
      | false =>
        rw [disposed] at front
        exact front.dispose
    have final := ih next
    rw [List.foldl_cons]
    have shape : before ++ entries ((a :: rest).map .dispose) ++ after = before ++ [(a.slot,true)] ++ entries (rest.map .dispose) ++ after := by
      simp only [entries,List.map_cons,List.append_assoc,List.cons_append,List.nil_append]
      rfl
    rw [shape]
    exact final

theorem disconnect_sound (sound : Sound s) (fd : Nat) : Sound (s.act (.disconnect fd)) := by
  simp only [act,handleDisconnect]
  split
  · rename_i k found
    obtain ⟨before,after,front⟩ := located found
    have fds := sound.fds
    rw [front,List.map_append,List.map_cons] at fds
    have rest : s.list.first.filter (fun k => !connection fd k) = before ++ after := by
      have here : connection fd ⟨some fd,k.allocations⟩ = true := by simp [connection]
      have right (k' : Connection) (member : k' ∈ after) : connection fd k' = false := by
        have other : k'.fd ≠ some fd := fun same =>
          (List.nodup_cons.mp (List.nodup_append.mp fds).2.1).1 (List.mem_map.mpr ⟨k',member,same⟩)
        simpa [connection] using other
      rw [front,List.filter_append,List.filter_cons_of_neg (by simp [here])]
      rw [List.filter_eq_self.mpr fun k' member => by rw [sound.apart front k' member]; rfl,
        List.filter_eq_self.mpr fun k' member => by rw [right k' member]; rfl]
    rw [rest]
    have still (k' : Connection) (member : k' ∈ before ++ after) : k' ∈ s.list.first := by
      rw [front]
      simp only [List.mem_append,List.mem_cons] at member ⊢
      tauto
    refine ⟨?_,?_,fun k' member => sound.opened k' (still k' member),?_,sound.strangers,
      fun k' member => sound.talks k' (still k' member),sound.answers,sound.unmade,?_⟩
    · refine (disposeCounts_counted (sound.counted_at front)).perm ?_
      rw [all_owned]
      have split : owned (before ++ after) = owned before ++ owned after := List.flatMap_append
      have closed : owned (⟨none,k.allocations.map .dispose⟩ :: s.list.firstClosed) = k.allocations.map .dispose ++ owned s.list.firstClosed :=
        List.flatMap_cons
      rw [split,closed]
      simp only [entries_append,List.append_assoc]
      refine List.Perm.append_left _ ?_
      rw [← List.append_assoc,← List.append_assoc]
      exact List.perm_append_comm.append_right _
    · rw [List.map_append]
      exact (List.sublist_cons_self _ _).append_left _ |>.nodup fds
    · intro k' member
      rcases List.mem_cons.mp member with rfl | old
      · rfl
      · exact sound.closed k' old
    · intro i n member
      obtain ⟨less,there⟩ := sound.queued i n member
      exact ⟨less,fun k' inside => there k' (still k' inside)⟩
  · exact sound

theorem lock_sound (sound : Sound s) (slot : Nat) : Sound (s.act (.lock slot)) := by
  simp only [act]
  split
  · rename_i guard
    obtain ⟨idle,_,used⟩ := guard
    have counted := sound.counted
    rw [idle] at counted
    have more := counted.lock used
    exact ⟨more,sound.fds,sound.opened,sound.closed,sound.strangers,sound.talks,sound.answers,sound.unmade,sound.queued⟩
  · exact sound

theorem unlock_sound (sound : Sound s) : Sound (s.act .unlock) := by
  simp only [act]
  split
  · rename_i slot held
    have counted := sound.counted
    rw [held] at counted
    have less := counted.unlock
    exact ⟨less,sound.fds,sound.opened,sound.closed,sound.strangers,sound.talks,sound.answers,sound.unmade,sound.queued⟩
  · exact sound

theorem receivedFlush_cases (slot n : Nat) (l : List Connection) :
    ((∀ k ∈ l, ∀ a ∈ k.allocations, flushed slot a = false) ∧ receivedFlush slot n l = l) ∨
      ∃ before fd x a y after, l = before ++ ⟨fd,x ++ a :: y⟩ :: after ∧ flushed slot a = true ∧
        receivedFlush slot n l = before ++ ⟨fd,x ++ {a with flushDone := some n} :: y⟩ :: after := by
  induction l with
  | nil => exact .inl ⟨fun k member => absurd member List.not_mem_nil,rfl⟩
  | cons k rest ih =>
    unfold receivedFlush
    cases found : updateFirst (flushed slot) (fun a => {a with flushDone := some n}) k.allocations with
    | some own =>
      obtain ⟨x,a,y,split,rfl,here⟩ := updateFirst_split found
      obtain ⟨fd,allocations⟩ := k
      obtain rfl : allocations = x ++ a :: y := split
      exact .inr ⟨[],fd,x,a,y,rest,rfl,here,rfl⟩
    | none =>
      have out := updateFirst_none.mp found
      rcases ih with ⟨later,same⟩ | ⟨before,fd,x,a,y,after,split,here,behind⟩
      · refine .inl ⟨?_,by simp only [same]⟩
        intro k' member
        rcases List.mem_cons.mp member with rfl | old
        · exact out
        · exact later k' old
      · exact .inr ⟨k :: before,fd,x,a,y,after,by rw [split]; rfl,here,by simp only [behind]; rfl⟩

theorem executed_calls (calls : Nat → FlushCall) (n m : Nat) :
    (update calls n {calls n with executed := true} m).client = (calls m).client ∧
      (update calls n {calls n with executed := true} m).received = (calls m).received ∧
      (update calls n {calls n with executed := true} m).replies = (calls m).replies ∧
      ((calls m).executed = true → (update calls n {calls n with executed := true} m).executed = true) := by
  by_cases same : m = n
  · rw [same,update_self]
    exact ⟨rfl,rfl,rfl,fun _ => rfl⟩
  · rw [update_of_ne same]
    exact ⟨rfl,rfl,rfl,fun done => done⟩

theorem execute_sound (sound : Sound s) : Sound (s.act .execute) := by
  simp only [act,onCall]
  split
  · rename_i slot held
    split
    · rename_i n rest queue
      have head : n ∈ s.memory slot := by rw [queue]; exact List.mem_cons_self
      obtain ⟨less,there⟩ := sound.queued slot n head
      have answers (m : Nat) : (update s.calls n {s.calls n with executed := true} m).replies = [] ∨
          (update s.calls n {s.calls n with executed := true} m).replies = [some m] ∧
            (update s.calls n {s.calls n with executed := true} m).executed = true := by
        obtain ⟨_,_,replies,done⟩ := executed_calls s.calls n m
        rw [replies]
        exact (sound.answers m).imp_right fun given => ⟨given.1,done given.2⟩
      have unmade (m : Nat) (more : s.made ≤ m) : (update s.calls n {s.calls n with executed := true} m).received = false ∧
          (update s.calls n {s.calls n with executed := true} m).replies = [] := by
        obtain ⟨_,received,replies,_⟩ := executed_calls s.calls n m
        rw [received,replies]
        exact sound.unmade m more
      rcases receivedFlush_cases slot n s.list.first with ⟨none,same⟩ | ⟨before,fd?,x,a,y,after,front,here,behind⟩
      · -- Nobody who is connected has the slot, and the call is nobody's who is.
        have stranger (k : Connection) (member : k ∈ s.list.first) : k.fd ≠ some (s.calls n).client := by
          intro mine
          obtain ⟨a,inside,at_⟩ := there k member mine
          obtain ⟨before,after,front⟩ := List.append_of_mem member
          obtain ⟨fd?,own⟩ := k
          obtain rfl : fd? = some (s.calls n).client := mine
          have talks := sound.mine front
          have busy : ¬Quiet s.memory a := by
            rintro ⟨empty,_⟩
            rw [at_,queue] at empty
            cases empty
          obtain ⟨m,open_,_⟩ := talks.working inside busy
          have kind := talks.kind (sound.slots front) inside open_.1
          have out := none _ member a inside
          simp [flushed,at_,kind] at out
        rw [same]
        refine ⟨sound.counted,sound.fds,sound.opened,sound.closed,?_,?_,answers,unmade,?_⟩
        · intro fd out
          obtain ⟨clean,others⟩ := sound.strangers fd out
          exact ⟨clean,fun m before mine => others m before ((executed_calls s.calls n m).1.symm.trans mine)⟩
        · intro k member fd mine
          have apart (m : Nat) (owner : (s.calls m).client = fd) : m ≠ n := by
            rintro rfl
            exact stranger k member (mine.trans (congrArg some owner.symm))
          refine (sound.talks k member fd mine).frame (Nat.le_refl _) ?_ ?_ ?_
          · intro m _ owner
            exact update_of_ne (apart m owner) _ _
          · intro m before owner
            exact ⟨before,(executed_calls s.calls n m).1.symm.trans owner⟩
          · intro a inside
            refine update_of_ne ?_ _ _
            intro at_
            have owner := ((sound.talks k member fd mine).queued inside (by rw [at_]; exact head)).2
            exact stranger k member (mine.trans (congrArg some owner.symm))
        · intro i m member
          have old : m ∈ s.memory i := by
            by_cases here : i = slot
            · simp only [here,update_self] at member
              rw [here,queue]
              exact List.mem_cons_of_mem _ member
            · simpa only [update_of_ne here] using member
          obtain ⟨before,there⟩ := sound.queued i m old
          refine ⟨before,fun k inside mine => there k inside ?_⟩
          exact mine.trans (congrArg some (executed_calls s.calls n m).1)
      · obtain ⟨at_,_⟩ : a.slot = slot ∧ a.commandQueue = true := by simpa [flushed] using here
        obtain ⟨fd,_,opened⟩ := sound.opened ⟨fd?,x ++ a :: y⟩ (by rw [front]; exact List.mem_append_right _ List.mem_cons_self)
        obtain rfl : fd? = some fd := opened
        have talks := sound.mine front
        have middle : a ∈ x ++ a :: y := List.mem_append_right _ List.mem_cons_self
        have owner := (talks.queued middle (by rw [at_]; exact head)).2
        have busy : ¬Quiet s.memory a := by
          rintro ⟨empty,_⟩
          rw [at_,queue] at empty
          cases empty
        obtain ⟨m,open_,pending⟩ := talks.working middle busy
        obtain ⟨one,flag,_⟩ : s.memory a.slot = [m] ∧ a.flushDone = none ∧ (s.calls m).executed = false := by
          rcases pending.done with first | ⟨empty,_,_⟩
          · exact first
          · rw [at_,queue] at empty
            cases empty
        rw [at_,queue] at one
        obtain ⟨rfl,rfl⟩ := List.cons.inj one
        rw [behind]
        refine sound.exchange
          (?_ : Exchange s _ fd (x ++ a :: y) (x ++ {a with flushDone := some n} :: y) before after) (sound.flagged front rfl rfl) ?_ answers unmade
        · refine ⟨front,rfl,rfl,rfl,Nat.le_refl _,fun _ _ => rfl,?_,?_,?_,?_⟩
          · intro m _ foreign
            exact update_of_ne (fun eq => foreign (by rw [eq]; exact owner)) _ _
          · intro m before foreign
            exact ⟨before,fun mine => foreign ((executed_calls s.calls n m).1.trans mine)⟩
          · intro i out
            refine update_of_ne ?_ _ _
            rintro rfl
            exact out _ (List.mem_append_right _ List.mem_cons_self) at_
          · exact same_slots rfl
        · have only (id m : Nat) (was : Unanswered s.calls (s.clients fd) id m) : id = a.id ∧ m = n := by
            obtain ⟨rfl,rfl⟩ := Prod.mk.inj (Option.some.inj (open_.1.symm.trans was.1))
            exact ⟨rfl,rfl⟩
          refine talks.change rfl rfl rfl rfl rfl (.inl rfl) (fun m member => member) ?_ ?_ ?_ ?_ ?_
          · exact talks.socket.congr fun id m _ => ⟨(executed_calls s.calls n m).2.1,(executed_calls s.calls n m).2.2.1⟩
          · intro m
            obtain ⟨client,_,replies,_⟩ := executed_calls s.calls n m
            exact ⟨client,replies⟩
          · intro b other
            have apart := sound.others front b other
            refine ⟨update_of_ne (fun eq => apart (eq.trans at_.symm)) _ _,fun m was => ?_⟩
            exact absurd (congrArg blockSlot (only b.id m was).1) apart
          · intro m was
            obtain ⟨_,rfl⟩ := only a.id m was
            refine ⟨?_,.inr ⟨?_,rfl,?_⟩⟩
            · simp only [update_self]
              exact pending.wait
            · change update s.memory slot [] a.slot = []
              rw [at_,update_self]
            · simp only [update_self]
          · intro none
            exact absurd open_ (none n)
    · exact sound
  · exact sound

theorem swept_fds {l l' : List Connection} (swept : List.Forall₂ Swept l l') : l'.map Connection.fd = l.map Connection.fd := by
  induction swept with
  | nil => rfl
  | cons one _ ih => rw [List.map_cons,List.map_cons,one.fd,ih]

theorem swept_from {l l' : List Connection} (swept : List.Forall₂ Swept l l') (member : k ∈ l') : ∃ k₀ ∈ l, Swept k₀ k := by
  induction swept with
  | nil => cases member
  | cons one _ ih =>
    rcases List.mem_cons.mp member with rfl | later
    · exact ⟨_,List.mem_cons_self,one⟩
    · obtain ⟨k₀,there,rest⟩ := ih later
      exact ⟨k₀,List.mem_cons_of_mem _ there,rest⟩

def sentTo (k : Connection) : List (Nat × Nat × Nat) := k.allocations.flatMap (acknowledged k.fd)

theorem sentTo_fd (member : r ∈ sentTo k) : k.fd = some r.1 := by
  obtain ⟨a,_,sent⟩ := List.mem_flatMap.mp member
  unfold acknowledged at sent
  split at sent
  · rename_i fd n m there _ _
    obtain rfl := List.mem_singleton.mp sent
    exact there
  · cases sent

theorem sent_closed {l : List Connection} (closed : ∀ k ∈ l, k.fd = none) : l.flatMap sentTo = [] := by
  apply List.flatMap_eq_nil_iff.mpr
  intro k member
  apply List.eq_nil_iff_forall_not_mem.mpr
  intro r sent
  have there := sentTo_fd sent
  rw [closed k member] at there
  cases there

-- What goes out in a sweep, and to whom.
theorem sent_mine (sound : Sound s) (front : s.list.first = before ++ ⟨some fd,own⟩ :: after) :
    (s.list.first.flatMap sentTo).filter (fun r => r.1 == fd) = own.flatMap (acknowledged (some fd)) := by
  have fds := sound.fds
  rw [front,List.map_append,List.map_cons] at fds
  obtain ⟨_,later,apart⟩ := List.nodup_append.mp fds
  have none (l : List Connection) (others : ∀ k ∈ l, k.fd ≠ some fd) : (l.flatMap sentTo).filter (fun r => r.1 == fd) = [] := by
    apply List.filter_eq_nil_iff.mpr
    intro r member mine
    obtain ⟨k,there,sent⟩ := List.mem_flatMap.mp member
    exact others k there ((sentTo_fd sent).trans (congrArg some (beq_iff_eq.mp mine)))
  have all : (sentTo ⟨some fd,own⟩).filter (fun r => r.1 == fd) = sentTo ⟨some fd,own⟩ := by
    apply List.filter_eq_self.mpr
    intro r member
    exact beq_iff_eq.mpr (Option.some.inj (sentTo_fd member)).symm
  rw [front,List.flatMap_append,List.flatMap_cons,List.filter_append,List.filter_append,all,
    none before fun k member same => apart k.fd (List.mem_map_of_mem member) (some fd) List.mem_cons_self same,
    none after fun k member same => (List.nodup_cons.mp later).1 (List.mem_map.mpr ⟨k,member,same⟩)]
  exact List.append_nil _

-- The connection that a reply is sent on.
theorem sent_from (member : r ∈ s.list.first.flatMap sentTo) : ∃ before own after,
    s.list.first = before ++ ⟨some r.1,own⟩ :: after ∧ r ∈ own.flatMap (acknowledged (some r.1)) := by
  obtain ⟨k,there,sent⟩ := List.mem_flatMap.mp member
  have fd := sentTo_fd sent
  obtain ⟨fd',own⟩ := k
  obtain rfl : fd' = some r.1 := fd
  obtain ⟨before,after,front⟩ := List.append_of_mem there
  exact ⟨before,own,after,front,sent⟩

theorem sent_client (sound : Sound s) (member : r ∈ s.list.first.flatMap sentTo) :
    (s.calls r.2.1).client = r.1 ∧ (s.calls r.2.1).replies = [] ∧ (s.calls r.2.1).executed = true ∧ r.2.2 = r.2.1 ∧ r.2.1 < s.made ∧
      r.1 ∈ s.accepted := by
  obtain ⟨before,own,after,front,sent⟩ := sent_from member
  have talks := sound.mine front
  obtain ⟨fd',listed,same⟩ := sound.opened _ (connected_at front)
  obtain rfl := Option.some.inj same
  rcases talks.sent (sound.nodup front) with ⟨silent,_⟩ | ⟨a,n,replying⟩
  · rw [silent] at sent
    cases sent
  · rw [replying.sent] at sent
    have one : r = (r.1,n,n) := List.mem_singleton.mp sent
    have calling : (s.clients r.1).calling = some (a.id,n) := by rw [Client.calling,replying.waiting]; rfl
    obtain ⟨less,client,_⟩ := talks.calling a.id n calling
    have two : r.2.1 = n := congrArg (·.2.1) one
    have three : r.2.2 = n := congrArg (·.2.2) one
    rw [two,three]
    exact ⟨client,replying.replies,replying.executed,rfl,less,listed⟩

theorem sent_call (sound : Sound s) (front : s.list.first = before ++ ⟨some fd,own⟩ :: after) (client : (s.calls n).client = fd) :
    (s.list.first.flatMap sentTo).filter (fun r => r.2.1 == n) =
      (own.flatMap (acknowledged (some fd))).filter (fun r => r.2.1 == n) := by
  rw [← sent_mine sound front,List.filter_filter]
  apply List.filter_congr
  intro r member
  by_cases same : r.2.1 = n
  · have mine := (sent_client sound member).1
    rw [same,client] at mine
    simp [same,mine]
  · simp [same]

-- The state behind a sweep.
theorem sweep_parts (sound : Sound s) : ∃ table first closed,
    s.sweep = {s with table := table,list := ⟨first,closed⟩}.deliver (s.list.first.flatMap sentTo) ∧
      Counted table (lockOf s.spu) (entries (ConnectionList.allocations ⟨first,closed⟩)) ∧
      List.Forall₂ Swept s.list.first first ∧ ∀ k ∈ closed, k.fd = none := by
  have counted := sound.counted
  rw [all_owned,entries_append] at counted
  rw [← List.nil_append (entries (owned s.list.first))] at counted
  obtain ⟨one,swept⟩ := connections_counted counted
  rw [List.nil_append,← List.append_nil (entries (owned s.list.firstClosed)),← List.append_assoc] at one
  obtain ⟨two,gone⟩ := connections_counted one
  let behind := processConnections (processConnections s.table s.list.first).1 s.list.firstClosed
  refine ⟨behind.1,_,behind.2.1.filter fun k => !k.allocations.isEmpty,?_,?_,swept,?_⟩
  · unfold sweep
    simp only [connections_sent]
    have none : (s.list.firstClosed.flatMap fun k => k.allocations.flatMap (acknowledged k.fd)) = [] := sent_closed sound.closed
    rw [none,List.append_nil]
    rfl
  · rw [all_owned,entries_append]
    have kept (l : List Connection) : owned (l.filter fun k => !k.allocations.isEmpty) = owned l := by
      induction l with
      | nil => rfl
      | cons k rest ih =>
        cases own : k.allocations with
        | nil => simpa [owned,own] using ih
        | cons => simpa [owned,own] using ih
    rw [kept]
    simpa using two
  · intro k member
    obtain ⟨k₀,there,one⟩ := swept_from gone (List.mem_of_mem_filter member)
    exact one.fd.trans (sound.closed k₀ there)

theorem sweep_sound (sound : Sound s) : Sound s.sweep := by
  obtain ⟨table,first,closed,behind,counted,swept,none⟩ := sweep_parts sound
  rw [behind]
  unfold deliver
  have quiet (n : Nat) (out : ∀ r ∈ s.list.first.flatMap sentTo, r.2.1 ≠ n) :
      (s.list.first.flatMap sentTo).filter (fun r => r.2.1 == n) = [] := by
    apply List.filter_eq_nil_iff.mpr
    intro r member same
    exact out r member (beq_iff_eq.mp same)
  refine ⟨counted,?_,?_,none,?_,?_,?_,?_,?_⟩
  · simp only [swept_fds swept]
    exact sound.fds
  · intro k member
    obtain ⟨k₀,there,one⟩ := swept_from swept member
    rw [one.fd]
    exact sound.opened k₀ there
  · intro fd out
    obtain ⟨clean,others⟩ := sound.strangers fd out
    have silent : (s.list.first.flatMap sentTo).filter (fun r => r.1 == fd) = [] := by
      apply List.filter_eq_nil_iff.mpr
      intro r member same
      have listed := (sent_client sound member).2.2.2.2.2
      exact out (beq_iff_eq.mp same ▸ listed)
    refine ⟨?_,others⟩
    simp only [silent,clean]
    rfl
  · intro k member fd mine
    obtain ⟨⟨fd',own⟩,there,one⟩ := swept_from swept member
    obtain rfl : fd' = some fd := one.fd.symm.trans mine
    obtain ⟨before,after,front⟩ := List.append_of_mem there
    simp only [sent_mine sound front]
    refine (sound.mine front).swept (sound.nodup front) one.only one.kept (fun n => rfl) ?_
    intro n client
    simp only [sent_call sound front client]
  · intro n
    simp only
    by_cases out : ∀ r ∈ s.list.first.flatMap sentTo, r.2.1 ≠ n
    · rw [quiet n out]
      simpa using sound.answers n
    · obtain ⟨r,member,here⟩ : ∃ r ∈ s.list.first.flatMap sentTo, r.2.1 = n := by
        by_contra nobody
        exact out fun r member same => nobody ⟨r,member,same⟩
      obtain ⟨client,empty,executed,_,_⟩ := sent_client sound member
      rw [here] at client empty executed
      -- Its client is one of those connected, and it gets one reply.
      obtain ⟨before,own,after,front,_⟩ := sent_from member
      rw [sent_call sound front client]
      rcases (sound.mine front).sent (sound.nodup front) with ⟨silent,_⟩ | ⟨a,m,replying⟩
      · rw [silent,empty]
        exact .inl rfl
      · rw [replying.sent]
        rw [empty]
        by_cases same : m = n
        · refine .inr ⟨?_,executed⟩
          simp [same]
        · exact .inl (by simp [same])
  · intro n more
    have out (r : Nat × Nat × Nat) (member : r ∈ s.list.first.flatMap sentTo) : r.2.1 ≠ n := by
      rintro rfl
      exact absurd (sent_client sound member).2.2.2.2.1 (Nat.not_lt.mpr more)
    simp only [quiet n out]
    simpa using sound.unmade n more
  · intro i n member
    obtain ⟨less,there⟩ := sound.queued i n member
    refine ⟨less,?_⟩
    intro k inside mine
    obtain ⟨⟨fd',own⟩,was,one⟩ := swept_from swept inside
    obtain rfl : fd' = some (s.calls n).client := one.fd.symm.trans mine
    obtain ⟨a,listed,at_⟩ := there _ was rfl
    obtain ⟨before,after,front⟩ := List.append_of_mem was
    have talks := sound.mine front
    have busy : ¬Quiet s.memory a := by
      rintro ⟨empty,_⟩
      rw [at_] at empty
      rw [empty] at member
      cases member
    obtain ⟨m,open_,_⟩ := talks.working listed busy
    -- Its queue is not disposed and stays.
    have known : (s.clients (s.calls n).client).known = (s.clients (s.calls n).client).buffers := by
      unfold Client.known
      cases waiting : (s.clients (s.calls n).client).waiting with
      | allocating =>
        have calling := open_.1
        rw [Client.calling,waiting] at calling
        cases calling
      | _ => rfl
    obtain ⟨b,inside',id,_,live⟩ := talks.owned (a.id,true) (known ▸ (talks.calling a.id m open_.1).2.2)
    have same : a = b := sound.slots front a listed b inside' (congrArg blockSlot id.symm)
    exact ⟨acknowledge a,one.kept a listed (same ▸ live),(congrArg blockSlot (acknowledge_kept a).1).trans at_⟩

theorem act_sound (sound : Sound s) (a : Act) : Sound (s.act a) := by
  cases a with
  | accept fd => exact accept_sound sound fd
  | allocate fd commandQueue => exact allocate_sound sound fd commandQueue
  | free fd id => exact free_sound sound fd id
  | glFlush fd id => exact glFlush_sound sound fd id
  | spuglFlush fd => exact spuglFlush_sound sound fd
  | recv fd => exact recv_sound sound fd
  | handle fd mapped key => exact handle_sound sound fd mapped key
  | disconnect fd => exact disconnect_sound sound fd
  | sweep => exact sweep_sound sound
  | lock slot => exact lock_sound sound slot
  | execute => exact execute_sound sound
  | unlock => exact unlock_sound sound

theorem reached_sound (path : Reached s) : Sound s := by
  apply Runs.Reached.invariant Sound _ _ path
  · rintro s rfl
    exact start_sound
  · rintro s next sound ⟨a,_,rfl⟩
    exact act_sound sound a

theorem Sound.completes (sound : Sound s) (received : (s.calls n).received = true) (executed : (s.calls n).executed = true)
    (connected : s.connected (s.calls n).client = true) (replies : (s.calls n).replies = []) : (s.sweep.calls n).replies = [some n] := by
  obtain ⟨before,own,after,front⟩ := connected_split connected
  have talks := sound.mine front
  have less : n < s.made := by
    by_contra more
    have none := (sound.unmade n (Nat.not_lt.mp more)).1
    rw [none] at received
    cases received
  obtain ⟨queue,calling⟩ := talks.settled n less rfl replies
  have known : (s.clients (s.calls n).client).known = (s.clients (s.calls n).client).buffers := by
    unfold Client.known
    rw [(talks.socket.answered calling received replies).1]
  obtain ⟨a,inside,id,_⟩ := talks.owned (queue,true) (known ▸ (talks.calling queue n calling).2.2)
  obtain rfl : a.id = queue := id
  have pending := talks.pending a inside n ⟨calling,replies⟩
  have wait : a.flushWait = some n := by
    rw [pending.wait,received]
    rfl
  have done : a.flushDone = some n := by
    rcases pending.done with ⟨_,_,not⟩ | ⟨_,given,_⟩
    · rw [not] at executed
      cases executed
    · exact given
  obtain ⟨table,first,closed,behind,_⟩ := sweep_parts sound
  rw [behind]
  simp only [deliver]
  rw [sent_call sound front rfl,replies]
  rcases talks.sent (sound.nodup front) with ⟨silent,_⟩ | ⟨b,m,replying⟩
  · have sent := List.flatMap_eq_nil_iff.mp silent a inside
    simp [acknowledged,wait,done] at sent
  · have again : (s.clients (s.calls n).client).calling = some (b.id,m) := by rw [Client.calling,replying.waiting]; rfl
    obtain ⟨_,rfl⟩ := Prod.mk.inj (Option.some.inj (calling.symm.trans again))
    rw [replying.sent]
    simp

theorem Sound.waits (sound : Sound s) (connected : s.connected fd = true) (waiting : (s.clients fd).waiting = .flushing queue n) :
    (s.calls n).client = fd ∧ (s.clients fd).answers = (s.calls n).replies.map fun _ => .flushed n := by
  obtain ⟨before,own,after,front⟩ := connected_split connected
  have talks := sound.mine front
  have calling : (s.clients fd).calling = some (queue,n) := by rw [Client.calling,waiting]; rfl
  refine ⟨(talks.calling queue n calling).2.1,?_⟩
  have socket := talks.socket
  rw [waiting] at socket
  generalize (s.clients fd).requests = requests,(s.clients fd).answers = answers at socket ⊢
  cases socket with
  | asked _ _ replies => rw [replies]; rfl
  | received _ replies => rw [replies]; rfl
  | replied _ replies => rw [replies]; rfl

-- The replies to each call of glFlush, in every order of everybody's steps.
theorem flushes_acknowledged (path : Reached s) (n : Nat) :
    ((s.calls n).replies = [] ∨ (s.calls n).replies = [some n] ∧ (s.calls n).executed = true) ∧
      ((s.calls n).received = true → (s.calls n).executed = true → s.connected (s.calls n).client = true →
        ((s.act .sweep).calls n).replies = [some n]) ∧
      ∀ fd queue, s.connected fd = true → (s.clients fd).waiting = .flushing queue n →
        (s.calls n).client = fd ∧ (s.clients fd).answers = (s.calls n).replies.map fun _ => .flushed n := by
  have sound := reached_sound path
  refine ⟨sound.answers n,?_,fun fd queue connected waiting => sound.waits connected waiting⟩
  intro received executed connected
  rcases sound.answers n with empty | ⟨given,_⟩
  · exact sound.completes received executed connected empty
  · -- It was sent before, and a sweep takes nothing back.
    rcases (sweep_sound sound).answers n with empty | ⟨again,_⟩
    · obtain ⟨table,first,closed,behind,_⟩ := sweep_parts sound
      rw [behind] at empty
      simp [deliver,given] at empty
    · exact again

-- Client 7 flushes its queue in slot 0 and frees it. Then the slot is client 8's, and 7 has a queue in slot 1. Both flush,
-- and the primary SPU has come to the GL_FLUSH of client 8.
def flushedAgain : List Act :=
  [.accept 7,.allocate 7 true,.handle 7 (some ⟨4096,1024,9⟩) 5,.recv 7,
    .glFlush 7 (blockId 0 5),.spuglFlush 7,.handle 7 none 0,.sweep,.lock 0,.execute,.unlock,.sweep,.recv 7,
    .free 7 (blockId 0 5),.handle 7 none 0,.sweep,
    .accept 8,.allocate 8 true,.handle 8 (some ⟨4096,1024,10⟩) 6,.recv 8,.allocate 7 true,.handle 7 (some ⟨8192,1024,11⟩) 7,.recv 7,
    .glFlush 8 (blockId 0 6),.glFlush 7 (blockId 1 7),.spuglFlush 7,.spuglFlush 8,.handle 7 none 0,.handle 8 none 0,.lock 0,.execute]

theorem flushes_acknowledged_again : (((flushedAgain.foldl act start).act .sweep).calls 1).replies = [some 1] ∧
    ((flushedAgain.foldl act start).calls 2).client = 7 ∧ ((flushedAgain.foldl act start).clients 7).answers = [] := by
  have begun : Runs.Reached (· = start) (Runs.Step act fun _ _ => True) start := .start rfl
  have path : Reached (flushedAgain.foldl act start) := begun.follow (by simp [flushedAgain,Runs.Admits])
  have unanswered : ((flushedAgain.foldl act start).calls 2).replies = [] := by decide
  obtain ⟨client,answers⟩ := (flushes_acknowledged path 2).2.2 7 (blockId 1 7) (by decide) (by decide)
  rw [unanswered] at answers
  exact ⟨(flushes_acknowledged path 1).2.1 (by decide) (by decide) (by decide),client,answers⟩

end Spugl.Handshake
