import Spugl.HandshakeRegions
import Spugl.CommandEncoding

namespace Spugl

-- A header of the list in the client. `file` is what its descriptor is open at.
structure SPUGL_Buffer where
  data : Nat
  id : Nat
  size : Nat
  file : Nat
  deriving DecidableEq

def SPUGL_Buffer.holds (test : SPUGL_Buffer) (buffer : Nat) : Bool :=
  let testStart := test.data
  let testEnd := test.size + testStart
  decide (buffer ≥ testStart) && decide (buffer < testEnd)

-- Gives the id and the base.
def spuglBufferBaseAddress (firstBuffer : List SPUGL_Buffer) (buffer : Nat) : Option (Nat × Nat) :=
  (firstBuffer.find? (·.holds buffer)).map fun test => (test.id,test.data)

-- The handshake with what is behind the buffers: virtmem files by their name_id, the files that the server's descriptors
-- are open at, _block_mgr_ea_table, and in each client firstBuffer, the size that it has asked for last and the file that
-- came with the reply.
structure SharedBuffers where
  handshake : Handshake
  name_id : Nat
  opened : Nat → Nat
  ea_table : Nat → Nat
  firstBuffer : Nat → List SPUGL_Buffer
  asked : Nat → Nat
  passed : Nat → Nat

inductive SharedAct where
  | allocate (fd : Nat) (commandQueue : Bool) (size : Nat)
  | free (fd buffer : Nat)
  | recv (fd memory : Nat)
  | handle (fd : Nat) (mapped : Option Mapped) (key : Nat)
  | other (a : Handshake.Act)

namespace SharedBuffers
open Function

def start : SharedBuffers := ⟨.start,0,fun _ => 0,fun _ => 0,fun _ => [],fun _ => 0,fun _ => 0⟩

def allocateBuffer (s : SharedBuffers) (fd : Nat) (mapped : Option Mapped) (commandQueue : Bool) : SharedBuffers :=
  let s := {s with name_id := s.name_id + 1}
  match mapped,s.handshake.blockManagementAllocateBlock commandQueue with
  | some m,some i =>
    { s with
      opened := update s.opened m.fd s.name_id
      ea_table := update s.ea_table i m.buffer
      passed := update s.passed fd s.name_id }
  | _,_ => s

-- A client that waits for a reply makes no other call, and one that is not connected none.
def act (s : SharedBuffers) : SharedAct → SharedBuffers
  | .allocate fd commandQueue size =>
    if s.handshake.connected fd ∧ (s.handshake.clients fd).waiting = .nothing then
      {s with handshake := s.handshake.act (.allocate fd commandQueue),asked := update s.asked fd size}
    else s
  | .free fd buffer =>
    if s.handshake.connected fd ∧ (s.handshake.clients fd).waiting = .nothing then
      match (s.firstBuffer fd).find? (·.data == buffer) with
      | some test =>
        { s with
          handshake := s.handshake.act (.free fd test.id)
          firstBuffer := update s.firstBuffer fd ((s.firstBuffer fd).eraseP (·.data == buffer)) }
      | none => s
    else s
  | .recv fd memory =>
    if s.handshake.connected fd then
      match (s.handshake.clients fd).replied with
      | some id =>
        { s with
          handshake := s.handshake.act (.recv fd)
          firstBuffer := update s.firstBuffer fd (⟨memory,id,s.asked fd,s.passed fd⟩ :: s.firstBuffer fd) }
      | none => {s with handshake := s.handshake.act (.recv fd)}
    else s
  | .handle fd mapped key =>
    match s.handshake.received fd with
    | some (.alloc commandQueue) => {s.allocateBuffer fd mapped commandQueue with handshake := s.handshake.act (.handle fd mapped key)}
    | _ => {s with handshake := s.handshake.act (.handle fd mapped key)}
  | .other a => {s with handshake := s.handshake.act a}

def Apart (start size start' size' : Nat) : Prop := start + size ≤ start' ∨ start' + size' ≤ start

-- open gives a descriptor that is not in use, and mmap memory that is not; sizes are unsigned int.
def allowed (s : SharedBuffers) : SharedAct → Prop
  | .allocate _ _ size => size < 2^32
  | .free _ _ => True
  | .recv fd memory => ∀ id ∈ (s.handshake.clients fd).replied, ∀ b ∈ s.firstBuffer fd, Apart memory (s.asked fd) b.data b.size
  | .handle fd mapped _ => ∀ m ∈ mapped, m.size = s.asked fd ∧
      ∀ r ∈ s.handshake.regions, r.fd ≠ m.fd ∧ Apart m.buffer m.size r.buffer r.size
  | .other a =>
    match a with
    | .allocate _ _ | .free _ _ | .recv _ | .handle _ _ _ => False
    | _ => True

def Reached : SharedBuffers → Prop := Runs.Reached (· = start) (Runs.Step act allowed)

-- Byte n of a file is at an address of the server.
def Maps (s : SharedBuffers) (ea file n : Nat) : Prop :=
  ∃ r ∈ s.handshake.regions, s.opened r.fd = file ∧ ea = r.buffer + n ∧ n < r.size

-- What the tables of the server say of a region, and what a client says of a buffer.
structure Shared (s : SharedBuffers) : Prop where
  sound : s.handshake.Sound
  named : ∀ r ∈ s.handshake.regions, s.opened r.fd ≤ s.name_id
  files : ∀ r ∈ s.handshake.regions, ∀ r' ∈ s.handshake.regions, s.opened r.fd = s.opened r'.fd → r = r'
  tables : ∀ r ∈ s.handshake.regions, s.ea_table r.slot = r.buffer
  apart : ∀ r ∈ s.handshake.regions, ∀ r' ∈ s.handshake.regions, r = r' ∨ Apart r.buffer r.size r'.buffer r'.size
  ids : ∀ fd, (s.firstBuffer fd).map SPUGL_Buffer.id = (s.handshake.clients fd).buffers.map Prod.fst
  behind : ∀ fd, s.handshake.connected fd = true → ∀ b ∈ s.firstBuffer fd, ∀ r ∈ s.handshake.regions, r.id = b.id →
    r.size = b.size ∧ s.opened r.fd = b.file
  replied : ∀ fd, s.handshake.connected fd = true → ∀ id, (s.handshake.clients fd).replied = some id →
    ∀ r ∈ s.handshake.regions, r.id = id → r.size = s.asked fd ∧ s.opened r.fd = s.passed fd
  places : ∀ fd, (s.firstBuffer fd).Pairwise fun b b' => Apart b.data b.size b'.data b'.size
  words : ∀ fd, s.asked fd < 2^32 ∧ ∀ b ∈ s.firstBuffer fd, b.size < 2^32

section
variable {s : SharedBuffers} {h : Handshake} {f : Nat → List SPUGL_Buffer} {asked : Nat → Nat} {fd : Nat}

theorem start_shared : Shared start where
  sound := Handshake.start_sound
  named _ member := by cases member
  files _ member := by cases member
  tables _ member := by cases member
  apart _ member := by cases member
  ids _ := rfl
  behind _ connected := by cases connected
  replied _ connected := by cases connected
  places _ := .nil
  words _ := ⟨Nat.two_pow_pos 32,fun _ member => by cases member⟩

-- A step that maps nothing.
theorem Shared.quiet (shared : Shared s) (sound : h.Sound) (quietly : Handshake.Quietly s.handshake h)
    (fewer : ∀ fd, (f fd).Sublist (s.firstBuffer fd)) (ids : ∀ fd, (f fd).map SPUGL_Buffer.id = (h.clients fd).buffers.map Prod.fst)
    (asking : ∀ fd id, (s.handshake.clients fd).replied = some id → asked fd = s.asked fd) (words : ∀ fd, asked fd < 2^32) :
    Shared {s with handshake := h,firstBuffer := f,asked := asked} where
  sound := sound
  named r member := shared.named r (quietly.regions member)
  files r one r' two := shared.files r (quietly.regions one) r' (quietly.regions two)
  tables r member := shared.tables r (quietly.regions member)
  apart r one r' two := shared.apart r (quietly.regions one) r' (quietly.regions two)
  ids := ids
  behind fd connected b member r listed := by
    have inside := (fewer fd).subset member
    rcases quietly.connected fd connected with before | fresh
    · exact shared.behind fd before b inside r (quietly.regions listed)
    · have none := shared.ids fd
      rw [fresh] at none
      rw [List.map_eq_nil_iff.mp none] at inside
      cases inside
  replied fd connected id given r listed same := by
    have old := quietly.replied fd id given
    dsimp only
    rw [asking fd id old]
    rcases quietly.connected fd connected with before | fresh
    · exact shared.replied fd before id old r (quietly.regions listed) same
    · rw [fresh] at old
      cases old
  places fd := (shared.places fd).sublist (fewer fd)
  words fd := ⟨words fd,fun b member => (shared.words fd).2 b ((fewer fd).subset member)⟩

theorem Shared.still (shared : Shared s) (sound : h.Sound) (quietly : Handshake.Quietly s.handshake h)
    (buffers : ∀ fd, (h.clients fd).buffers = (s.handshake.clients fd).buffers) : Shared {s with handshake := h} := by
  apply shared.quiet sound quietly (fun fd => List.Sublist.refl _) ?_ (fun _ _ _ => rfl) (fun fd => (shared.words fd).1)
  intro fd
  rw [buffers]
  exact shared.ids fd

theorem other_buffers (a : Handshake.Act) (may : s.allowed (.other a)) (fd : Nat) :
    ((s.handshake.act a).clients fd).buffers = (s.handshake.clients fd).buffers := by
  have own {h : Handshake} {fd' : Nat} {g : Client → Client} (kept : ∀ c, (g c).buffers = c.buffers) :
      ((h.onClient fd' g).clients fd).buffers = (h.clients fd).buffers := by
    by_cases same : fd = fd'
    · subst same
      simp only [Handshake.onClient,update_self,kept]
    · simp only [Handshake.onClient,update_of_ne same]
  cases a with
  | accept => simp only [Handshake.act]; split <;> rfl
  | glFlush fd' id =>
    simp only [Handshake.act]
    split
    · exact own (g := fun c => {c with waiting := .appended id s.handshake.made}) fun _ => rfl
    · rfl
  | spuglFlush =>
    simp only [Handshake.act]
    split
    · split
      · exact own fun _ => rfl
      · rfl
    · rfl
  | disconnect => simp only [Handshake.act,Handshake.handleDisconnect]; split <;> rfl
  | sweep => rfl
  | lock => simp only [Handshake.act]; split <;> rfl
  | execute =>
    simp only [Handshake.act]
    split
    · split <;> rfl
    · rfl
  | unlock => simp only [Handshake.act]; split <;> rfl
  | _ => cases may

theorem other_shared (shared : Shared s) (a : Handshake.Act) (may : s.allowed (.other a)) : Shared (s.act (.other a)) := by
  have sound := Handshake.act_sound shared.sound a
  apply shared.still sound ?_ (other_buffers a may)
  cases a with
  | accept fd => exact Handshake.accept_quietly shared.sound fd
  | glFlush fd id => exact Handshake.glFlush_quietly _ fd id
  | spuglFlush fd => exact Handshake.spuglFlush_quietly _ fd
  | disconnect fd => exact Handshake.disconnect_quietly _ fd
  | sweep => exact Handshake.sweep_quietly _
  | lock slot => exact Handshake.lock_quietly _ slot
  | execute => exact Handshake.execute_quietly _
  | unlock => exact Handshake.unlock_quietly _
  | _ => cases may

theorem allocate_shared (shared : Shared s) (fd : Nat) (commandQueue : Bool) (size : Nat) (word : size < 2^32) :
    Shared (s.act (.allocate fd commandQueue size)) := by
  simp only [act]
  split
  · rename_i may
    have sound := Handshake.act_sound shared.sound (.allocate fd commandQueue)
    apply shared.quiet sound (Handshake.allocate_quietly shared.sound fd commandQueue) (fun fd => List.Sublist.refl _) ?_ ?_ ?_
    · intro fd'
      have kept : ((s.handshake.act (.allocate fd commandQueue)).clients fd').buffers = (s.handshake.clients fd').buffers := by
        simp only [Handshake.act,if_pos may]
        by_cases same : fd' = fd
        · subst same
          simp only [Handshake.onClient,update_self]
        · simp only [Handshake.onClient,update_of_ne same]
      rw [kept]
      exact shared.ids fd'
    · intro fd' id replied
      refine update_of_ne ?_ _ _
      rintro rfl
      unfold Client.replied at replied
      rw [may.2] at replied
      cases replied
    · intro fd'
      by_cases same : fd' = fd
      · subst same
        rw [update_self]
        exact word
      · rw [update_of_ne same]
        exact (shared.words fd').1
  · exact shared

-- The header of a freed buffer is the only one with its id.
theorem erase_ids {l : List SPUGL_Buffer} {p : SPUGL_Buffer → Bool} (single : (l.map SPUGL_Buffer.id).Nodup) (found : l.find? p = some test) :
    (l.eraseP p).map SPUGL_Buffer.id = (l.map SPUGL_Buffer.id).filter (· != test.id) := by
  obtain ⟨here,before,after,rfl,out⟩ := List.find?_eq_some_iff_append.mp found
  have later : (before ++ test :: after).eraseP p = before ++ after := by
    rw [List.eraseP_append_right _ fun b member => by simpa using out b member,List.eraseP_cons_of_pos here]
  rw [later]
  simp only [List.map_append,List.map_cons] at single ⊢
  obtain ⟨_,right,apart⟩ := List.nodup_append.mp single
  have left (id : Nat) (member : id ∈ before.map SPUGL_Buffer.id) : (id != test.id) = true :=
    bne_iff_ne.mpr (apart id member test.id List.mem_cons_self)
  have rest (id : Nat) (member : id ∈ after.map SPUGL_Buffer.id) : (id != test.id) = true := by
    refine bne_iff_ne.mpr fun same => (List.nodup_cons.mp right).1 ?_
    rwa [← same]
  rw [List.filter_append,List.filter_cons_of_neg (by simp),List.filter_eq_self.mpr left,List.filter_eq_self.mpr rest]

theorem Shared.single (shared : Shared s) (connected : s.handshake.connected fd = true) :
    ((s.firstBuffer fd).map SPUGL_Buffer.id).Nodup := by
  obtain ⟨before,own,after,front⟩ := Handshake.connected_split connected
  rw [shared.ids]
  exact ((Handshake.buffers_known _).map Prod.fst).nodup (shared.sound.mine front).single

theorem free_shared (shared : Shared s) (fd buffer : Nat) : Shared (s.act (.free fd buffer)) := by
  simp only [act]
  split
  · rename_i may
    split
    · rename_i test found
      have sound := Handshake.act_sound shared.sound (.free fd test.id)
      have listed : test.id ∈ (s.handshake.clients fd).buffers.map Prod.fst := by
        rw [← shared.ids]
        exact List.mem_map_of_mem (List.mem_of_find?_eq_some found)
      have may' : s.handshake.connected fd = true ∧ (s.handshake.clients fd).waiting = .nothing ∧
          test.id ∈ (s.handshake.clients fd).buffers.map Prod.fst := ⟨may.1,may.2,listed⟩
      apply shared.quiet sound (Handshake.free_quietly _ fd test.id) ?_ ?_ (fun _ _ _ => rfl) (fun fd => (shared.words fd).1)
      · intro fd'
        by_cases same : fd' = fd
        · subst same
          rw [update_self]
          exact List.eraseP_sublist
        · rw [update_of_ne same]
      · intro fd'
        simp only [Handshake.act,if_pos may']
        by_cases same : fd' = fd
        · subst same
          simp only [Handshake.onClient,update_self]
          rw [erase_ids (shared.single may.1) found,shared.ids,List.filter_map]
          rfl
        · simp only [Handshake.onClient,update_of_ne same]
          exact shared.ids fd'
    · exact shared
  · exact shared

theorem read_ids (c : Client) : (Handshake.read c).buffers.map Prod.fst = c.replied.toList ++ c.buffers.map Prod.fst := by
  unfold Handshake.read Client.replied
  cases c.waiting with
  | allocating =>
    cases c.answers with
    | nil => rfl
    | cons a rest =>
      cases a with
      | allocated given => cases given <;> rfl
      | flushed => rfl
  | flushing => cases c.answers <;> rfl
  | _ => cases c.answers <;> rfl

theorem recv_ids (connected : s.handshake.connected fd = true) (fd' : Nat) : ((s.handshake.act (.recv fd)).clients fd').buffers.map Prod.fst =
    if fd' = fd then (s.handshake.clients fd).replied.toList ++ (s.handshake.clients fd).buffers.map Prod.fst
    else (s.handshake.clients fd').buffers.map Prod.fst := by
  simp only [Handshake.act,if_pos connected]
  by_cases same : fd' = fd
  · subst same
    rw [if_pos rfl,← read_ids]
    simp only [Handshake.onClient,update_self]
  · rw [if_neg same]
    simp only [Handshake.onClient,update_of_ne same]

theorem recv_shared (shared : Shared s) (fd memory : Nat) (may : s.allowed (.recv fd memory)) : Shared (s.act (.recv fd memory)) := by
  have sound := Handshake.act_sound shared.sound (.recv fd)
  have quietly := Handshake.recv_quietly s.handshake fd
  simp only [act]
  split
  · rename_i connected
    have ids := recv_ids connected
    cases replied : (s.handshake.clients fd).replied with
    | none =>
      apply shared.quiet sound quietly (fun fd => List.Sublist.refl _) ?_ (fun _ _ _ => rfl) (fun fd => (shared.words fd).1)
      intro fd'
      rw [ids,replied]
      split
      · rename_i same
        rw [same]
        exact shared.ids fd
      · exact shared.ids fd'
    | some id =>
      -- The buffers that the clients have had, and then the new one.
      have buffer (fd' : Nat) (b : SPUGL_Buffer)
          (member : b ∈ update s.firstBuffer fd (⟨memory,id,s.asked fd,s.passed fd⟩ :: s.firstBuffer fd) fd') :
          b ∈ s.firstBuffer fd' ∨ fd' = fd ∧ b = ⟨memory,id,s.asked fd,s.passed fd⟩ := by
        by_cases same : fd' = fd
        · subst same
          rw [update_self] at member
          rcases List.mem_cons.mp member with new | old
          · exact .inr ⟨rfl,new⟩
          · exact .inl old
        · rw [update_of_ne same] at member
          exact .inl member
      have before (fd' : Nat) (after : (s.handshake.act (.recv fd)).connected fd' = true) : s.handshake.connected fd' = true := by
        simp only [Handshake.act,if_pos connected] at after
        exact after
      refine ⟨sound,fun r member => shared.named r (quietly.regions member),
        fun r one r' two => shared.files r (quietly.regions one) r' (quietly.regions two),
        fun r member => shared.tables r (quietly.regions member),
        fun r one r' two => shared.apart r (quietly.regions one) r' (quietly.regions two),?_,?_,?_,?_,?_⟩
      · intro fd'
        dsimp only
        rw [ids,replied]
        by_cases same : fd' = fd
        · subst same
          rw [update_self,if_pos rfl,List.map_cons,shared.ids]
          rfl
        · rw [update_of_ne same,if_neg same]
          exact shared.ids fd'
      · intro fd' after b member r listed same
        rcases buffer fd' b member with old | ⟨rfl,rfl⟩
        · exact shared.behind fd' (before fd' after) b old r (quietly.regions listed) same
        · exact shared.replied fd' connected id replied r (quietly.regions listed) same
      · intro fd' after given read r listed same
        exact shared.replied fd' (before fd' after) given (quietly.replied fd' given read) r (quietly.regions listed) same
      · intro fd'
        dsimp only
        by_cases same : fd' = fd
        · subst same
          rw [update_self]
          exact .cons (fun b member => may id replied b member) (shared.places fd')
        · rw [update_of_ne same]
          exact shared.places fd'
      · intro fd'
        refine ⟨(shared.words fd').1,fun b member => ?_⟩
        rcases buffer fd' b member with old | ⟨rfl,rfl⟩
        · exact (shared.words fd').2 b old
        · exact (shared.words fd').1
  · exact shared

-- A region is in a slot that had none.
theorem Shared.new_slot (shared : Shared s) {i : Nat} {commandQueue : Bool} (key : Nat)
    (found : s.handshake.blockManagementAllocateBlock commandQueue = some i) :
    (∀ r ∈ s.handshake.regions, r.slot ≠ blockSlot (blockId i key)) ∧ blockSlot (blockId i key) = i := by
  have free : s.handshake.table i < 0 := by simpa using List.find?_some found
  have slot : blockSlot (blockId i key) = i := blockSlot_blockId (blockRange_less (List.mem_of_find?_eq_some found)).1
  refine ⟨?_,slot⟩
  intro r member same
  obtain ⟨a,listed,rfl⟩ := List.mem_map.mp member
  refine shared.sound.counted.taken free (List.mem_map.mpr ⟨(a.slot,a.countDisposed),List.mem_map_of_mem listed,?_⟩)
  exact same.trans slot

-- What the client knows of has a region, so its id names no new one.
theorem Shared.known_slot (shared : Shared s) (connected : s.handshake.connected fd = true) {id : Nat}
    (known : (∃ b ∈ s.firstBuffer fd, b.id = id) ∨ (s.handshake.clients fd).replied = some id) : ∃ r ∈ s.handshake.regions, r.id = id := by
  have entry : ∃ commandQueue, (id,commandQueue) ∈ (s.handshake.clients fd).known := by
    rcases known with ⟨b,member,rfl⟩ | replied
    · have listed : b.id ∈ (s.handshake.clients fd).buffers.map Prod.fst := by
        rw [← shared.ids]
        exact List.mem_map_of_mem member
      obtain ⟨⟨_,commandQueue⟩,inside,rfl⟩ := List.mem_map.mp listed
      exact ⟨commandQueue,(Handshake.buffers_known _).subset inside⟩
    · exact shared.sound.replied_known connected replied
  obtain ⟨commandQueue,inside⟩ := entry
  obtain ⟨_,_,_,a,_,same,listed⟩ := shared.sound.region connected inside
  exact ⟨a.region,listed,same⟩

theorem Shared.named_next (shared : Shared s) : Shared {s with name_id := s.name_id + 1} :=
  ⟨shared.sound,fun r member => Nat.le_succ_of_le (shared.named r member),shared.files,shared.tables,shared.apart,shared.ids,shared.behind,
    shared.replied,shared.places,shared.words⟩

theorem Shared.place (shared : Shared s) {m : Mapped} {i key : Nat} {commandQueue : Bool} (sound : h.Sound)
    (found : s.handshake.blockManagementAllocateBlock commandQueue = some i)
    (serves : Handshake.Serves s.handshake h fd (some ⟨blockId i key,m.buffer,m.size,m.fd⟩))
    (asks : (s.handshake.clients fd).requests ≠ []) (may : s.allowed (.handle fd (some m) key)) :
    Shared {s.allocateBuffer fd (some m) commandQueue with handshake := h} := by
  obtain ⟨fresh,slot⟩ := shared.new_slot key found
  obtain ⟨size,free⟩ := may m rfl
  have region (r : Region) (member : r ∈ h.regions) : r ∈ s.handshake.regions ∨ r = ⟨blockId i key,m.buffer,m.size,m.fd⟩ := by
    rcases serves.regions r member with old | new
    · exact .inl old
    · exact .inr (Option.some.inj new).symm
  have opened (r : Region) (old : r ∈ s.handshake.regions) : update s.opened m.fd (s.name_id + 1) r.fd = s.opened r.fd :=
    update_of_ne (free r old).1 _ _
  have newer (r : Region) (old : r ∈ s.handshake.regions) : s.opened r.fd ≠ s.name_id + 1 := by
    have named := shared.named r old
    omega
  have other (fd' id : Nat) (connected : s.handshake.connected fd' = true)
      (known : (∃ b ∈ s.firstBuffer fd', b.id = id) ∨ (s.handshake.clients fd').replied = some id) : blockId i key ≠ id := by
    rintro rfl
    obtain ⟨r,listed,same⟩ := shared.known_slot connected known
    exact fresh r listed (congrArg blockSlot same)
  unfold allocateBuffer
  simp only [found]
  refine ⟨sound,?_,?_,?_,?_,?_,?_,?_,shared.places,shared.words⟩
  · intro r member
    dsimp only
    rcases region r member with old | rfl
    · rw [opened r old]
      exact Nat.le_succ_of_le (shared.named r old)
    · rw [update_self]
  · intro r one r' two same
    dsimp only at same
    rcases region r one with old | rfl
    · rw [opened r old] at same
      rcases region r' two with old' | rfl
      · rw [opened r' old'] at same
        exact shared.files r old r' old' same
      · rw [update_self] at same
        exact absurd same (newer r old)
    · rw [update_self] at same
      rcases region r' two with old' | rfl
      · rw [opened r' old'] at same
        exact absurd same.symm (newer r' old')
      · rfl
  · intro r member
    dsimp only
    rcases region r member with old | rfl
    · rw [update_of_ne (slot ▸ fresh r old)]
      exact shared.tables r old
    · rw [show Region.slot ⟨blockId i key,m.buffer,m.size,m.fd⟩ = i from slot,update_self]
  · intro r one r' two
    rcases region r one with old | rfl
    · rcases region r' two with old' | rfl
      · exact shared.apart r old r' old'
      · exact .inr (free r old).2.symm
    · rcases region r' two with old' | rfl
      · exact .inr (free r' old').2
      · exact .inl rfl
  · intro fd'
    dsimp only
    rw [serves.buffers]
    exact shared.ids fd'
  · intro fd' connected b member r listed same
    have before := serves.connected fd' connected
    dsimp only
    rcases region r listed with old | rfl
    · rw [opened r old]
      exact shared.behind fd' before b member r old same
    · exact absurd same (other fd' b.id before (.inl ⟨b,member,rfl⟩))
  · intro fd' connected id read r listed same
    have before := serves.connected fd' connected
    dsimp only
    rcases serves.replied fd' id read with old | ⟨rfl,_,new,given⟩
    · have elsewhere : fd' ≠ fd := by
        rintro rfl
        exact asks (shared.sound.replied_last before old)
      rw [update_of_ne elsewhere]
      rcases region r listed with inside | rfl
      · rw [opened r inside]
        exact shared.replied fd' before id old r inside same
      · exact absurd same (other fd' id before (.inr old))
    · obtain rfl := Option.some.inj new
      rcases region r listed with inside | rfl
      · exact absurd (congrArg blockSlot (same.trans given.symm)) (fresh r inside)
      · rw [update_self,update_self]
        exact ⟨size,rfl⟩

theorem handle_shared (shared : Shared s) (fd : Nat) (mapped : Option Mapped) (key : Nat) (may : s.allowed (.handle fd mapped key)) :
    Shared (s.act (.handle fd mapped key)) := by
  have sound := Handshake.act_sound shared.sound (.handle fd mapped key)
  have serves := Handshake.handle_serves s.handshake fd mapped key
  have nothing (none : s.handshake.placed fd mapped key = none) : Shared {s with handshake := s.handshake.act (.handle fd mapped key)} := by
    rw [none] at serves
    exact shared.still sound serves.quietly serves.buffers
  simp only [act]
  cases received : s.handshake.received fd with
  | none =>
    apply nothing
    unfold Handshake.placed
    rw [received]
    rfl
  | some request =>
    cases request with
    | alloc commandQueue =>
      have asks : (s.handshake.clients fd).requests ≠ [] := by
        intro empty
        unfold Handshake.received at received
        rw [empty] at received
        split at received
        · rename_i nonempty
          cases nonempty
        · cases received
      have placed : s.handshake.placed fd mapped key = s.handshake.given mapped key (.alloc commandQueue) := by
        unfold Handshake.placed
        rw [received]
        rfl
      unfold Handshake.given at placed
      cases mapped with
      | none => exact (nothing placed).named_next
      | some m =>
        cases found : s.handshake.blockManagementAllocateBlock commandQueue with
        | none =>
          simp only [found] at placed
          simp only [allocateBuffer,found]
          exact (nothing placed).named_next
        | some i =>
          simp only [found] at placed
          rw [placed] at serves
          exact shared.place sound found serves asks may
    | _ =>
      apply nothing
      unfold Handshake.placed
      rw [received]
      rfl

theorem reached_shared (path : Reached s) : Shared s := by
  refine Runs.Reached.invariant Shared ?_ ?_ path
  · rintro _ rfl
    exact start_shared
  · rintro s _ shared ⟨a,may,rfl⟩
    cases a with
    | allocate fd commandQueue size => exact allocate_shared shared fd commandQueue size may
    | free fd buffer => exact free_shared shared fd buffer
    | recv fd memory => exact recv_shared shared fd memory may
    | handle fd mapped key => exact handle_shared shared fd mapped key may
    | other a => exact other_shared shared a may

theorem find_held {l : List SPUGL_Buffer} {b : SPUGL_Buffer} {buffer : Nat}
    (places : l.Pairwise fun b b' => Apart b.data b.size b'.data b'.size) (member : b ∈ l) (held : b.holds buffer = true) :
    l.find? (·.holds buffer) = some b := by
  induction l with
  | nil => cases member
  | cons test rest ih =>
    obtain ⟨apart,later⟩ := List.pairwise_cons.mp places
    rcases List.mem_cons.mp member with rfl | inside
    · rw [List.find?_cons,held]
    · have out : test.holds buffer = false := by
        by_contra both
        rw [Bool.not_eq_false] at both
        have other := apart b inside
        simp only [SPUGL_Buffer.holds,Bool.and_eq_true,decide_eq_true_eq] at held both
        unfold Apart at other
        omega
      rw [List.find?_cons,out]
      exact ih later inside

-- Where impPoke stores, and where imp_SelectPixelShader has the shader.
def address (s : SharedBuffers) : Request → Option Nat
  | .poke bufid offset _ | .selectPixelShader bufid offset _ => some (s.ea_table (blockSlot bufid) + offset)
  | _ => none

-- A buffer of a client is a region of its connection, which maps the same file.
theorem Shared.backed (shared : Shared s) (connected : s.handshake.connected fd = true) (member : b ∈ s.firstBuffer fd) :
    ∃ k ∈ s.handshake.list.first, k.fd = some fd ∧ ∃ a ∈ k.allocations, a.id = b.id ∧ a.region ∈ s.handshake.regions ∧
      a.size = b.size ∧ s.opened a.fd = b.file := by
  have listed : b.id ∈ (s.handshake.clients fd).buffers.map Prod.fst := by
    rw [← shared.ids]
    exact List.mem_map_of_mem member
  obtain ⟨entry,inside,same⟩ := List.mem_map.mp listed
  obtain ⟨k,first,socket,a,own,id,region⟩ := shared.sound.region connected ((Handshake.buffers_known _).subset inside)
  have named : a.id = b.id := id.trans same
  exact ⟨k,first,socket,a,own,named,region,shared.behind fd connected b member a.region region named⟩

theorem Shared.maps (shared : Shared s) (connected : s.handshake.connected fd = true) (member : b ∈ s.firstBuffer fd) (less : offset < b.size)
    (file n : Nat) : s.Maps (s.ea_table (blockSlot b.id) + offset) file n ↔ file = b.file ∧ n = offset := by
  obtain ⟨_,_,_,a,_,id,region,size,opened⟩ := shared.backed connected member
  have table : s.ea_table (blockSlot b.id) = a.buffer := by
    rw [← id]
    exact shared.tables a.region region
  rw [table]
  constructor
  · rintro ⟨r,listed,rfl,same,inside⟩
    rcases shared.apart r listed a.region region with rfl | apart
    · exact ⟨opened,(Nat.add_left_cancel same).symm⟩
    · unfold Apart at apart
      simp only [Allocation.region] at apart
      omega
  · rintro ⟨rfl,rfl⟩
    exact ⟨a.region,region,opened,rfl,Nat.lt_of_lt_of_eq less size.symm⟩

-- The file is mapped nowhere else.
theorem Shared.once (shared : Shared s) (connected : s.handshake.connected fd = true) (member : b ∈ s.firstBuffer fd)
    (maps : s.Maps ea b.file n) : ea = s.ea_table (blockSlot b.id) + n := by
  obtain ⟨_,_,_,a,_,id,region,_,opened⟩ := shared.backed connected member
  obtain ⟨r,listed,same,rfl,_⟩ := maps
  obtain rfl := shared.files r listed a.region region (same.trans opened.symm)
  rw [← id]
  exact congrArg (· + n) (shared.tables a.region region).symm

theorem Shared.alone (shared : Shared s) (connected : s.handshake.connected fd = true) (member : b ∈ s.firstBuffer fd)
    (connected' : s.handshake.connected fd' = true) (member' : b' ∈ s.firstBuffer fd') (same : b'.file = b.file) : fd' = fd ∧ b' = b := by
  obtain ⟨k,first,socket,a,own,id,region,_,opened⟩ := shared.backed connected member
  obtain ⟨k',first',socket',a',own',id',region',_,opened'⟩ := shared.backed connected' member'
  have one := shared.files a'.region region' a.region region (opened'.trans (same.trans opened.symm))
  have ids : a'.id = a.id := congrArg Region.id one
  obtain rfl := shared.sound.one_client first first' own own' (congrArg blockSlot ids.symm)
  obtain rfl : fd' = fd := Option.some.inj (socket'.symm.trans socket)
  exact ⟨rfl,List.inj_on_of_nodup_map (shared.single connected) member' member (id'.symm.trans (ids.trans id))⟩

end

-- A pointer of a client and what the primary SPU makes of it later name the same byte of the same file, as long as the
-- client has the buffer: in every order of everybody's steps. The server has that byte at no other address, and no other
-- buffer of any client has the file.
theorem pointers_shared {F : Type} (float : FloatWords F) (libspe2 : Bool) {s s' : SharedBuffers} {fd buffer : Nat} {b : SPUGL_Buffer}
    (path : Reached s) (more : Runs.Reached (· = s) (Runs.Step act allowed) s') (had : b ∈ s.firstBuffer fd) (has : b ∈ s'.firstBuffer fd)
    (connected : s'.handshake.connected fd = true) (held : b.holds buffer = true) (value : Nat) :
    (∃ ea, (requested float libspe2 (spuglBufferBaseAddress (s.firstBuffer fd)) (.spuglPoke buffer value)).map s'.address = [some ea] ∧
      (∀ file n, s'.Maps ea file n ↔ file = b.file ∧ n = buffer - b.data) ∧ ∀ ea', s'.Maps ea' b.file (buffer - b.data) → ea' = ea) ∧
    buffer - b.data < 2^32 ∧
    ∀ fd' b', s'.handshake.connected fd' = true → b' ∈ s'.firstBuffer fd' → b'.file = b.file → fd' = fd ∧ b' = b := by
  have before := reached_shared path
  have after := reached_shared (path.trans more)
  have less : buffer - b.data < b.size := by
    simp only [SPUGL_Buffer.holds,Bool.and_eq_true,decide_eq_true_eq] at held
    omega
  have base : spuglBufferBaseAddress (s.firstBuffer fd) buffer = some (b.id,b.data) := by
    unfold spuglBufferBaseAddress
    rw [find_held (before.places fd) had held]
    rfl
  refine ⟨⟨s'.ea_table (blockSlot b.id) + (buffer - b.data),?_,after.maps connected has less,fun ea' => after.once connected has⟩,?_,?_⟩
  · simp only [requested,base]
    rfl
  · exact Nat.lt_trans less ((after.words fd).2 b has)
  · intro fd' b' connected' member' same
    exact after.alone connected has connected' member' same

-- One client with a buffer, which the server has elsewhere.
def sharedOnce : SharedBuffers :=
  [.other (.accept 7),.allocate 7 false 1024,.handle 7 (some ⟨4096,1024,8⟩) 5,.recv 7 65536].foldl act start

theorem pointers_shared_once : ∃ ea, (requested (⟨id,id,0,1065353216⟩ : FloatWords Nat) true
    (spuglBufferBaseAddress (sharedOnce.firstBuffer 7)) (.spuglPoke 65540 3)).map sharedOnce.address = [some ea] ∧
      (∀ file n, sharedOnce.Maps ea file n ↔ file = 1 ∧ n = 4) ∧ ∀ ea', sharedOnce.Maps ea' 1 4 → ea' = ea := by
  have path : Reached sharedOnce := by
    refine Runs.Reached.follow (.start rfl) ⟨trivial,(by decide : 1024 < 2^32),?_,?_,trivial⟩
    · intro m given
      obtain rfl := Option.some.inj given
      exact ⟨rfl,fun r member => by cases member⟩
    · rintro _ _ b member
      cases member
  have has : (⟨65536,blockId 16 5,1024,1⟩ : SPUGL_Buffer) ∈ sharedOnce.firstBuffer 7 := by decide
  exact (pointers_shared _ true path (.start rfl) has has (by decide) (by decide) 3).1

end SharedBuffers
end Spugl
