import Spugl.LedgerInvariant

namespace Spugl

-- An address and a length.
abbrev Allocation.range (a : Allocation) : Nat × Nat := (a.buffer,a.size)

-- What is mapped for an allocation that is not in the lists yet, or not any more.
def ServerTask.ranges : ServerTask → List (Nat × Nat)
  | .search r _ memory _ | .store r _ memory _ _ _ => [(memory,r.size)]
  | .unmap del _ => [del.range]
  | _ => []

def ServerTask.wants : ServerTask → Nat
  | .extended r _ => r.size
  | _ => 0

-- The slot that is about to be stored, with the address that the table shows for it.
def ServerTask.placing : ServerTask → Option (Nat × Nat)
  | .store _ _ memory i j _ => some (i + j,memory)
  | _ => none

namespace Ledger
open Function

def Apart (x y : Nat × Nat) : Prop := x.1 + x.2 ≤ y.1 ∨ y.1 + y.2 ≤ x.1

instance : DecidableRel Apart := fun _ _ => inferInstanceAs (Decidable (_ ∨ _))

theorem Apart.symm {x y : Nat × Nat} (apart : Apart x y) : Apart y x := Or.symm apart

def ranges (s : Ledger) : List (Nat × Nat) := s.task.ranges ++ s.list.allocations.map Allocation.range

-- mmap gives memory that nobody has.
def mapsApart (s : Ledger) : Act → Prop
  | .server ch => ∀ memory ∈ ch.memory, ∀ x ∈ s.ranges, Apart (memory,s.task.wants) x
  | .spu _ => True

instance (s : Ledger) (a : Act) : Decidable (s.mapsApart a) :=
  match a with
  | .server ch => inferInstanceAs (Decidable (∀ memory ∈ ch.memory, ∀ x ∈ s.ranges, Apart (memory,s.task.wants) x))
  | .spu _ => .isTrue trivial

-- The Allocations whose count the server's next step gives back.
def disposes (s : Ledger) (ch : Choice) : List Allocation :=
  match s.task with
  | .main =>
    match ch.event with
    | .free connection id => ((s.list.first[connection]?).elim [] Connection.allocations).filter (disposable id)
    | _ => []
  | .disconnect connection allocation =>
    (((s.list.first[connection]?).elim [] Connection.allocations)[allocation]?).toList.filter fun a => !a.countDisposed
  | _ => []

def Live (s : Ledger) (a : Allocation) : Prop := a ∈ s.list.allocations ∧ a.countDisposed = false

-- All that a step of the server can do to the Allocations, to the memory that is mapped
-- for them and to their entries in the table.
inductive Changes (s : Ledger) (ch : Choice) (next : Ledger) : Prop where
  | quiet (list : next.list.allocations.Perm s.list.allocations) (ranges : next.task.ranges.Sublist s.task.ranges)
      (ea_table : next.ea_table = s.ea_table) (placing : next.task.placing = none ∨ next.task = s.task)
  | maps (memory : Nat) (given : memory ∈ ch.memory) (list : next.list = s.list) (ranges : next.task.ranges = [(memory,s.task.wants)])
      (idle : s.task.ranges = []) (ea_table : next.ea_table = s.ea_table) (placing : next.task.placing = none)
  | places (slot memory : Nat) (list : next.list = s.list) (ranges : next.task.ranges = s.task.ranges)
      (ea_table : next.ea_table = update s.ea_table slot memory) (placing : next.task.placing = some (slot,memory))
      (unlisted : s.unlisted slot)
  | adds (n : Allocation) (list : next.list.allocations.Perm (n :: s.list.allocations)) (live : n.countDisposed = false)
      (ranges : s.task.ranges = [n.range]) (idle : next.task.ranges = []) (ea_table : next.ea_table = s.ea_table)
      (placed : s.task.placing = some (n.slot,n.buffer)) (placing : next.task.placing = none)
  | disposed (a : Allocation) (u v : List Allocation) (given : a ∈ s.disposes ch) (before : s.list.allocations = u ++ a :: v)
      (after : next.list.allocations = u ++ a.dispose :: v) (ranges : next.task.ranges = []) (ea_table : next.ea_table = s.ea_table)
      (placing : next.task.placing = none)
  | removes (del : Allocation) (list : s.list.allocations.Perm (del :: next.list.allocations)) (flag : del.countDisposed = true)
      (ranges : next.task.ranges = [del.range]) (idle : s.task.ranges = []) (ea_table : next.ea_table = s.ea_table)
      (placing : next.task.placing = none)

section
variable {s : Ledger} {ch : Choice}

theorem Changes.same {t : ServerTask} {table : Nat → Int} {mapped files maps unmaps : List Nat} {reserved : Option Nat} {spuReserved : Bool}
    {began : Snapshot} (ranges : t.ranges.Sublist s.task.ranges) (placing : t.placing = none) :
    Changes s ch {s with
      table := table,mapped := mapped,files := files,maps := maps,unmaps := unmaps,task := t,reserved := reserved
      spuReserved := spuReserved,began := began} :=
  .quiet (List.Perm.refl _) ranges rfl (.inl placing)

theorem Changes.nothing : Changes s ch s := .quiet (List.Perm.refl _) (List.Sublist.refl _) rfl (.inr rfl)

theorem handle_changes (main : s.task = .main) : Changes s ch (s.handle ch) := by
  unfold handle
  cases event : ch.event with
  | connect fd => exact .quiet (List.Perm.refl _) (List.Sublist.refl _) rfl (.inr rfl)
  | alloc connection commandQueue size =>
    simp only
    split
    · split
      · exact .same (List.nil_sublist _) rfl
      · exact .same (List.nil_sublist _) rfl
    · exact .nothing
  | free connection id =>
    simp only
    split
    · rename_i k here
      split
      · rename_i own found
        obtain ⟨x,a,y,split,rfl,matched⟩ := updateFirst_split found
        obtain ⟨before,after,front,set,_⟩ := at_split here
        obtain ⟨fd,allocations⟩ := k
        obtain rfl : allocations = x ++ a :: y := split
        obtain ⟨u,v,was,now,_⟩ := exchanged_at s false front
        rw [set]
        refine .disposed a u v ?_ was (now a.dispose) rfl rfl rfl
        unfold disposes
        rw [main]
        simp only [event,here,Option.elim]
        exact List.mem_filter.mpr ⟨by simp,matched⟩
      · exact .nothing
    · exact .nothing
  | disconnect connection =>
    simp only
    split
    · exact .same (List.nil_sublist _) rfl
    · exact .nothing
  | sweep => exact .same (List.nil_sublist _) rfl

theorem allocateBuffer_changes (sound : Sound s) {t : ServerTask} (at_ : s.task = t) : Changes s ch (s.allocateBuffer ch t) := by
  cases t with
  | opened r fd =>
    unfold allocateBuffer
    simp only
    split <;> exact .same (List.nil_sublist _) rfl
  | extended r fd =>
    unfold allocateBuffer
    simp only
    split
    · rename_i memory given
      exact .maps memory given rfl (by rw [at_]; rfl) (by rw [at_]; rfl) rfl rfl
    · exact .same (List.nil_sublist _) rfl
  | search r fd memory i =>
    unfold allocateBuffer
    simp only
    split
    · split
      · rename_i j found
        obtain ⟨_,negative⟩ := negative_byte found
        exact .places (i + j) memory rfl (by rw [at_]; rfl) rfl rfl (sound.unlisted_free.mpr negative)
      · exact .same (by rw [at_]; exact List.Sublist.refl _) rfl
    · exact .same (List.nil_sublist _) rfl
  | store r fd memory i j word =>
    have fits := sound.fits
    rw [at_] at fits
    obtain ⟨_,searching,less,inside,_,_⟩ := fits
    unfold allocateBuffer
    simp only
    split
    · split
      · rename_i k here
        obtain ⟨before,after,front,set,_⟩ := at_split here
        obtain ⟨fd',own⟩ := k
        rw [set]
        obtain ⟨u,v,was,listed⟩ := exchanged_first s front
        have aligned := searching.aligned
        have stops := (blockStart_aligned r.commandQueue).2
        have small := (block_kind (i := i + j) (by have low := searching.low; omega) (by omega : i + j < blockEnd r.commandQueue)).1
        refine .adds ⟨memory,r.size,blockId (i + j) ch.key,fd,r.commandQueue,none,none,false⟩ ?_ rfl (by rw [at_]; rfl) rfl rfl ?_ rfl
        · rw [was]
          exact (List.Perm.of_eq (listed _)).trans List.perm_middle
        · rw [at_]
          simp [ServerTask.placing,Allocation.slot,blockSlot_blockId small]
      · exact .nothing
    · exact .same (by rw [at_]; exact List.Sublist.refl _) rfl
  | unmapFailed fd memory => exact .same (List.nil_sublist _) rfl
  | closeFailed fd => exact .same (List.nil_sublist _) rfl
  | _ => exact .nothing

theorem dispose_changes {t : ServerTask} : Changes s ch (s.blockCountDispose ch t) := by
  cases t with
  | dispose id resume => exact .same (List.nil_sublist _) rfl
  | disposeStore id word resume =>
    unfold blockCountDispose
    simp only
    split
    · cases resume with
      | none => exact .same (List.nil_sublist _) rfl
      | some place => exact .same (List.nil_sublist _) rfl
    · exact .same (List.nil_sublist _) rfl
  | _ => exact .nothing

theorem disconnect_changes (at_ : s.task = .disconnect connection allocation) :
    Changes s ch (s.handleDisconnect connection allocation) := by
  unfold handleDisconnect
  split
  · rename_i k here
    obtain ⟨before,after,front,set,erase⟩ := at_split here
    split
    · rename_i a there
      split
      · exact .same (List.nil_sublist _) rfl
      · rename_i live
        obtain ⟨x,y,own,set',_⟩ := at_split there
        obtain ⟨fd,allocations⟩ := k
        obtain rfl : allocations = x ++ a :: y := own
        obtain ⟨u,v,was,now,_⟩ := exchanged_at s false front
        rw [set,set']
        refine .disposed a u v ?_ was (now a.dispose) rfl rfl rfl
        unfold disposes
        rw [at_]
        simp only [here,Option.elim,there]
        simpa using live
    · rw [erase]
      obtain ⟨fd,own⟩ := k
      exact .quiet (closed_moved front) (List.nil_sublist _) rfl (.inl rfl)
  · exact .same (List.nil_sublist _) rfl

theorem process_changes (sound : Sound s) {t : ServerTask} (at_ : s.task = t) : Changes s ch (s.processOutstandingRequests ch t) := by
  cases t with
  | sweep p =>
    simp only [processOutstandingRequests]
    split
    · rename_i k here
      split
      · exact .same (List.nil_sublist _) rfl
      · split
        · rename_i empty
          obtain ⟨before,after,front,_,erase⟩ := at_split here
          rw [erase]
          refine .quiet (List.Perm.of_eq ?_) (List.nil_sublist _) rfl (.inl rfl)
          obtain ⟨fd,allocations⟩ := k
          obtain rfl : allocations = [] := empty.2
          exact closed_swept empty.1 front
        · exact .same (List.nil_sublist _) rfl
    · split <;> exact .same (List.nil_sublist _) rfl
  | tryFree del p =>
    simp only [processOutstandingRequests]
    split <;> exact .same (List.nil_sublist _) rfl
  | tryFreeStore del word p =>
    have fits : Fits (s.processOutstandingRequests ch (.tryFreeStore del word p)) (s.processOutstandingRequests ch (.tryFreeStore del word p)).task :=
      (tryFree_sound sound at_).fits
    have old := sound.fits
    rw [at_] at old
    obtain ⟨⟨k,here,there⟩,_,_⟩ := old
    simp only [processOutstandingRequests] at fits ⊢
    split
    · rename_i success
      rw [if_pos success,here] at fits
      rw [here]
      obtain ⟨before,after,front,set,_⟩ := at_split here
      obtain ⟨x,y,own,_,erase⟩ := at_split there
      obtain ⟨fd,allocations⟩ := k
      obtain rfl : allocations = x ++ del :: y := own
      obtain ⟨u,v,was,_,now⟩ := exchanged_at s p.closed front
      simp only
      rw [set,erase]
      refine .removes del ?_ fits.1 rfl (by rw [at_]; rfl) ?_ rfl
      · rw [was]
        refine List.perm_middle.trans (List.Perm.cons del (List.Perm.of_eq ?_))
        exact now.symm
      · cases p.closed <;> rfl
    · exact .same (List.nil_sublist _) rfl
  | unmap del p => exact .same (List.nil_sublist _) rfl
  | close fd p => exact .same (List.nil_sublist _) rfl
  | _ => exact .nothing

theorem server_changes (sound : Sound s) : Changes s ch (s.server ch) := by
  unfold server
  split
  · rename_i at_
    exact handle_changes at_
  · exact .same (List.nil_sublist _) rfl
  · exact dispose_changes
  · exact dispose_changes
  · rename_i at_
    exact disconnect_changes at_
  · rename_i at_
    exact process_changes sound at_
  · rename_i at_
    exact process_changes sound at_
  · rename_i at_
    exact process_changes sound at_
  · rename_i at_
    exact process_changes sound at_
  · rename_i at_
    exact process_changes sound at_
  · exact allocateBuffer_changes sound rfl

end

-- The table shows where each Allocation is, and no two share an address.
structure Placed (s : Ledger) : Prop where
  apart : s.ranges.Pairwise Apart
  ea_table : ∀ a ∈ s.list.allocations, s.ea_table a.slot = a.buffer
  placing : ∀ slot memory, s.task.placing = some (slot,memory) → s.ea_table slot = memory

section
variable {s next : Ledger} {ch : Choice}

theorem start_placed : Placed start := by
  refine ⟨List.Pairwise.nil,?_,?_⟩
  · intro a member; cases member
  · intro slot memory none; cases none

theorem Placed.change (placed : Placed s) (changes : Changes s ch next) (new : s.mapsApart (.server ch)) : Placed next := by
  have apart := placed.apart
  unfold ranges at apart
  -- Fewer ranges, in another order.
  have fewer {x y z : List (Nat × Nat)} (less : y.Sublist x) (perm : (next.list.allocations.map Allocation.range).Perm z)
      (was : (x ++ z).Pairwise Apart) : (y ++ next.list.allocations.map Allocation.range).Pairwise Apart := by
    have now := ((perm.append_left x).pairwise_iff Apart.symm).mpr was
    exact now.sublist (less.append_right _)
  cases changes with
  | quiet list ranges ea_table placing =>
    refine ⟨fewer ranges (list.map _) apart,?_,?_⟩
    · intro a member
      rw [ea_table]
      exact placed.ea_table a (list.mem_iff.mp member)
    · intro slot memory is
      rw [ea_table]
      rcases placing with none | same
      · rw [none] at is; cases is
      · rw [same] at is
        exact placed.placing slot memory is
  | maps memory given list ranges idle ea_table placing =>
    rw [idle] at apart
    refine ⟨?_,?_,?_⟩
    · unfold Ledger.ranges
      rw [ranges,list]
      refine List.pairwise_cons.mpr ⟨fun x member => new memory given x ?_,apart⟩
      exact List.mem_append_right _ member
    · rw [list,ea_table]
      exact placed.ea_table
    · intro slot memory is
      rw [placing] at is; cases is
  | places slot memory list ranges ea_table placing unlisted =>
    refine ⟨?_,?_,?_⟩
    · unfold Ledger.ranges
      rw [ranges,list]
      exact apart
    · intro a member
      rw [list] at member
      have differ : a.slot ≠ slot := fun same => unlisted (same ▸ List.mem_map_of_mem member)
      rw [ea_table,update_of_ne differ]
      exact placed.ea_table a member
    · intro slot' memory' is
      obtain ⟨rfl,rfl⟩ : slot = slot' ∧ memory = memory' := by simpa [placing] using is
      rw [ea_table,update_self]
  | adds n list live ranges idle ea_table placed' placing =>
    rw [ranges] at apart
    refine ⟨?_,?_,?_⟩
    · unfold Ledger.ranges
      rw [idle]
      exact (((list.map _).pairwise_iff Apart.symm).mpr apart)
    · intro a member
      rw [ea_table]
      rcases List.mem_cons.mp (list.mem_iff.mp member) with rfl | old
      · exact placed.placing _ _ placed'
      · exact placed.ea_table a old
    · intro slot memory is
      rw [placing] at is; cases is
  | disposed a u v given before after ranges ea_table placing =>
    have same : next.list.allocations.map Allocation.range = s.list.allocations.map Allocation.range := by
      simp [before,after,Allocation.dispose]
    refine ⟨?_,?_,?_⟩
    · exact fewer (by rw [ranges]; exact List.nil_sublist _) (List.Perm.of_eq same) apart
    · intro b member
      rw [ea_table]
      rw [after] at member
      rcases List.mem_append.mp member with left | right
      · exact placed.ea_table b (by rw [before]; exact List.mem_append_left _ left)
      · rcases List.mem_cons.mp right with rfl | right
        · exact placed.ea_table a (by rw [before]; simp)
        · exact placed.ea_table b (by rw [before]; exact List.mem_append_right _ (List.mem_cons_of_mem _ right))
    · intro slot memory is
      rw [placing] at is; cases is
  | removes del list flag ranges idle ea_table placing =>
    rw [idle] at apart
    refine ⟨?_,?_,?_⟩
    · unfold Ledger.ranges
      rw [ranges]
      exact ((list.map Allocation.range).pairwise_iff Apart.symm).mp apart
    · intro a member
      rw [ea_table]
      exact placed.ea_table a (list.mem_iff.mpr (List.mem_cons_of_mem _ member))
    · intro slot memory is
      rw [placing] at is; cases is

theorem process_queues_same (s : Ledger) (ok : Bool) : (s.process_queues ok).list = s.list ∧ (s.process_queues ok).task = s.task ∧
    (s.process_queues ok).ea_table = s.ea_table := by
  unfold process_queues
  split
  case h_4 | h_7 => split <;> exact ⟨rfl,rfl,rfl⟩
  all_goals exact ⟨rfl,rfl,rfl⟩

theorem Placed.act (placed : Placed s) (sound : Sound s) {a : Act} (new : s.mapsApart a) : Placed (s.act a) := by
  cases a with
  | server ch => exact placed.change (server_changes sound) new
  | spu ok =>
    obtain ⟨list,task,ea_table⟩ := s.process_queues_same ok
    refine ⟨?_,?_,?_⟩
    · show (ServerTask.ranges (s.process_queues ok).task ++ (s.process_queues ok).list.allocations.map _).Pairwise Apart
      rw [task,list]
      exact placed.apart
    · show ∀ a ∈ (s.process_queues ok).list.allocations, (s.process_queues ok).ea_table a.slot = a.buffer
      rw [list,ea_table]
      exact placed.ea_table
    · show ∀ slot memory, (s.process_queues ok).task.placing = some (slot,memory) → (s.process_queues ok).ea_table slot = memory
      rw [task,ea_table]
      exact placed.placing

-- An Allocation stays as it is until its count is given back.
theorem Live.change {a : Allocation} (live : s.Live a) (changes : Changes s ch next) (kept : a ∉ s.disposes ch) : next.Live a := by
  obtain ⟨member,open_⟩ := live
  refine ⟨?_,open_⟩
  cases changes with
  | quiet list => exact list.mem_iff.mpr member
  | maps memory given list => rw [list]; exact member
  | places slot memory list => rw [list]; exact member
  | adds n list => exact list.mem_iff.mpr (List.mem_cons_of_mem _ member)
  | disposed b u v given before after =>
    rw [before] at member
    rw [after]
    rcases List.mem_append.mp member with left | right
    · exact List.mem_append_left _ left
    · rcases List.mem_cons.mp right with rfl | right
      · exact absurd given kept
      · exact List.mem_append_right _ (List.mem_cons_of_mem _ right)
  | removes del list flag =>
    rcases List.mem_cons.mp (list.mem_iff.mp member) with rfl | rest
    · rw [flag] at open_; cases open_
    · exact rest

end

end Ledger
end Spugl
