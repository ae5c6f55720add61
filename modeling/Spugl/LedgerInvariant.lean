import Spugl.BufferLedger

namespace Spugl

def ServerTask.memory : ServerTask → List Nat
  | .search _ _ memory _ | .store _ _ memory _ _ _ | .unmapFailed _ memory => [memory]
  | .unmap del _ => [del.buffer]
  | _ => []

def ServerTask.file : ServerTask → List Nat
  | .opened _ fd | .extended _ fd | .search _ fd _ _ | .store _ fd _ _ _ _ | .unmapFailed fd _ | .closeFailed fd | .close fd _ => [fd]
  | .unmap del _ => [del.fd]
  | _ => []

-- The flag is set before the count is decremented.
def ServerTask.disposing : ServerTask → Option Nat
  | .dispose id _ | .disposeStore id _ _ => some (blockSlot id)
  | _ => none

namespace Ledger
open Function

def disposed (s : Ledger) (a : Allocation) : Bool := a.countDisposed && !decide (s.task.disposing = some a.slot)

def entries (s : Ledger) : List (Nat × Bool) := s.list.allocations.map fun a => (a.slot,s.disposed a)

def unlisted (s : Ledger) (i : Nat) : Prop := i ∉ s.list.allocations.map Allocation.slot

-- What a loaded word is worth while the reservation lasts.
def Loaded (s : Ledger) (i : Nat) (word : Nat → Int) : Prop := s.reserved = some i → ∀ k, k < 4 → word k = s.table (i + k)

-- While an allocation goes on.
structure Begun (s : Ledger) (t : ServerTask) : Prop where
  list : s.list = s.began.list
  mapped : s.mapped.Perm (t.memory ++ s.began.mapped)
  files : s.files.Perm (t.file ++ s.began.files)
  counts : ∀ i, s.table i - s.locks i = s.began.counts i

structure Searching (s : Ledger) (r : BlockRequest) (i : Nat) : Prop where
  connection : r.connection < s.list.first.length
  aligned : i % 4 = 0
  low : blockStart r.commandQueue ≤ i

-- The Allocation at a place in the lists.
def At (s : Ledger) (del : Allocation) (p : Place) : Prop :=
  ∃ k, (s.connections p.closed)[p.connection]? = some k ∧ k.allocations[p.allocation]? = some del

def Disposing (s : Ledger) (id : Nat) : Prop := ∃ a ∈ s.list.allocations, a.slot = blockSlot id ∧ a.countDisposed = true

def Fits (s : Ledger) : ServerTask → Prop
  | .opened r fd => Begun s (.opened r fd) ∧ s.ea_table = s.began.ea_table ∧ r.connection < s.list.first.length
  | .extended r fd => Begun s (.extended r fd) ∧ s.ea_table = s.began.ea_table ∧ r.connection < s.list.first.length
  | .search r fd memory i => Begun s (.search r fd memory i) ∧ Searching s r i ∧
      (s.ea_table = s.began.ea_table ∨ ∃ j, j < 4 ∧ i < blockEnd r.commandQueue ∧ s.unlisted (i + j))
  | .store r fd memory i j word => Begun s (.store r fd memory i j word) ∧ Searching s r i ∧ j < 4 ∧ i < blockEnd r.commandQueue ∧
      s.unlisted (i + j) ∧ s.Loaded i word
  | .unmapFailed fd memory => Begun s (.unmapFailed fd memory) ∧ s.ea_table = s.began.ea_table
  | .closeFailed fd => Begun s (.closeFailed fd) ∧ s.ea_table = s.began.ea_table
  | .failed => Begun s .failed ∧ s.ea_table = s.began.ea_table
  | .dispose id _ => s.Disposing id
  | .disposeStore id word _ => s.Disposing id ∧ s.Loaded (wordOf id) word
  | .tryFree del p => s.At del p
  | .tryFreeStore del word p => s.At del p ∧ s.Loaded (wordOf del.id) word ∧ word (byteOf del.id) ≤ 0
  | .unmap del _ => del.countDisposed = true ∧ s.unlisted del.slot
  | _ => True

-- The SPU's copy of the line while its reservation lasts.
def Copied (s : Ledger) (buf : Nat → Int) : Prop := s.spuReserved = true → ∀ i, i < 128 → buf i = s.table i

def SpuFits (s : Ledger) : SpuTask → Prop
  | .sleep => True
  | .retry current | .process current | .retryUnlock current => current < commandBuffers
  | .scan current buf | .unlock current buf => current < commandBuffers ∧ s.Copied buf
  | .lock current buf => current < commandBuffers ∧ s.Copied buf ∧ 0 < buf current

structure Sound (s : Ledger) : Prop where
  counted : Counted s.table s.locks s.entries
  kinds : ∀ a ∈ s.list.allocations, a.commandQueue = true ↔ a.slot < commandBuffers
  mapped : s.mapped.Perm (s.task.memory ++ s.list.allocations.map Allocation.buffer)
  single : s.mapped.Nodup
  files : s.files.Perm (s.task.file ++ s.list.allocations.map Allocation.fd)
  once : s.files.Nodup
  balance : ∀ x, s.maps.count x = s.unmaps.count x + s.mapped.count x
  fits : s.Fits s.task
  spu : s.SpuFits s.spu
  queue : s.next_queue < commandBuffers

theorem start_sound : Sound start where
  counted := by
    refine ⟨List.nodup_nil,?_,fun i _ => ⟨rfl,rfl⟩,fun i => Int.le_refl 0⟩
    intro e member
    cases member
  kinds a member := by cases member
  mapped := .nil
  single := List.nodup_nil
  files := .nil
  once := List.nodup_nil
  balance x := rfl
  fits := trivial
  spu := trivial
  queue := by decide

section
variable {s : Ledger}

theorem stwcx_update {table word : Nat → Int} (loaded : ∀ k, k < 4 → word k = table (i + k)) (less : j < 4) (v : Int) :
    stwcx table i (update word j v) = update table (i + j) v := by
  funext k
  unfold stwcx
  by_cases same : k = i + j
  · rw [same,update_self,if_pos ⟨by omega,by omega⟩,show i + j - i = j by omega,update_self]
  · rw [update_of_ne same]
    split
    · rename_i inside
      rw [update_of_ne (by omega),loaded (k - i) (by omega),show i + (k - i) = k by omega]
    · rfl

theorem word_byte (id : Nat) : wordOf id + byteOf id = blockSlot id ∧ byteOf id < 4 := by
  unfold wordOf byteOf
  omega

theorem Sound.slots (sound : Sound s) : (s.list.allocations.map Allocation.slot).Nodup := by
  have nodup := sound.counted.slots
  rwa [entries,List.map_map] at nodup

theorem entries_slots (s : Ledger) : s.entries.map Prod.fst = s.list.allocations.map Allocation.slot := by
  rw [entries,List.map_map]
  rfl

theorem Sound.unlisted_free (sound : Sound s) : s.unlisted i ↔ s.table i < 0 := by
  unfold unlisted
  rw [← s.entries_slots]
  constructor
  · intro out
    rw [(sound.counted.unused i out).1]
    decide
  · exact sound.counted.taken

-- A step to another place in the server's program.
theorem Sound.goto (sound : Sound s) {t : ServerTask} {r : Option Nat} {e : Nat → Nat} (memory : t.memory = s.task.memory) (file : t.file = s.task.file)
    (disposing : t.disposing = s.task.disposing) (fits : Fits {s with ea_table := e,task := t,reserved := r} t) :
    Sound {s with ea_table := e,task := t,reserved := r} := by
  have same : entries {s with ea_table := e,task := t,reserved := r} = s.entries := by
    unfold entries disposed
    simp only [disposing]
  refine ⟨?_,sound.kinds,?_,sound.single,?_,sound.once,sound.balance,fits,?_,sound.queue⟩
  · rw [same]
    exact sound.counted
  · rw [memory]
    exact sound.mapped
  · rw [file]
    exact sound.files
  · have spu := sound.spu
    unfold SpuFits at spu ⊢
    cases at_ : s.spu with
    | sleep => trivial
    | retry | process | retryUnlock => simpa only [at_] using spu
    | scan | unlock | lock => simpa only [at_,Copied] using spu

-- The line has changed under the server: only slots that are in use, and a reservation
-- that lasts has seen no change.
theorem Fits.disturb {s s' : Ledger} {t : ServerTask} (fits : Fits s t) (list : s'.list = s.list) (mapped : s'.mapped = s.mapped)
    (files : s'.files = s.files) (began : s'.began = s.began) (ea_table : s'.ea_table = s.ea_table)
    (counts : ∀ i, s'.table i - s'.locks i = s.table i - s.locks i)
    (reserved : ∀ i, s'.reserved = some i → s.reserved = some i ∧ ∀ k, k < 4 → i % 4 = 0 → s'.table (i + k) = s.table (i + k)) : Fits s' t := by
  have begun {t : ServerTask} (was : Begun s t) : Begun s' t :=
    ⟨by rw [list,began]; exact was.list,by rw [mapped,began]; exact was.mapped,by rw [files,began]; exact was.files,
      fun i => by rw [counts i,began]; exact was.counts i⟩
  have loaded {i : Nat} {word : Nat → Int} (aligned : i % 4 = 0) (was : Loaded s i word) : Loaded s' i word := by
    intro still k less
    obtain ⟨before,same⟩ := reserved i still
    rw [same k less aligned]
    exact was before k less
  have searching {r : BlockRequest} {i : Nat} (was : Searching s r i) : Searching s' r i :=
    ⟨by rw [list]; exact was.connection,was.aligned,was.low⟩
  have wordAligned (id : Nat) : wordOf id % 4 = 0 := by unfold wordOf; omega
  have place {del : Allocation} {p : Place} (was : s.At del p) : s'.At del p := by
    unfold At connections at was ⊢
    rw [list]
    exact was
  cases t with
  | main | disconnect | sweep | close => trivial
  | opened | extended => exact ⟨begun fits.1,by rw [ea_table,began]; exact fits.2.1,by rw [list]; exact fits.2.2⟩
  | search =>
    refine ⟨begun fits.1,searching fits.2.1,?_⟩
    unfold unlisted
    rw [list,ea_table,began]
    exact fits.2.2
  | store =>
    obtain ⟨was,search,less,inside,free,word⟩ := fits
    refine ⟨begun was,searching search,less,inside,?_,loaded search.aligned word⟩
    unfold unlisted
    rw [list]
    exact free
  | unmapFailed | closeFailed | failed => exact ⟨begun fits.1,by rw [ea_table,began]; exact fits.2⟩
  | dispose =>
    unfold Fits Disposing at *
    rw [list]
    exact fits
  | disposeStore id word =>
    refine ⟨?_,loaded (wordAligned id) fits.2⟩
    unfold Disposing
    rw [list]
    exact fits.1
  | tryFree => exact place fits
  | tryFreeStore del word => exact ⟨place fits.1,loaded (wordAligned del.id) fits.2.1,fits.2.2⟩
  | unmap =>
    refine ⟨fits.1,?_⟩
    unfold unlisted
    rw [list]
    exact fits.2

theorem Sound.line (sound : Sound s) {s' : Ledger} (list : s'.list = s.list) (task : s'.task = s.task) (mapped : s'.mapped = s.mapped)
    (files : s'.files = s.files) (maps : s'.maps = s.maps) (unmaps : s'.unmaps = s.unmaps) (began : s'.began = s.began)
    (ea_table : s'.ea_table = s.ea_table) (counted : Counted s'.table s'.locks s.entries)
    (counts : ∀ i, s'.table i - s'.locks i = s.table i - s.locks i)
    (reserved : ∀ i, s'.reserved = some i → s.reserved = some i ∧ ∀ k, k < 4 → i % 4 = 0 → s'.table (i + k) = s.table (i + k))
    (spu : s'.SpuFits s'.spu) (queue : s'.next_queue < commandBuffers) : Sound s' := by
  have same : s'.entries = s.entries := by
    unfold entries disposed
    rw [list,task]
  refine ⟨by rw [same]; exact counted,by rw [list]; exact sound.kinds,?_,by rw [mapped]; exact sound.single,?_,
    by rw [files]; exact sound.once,by rw [maps,unmaps,mapped]; exact sound.balance,?_,spu,queue⟩
  · rw [mapped,task,list]
    exact sound.mapped
  · rw [files,task,list]
    exact sound.files
  · rw [task]
    exact sound.fits.disturb list mapped files began ea_table counts reserved

-- A step of the SPU that stores nothing.
theorem Sound.spin (sound : Sound s) {t : SpuTask} {r : Bool} {next stopat : Nat} (holds : t.holds = s.spu.holds)
    (fits : SpuFits {s with spu := t,spuReserved := r,next_queue := next,stopat := stopat} t) (queue : next < commandBuffers) :
    Sound {s with spu := t,spuReserved := r,next_queue := next,stopat := stopat} := by
  have same : locks {s with spu := t,spuReserved := r,next_queue := next,stopat := stopat} = s.locks := congrArg lockOf holds
  refine sound.line rfl rfl rfl rfl rfl rfl rfl rfl ?_ ?_ ?_ fits queue
  · rw [same]
    exact sound.counted
  · intro i
    rw [same]
  · exact fun i still => ⟨still,fun _ _ _ => rfl⟩

theorem putllc_update {table buf : Nat → Int} (copied : ∀ i, i < 128 → buf i = table i) (less : current < 128) (v : Int) :
    (fun i => if i < 128 then update buf current v i else table i) = update table current v := by
  funext i
  by_cases same : i = current
  · rw [same,if_pos less,update_self,update_self]
  · rw [update_of_ne same,update_of_ne same]
    split
    · rename_i inside
      exact copied i inside
    · rfl

theorem putllc_reserved {reserved : Option Nat} (still : (reserved.filter fun i => !decide (i < 128)) = some i) :
    reserved = some i ∧ 128 ≤ i := by
  obtain ⟨was,far⟩ := Option.filter_eq_some_iff.mp still
  exact ⟨was,by simpa using far⟩

theorem small_far (less : current < commandBuffers) : current < 128 := by
  unfold commandBuffers at less
  omega

theorem Sound.putllc (sound : Sound s) {t : SpuTask} {buf : Nat → Int} (d : Int) (less : current < commandBuffers)
    (copied : ∀ i, i < 128 → buf i = s.table i)
    (counted : Counted (update s.table current (s.table current + d)) (lockOf t.holds) s.entries)
    (held : lockOf t.holds = update s.locks current (s.locks current + d))
    (fits : SpuFits {s.putllc (update buf current (buf current + d)) with spu := t} t) :
    Sound {s.putllc (update buf current (buf current + d)) with spu := t} := by
  have near := small_far less
  have table : (s.putllc (update buf current (buf current + d))).table = update s.table current (s.table current + d) := by
    rw [← copied current near]
    exact putllc_update copied near _
  refine sound.line rfl rfl rfl rfl rfl rfl rfl rfl ?_ ?_ ?_ fits sound.queue
  · simp only [table]
    exact counted
  · intro i
    have locks : Ledger.locks {s.putllc (update buf current (buf current + d)) with spu := t} = update s.locks current (s.locks current + d) := held
    rw [locks]
    simp only [table]
    by_cases same : i = current
    · rw [same,update_self,update_self]
      omega
    · rw [update_of_ne same,update_of_ne same]
  · intro i still
    obtain ⟨was,far⟩ := putllc_reserved still
    refine ⟨was,fun k _ _ => ?_⟩
    simp only [table]
    exact update_of_ne (by omega) _ _

theorem lockOf_step (current : Nat) : lockOf (some current) = update (lockOf none) current (lockOf none current + 1) ∧
    lockOf none = update (lockOf (some current)) current (lockOf (some current) current + -1) := by
  constructor
  all_goals
    funext i
    by_cases same : i = current
    · rw [same,update_self]
      simp [lockOf]
    · rw [update_of_ne same]
      simp [lockOf,Ne.symm same]

theorem next_holds (s : Ledger) (current : Nat) (buf : Nat → Int) : (s.next current buf).holds = none := by
  unfold next
  simp only
  split <;> rfl

theorem next_fits {s' : Ledger} (copied : s'.Copied buf) : s'.SpuFits (s.next current buf) := by
  have less : (current + 1) % commandBuffers < commandBuffers := Nat.mod_lt _ (by decide)
  unfold next
  simp only
  split
  · trivial
  · exact ⟨less,copied⟩

theorem spu_sound (sound : Sound s) (ok : Bool) : Sound (s.process_queues ok) := by
  have spu := sound.spu
  unfold process_queues
  cases at_ : s.spu with
  | sleep => exact sound.spin (by rw [at_]; rfl) sound.queue sound.queue
  | retry current =>
    rw [at_] at spu
    exact sound.spin (by rw [at_]; rfl) ⟨spu,fun _ _ _ => rfl⟩ sound.queue
  | scan current buf =>
    rw [at_] at spu
    obtain ⟨less,copied⟩ := spu
    simp only
    split
    · rename_i positive
      exact sound.spin (by rw [at_]; rfl) ⟨less,copied,positive⟩ sound.queue
    · exact sound.spin (by rw [at_,next_holds]; rfl) (next_fits copied) sound.queue
  | lock current buf =>
    rw [at_] at spu
    obtain ⟨less,copied,positive⟩ := spu
    simp only
    split
    · rename_i success
      have same := copied success.1
      have idle : s.locks = lockOf none := by
        unfold locks
        rw [at_]
        rfl
      have counted := sound.counted
      rw [idle] at counted
      rw [same current (small_far less)] at positive
      refine sound.putllc (t := .process current) 1 less same (counted.lock positive) ?_ less
      rw [idle]
      exact (lockOf_step current).1
    · exact sound.spin (by rw [at_]; rfl) less sound.queue
  | process current =>
    rw [at_] at spu
    exact sound.spin (by rw [at_]; rfl) spu (Nat.mod_lt _ (by decide))
  | retryUnlock current =>
    rw [at_] at spu
    exact sound.spin (by rw [at_]; rfl) ⟨spu,fun _ _ _ => rfl⟩ sound.queue
  | unlock current buf =>
    rw [at_] at spu
    obtain ⟨less,copied⟩ := spu
    simp only
    split
    · rename_i success
      have same := copied success.1
      have held : s.locks = lockOf (some current) := by
        unfold locks
        rw [at_]
        rfl
      have counted := sound.counted
      rw [held] at counted
      refine sound.putllc (t := s.next current (update buf current (buf current - 1))) (-1) less same ?_ ?_ ?_
      · rw [next_holds]
        exact counted.unlock
      · rw [next_holds,held]
        exact (lockOf_step current).2
      · refine next_fits fun taken => ?_
        cases taken
    · exact sound.spin (by rw [at_]; rfl) less sound.queue

-- A part of one connection's list, among all Allocations.
theorem exchanged (s : Ledger) (closed : Bool) {before after : List Connection} {fd : Option Nat} {x y z : List Allocation}
    (front : s.connections closed = before ++ ⟨fd,x ++ z ++ y⟩ :: after) :
    ∃ u v, s.list.allocations = u ++ z ++ v ∧
      ∀ z', (s.onConnections closed (before ++ ⟨fd,x ++ z' ++ y⟩ :: after)).list.allocations = u ++ z' ++ v := by
  cases closed with
  | false =>
    have first : s.list.first = before ++ ⟨fd,x ++ z ++ y⟩ :: after := front
    refine ⟨owned before ++ x,y ++ (owned after ++ owned s.list.firstClosed),?_,fun z' => ?_⟩
    · rw [all_owned,first,owned_split]
      simp only [List.append_assoc]
    · rw [all_owned]
      simp only [onConnections,Bool.false_eq_true,if_false]
      rw [owned_split]
      simp only [List.append_assoc]
  | true =>
    have last : s.list.firstClosed = before ++ ⟨fd,x ++ z ++ y⟩ :: after := front
    refine ⟨owned s.list.first ++ (owned before ++ x),y ++ owned after,?_,fun z' => ?_⟩
    · rw [all_owned,last,owned_split]
      simp only [List.append_assoc]
    · rw [all_owned]
      simp only [onConnections,if_true]
      rw [owned_split]
      simp only [List.append_assoc]

-- One Allocation among all, for another or for none.
theorem exchanged_at (s : Ledger) (closed : Bool) {before after : List Connection} {fd : Option Nat} {x y : List Allocation} {a : Allocation}
    (front : s.connections closed = before ++ ⟨fd,x ++ a :: y⟩ :: after) :
    ∃ u v, s.list.allocations = u ++ a :: v ∧
      (∀ b, (s.onConnections closed (before ++ ⟨fd,x ++ b :: y⟩ :: after)).list.allocations = u ++ b :: v) ∧
      (s.onConnections closed (before ++ ⟨fd,x ++ y⟩ :: after)).list.allocations = u ++ v := by
  have front' : s.connections closed = before ++ ⟨fd,x ++ [a] ++ y⟩ :: after := by simpa using front
  obtain ⟨u,v,was,now⟩ := exchanged s closed front'
  refine ⟨u,v,by simpa using was,fun b => ?_,?_⟩
  · simpa using now [b]
  · simpa using now []

-- A new one at the head of a connection's list.
theorem exchanged_first (s : Ledger) {before after : List Connection} {fd : Option Nat} {own : List Allocation}
    (front : s.list.first = before ++ ⟨fd,own⟩ :: after) : ∃ u v, s.list.allocations = u ++ v ∧
      ∀ n, (s.onConnections false (before ++ ⟨fd,n :: own⟩ :: after)).list.allocations = u ++ n :: v := by
  have front' : s.connections false = before ++ ⟨fd,[] ++ [] ++ own⟩ :: after := front
  obtain ⟨u,v,was,now⟩ := exchanged s false front'
  refine ⟨u,v,by simpa using was,fun n => ?_⟩
  simpa using now [n]

theorem SpuFits.keep {s s' : Ledger} {t : SpuTask} (fits : s.SpuFits t)
    (same : s'.spuReserved = true → s.spuReserved = true ∧ ∀ i, i < 128 → s'.table i = s.table i) : s'.SpuFits t := by
  have copied {buf : Nat → Int} (was : s.Copied buf) : s'.Copied buf := by
    intro still i less
    obtain ⟨before,table⟩ := same still
    rw [table i less]
    exact was before i less
  cases t with
  | sleep => trivial
  | retry | process | retryUnlock => exact fits
  | scan | unlock => exact ⟨fits.1,copied fits.2⟩
  | lock => exact ⟨fits.1,copied fits.2.1,fits.2.2⟩

-- The SPU loses its reservation where a byte of its line is stored.
theorem commit_far {v : Int} (aligned : i % 4 = 0) (less : j < 4) (still : (s.spuReserved && !decide (i < 128)) = true) :
    s.spuReserved = true ∧ ∀ k, k < 128 → update s.table (i + j) v k = s.table k := by
  obtain ⟨was,far⟩ := Bool.and_eq_true_iff.mp still
  have out : ¬i < 128 := by simpa using far
  exact ⟨was,fun k near => update_of_ne (by omega) _ _⟩

theorem disposed_idle (idle : s.task.disposing = none) (a : Allocation) : s.disposed a = a.countDisposed := by
  unfold disposed
  rw [idle]
  simp

theorem entries_idle (idle : s.task.disposing = none) : s.entries = s.list.allocations.map fun a => (a.slot,a.countDisposed) :=
  List.map_congr_left fun a _ => by rw [disposed_idle idle]

-- An Allocation is flagged, and its count is next.
theorem Sound.flag (sound : Sound s) (closed : Bool) {before after : List Connection} {fd : Option Nat} {x y : List Allocation}
    {a : Allocation} (front : s.connections closed = before ++ ⟨fd,x ++ a :: y⟩ :: after) (live : a.countDisposed = false)
    (idle : s.task.disposing = none) (memory : s.task.memory = []) (file : s.task.file = []) (resume : Option (Nat × Nat)) :
    Sound {s.onConnections closed (before ++ ⟨fd,x ++ a.dispose :: y⟩ :: after) with task := .dispose a.id resume} := by
  obtain ⟨u,v,was,exchange,_⟩ := exchanged_at s closed front
  have now := exchange a.dispose
  have slots := sound.slots
  rw [was,List.map_append,List.map_cons] at slots
  have apart (b : Allocation) (other : b ∈ u ∨ b ∈ v) : b.slot ≠ a.slot := by
    intro same
    have out := (List.nodup_cons.mp (List.perm_middle.nodup_iff.mp slots)).1
    rw [← List.map_append] at out
    exact out (List.mem_map.mpr ⟨b,List.mem_append.mpr other,same⟩)
  generalize behind : s.onConnections closed (before ++ ⟨fd,x ++ a.dispose :: y⟩ :: after) = s' at now ⊢
  have rest : s'.table = s.table ∧ s'.mapped = s.mapped ∧ s'.files = s.files ∧ s'.maps = s.maps ∧ s'.unmaps = s.unmaps ∧
      s'.spu = s.spu ∧ s'.spuReserved = s.spuReserved ∧ s'.next_queue = s.next_queue := by
    rw [← behind]
    exact ⟨rfl,rfl,rfl,rfl,rfl,rfl,rfl,rfl⟩
  obtain ⟨table,mapped,files,maps,unmaps,spu,spuReserved,next⟩ := rest
  have still (b : Allocation) (other : b ∈ u ∨ b ∈ v) : disposed {s' with task := .dispose a.id resume} b = s.disposed b := by
    rw [disposed_idle idle]
    have differ : ¬some (blockSlot a.id) = some b.slot := fun same => apart b other (Option.some.inj same).symm
    simp [disposed,ServerTask.disposing,differ]
  have entry : entries {s' with task := .dispose a.id resume} = s.entries := by
    unfold entries
    simp only [now,was,List.map_append,List.map_cons]
    congr 1
    · exact List.map_congr_left fun b member => by rw [still b (.inl member)]
    · congr 1
      · rw [disposed_idle idle,live]
        simp [disposed,ServerTask.disposing,Allocation.dispose]
      · exact List.map_congr_left fun b member => by rw [still b (.inr member)]
  refine ⟨?_,?_,?_,?_,?_,?_,?_,?_,?_,?_⟩
  · rw [entry]
    have locks : locks {s' with task := .dispose a.id resume} = s.locks := by
      unfold locks
      simp only [spu]
    rw [locks]
    simp only [table]
    exact sound.counted
  · intro b member
    simp only [now,List.mem_append,List.mem_cons] at member
    rcases member with left | rfl | right
    · exact sound.kinds b (by rw [was]; exact List.mem_append_left _ left)
    · exact sound.kinds a (by rw [was]; exact List.mem_append_right _ List.mem_cons_self)
    · exact sound.kinds b (by rw [was]; exact List.mem_append_right _ (List.mem_cons_of_mem _ right))
  · have old := sound.mapped
    rw [memory,was] at old
    simp only [mapped,now]
    simpa [ServerTask.memory,Allocation.dispose] using old
  · simp only [mapped]
    exact sound.single
  · have old := sound.files
    rw [file,was] at old
    simp only [files,now]
    simpa [ServerTask.file,Allocation.dispose] using old
  · simp only [files]
    exact sound.once
  · simp only [maps,unmaps,mapped]
    exact sound.balance
  · exact ⟨a.dispose,by simp only [now]; exact List.mem_append_right _ List.mem_cons_self,rfl,rfl⟩
  · simp only [spu]
    refine sound.spu.keep fun taken => ?_
    simp only [spuReserved] at taken
    exact ⟨taken,fun i _ => by simp only [table]⟩
  · simp only [next]
    exact sound.queue

theorem Sound.counted_kept (sound : Sound s) (idle : s.task.disposing = none) {s' : Ledger} (list : s'.list = s.list)
    (idle' : s'.task.disposing = none) (table : s'.table = s.table) (locks : s'.locks = s.locks) :
    Counted s'.table s'.locks s'.entries := by
  rw [entries_idle idle',list,table,locks,← entries_idle idle]
  exact sound.counted

theorem handle_sound (sound : Sound s) {ch : Choice} (main : s.task = .main) (legal : s.legal (.server ch)) : Sound (s.handle ch) := by
  have memory : s.task.memory = [] := by rw [main]; rfl
  have file : s.task.file = [] := by rw [main]; rfl
  have idle : s.task.disposing = none := by rw [main]; rfl
  have begun : s.mapped.Perm ([] ++ s.mapped) := List.Perm.refl _
  have goto (t : ServerTask) (one : t.memory = []) (two : t.file = []) (three : t.disposing = none) :=
    sound.goto (t := t) (r := s.reserved) (e := s.ea_table) (one.trans memory.symm) (two.trans file.symm) (three.trans idle.symm)
  unfold handle
  cases event : ch.event with
  | connect fd =>
    have fits := sound.fits
    rw [main] at fits
    refine ⟨sound.counted,sound.kinds,sound.mapped,sound.single,sound.files,sound.once,sound.balance,?_,sound.spu.keep ?_,sound.queue⟩
    · simp only [onConnections,main]
      trivial
    · exact fun taken => ⟨taken,fun _ _ => rfl⟩
  | alloc connection commandQueue size =>
    simp only
    split
    · rename_i less
      have fresh (began : Snapshot) (same : began = s.snapshot) (t : ServerTask) (files : List Nat)
          (memory' : t.memory = []) (perm : files.Perm (t.file ++ s.files)) : Begun {s with files := files,task := t,began := began} t := by
        subst same
        refine ⟨rfl,?_,perm,fun _ => rfl⟩
        rw [memory']
        exact List.Perm.refl _
      cases opened : ch.fd with
      | none =>
        refine ⟨sound.counted_kept idle rfl rfl rfl rfl,sound.kinds,?_,sound.single,?_,sound.once,sound.balance,?_,sound.spu.keep ?_,sound.queue⟩
        · have old := sound.mapped
          rw [memory] at old
          exact old
        · have old := sound.files
          rw [file] at old
          exact old
        · exact ⟨fresh _ rfl .failed s.files rfl (List.Perm.refl _),rfl⟩
        · exact fun taken => ⟨taken,fun _ _ => rfl⟩
      | some fd =>
        have new := legal.1 fd opened
        refine ⟨sound.counted_kept idle rfl rfl rfl rfl,sound.kinds,?_,sound.single,?_,?_,sound.balance,?_,sound.spu.keep ?_,sound.queue⟩
        · have old := sound.mapped
          rw [memory] at old
          exact old
        · have old := sound.files
          rw [file] at old
          exact old.cons fd
        · exact List.nodup_cons.mpr ⟨new,sound.once⟩
        · exact ⟨fresh _ rfl (.opened ⟨connection,commandQueue,size⟩ fd) (fd :: s.files) rfl (List.Perm.refl _),rfl,less⟩
        · exact fun taken => ⟨taken,fun _ _ => rfl⟩
    · exact sound
  | free connection id =>
    simp only
    split
    · rename_i k here
      split
      · rename_i own found
        obtain ⟨x,a,y,split,rfl,matched⟩ := updateFirst_split found
        obtain ⟨rfl,live⟩ : a.id = id ∧ a.countDisposed = false := by simpa [disposable] using matched
        obtain ⟨before,after,front,set,_⟩ := at_split here
        rw [set]
        obtain ⟨fd,allocations⟩ := k
        obtain rfl : allocations = x ++ a :: y := split
        exact sound.flag false front live idle memory file none
      · exact sound
    · exact sound
  | disconnect connection =>
    simp only
    split
    · exact goto (.disconnect connection 0) rfl rfl rfl trivial
    · exact sound
  | sweep => exact goto (.sweep ⟨false,0,0⟩) rfl rfl rfl trivial

theorem blockStart_aligned (commandQueue : Bool) : blockStart commandQueue % 4 = 0 ∧ blockEnd commandQueue % 4 = 0 := by
  cases commandQueue <;> exact ⟨rfl,rfl⟩

theorem block_kind (low : blockStart commandQueue ≤ i) (high : i < blockEnd commandQueue) :
    i < dataBuffers ∧ (commandQueue = true ↔ i < commandBuffers) := by
  cases commandQueue with
  | true =>
    have less : i < commandBuffers := high
    exact ⟨Nat.lt_trans less (by decide),fun _ => less,fun _ => rfl⟩
  | false =>
    have more : commandBuffers ≤ i := low
    exact ⟨high,fun same => absurd same Bool.false_ne_true,fun less => absurd less (Nat.not_lt.mpr more)⟩

theorem negative_byte {word : Nat → Int} (found : [0,1,2,3].find? (fun j => decide (word j < 0)) = some j) : j < 4 ∧ word j < 0 := by
  have member := List.mem_of_find?_eq_some found
  have holds := List.find?_some found
  refine ⟨?_,by simpa using holds⟩
  simp only [List.mem_cons,List.not_mem_nil,or_false] at member
  omega

-- A step of allocateBuffer before the store.
theorem search_sound (sound : Sound s) {r : BlockRequest} {fd memory i : Nat} (at_ : s.task = .search r fd memory i) (ch : Choice) :
    Sound (s.allocateBuffer ch (.search r fd memory i)) := by
  have fits := sound.fits
  rw [at_] at fits
  obtain ⟨begun,searching,ea_table⟩ := fits
  obtain ⟨connection,aligned,low⟩ := searching
  have stops := (blockStart_aligned r.commandQueue).2
  unfold allocateBuffer
  simp only
  split
  · rename_i inside
    split
    · rename_i j found
      obtain ⟨less,negative⟩ := negative_byte found
      refine sound.goto (t := .store r fd memory i j (lwarx s.table i)) (by rw [at_]; rfl) (by rw [at_]; rfl) (by rw [at_]; rfl) ?_
      refine ⟨⟨begun.list,begun.mapped,begun.files,begun.counts⟩,⟨connection,aligned,low⟩,less,inside,?_,fun _ _ _ => rfl⟩
      exact sound.unlisted_free.mpr negative
    · rename_i none
      have full (j : Nat) (less : j < 4) : ¬s.unlisted (i + j) := by
        intro out
        have there : j ∈ [0,1,2,3] := by
          simp only [List.mem_cons,List.not_mem_nil,or_false]
          omega
        exact List.find?_eq_none.mp none j there (decide_eq_true (sound.unlisted_free.mp out))
      refine sound.goto (t := .search r fd memory (i + 4)) (by rw [at_]; rfl) (by rw [at_]; rfl) (by rw [at_]; rfl) ?_
      refine ⟨⟨begun.list,begun.mapped,begun.files,begun.counts⟩,⟨connection,by omega,by omega⟩,.inl ?_⟩
      rcases ea_table with same | ⟨j,less,_,out⟩
      · exact same
      · exact absurd out (full j less)
  · rename_i outside
    refine sound.goto (t := .unmapFailed fd memory) (by rw [at_]; rfl) (by rw [at_]; rfl) (by rw [at_]; rfl) ?_
    refine ⟨⟨begun.list,begun.mapped,begun.files,begun.counts⟩,?_⟩
    rcases ea_table with same | ⟨_,_,inside,_⟩
    · exact same
    · exact absurd inside outside

theorem store_sound (sound : Sound s) {r : BlockRequest} {fd memory i j : Nat} {word : Nat → Int}
    (at_ : s.task = .store r fd memory i j word) (ch : Choice) : Sound (s.allocateBuffer ch (.store r fd memory i j word)) := by
  have fits := sound.fits
  rw [at_] at fits
  obtain ⟨begun,searching,less,inside,out,loaded⟩ := fits
  unfold allocateBuffer
  simp only
  split
  · rename_i success
    split
    · rename_i k here
      obtain ⟨before,after,front,set,_⟩ := at_split here
      obtain ⟨fd',own⟩ := k
      rw [set]
      obtain ⟨u,v,was,listed⟩ := exchanged_first s front
      have now := listed ⟨memory,r.size,blockId (i + j) ch.key,fd,r.commandQueue,none,none,false⟩
      obtain ⟨low,aligned⟩ := And.intro searching.low searching.aligned
      have stops := (blockStart_aligned r.commandQueue).2
      have bound : i + j < blockEnd r.commandQueue := by omega
      obtain ⟨small,kind⟩ := block_kind (i := i + j) (by omega) bound
      have slot : blockSlot (blockId (i + j) ch.key) = i + j := blockSlot_blockId small
      have table : (s.commit i (update word j 1)).table = update s.table (i + j) 1 := stwcx_update (loaded success.1) less 1
      generalize new : (⟨memory,r.size,blockId (i + j) ch.key,fd,r.commandQueue,none,none,false⟩ : Allocation) = n at now
      have fields : n.buffer = memory ∧ n.fd = fd ∧ n.slot = i + j ∧ n.commandQueue = r.commandQueue ∧ n.countDisposed = false := by
        rw [← new]
        exact ⟨rfl,rfl,slot,rfl,rfl⟩
      obtain ⟨buffer,file,at_slot,queue,live⟩ := fields
      have list : ((s.commit i (update word j 1)).onConnections false (before ++ ⟨fd',n :: own⟩ :: after)).list =
          (s.onConnections false (before ++ ⟨fd',n :: own⟩ :: after)).list := rfl
      have idle : s.task.disposing = none := by rw [at_]; rfl
      have entries' : (entries {(s.commit i (update word j 1)).onConnections false (before ++ ⟨fd',n :: own⟩ :: after) with task := .main}).Perm
          ((i + j,false) :: s.entries) := by
        rw [entries_idle rfl,entries_idle idle,was]
        simp only [list,now,List.map_append,List.map_cons,live,at_slot]
        exact List.perm_middle
      have counted := sound.counted.add (sound.unlisted_free.mp out)
      refine ⟨?_,?_,?_,sound.single,?_,sound.once,sound.balance,trivial,?_,sound.queue⟩
      · refine Counted.perm ?_ entries'.symm
        simp only [onConnections,table]
        exact counted
      · intro a member
        simp only [list,now,List.mem_append,List.mem_cons] at member
        rcases member with left | rfl | right
        · exact sound.kinds a (by rw [was]; exact List.mem_append_left _ left)
        · rw [queue,at_slot]
          exact kind
        · exact sound.kinds a (by rw [was]; exact List.mem_append_right _ right)
      · have old := sound.mapped
        rw [at_,was] at old
        simp only [list,now]
        refine old.trans ?_
        simp only [List.map_append,List.map_cons,buffer,ServerTask.memory,List.nil_append,List.cons_append]
        exact List.perm_middle.symm
      · have old := sound.files
        rw [at_,was] at old
        simp only [list,now]
        refine old.trans ?_
        simp only [List.map_append,List.map_cons,file,ServerTask.file,List.nil_append,List.cons_append]
        exact List.perm_middle.symm
      · refine sound.spu.keep fun taken => ?_
        simp only [onConnections,table]
        exact commit_far aligned less taken
    · exact sound
  · refine sound.goto (t := .search r fd memory i) (by rw [at_]; rfl) (by rw [at_]; rfl) (by rw [at_]; rfl) ?_
    exact ⟨⟨begun.list,begun.mapped,begun.files,begun.counts⟩,⟨searching.connection,searching.aligned,searching.low⟩,.inr ⟨j,less,inside,out⟩⟩

theorem allocateBuffer_sound (sound : Sound s) {ch : Choice} {t : ServerTask} (at_ : s.task = t) (legal : s.legal (.server ch)) :
    Sound (s.allocateBuffer ch t) := by
  have fits := sound.fits
  rw [at_] at fits
  cases t with
  | opened r fd =>
    obtain ⟨begun,same,connection⟩ := fits
    unfold allocateBuffer
    simp only
    split
    · exact sound.goto (t := .extended r fd) (by rw [at_]; rfl) (by rw [at_]; rfl) (by rw [at_]; rfl)
        ⟨⟨begun.list,begun.mapped,begun.files,begun.counts⟩,same,connection⟩
    · exact sound.goto (t := .closeFailed fd) (by rw [at_]; rfl) (by rw [at_]; rfl) (by rw [at_]; rfl)
        ⟨⟨begun.list,begun.mapped,begun.files,begun.counts⟩,same⟩
  | extended r fd =>
    obtain ⟨begun,same,connection⟩ := fits
    unfold allocateBuffer
    simp only
    split
    · rename_i memory given
      have new := legal.2 memory given
      have disposing : s.task.disposing = none := by rw [at_]; rfl
      refine ⟨?_,sound.kinds,?_,List.nodup_cons.mpr ⟨new,sound.single⟩,?_,sound.once,?_,?_,sound.spu.keep ?_,sound.queue⟩
      · exact sound.counted_kept disposing rfl rfl rfl rfl
      · have old := sound.mapped
        rw [at_] at old
        exact old.cons memory
      · have old := sound.files
        rw [at_] at old
        exact old
      · intro x
        simp only [List.count_cons]
        have old := sound.balance x
        omega
      · exact ⟨⟨begun.list,begun.mapped.cons memory,begun.files,begun.counts⟩,⟨connection,(blockStart_aligned _).1,Nat.le_refl _⟩,.inl same⟩
      · exact fun taken => ⟨taken,fun _ _ => rfl⟩
    · exact sound.goto (t := .closeFailed fd) (by rw [at_]; rfl) (by rw [at_]; rfl) (by rw [at_]; rfl)
        ⟨⟨begun.list,begun.mapped,begun.files,begun.counts⟩,same⟩
  | search r fd memory i => exact search_sound sound at_ ch
  | store r fd memory i j word => exact store_sound sound at_ ch
  | unmapFailed fd memory =>
    obtain ⟨begun,same⟩ := fits
    simp only [allocateBuffer]
    have disposing : s.task.disposing = none := by rw [at_]; rfl
    have old := sound.mapped
    rw [at_] at old
    have there : memory ∈ s.mapped := old.mem_iff.mpr List.mem_cons_self
    have rest := (List.perm_cons_erase there).symm.trans old
    refine ⟨?_,sound.kinds,rest.cons_inv,sound.single.erase _,?_,sound.once,?_,?_,sound.spu.keep ?_,sound.queue⟩
    · exact sound.counted_kept disposing rfl rfl rfl rfl
    · have files := sound.files
      rw [at_] at files
      exact files
    · intro x
      have balance := sound.balance x
      have split := (List.perm_cons_erase there).count_eq x
      simp only [List.count_cons] at split ⊢
      omega
    · refine ⟨⟨begun.list,?_,begun.files,begun.counts⟩,same⟩
      exact ((List.perm_cons_erase there).symm.trans begun.mapped).cons_inv
    · exact fun taken => ⟨taken,fun _ _ => rfl⟩
  | closeFailed fd =>
    obtain ⟨begun,same⟩ := fits
    simp only [allocateBuffer]
    have disposing : s.task.disposing = none := by rw [at_]; rfl
    have old := sound.files
    rw [at_] at old
    have there : fd ∈ s.files := old.mem_iff.mpr List.mem_cons_self
    have rest := (List.perm_cons_erase there).symm.trans old
    refine ⟨?_,sound.kinds,?_,sound.single,rest.cons_inv,sound.once.erase _,sound.balance,?_,sound.spu.keep ?_,sound.queue⟩
    · exact sound.counted_kept disposing rfl rfl rfl rfl
    · have mapped := sound.mapped
      rw [at_] at mapped
      exact mapped
    · refine ⟨⟨begun.list,begun.mapped,?_,begun.counts⟩,same⟩
      exact ((List.perm_cons_erase there).symm.trans begun.files).cons_inv
    · exact fun taken => ⟨taken,fun _ _ => rfl⟩
  | _ => exact sound

-- One byte of a loaded word is stored.
theorem commit_table {id : Nat} {word : Nat → Int} (loaded : s.Loaded (wordOf id) word) (success : s.reserved = some (wordOf id)) (v : Int) :
    (s.commit (wordOf id) (update word (byteOf id) v)).table = update s.table (blockSlot id) v ∧
      word (byteOf id) = s.table (blockSlot id) := by
  obtain ⟨sum,less⟩ := word_byte id
  have same := loaded success
  refine ⟨?_,?_⟩
  · rw [← sum]
    exact stwcx_update same less v
  · rw [← sum]
    exact same _ less

theorem dispose_sound (sound : Sound s) {ch : Choice} {t : ServerTask} (at_ : s.task = t) : Sound (s.blockCountDispose ch t) := by
  have fits := sound.fits
  rw [at_] at fits
  cases t with
  | dispose id resume =>
    exact sound.goto (t := .disposeStore id (lwarx s.table (wordOf id)) resume) (by rw [at_]; rfl) (by rw [at_]; rfl) (by rw [at_]; rfl)
      ⟨fits,fun _ _ _ => rfl⟩
  | disposeStore id word resume =>
    obtain ⟨⟨a,inside,slot,flag⟩,loaded⟩ := fits
    simp only [blockCountDispose]
    split
    · rename_i success
      obtain ⟨stored,byte⟩ := commit_table loaded success.1 (word (byteOf id) - 1)
      have table := stored.trans (congrArg (fun v => update s.table (blockSlot id) (v - 1)) byte)
      obtain ⟨u,v,was⟩ := List.append_of_mem inside
      have slots := sound.slots
      rw [was,List.map_append,List.map_cons] at slots
      have apart (b : Allocation) (other : b ∈ u ++ v) : b.slot ≠ blockSlot id := by
        intro same
        have out := (List.nodup_cons.mp (List.perm_middle.nodup_iff.mp slots)).1
        rw [← List.map_append] at out
        exact out (List.mem_map.mpr ⟨b,other,same.trans slot.symm⟩)
      have rest (b : Allocation) (other : b ∈ u ++ v) : s.disposed b = b.countDisposed := by
        unfold disposed
        rw [at_]
        simp [ServerTask.disposing,Ne.symm (apart b other)]
      have mine : s.disposed a = false := by
        unfold disposed
        rw [at_]
        simp [ServerTask.disposing,slot]
      have before : s.entries = u.map (fun b => (b.slot,b.countDisposed)) ++ (blockSlot id,false) ::
          v.map fun b => (b.slot,b.countDisposed) := by
        have left : u.map (fun b => (b.slot,s.disposed b)) = u.map fun b => (b.slot,b.countDisposed) :=
          List.map_congr_left fun b member => by rw [rest b (List.mem_append_left _ member)]
        have right : v.map (fun b => (b.slot,s.disposed b)) = v.map fun b => (b.slot,b.countDisposed) :=
          List.map_congr_left fun b member => by rw [rest b (List.mem_append_right _ member)]
        unfold entries
        rw [was,List.map_append,List.map_cons,mine,slot,left,right]
      have idle : (resumed resume).disposing = none := by cases resume <;> rfl
      have counted := sound.counted
      rw [before] at counted
      refine ⟨?_,sound.kinds,?_,sound.single,?_,sound.once,sound.balance,?_,sound.spu.keep ?_,sound.queue⟩
      · rw [entries_idle idle]
        simp only [table]
        have list : (s.commit (wordOf id) (update word (byteOf id) (word (byteOf id) - 1))).list = s.list := rfl
        rw [list,was,List.map_append,List.map_cons,slot,flag]
        exact counted.dispose
      · have old := sound.mapped
        rw [at_] at old
        have none : (resumed resume).memory = [] := by cases resume <;> rfl
        rw [none]
        exact old
      · have old := sound.files
        rw [at_] at old
        have none : (resumed resume).file = [] := by cases resume <;> rfl
        rw [none]
        exact old
      · cases resume <;> trivial
      · intro taken
        simp only [table]
        rw [← (word_byte id).1]
        exact commit_far (by unfold wordOf; omega) (word_byte id).2 taken
    · exact sound.goto (t := .dispose id resume) (by rw [at_]; rfl) (by rw [at_]; rfl) (by rw [at_]; rfl) ⟨a,inside,slot,flag⟩
  | _ => exact sound

-- A connection goes to the other list with all that it has.
theorem closed_moved {before after : List Connection} {fd : Option Nat} {own : List Allocation} (front : s.list.first = before ++ ⟨fd,own⟩ :: after) :
    (ConnectionList.allocations ⟨before ++ after,⟨none,own⟩ :: s.list.firstClosed⟩).Perm s.list.allocations := by
  rw [all_owned,all_owned,front,owned_split]
  have split : owned (before ++ after) = owned before ++ owned after := List.flatMap_append
  have closed : owned (⟨none,own⟩ :: s.list.firstClosed) = own ++ owned s.list.firstClosed := List.flatMap_cons
  rw [split,closed]
  simp only [List.append_assoc]
  refine List.Perm.append_left _ ?_
  rw [← List.append_assoc,← List.append_assoc]
  exact List.perm_append_comm.append_right _

-- And from there when it has nothing.
theorem closed_swept {before after : List Connection} {fd : Option Nat} {closed : Bool} (last : closed = true)
    (front : s.connections closed = before ++ ⟨fd,[]⟩ :: after) :
    (s.onConnections closed (before ++ after)).list.allocations = s.list.allocations := by
  subst last
  have here : s.list.firstClosed = before ++ ⟨fd,[]⟩ :: after := front
  rw [all_owned,all_owned,here,owned_split]
  simp [onConnections,owned]

theorem disconnect_sound (sound : Sound s) (at_ : s.task = .disconnect connection allocation) :
    Sound (s.handleDisconnect connection allocation) := by
  have memory : s.task.memory = [] := by rw [at_]; rfl
  have file : s.task.file = [] := by rw [at_]; rfl
  have idle : s.task.disposing = none := by rw [at_]; rfl
  unfold handleDisconnect
  split
  · rename_i k here
    obtain ⟨before,after,front,set,erase⟩ := at_split here
    split
    · rename_i a there
      split
      · exact sound.goto (t := .disconnect connection (allocation + 1)) (by rw [at_]; rfl) (by rw [at_]; rfl) (by rw [at_]; rfl) trivial
      · rename_i live
        obtain ⟨x,y,own,set',_⟩ := at_split there
        obtain ⟨fd,allocations⟩ := k
        obtain rfl : allocations = x ++ a :: y := own
        rw [set,set']
        exact sound.flag false front (by simpa using live) idle memory file (some (connection,allocation))
    · rw [erase]
      obtain ⟨fd,own⟩ := k
      have moved := closed_moved front
      refine ⟨?_,?_,?_,sound.single,?_,sound.once,sound.balance,trivial,sound.spu.keep ?_,sound.queue⟩
      · rw [entries_idle rfl]
        refine sound.counted.perm ?_
        rw [entries_idle idle]
        exact (moved.map _).symm
      · intro a member
        exact sound.kinds a (moved.mem_iff.mp member)
      · have old := sound.mapped
        rw [memory] at old
        exact old.trans (moved.map _).symm
      · have old := sound.files
        rw [file] at old
        exact old.trans (moved.map _).symm
      · exact fun taken => ⟨taken,fun _ _ => rfl⟩
  · exact sound.goto (t := .main) (by rw [at_]; rfl) (by rw [at_]; rfl) (by rw [at_]; rfl) trivial

theorem tryFree_sound (sound : Sound s) {ch : Choice} {del : Allocation} {word : Nat → Int} {p : Place} (at_ : s.task = .tryFreeStore del word p) :
    Sound (s.processOutstandingRequests ch (.tryFreeStore del word p)) := by
  have fits := sound.fits
  rw [at_] at fits
  obtain ⟨⟨k,here,there⟩,loaded,low⟩ := fits
  simp only [processOutstandingRequests]
  split
  · rename_i success
    rw [here]
    obtain ⟨before,after,front,set,_⟩ := at_split here
    obtain ⟨x,y,own,_,erase⟩ := at_split there
    obtain ⟨fd,allocations⟩ := k
    obtain rfl : allocations = x ++ del :: y := own
    simp only
    rw [set,erase]
    obtain ⟨table,byte⟩ := commit_table loaded success.1 (-1)
    obtain ⟨u,v,was,_,now⟩ := exchanged_at s p.closed front
    have idle : s.task.disposing = none := by rw [at_]; rfl
    have counted := sound.counted
    rw [entries_idle idle,was,List.map_append,List.map_cons] at counted
    obtain ⟨flag,free,removed⟩ := counted.remove (byte ▸ low)
    rw [← List.map_append] at removed
    have list : ((s.commit (wordOf del.id) (update word (byteOf del.id) (-1))).onConnections p.closed (before ++ ⟨fd,x ++ y⟩ :: after)).list =
        (s.onConnections p.closed (before ++ ⟨fd,x ++ y⟩ :: after)).list := rfl
    have rest : ((s.commit (wordOf del.id) (update word (byteOf del.id) (-1))).onConnections p.closed (before ++ ⟨fd,x ++ y⟩ :: after)).table =
        update s.table del.slot (-1) := table
    have slots := sound.slots
    rw [was,List.map_append,List.map_cons] at slots
    have out := (List.nodup_cons.mp (List.perm_middle.nodup_iff.mp slots)).1
    refine ⟨?_,?_,?_,sound.single,?_,sound.once,sound.balance,⟨flag,?_⟩,sound.spu.keep ?_,sound.queue⟩
    · rw [entries_idle rfl]
      simp only [list,now,rest]
      exact removed
    · intro a member
      simp only [list,now,List.mem_append] at member
      refine sound.kinds a ?_
      rw [was]
      simp only [List.mem_append,List.mem_cons]
      tauto
    · have old := sound.mapped
      rw [at_,was] at old
      simp only [list,now]
      refine old.trans ?_
      simp only [List.map_append,List.map_cons,ServerTask.memory,List.nil_append,List.cons_append]
      exact List.perm_middle
    · have old := sound.files
      rw [at_,was] at old
      simp only [list,now]
      refine old.trans ?_
      simp only [List.map_append,List.map_cons,ServerTask.file,List.nil_append,List.cons_append]
      exact List.perm_middle
    · unfold unlisted
      simp only [list,now,List.map_append]
      exact out
    · intro taken
      simp only [rest]
      rw [Allocation.slot,← (word_byte del.id).1]
      exact commit_far (by unfold wordOf; omega) (word_byte del.id).2 taken
  · exact sound.goto (t := .tryFree del p) (by rw [at_]; rfl) (by rw [at_]; rfl) (by rw [at_]; rfl) ⟨k,here,there⟩

theorem process_sound (sound : Sound s) {ch : Choice} {t : ServerTask} (at_ : s.task = t) : Sound (s.processOutstandingRequests ch t) := by
  have fits := sound.fits
  rw [at_] at fits
  cases t with
  | sweep p =>
    have goto (t : ServerTask) (one : t.memory = []) (two : t.file = []) (three : t.disposing = none) :=
      sound.goto (t := t) (r := s.reserved) (e := s.ea_table) (by rw [at_]; exact one) (by rw [at_]; exact two) (by rw [at_]; exact three)
    simp only [processOutstandingRequests]
    split
    · rename_i k here
      split
      · rename_i del there
        exact goto (.tryFree del p) rfl rfl rfl ⟨k,here,there⟩
      · split
        · rename_i empty
          obtain ⟨closed,own⟩ := empty
          obtain ⟨before,after,front,_,erase⟩ := at_split here
          rw [erase]
          obtain ⟨fd,allocations⟩ := k
          obtain rfl : allocations = [] := own
          have same := closed_swept closed front
          have idle : s.task.disposing = none := by rw [at_]; rfl
          refine ⟨?_,by rw [same]; exact sound.kinds,?_,sound.single,?_,sound.once,sound.balance,trivial,sound.spu.keep ?_,sound.queue⟩
          · rw [entries_idle rfl]
            simp only [same]
            rw [← entries_idle idle]
            exact sound.counted
          · have old := sound.mapped
            rw [at_] at old
            simp only [same]
            exact old
          · have old := sound.files
            rw [at_] at old
            simp only [same]
            exact old
          · exact fun taken => ⟨taken,fun _ _ => rfl⟩
        · exact goto (.sweep ⟨p.closed,p.connection + 1,0⟩) rfl rfl rfl trivial
    · split
      · exact goto .main rfl rfl rfl trivial
      · exact goto (.sweep ⟨true,0,0⟩) rfl rfl rfl trivial
  | tryFree del p =>
    simp only [processOutstandingRequests]
    split
    · exact sound.goto (t := .sweep {p with allocation := p.allocation + 1}) (by rw [at_]; rfl) (by rw [at_]; rfl) (by rw [at_]; rfl) trivial
    · rename_i idle
      exact sound.goto (t := .tryFreeStore del (lwarx s.table (wordOf del.id)) p) (by rw [at_]; rfl) (by rw [at_]; rfl) (by rw [at_]; rfl)
        ⟨fits,fun _ _ _ => rfl,Int.not_lt.mp idle⟩
  | tryFreeStore del word p => exact tryFree_sound sound at_
  | unmap del p =>
    simp only [processOutstandingRequests]
    have idle : s.task.disposing = none := by rw [at_]; rfl
    have old := sound.mapped
    rw [at_] at old
    have there : del.buffer ∈ s.mapped := old.mem_iff.mpr List.mem_cons_self
    refine ⟨sound.counted_kept idle rfl rfl rfl rfl,sound.kinds,((List.perm_cons_erase there).symm.trans old).cons_inv,sound.single.erase _,
      ?_,sound.once,?_,trivial,sound.spu.keep ?_,sound.queue⟩
    · have files := sound.files
      rw [at_] at files
      exact files
    · intro x
      have balance := sound.balance x
      have split := (List.perm_cons_erase there).count_eq x
      simp only [List.count_cons] at split ⊢
      omega
    · exact fun taken => ⟨taken,fun _ _ => rfl⟩
  | close fd p =>
    simp only [processOutstandingRequests]
    have idle : s.task.disposing = none := by rw [at_]; rfl
    have old := sound.files
    rw [at_] at old
    have there : fd ∈ s.files := old.mem_iff.mpr List.mem_cons_self
    refine ⟨sound.counted_kept idle rfl rfl rfl rfl,sound.kinds,?_,sound.single,((List.perm_cons_erase there).symm.trans old).cons_inv,
      sound.once.erase _,sound.balance,trivial,sound.spu.keep ?_,sound.queue⟩
    · have mapped := sound.mapped
      rw [at_] at mapped
      exact mapped
    · exact fun taken => ⟨taken,fun _ _ => rfl⟩
  | _ => exact sound

theorem server_sound (sound : Sound s) {ch : Choice} (legal : s.legal (.server ch)) : Sound (s.server ch) := by
  unfold server
  split
  · rename_i at_
    exact handle_sound sound at_ legal
  · rename_i at_
    exact sound.goto (t := .main) (by rw [at_]; rfl) (by rw [at_]; rfl) (by rw [at_]; rfl) trivial
  · rename_i at_
    exact dispose_sound sound at_
  · rename_i at_
    exact dispose_sound sound at_
  · rename_i at_
    exact disconnect_sound sound at_
  · rename_i at_
    exact process_sound sound at_
  · rename_i at_
    exact process_sound sound at_
  · rename_i at_
    exact process_sound sound at_
  · rename_i at_
    exact process_sound sound at_
  · rename_i at_
    exact process_sound sound at_
  · exact allocateBuffer_sound sound rfl legal

theorem reached_sound (path : Reached s) : Sound s := by
  apply Runs.Reached.invariant Sound _ _ path
  · rintro s rfl
    exact start_sound
  · rintro s next sound ⟨a,legal,rfl⟩
    cases a with
    | server ch => exact server_sound sound legal
    | spu ok => exact spu_sound sound ok

-- The ledger of slots, counts, mappings and files. An Allocation is live from the store
-- that takes its slot to the store that frees it.
structure Balanced (s : Ledger) : Prop where
  free : ∀ i, s.table i = -1 ↔ ∀ a ∈ s.list.allocations, a.slot ≠ i
  counted : ∀ a ∈ s.list.allocations, s.table a.slot = (if s.disposed a then 0 else 1) + s.locks a.slot
  slots : (s.list.allocations.map Allocation.slot).Nodup
  queues : ∀ a ∈ s.list.allocations, a.commandQueue = true → a.slot < commandBuffers
  backed : ∀ a ∈ s.list.allocations, s.mapped.count a.buffer = 1 ∧ s.files.count a.fd = 1
  mapped : s.mapped.Perm (s.task.memory ++ s.list.allocations.map Allocation.buffer)
  files : s.files.Perm (s.task.file ++ s.list.allocations.map Allocation.fd)
  once : ∀ x, s.maps.count x = s.unmaps.count x + s.mapped.count x
  unmapped : ∀ del p, s.task = .unmap del p → s.mapped.count del.buffer = 1 ∧ del.countDisposed = true ∧ s.table del.slot = -1 ∧ s.locks del.slot = 0
  failed : s.task = .failed → s.list = s.began.list ∧ s.mapped.Perm s.began.mapped ∧ s.files.Perm s.began.files ∧
    s.ea_table = s.began.ea_table ∧ ∀ i, s.table i - s.locks i = s.began.counts i

theorem Sound.free (sound : Sound s) (i : Nat) : s.table i = -1 ↔ ∀ a ∈ s.list.allocations, a.slot ≠ i := by
  have out : s.unlisted i ↔ ∀ a ∈ s.list.allocations, a.slot ≠ i := by
    unfold unlisted
    simp only [List.mem_map,not_exists,not_and]
  rw [← out]
  constructor
  · intro negative
    exact sound.unlisted_free.mpr (by omega)
  · intro unlisted
    refine (sound.counted.unused i ?_).1
    rw [s.entries_slots]
    exact unlisted

-- All orders of the server's and the SPU's steps, with any failures.
theorem ledger_balanced (path : Reached s) : Balanced s := by
  have sound := reached_sound path
  refine ⟨sound.free,?_,sound.slots,fun a inside queue => (sound.kinds a inside).mp queue,?_,sound.mapped,sound.files,sound.balance,?_,?_⟩
  · intro a inside
    exact sound.counted.count (a.slot,s.disposed a) (List.mem_map_of_mem inside)
  · intro a inside
    have there : a.buffer ∈ s.mapped := sound.mapped.mem_iff.mpr (List.mem_append_right _ (List.mem_map_of_mem inside))
    have file : a.fd ∈ s.files := sound.files.mem_iff.mpr (List.mem_append_right _ (List.mem_map_of_mem inside))
    exact ⟨List.count_eq_one_of_mem sound.single there,List.count_eq_one_of_mem sound.once file⟩
  · intro del p at_
    have fits := sound.fits
    rw [at_] at fits
    have there : del.buffer ∈ s.mapped := by
      refine sound.mapped.mem_iff.mpr ?_
      rw [at_]
      exact List.mem_cons_self
    have out : del.slot ∉ s.entries.map Prod.fst := by
      rw [s.entries_slots]
      exact fits.2
    exact ⟨List.count_eq_one_of_mem sound.single there,fits.1,sound.counted.unused del.slot out⟩
  · intro at_
    have fits := sound.fits
    rw [at_] at fits
    obtain ⟨begun,same⟩ := fits
    exact ⟨begun.list,begun.mapped,begun.files,same,begun.counts⟩

end

-- A queue is allocated and locked, and its client frees it.
def shortLife : List Act :=
  let server (event : Event) (fd memory : Option Nat) : Act := .server ⟨event,fd,memory,true,7⟩
  [server (.connect 5) none none,server (.alloc 0 true 4096) (some 6) none,server .sweep none none,server .sweep none (some 8192),
    server .sweep none none,server .sweep none none,.spu true,.spu true,.spu true,.spu true,server (.free 0 (blockId 0 7)) none none,
    server .sweep none none,server .sweep none none,.spu true,.spu true,.spu true]

theorem ledger_balanced_life : Balanced (shortLife.foldl act start) := by
  have begun : Runs.Reached (· = start) (Runs.Step act legal) start := .start rfl
  have path : Reached (shortLife.foldl act start) := begun.follow (by decide +kernel)
  exact ledger_balanced path

end Ledger
end Spugl
