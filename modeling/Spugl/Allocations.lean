import Mathlib

namespace Spugl

-- The first element that satisfies p is changed.
def updateFirst (p : α → Bool) (f : α → α) : List α → Option (List α)
  | [] => none
  | a :: rest => if p a then some (f a :: rest) else (updateFirst p f rest).map (a :: ·)

theorem updateFirst_none {p : α → Bool} {f : α → α} {l : List α} : updateFirst p f l = none ↔ ∀ a ∈ l, p a = false := by
  induction l with
  | nil => simp [updateFirst]
  | cons a rest ih =>
    unfold updateFirst
    cases here : p a with
    | true => simp [here]
    | false => simp [here,ih]

theorem updateFirst_split {p : α → Bool} {f : α → α} {l l' : List α} (found : updateFirst p f l = some l') :
    ∃ before a after, l = before ++ a :: after ∧ l' = before ++ f a :: after ∧ p a = true := by
  induction l generalizing l' with
  | nil => cases found
  | cons a rest ih =>
    unfold updateFirst at found
    cases here : p a with
    | true =>
      rw [here] at found
      exact ⟨[],a,rest,rfl,(Option.some.inj found).symm,here⟩
    | false =>
      simp only [here,Bool.false_eq_true,if_false] at found
      obtain ⟨rest',more,rfl⟩ := Option.map_eq_some_iff.mp found
      obtain ⟨before,b,after,rfl,rfl,there⟩ := ih more
      exact ⟨a :: before,b,after,rfl,rfl,there⟩

theorem updateFirst_at {p : α → Bool} {f : α → α} {before after : List α} (out : ∀ a ∈ before, p a = false) (here : p k = true) :
    updateFirst p f (before ++ k :: after) = some (before ++ f k :: after) := by
  induction before with
  | nil => exact if_pos here
  | cons a rest ih =>
    unfold updateFirst
    rw [List.cons_append]
    simp only [out a List.mem_cons_self,Bool.false_eq_true,if_false,ih fun b member => out b (List.mem_cons_of_mem _ member)]
    rfl

theorem at_split {l : List α} (here : l[i]? = some a) :
    ∃ before after, l = before ++ a :: after ∧ (∀ b, l.set i b = before ++ b :: after) ∧ l.eraseIdx i = before ++ after := by
  induction l generalizing i with
  | nil => cases here
  | cons b rest ih =>
    cases i with
    | zero =>
      obtain rfl : b = a := Option.some.inj here
      exact ⟨[],rest,rfl,fun _ => rfl,rfl⟩
    | succ i =>
      obtain ⟨before,after,rfl,set,erase⟩ := ih here
      refine ⟨b :: before,after,rfl,fun d => ?_,?_⟩
      · rw [List.set_cons_succ,set]
        rfl
      · rw [List.eraseIdx_cons_succ,erase]
        rfl

-- MAX_COMMAND_BUFFERS and MAX_DATA_BUFFERS
def commandBuffers : Nat := 16
def dataBuffers : Nat := 256

-- id & BLOCK_ID_MASK; the bits above it are random.
def blockSlot (id : Nat) : Nat := id % dataBuffers

def blockId (slot key : Nat) : Nat := slot + 65536 * key

-- The flags of a flush are kept with the number of the call that they were set for.
structure Allocation where
  buffer : Nat
  size : Nat
  id : Nat
  fd : Nat
  commandQueue : Bool
  flushWait : Option Nat
  flushDone : Option Nat
  countDisposed : Bool
  deriving DecidableEq

abbrev Allocation.slot (a : Allocation) : Nat := blockSlot a.id

-- Without an fd it is a closed one.
structure Connection where
  fd : Option Nat
  allocations : List Allocation
  deriving DecidableEq

structure ConnectionList where
  first : List Connection
  firstClosed : List Connection

def ConnectionList.allocations (list : ConnectionList) : List Allocation :=
  (list.first ++ list.firstClosed).flatMap Connection.allocations

def owned (l : List Connection) : List Allocation := l.flatMap Connection.allocations

theorem owned_split (before after : List Connection) (fd : Option Nat) (own : List Allocation) :
    owned (before ++ ⟨fd,own⟩ :: after) = owned before ++ own ++ owned after := by
  simp [owned]

theorem all_owned (list : ConnectionList) : list.allocations = owned list.first ++ owned list.firstClosed :=
  List.flatMap_append

-- The search of freeBuffer.
def disposable (id : Nat) (a : Allocation) : Bool := a.id == id && !a.countDisposed

def Allocation.dispose (a : Allocation) : Allocation := {a with countDisposed := true}

-- What is written into the slots that blockManagementAllocateBlock looks at.
def blockRange (commandQueue : Bool) : List Nat :=
  if commandQueue then List.range commandBuffers else List.range' commandBuffers (dataBuffers - commandBuffers)

@[simp] theorem blockSlot_blockId (less : slot < dataBuffers) : blockSlot (blockId slot key) = slot := by
  unfold blockSlot blockId dataBuffers at *
  omega

theorem blockRange_less (member : i ∈ blockRange commandQueue) : i < dataBuffers ∧ (commandQueue = true ↔ i < commandBuffers) := by
  unfold dataBuffers commandBuffers
  cases commandQueue with
  | true =>
    have less := List.mem_range.mp member
    unfold commandBuffers at less
    exact ⟨by omega,by simpa using less⟩
  | false =>
    obtain ⟨low,high⟩ := List.mem_range'_1.mp member
    unfold commandBuffers dataBuffers at *
    exact ⟨by omega,by simpa using low⟩

-- The lock table against the Allocations that have a slot, each with whether its count
-- was disposed, and against the locks that SPUs hold.
structure Counted (table locks : Nat → Int) (entries : List (Nat × Bool)) : Prop where
  slots : (entries.map Prod.fst).Nodup
  count : ∀ e ∈ entries, table e.1 = (if e.2 then 0 else 1) + locks e.1
  unused : ∀ i, i ∉ entries.map Prod.fst → table i = -1 ∧ locks i = 0
  held : ∀ i, 0 ≤ locks i

section
open Function
variable {table locks : Nat → Int} {before after entries entries' : List (Nat × Bool)}

theorem Counted.perm (counted : Counted table locks entries) (perm : entries.Perm entries') : Counted table locks entries' where
  slots := (perm.map _).nodup_iff.mp counted.slots
  count e member := counted.count e (perm.mem_iff.mpr member)
  unused i out := counted.unused i fun member => out ((perm.map _).mem_iff.mp member)
  held := counted.held

theorem Counted.taken (counted : Counted table locks entries) (free : table i < 0) : i ∉ entries.map Prod.fst := by
  intro member
  obtain ⟨e,listed,rfl⟩ := List.mem_map.mp member
  have count := counted.count e listed
  have held := counted.held e.1
  split at count <;> omega

theorem Counted.listed (counted : Counted table locks entries) (used : 0 ≤ table i) : i ∈ entries.map Prod.fst := by
  by_contra out
  have negative := (counted.unused i out).1
  omega

theorem Counted.add (counted : Counted table locks entries) (free : table i < 0) :
    Counted (update table i 1) locks ((i,false) :: entries) := by
  have out := counted.taken free
  refine ⟨List.nodup_cons.mpr ⟨out,counted.slots⟩,?_,?_,counted.held⟩
  · intro e member
    rcases List.mem_cons.mp member with rfl | old
    · rw [update_self,(counted.unused i out).2]
      rfl
    · have other : e.1 ≠ i := fun same => out (List.mem_map.mpr ⟨e,old,same⟩)
      rw [update_of_ne other]
      exact counted.count e old
  · intro j absent
    simp only [List.map_cons,List.mem_cons,not_or] at absent
    rw [update_of_ne absent.1]
    exact counted.unused j absent.2

theorem Counted.middle (counted : Counted table locks (before ++ e :: after)) :
    e.1 ∉ (before ++ after).map Prod.fst ∧ Counted table locks (e :: (before ++ after)) := by
  have front := counted.perm List.perm_middle
  exact ⟨(List.nodup_cons.mp front.slots).1,front⟩

theorem Counted.dispose (counted : Counted table locks (before ++ (i,false) :: after)) :
    Counted (update table i (table i - 1)) locks (before ++ (i,true) :: after) := by
  obtain ⟨out,front⟩ := counted.middle
  refine Counted.perm ?_ List.perm_middle.symm
  refine ⟨front.slots,?_,?_,front.held⟩
  · intro e member
    rcases List.mem_cons.mp member with rfl | old
    · have count := front.count (i,false) List.mem_cons_self
      simp only [Bool.false_eq_true,if_false] at count
      rw [update_self,count]
      simp only [if_true]
      omega
    · have other : e.1 ≠ i := fun same => out (List.mem_map.mpr ⟨e,old,same⟩)
      rw [update_of_ne other]
      exact front.count e (List.mem_cons_of_mem _ old)
  · intro j absent
    have apart := absent
    simp only [List.map_cons,List.mem_cons,not_or] at apart
    rw [update_of_ne apart.1]
    exact front.unused j absent

theorem Counted.remove (counted : Counted table locks (before ++ (i,disposed) :: after)) (unlocked : table i ≤ 0) :
    disposed = true ∧ locks i = 0 ∧ Counted (update table i (-1)) locks (before ++ after) := by
  obtain ⟨out,front⟩ := counted.middle
  have count := front.count (i,disposed) List.mem_cons_self
  have held := counted.held i
  have none : disposed = true ∧ locks i = 0 := by
    cases disposed with
    | true => exact ⟨rfl,by simp only [if_true] at count; omega⟩
    | false => simp only [Bool.false_eq_true,if_false] at count; omega
  refine ⟨none.1,none.2,(List.nodup_cons.mp front.slots).2,?_,?_,front.held⟩
  · intro e member
    have other : e.1 ≠ i := fun same => out (List.mem_map.mpr ⟨e,member,same⟩)
    rw [update_of_ne other]
    exact front.count e (List.mem_cons_of_mem _ member)
  · intro j absent
    by_cases same : j = i
    · rw [same,update_self]
      exact ⟨rfl,none.2⟩
    · rw [update_of_ne same]
      exact front.unused j (by simp only [List.map_cons,List.mem_cons,not_or]; exact ⟨same,absent⟩)

theorem Counted.shift (counted : Counted table locks entries) (listed : i ∈ entries.map Prod.fst) (more : 0 ≤ locks i + d) :
    Counted (update table i (table i + d)) (update locks i (locks i + d)) entries := by
  refine ⟨counted.slots,?_,?_,?_⟩
  · intro e member
    by_cases same : e.1 = i
    · rw [same,update_self,update_self,← same,counted.count e member]
      omega
    · rw [update_of_ne same,update_of_ne same]
      exact counted.count e member
  · intro j absent
    have other : j ≠ i := fun same => absent (same ▸ listed)
    rw [update_of_ne other,update_of_ne other]
    exact counted.unused j absent
  · intro j
    by_cases same : j = i
    · rw [same,update_self]
      exact more
    · rw [update_of_ne same]
      exact counted.held j

-- One SPU, which holds at most one lock.
def lockOf (holds : Option Nat) (i : Nat) : Int := if holds = some i then 1 else 0

@[simp] theorem lockOf_own (i : Nat) : lockOf (some i) i = 1 := if_pos rfl

theorem Counted.lock (counted : Counted table (lockOf none) entries) (used : 0 < table i) :
    Counted (update table i (table i + 1)) (lockOf (some i)) entries := by
  have more := counted.shift (d := 1) (counted.listed (Int.le_of_lt used)) (by have := counted.held i; omega)
  have locks : update (lockOf none) i (lockOf none i + 1) = lockOf (some i) := by
    funext j
    by_cases same : j = i
    · rw [same,update_self]
      simp [lockOf]
    · rw [update_of_ne same]
      simp [lockOf,Ne.symm same]
  rwa [locks] at more

theorem Counted.unlock (counted : Counted table (lockOf (some i)) entries) :
    Counted (update table i (table i - 1)) (lockOf none) entries := by
  have listed : i ∈ entries.map Prod.fst := by
    by_contra out
    have none := (counted.unused i out).2
    simp [lockOf] at none
  have less := counted.shift (d := -1) listed (by simp)
  have locks : update (lockOf (some i)) i (lockOf (some i) i + -1) = lockOf none := by
    funext j
    by_cases same : j = i
    · rw [same,update_self]
      simp [lockOf]
    · rw [update_of_ne same]
      simp [lockOf,Ne.symm same]
  rwa [locks] at less

end

end Spugl
