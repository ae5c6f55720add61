import Mathlib

namespace WriteBack

section
variable {Addr ι κ β : Type} {place : κ → ι → Addr} {held : κ → Prop} {buffer : κ → ι → β} {memory direct : Addr → β}

-- A part of a memory is given by the addresses of its cells.
def fetch (memory : Addr → β) (part : ι → Addr) : ι → β := fun n => memory (part n)

def store [DecidableEq Addr] (cells : List ι) (memory : Addr → β) (part : ι → Addr) (values : ι → β) : Addr → β :=
  cells.foldl (fun memory n => Function.update memory (part n) (values n)) memory

-- Parts that have no cell in common.
structure Apart (inside : κ → Prop) (place : κ → ι → Addr) : Prop where
  once : ∀ c, inside c → Function.Injective (place c)
  apart : ∀ c c' n n', inside c → inside c' → place c n = place c' n' → c = c'

-- `direct` is what the memory would be without the buffers.
structure Buffered (place : κ → ι → Addr) (held : κ → Prop) (buffer : κ → ι → β) (memory direct : Addr → β) : Prop where
  inner : ∀ c, held c → fetch direct (place c) = buffer c
  outer : ∀ a, (∀ c, held c → ∀ n, place c n ≠ a) → direct a = memory a

theorem Buffered.start (none : ∀ c, ¬held c) (memory : Addr → β) : Buffered place held buffer memory memory :=
  ⟨fun c there => absurd there (none c),fun _ _ => rfl⟩

theorem Buffered.congr {held' : κ → Prop} (buffered : Buffered place held buffer memory direct) (same : ∀ c, held' c ↔ held c) :
    Buffered place held' buffer memory direct := by
  refine ⟨fun c there => buffered.inner c ((same c).mp there),?_⟩
  intro a out
  exact buffered.outer a fun c there => out c ((same c).mpr there)

-- A part is fetched where no buffer had it.
theorem Buffered.load [DecidableEq κ] {inside : κ → Prop} (buffered : Buffered place held buffer memory direct) (apart : Apart inside place)
    (within : ∀ d, held d → inside d) (here : inside c) (new : ¬held c) :
    Buffered place (fun d => d = c ∨ held d) (Function.update buffer c (fetch memory (place c))) memory direct := by
  constructor
  · intro d there
    by_cases isC : d = c
    · subst isC
      rw [Function.update_self]
      funext n
      apply buffered.outer
      intro d' there' n' same
      have again := apart.apart d' d n' n (within d' there') here same
      exact new (again ▸ there')
    · rw [Function.update_of_ne isC]
      exact buffered.inner d (there.resolve_left isC)
  · intro a out
    exact buffered.outer a fun d there => out d (.inr there)

section
variable [DecidableEq Addr] {cells : List ι} {part : ι → Addr} {values : ι → β}

theorem store_cons (n : ι) (rest : List ι) : store (n :: rest) memory part values =
    store rest (Function.update memory (part n) (values n)) part values := rfl

theorem store_other (out : ∀ n ∈ cells, part n ≠ a) : store cells memory part values a = memory a := by
  induction cells generalizing memory with
  | nil => rfl
  | cons m rest ih =>
    rw [store_cons,ih fun n member => out n (List.mem_cons_of_mem _ member)]
    exact Function.update_of_ne (Ne.symm (out m List.mem_cons_self)) _ _

theorem store_at (once : Function.Injective part) (member : n ∈ cells) : store cells memory part values (part n) = values n := by
  induction cells generalizing memory with
  | nil => cases member
  | cons m rest ih =>
    by_cases later : n ∈ rest
    · exact ih later
    · have isM : n = m := (List.mem_cons.mp member).resolve_right later
      subst isM
      rw [store_cons,store_other]
      · exact Function.update_self ..
      intro k there same
      exact later (once same ▸ there)

-- What a store of one part does to a part.
theorem fetch_same {inside : κ → Prop} (apart : Apart inside place) (all : ∀ n, n ∈ cells) (here : inside c) :
    fetch (store cells memory (place c) values) (place c) = values := by
  funext n
  exact store_at (apart.once c here) (all n)

theorem fetch_other {inside : κ → Prop} (apart : Apart inside place) (here : inside c) (there : inside d) (other : d ≠ c) :
    fetch (store cells memory (place c) values) (place d) = fetch memory (place d) := by
  funext n
  apply store_other
  intro n' _ same
  exact other (apart.apart c d n' n here there same).symm

-- What is done to a part directly is done to its buffer.
theorem Buffered.apply [DecidableEq κ] {inside : κ → Prop} (buffered : Buffered place held buffer memory direct) (apart : Apart inside place)
    (within : ∀ d, held d → inside d) (all : ∀ n, n ∈ cells) (here : held c) (values : ι → β) :
    Buffered place held (Function.update buffer c values) memory (store cells direct (place c) values) := by
  constructor
  · intro d there
    by_cases isC : d = c
    · subst isC
      rw [Function.update_self]
      funext n
      exact store_at (apart.once d (within d there)) (all n)
    · rw [Function.update_of_ne isC,← buffered.inner d there]
      funext n
      apply store_other
      intro n' _ same
      exact isC (apart.apart c d n' n (within c here) (within d there) same).symm
  · intro a out
    rw [store_other fun n _ => out c here n]
    exact buffered.outer a out

-- Buffers written back one behind the other.
def writeBack (cells : List ι) (place : κ → ι → Addr) (buffer : κ → ι → β) (memory : Addr → β) (l : List κ) : Addr → β :=
  l.foldl (fun memory c => store cells memory (place c) (buffer c)) memory

theorem writeBack_cons (c : κ) (rest : List κ) : writeBack cells place buffer memory (c :: rest) =
    writeBack cells place buffer (store cells memory (place c) (buffer c)) rest := rfl

theorem writeBack_other {l : List κ} (out : ∀ c ∈ l, ∀ n, place c n ≠ a) : writeBack cells place buffer memory l a = memory a := by
  induction l generalizing memory with
  | nil => rfl
  | cons c rest ih =>
    rw [writeBack_cons,ih fun d member => out d (List.mem_cons_of_mem _ member)]
    exact store_other fun n _ => out c List.mem_cons_self n

theorem writeBack_at {inside : κ → Prop} {l : List κ} (apart : Apart inside place) (within : ∀ c ∈ l, inside c) (all : ∀ n, n ∈ cells)
    (member : c ∈ l) (n : ι) : writeBack cells place buffer memory l (place c n) = buffer c n := by
  induction l generalizing memory with
  | nil => cases member
  | cons d rest ih =>
    by_cases later : c ∈ rest
    · exact ih (fun d' there => within d' (List.mem_cons_of_mem _ there)) later
    · have isD : c = d := (List.mem_cons.mp member).resolve_right later
      subst isD
      rw [writeBack_cons,writeBack_other]
      · exact store_at (apart.once c (within c member)) (all n)
      intro d' there n' same
      have again := apart.apart d' c n' n (within d' (List.mem_cons_of_mem _ there)) (within c member) same
      exact later (again ▸ there)

-- Whatever is in the buffers, it is so against the memory that they would leave.
theorem Buffered.flushed {inside : κ → Prop} {l : List κ} (apart : Apart inside place) (within : ∀ c ∈ l, inside c) (all : ∀ n, n ∈ cells)
    (buffer : κ → ι → β) (memory : Addr → β) :
    Buffered place (· ∈ l) buffer memory (writeBack cells place buffer memory l) := by
  constructor
  · intro c here
    funext n
    exact writeBack_at apart within all here n
  · intro a out
    exact writeBack_other out

-- The buffers were invisible.
theorem Buffered.flush {inside : κ → Prop} {l : List κ} (buffered : Buffered place held buffer memory direct) (apart : Apart inside place)
    (within : ∀ d, held d → inside d) (all : ∀ n, n ∈ cells) (listed : ∀ c, c ∈ l ↔ held c) :
    writeBack cells place buffer memory l = direct := by
  funext a
  by_cases there : ∃ c, held c ∧ ∃ n, place c n = a
  · obtain ⟨c,here,n,rfl⟩ := there
    rw [writeBack_at apart (fun d member => within d ((listed d).mp member)) all ((listed c).mpr here)]
    exact (congrFun (buffered.inner c here) n).symm
  · have out : ∀ c, held c → ∀ n, place c n ≠ a := fun c here n same => there ⟨c,here,n,same⟩
    rw [writeBack_other fun c member => out c ((listed c).mp member)]
    exact (buffered.outer a out).symm

end

end
end WriteBack
