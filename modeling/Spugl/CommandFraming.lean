import Mathlib

namespace CommandFraming

-- A command is a header and as many further words as the header declares.
def Whole (size : W → Nat) (c : List W) : Prop := ∃ header data, c = header :: data ∧ data.length = size header

instance (size : W → Nat) : (c : List W) → Decidable (Whole size c)
  | [] => .isFalse fun whole => by obtain ⟨_,_,same,_⟩ := whole; cases same
  | header :: data => decidable_of_iff (data.length = size header)
    ⟨fun counted => ⟨header,data,rfl,counted⟩,fun whole => by obtain ⟨_,_,same,counted⟩ := whole; cases same; exact counted⟩

theorem Whole.length {size : W → Nat} (whole : Whole size command) :
    ∃ header, command[0]? = some header ∧ command.length = size header + 1 := by
  obtain ⟨header,data,rfl,counted⟩ := whole
  exact ⟨header,rfl,by rw [List.length_cons,counted]⟩

-- The number of words in front of command k.
def start (cs : List (List W)) (k : Nat) : Nat := (cs.take k).flatten.length

section
variable {cs more : List (List W)} {c : List W} {k m : Nat}

@[simp] theorem start_zero (cs : List (List W)) : start cs 0 = 0 := rfl

@[simp] theorem start_all (cs : List (List W)) : start cs cs.length = cs.flatten.length := by
  rw [start,List.take_length]

theorem start_succ (here : cs[k]? = some c) : start cs (k+1) = start cs k + c.length := by
  unfold start
  rw [List.take_add_one,here]
  simp

theorem start_append (inside : k ≤ cs.length) : start (cs ++ more) k = start cs k := by
  unfold start
  rw [List.take_append_of_le_length inside]

theorem start_mono (cs : List (List W)) (le : k ≤ m) : start cs k ≤ start cs m := by
  obtain ⟨d,rfl⟩ := Nat.exists_eq_add_of_le le
  unfold start
  rw [List.take_add,List.flatten_append,List.length_append]
  exact Nat.le_add_right _ _

-- No two commands start at one place.
theorem start_lt {size : W → Nat} (whole : ∀ c ∈ cs, Whole size c) (less : k < m) (inside : m ≤ cs.length) :
    start cs k < start cs m := by
  have here : cs[k]? = some cs[k] := List.getElem?_eq_getElem (by omega)
  obtain ⟨header,_,counted⟩ := (whole _ (List.getElem_mem (by omega : k < cs.length))).length
  have next := start_succ here
  have rest := start_mono cs (show k+1 ≤ m by omega)
  omega

theorem start_inj {size : W → Nat} (whole : ∀ c ∈ cs, Whole size c) (k_le : k ≤ cs.length) (m_le : m ≤ cs.length)
    (same : start cs k = start cs m) : k = m := by
  rcases Nat.lt_trichotomy k m with less | equal | more
  · have := start_lt whole less m_le; omega
  · exact equal
  · have := start_lt whole more k_le; omega

-- Word i of command k in the stream.
theorem word_at {command : List W} (here : cs[k]? = some command) (inside : i < command.length) :
    cs.flatten[start cs k + i]? = command[i]? := by
  obtain ⟨less,same⟩ := List.getElem?_eq_some_iff.mp here
  have parts : cs.flatten = (cs.take k).flatten ++ (command ++ (cs.drop (k+1)).flatten) := by
    conv_lhs => rw [← List.take_append_drop k cs,List.drop_eq_getElem_cons less,same]
    rw [List.flatten_append,List.flatten_cons]
  rw [parts]
  unfold start
  rw [List.getElem?_append_right (Nat.le_add_right _ _),Nat.add_sub_cancel_left,List.getElem?_append_left inside]

end

-- Reading a stream back by its headers. `fuel` is any bound on the number of words.
def split (size : W → Nat) : Nat → List W → Option (List (List W))
  | _,[] => some []
  | 0,_ :: _ => none
  | fuel+1,header :: rest =>
    if size header ≤ rest.length then
      (split size fuel (rest.drop (size header))).map fun cs => (header :: rest.take (size header)) :: cs
    else none

theorem split_flatten {size : W → Nat} {cs : List (List W)} (whole : ∀ c ∈ cs, Whole size c) (enough : cs.flatten.length ≤ fuel) :
    split size fuel cs.flatten = some cs := by
  induction cs generalizing fuel with
  | nil => cases fuel <;> rfl
  | cons c cs ih =>
    obtain ⟨header,data,rfl,counted⟩ := whole c List.mem_cons_self
    have rest : ∀ x ∈ cs, Whole size x := fun x listed => whole x (List.mem_cons_of_mem _ listed)
    simp only [List.flatten_cons,List.cons_append,List.length_cons,List.length_append] at enough ⊢
    obtain ⟨fuel,rfl⟩ := Nat.exists_eq_succ_of_ne_zero (show fuel ≠ 0 by omega)
    have fits : size header ≤ (data ++ cs.flatten).length := by rw [List.length_append]; omega
    rw [split,if_pos fits,← counted,List.drop_left,List.take_left,ih rest (by omega)]
    rfl

theorem split_whole {size : W → Nat} {words : List W} (read : split size fuel words = some cs) :
    cs.flatten = words ∧ ∀ c ∈ cs, Whole size c := by
  induction fuel generalizing words cs with
  | zero =>
    cases words with
    | nil => cases read; exact ⟨rfl,by simp⟩
    | cons header rest => cases read
  | succ fuel ih =>
    cases words with
    | nil => cases read; exact ⟨rfl,by simp⟩
    | cons header rest =>
      rw [split] at read
      split at read
      · rename_i fits
        obtain ⟨tail,readTail,rfl⟩ := Option.map_eq_some_iff.mp read
        obtain ⟨same,whole⟩ := ih readTail
        constructor
        · rw [List.flatten_cons,same,List.cons_append,List.take_append_drop]
        · intro c listed
          rcases List.mem_cons.mp listed with first | later
          · exact ⟨header,_,first,List.length_take_of_le fits⟩
          · exact whole c later
      · cases read

end CommandFraming
