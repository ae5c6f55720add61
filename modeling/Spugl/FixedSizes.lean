import Mathlib

namespace Spugl

-- The numerals of the fixed-size index types: one queue or SPU of a concrete run, two
-- of them, three or four lanes, sixteen slots.
instance one_neZero : NeZero (1 : Nat) := ⟨by decide⟩
instance two_neZero : NeZero (2 : Nat) := ⟨by decide⟩
instance three_neZero : NeZero (3 : Nat) := ⟨by decide⟩
instance four_neZero : NeZero (4 : Nat) := ⟨by decide⟩
instance sixteen_neZero : NeZero (16 : Nat) := ⟨by decide⟩

end Spugl
