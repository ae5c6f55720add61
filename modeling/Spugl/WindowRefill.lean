import Spugl.CommandEncoding

namespace Spugl

-- fifo_eah and fifo_eal as one address, fifo_ofs and fifo_len, and the bytes of the
-- local store from fifo_area on. What lies behind FIFO_SIZE is written by other code.
structure RawWindow where
  fifo_ea : Nat
  fifo_ofs : UInt32
  fifo_len : UInt32
  fifo_area : Nat → UInt8

-- The SPU loads a quadword and rotates it, so a word that is not aligned takes its
-- last bytes from the front of the quadword.
def loadWord (bytes : Nat → UInt8) (place : Nat) : Nat :=
  let byte (i : Nat) := (bytes (place / 16 * 16 + (place + i) % 16)).toNat
  byte 0 * 2^24 + byte 1 * 2^16 + byte 2 * 2^8 + byte 3

theorem loadWord_less (bytes : Nat → UInt8) (place : Nat) : loadWord bytes place < 2^32 := by
  have byte (i : Nat) := (bytes (place / 16 * 16 + (place + i) % 16)).toNat_lt
  have zero := byte 0
  have one := byte 1
  have two := byte 2
  have three := byte 3
  simp only [loadWord]
  omega

-- Only bytes of one block of 128 are looked at.
theorem loadWord_same {bytes bytes' : Nat → UInt8} {base place : Nat} (same : ∀ o : Nat, o / 128 = place / 128 → bytes (base + o) = bytes' o)
    (aligned : base % 128 = 0) : loadWord bytes (base + place) = loadWord bytes' place := by
  have byte (i : Nat) : bytes ((base + place) / 16 * 16 + (base + place + i) % 16) = bytes' (place / 16 * 16 + (place + i) % 16) := by
    rw [← same _ (by omega)]
    congr 1
    omega
  simp only [loadWord,byte]

namespace RawWindow

def upto (w : RawWindow) : UInt32 := w.fifo_ofs + w.fifo_len

def cmd (w : RawWindow) (rptr : UInt32) : Nat := loadWord w.fifo_area (rptr - w.fifo_ofs).toNat

-- rptr+4 + 4*size
def behind (rptr : UInt32) (cmd : Nat) : UInt32 := rptr + 4 + 4 * UInt32.ofNat (cmdSize cmd)

def holds (w : RawWindow) (rptr : UInt32) : Bool :=
  decide (w.fifo_ofs ≤ rptr) && decide (rptr + 4 ≤ w.upto) && decide (behind rptr (w.cmd rptr) ≤ w.upto)

-- rptr & ~127, and fifo_len as it is for that start.
def start (rptr : UInt32) : UInt32 := rptr / 128 * 128

def length (rptr wptr : UInt32) : UInt32 :=
  if wptr < rptr ∨ wptr - start rptr > 1024 then 1024 else wptr - start rptr

-- (fifo_len+127) & ~127
def loaded (len : UInt32) : Nat := (len.toNat + 127) / 128 * 128

def refill (w : RawWindow) (ea : Nat) (memory : Nat → UInt8) (rptr wptr : UInt32) : RawWindow where
  fifo_ea := ea
  fifo_ofs := start rptr
  fifo_len := length rptr wptr
  fifo_area := fun o => if o < loaded (length rptr wptr) then memory ((start rptr).toNat + o) else w.fifo_area o

-- retry_loop, for at most so many passes. write_ptr is not read again in it.
def retry_loop (ea : Nat) (memory : Nat → UInt8) (rptr wptr : UInt32) : Nat → RawWindow → Option RawWindow
  | 0,_ => none
  | passes+1,w => if w.holds rptr then some w else retry_loop ea memory rptr wptr passes (w.refill ea memory rptr wptr)

-- The body of the while loop, up to the command that it finds.
def search (ea : Nat) (memory : Nat → UInt8) (rptr wptr : UInt32) (passes : Nat) (w : RawWindow) : Option RawWindow :=
  retry_loop ea memory rptr wptr passes (if w.fifo_ea = ea then w else w.refill ea memory rptr wptr)

end RawWindow

open RawWindow

-- process_queue goes on: it returns, or it leaves retry_loop with a command.
def Proceeds (ea : Nat) (memory : Nat → UInt8) (rptr wptr : UInt32) (w : RawWindow) : Prop :=
  wptr = rptr ∨ ∃ passes, (search ea memory rptr wptr passes w).isSome

-- Where a refill ends.
def fetched (rptr wptr : UInt32) : Nat :=
  let start := rptr.toNat / 128 * 128
  if wptr.toNat < rptr.toNat ∨ start + FIFO_SIZE < wptr.toNat then start + FIFO_SIZE else wptr.toNat

-- The command ends where the refill does or before. The cases at the top of the
-- pointers' range are those of sums that wrap.
def Whole (rptr wptr : UInt32) (size : Nat) : Prop :=
  let limit := fetched rptr wptr
  if 2^32 ≤ rptr.toNat + 4 then limit < 2^32 ∨ rptr.toNat + 4 + 4*size ≤ limit
  else limit < 2^32 ∧ rptr.toNat + 4 ≤ limit ∧ (rptr.toNat + 4 + 4*size ≤ limit ∨ 2^32 ≤ rptr.toNat + 4 + 4*size)

section
variable {ea : Nat} {memory : Nat → UInt8} {rptr wptr : UInt32} {w : RawWindow}

theorem start_toNat (rptr : UInt32) : (start rptr).toNat = rptr.toNat / 128 * 128 := by
  have less := rptr.toNat_lt
  simp only [start,UInt32.toNat_mul,UInt32.toNat_div,UInt32.reduceToNat]
  omega

theorem length_toNat (apart : wptr ≠ rptr) :
    rptr.toNat / 128 * 128 + (length rptr wptr).toNat = fetched rptr wptr ∧ 0 < (length rptr wptr).toNat ∧
      (length rptr wptr).toNat ≤ 1024 := by
  have less := rptr.toNat_lt
  have less' := wptr.toNat_lt
  have distinct : wptr.toNat ≠ rptr.toNat := fun same => apart (UInt32.toNat_inj.mp same)
  unfold length fetched FIFO_SIZE
  simp only [UInt32.lt_iff_toNat_lt,gt_iff_lt,UInt32.toNat_sub,start_toNat,UInt32.reduceToNat]
  split <;> rename_i far
  · rw [if_pos (by omega)]
    simp
  · simp only [UInt32.toNat_sub,start_toNat]
    rw [if_neg (by omega)]
    omega

-- A refill fetches the whole quadword of the header.
theorem refill_cmd (apart : wptr ≠ rptr) : (w.refill ea memory rptr wptr).cmd rptr = loadWord memory rptr.toNat := by
  obtain ⟨_,positive,_⟩ := length_toNat apart
  have less := rptr.toNat_lt
  have offset : (rptr - start rptr).toNat = rptr.toNat % 128 := by
    rw [UInt32.toNat_sub,start_toNat]
    omega
  have whole : rptr.toNat = rptr.toNat / 128 * 128 + rptr.toNat % 128 := by omega
  simp only [cmd,refill,offset]
  conv_rhs => rw [whole]
  symm
  apply loadWord_same
  · intro o near
    rw [if_pos (by unfold loaded; omega),start_toNat]
  · omega

theorem behind_toNat (rptr : UInt32) {cmd : Nat} (word : cmd < 2^32) :
    (behind rptr cmd).toNat = (rptr.toNat + 4 + 4 * cmdSize cmd) % 2^32 := by
  have small : cmdSize cmd < 256 := by unfold cmdSize; omega
  have size : (UInt32.ofNat (cmdSize cmd)).toNat = cmdSize cmd := UInt32.toNat_ofNat_of_lt' (by unfold UInt32.size; omega)
  simp only [behind,UInt32.toNat_add,UInt32.toNat_mul,size,UInt32.reduceToNat]
  omega

variable (ea memory w) in
theorem refill_holds (apart : wptr ≠ rptr) :
    (w.refill ea memory rptr wptr).holds rptr = true ↔ Whole rptr wptr (cmdSize (loadWord memory rptr.toNat)) := by
  obtain ⟨ends,positive,short⟩ := length_toNat apart
  have less := rptr.toNat_lt
  have word := loadWord_less memory rptr.toNat
  have small : cmdSize (loadWord memory rptr.toNat) < 256 := by unfold cmdSize; omega
  have next : (rptr + 4).toNat = (rptr.toNat + 4) % 2^32 := by simp
  have upto : (w.refill ea memory rptr wptr).upto.toNat = fetched rptr wptr % 2^32 := by
    rw [← ends,← start_toNat]
    exact UInt32.toNat_add _ _
  simp only [holds,refill_cmd apart,Bool.and_eq_true,decide_eq_true_eq,UInt32.le_iff_toNat_le,next,upto,behind_toNat rptr word]
  have under : (w.refill ea memory rptr wptr).fifo_ofs.toNat ≤ rptr.toNat := by
    show (start rptr).toNat ≤ _
    rw [start_toNat]
    omega
  unfold Whole
  simp only
  generalize cmdSize (loadWord memory rptr.toNat) = size at small ⊢
  generalize fetched rptr wptr = limit at ends ⊢
  generalize rptr.toNat = place at less ends under ⊢
  split <;> omega

-- Another refill changes nothing.
theorem refill_again : (w.refill ea memory rptr wptr).refill ea memory rptr wptr = w.refill ea memory rptr wptr := by
  unfold refill
  simp only [RawWindow.mk.injEq,true_and]
  funext o
  split <;> rfl

theorem retry_loop_refilled (passes : Nat) (missing : (w.refill ea memory rptr wptr).holds rptr = false) :
    retry_loop ea memory rptr wptr passes (w.refill ea memory rptr wptr) = none := by
  induction passes with
  | zero => rfl
  | succ passes ih =>
    rw [retry_loop,missing,refill_again]
    exact ih

theorem retry_loop_left : (∃ passes, (retry_loop ea memory rptr wptr passes w).isSome) ↔
    w.holds rptr = true ∨ (w.refill ea memory rptr wptr).holds rptr = true := by
  constructor
  · rintro ⟨passes,left⟩
    cases passes with
    | zero => cases left
    | succ passes =>
      by_contra stuck
      obtain ⟨missing,missing'⟩ := not_or.mp stuck
      rw [retry_loop,if_neg missing,retry_loop_refilled passes (Bool.not_eq_true _ ▸ missing')] at left
      cases left
  · rintro (held | held)
    · refine ⟨1,?_⟩
      rw [retry_loop,if_pos held]
      rfl
    · by_cases already : w.holds rptr = true
      · refine ⟨1,?_⟩
        rw [retry_loop,if_pos already]
        rfl
      · refine ⟨2,?_⟩
        rw [retry_loop,if_neg already,retry_loop,if_pos held]
        rfl

-- The loop is left at once, after one refill, or never.
theorem process_queue_proceeds (ea : Nat) (memory : Nat → UInt8) (rptr wptr : UInt32) (w : RawWindow) :
    Proceeds ea memory rptr wptr w ↔
      wptr = rptr ∨ (w.fifo_ea = ea ∧ w.holds rptr = true) ∨ Whole rptr wptr (cmdSize (loadWord memory rptr.toNat)) := by
  by_cases drained : wptr = rptr
  · simp [Proceeds,drained]
  · unfold Proceeds search
    rw [retry_loop_left,← refill_holds ea memory w drained]
    apply or_congr_right
    by_cases cached : w.fifo_ea = ea
    · simp [cached]
    · simp [cached,refill_again]

end

-- The static variables of the program, and a header of one data word at 128.
def RawWindow.empty : RawWindow := ⟨0,0,0,fun _ => 0⟩

def nopWithData : Nat → UInt8 := fun o => if o = 128 then 1 else 0

-- write_ptr is behind the header and in front of its data.
theorem refills_forever : ¬∀ ea memory rptr wptr w, Proceeds ea memory rptr wptr w := by
  intro claim
  rcases claim 4096 nopWithData 128 132 .empty with drained | ⟨passes,left⟩
  · exact absurd drained (by decide)
  · have first : (RawWindow.empty.refill 4096 nopWithData 128 132).holds 128 = false := by decide +kernel
    have stuck : search 4096 nopWithData 128 132 passes .empty = none := retry_loop_refilled passes first
    rw [stuck] at left
    cases left

end Spugl
