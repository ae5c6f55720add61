import Spugl.FixedSizes
import Spugl.CommandFraming
import Spugl.Runs

namespace Spugl
open CommandFraming

abbrev FIFO_SIZE : Nat := 1024
@[match_pattern] abbrev FIFO_COMMAND_NOP : Nat := 0
@[match_pattern] abbrev FIFO_COMMAND_JUMP : Nat := 1

-- int size = cmd>>24; unsigned int command = cmd & ((1<<24)-1);
def cmdSize (cmd : Nat) : Nat := cmd / 2^24
def cmdNumber (cmd : Nat) : Nat := cmd % 2^24

-- BEGIN_RING
def beginRing (c s : Nat) : Nat := c ||| s <<< 24

theorem beginRing_sum (less : c < 2^24) : beginRing c s = s * 2^24 + c := by
  unfold beginRing
  rw [Nat.or_comm,← Nat.shiftLeft_add_eq_or_of_lt less,Nat.shiftLeft_eq]

theorem cmdSize_beginRing (less : c < 2^24) (s : Nat) : cmdSize (beginRing c s) = s := by
  rw [beginRing_sum less,cmdSize]
  omega

theorem cmdNumber_beginRing (less : c < 2^24) (s : Nat) : cmdNumber (beginRing c s) = c := by
  rw [beginRing_sum less,cmdNumber]
  omega

-- Entries 11 to 14 of the 30 are empty. The bound is sizeof(fifo_commands), in
-- bytes, so numbers up to 119 are looked up in what lies behind the table.
def fifo_commands (behind : Nat → Bool) (command : Nat) : Bool :=
  if command < 30 then !(decide (11 ≤ command) && decide (command ≤ 14))
  else decide (command < 120) && behind command

-- A word, and as history the allocation it was written into by its client.
structure Cell where
  word : Nat
  writer : Option Nat
  deriving DecidableEq

-- The memory is indexed by the byte offset of a word, as the pointers are. `client`
-- is __fifo_ptr and the words written since FIFO_PROLOGUE; `aiming` says that
-- spuglJump has returned and spuglSetTarget has not stored yet.
-- The rest is history: the words of `lap` start at `base`, `before` holds the
-- commands of earlier laps, `jump` the place of a JUMP that read_ptr has not taken,
-- `stored` the client's last store to write_ptr.
structure CommandQueue where
  ea : Nat
  live : Bool
  write_ptr : Nat
  read_ptr : Nat
  memory : Nat → Cell
  client : Option (Nat × List Nat)
  aiming : Bool
  generation : Nat
  base : Nat
  lap : List (List Nat)
  before : List (List Nat)
  completed : List (List Nat)
  jump : Option Nat
  stored : Nat

namespace CommandQueue

-- buf_start of allocateBuffer; the file behind the mapping reads as zero.
def allocate (ea generation : Nat) (live : Bool) : CommandQueue where
  ea := ea
  live := live
  write_ptr := 128
  read_ptr := 128
  memory := fun _ => ⟨0,none⟩
  client := none
  aiming := false
  generation := generation
  base := 128
  lap := []
  before := []
  completed := []
  jump := none
  stored := 128

def prologue (c : CommandQueue) : CommandQueue := {c with client := some (c.write_ptr,[])}

def outRing (c : CommandQueue) (word : Nat) : CommandQueue :=
  match c.client with
  | some (ptr,words) => {c with
      memory := Function.update c.memory ptr ⟨word,some c.generation⟩
      client := some (ptr+4,words ++ [word])}
  | none => c

def epilogue (c : CommandQueue) (commands : List (List Nat)) : CommandQueue :=
  match c.client with
  | some (ptr,_) => {c with write_ptr := ptr,client := none,lap := c.lap ++ commands,stored := ptr}
  | none => c

-- FIFO_EPILOGUE of spuglJump.
def spuglJump (c : CommandQueue) (target : Nat) : CommandQueue :=
  match c.client with
  | some (ptr,_) => {c with
      write_ptr := ptr
      client := none
      aiming := true
      base := target
      lap := []
      before := c.before ++ c.lap
      jump := some c.write_ptr
      stored := ptr}
  | none => c

def spuglSetTarget (c : CommandQueue) (wp : Nat) : CommandQueue :=
  {c with write_ptr := wp,aiming := false,stored := wp}

def words (c : CommandQueue) (place n : Nat) : List Cell := (List.range n).map fun i => c.memory (place + 4*i)

-- All that was appended, over every lap.
def issued (c : CommandQueue) : List (List Nat) := c.before ++ c.lap

end CommandQueue

-- fifo_ea is 0 when nothing is cached. `owner` is history: the allocation whose
-- words were fetched.
structure FifoWindow where
  fifo_ea : Nat
  fifo_ofs : Nat
  fifo_len : Nat
  fifo_area : Nat → Cell
  owner : Nat

namespace FifoWindow

def upto (w : FifoWindow) : Nat := w.fifo_ofs + w.fifo_len

-- fifo_area from rptr on.
def cmd_buf (w : FifoWindow) (rptr i : Nat) : Cell := w.fifo_area (rptr - w.fifo_ofs + 4*i)

def cmd (w : FifoWindow) (rptr : Nat) : Nat := (w.cmd_buf rptr 0).word

-- The command at rptr, as long as its header says.
def words (w : FifoWindow) (rptr : Nat) : List Cell := (List.range (cmdSize (w.cmd rptr) + 1)).map (w.cmd_buf rptr)

def holds (w : FifoWindow) (rptr : Nat) : Bool :=
  decide (w.fifo_ofs ≤ rptr) && decide (rptr+4 ≤ w.upto) && decide (rptr+4 + 4*cmdSize (w.cmd rptr) ≤ w.upto)

-- The DMA is one step: what is used of it is below write_ptr, or is a JUMP that the
-- client leaves alone, so it would be the same words at any time of the transfer.
def refill (w : FifoWindow) (c : CommandQueue) (rptr wptr : Nat) : FifoWindow :=
  let ofs := rptr / 128 * 128
  let len := if wptr < rptr ∨ wptr - ofs > FIFO_SIZE then FIFO_SIZE else wptr - ofs
  { fifo_ea := c.ea
    fifo_ofs := ofs
    fifo_len := len
    fifo_area := fun o => if o < (len + 127) / 128 * 128 then c.memory (ofs + o) else w.fifo_area o
    owner := c.generation }

end FifoWindow

-- Where process_queue is: in its while loop, at retry_update or at retry_jump.
inductive Stage where
  | looping (rptr wptr : Nat)
  | recording (rptr : Nat)
  | jumping (rptr : Nat)
  deriving DecidableEq

-- History of one handler call: the words it got, and the queue's own words there.
structure HandlerCall where
  generation : Nat
  words : List Cell
  memory : List Cell

-- `line` is write_ptr in the copy that GETLLAR left in buf_ptr.
structure Fifo (ι : Type) where
  queue : ι → CommandQueue
  window : FifoWindow
  current : Option (ι × Stage)
  line : Nat
  reserved : Bool
  allocations : Nat
  given : List HandlerCall

-- `commands` is how the words since FIFO_PROLOGUE divide, for the history. `stall`
-- is a handler's non-zero result. A failed PUTLLC is followed by GETLLAR.
inductive FifoAction (ι : Type) where
  | allocateBuffer (q : ι) (ea : Nat)
  | freeBuffer (q : ι)
  | prologue (q : ι)
  | outRing (q : ι) (word : Nat)
  | epilogue (q : ι) (commands : List (List Nat))
  | spuglJump (q : ι) (target : Nat)
  | spuglSetTarget (q : ι) (wp : Nat)
  | process_queue (q : ι)
  | turn (stall : Bool)
  | putllc (ok : Bool)

namespace Fifo

section
variable {ι : Type} [DecidableEq ι]

def start (ea : ι → Nat) (live : ι → Bool) : Fifo ι where
  queue := fun q => .allocate (ea q) 0 (live q)
  window := ⟨0,0,0,fun _ => ⟨0,none⟩,0⟩
  current := none
  line := 0
  reserved := false
  allocations := 1
  given := []

def stage (s : Fifo ι) (q : ι) : Option Stage :=
  match s.current with
  | some (q',st) => if q' = q then some st else none
  | none => none

def set (s : Fifo ι) (q : ι) (c : CommandQueue) : Fifo ι := {s with queue := Function.update s.queue q c}

-- A store to the line of the queue takes the reservation away.
def touch (s : Fifo ι) (q : ι) : Fifo ι := {s with reserved := s.reserved && (s.stage q).isNone}

def called (s : Fifo ι) (q : ι) (rptr : Nat) : Fifo ι :=
  let words := s.window.words rptr
  {s with given := s.given ++ [⟨(s.queue q).generation,words,(s.queue q).words rptr words.length⟩]}

-- The command is completed, and retry_update comes next.
def complete (s : Fifo ι) (q : ι) (rptr : Nat) : Fifo ι :=
  { s.set q {s.queue q with completed := (s.queue q).completed ++ [(s.window.words rptr).map Cell.word]} with
    current := some (q,.recording (rptr + 4 + 4*cmdSize (s.window.cmd rptr))) }

-- A JUMP drops the window, and retry_jump comes next.
def takeJump (s : Fifo ι) (q : ι) (target : Nat) : Fifo ι :=
  {s with current := some (q,.jumping target),window := {s.window with fifo_ea := 0}}

-- The handler, if there is one, and what follows its return.
def dispatch (behind : Nat → Bool) (s : Fifo ι) (q : ι) (rptr : Nat) (stall : Bool) : Fifo ι :=
  let command := cmdNumber (s.window.cmd rptr)
  if fifo_commands behind command then
    if command = FIFO_COMMAND_JUMP then (s.called q rptr).takeJump q (s.window.cmd_buf rptr 1).word
    else if stall then {s.called q rptr with current := none}
    else (s.called q rptr).complete q rptr
  else s.complete q rptr

-- One pass of the while loop.
def turn (behind : Nat → Bool) (s : Fifo ι) (q : ι) (rptr wptr : Nat) (stall : Bool) : Fifo ι :=
  if wptr = rptr then {s with current := none}
  else if s.window.fifo_ea = (s.queue q).ea && s.window.holds rptr then dispatch behind s q rptr stall
  else {s with window := s.window.refill (s.queue q) rptr wptr}

def reload (s : Fifo ι) (q : ι) : Fifo ι := {s with line := (s.queue q).write_ptr,reserved := true}

def act (behind : Nat → Bool) (s : Fifo ι) : FifoAction ι → Fifo ι
  | .allocateBuffer q ea => {s.set q (.allocate ea s.allocations true) with allocations := s.allocations + 1}
  | .freeBuffer q => s.set q {s.queue q with live := false}
  | .prologue q => s.set q (s.queue q).prologue
  | .outRing q word => s.set q ((s.queue q).outRing word)
  | .epilogue q commands => (s.touch q).set q ((s.queue q).epilogue commands)
  | .spuglJump q target => (s.touch q).set q ((s.queue q).spuglJump target)
  | .spuglSetTarget q wp => (s.touch q).set q ((s.queue q).spuglSetTarget wp)
  | .process_queue q => {s.reload q with current := some (q,.looping (s.queue q).read_ptr (s.queue q).write_ptr)}
  | .turn stall => match s.current with
    | some (q,.looping rptr wptr) => turn behind s q rptr wptr stall
    | _ => s
  | .putllc ok => match s.current with
    | some (q,.recording rptr) => if ok then
        {s.set q {s.queue q with read_ptr := rptr,write_ptr := s.line} with
          current := some (q,.looping rptr s.line)
          reserved := false}
      else s.reload q
    | some (q,.jumping rptr) => if ok then
        {s.set q {s.queue q with read_ptr := rptr,write_ptr := s.line,jump := none} with
          current := none
          reserved := false}
      else s.reload q
    | _ => s

-- What a client may append: whole commands of at most 16 words, other than JUMP.
def Appendable (c : List Nat) : Prop :=
  Whole cmdSize c ∧ c.length ≤ 17 ∧ ∀ cmd ∈ c.head?, cmdNumber cmd ≠ FIFO_COMMAND_JUMP

def jumpWords (target : Nat) : List Nat := [beginRing FIFO_COMMAND_JUMP 1,target]

-- The clients write one queue each through the FIFO macros, and call spuglJump only
-- when the server has caught up. A queue is not freed while process_queue has its
-- lock, and mmap gives no address that is in use. PUTLLC needs the reservation.
def disciplined (s : Fifo ι) : FifoAction ι → Prop
  | .allocateBuffer q ea => (s.queue q).live = false ∧ ea ≠ 0 ∧ ∀ q', (s.queue q').live = true → (s.queue q').ea ≠ ea
  | .freeBuffer q => (s.queue q).live = true ∧ s.stage q = none
  | .prologue q => (s.queue q).live = true ∧ (s.queue q).client = none ∧ (s.queue q).aiming = false
  | .outRing q _ => (s.queue q).live = true ∧ (s.queue q).client ≠ none
  | .epilogue q commands => (s.queue q).live = true ∧
    (s.queue q).client.map Prod.snd = some commands.flatten ∧ ∀ c ∈ commands, Appendable c
  | .spuglJump q target => (s.queue q).live = true ∧ (s.queue q).client.map Prod.snd = some (jumpWords target) ∧
    (s.queue q).read_ptr = (s.queue q).write_ptr ∧ 128 ≤ target ∧ target % 4 = 0 ∧ target < (s.queue q).write_ptr
  | .spuglSetTarget q wp => (s.queue q).live = true ∧ (s.queue q).aiming = true ∧ wp = (s.queue q).base
  | .process_queue q => (s.queue q).live = true ∧ s.current = none
  | .turn _ => True
  | .putllc ok => ok = true → s.reserved = true

end

end Fifo
end Spugl
