import Spugl.FixedSizes
import Spugl.WindowRefill
import Spugl.Runs

namespace Spugl
open RawWindow

-- The entries of gen_command_table.inc.
def registered : List Nat := [2,3,4,6,7,8,9,10,15,16,17,18,19,20,21,22,23,24,25,26,27,28,29,0,1,5]

-- The words of cmd_buf that a handler reads. The one of JUMP is read by process_queue
-- when imp_jump has returned.
def handlerWords (command : Nat) : Nat :=
  match command with
  | FIFO_COMMAND_LOAD_MODELVIEW_MATRIX | FIFO_COMMAND_LOAD_PROJECTION_MATRIX | FIFO_COMMAND_LOAD_TEXTURE_MATRIX => 16
  | FIFO_COMMAND_LOAD_VERTEX_ATTRIB_4 => 5
  | FIFO_COMMAND_LOAD_VERTEX_ATTRIB_3 | FIFO_COMMAND_GL_VERTEX4 | FIFO_COMMAND_GL_COLOR4 | FIFO_COMMAND_GL_TEX_COORD4 |
    FIFO_COMMAND_CLEAR_SCREEN => 4
  | FIFO_COMMAND_POKE | FIFO_COMMAND_LOAD_VERTEX_ATTRIB_2 | FIFO_COMMAND_GL_VERTEX3 | FIFO_COMMAND_GL_COLOR3 |
    FIFO_COMMAND_GL_TEX_COORD3 | FIFO_COMMAND_SELECT_PIXEL_SHADER => 3
  | FIFO_COMMAND_LOAD_VERTEX_ATTRIB_1 | FIFO_COMMAND_GL_VERTEX2 | FIFO_COMMAND_GL_TEX_COORD2 |
    FIFO_COMMAND_OLD_GL_BIND_TEXTURE => 2
  | FIFO_COMMAND_JUMP | FIFO_COMMAND_DRAW_CONTEXT | FIFO_COMMAND_GL_BEGIN => 1
  | _ => 0

def keepWords (n : Nat) (data : Nat → Nat) : Nat → Nat := fun i => if i < n then data i else 0

theorem handle_keepWords (float : FloatWords F) (command : Nat) (data : Nat → Nat) :
    handle float command (keepWords (handlerWords command) data) = handle float command data := by
  unfold handle
  split <;> rfl

-- No other word makes a difference to a handler.
theorem handle_words (float : FloatWords F) (command : Nat) {data data' : Nat → Nat}
    (same : ∀ i, i < handlerWords command → data i = data' i) : handle float command data = handle float command data' := by
  have kept : keepWords (handlerWords command) data = keepWords (handlerWords command) data' := by
    funext i
    unfold keepWords
    split
    · rename_i inside
      exact same i inside
    · rfl
  rw [← handle_keepWords,kept,handle_keepWords]

-- A call of process_queue, with the address of its queue and its two locals.
structure QueueCall where
  ea : Nat
  rptr : UInt32
  wptr : UInt32

structure Decoder where
  window : RawWindow
  call : Option QueueCall

-- Clients may store anything at any time: each call reads any two pointers, each DMA
-- any bytes, and the reload after a command any write_ptr. `overwrite` is all that
-- other code stores behind fifo_area.
inductive DecoderAction where
  | process_queue (ea : Nat) (rptr wptr : UInt32)
  | turn (memory : Nat → UInt8) (stall : Bool) (write_ptr : UInt32)
  | overwrite (bytes : Nat → UInt8)

namespace Decoder

def start (bytes : Nat → UInt8) : Decoder := ⟨⟨0,0,0,bytes⟩,none⟩

def command (s : Decoder) (rptr : UInt32) : Nat := cmdNumber (s.window.cmd rptr)

def size (s : Decoder) (rptr : UInt32) : Nat := cmdSize (s.window.cmd rptr)

section
variable (stray : Nat → Bool)

def dispatch (s : Decoder) (q : QueueCall) (stall : Bool) (write_ptr : UInt32) : Decoder :=
  let done := {s with call := some {q with rptr := behind q.rptr (s.window.cmd q.rptr),wptr := write_ptr}}
  if fifo_commands stray (s.command q.rptr) then
    if s.command q.rptr = FIFO_COMMAND_JUMP then ⟨{s.window with fifo_ea := 0},none⟩
    else if stall then {s with call := none}
    else done
  else done

-- Whether the while loop is at a command that it has cached.
def found (s : Decoder) (q : QueueCall) : Bool :=
  decide (q.wptr ≠ q.rptr) && decide (s.window.fifo_ea = q.ea) && s.window.holds q.rptr

def act (s : Decoder) : DecoderAction → Decoder
  | .process_queue ea rptr wptr => match s.call with
    | none => {s with call := some ⟨ea,rptr,wptr⟩}
    | some _ => s
  | .turn memory stall write_ptr => match s.call with
    | none => s
    | some q =>
      if q.wptr = q.rptr then {s with call := none}
      else if s.found q then s.dispatch stray q stall write_ptr
      else {s with window := s.window.refill q.ea memory q.rptr q.wptr}
  | .overwrite bytes =>
    {s with window := {s.window with fifo_area := fun o => if o < FIFO_SIZE then s.window.fifo_area o else bytes o}}

def Reached (s : Decoder) : Prop :=
  Runs.Reached (fun s => ∃ bytes, s = start bytes) (Runs.Step (act stray) (fun _ _ => True)) s

end

-- The command at rptr lies in what the last refill loaded, its function is in the
-- table, and the function keeps to the words that the header declares.
structure Safe (s : Decoder) (rptr : UInt32) : Prop where
  inside : s.window.fifo_ofs.toNat ≤ rptr.toNat ∧
    rptr.toNat + 4 + 4 * s.size rptr ≤ s.window.fifo_ofs.toNat + loaded s.window.fifo_len
  known : s.command rptr ∈ registered
  within : ∀ i, i < handlerWords (s.command rptr) → i < s.size rptr

-- The end of the command does not wrap, unless that of the window does too.
def Unwrapped (w : RawWindow) (rptr : UInt32) (size : Nat) : Prop :=
  let limit := rptr.toNat + 4 + 4*size
  limit < 2^32 ∨ 2^32 ≤ w.fifo_ofs.toNat + w.fifo_len.toNat ∨ limit = 2^32 ∧ w.fifo_ofs.toNat + loaded w.fifo_len = 2^32

structure WindowBounds (w : RawWindow) : Prop where
  aligned : w.fifo_ofs.toNat % 128 = 0
  short : w.fifo_len.toNat ≤ FIFO_SIZE

section
variable {s : Decoder} {stray : Nat → Bool} {rptr : UInt32}

theorem refill_bounds {q : QueueCall} (apart : q.wptr ≠ q.rptr) (memory : Nat → UInt8) :
    WindowBounds (s.window.refill q.ea memory q.rptr q.wptr) where
  aligned := by
    show (RawWindow.start q.rptr).toNat % 128 = 0
    rw [start_toNat]
    omega
  short := (length_toNat apart).2.2

variable (s stray) in
theorem dispatch_window (q : QueueCall) (stall : Bool) (write_ptr : UInt32) :
    (s.dispatch stray q stall write_ptr).window.fifo_ofs = s.window.fifo_ofs ∧
      (s.dispatch stray q stall write_ptr).window.fifo_len = s.window.fifo_len := by
  simp only [dispatch]
  split_ifs <;> exact ⟨rfl,rfl⟩

theorem act_bounds (bounds : WindowBounds s.window) (a : DecoderAction) : WindowBounds (s.act stray a).window := by
  cases a with
  | process_queue ea rptr wptr =>
    simp only [act]
    split <;> exact bounds
  | turn memory stall write_ptr =>
    simp only [act]
    split
    · exact bounds
    · rename_i q _
      split
      · exact bounds
      · rename_i apart
        split
        · obtain ⟨ofs,len⟩ := dispatch_window s stray q stall write_ptr
          exact ⟨by rw [ofs]; exact bounds.aligned,by rw [len]; exact bounds.short⟩
        · exact refill_bounds apart memory
  | overwrite bytes => exact ⟨bounds.aligned,bounds.short⟩

theorem reached_bounds (path : s.Reached stray) : WindowBounds s.window := by
  refine Runs.Reached.invariant (fun s => WindowBounds s.window) ?_ ?_ path
  · rintro _ ⟨bytes,rfl⟩
    exact ⟨rfl,Nat.zero_le _⟩
  · rintro _ _ bounds ⟨a,_,rfl⟩
    exact act_bounds bounds a

theorem inside_exact (bounds : WindowBounds s.window) (held : s.window.holds rptr = true) :
    (s.window.fifo_ofs.toNat ≤ rptr.toNat ∧
      rptr.toNat + 4 + 4 * s.size rptr ≤ s.window.fifo_ofs.toNat + loaded s.window.fifo_len) ↔
      Unwrapped s.window rptr (s.size rptr) := by
  obtain ⟨aligned,short⟩ := bounds
  have word := loadWord_less s.window.fifo_area (rptr - s.window.fifo_ofs).toNat
  have small : s.size rptr < 256 := by
    unfold Decoder.size cmdSize RawWindow.cmd
    omega
  have less := rptr.toNat_lt
  have less' := s.window.fifo_ofs.toNat_lt
  have next : (rptr + 4).toNat = (rptr.toNat + 4) % 2^32 := by simp
  have upto : s.window.upto.toNat = (s.window.fifo_ofs.toNat + s.window.fifo_len.toNat) % 2^32 := UInt32.toNat_add _ _
  have last : (behind rptr (s.window.cmd rptr)).toNat = (rptr.toNat + 4 + 4 * s.size rptr) % 2^32 := behind_toNat rptr word
  simp only [holds,Bool.and_eq_true,decide_eq_true_eq,UInt32.le_iff_toNat_le,next,upto,last] at held
  unfold Unwrapped loaded
  unfold FIFO_SIZE at short
  simp only
  generalize s.size rptr = size at small held ⊢
  generalize rptr.toNat = place at less held ⊢
  generalize s.window.fifo_ofs.toNat = ofs at aligned less' held ⊢
  generalize s.window.fifo_len.toNat = len at short held ⊢
  omega

theorem known_exact {command : Nat} (dispatched : fifo_commands stray command = true) : command ∈ registered ↔ command < 30 := by
  have listed : ∀ command, command < 30 → fifo_commands stray command = true → command ∈ registered := by
    intro command less
    unfold fifo_commands
    rw [if_pos less]
    revert command
    decide
  have small : ∀ command ∈ registered, command < 30 := by decide
  exact ⟨small command,fun less => listed command less dispatched⟩

theorem within_exact (words size : Nat) : (∀ i, i < words → i < size) ↔ words ≤ size := by
  constructor
  · intro all
    by_contra more
    exact Nat.lt_irrefl _ (all size (by omega))
  · intro upto i less
    exact Nat.lt_of_lt_of_le less upto

-- At every dispatch, whatever the clients have stored.
theorem decoding_safe (path : s.Reached stray) (_ : s.call = some q) (found : s.found q = true)
    (dispatched : fifo_commands stray (s.command q.rptr) = true) :
    s.Safe q.rptr ↔ Unwrapped s.window q.rptr (s.size q.rptr) ∧ s.command q.rptr < 30 ∧
      handlerWords (s.command q.rptr) ≤ s.size q.rptr := by
  have held : s.window.holds q.rptr = true := (Bool.and_eq_true_iff.mp found).2
  have inside := inside_exact (reached_bounds path) held
  constructor
  · rintro ⟨loaded,known,within⟩
    exact ⟨inside.mp loaded,(known_exact dispatched).mp known,(within_exact _ _).mp within⟩
  · rintro ⟨unwrapped,small,words⟩
    exact ⟨inside.mpr unwrapped,(known_exact dispatched).mpr small,(within_exact _ _).mpr words⟩

end

-- A first call for a queue with one command of these bytes at 128, as it is when its
-- window is there.
def fed (wptr : UInt32) (memory : Nat → UInt8) : Decoder :=
  [.process_queue 4096 128 wptr,.turn memory false 0].foldl (act fun _ => false) (start fun _ => 0)

theorem fed_reached (wptr : UInt32) (memory : Nat → UInt8) : (fed wptr memory).Reached fun _ => false :=
  Runs.Reached.follow (.start ⟨_,rfl⟩) ⟨trivial,trivial,trivial⟩

-- GL_VERTEX3 with its three words.
def oneVertex : Nat → UInt8 := fun o => if o = 128 then 3 else if o = 131 then 18 else if o < 132 then 0 else 63

theorem decoding_safe_vertex : (fed 144 oneVertex).Safe 128 ∧ (fed 144 oneVertex).command 128 = FIFO_COMMAND_GL_VERTEX3 ∧
    handlerWords FIFO_COMMAND_GL_VERTEX3 = 3 :=
  ⟨(decoding_safe (fed_reached 144 _) rfl (by decide +kernel) (by decide +kernel)).mpr
    ⟨.inl (by decide +kernel),by decide +kernel,by decide +kernel⟩,by decide +kernel,rfl⟩

-- DRAW_CONTEXT without a word.
def drawNothing : Nat → UInt8 := fun o => if o = 131 then 6 else 0

theorem decoding_unsafe : ¬∀ (stray : Nat → Bool) (s : Decoder) (q : QueueCall), s.Reached stray → s.call = some q →
    s.found q = true → fifo_commands stray (s.command q.rptr) = true → s.Safe q.rptr := by
  intro claim
  have safe := claim (fun _ => false) (fed 132 drawNothing) ⟨4096,128,132⟩ (fed_reached 132 _) rfl (by decide +kernel) (by decide +kernel)
  exact absurd (safe.within 0 (by decide +kernel)) (by decide +kernel)

end Decoder
end Spugl
