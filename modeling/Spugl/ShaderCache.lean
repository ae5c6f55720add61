import Spugl.FixedSizes

namespace Spugl

abbrev SHADER_BUFFER_SIZE : Nat := 65536

-- sizeof(PixelShaderHeader)
abbrev PIXEL_SHADER_HEADER_SIZE : Nat := 32

abbrev PixelShaderHeaderMagic : Nat := 0x737075676c2d7073

-- What imp_SelectPixelShader leaves in the context, or imp_clear_screen in the record.
structure Selected where
  shader_ea : Nat
  length : Nat

-- The field of the record is an unsigned short.
def Selected.shader_length (t : Selected) : Nat := t.length % 2^16

-- shader_length of load_shader, in whole quadwords of eight.
def rounded (length : Nat) : Nat := (length + 127) / 128 * 128

-- `shader_scratch` counts from shader_buffer, and is none while it is still NULL.
-- shader_ea_current has 32 bits. `fetched` is history: all bits of it.
structure ShaderCache where
  shader_buffer : Nat → Nat
  shader_scratch : Option Nat
  shader_ea_current : Nat
  fetched : Nat

-- The function load_shader returns; a shader's by its offset in shader_buffer.
inductive RenderFunc where
  | shader (offset : Nat)
  | clear
  | null

namespace ShaderCache

def start (shader_buffer : Nat → Nat) : ShaderCache := ⟨shader_buffer,none,0,0⟩

-- A big-endian field of the header.
def field (c : ShaderCache) (offset bytes : Nat) : Nat :=
  (List.range bytes).foldl (fun value i => value * 256 + c.shader_buffer (offset+i)) 0

def magic (c : ShaderCache) : Bool := decide (c.field 0 8 = PixelShaderHeaderMagic)

-- Up to the DMA that fetches the shader.
def fetch (memory : Nat → Nat) (c : ShaderCache) (t : Selected) : ShaderCache :=
  if t.shader_ea = c.shader_ea_current then c else
  { shader_buffer := if t.shader_ea = 0 then c.shader_buffer else
      fun i => if i < rounded t.shader_length then memory (t.shader_ea + i) else c.shader_buffer i
    shader_scratch := some (rounded t.shader_length)
    shader_ea_current := t.shader_ea % 2^32
    fetched := t.shader_ea }

def renderFunc (c : ShaderCache) (t : Selected) : RenderFunc :=
  if t.shader_ea ≠ 0 ∧ c.magic = true then .shader (c.field 20 4)
  else if rounded t.shader_length = 0 then .null
  else .clear

-- The init and render functions write where they are told, at the scratch pointer
-- and behind it. One that has variables of its own, as textureInitFunc has need_to_do,
-- writes to its image besides; that is left out.
def scribble (c : ShaderCache) (bytes : Nat → Nat) : ShaderCache :=
  {c with shader_buffer := fun i => match c.shader_scratch with
    | some scratch => if i < scratch then c.shader_buffer i else bytes i
    | none => bytes i}

end ShaderCache

-- load_shader, and what the functions it calls and returns write.
structure LoadCall where
  triangle : Selected
  bytes : Nat → Nat

def load_shader (memory : Nat → Nat) (c : ShaderCache) (call : LoadCall) : ShaderCache :=
  (c.fetch memory call.triangle).scribble call.bytes

-- The bytes of the shader that is about to run: none where a function of the SPU's
-- own program runs.
def Running (c : ShaderCache) (t : Selected) (i : Nat) : Prop :=
  (∃ offset, c.renderFunc t = .shader offset) ∧ i < max t.length PIXEL_SHADER_HEADER_SIZE

-- What a call is for.
structure LoadedRight (memory : Nat → Nat) (c : ShaderCache) (call : LoadCall) : Prop where
  code : call.triangle.shader_ea ≠ 0 → ∀ i, i < call.triangle.length →
    (load_shader memory c call).shader_buffer i = memory (call.triangle.shader_ea + i)
  scratch : ∃ scratch, (c.fetch memory call.triangle).shader_scratch = some scratch ∧ scratch < SHADER_BUFFER_SIZE ∧
    ∀ i, Running (c.fetch memory call.triangle) call.triangle i → i < scratch

-- The cache's answer may be trusted: the scratch pointer is set, the shader that was
-- fetched from this address is all of the one asked for, and no shader of length 0
-- takes over the header of another.
structure Trusted (c : ShaderCache) (t : Selected) : Prop where
  placed : t.shader_ea = c.shader_ea_current → c.shader_scratch ≠ none
  same : t.shader_ea = c.shader_ea_current → t.shader_ea ≠ 0 → c.fetched = t.shader_ea ∧
    ∃ scratch, c.shader_scratch = some scratch ∧ t.length ≤ scratch ∧ (scratch = 0 → c.magic = false)
  empty : t.shader_ea ≠ c.shader_ea_current → t.shader_ea ≠ 0 → t.length = 0 → c.magic = false

-- A property of every call of a run.
def EachCall (memory : Nat → Nat) (P : ShaderCache → LoadCall → Prop) : ShaderCache → List LoadCall → Prop
  | _,[] => True
  | c,call :: rest => P c call ∧ EachCall memory P (load_shader memory c call) rest

structure CacheInvariant (memory : Nat → Nat) (c : ShaderCache) : Prop where
  bounded : ∀ scratch, c.shader_scratch = some scratch → scratch ≤ 16384 ∧ (scratch = 0 ∨ 128 ≤ scratch)
  placed : c.shader_scratch = none → c.shader_ea_current = 0
  code : c.shader_ea_current ≠ 0 → ∀ scratch, c.shader_scratch = some scratch → ∀ i, i < scratch →
    c.shader_buffer i = memory (c.fetched + i)

section
variable {memory : Nat → Nat} {c : ShaderCache} {t : Selected} {call : LoadCall}

theorem rounded_bounds (small : length ≤ 16384) : length ≤ rounded length ∧ rounded length ≤ 16384 ∧
    (rounded length = 0 ∨ 128 ≤ rounded length) ∧ (rounded length = 0 ↔ length = 0) := by
  unfold rounded
  omega

theorem short_length (small : t.length ≤ 16384) : t.shader_length = t.length := Nat.mod_eq_of_lt (by omega)

theorem fetch_hit (hit : t.shader_ea = c.shader_ea_current) : c.fetch memory t = c := if_pos hit

theorem fetch_scratch (missed : t.shader_ea ≠ c.shader_ea_current) (small : t.length ≤ 16384) :
    (c.fetch memory t).shader_scratch = some (rounded t.length) := by
  unfold ShaderCache.fetch
  rw [if_neg missed,short_length small]

theorem fetch_code (missed : t.shader_ea ≠ c.shader_ea_current) (small : t.length ≤ 16384) (selected : t.shader_ea ≠ 0)
    (inside : i < rounded t.length) : (c.fetch memory t).shader_buffer i = memory (t.shader_ea + i) := by
  unfold ShaderCache.fetch
  rw [if_neg missed,short_length small]
  simp only [if_neg selected,if_pos inside]

theorem scribble_below (placed : c.shader_scratch = some scratch) (below : i < scratch) (bytes : Nat → Nat) :
    (c.scribble bytes).shader_buffer i = c.shader_buffer i := by
  simp [ShaderCache.scribble,placed,below]

-- Nothing but the code decides what is about to run.
theorem running_none (absent : c.magic = false) : ¬Running c t i := by
  rintro ⟨⟨offset,is⟩,_⟩
  unfold ShaderCache.renderFunc at is
  rw [absent] at is
  simp only [and_false,if_false,Bool.false_eq_true] at is
  split at is <;> cases is

theorem running_clear (clear : t.shader_ea = 0) : ¬Running c t i := by
  rintro ⟨⟨offset,is⟩,_⟩
  simp only [ShaderCache.renderFunc,clear,ne_eq,not_true_eq_false,false_and,if_false] at is
  split at is <;> cases is

theorem CacheInvariant.start (shader_buffer : Nat → Nat) : CacheInvariant memory (.start shader_buffer) :=
  ⟨fun _ unset => (nomatch unset),fun _ => rfl,fun set => absurd rfl set⟩

theorem CacheInvariant.loaded (valid : CacheInvariant memory c) (small : call.triangle.length ≤ 16384)
    (trusted : Trusted c call.triangle) : LoadedRight memory c call := by
  obtain ⟨upto,most,steps,empty⟩ := rounded_bounds small
  by_cases hit : call.triangle.shader_ea = c.shader_ea_current
  · obtain ⟨scratch,placed⟩ := Option.ne_none_iff_exists'.mp (trusted.placed hit)
    obtain ⟨bounded,step⟩ := valid.bounded scratch placed
    have same : c.fetch memory call.triangle = c := fetch_hit hit
    refine ⟨?_,scratch,by rw [same]; exact placed,Nat.lt_of_le_of_lt bounded (by decide),?_⟩
    · intro selected i inside
      obtain ⟨fetched,scratch',placed',long,_⟩ := trusted.same hit selected
      obtain rfl : scratch = scratch' := Option.some.inj (placed.symm.trans placed')
      have below : i < scratch := Nat.lt_of_lt_of_le inside long
      unfold load_shader
      rw [same,scribble_below placed below,← fetched]
      exact valid.code (hit ▸ selected) scratch placed i below
    · intro i running
      rw [same] at running
      by_cases clear : call.triangle.shader_ea = 0
      · exact absurd running (running_clear clear)
      · obtain ⟨_,scratch',placed',long,absent⟩ := trusted.same hit clear
        obtain rfl : scratch = scratch' := Option.some.inj (placed.symm.trans placed')
        rcases step with zero | room
        · exact absurd running (running_none (absent zero))
        · have inside := running.2
          unfold PIXEL_SHADER_HEADER_SIZE at inside
          omega
  · have placed : (c.fetch memory call.triangle).shader_scratch = some (rounded call.triangle.length) := fetch_scratch hit small
    refine ⟨?_,_,placed,Nat.lt_of_le_of_lt most (by decide),?_⟩
    · intro selected i inside
      have below : i < rounded call.triangle.length := Nat.lt_of_lt_of_le inside upto
      unfold load_shader
      rw [scribble_below placed below]
      exact fetch_code hit small selected below
    · intro i running
      by_cases clear : call.triangle.shader_ea = 0
      · exact absurd running (running_clear clear)
      · rcases steps with zero | room
        · have none := empty.mp zero
          have unchanged : (c.fetch memory call.triangle).magic = c.magic := by
            unfold ShaderCache.fetch
            rw [if_neg hit,short_length small,zero]
            simp only [if_neg clear,Nat.not_lt_zero,if_false]
            rfl
          exact absurd running (running_none (unchanged.trans (trusted.empty hit clear none)))
        · have inside := running.2
          unfold PIXEL_SHADER_HEADER_SIZE at inside
          omega

theorem CacheInvariant.after (valid : CacheInvariant memory c) (small : call.triangle.length ≤ 16384) :
    CacheInvariant memory (load_shader memory c call) := by
  obtain ⟨upto,most,steps,_⟩ := rounded_bounds small
  unfold load_shader
  by_cases hit : call.triangle.shader_ea = c.shader_ea_current
  · rw [fetch_hit hit]
    refine ⟨valid.bounded,valid.placed,?_⟩
    intro set scratch placed i below
    have before : c.shader_scratch = some scratch := placed
    rw [scribble_below before below]
    exact valid.code set scratch before i below
  · have placed : (c.fetch memory call.triangle).shader_scratch = some (rounded call.triangle.length) := fetch_scratch hit small
    have current : (c.fetch memory call.triangle).shader_ea_current = call.triangle.shader_ea % 2^32 := by
      unfold ShaderCache.fetch; rw [if_neg hit]
    have fetched : (c.fetch memory call.triangle).fetched = call.triangle.shader_ea := by
      unfold ShaderCache.fetch; rw [if_neg hit]
    refine ⟨?_,?_,?_⟩
    · intro scratch is
      obtain rfl := Option.some.inj (placed.symm.trans is)
      exact ⟨most,steps⟩
    · intro none
      exact absurd (placed.symm.trans none) nofun
    · intro set scratch is i below
      obtain rfl := Option.some.inj (placed.symm.trans is)
      rw [scribble_below placed below]
      have selected : call.triangle.shader_ea ≠ 0 := by
        intro zero
        apply set
        show (c.fetch memory call.triangle).shader_ea_current = 0
        rw [current,zero]
        rfl
      show _ = memory ((c.fetch memory call.triangle).fetched + i)
      rw [fetched]
      exact fetch_code hit small selected below

theorem EachCall.loaded (valid : CacheInvariant memory c) (calls : List LoadCall)
    (small : ∀ call ∈ calls, call.triangle.length ≤ 16384)
    (trusted : EachCall memory (fun c call => Trusted c call.triangle) c calls) : EachCall memory (LoadedRight memory) c calls := by
  induction calls generalizing c with
  | nil => trivial
  | cons call rest ih =>
    have first := small call List.mem_cons_self
    refine ⟨valid.loaded first trusted.1,?_⟩
    apply ih (valid.after first)
    · intro call member
      exact small call (List.mem_cons_of_mem _ member)
    · exact trusted.2

end

theorem shaders_loaded (memory shader_buffer : Nat → Nat) (calls : List LoadCall)
    (small : ∀ call ∈ calls, call.triangle.length ≤ 16384)
    (trusted : EachCall memory (fun c call => Trusted c call.triangle) (.start shader_buffer) calls) :
    EachCall memory (LoadedRight memory) (.start shader_buffer) calls :=
  EachCall.loaded (.start shader_buffer) calls small trusted

-- A memory with a shader's header at 4096, and none elsewhere.
def shaderMemory (i : Nat) : Nat :=
  if i < 4096 then 0 else ([115,112,117,103,108,45,112,115] : List Nat).getD (i - 4096) (i % 256)

-- A shader of 200 bytes, twice from one address, two clear triangles, a longer one without a header, the shader again.
def mixedCalls : List LoadCall :=
  [⟨⟨4096,200⟩,fun _ => 0⟩,⟨⟨4096,200⟩,fun i => i⟩,⟨⟨0,1⟩,fun _ => 7⟩,⟨⟨0,1⟩,fun _ => 8⟩,⟨⟨8192,300⟩,fun _ => 1⟩,⟨⟨4096,128⟩,fun _ => 1⟩]

theorem shaders_loaded_mixed : EachCall shaderMemory (LoadedRight shaderMemory) (.start fun _ => 0) mixedCalls ∧
    ((ShaderCache.start fun _ => 0).fetch shaderMemory ⟨4096,200⟩).magic = true := by
  constructor
  · apply shaders_loaded
    · decide
    · refine ⟨⟨?_,?_,?_⟩,⟨fun _ => nofun,fun _ _ => ⟨rfl,256,rfl,by decide,by decide⟩,?_⟩,⟨?_,?_,?_⟩,⟨fun _ => nofun,?_,?_⟩,
        ⟨?_,?_,?_⟩,⟨?_,?_,?_⟩,trivial⟩
      all_goals intro one
      all_goals first
        | exact absurd one (by decide)
        | (intro two; exact absurd two (by decide))
        | (intro _ two; exact absurd two (by decide))
  · decide +kernel

-- An SPU that starts with a clear triangle gets NULL for its scratch pointer.
theorem shader_scratch_unset : ¬EachCall id (LoadedRight id) (.start fun _ => 0) [⟨⟨0,1⟩,fun _ => 0⟩] := by
  rintro ⟨right,_⟩
  obtain ⟨scratch,placed,_⟩ := right.scratch
  cases placed

end Spugl
