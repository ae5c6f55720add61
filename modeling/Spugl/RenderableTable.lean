import Spugl.FrameRows
import Spugl.DrawingState

namespace Spugl

-- A record of the table, as far as anyone reads it. An ea of 0 is a free one.
structure RenderableRecord where
  ea : BitVec 64
  id : BitVec 32
  width : Nat
  height : Nat
  stride : Nat
  cacheLine : Nat

-- The table and the list of render tasks. `next` and `frame` are fields of the cache lines, by their addresses.
structure RenderableTable where
  records : Nat → RenderableRecord
  render_tasks : Nat
  next : Nat → Nat
  frame : Nat → PixelTiles

-- The parameters of a call, and what rand and malloc return in it.
structure RenderableCall where
  buffer : BitVec 64
  width : Nat
  height : Nat
  stride : Nat
  rand : BitVec 32
  cacheLine : Nat

-- id |= (rand() << 16) & (~MAX_RENDERABLES)
def renderableId (slot : Nat) (rand : BitVec 32) : BitVec 32 := BitVec.ofNat 32 slot ||| (rand <<< 16 &&& ~~~32#32)

def RenderableCall.record (call : RenderableCall) (slot : Nat) : RenderableRecord :=
  ⟨call.buffer,renderableId slot call.rand,call.width,call.height,call.stride,call.cacheLine⟩

namespace RenderableTable

def blockManagementInit : RenderableTable := ⟨fun _ => ⟨0,0,0,0,0,0⟩,0,fun _ => 0,fun _ => ⟨0,0,0,0,0,0⟩⟩

def blockManagementCreateRenderable (t : RenderableTable) (call : RenderableCall) : RenderableTable × BitVec 32 :=
  match (List.range 32).find? fun slot => decide ((t.records slot).ea = 0) with
  | none => (t,-1)
  | some slot =>
    ({records := Function.update t.records slot (call.record slot)
      render_tasks := call.cacheLine
      next := Function.update t.next call.cacheLine t.render_tasks
      frame := Function.update t.frame call.cacheLine (createRenderable call.buffer call.width call.height call.stride)},
      renderableId slot call.rand)

def blockManagementGetRenderable (t : RenderableTable) (id : BitVec 32) : Option RenderableRecord :=
  let record := t.records (id &&& 31).toNat
  if record.id = id then some record else none

-- The cache lines that process_render_tasks comes to, when none has work for it.
def walk (t : RenderableTable) : Nat → Nat → List Nat
  | 0,_ => []
  | left+1,cache_ea => if cache_ea = 0 then [] else cache_ea :: t.walk left (t.next cache_ea)

def createAll (t : RenderableTable) : List RenderableCall → RenderableTable × List (BitVec 32)
  | [] => (t,[])
  | call :: rest =>
    let created := t.blockManagementCreateRenderable call
    let others := created.1.createAll rest
    (others.1,created.2 :: others.2)

-- What the primary SPU reads of the table.
def forSpu (t : RenderableTable) (slot : Nat) : Renderable :=
  ⟨(t.records slot).id.toNat,(t.records slot).cacheLine,(t.records slot).width,(t.records slot).height⟩

end RenderableTable

-- A list that is chained through `next`, from its head to 0.
def TaskList (next : Nat → Nat) : Nat → List Nat → Prop
  | head,[] => head = 0
  | head,line :: rest => (head = line ∧ line ≠ 0) ∧ TaskList next (next line) rest

-- The table after some calls: one record for each, in their order.
structure Filled (t : RenderableTable) (made : List RenderableCall) : Prop where
  few : made.length ≤ 32
  own : ∀ slot call, made[slot]? = some call → t.records slot = call.record slot
  free : ∀ slot, made.length ≤ slot → t.records slot = ⟨0,0,0,0,0,0⟩
  buffers : ∀ call ∈ made, call.buffer ≠ 0
  chain : TaskList t.next t.render_tasks (made.map RenderableCall.cacheLine).reverse
  frames : ∀ call ∈ made, t.frame call.cacheLine = createRenderable call.buffer call.width call.height call.stride

section
variable {t : RenderableTable} {made calls : List RenderableCall} {call : RenderableCall}

-- The low bits of an id are the number of its record.
theorem renderableId_slot (less : slot < 32) (rand : BitVec 32) : (renderableId slot rand &&& 31).toNat = slot := by
  have low : rand <<< 16 &&& ~~~32#32 &&& 31#32 = 0 := by
    apply BitVec.eq_of_getLsbD_eq
    intro i small
    have bit : (31#32).getLsbD i = decide (i < 5) := by interval_cases i <;> rfl
    simp only [BitVec.getLsbD_and,BitVec.getLsbD_shiftLeft,bit]
    grind
  have number : BitVec.ofNat 32 slot &&& 31#32 = BitVec.ofNat 32 slot := by interval_cases slot <;> rfl
  have same : renderableId slot rand &&& 31 = BitVec.ofNat 32 slot := by
    unfold renderableId
    exact BitVec.and_or_distrib_right.trans ((congrArg₂ (· ||| ·) number low).trans BitVec.or_zero)
  rw [same,BitVec.toNat_ofNat]
  omega

theorem TaskList.update {next : Nat → Nat} {head line target : Nat} {lines : List Nat} (chain : TaskList next head lines) (fresh : line ∉ lines) :
    TaskList (Function.update next line target) head lines := by
  induction lines generalizing head with
  | nil => exact chain
  | cons first rest ih =>
    obtain ⟨⟨rfl,used⟩,others⟩ := chain
    have other : head ≠ line := fun same => fresh (same ▸ List.mem_cons_self)
    refine ⟨⟨rfl,used⟩,?_⟩
    rw [Function.update_of_ne other]
    exact ih others fun member => fresh (List.mem_cons_of_mem _ member)

-- A walk follows the chain.
theorem TaskList.walk {head : Nat} {lines : List Nat} (chain : TaskList t.next head lines) (enough : lines.length < left) :
    t.walk left head = lines := by
  induction lines generalizing head left with
  | nil =>
    cases left with
    | zero => rfl
    | succ left => exact if_pos chain
  | cons line rest ih =>
    obtain ⟨⟨rfl,used⟩,others⟩ := chain
    cases left with
    | zero => exact absurd enough (Nat.not_lt_zero _)
    | succ left => rw [RenderableTable.walk,if_neg used,ih others (Nat.lt_of_succ_lt_succ enough)]

theorem filled_start : Filled .blockManagementInit [] :=
  ⟨Nat.zero_le _,nofun,fun _ _ => rfl,nofun,rfl,nofun⟩

-- With room in the table a call takes the next record, and the new cache line comes first.
theorem Filled.created (filled : Filled t made) (room : made.length < 32) (buffer : call.buffer ≠ 0) (line : call.cacheLine ≠ 0)
    (fresh : call.cacheLine ∉ made.map RenderableCall.cacheLine) :
    Filled (t.blockManagementCreateRenderable call).1 (made ++ [call]) ∧
      (t.blockManagementCreateRenderable call).2 = renderableId made.length call.rand := by
  have search : ((List.range 32).find? fun slot => decide ((t.records slot).ea = 0)) = some made.length := by
    rw [List.find?_eq_some_iff_append]
    refine ⟨decide_eq_true (by rw [filled.free _ (Nat.le_refl _)]),List.range made.length,
      (List.range (31 - made.length)).map (made.length + 1 + ·),?_,?_⟩
    · have count : 32 = made.length + (1 + (31 - made.length)) := by omega
      conv_lhs => rw [count,List.range_add,List.range_add]
      simp [Nat.add_assoc]
    · intro slot member
      have less := List.mem_range.mp member
      have used := filled.own slot made[slot] (List.getElem?_eq_getElem less)
      rw [used,Bool.not_eq_true',decide_eq_false_iff_not]
      exact filled.buffers _ (List.getElem_mem less)
  unfold RenderableTable.blockManagementCreateRenderable
  rw [search]
  refine ⟨⟨?_,?_,?_,?_,?_,?_⟩,rfl⟩
  · rw [List.length_append]
    exact room
  · intro slot call' here
    dsimp only
    rcases Nat.lt_trichotomy slot made.length with less | equal | more
    · rw [List.getElem?_append_left less] at here
      rw [Function.update_of_ne (Nat.ne_of_lt less),filled.own slot call' here]
    · subst equal
      rw [List.getElem?_concat_length] at here
      rw [Function.update_self,Option.some.inj here]
    · rw [List.getElem?_eq_none (by rw [List.length_append]; exact more)] at here
      cases here
  · intro slot beyond
    rw [List.length_append] at beyond
    dsimp only
    rw [Function.update_of_ne (Nat.ne_of_gt beyond),filled.free slot (Nat.le_of_succ_le beyond)]
  · intro call' member
    rcases List.mem_append.mp member with old | new
    · exact filled.buffers call' old
    · rwa [List.mem_singleton.mp new]
  · rw [List.map_append,List.reverse_append]
    refine ⟨⟨rfl,line⟩,?_⟩
    dsimp only
    rw [Function.update_self]
    exact filled.chain.update fun member => fresh (List.mem_reverse.mp member)
  · intro call' member
    dsimp only
    rcases List.mem_append.mp member with old | new
    · have other : call'.cacheLine ≠ call.cacheLine := fun same => fresh (same ▸ List.mem_map_of_mem old)
      rw [Function.update_of_ne other,filled.frames call' old]
    · rw [List.mem_singleton.mp new,Function.update_self]

-- A full table stays as it is.
theorem Filled.full (filled : Filled t made) (all : made.length = 32) : t.blockManagementCreateRenderable call = (t,-1) := by
  have search : ((List.range 32).find? fun slot => decide ((t.records slot).ea = 0)) = none := by
    rw [List.find?_eq_none]
    intro slot member
    have less : slot < made.length := all ▸ List.mem_range.mp member
    rw [filled.own slot made[slot] (List.getElem?_eq_getElem less),decide_eq_true_eq]
    exact filled.buffers _ (List.getElem_mem less)
  unfold RenderableTable.blockManagementCreateRenderable
  rw [search]

-- Some calls one behind the other, with what they return.
theorem Filled.all (filled : Filled t made) (buffers : ∀ call ∈ calls, call.buffer ≠ 0) (lines : ∀ call ∈ calls, call.cacheLine ≠ 0)
    (distinct : ((made ++ calls).map RenderableCall.cacheLine).Nodup) :
    Filled (t.createAll calls).1 ((made ++ calls).take 32) ∧ (t.createAll calls).2.length = calls.length ∧
      ∀ i call, calls[i]? = some call →
        (t.createAll calls).2[i]? = some (if made.length + i < 32 then renderableId (made.length + i) call.rand else -1) := by
  induction calls generalizing t made with
  | nil =>
    refine ⟨?_,rfl,fun i call none => by cases none⟩
    rw [List.append_nil,List.take_of_length_le filled.few]
    exact filled
  | cons call rest ih =>
    have buffers' : ∀ call ∈ rest, call.buffer ≠ 0 := fun call member => buffers call (List.mem_cons_of_mem _ member)
    have lines' : ∀ call ∈ rest, call.cacheLine ≠ 0 := fun call member => lines call (List.mem_cons_of_mem _ member)
    by_cases room : made.length < 32
    · have fresh : call.cacheLine ∉ made.map RenderableCall.cacheLine := by
        intro member
        rw [List.map_append,List.nodup_append] at distinct
        exact distinct.2.2 _ member _ List.mem_cons_self rfl
      obtain ⟨next,id⟩ := filled.created room (buffers call List.mem_cons_self) (lines call List.mem_cons_self) fresh
      have onward : made ++ call :: rest = (made ++ [call]) ++ rest := List.append_cons made call rest
      rw [onward] at distinct ⊢
      obtain ⟨after,count,ids⟩ := ih next buffers' lines' distinct
      refine ⟨after,congrArg Nat.succ count,?_⟩
      intro i call' here
      cases i with
      | zero =>
        rw [Nat.add_zero,if_pos room,← Option.some.inj here]
        exact congrArg some id
      | succ i =>
        have later := ids i call' here
        rw [List.length_append,List.length_singleton,Nat.add_assoc,Nat.add_comm 1 i] at later
        exact later
    · have all : made.length = 32 := Nat.le_antisymm filled.few (Nat.le_of_not_lt room)
      have fewer : (made ++ rest).Sublist (made ++ call :: rest) := (List.sublist_cons_self call rest).append_left made
      obtain ⟨after,count,ids⟩ := ih filled buffers' lines' (distinct.sublist (fewer.map _))
      have same : (t.createAll (call :: rest)) = ((t.createAll rest).1,-1 :: (t.createAll rest).2) := by
        rw [RenderableTable.createAll,filled.full all]
      rw [same]
      refine ⟨?_,congrArg Nat.succ count,?_⟩
      · have taken (l : List RenderableCall) : (made ++ l).take 32 = made := by rw [← all,List.take_left]
        rw [taken] at after ⊢
        exact after
      · intro i call' here
        cases i with
        | zero =>
          rw [if_neg (by omega)]
          rfl
        | succ i =>
          refine (ids i call' here).trans ?_
          rw [if_neg (by omega),if_neg (by omega)]

-- An id that the table was given finds its record.
theorem Filled.found (filled : Filled t made) (here : made[slot]? = some call) :
    t.blockManagementGetRenderable (renderableId slot call.rand) = some (call.record slot) := by
  have less : slot < 32 := by
    have inside := (List.getElem?_eq_some_iff.mp here).1
    have few := filled.few
    omega
  unfold RenderableTable.blockManagementGetRenderable
  rw [renderableId_slot less,filled.own slot call here]
  exact if_pos rfl

-- And what is found is a record of such an id, or a free one.
theorem Filled.only {id : BitVec 32} {record : RenderableRecord} (filled : Filled t made) (found : t.blockManagementGetRenderable id = some record) :
    record.cacheLine = 0 ∨ ∃ slot call, made[slot]? = some call ∧ id = renderableId slot call.rand ∧ record = call.record slot := by
  unfold RenderableTable.blockManagementGetRenderable at found
  dsimp only at found
  split at found
  · rename_i same
    have record_ := Option.some.inj found
    rcases Nat.lt_or_ge (id &&& 31).toNat made.length with less | beyond
    · have own := filled.own _ made[(id &&& 31).toNat] (List.getElem?_eq_getElem less)
      rw [own] at same record_
      exact .inr ⟨_,_,List.getElem?_eq_getElem less,same.symm,record_.symm⟩
    · rw [filled.free _ beyond] at record_
      exact .inl (record_ ▸ rfl)
  · cases found

-- DRAW_CONTEXT looks a record up as the server does.
theorem draw_context_get {F : Type} {spu : PrimarySpu F} (reads : spu.renderables = t.forSpu) (context : Context F) (id : BitVec 32) :
    (imp_draw_context spu context id.toNat).renderableCacheLine =
      ((t.blockManagementGetRenderable id).map RenderableRecord.cacheLine).getD 0 := by
  have slot : (id &&& 31).toNat = id.toNat % 32 := by
    rw [BitVec.toNat_and]
    exact Nat.and_two_pow_sub_one_eq_mod _ 5
  unfold imp_draw_context RenderableTable.blockManagementGetRenderable
  rw [reads,slot]
  dsimp only [RenderableTable.forSpu]
  by_cases same : (t.records (id.toNat % 32)).id = id
  · rw [if_pos (congrArg BitVec.toNat same),if_pos same]
    rfl
  · rw [if_neg fun equal => same (BitVec.eq_of_toNat_eq equal),if_neg same]
    rfl

theorem ids_distinct (i_less : i < 32) (j_less : j < 32) (rand rand' : BitVec 32) (same : renderableId i rand = renderableId j rand') : i = j := by
  rw [← renderableId_slot i_less rand,same,renderableId_slot j_less]

end

-- The first 32 renderables get ids of their own, under which the server and the primary SPU find them from then on and
-- nothing else, and the render SPUs come to the cache line of each, once. All further calls fail and change nothing.
theorem renderables_exact (calls : List RenderableCall) (buffers : ∀ call ∈ calls, call.buffer ≠ 0)
    (lines : ∀ call ∈ calls, call.cacheLine ≠ 0) (distinct : (calls.map RenderableCall.cacheLine).Nodup) :
    let t := (RenderableTable.blockManagementInit.createAll calls).1
    let ids := (RenderableTable.blockManagementInit.createAll calls).2
    (∀ i call, calls[i]? = some call → i < 32 →
      ∃ id, ids[i]? = some id ∧ t.blockManagementGetRenderable id = some (call.record i)) ∧
    (∀ i, i < calls.length → 32 ≤ i → ids[i]? = some (-1)) ∧
    (ids.take 32).Nodup ∧
    (∀ id record, t.blockManagementGetRenderable id = some record → record.cacheLine ≠ 0 → id ∈ ids.take 32) ∧
    t.walk 33 t.render_tasks = ((calls.take 32).map RenderableCall.cacheLine).reverse ∧
    ∀ {F : Type} (spu : PrimarySpu F) (context : Context F) (id : BitVec 32), spu.renderables = t.forSpu →
      (imp_draw_context spu context id.toNat).renderableCacheLine =
        ((t.blockManagementGetRenderable id).map RenderableRecord.cacheLine).getD 0 := by
  obtain ⟨filled,count,ids⟩ := filled_start.all buffers lines distinct
  simp only [List.nil_append,List.length_nil,Nat.zero_add] at filled count ids
  have taken {i : Nat} {call : RenderableCall} (here : calls[i]? = some call) (less : i < 32) : (calls.take 32)[i]? = some call := by
    rw [List.getElem?_take_of_lt less,here]
  refine ⟨?_,?_,?_,?_,?_,?_⟩
  · intro i call here less
    have id := ids i call here
    rw [if_pos less] at id
    exact ⟨_,id,filled.found (taken here less)⟩
  · intro i less beyond
    have id := ids i calls[i] (List.getElem?_eq_getElem less)
    rwa [if_neg (Nat.not_lt.mpr beyond)] at id
  · rw [List.nodup_iff_getElem?_ne_getElem?]
    intro i j order inside same
    rw [List.length_take] at inside
    have short : i < 32 ∧ j < 32 := by omega
    have one := ids i calls[i] (List.getElem?_eq_getElem (by omega))
    have two := ids j calls[j] (List.getElem?_eq_getElem (by omega))
    rw [List.getElem?_take_of_lt short.1,List.getElem?_take_of_lt short.2,one,two,if_pos short.1,if_pos short.2] at same
    exact absurd (ids_distinct short.1 short.2 _ _ (Option.some.inj same)) (Nat.ne_of_lt order)
  · intro id record found used
    rcases filled.only found with free | ⟨slot,call,here,rfl,_⟩
    · exact absurd free used
    · have inside := (List.getElem?_eq_some_iff.mp here).1
      rw [List.length_take] at inside
      have less : slot < 32 := by omega
      rw [List.getElem?_take_of_lt less] at here
      have id := ids slot call here
      rw [if_pos less,← List.getElem?_take_of_lt less] at id
      exact List.mem_of_getElem? id
  · refine filled.chain.walk ?_
    rw [List.length_reverse,List.length_map]
    exact Nat.lt_succ_of_le filled.few
  · intro F spu context id reads
    exact draw_context_get reads context id

def twoFrames : List RenderableCall := [⟨0x10000,64,64,256,5,0x2000⟩,⟨0x20000,64,64,256,5,0xa000⟩]

theorem renderables_exact_two : (∃ id, (RenderableTable.blockManagementInit.createAll twoFrames).2[1]? = some id ∧
      (RenderableTable.blockManagementInit.createAll twoFrames).1.blockManagementGetRenderable id =
        some (RenderableCall.record ⟨0x20000,64,64,256,5,0xa000⟩ 1)) ∧
    (RenderableTable.blockManagementInit.createAll twoFrames).1.walk 33
      (RenderableTable.blockManagementInit.createAll twoFrames).1.render_tasks = [0xa000,0x2000] := by
  obtain ⟨own,_,_,_,walk,_⟩ := renderables_exact twoFrames (by decide) (by decide) (by decide)
  exact ⟨own 1 _ rfl (by decide),walk⟩

end Spugl
