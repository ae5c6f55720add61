import Mathlib

namespace OrderedCycle

-- A partial successor on slots. Listed slots are those with a successor; the
-- rules below are local to one link each, so an update checks few of them.
-- They still force one cycle through the root with rising positions.
structure Ordered (root : α) (limit : Nat) (next : α → Option α) (pos : α → Nat) : Prop where
  start : pos root = 0
  held : (next root).isSome
  below : ∀ i j, next i = some j → pos i < limit
  closed : ∀ i j, next i = some j → (next j).isSome
  rising : ∀ i j, next i = some j → j = root ∨ pos i < pos j
  back : ∀ j k, next j = some k → ∃ i, next i = some j
  once : ∀ i i' j, next i = some j → next i' = some j → i = i'

section
variable {α : Type} {root : α} {limit : Nat} {next next' : α → Option α} {pos pos' : α → Nat}

-- The first position after a listed slot's interval.
def stop [DecidableEq α] (root : α) (limit : Nat) (next : α → Option α) (pos : α → Nat) (i : α) : Nat :=
  match next i with
  | some j => if j = root then limit else pos j
  | none => pos i

theorem stop_some [DecidableEq α] (linked : next i = some j) :
    stop root limit next pos i = if j = root then limit else pos j := by simp [stop,linked]

theorem Ordered.positive (valid : Ordered root limit next pos) (linked : next j = some k)
    (other : j ≠ root) : 0 < pos j := by
  obtain ⟨i,prior⟩ := valid.back j k linked
  rcases valid.rising i j prior with same | less
  · exact absurd same other
  · exact Nat.lt_of_le_of_lt (Nat.zero_le _) less

theorem Ordered.before_stop [DecidableEq α] (valid : Ordered root limit next pos) (linked : next i = some j) :
    pos i < stop root limit next pos i := by
  rw [stop_some linked]
  split
  · exact valid.below i j linked
  · rename_i other
    exact (valid.rising i j linked).resolve_left other

theorem Ordered.stop_le [DecidableEq α] (valid : Ordered root limit next pos) (linked : next i = some j) :
    stop root limit next pos i ≤ limit := by
  rw [stop_some linked]
  split
  · exact Nat.le_refl _
  · obtain ⟨k,onward⟩ := Option.isSome_iff_exists.mp (valid.closed i j linked)
    exact Nat.le_of_lt (valid.below j k onward)

theorem Ordered.congr (valid : Ordered root limit next pos) (same : ∀ i, next' i = next i)
    (kept : ∀ i, (next i).isSome → pos' i = pos i) : Ordered root limit next' pos' := by
  have listed : ∀ i j, next i = some j → pos' i = pos i := fun i j linked => kept i (by simp [linked])
  have target : ∀ i j, next i = some j → pos' j = pos j := fun i j linked => kept j (valid.closed i j linked)
  refine ⟨(kept root valid.held).trans valid.start,by rw [same]; exact valid.held,?_,?_,?_,?_,?_⟩
  · intro i j linked; rw [same] at linked; rw [listed i j linked]; exact valid.below i j linked
  · intro i j linked; rw [same] at linked ⊢; exact valid.closed i j linked
  · intro i j linked; rw [same] at linked; rw [listed i j linked,target i j linked]; exact valid.rising i j linked
  · intro j k linked
    rw [same] at linked
    obtain ⟨i,prior⟩ := valid.back j k linked
    exact ⟨i,(same i).trans prior⟩
  · intro i i' j one two; rw [same] at one two; exact valid.once i i' j one two

-- `f` is taken from outside the cycle and linked in directly after `c`.
theorem Ordered.insert [DecidableEq α] (valid : Ordered root limit next pos) (linked : next c = some n)
    (unlisted : next f = none) (after : pos c < pos' f)
    (within : pos' f < stop root limit next pos c)
    (atC : next' c = some f) (atF : next' f = some n)
    (others : ∀ i, i ≠ c → i ≠ f → next' i = next i)
    (kept : ∀ i, i ≠ f → pos' i = pos i) : Ordered root limit next' pos' := by
  have apart : c ≠ f := by intro same; subst same; simp [linked] at unlisted
  have notRoot : root ≠ f := by intro same; subst same; have := valid.held; simp [unlisted] at this
  have fresh : ∀ i, next i ≠ some f := by
    intro i into
    have := valid.closed i f into
    simp [unlisted] at this
  have listedNot : ∀ i j, next i = some j → i ≠ f := by
    intro i j leads same; subst same; simp [unlisted] at leads
  have targetNot : ∀ i j, next i = some j → j ≠ f := by
    intro i j leads same; subst same; exact fresh i leads
  have old : ∀ i j, i ≠ c → i ≠ f → next' i = some j → next i = some j := by
    intro i j one two leads; rwa [others i one two] at leads
  have onward : n = root ∨ pos' f < pos n := by
    rw [stop_some linked] at within
    by_cases last : n = root
    · exact .inl last
    · exact .inr (by simpa [last] using within)
  have bounded : pos' f < limit := Nat.lt_of_lt_of_le within (valid.stop_le linked)
  refine ⟨(kept root notRoot).trans valid.start,?_,?_,?_,?_,?_,?_⟩
  · by_cases atRoot : root = c
    · rw [atRoot,atC]; rfl
    · rw [others root atRoot notRoot]; exact valid.held
  · intro i j leads
    by_cases isC : i = c
    · subst isC; rw [kept i apart]; exact valid.below i n linked
    · by_cases isF : i = f
      · subst isF; exact bounded
      · rw [kept i isF]; exact valid.below i j (old i j isC isF leads)
  · intro i j leads
    have listed : j = f ∨ (next j).isSome := by
      by_cases isC : i = c
      · subst isC; rw [atC] at leads; exact .inl (Option.some.inj leads).symm
      · by_cases isF : i = f
        · subst isF; rw [atF] at leads; cases leads; exact .inr (valid.closed c n linked)
        · exact .inr (valid.closed i j (old i j isC isF leads))
    rcases listed with isF | listed
    · rw [isF,atF]; rfl
    · obtain ⟨k,onward⟩ := Option.isSome_iff_exists.mp listed
      by_cases isC : j = c
      · rw [isC,atC]; rfl
      · rw [others j isC (listedNot j k onward)]; exact listed
  · intro i j leads
    by_cases isC : i = c
    · subst isC; rw [atC] at leads; cases leads; rw [kept i apart]; exact .inr after
    · by_cases isF : i = f
      · subst isF; rw [atF] at leads; cases leads
        rw [kept n (targetNot c n linked)]; exact onward
      · have prior := old i j isC isF leads
        rw [kept i isF,kept j (targetNot i j prior)]; exact valid.rising i j prior
  · intro j k leads
    by_cases isF : j = f
    · subst isF; exact ⟨c,atC⟩
    · have prior : ∃ k, next j = some k := by
        by_cases isC : j = c
        · subst isC; exact ⟨n,linked⟩
        · exact ⟨k,old j k isC isF leads⟩
      obtain ⟨k,prior⟩ := prior
      obtain ⟨i,into⟩ := valid.back j k prior
      by_cases isC : i = c
      · subst isC; rw [linked] at into; cases into; exact ⟨f,atF⟩
      · exact ⟨i,by rw [others i isC (listedNot i j into)]; exact into⟩
  · intro i i' j one two
    have cases : ∀ i, next' i = some j → (i = c ∧ j = f) ∨ (i = f ∧ j = n) ∨ (i ≠ c ∧ i ≠ f ∧ next i = some j) := by
      intro i leads
      by_cases isC : i = c
      · subst isC; rw [atC] at leads; cases leads; exact .inl ⟨rfl,rfl⟩
      · by_cases isF : i = f
        · subst isF; rw [atF] at leads; cases leads; exact .inr (.inl ⟨rfl,rfl⟩)
        · exact .inr (.inr ⟨isC,isF,old i j isC isF leads⟩)
    rcases cases i one with ⟨rfl,rfl⟩ | ⟨rfl,rfl⟩ | ⟨notC,notF,prior⟩ <;>
      rcases cases i' two with ⟨rfl,same⟩ | ⟨rfl,same⟩ | ⟨notC',notF',prior'⟩
    · rfl
    · exact absurd same.symm (targetNot _ _ linked)
    · exact absurd prior' (fresh i')
    · exact absurd same (targetNot _ _ linked)
    · rfl
    · exact absurd (valid.once i' c j prior' linked) notC'
    · exact absurd prior (same ▸ fresh i)
    · subst same; exact absurd (valid.once i c j prior linked) notC
    · exact valid.once i i' j prior prior'

-- `j` follows `i` and leaves the cycle; `i` takes over its successor.
theorem Ordered.remove [DecidableEq α] (valid : Ordered root limit next pos) (linked : next i = some j)
    (onward : next j = some k) (inner : j ≠ root)
    (atI : next' i = some k) (atJ : next' j = none)
    (others : ∀ m, m ≠ i → m ≠ j → next' m = next m)
    (kept : ∀ m, m ≠ j → pos' m = pos m) : Ordered root limit next' pos' := by
  have step : pos i < pos j := (valid.rising i j linked).resolve_left inner
  have apart : i ≠ j := by intro same; subst same; exact Nat.lt_irrefl _ step
  have onlyI : ∀ m, next m = some j → m = i := fun m into => valid.once m i j into linked
  have kNot : k ≠ j := by intro same; subst same; exact apart (onlyI k onward).symm
  have old : ∀ m n, m ≠ i → next' m = some n → next m = some n ∧ m ≠ j ∧ n ≠ j := by
    intro m n notI leads
    have notJ : m ≠ j := by intro same; subst same; simp [atJ] at leads
    rw [others m notI notJ] at leads
    exact ⟨leads,notJ,fun same => notI (onlyI m (same ▸ leads))⟩
  refine ⟨(kept root (Ne.symm inner)).trans valid.start,?_,?_,?_,?_,?_,?_⟩
  · by_cases atRoot : root = i
    · rw [atRoot,atI]; rfl
    · rw [others root atRoot (Ne.symm inner)]; exact valid.held
  · intro m n leads
    by_cases isI : m = i
    · subst isI; rw [kept m apart]; exact valid.below m j linked
    · obtain ⟨prior,notJ,_⟩ := old m n isI leads
      rw [kept m notJ]; exact valid.below m n prior
  · intro m n leads
    have listed : n ≠ j ∧ (next n).isSome := by
      by_cases isI : m = i
      · subst isI; rw [atI] at leads; cases leads; exact ⟨kNot,valid.closed j k onward⟩
      · obtain ⟨prior,_,notJ⟩ := old m n isI leads
        exact ⟨notJ,valid.closed m n prior⟩
    by_cases isI : n = i
    · rw [isI,atI]; rfl
    · rw [others n isI listed.1]; exact listed.2
  · intro m n leads
    by_cases isI : m = i
    · subst isI; rw [atI] at leads; cases leads
      rw [kept m apart,kept k kNot]
      exact (valid.rising j k onward).imp_right (Nat.lt_trans step)
    · obtain ⟨prior,notJ,target⟩ := old m n isI leads
      rw [kept m notJ,kept n target]; exact valid.rising m n prior
  · intro n l leads
    have prior : n ≠ j ∧ ∃ l, next n = some l := by
      by_cases isI : n = i
      · subst isI; exact ⟨apart,j,linked⟩
      · obtain ⟨prior,notJ,_⟩ := old n l isI leads
        exact ⟨notJ,l,prior⟩
    obtain ⟨notJ,l,prior⟩ := prior
    obtain ⟨m,into⟩ := valid.back n l prior
    by_cases isI : m = i
    · subst isI; rw [linked] at into; cases into; exact absurd rfl notJ
    · by_cases isJ : m = j
      · subst isJ; rw [onward] at into; cases into; exact ⟨i,atI⟩
      · exact ⟨m,by rw [others m isI isJ]; exact into⟩
  · intro m m' n one two
    have cases : ∀ m, next' m = some n → (m = i ∧ n = k) ∨ (m ≠ i ∧ m ≠ j ∧ next m = some n) := by
      intro m leads
      by_cases isI : m = i
      · subst isI; rw [atI] at leads; cases leads; exact .inl ⟨rfl,rfl⟩
      · obtain ⟨prior,notJ,_⟩ := old m n isI leads
        exact .inr ⟨isI,notJ,prior⟩
    rcases cases m one with ⟨rfl,rfl⟩ | ⟨_,notJ,prior⟩ <;>
      rcases cases m' two with ⟨rfl,same⟩ | ⟨_,notJ',prior'⟩
    · rfl
    · exact absurd (valid.once m' j n prior' onward) notJ'
    · subst same; exact absurd (valid.once m j n prior onward) notJ
    · exact valid.once m m' n prior prior'

-- Intervals after an insertion: the new slot takes the tail of `c`.
theorem Ordered.insert_stop [DecidableEq α] (valid : Ordered root limit next pos)
    (unlisted : next f = none) (atC : next' c = some f) :
    stop root limit next' pos' c = pos' f := by
  have notRoot : f ≠ root := by intro same; have := valid.held; rw [← same,unlisted] at this; cases this
  rw [stop_some atC,if_neg notRoot]

theorem Ordered.insert_stop_new [DecidableEq α] (valid : Ordered root limit next pos)
    (linked : next c = some n) (unlisted : next f = none) (atF : next' f = some n)
    (kept : ∀ i, i ≠ f → pos' i = pos i) :
    stop root limit next' pos' f = stop root limit next pos c := by
  have target : n ≠ f := by
    intro same; have := valid.closed c n linked; rw [same,unlisted] at this; cases this
  rw [stop_some atF,stop_some linked,kept n target]

theorem Ordered.insert_stop_other [DecidableEq α] (valid : Ordered root limit next pos)
    (unlisted : next f = none) (linked : next m = some k) (same : next' m = next m)
    (kept : ∀ i, i ≠ f → pos' i = pos i) :
    stop root limit next' pos' m = stop root limit next pos m := by
  have target : k ≠ f := by
    intro same; have := valid.closed m k linked; rw [same,unlisted] at this; cases this
  rw [stop_some linked,stop_some (same.trans linked),kept k target]

-- Intervals after a removal: `i` takes over the interval of `j`.
theorem Ordered.remove_stop [DecidableEq α] (valid : Ordered root limit next pos)
    (linked : next i = some j) (onward : next j = some k) (inner : j ≠ root)
    (atI : next' i = some k) (kept : ∀ m, m ≠ j → pos' m = pos m) :
    stop root limit next' pos' i = stop root limit next pos j := by
  have target : k ≠ j := by
    intro same; subst same
    rcases valid.rising k k onward with same | less
    · exact inner same
    · exact Nat.lt_irrefl _ less
  rw [stop_some atI,stop_some onward,kept k target]

theorem Ordered.remove_stop_other [DecidableEq α] (valid : Ordered root limit next pos)
    (linked : next i = some j) (other : m ≠ i) (link : next m = some n) (same : next' m = next m)
    (kept : ∀ m, m ≠ j → pos' m = pos m) :
    stop root limit next' pos' m = stop root limit next pos m := by
  have target : n ≠ j := by intro same; subst same; exact other (valid.once m i n link linked)
  rw [stop_some link,stop_some (same.trans link),kept n target]

-- Walking the links from the root.
def visit (next : α → Option α) (root : α) : Nat → α
  | 0 => root
  | n+1 => (next (visit next root n)).getD root

theorem Ordered.visit_listed (valid : Ordered root limit next pos) (n : Nat) :
    (next (visit next root n)).isSome := by
  induction n with
  | zero => exact valid.held
  | succ n ih =>
    obtain ⟨j,linked⟩ := Option.isSome_iff_exists.mp ih
    simpa [visit,linked] using valid.closed _ _ linked

theorem Ordered.visit_next (valid : Ordered root limit next pos) (n : Nat) :
    next (visit next root n) = some (visit next root (n+1)) := by
  obtain ⟨j,linked⟩ := Option.isSome_iff_exists.mp (valid.visit_listed n)
  simp [visit,linked]

theorem Ordered.returns (valid : Ordered root limit next pos) :
    ∃ n, 0 < n ∧ visit next root n = root := by
  by_contra never
  -- Without a return every step rises, so the position passes the limit.
  have climbs : ∀ n, n ≤ pos (visit next root n) := by
    intro n
    induction n with
    | zero => exact Nat.zero_le _
    | succ n ih =>
      rcases valid.rising _ _ (valid.visit_next n) with same | less
      · exact absurd ⟨n+1,Nat.succ_pos _,same⟩ never
      · exact Nat.lt_of_le_of_lt ih less
  have bound := valid.below _ _ (valid.visit_next limit)
  exact Nat.lt_irrefl _ (Nat.lt_of_le_of_lt (climbs limit) bound)

-- The least return is the length of the cycle.
structure Period (root : α) (next : α → Option α) (n : Nat) : Prop where
  positive : 0 < n
  returned : visit next root n = root
  first : ∀ m, 0 < m → m < n → visit next root m ≠ root

theorem Ordered.period [DecidableEq α] (valid : Ordered root limit next pos) : ∃ n, Period root next n := by
  have back := valid.returns
  refine ⟨Nat.find back,(Nat.find_spec back).1,(Nat.find_spec back).2,?_⟩
  intro m positive less same
  exact Nat.find_min back less ⟨positive,same⟩

theorem Ordered.climbs (valid : Ordered root limit next pos) (period : Period root next n)
    (inside : m+1 < n) : pos (visit next root m) < pos (visit next root (m+1)) :=
  (valid.rising _ _ (valid.visit_next m)).resolve_left (period.first (m+1) (Nat.succ_pos m) inside)

theorem Ordered.climbs_far (valid : Ordered root limit next pos) (period : Period root next n)
    (less : m < l) (inside : l < n) : pos (visit next root m) < pos (visit next root l) := by
  induction l with
  | zero => exact absurd less (Nat.not_lt_zero _)
  | succ l ih =>
    have last := valid.climbs period inside
    rcases Nat.lt_succ_iff_lt_or_eq.mp less with before | same
    · exact Nat.lt_trans (ih before (Nat.lt_of_succ_lt inside)) last
    · exact same ▸ last

theorem Ordered.visits_all (valid : Ordered root limit next pos) (period : Period root next n)
    (linked : next j = some k) : ∃ m, m < n ∧ visit next root m = j := by
  generalize bound : pos j = p
  induction p using Nat.strongRecOn generalizing j k with
  | ind p ih =>
    by_cases atRoot : j = root
    · exact ⟨0,period.positive,atRoot.symm⟩
    · obtain ⟨i,into⟩ := valid.back j k linked
      have less := (valid.rising i j into).resolve_left atRoot
      obtain ⟨m,inside,same⟩ := ih (pos i) (bound ▸ less) into rfl
      have reached : visit next root (m+1) = j := by simp [visit,same,into]
      rcases Nat.lt_or_ge (m+1) n with short | long
      · exact ⟨m+1,short,reached⟩
      · have last : m+1 = n := Nat.le_antisymm inside long
        exact absurd (reached.symm.trans (last ▸ period.returned)) atRoot

theorem Ordered.visit_stop [DecidableEq α] (valid : Ordered root limit next pos) (period : Period root next n)
    (less : m < l) (inside : l < n) :
    stop root limit next pos (visit next root m) ≤ pos (visit next root l) := by
  have short : m+1 < n := Nat.lt_of_le_of_lt less inside
  rw [stop_some (valid.visit_next m),if_neg (period.first _ (Nat.succ_pos m) short)]
  rcases Nat.lt_or_eq_of_le (Nat.succ_le_of_lt less) with before | same
  · exact Nat.le_of_lt (valid.climbs_far period before inside)
  · exact Nat.le_of_eq (by rw [← same])

def Covers [DecidableEq α] (root : α) (limit : Nat) (next : α → Option α) (pos : α → Nat) (t : Nat) (i : α) : Prop :=
  (next i).isSome ∧ pos i ≤ t ∧ t < stop root limit next pos i

theorem Ordered.covers_once [DecidableEq α] (valid : Ordered root limit next pos)
    (one : Covers root limit next pos t i) (two : Covers root limit next pos t i') : i = i' := by
  obtain ⟨n,period⟩ := valid.period
  obtain ⟨j,linked⟩ := Option.isSome_iff_exists.mp one.1
  obtain ⟨j',linked'⟩ := Option.isSome_iff_exists.mp two.1
  obtain ⟨m,inside,rfl⟩ := valid.visits_all period linked
  obtain ⟨l,inside',rfl⟩ := valid.visits_all period linked'
  rcases Nat.lt_trichotomy m l with less | same | more
  · have gap := valid.visit_stop period less inside'
    have low := two.2.1; have high := one.2.2
    omega
  · rw [same]
  · have gap := valid.visit_stop period more inside
    have low := one.2.1; have high := two.2.2
    omega

theorem Ordered.covers_some [DecidableEq α] (valid : Ordered root limit next pos) (inside : t < limit) :
    ∃ i, Covers root limit next pos t i := by
  obtain ⟨n,period⟩ := valid.period
  -- Descend from the last slot of the cycle to the first that starts at or before t.
  have search : ∀ m, m < n → t < stop root limit next pos (visit next root m) →
      ∃ i, Covers root limit next pos t i := by
    intro m
    induction m with
    | zero =>
      intro _ high
      exact ⟨root,valid.held,by rw [valid.start]; exact Nat.zero_le _,high⟩
    | succ m ih =>
      intro short high
      by_cases low : pos (visit next root (m+1)) ≤ t
      · exact ⟨_,valid.visit_listed _,low,high⟩
      · refine ih (Nat.lt_of_succ_lt short) ?_
        rw [stop_some (valid.visit_next m),if_neg (period.first _ (Nat.succ_pos m) short)]
        exact Nat.lt_of_not_le low
  obtain ⟨m,last⟩ := Nat.exists_eq_succ_of_ne_zero (Nat.pos_iff_ne_zero.mp period.positive)
  refine search m (by rw [last]; exact Nat.lt_succ_self m) ?_
  rw [stop_some (valid.visit_next m),← Nat.succ_eq_add_one,← last,if_pos period.returned]
  exact inside

-- The intervals of the listed slots partition the positions below the limit.
theorem Ordered.partition [DecidableEq α] (valid : Ordered root limit next pos) (inside : t < limit) :
    ∃ i, Covers root limit next pos t i ∧ ∀ i', Covers root limit next pos t i' → i' = i := by
  obtain ⟨i,covered⟩ := valid.covers_some inside
  exact ⟨i,covered,fun _ other => valid.covers_once other covered⟩

-- One cycle through the root, in whatever order its slots are numbered.
def Cyclic (root : α) (next : α → Option α) : Prop := ∃ limit pos, Ordered root limit next pos

theorem Ordered.double (valid : Ordered root limit next pos) :
    Ordered root (2*limit) next (fun i => 2 * pos i) := by
  refine ⟨by simp [valid.start],valid.held,?_,valid.closed,?_,valid.back,valid.once⟩
  · intro i j linked
    have := valid.below i j linked
    omega
  · intro i j linked
    exact (valid.rising i j linked).imp_right fun less => by omega

theorem Cyclic.held (valid : Cyclic root next) : (next root).isSome := by
  obtain ⟨_,_,ordered⟩ := valid
  exact ordered.held

theorem Cyclic.congr (valid : Cyclic root next) (same : ∀ i, next' i = next i) : Cyclic root next' := by
  obtain ⟨limit,pos,ordered⟩ := valid
  exact ⟨limit,pos,ordered.congr same fun _ _ => rfl⟩

-- With all positions doubled there is room for the new slot after any old one.
theorem Cyclic.insert [DecidableEq α] (valid : Cyclic root next) (linked : next c = some n)
    (unlisted : next f = none) (atC : next' c = some f) (atF : next' f = some n)
    (others : ∀ i, i ≠ c → i ≠ f → next' i = next i) : Cyclic root next' := by
  obtain ⟨limit,pos,ordered⟩ := valid
  have room := ordered.before_stop linked
  refine ⟨2*limit,Function.update (fun i => 2 * pos i) f (2 * pos c + 1),?_⟩
  apply ordered.double.insert linked unlisted ?_ ?_ atC atF others ?_
  · simp
  · rw [stop_some linked] at room ⊢
    simp only [Function.update_self]
    split
    · rw [if_pos (by assumption)] at room; omega
    · rw [if_neg (by assumption)] at room; omega
  · intro i other; simp [other]

theorem Cyclic.remove [DecidableEq α] (valid : Cyclic root next) (linked : next i = some j)
    (onward : next j = some k) (inner : j ≠ root) (atI : next' i = some k) (atJ : next' j = none)
    (others : ∀ m, m ≠ i → m ≠ j → next' m = next m) : Cyclic root next' := by
  obtain ⟨limit,pos,ordered⟩ := valid
  exact ⟨limit,pos,ordered.remove linked onward inner atI atJ others fun _ _ => rfl⟩

-- The walk from the root stays on the cycle and meets all of it.
theorem Cyclic.visit_next (valid : Cyclic root next) (n : Nat) :
    next (visit next root n) = some (visit next root (n+1)) := by
  obtain ⟨_,_,ordered⟩ := valid
  exact ordered.visit_next n

theorem Cyclic.visits [DecidableEq α] (valid : Cyclic root next) (linked : next j = some k) :
    ∃ m, visit next root m = j := by
  obtain ⟨_,_,ordered⟩ := valid
  obtain ⟨n,period⟩ := ordered.period
  obtain ⟨m,_,same⟩ := ordered.visits_all period linked
  exact ⟨m,same⟩

end
end OrderedCycle
