import KayaDB.Raft.RangePartition
import Mathlib.Data.List.MinMax
import Mathlib.Data.List.Sort

/-! The numbers of ranges and groups. A table hands out new ones from counters that
stop at the greatest 64-bit number, and a table that is built from a list gives
numbers to the ranges that have none while it goes through them. -/

namespace KayaDB.Raft

def lastId : Nat := 2 ^ 64 - 1

namespace StaticRange

/-- The number the range gets where `next` is the next one to hand out. -/
def numberFrom (range : StaticRange) (next : Nat) : Nat := if range.rangeId = 0 then next else range.rangeId

def numbered (range : StaticRange) (next : Nat) : StaticRange :=
  { range with
    rangeId := range.numberFrom next
    epoch := if range.epoch = 0 then 1 else range.epoch }

end StaticRange

namespace StaticRangeTable

def nextFrom (range : StaticRange) (next : Nat) : Nat := max next (range.numberFrom next + 1)

/-- No table is built when a sum is beyond 64 bits. -/
def numberRanges : Nat → List StaticRange → Option (List StaticRange × Nat)
  | next, [] => some ([], next)
  | next, range :: rest =>
    if range.numberFrom next + 1 < 2 ^ 64 then
      (numberRanges (nextFrom range next) rest).map fun (ranges, last) => (range.numbered next :: ranges, last)
    else none

def byStart (ranges : List StaticRange) : List StaticRange :=
  ranges.insertionSort fun first second => first.startKey ≤ second.startKey

def fromRanges (ranges : List StaticRange) : Option StaticRangeTable :=
  (numberRanges 1 (byStart ranges)).map fun (ranges, nextRangeId) =>
    ⟨ranges, 1, nextRangeId, max (saturatingAdd ((ranges.map StaticRange.groupId).foldr max 0) 1) 1⟩

/-- The right half that a call makes, if it is a split that succeeds. -/
def rightHalf (table : StaticRangeTable) : RangeCall → Option StaticRange
  | .splitAt splitKey => (table.splitAt splitKey).1.toOption.map fun made => made.2.1
  | .mergeWithNext _ | .moveRange _ _ => none

/-- After every call the ranges have different numbers, and the right half of a
split is the only range of its group. -/
structure UniqueIds (table : StaticRangeTable) (calls : List RangeCall) : Prop where
  distinct : ∀ front, front <+: calls → ((table.performAll front).ranges.map StaticRange.rangeId).Nodup
  fresh : ∀ front call, front ++ [call] <+: calls → ∀ right ∈ (table.performAll front).rightHalf call,
    (table.performAll (front ++ [call])).ranges.filter (fun range => range.groupId = right.groupId) = [right]

/-- A counter that is at its end has not handed out its last number yet. -/
structure Unspent (table : StaticRangeTable) : Prop where
  range : table.nextRangeId = lastId → ∀ range ∈ table.ranges, range.rangeId ≠ lastId
  group : table.nextGroupId = lastId → ∀ range ∈ table.ranges, range.groupId ≠ lastId

def SplitsUnspent : StaticRangeTable → List RangeCall → Prop
  | _, [] => True
  | table, call :: calls => ((table.rightHalf call).isSome → table.Unspent) ∧ SplitsUnspent (table.perform call).2 calls

/-- No range further on has the number of its own that an earlier one has or is given. -/
def NumbersApart : Nat → List StaticRange → Prop
  | _, [] => True
  | next, range :: rest => (∀ later ∈ rest, later.rangeId ≠ range.numberFrom next) ∧ NumbersApart (nextFrom range next) rest

section Numbers
variable {next last : Nat} {range : StaticRange} {ranges made : List StaticRange}

theorem numberRanges_cons {rest : List StaticRange} (built : numberRanges next (range :: rest) = some (made, last)) :
    ∃ others, numberRanges (nextFrom range next) rest = some (others, last) ∧ made = range.numbered next :: others ∧
      range.numberFrom next + 1 < 2 ^ 64 := by
  unfold numberRanges at built
  split at built
  next small =>
    obtain ⟨⟨others, final⟩, later, same⟩ := Option.map_eq_some_iff.mp built
    cases same
    exact ⟨others, later, rfl, small⟩
  next => cases built

theorem le_nextFrom (range : StaticRange) (next : Nat) : next ≤ nextFrom range next ∧ range.numberFrom next < nextFrom range next := by
  unfold nextFrom
  omega

theorem numbers_lt (ranges : List StaticRange) : ∀ {next made}, numberRanges next ranges = some (made, last) →
    next < 2 ^ 64 → next ≤ last ∧ last < 2 ^ 64 ∧ ∀ range ∈ made, range.rangeId < last := by
  induction ranges with
  | nil =>
    intro next made built small
    cases built
    refine ⟨le_rfl, small, fun range inside => ?_⟩
    cases inside
  | cons range rest ih =>
    intro next made built small
    obtain ⟨others, later, rfl, sum⟩ := numberRanges_cons built
    have room : nextFrom range next < 2 ^ 64 := by
      unfold nextFrom
      omega
    obtain ⟨grown, bound, below⟩ := ih later room
    have step := le_nextFrom range next
    refine ⟨step.1.trans grown, bound, List.forall_mem_cons.mpr ⟨?_, below⟩⟩
    exact step.2.trans_le grown

theorem mem_numbers (ranges : List StaticRange) : ∀ {next made}, numberRanges next ranges = some (made, last) →
    ∀ number : Nat, number ≠ 0 → number < next →
      (number ∈ made.map StaticRange.rangeId ↔ number ∈ ranges.map StaticRange.rangeId) := by
  induction ranges with
  | nil =>
    intro next made built number _ _
    cases built
    exact Iff.rfl
  | cons range rest ih =>
    intro next made built number given old
    obtain ⟨others, later, rfl, -⟩ := numberRanges_cons built
    rw [List.map_cons, List.map_cons, List.mem_cons, List.mem_cons,
      ih later number given (old.trans_le (le_nextFrom range next).1)]
    refine or_congr ?_ Iff.rfl
    change number = range.numberFrom next ↔ number = range.rangeId
    unfold StaticRange.numberFrom
    split
    next unset => omega
    next => exact Iff.rfl

theorem nodup_numbers_iff (ranges : List StaticRange) : ∀ {next made}, numberRanges next ranges = some (made, last) →
    0 < next → ((made.map StaticRange.rangeId).Nodup ↔ NumbersApart next ranges) := by
  induction ranges with
  | nil =>
    intro next made built _
    cases built
    exact iff_of_true List.nodup_nil trivial
  | cons range rest ih =>
    intro next made built positive
    obtain ⟨others, later, rfl, -⟩ := numberRanges_cons built
    have step := le_nextFrom range next
    have given : range.numberFrom next ≠ 0 := by
      unfold StaticRange.numberFrom
      split <;> omega
    have listed := mem_numbers rest later (range.numberFrom next) given step.2
    rw [List.map_cons, List.nodup_cons, ih later (positive.trans_le step.1)]
    refine and_congr_left' ((not_congr listed).trans ?_)
    simp

end Numbers

theorem saturatingAdd_le (value : Nat) : saturatingAdd value 1 ≤ lastId := by
  unfold saturatingAdd lastId
  omega

theorem lt_saturatingAdd {number value : Nat} (reached : number ≤ value) :
    number < saturatingAdd value 1 ∨ lastId ≤ number := by
  unfold saturatingAdd lastId
  omega

/-- All numbers in use are below the counters or at the end of their range. -/
structure Counted (table : StaticRangeTable) : Prop where
  range : ∀ range ∈ table.ranges, range.rangeId < table.nextRangeId ∨ lastId ≤ range.rangeId
  group : ∀ range ∈ table.ranges, range.groupId < table.nextGroupId ∨ lastId ≤ range.groupId
  rangeEnd : table.nextRangeId ≤ lastId
  groupEnd : table.nextGroupId ≤ lastId

theorem counted_fromRanges {ranges : List StaticRange} {table : StaticRangeTable} (built : fromRanges ranges = some table) :
    table.Counted := by
  obtain ⟨⟨made, nextRangeId⟩, numbered, rfl⟩ := Option.map_eq_some_iff.mp built
  obtain ⟨-, bound, below⟩ := numbers_lt _ numbered (by decide)
  refine ⟨fun range inside => .inl (below range inside), fun range inside => ?_, ?_, ?_⟩
  · have top : range.groupId ≤ (made.map StaticRange.groupId).foldr max 0 :=
      List.le_max_of_le (List.mem_map_of_mem inside) le_rfl
    exact (lt_saturatingAdd top).imp_left fun below => below.trans_le (le_max_left _ _)
  · exact Nat.le_sub_one_of_lt bound
  · exact max_le (saturatingAdd_le _) (by decide)

/-- What a call does to the numbers. The last argument is the right half of a split. -/
inductive Renumbers (table after : StaticRangeTable) : Option StaticRange → Prop where
  | split {front back old left right} :
      table.ranges = front ++ old :: back → after.ranges = front ++ left :: right :: back →
      left.rangeId = old.rangeId → left.groupId = old.groupId →
      right.rangeId = table.nextRangeId → right.groupId = table.nextGroupId →
      after.nextRangeId = saturatingAdd table.nextRangeId 1 →
      after.nextGroupId = saturatingAdd table.nextGroupId 1 → Renumbers table after (some right)
  | kept : (after.ranges.map StaticRange.rangeId).Sublist (table.ranges.map StaticRange.rangeId) →
      (∀ range ∈ after.ranges, range.groupId ∈ table.ranges.map StaticRange.groupId ∨
        range.groupId < after.nextGroupId ∨ lastId ≤ range.groupId) →
      after.nextRangeId = table.nextRangeId → table.nextGroupId ≤ after.nextGroupId →
      (table.nextGroupId ≤ lastId → after.nextGroupId ≤ lastId) → Renumbers table after none

section Calls
variable {table after : StaticRangeTable} {right : StaticRange} {call : RangeCall} {calls : List RangeCall}
  {made : Option StaticRange}

section
variable (table : StaticRangeTable)

theorem Renumbers.refl : table.Renumbers table none :=
  .kept (.refl _) (fun _ inside => .inl (List.mem_map_of_mem inside)) rfl le_rfl id

theorem splitAt_renumbers (splitKey : Bytes) :
    table.Renumbers (table.splitAt splitKey).2 (table.rightHalf (.splitAt splitKey)) := by
  dsimp only [rightHalf]
  fun_cases splitAt table splitKey with
  | case1 | case2 | case3 | case4 | case5 => exact .refl table
  | case6 nonempty place found old held away inner left right =>
    obtain ⟨front, back, ranges, rfl, -, -⟩ := found_split found held
    have put : (table.ranges.set front.length left).insertIdx (front.length + 1) right =
        front ++ left :: right :: back := by
      simp [ranges, insertIdx_behind]
    exact .split ranges put rfl rfl rfl rfl rfl rfl

theorem mergeWithNext_renumbers (leftStart : Bytes) : table.Renumbers (table.mergeWithNext leftStart).2 none := by
  fun_cases mergeWithNext table leftStart with
  | case1 | case2 | case4 => exact .refl table
  | case3 place found left right next held touching merged =>
    obtain ⟨front, behind, ranges, rfl, -, -⟩ := found_split found held
    have put : (table.ranges.set front.length merged).eraseIdx (front.length + 1) = front ++ merged :: behind.tail := by
      cases behind <;> simp [ranges, List.eraseIdx_append]
    refine .kept ?_ (fun range inside => .inl ?_) rfl le_rfl id
    · dsimp only
      rw [put, ranges]
      simp only [List.map_append, List.map_cons]
      exact (((List.tail_sublist behind).map StaticRange.rangeId).cons_cons _).append_left _
    · have inside : range ∈ front ++ merged :: behind.tail := put ▸ inside
      rw [ranges]
      simp only [List.mem_append, List.mem_cons] at inside
      simp only [List.map_append, List.map_cons, List.mem_append, List.mem_cons, List.mem_map]
      rcases inside with before | rfl | behind
      · exact .inl ⟨range, before, rfl⟩
      · exact .inr (.inl rfl)
      · exact .inr (.inr ⟨range, List.mem_of_mem_tail behind, rfl⟩)

theorem moveRange_renumbers (rangeStart : Bytes) (targetGroup : Nat) :
    table.Renumbers (table.moveRange rangeStart targetGroup).2 none := by
  fun_cases moveRange table rangeStart targetGroup with
  | case1 | case2 | case3 => exact .refl table
  | case4 place found range held away moved =>
    obtain ⟨front, back, ranges, rfl, -, -⟩ := found_split found held
    have put : table.ranges.set front.length moved = front ++ moved :: back := by simp [ranges]
    refine .kept ?_ (fun other inside => ?_) rfl (le_max_left _ _) ?_
    · dsimp only
      rw [put, ranges]
      simp [moved]
    · have inside : other ∈ front ++ moved :: back := put ▸ inside
      simp only [List.mem_append, List.mem_cons] at inside
      rcases inside with before | rfl | behind
      · exact .inl (List.mem_map_of_mem (by simp [ranges, before]))
      · exact .inr ((lt_saturatingAdd le_rfl).imp_left fun below => below.trans_le (le_max_right _ _))
      · exact .inl (List.mem_map_of_mem (by simp [ranges, behind]))
    · exact fun bound => max_le bound (saturatingAdd_le targetGroup)

theorem perform_renumbers (call : RangeCall) : table.Renumbers (table.perform call).2 (table.rightHalf call) := by
  cases call with
  | splitAt splitKey => exact table.splitAt_renumbers splitKey
  | mergeWithNext leftStart => exact table.mergeWithNext_renumbers leftStart
  | moveRange rangeStart targetGroup => exact table.moveRange_renumbers rangeStart targetGroup

end

theorem Counted.step (counted : table.Counted) (renumbers : table.Renumbers after made) : after.Counted := by
  cases renumbers with
  | kept ids groups sameNext grown bound =>
    refine ⟨fun range inside => ?_, fun range inside => ?_, sameNext ▸ counted.rangeEnd, bound counted.groupEnd⟩
    · obtain ⟨old, member, same⟩ := List.mem_map.mp (ids.subset (List.mem_map_of_mem inside))
      rw [← same, sameNext]
      exact counted.range old member
    · rcases groups range inside with earlier | placed
      · obtain ⟨old, member, same⟩ := List.mem_map.mp earlier
        rw [← same]
        exact (counted.group old member).imp_left fun below => below.trans_le grown
      · exact placed
  | @split front back old left right before behind leftId leftGroup rightId rightGroup nextId nextGroup =>
    have ofOld : ∀ range ∈ table.ranges, (range.rangeId < after.nextRangeId ∨ lastId ≤ range.rangeId) ∧
        (range.groupId < after.nextGroupId ∨ lastId ≤ range.groupId) := by
      intro range inside
      rw [nextId, nextGroup]
      exact ⟨(counted.range range inside).elim (fun below => lt_saturatingAdd below.le) .inr,
        (counted.group range inside).elim (fun below => lt_saturatingAdd below.le) .inr⟩
    have all : ∀ range ∈ after.ranges, (range.rangeId < after.nextRangeId ∨ lastId ≤ range.rangeId) ∧
        (range.groupId < after.nextGroupId ∨ lastId ≤ range.groupId) := by
      simp only [before, behind, List.mem_append, List.mem_cons] at ofOld ⊢
      rintro range (first | rfl | rfl | later)
      · exact ofOld range (.inl first)
      · rw [leftId, leftGroup]
        exact ofOld old (.inr (.inl rfl))
      · rw [rightId, rightGroup, nextId, nextGroup]
        exact ⟨lt_saturatingAdd le_rfl, lt_saturatingAdd le_rfl⟩
      · exact ofOld range (.inr (.inr later))
    refine ⟨fun range inside => (all range inside).1, fun range inside => (all range inside).2, ?_, ?_⟩
    · exact nextId ▸ saturatingAdd_le _
    · exact nextGroup ▸ saturatingAdd_le _

theorem unspent_number_iff {ranges : List StaticRange} {number : StaticRange → Nat} {next : Nat}
    (counted : ∀ range ∈ ranges, number range < next ∨ lastId ≤ number range) (bound : next ≤ lastId) :
    (next = lastId → ∀ range ∈ ranges, number range ≠ lastId) ↔ ∀ range ∈ ranges, number range ≠ next := by
  constructor
  · intro unspent range inside same
    have end_le := (counted range inside).resolve_left same.not_lt
    have ended : next = lastId := le_antisymm bound (end_le.trans same.le)
    exact unspent ended range inside (same.trans ended)
  · intro apart ended
    rwa [← ended]

theorem Counted.unspent_iff (counted : table.Counted) : table.Unspent ↔
    (∀ range ∈ table.ranges, range.rangeId ≠ table.nextRangeId) ∧
      ∀ range ∈ table.ranges, range.groupId ≠ table.nextGroupId := by
  rw [← unspent_number_iff counted.range counted.rangeEnd, ← unspent_number_iff counted.group counted.groupEnd]
  exact ⟨fun unspent => ⟨unspent.range, unspent.group⟩, fun both => ⟨both.1, both.2⟩⟩

/-- A call leaves different numbers and a group of its own for the right half just
if it is no split or finds its counters unspent. -/
theorem Counted.step_iff (counted : table.Counted) (distinct : (table.ranges.map StaticRange.rangeId).Nodup)
    (renumbers : table.Renumbers after made) :
    ((∀ right ∈ made, after.ranges.filter (fun range => range.groupId = right.groupId) = [right]) ∧
        (after.ranges.map StaticRange.rangeId).Nodup) ↔ (made.isSome → table.Unspent) := by
  cases renumbers with
  | kept ids => simp [ids.nodup distinct]
  | @split front back old left right before behind leftId leftGroup rightId rightGroup =>
    have numbers : (after.ranges.map StaticRange.rangeId).Nodup ↔
        ∀ range ∈ table.ranges, range.rangeId ≠ table.nextRangeId := by
      have moved : (after.ranges.map StaticRange.rangeId).Perm
          (table.nextRangeId :: table.ranges.map StaticRange.rangeId) := by
        rw [before, behind, ← rightId]
        simpa [leftId] using @List.perm_middle _ right.rangeId (front.map StaticRange.rangeId ++ [old.rangeId])
          (back.map StaticRange.rangeId)
      rw [moved.nodup_iff, List.nodup_cons]
      simp [distinct]
    have alone : after.ranges.filter (fun range => range.groupId = right.groupId) = [right] ↔
        ∀ range ∈ table.ranges, range.groupId ≠ table.nextGroupId := by
      rw [before, behind, ← rightGroup, List.append_cons front left, List.filter_append,
        List.filter_cons_of_pos (by simp)]
      simp [List.append_eq_singleton_iff, leftGroup, or_imp, forall_and]
    rw [counted.unspent_iff, ← numbers, ← alone]
    simp [and_comm]

theorem uniqueIds_nil : table.UniqueIds [] ↔ (table.ranges.map StaticRange.rangeId).Nodup := by
  refine ⟨fun unique => unique.distinct [] (List.prefix_refl _), fun distinct => ⟨?_, ?_⟩⟩
  · intro front inside
    cases List.prefix_nil.mp inside
    exact distinct
  · intro front call inside
    simp at inside

theorem uniqueIds_cons : table.UniqueIds (call :: calls) ↔ (table.ranges.map StaticRange.rangeId).Nodup ∧
    (∀ right ∈ table.rightHalf call,
      (table.perform call).2.ranges.filter (fun range => range.groupId = right.groupId) = [right]) ∧
    (table.perform call).2.UniqueIds calls := by
  constructor
  · intro unique
    refine ⟨unique.distinct [] (List.nil_prefix), unique.fresh [] call (by simp), ?_, ?_⟩
    · exact fun front inside => unique.distinct (call :: front) ((List.prefix_cons_inj call).mpr inside)
    · exact fun front next inside => unique.fresh (call :: front) next ((List.prefix_cons_inj call).mpr inside)
  · rintro ⟨distinct, fresh, later⟩
    refine ⟨fun front inside => ?_, fun front next inside => ?_⟩
    · cases front with
      | nil => exact distinct
      | cons head front =>
        obtain ⟨rfl, further⟩ := List.cons_prefix_cons.mp inside
        exact later.distinct front further
    · cases front with
      | nil =>
        obtain ⟨rfl, -⟩ := List.cons_prefix_cons.mp inside
        exact fresh
      | cons head front =>
        obtain ⟨rfl, further⟩ := List.cons_prefix_cons.mp inside
        exact later.fresh front next further

theorem Counted.uniqueIds_iff (calls : List RangeCall) : ∀ {table : StaticRangeTable}, table.Counted →
    (table.UniqueIds calls ↔ (table.ranges.map StaticRange.rangeId).Nodup ∧ table.SplitsUnspent calls) := by
  induction calls with
  | nil =>
    intro table _
    rw [uniqueIds_nil]
    exact (and_iff_left trivial).symm
  | cons call calls ih =>
    intro table counted
    have renumbers := table.perform_renumbers call
    rw [uniqueIds_cons, ih (counted.step renumbers)]
    refine and_congr_right fun distinct => ?_
    rw [← and_assoc, counted.step_iff distinct renumbers]
    exact Iff.rfl

end Calls

/-- The numbers of a table that is built from a list and then split, merged and
moved are unique just if no range of the list has the number an earlier one has or
is given, and no split finds a counter spent. -/
theorem uniqueIds_fromRanges_iff {ranges : List StaticRange} {table : StaticRangeTable} (calls : List RangeCall)
    (built : fromRanges ranges = some table) :
    table.UniqueIds calls ↔ NumbersApart 1 (byStart ranges) ∧ table.SplitsUnspent calls := by
  rw [Counted.uniqueIds_iff calls (counted_fromRanges built)]
  obtain ⟨⟨made, nextRangeId⟩, numbered, rfl⟩ := Option.map_eq_some_iff.mp built
  exact and_congr_left' (nodup_numbers_iff _ numbered one_pos)

/-- The first of two ranges has no number and the second has one. -/
def mixedRanges (number : Nat) : List StaticRange := [⟨[], [77], 1, 0, 0⟩, ⟨[77], [], 2, number, 1⟩]

theorem uniqueIds_mixedRanges :
    ∃ table, fromRanges (mixedRanges 7) = some table ∧ table.UniqueIds [.splitAt [80]] := by
  obtain ⟨table, built⟩ := Option.isSome_iff_exists.mp (by decide +kernel : (fromRanges (mixedRanges 7)).isSome)
  have counters : ((fromRanges (mixedRanges 7)).map fun made => (made.nextRangeId, made.nextGroupId)) = some (8, 3) := by
    decide +kernel
  rw [built, Option.map_some, Option.some.injEq, Prod.mk.injEq] at counters
  refine ⟨table, built, (uniqueIds_fromRanges_iff _ built).mpr ⟨?_, ?_, trivial⟩⟩
  · rw [(by decide +kernel : byStart (mixedRanges 7) = mixedRanges 7)]
    simp [NumbersApart, mixedRanges, StaticRange.numberFrom]
  · refine fun _ => ⟨fun ended => ?_, fun ended => ?_⟩
    · rw [counters.1] at ended
      exact absurd ended (by decide)
    · rw [counters.2] at ended
      exact absurd ended (by decide)

/-- The number that the first range is given is the one the second range has. -/
theorem mixedRanges_not_uniqueIds :
    ∃ table, fromRanges (mixedRanges 1) = some table ∧ ¬ table.UniqueIds [] := by
  refine ⟨_, rfl, fun unique => ?_⟩
  have distinct := unique.distinct [] (List.prefix_refl _)
  revert distinct
  decide +kernel

end StaticRangeTable

end KayaDB.Raft
