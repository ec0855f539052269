import KayaDB.Library.Tilings
import KayaDB.Raft.RangeTable

/-! The ranges of a table tile the key space. Each operation takes some ranges out
of the list and puts others, which cover the same keys, in their place; an operation
that fails changes nothing. -/

namespace KayaDB.Raft
open Tilings

namespace StaticRange

def stop (range : StaticRange) : Option Bytes := if range.endKey = [] then none else some range.endKey

theorem contains_iff (range : StaticRange) (key : Bytes) :
    range.contains key = true ↔ Covers StaticRange.startKey stop key range := by
  unfold contains Covers stop
  split
  next unbounded => simp [unbounded]
  next bounded => simp [bounded]

end StaticRange

inductive RangeCall where
  | splitAt (splitKey : Bytes)
  | mergeWithNext (leftStart : Bytes)
  | moveRange (rangeStart : Bytes) (targetGroup : Nat)
deriving DecidableEq, Repr

namespace StaticRangeTable
variable {table : StaticRangeTable} {key : Bytes}
  {test : StaticRange → Bool} {items : List StaticRange}

def perform (table : StaticRangeTable) : RangeCall → Except String Unit × StaticRangeTable
  | .splitAt splitKey => ((table.splitAt splitKey).1.map fun _ => (), (table.splitAt splitKey).2)
  | .mergeWithNext leftStart => ((table.mergeWithNext leftStart).1.map fun _ => (), (table.mergeWithNext leftStart).2)
  | .moveRange rangeStart targetGroup =>
    ((table.moveRange rangeStart targetGroup).1.map fun _ => (), (table.moveRange rangeStart targetGroup).2)

def performAll (table : StaticRangeTable) (calls : List RangeCall) : StaticRangeTable :=
  calls.foldl (fun current call => (current.perform call).2) table

def successes (table : StaticRangeTable) : List RangeCall → Nat
  | [] => 0
  | call :: calls => (table.perform call).1.toBool.toNat + (table.perform call).2.successes calls

def named (table : StaticRangeTable) : RangeCall → List StaticRange
  | .splitAt splitKey => table.ranges.filter fun range => range.contains splitKey
  | .mergeWithNext leftStart => (table.ranges.dropWhile fun range => range.startKey ≠ leftStart).take 2
  | .moveRange rangeStart _ => table.ranges.filter fun range => range.startKey = rangeStart

/-- A successful call exchanges the ranges it is about for others that cover the
same keys. -/
structure Exchanges (table after : StaticRangeTable) (call : RangeCall) (front old new back : List StaticRange) :
    Prop where
  taken : table.ranges = front ++ old ++ back
  put : after.ranges = front ++ new ++ back
  epoch : after.metaEpoch = saturatingAdd table.metaEpoch 1
  named : ∀ range ∈ old, range ∈ table.named call
  remaining : old ≠ []
  inside : ∀ key, (∃ range ∈ new, range.contains key) → ∃ range ∈ old, range.contains key
  tiles : ∀ start rest, Tiles StaticRange.startKey StaticRange.stop start (old ++ rest) →
    Tiles StaticRange.startKey StaticRange.stop start (new ++ rest)

inductive Outcome (table : StaticRangeTable) (call : RangeCall) : Except String Unit × StaticRangeTable → Prop where
  | failed (why : String) : Outcome table call (.error why, table)
  | done {after} (front old new back) : Exchanges table after call front old new back →
      Outcome table call (.ok (), after)

theorem found_split {place : Nat} {item : StaticRange} (found : items.findIdx? test = some place)
    (held : items[place]? = some item) : ∃ front back, items = front ++ item :: back ∧ front.length = place ∧
      test item = true ∧ ∀ other ∈ front, test other = false := by
  induction items generalizing place with
  | nil => cases found
  | cons head tail ih =>
    rw [List.findIdx?_cons] at found
    split at found
    next hit =>
      cases found
      cases held
      exact ⟨[], tail, rfl, rfl, hit, fun _ inside => absurd inside List.not_mem_nil⟩
    next miss =>
      obtain ⟨inner, later, rfl⟩ := Option.map_eq_some_iff.mp found
      obtain ⟨front, back, rfl, rfl, hit, before⟩ := ih later (by simpa using held)
      refine ⟨head :: front, back, rfl, rfl, hit, fun other inside => ?_⟩
      cases List.mem_cons.mp inside with
      | inl same => simpa [same] using miss
      | inr later => exact before other later

theorem insertIdx_behind (front : List StaticRange) (item new : StaticRange) :
    (front ++ item :: items).insertIdx (front.length + 1) new = front ++ item :: new :: items := by
  induction front with
  | nil => rfl
  | cons head tail ih => exact congrArg (head :: ·) ih

theorem splitAt_outcome (table : StaticRangeTable) (splitKey : Bytes) :
    table.Outcome (.splitAt splitKey) (table.perform (.splitAt splitKey)) := by
  dsimp only [perform]
  fun_cases splitAt table splitKey with
  | case1 | case2 | case3 | case4 | case5 => exact .failed _
  | case6 nonempty place found item held away inner left right =>
    obtain ⟨front, back, ranges, rfl, hit, -⟩ := found_split found held
    have covered := (StaticRange.contains_iff item splitKey).mp hit
    have above : item.startKey < splitKey := lt_of_le_of_ne covered.1 (Ne.symm away)
    have leftStop : left.stop = some splitKey := if_neg nonempty
    refine .done front [item] [left, right] back ⟨?_, ?_, rfl, ?_, ?_, ?_, ?_⟩
    · simpa using ranges
    · simp [ranges, insertIdx_behind]
    · simp [named, ranges, hit]
    · exact List.cons_ne_nil _ _
    · rintro key ⟨range, inside, holds⟩
      refine ⟨item, List.mem_singleton_self _, (StaticRange.contains_iff item key).mpr ?_⟩
      rw [StaticRange.contains_iff] at holds
      rcases List.mem_pair.mp inside with rfl | rfl
      · exact ⟨holds.1, fun stop ends => (holds.2 splitKey leftStop).trans (covered.2 stop ends)⟩
      · exact ⟨above.le.trans holds.1, holds.2⟩
    · exact fun start rest tiles => tiles.cut above covered.2 rfl leftStop rfl rfl

theorem dropWhile_front {front back : List StaticRange} {item : StaticRange}
    (passed : ∀ other ∈ front, test other = true) (stopped : test item = false) :
    (front ++ item :: back).dropWhile test = item :: back := by
  rw [List.dropWhile_append_of_pos passed, List.dropWhile_cons_of_neg (by simp [stopped])]

theorem mergeWithNext_outcome (table : StaticRangeTable) (leftStart : Bytes) :
    table.Outcome (.mergeWithNext leftStart) (table.perform (.mergeWithNext leftStart)) := by
  dsimp only [perform]
  fun_cases mergeWithNext table leftStart with
  | case1 | case2 | case4 => exact .failed _
  | case3 place found item right next held touching merged =>
    obtain ⟨front, behind, ranges, rfl, hit, earlier⟩ := found_split found held
    obtain ⟨back, rfl⟩ : ∃ back, behind = right :: back := by
      cases behind with
      | nil => simp [ranges] at next
      | cons head tail =>
        obtain rfl : head = right := by simpa [ranges] using next
        exact ⟨tail, rfl⟩
    have adjacent : item.endKey = right.startKey := by simpa using touching
    refine .done front [item, right] [merged] back ⟨?_, ?_, rfl, ?_, ?_, ?_, ?_⟩
    · simpa using ranges
    · simp [ranges, List.eraseIdx_append]
    · have dropped : table.ranges.dropWhile (fun range => decide (range.startKey ≠ leftStart)) = item :: right :: back := by
        rw [ranges]
        apply dropWhile_front
        · exact fun other inside => by simpa using earlier other inside
        · simpa using hit
      intro range inside
      rw [named, dropped]
      exact inside
    · exact List.cons_ne_nil _ _
    · rintro key ⟨range, inside, holds⟩
      cases List.mem_singleton.mp inside
      by_cases below : key < item.endKey
      · refine ⟨item, List.mem_cons_self, ?_⟩
        rw [StaticRange.contains, decide_eq_true_eq] at holds ⊢
        exact ⟨holds.1, .inr below⟩
      · refine ⟨right, List.mem_cons_of_mem _ (List.mem_singleton_self _), ?_⟩
        rw [StaticRange.contains, decide_eq_true_eq] at holds ⊢
        exact ⟨adjacent ▸ below, holds.2⟩
    · exact fun start rest tiles => tiles.join rfl rfl

theorem moveRange_outcome (table : StaticRangeTable) (rangeStart : Bytes) (targetGroup : Nat) :
    table.Outcome (.moveRange rangeStart targetGroup) (table.perform (.moveRange rangeStart targetGroup)) := by
  dsimp only [perform]
  fun_cases moveRange table rangeStart targetGroup with
  | case1 | case2 | case3 => exact .failed _
  | case4 place found item held away moved =>
    obtain ⟨front, back, ranges, rfl, hit, -⟩ := found_split found held
    refine .done front [item] [moved] back ⟨?_, ?_, rfl, ?_, ?_, ?_, ?_⟩
    · simpa using ranges
    · simp [ranges]
    · simpa [named, ranges] using .inr (by simpa using hit)
    · exact List.cons_ne_nil _ _
    · rintro key ⟨other, inside, holds⟩
      cases List.mem_singleton.mp inside
      exact ⟨item, List.mem_singleton_self _, holds⟩
    · exact fun start rest tiles => tiles.relabel rfl rfl

theorem perform_outcome (table : StaticRangeTable) (call : RangeCall) : table.Outcome call (table.perform call) := by
  cases call with
  | splitAt splitKey => exact table.splitAt_outcome splitKey
  | mergeWithNext leftStart => exact table.mergeWithNext_outcome leftStart
  | moveRange rangeStart targetGroup => exact table.moveRange_outcome rangeStart targetGroup

def Tiled (table : StaticRangeTable) : Prop := Tiles StaticRange.startKey StaticRange.stop [] table.ranges

theorem Tiled.perform (tiled : table.Tiled) (call : RangeCall) : (table.perform call).2.Tiled := by
  have outcome := table.perform_outcome call
  generalize table.perform call = result at outcome ⊢
  cases outcome with
  | failed why => exact tiled
  | @done after front old new back exchanges =>
    unfold Tiled at tiled ⊢
    rw [exchanges.taken, List.append_assoc] at tiled
    obtain ⟨middle, tail, exchange⟩ := tiled.splice (List.append_ne_nil_of_left_ne_nil exchanges.remaining back)
    rw [exchanges.put, List.append_assoc]
    exact exchange _ (exchanges.tiles middle back tail)

/-- The ranges are in order, each ends where the next begins, and every key is in
exactly one of them, whose group a lookup finds. -/
structure Partitions (table : StaticRangeTable) : Prop where
  sorted : table.ranges.Pairwise fun first second => first.startKey < second.startKey
  adjacent : table.ranges.IsChain fun first second => first.endKey = second.startKey
  lookup : ∀ key, ∃ range, table.ranges.filter (fun range => range.contains key) = [range] ∧
    table.lookup key = some range.groupId

theorem Tiled.partitions (tiled : table.Tiled) : table.Partitions := by
  refine ⟨tiled.sorted, ?_, fun key => ?_⟩
  · apply tiled.adjacent.imp
    intro first second ends
    unfold StaticRange.stop at ends
    split at ends
    · cases ends
    · exact Option.some.inj ends
  · obtain ⟨range, only⟩ := tiled.covers_one (not_lt.mp (List.not_lt_nil key))
    have same : (fun range => decide (Covers StaticRange.startKey StaticRange.stop key range)) =
        fun range : StaticRange => range.contains key := by
      funext range
      rw [Bool.eq_iff_iff, StaticRange.contains_iff, decide_eq_true_iff]
    rw [same] at only
    refine ⟨range, only, ?_⟩
    unfold StaticRangeTable.lookup lookupRange
    rw [← List.head?_filter, only]
    rfl

theorem lookup_perform (table : StaticRangeTable) (call : RangeCall) (key : Bytes)
    (outside : ∀ range ∈ table.named call, range.contains key = false) :
    (table.perform call).2.lookup key = table.lookup key := by
  have outcome := table.perform_outcome call
  generalize table.perform call = result at outcome ⊢
  cases outcome with
  | failed why => rfl
  | @done after front old new back exchanges =>
    have missedOld : ∀ range ∈ old, range.contains key = false :=
      fun range inside => outside range (exchanges.named range inside)
    have missedNew : ∀ range ∈ new, range.contains key = false := by
      intro range inside
      by_contra holds
      obtain ⟨other, taken, covers⟩ := exchanges.inside key ⟨range, inside, by simpa using holds⟩
      exact absurd covers (by simp [missedOld other taken])
    have skip : ∀ ranges : List StaticRange, (∀ range ∈ ranges, range.contains key = false) →
        ranges.find? (fun range => range.contains key) = none := by
      intro ranges missed
      apply List.find?_eq_none.mpr
      intro range inside
      simp [missed range inside]
    unfold lookup lookupRange
    simp only [exchanges.taken, exchanges.put, List.find?_append, skip old missedOld, skip new missedNew]

theorem saturatingAdd_assoc (value first second : Nat) :
    saturatingAdd (saturatingAdd value first) second = saturatingAdd value (first + second) := by
  unfold saturatingAdd
  omega

theorem metaEpoch_performAll (calls : List RangeCall) (bounded : table.metaEpoch ≤ 2 ^ 64 - 1) :
    (table.performAll calls).metaEpoch = saturatingAdd table.metaEpoch (table.successes calls) := by
  induction calls generalizing table with
  | nil =>
    unfold saturatingAdd
    exact (min_eq_left bounded).symm
  | cons call calls ih =>
    have grown : (table.perform call).2.metaEpoch = saturatingAdd table.metaEpoch (table.perform call).1.toBool.toNat := by
      have outcome := table.perform_outcome call
      generalize table.perform call = result at outcome ⊢
      cases outcome with
      | failed why => exact (min_eq_left bounded).symm
      | done _ _ _ _ exchanges => exact exchanges.epoch
    have small : (table.perform call).2.metaEpoch ≤ 2 ^ 64 - 1 := grown.trans_le (min_le_right _ _)
    have rest := ih small
    rw [grown, saturatingAdd_assoc] at rest
    exact rest

theorem Tiled.performAll (calls : List RangeCall) (tiled : table.Tiled) : (table.performAll calls).Tiled := by
  induction calls generalizing table with
  | nil => exact tiled
  | cons call calls ih => exact ih (tiled.perform call)

theorem tiled_singleGroup (groupId : Nat) : (singleGroup groupId).Tiled := Tiles.last rfl rfl

/-- Whatever calls have been made, the table partitions the keys, its epoch counts
the calls that succeeded, and a further call changes the group of no key outside
the ranges it is about, and nothing at all when it fails. -/
theorem ranges_partition_keys (groupId : Nat) (calls : List RangeCall) :
    ((singleGroup groupId).performAll calls).Partitions ∧
      ((singleGroup groupId).performAll calls).metaEpoch =
        min ((singleGroup groupId).metaEpoch + (singleGroup groupId).successes calls) (2 ^ 64 - 1) ∧
      ∀ call, (∀ key, (∀ range ∈ ((singleGroup groupId).performAll calls).named call, range.contains key = false) →
          (((singleGroup groupId).performAll calls).perform call).2.lookup key =
            ((singleGroup groupId).performAll calls).lookup key) ∧
        ((((singleGroup groupId).performAll calls).perform call).1.toBool = false →
          (((singleGroup groupId).performAll calls).perform call).2 = (singleGroup groupId).performAll calls) := by
  refine ⟨((tiled_singleGroup groupId).performAll calls).partitions, ?_, fun call => ⟨?_, ?_⟩⟩
  · apply metaEpoch_performAll
    exact (by decide : 1 ≤ 2 ^ 64 - 1)
  · exact lookup_perform _ call
  · have outcome := ((singleGroup groupId).performAll calls).perform_outcome call
    generalize ((singleGroup groupId).performAll calls).perform call = result at outcome ⊢
    cases outcome with
    | failed why => exact fun _ => rfl
    | done _ _ _ _ _ => exact nofun

end StaticRangeTable
end KayaDB.Raft
