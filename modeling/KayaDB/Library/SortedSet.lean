import Mathlib.Data.List.Sort
import Mathlib.Data.List.Dedup
import Mathlib.Data.Finset.Card

/-! Finite sets kept as strictly increasing lists. Iteration order is part of
the value, as it is for a balanced-tree set, and every operation computes. -/

/-- The ordering proof travels with the elements, so no operation can produce
a set that lists an element twice. -/
structure SortedSet (α : Type*) [LinearOrder α] where
  elems : List α
  sorted : elems.Pairwise (· < ·)
deriving DecidableEq

namespace SortedSet
variable {α : Type*} [LinearOrder α]
variable (set : SortedSet α)

private theorem increasing (items : List α) : (items.dedup.insertionSort (· ≤ ·)).Pairwise (· < ·) := by
  have distinct : (items.dedup.insertionSort (· ≤ ·)).Nodup :=
    (List.perm_insertionSort (· ≤ ·) items.dedup).nodup_iff.mpr (List.nodup_dedup items)
  have ordered := List.pairwise_insertionSort (· ≤ ·) items.dedup
  exact ordered.imp₂ (fun _ _ below different => lt_of_le_of_ne below different) distinct

def ofList (items : List α) : SortedSet α := ⟨items.dedup.insertionSort (· ≤ ·), increasing items⟩

def toFinset (set : SortedSet α) : Finset α := set.elems.toFinset

instance : Membership α (SortedSet α) := ⟨fun set item => item ∈ set.elems⟩

instance (item : α) (set : SortedSet α) : Decidable (item ∈ set) := inferInstanceAs (Decidable (item ∈ set.elems))

def card : Nat := set.elems.length

def insert (item : α) (set : SortedSet α) : SortedSet α := ofList (item :: set.elems)

def union (first second : SortedSet α) : SortedSet α := ofList (first.elems ++ second.elems)

theorem mem_def (item : α) (set : SortedSet α) : item ∈ set ↔ item ∈ set.elems := Iff.rfl

@[simp] theorem mem_ofList (item : α) (items : List α) : item ∈ ofList items ↔ item ∈ items := by
  simp [mem_def, ofList]

@[simp] theorem mem_insert (item other : α) (set : SortedSet α) :
    item ∈ set.insert other ↔ item = other ∨ item ∈ set := by
  rw [insert, mem_ofList, List.mem_cons, mem_def]

@[simp] theorem mem_union (item : α) (first second : SortedSet α) :
    item ∈ first.union second ↔ item ∈ first ∨ item ∈ second := by
  rw [union, mem_ofList, List.mem_append, mem_def, mem_def]

@[simp] theorem mem_toFinset (item : α) (set : SortedSet α) : item ∈ set.toFinset ↔ item ∈ set := by
  simp [toFinset, mem_def]

theorem nodup : set.elems.Nodup := set.sorted.imp ne_of_lt

theorem card_toFinset : set.toFinset.card = set.card :=
  List.toFinset_card_of_nodup set.nodup

theorem countP_eq_card_filter (test : α → Bool) :
    set.elems.countP test = (set.toFinset.filter (fun item => test item)).card := by
  rw [List.countP_eq_length_filter, toFinset, ← List.toFinset_filter, List.toFinset_card_of_nodup]
  exact set.nodup.filter _

@[ext] theorem ext {first second : SortedSet α} (same : ∀ item, item ∈ first ↔ item ∈ second) : first = second := by
  have elems : first.elems = second.elems := by
    refine List.Perm.eq_of_pairwise ?_ first.sorted second.sorted ?_
    · intro a b _ _ before after
      exact absurd after (lt_asymm before)
    · exact (List.perm_ext_iff_of_nodup first.nodup second.nodup).mpr same
  cases first; cases second
  simpa using elems

end SortedSet
