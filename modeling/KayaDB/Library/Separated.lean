import Mathlib.Algebra.Ring.Nat
import Mathlib.Algebra.Order.BigOperators.Group.List
import Mathlib.Algebra.Order.Ring.Nat
import Mathlib.Data.List.DropRight

/-! Lists put together with a separator and taken apart at it, and lists with what a
predicate holds of dropped at both ends. -/

namespace KayaDB.Separated

variable {α : Type} {sep : α} {part : List α} {parts kept : List (List α)}

theorem intercalate_cons (part : List α) (parts : List (List α)) :
    [sep].intercalate (part :: parts) = part ++ parts.flatMap fun part => sep :: part := by
  induction parts generalizing part with
  | nil => simp
  | cons second rest ih => simp [List.intercalate_cons_cons, ih]

theorem mem_intercalate {item : α} (inside : item ∈ [sep].intercalate parts) :
    item = sep ∨ ∃ part ∈ parts, item ∈ part := by
  cases parts with
  | nil => simp at inside
  | cons first rest =>
    simp only [intercalate_cons, List.mem_append, List.mem_flatMap, List.mem_cons] at inside
    obtain front | ⟨part, member, same | held⟩ := inside
    · exact .inr ⟨first, by simp, front⟩
    · exact .inl same
    · exact .inr ⟨part, List.mem_cons_of_mem _ member, held⟩

theorem intercalate_append (nonempty : kept ≠ []) (more : parts ≠ []) :
    [sep].intercalate (kept ++ parts) = [sep].intercalate kept ++ sep :: [sep].intercalate parts := by
  obtain ⟨first, rest, rfl⟩ := List.exists_cons_of_ne_nil nonempty
  obtain ⟨second, later, rfl⟩ := List.exists_cons_of_ne_nil more
  simp [intercalate_cons]

theorem length_intercalate (sep : α) (parts : List (List α)) :
    ([sep].intercalate parts).length = (parts.map fun part => part.length + 1).sum - 1 := by
  cases parts with
  | nil => rfl
  | cons first rest =>
    simp only [intercalate_cons, List.length_append, List.length_flatMap, List.length_cons, List.map_cons, List.sum_cons]
    omega

theorem length_intercalate_le (sep : α) (sublist : kept.Sublist parts) :
    ([sep].intercalate kept).length ≤ ([sep].intercalate parts).length := by
  have less := (sublist.map fun part => part.length + 1).sum_le_sum (by simp)
  simp only [length_intercalate]
  omega

theorem mem_splitOn [BEq α] [LawfulBEq α] {whole : List α} (piece : part ∈ whole.splitOn sep) :
    sep ∉ part ∧ part ⊆ whole := by
  by_cases inside : sep ∈ whole
  · obtain ⟨front, back, rfl⟩ := List.append_of_mem inside
    rw [List.splitOn_append_cons_self, List.mem_append] at piece
    obtain early | late := piece
    · have held := mem_splitOn early
      exact ⟨held.1, List.subset_append_of_subset_left _ held.2⟩
    · have held := mem_splitOn late
      exact ⟨held.1, List.subset_append_of_subset_right _ (List.subset_cons_of_subset _ held.2)⟩
  · rw [List.splitOn_eq_singleton inside, List.mem_singleton] at piece
    rw [piece]
    exact ⟨inside, List.Subset.refl _⟩
termination_by whole.length

theorem dropEnds_eq_self_iff {whole : List α} {drop : α → Bool} : (whole.dropWhile drop).rdropWhile drop = whole ↔
    whole.head?.any drop = false ∧ whole.getLast?.any drop = false := by
  have first : whole.dropWhile drop = whole ↔ whole.head?.any drop = false := by
    rw [List.dropWhile_eq_self_iff]
    cases whole <;> simp
  have last : whole.rdropWhile drop = whole ↔ whole.getLast?.any drop = false := by
    rw [List.rdropWhile_eq_self_iff]
    cases whole using List.reverseRecOn <;> simp
  rw [← first, ← last]
  constructor
  · intro same
    have front : whole.dropWhile drop = whole := by
      refine (whole.dropWhile_suffix drop).sublist.antisymm ?_
      nth_rewrite 1 [← same]
      exact (List.rdropWhile_prefix _ _).sublist
    rw [front] at same
    exact ⟨front, same⟩
  · intro ⟨front, back⟩
    rw [front, back]

end KayaDB.Separated
