import Mathlib.Data.List.Basic
import Mathlib.Data.List.Infix

/-! Rules for the words that begin with a given front. The first rule that applies
decides, which is the longest one when rules are ordered by length. -/

namespace KayaDB.PrefixRules

variable {α β : Type*} [DecidableEq α] {rules : List (List α × β)} {rule : List α × β} {word front : List α}

def firstMatch (rules : List (List α × β)) (word : List α) : Option (List α × β) :=
  rules.find? fun rule => decide (rule.1 <+: word)

section
variable (found : firstMatch rules word = some rule)
include found

theorem mem_of_firstMatch : rule ∈ rules := List.mem_of_find?_eq_some found

theorem isPrefix_of_firstMatch : rule.1 <+: word := by
  unfold firstMatch at found
  simpa using List.find?_some found

/-- The rule of a word is also the rule of each front of the word it applies to. -/
theorem firstMatch_front (within : rule.1 <+: front) (begins : front <+: word) :
    firstMatch rules front = some rule := by
  obtain ⟨-, before, after, rfl, none_⟩ := List.find?_eq_some_iff_append.mp found
  refine List.find?_eq_some_iff_append.mpr ⟨decide_eq_true within, before, after, rfl, fun other inside => ?_⟩
  have outside := none_ other inside
  simp only [Bool.not_eq_eq_eq_not, Bool.not_true, decide_eq_false_iff_not] at outside ⊢
  exact fun applies => outside (applies.trans begins)

/-- A word gets the rule of the front, unless a rule is about some of the words that
begin with the front; then it gets the rule of that rule's own front. -/
theorem firstMatch_cases (begins : front <+: word) :
    firstMatch rules front = some rule ∨ front <+: rule.1 ∧ firstMatch rules rule.1 = some rule := by
  have applies := isPrefix_of_firstMatch found
  rcases List.prefix_or_prefix_of_prefix applies begins with within | beyond
  · exact Or.inl (firstMatch_front found within begins)
  · exact Or.inr ⟨beyond, firstMatch_front found List.prefix_rfl applies⟩

end

theorem firstMatch_isSome (found : firstMatch rules front = some rule) (begins : front <+: word) :
    (firstMatch rules word).isSome := by
  refine List.find?_isSome.mpr ⟨rule, mem_of_firstMatch found, decide_eq_true ?_⟩
  exact (isPrefix_of_firstMatch found).trans begins

end KayaDB.PrefixRules
