import Mathlib.Data.List.Infix
import Mathlib.Tactic.Common

/-! Logs as lists compared by prefix. A follower adopts a leader's prefix by
keeping its own log when the prefix is already there, and otherwise by giving
up its log for the prefix. -/

namespace List
variable {α : Type*}
  {count : Nat} {first second : List α}

theorem take_prefix_of_prefix (inside : first <+: second) (short : count ≤ first.length) :
    second.take count = first.take count := by
  obtain ⟨rest, rfl⟩ := inside
  exact List.take_append_of_le_length short

theorem take_prefix_iff (short : count ≤ first.length) :
    first.take count <+: second ↔ count ≤ second.length ∧ second.take count = first.take count := by
  constructor
  · intro inside
    have length : (first.take count).length = count := List.length_take_of_le short
    refine ⟨length ▸ inside.length_le, ?_⟩
    have whole := List.prefix_iff_eq_take.mp inside
    rw [length] at whole
    exact whole.symm
  · rintro ⟨-, same⟩
    exact same ▸ List.take_prefix count second

theorem prefix_of_getElem?_take (same : first.take count = second.take count) {index : Nat} (below : index < count) :
    first[index]? = second[index]? := by
  have left : (first.take count)[index]? = first[index]? := List.getElem?_take_of_lt below
  have right : (second.take count)[index]? = second[index]? := List.getElem?_take_of_lt below
  rw [← left, ← right, same]

end List

/-- Keep the own log if the offered prefix is part of it; otherwise replace it. -/
noncomputable def adopt {α : Type*} (own offered : List α) : List α :=
  open Classical in if offered <+: own then own else offered

section
variable {α : Type*} {own offered kept : List α}

theorem adopt_of_inside (inside : offered <+: own) : adopt own offered = own := by
  rw [adopt, if_pos inside]

theorem adopt_of_outside (outside : ¬ offered <+: own) : adopt own offered = offered := by
  rw [adopt, if_neg outside]

theorem adopt_of_longer (inside : own <+: offered) : adopt own offered = offered := by
  by_cases back : offered <+: own
  · rw [adopt_of_inside back]
    exact inside.eq_of_length (Nat.le_antisymm inside.length_le back.length_le)
  · exact adopt_of_outside back

theorem adopt_cases (own offered : List α) :
    adopt own offered = own ∧ offered <+: own ∨ adopt own offered = offered ∧ ¬ offered <+: own := by
  by_cases inside : offered <+: own
  · exact Or.inl ⟨adopt_of_inside inside, inside⟩
  · exact Or.inr ⟨adopt_of_outside inside, inside⟩

theorem offered_prefix_adopt (own offered : List α) : offered <+: adopt own offered := by
  rcases adopt_cases own offered with ⟨same, inside⟩ | ⟨same, _⟩
  · rw [same]
    exact inside
  · rw [same]

theorem kept_prefix_adopt {source : List α} (held : kept <+: own) (shared : kept <+: source)
    (part : offered <+: source) : kept <+: adopt own offered := by
  rcases adopt_cases own offered with ⟨same, _⟩ | ⟨same, outside⟩
  · rw [same]
    exact held
  · rw [same]
    rcases List.prefix_or_prefix_of_prefix shared part with below | above
    · exact below
    · exact absurd (above.trans held) outside

end
