import Mathlib.Algebra.Ring.Nat
import Mathlib.Data.List.Induction
import Mathlib.Order.Basic

/-! Compare-and-swap on a versioned state. A swap takes effect only while the state has
the version it was made on. In a log of swaps the first for each version takes effect,
and the log may be replayed from any state it went through. -/

namespace KayaDB.Swaps
variable {σ : Type}

structure Swap (σ : Type) where
  base : Nat
  value : σ

variable (version : σ → Nat)

def apply (state : σ) (swap : Swap σ) : σ := if version state = swap.base then swap.value else state

def run (state : σ) (log : List (Swap σ)) : σ := log.foldl (apply version) state

/-- Each swap of the log was made on the state after a part of the log before it,
and has a newer version; only the last may have its base's. -/
structure Made (start : σ) (log : List (Swap σ)) : Prop where
  origin : ∀ front swap back, log = front ++ swap :: back →
    ∃ earlier, earlier <+: front ∧ swap.base = version (run version start earlier)
  notOlder : ∀ swap ∈ log, swap.base ≤ version swap.value
  newer : ∀ front swap back, log = front ++ swap :: back → back ≠ [] → swap.base < version swap.value

variable {version} {start state : σ} {log front later : List (Swap σ)} {swap : Swap σ}

theorem run_append (state : σ) (front back : List (Swap σ)) :
    run version state (front ++ back) = run version (run version state front) back := List.foldl_append

theorem run_cons (state : σ) (swap : Swap σ) (back : List (Swap σ)) :
    run version state (swap :: back) = run version (apply version state swap) back := rfl

theorem run_eq_self (others : ∀ swap ∈ log, swap.base ≠ version state) : run version state log = state := by
  induction log with
  | nil => rfl
  | cons swap log ih =>
    rw [run_cons, apply, if_neg (Ne.symm (others swap List.mem_cons_self))]
    exact ih fun other inside => others other (List.mem_cons_of_mem _ inside)

theorem version_le_run (notOlder : ∀ swap ∈ log, swap.base ≤ version swap.value) :
    version state ≤ version (run version state log) := by
  induction log generalizing state with
  | nil => exact le_rfl
  | cons swap log ih =>
    refine le_trans ?_ (ih fun other inside => notOlder other (List.mem_cons_of_mem _ inside))
    unfold apply
    split
    next same => exact same ▸ notOlder swap List.mem_cons_self
    next => exact le_rfl

namespace Made

variable {back : List (Swap σ)}

section
variable (made : Made version start log)
include made

theorem version_le (inside : front ++ later <+: log) :
    version (run version start front) ≤ version (run version start (front ++ later)) := by
  rw [run_append]
  apply version_le_run
  exact fun swap member => made.notOlder swap (inside.subset (List.mem_append_right _ member))

/-- The first swap for its version finds the state it was made on. -/
theorem first (split : log = front ++ swap :: back) (unused : ∀ earlier ∈ front, earlier.base ≠ swap.base) :
    version (run version start front) = swap.base := by
  obtain ⟨earlier, ⟨between, rfl⟩, made⟩ := made.origin front swap back split
  rw [run_append, run_eq_self, made]
  intro other inside
  rw [← made]
  exact unused other (List.mem_append_right _ inside)

theorem base_lt (front : List (Swap σ)) :
    ∀ {back}, log = front ++ back → back ≠ [] → ∀ swap ∈ front, swap.base < version (run version start front) := by
  induction front using List.reverseRecOn with
  | nil =>
    intro back _ _ swap inside
    cases inside
  | append_singleton front last ih =>
    intro back split more swap inside
    have cut : log = front ++ last :: back := by simpa using split
    have grown : version (run version start front) ≤ version (run version start (front ++ [last])) :=
      made.version_le ⟨back, split.symm⟩
    have earlier := ih cut (List.cons_ne_nil _ _)
    rcases List.mem_append.mp inside with before | same
    · exact (earlier swap before).trans_le grown
    · obtain rfl : swap = last := List.mem_singleton.mp same
      by_cases unused : ∀ earlier ∈ front, earlier.base ≠ swap.base
      · rw [run_append, run_cons, apply, if_pos (made.first cut unused)]
        exact made.newer front swap back cut more
      · simp only [not_forall, not_not] at unused
        obtain ⟨other, before, same⟩ := unused
        exact same ▸ (earlier other before).trans_le grown

/-- A state that is as new as the one after a part of the log is not changed by that part. -/
theorem run_front (split : log = front ++ back) (more : back ≠ [])
    (reached : version (run version start front) ≤ version state) : run version state front = state := by
  apply run_eq_self
  exact fun swap inside => ((made.base_lt front split more swap inside).trans_le reached).ne

theorem replay (inside : front <+: log) : run version (run version start front) log = run version start log := by
  obtain ⟨back, rfl⟩ := inside
  by_cases more : back = []
  · cases more
    rw [List.append_nil] at made ⊢
    -- The last swap may have its base's version, so that it is done once more.
    cases front using List.reverseRecOn with
    | nil => rfl
    | append_singleton others last =>
      have grown := made.version_le (List.prefix_refl (others ++ [last]))
      rw [run_append _ others, made.run_front rfl (List.cons_ne_nil _ _) grown]
      change apply version _ last = _
      unfold apply
      split
      next again =>
        obtain ⟨earlier, ⟨between, whole⟩, origin⟩ := made.origin others last [] rfl
        have reached : last.base ≤ version (run version start others) := by
          rw [origin, ← whole]
          exact made.version_le ⟨[last], by rw [whole]⟩
        have found : version (run version start others) = last.base := le_antisymm (again ▸ grown) reached
        rw [run_append, run_cons, apply, if_pos found]
        rfl
      next => rfl
  · rw [run_append, made.run_front rfl more le_rfl, ← run_append]

end

end Made

end KayaDB.Swaps
