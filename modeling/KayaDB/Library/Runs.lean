import Mathlib.Logic.Relation

/-! Runs of a machine that takes events one by one, restricted to the events an
environment allows in each state. -/

namespace KayaDB.Runs

variable {State Event : Type*} {step : State → Event → State} {allowed : State → Event → Prop}

abbrev Reaches (step : State → Event → State) (allowed : State → Event → Prop) : State → State → Prop :=
  Relation.ReflTransGen fun before after => ∃ event, allowed before event ∧ after = step before event

/-- All events of the list are allowed when their turn comes. -/
def Permits (step : State → Event → State) (allowed : State → Event → Prop) : State → List Event → Prop
  | _, [] => True
  | state, event :: rest => allowed state event ∧ Permits step allowed (step state event) rest

instance decidablePermits [∀ state event, Decidable (allowed state event)] :
    ∀ state events, Decidable (Permits step allowed state events)
  | _, [] => isTrue trivial
  | state, event :: rest =>
    have := decidablePermits (step state event) rest
    inferInstanceAs (Decidable (_ ∧ _))

theorem Permits.reaches {events : List Event} : ∀ {state : State}, Permits step allowed state events →
    Reaches step allowed state (events.foldl step state) := by
  induction events with
  | nil => exact fun _ => .refl
  | cons event rest ih =>
    intro state permits
    exact Relation.ReflTransGen.head ⟨event, permits.1, rfl⟩ (ih permits.2)

theorem Reaches.invariant (Keeps : State → Prop) {first last : State} (reached : Reaches step allowed first last)
    (start : Keeps first) (each : ∀ {state event}, Keeps state → allowed state event → Keeps (step state event)) :
    Keeps last := by
  induction reached with
  | refl => exact start
  | tail _ moved ih =>
    obtain ⟨event, permitted, rfl⟩ := moved
    exact each ih permitted

end KayaDB.Runs
