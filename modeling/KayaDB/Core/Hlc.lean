import Mathlib.Algebra.Ring.Nat
import Mathlib.Data.List.Pairwise

/-! The hybrid logical clock: milliseconds and a counter of 16 bits for stamps
within one of them. The counter stays at its end, so stamps repeat when it is
there and the milliseconds do not move on. -/

namespace KayaDB.Core

structure Hlc where
  physicalMs : Nat
  logical : Nat
  small : logical < 2 ^ 16
deriving DecidableEq

structure ClockSkewExceeded where
  localNowMs : Nat
  remotePhysicalMs : Nat
  maxOffsetMs : Nat
deriving DecidableEq, Repr

namespace Hlc

def Before (first second : Hlc) : Prop :=
  first.physicalMs < second.physicalMs ∨ first.physicalMs = second.physicalMs ∧ first.logical < second.logical

def zero : Hlc := ⟨0, 0, by decide⟩

def countUp (logical : Nat) : Nat := min (logical + 1) (2 ^ 16 - 1)

theorem countUp_lt (logical : Nat) : countUp logical < 2 ^ 16 := by
  unfold countUp
  omega

def latest (clock : Hlc) (nowMs : Nat) (remote : Hlc) : Nat := max (max nowMs clock.physicalMs) remote.physicalMs

def updateLogical (clock remote : Hlc) (pt : Nat) : Nat :=
  if pt = clock.physicalMs ∧ pt = remote.physicalMs then countUp (max clock.logical remote.logical)
  else if pt = clock.physicalMs then countUp clock.logical
  else if pt = remote.physicalMs then countUp remote.logical
  else 0

theorem updateLogical_lt (clock remote : Hlc) (pt : Nat) : updateLogical clock remote pt < 2 ^ 16 := by
  unfold updateLogical
  split_ifs
  · exact countUp_lt _
  · exact countUp_lt _
  · exact countUp_lt _
  · decide

def update (clock : Hlc) (nowMs : Nat) (remote : Option Hlc) : Hlc :=
  let remote := remote.getD zero
  let pt := clock.latest nowMs remote
  ⟨pt, updateLogical clock remote pt, updateLogical_lt clock remote pt⟩

def tick (clock : Hlc) (nowMs : Nat) : Hlc := clock.update nowMs none

/-- A remote sample too far ahead of the wall clock is refused. The sum of machine
words stays at their end. -/
def checkedUpdate (clock : Hlc) (nowMs : Nat) (remote : Option Hlc) (maxOffsetMs : Nat) :
    Hlc × Except ClockSkewExceeded Hlc :=
  match remote.filter fun sample => min (nowMs + maxOffsetMs) (2 ^ 64 - 1) < sample.physicalMs with
  | some sample => (clock, .error ⟨nowMs, sample.physicalMs, maxOffsetMs⟩)
  | none => (clock.update nowMs remote, .ok (clock.update nowMs remote))

def toU64 (clock : Hlc) : Nat := min clock.physicalMs (2 ^ 48 - 1) <<< 16 ||| clock.logical

inductive Event where
  | tick (nowMs : Nat)
  | update (nowMs : Nat) (remote : Option Hlc)
  | checkedUpdate (nowMs : Nat) (remote : Option Hlc) (maxOffsetMs : Nat)

def Event.nowMs : Event → Nat
  | tick nowMs | update nowMs _ | checkedUpdate nowMs _ _ => nowMs

def Event.remote : Event → Option Hlc
  | tick _ => none
  | update _ remote | checkedUpdate _ remote _ => remote

def Event.Small (event : Event) : Prop := event.nowMs < 2 ^ 48 ∧ ∀ remote ∈ event.remote, remote.physicalMs < 2 ^ 48

def apply (clock : Hlc) : Event → Hlc × Except ClockSkewExceeded Hlc
  | .tick nowMs => (clock.tick nowMs, .ok (clock.tick nowMs))
  | .update nowMs remote => (clock.update nowMs remote, .ok (clock.update nowMs remote))
  | .checkedUpdate nowMs remote maxOffsetMs => clock.checkedUpdate nowMs remote maxOffsetMs

def run (clock : Hlc) (events : List Event) : Hlc := events.foldl (fun clock event => (clock.apply event).1) clock

/-- The timestamps produced, each with the remote one that was merged. -/
def trace : Hlc → List Event → List (Option Hlc × Hlc)
  | _, [] => []
  | clock, event :: rest =>
    match clock.apply event with
    | (after, .ok produced) => (event.remote, produced) :: trace after rest
    | (after, .error _) => trace after rest

/-- Timestamps rise above all earlier ones and above what they merge, packed or
not, and a refused sample changes nothing. -/
structure Monotone (events : List Event) : Prop where
  rising : ((trace zero events).map Prod.snd).Pairwise Before
  merged : ∀ entry ∈ trace zero events, ∀ remote ∈ entry.1, Before remote entry.2
  packedRising : ((trace zero events).map fun entry => entry.2.toU64).Pairwise (· < ·)
  packedMerged : ∀ entry ∈ trace zero events, ∀ remote ∈ entry.1, remote.toU64 < entry.2.toU64
  unchanged : ∀ before event after, events = before ++ event :: after →
    ∀ error, ((zero.run before).apply event).2 = .error error → ((zero.run before).apply event).1 = zero.run before

/-- Neither the clock nor the remote sample has the latest milliseconds and its
counter at the end. -/
def Room (clock : Hlc) (nowMs : Nat) (remote : Option Hlc) : Prop :=
  ∀ sample ∈ [clock, remote.getD zero],
    sample.physicalMs = clock.latest nowMs (remote.getD zero) → sample.logical < 2 ^ 16 - 1

def HasRoom : Hlc → List Event → Prop
  | _, [] => True
  | clock, event :: rest =>
    match clock.apply event with
    | (after, .ok _) => Room clock event.nowMs event.remote ∧ HasRoom after rest
    | (after, .error _) => HasRoom after rest

variable {clock first second third : Hlc} {nowMs : Nat} {remote : Option Hlc} {event : Event} {events : List Event}

theorem Before.trans (left : Before first second) (right : Before second third) : Before first third := by
  unfold Before at left right ⊢
  omega

theorem Before.irrefl (clock : Hlc) : ¬ Before clock clock := by
  unfold Before
  omega

theorem Before.ne (before : Before first second) : second ≠ first := by
  rintro rfl
  exact Before.irrefl _ before

theorem toU64_eq (small : clock.physicalMs < 2 ^ 48) : clock.toU64 = clock.physicalMs * 2 ^ 16 + clock.logical := by
  unfold toU64
  rw [Nat.min_eq_left (by omega), ← Nat.shiftLeft_add_eq_or_of_lt clock.small, Nat.shiftLeft_eq]

theorem Before.toU64_lt (before : Before first second) (small : second.physicalMs < 2 ^ 48) : first.toU64 < second.toU64 := by
  have bound := first.small
  unfold Before at before
  rw [toU64_eq (by omega), toU64_eq small]
  omega

theorem le_latest : clock.physicalMs ≤ clock.latest nowMs second ∧ second.physicalMs ≤ clock.latest nowMs second := by
  unfold latest
  omega

theorem zero_before_update (clock : Hlc) (nowMs : Nat) (remote : Option Hlc) : Before zero (clock.update nowMs remote) := by
  have bounds := @le_latest clock (remote.getD zero) nowMs
  have start : zero.physicalMs = 0 ∧ zero.logical = 0 := ⟨rfl, rfl⟩
  unfold Before update updateLogical countUp
  dsimp only
  split_ifs <;> omega

theorem Room.before (room : Room clock nowMs remote) :
    Before clock (clock.update nowMs remote) ∧ Before (remote.getD zero) (clock.update nowMs remote) := by
  have bounds := @le_latest clock (remote.getD zero) nowMs
  have own := room clock List.mem_cons_self
  have other := room (remote.getD zero) (List.mem_cons_of_mem _ List.mem_cons_self)
  unfold Before update updateLogical countUp
  dsimp only
  split_ifs <;> omega

theorem eq_update {sample : Hlc} (top : sample.physicalMs = clock.latest nowMs (remote.getD zero))
    (logical : updateLogical clock (remote.getD zero) sample.physicalMs = sample.logical) :
    clock.update nowMs remote = sample := by
  obtain ⟨physicalMs, counter, small⟩ := sample
  dsimp only at top logical
  subst top logical
  rfl

theorem update_of_not_room (full : ¬ Room clock nowMs remote) :
    clock.update nowMs remote = clock ∨ remote = some (clock.update nowMs remote) := by
  simp only [Room, not_forall, not_lt] at full
  obtain ⟨sample, listed, top, high⟩ := full
  have bound := sample.small
  simp only [List.mem_cons, List.not_mem_nil, or_false] at listed
  rcases listed with rfl | rfl
  · refine .inl (eq_update top ?_)
    have other := (remote.getD zero).small
    unfold updateLogical countUp
    split_ifs <;> omega
  · right
    cases remote with
    | none => exact absurd high (by decide)
    | some sample =>
      refine congrArg some (eq_update top ?_).symm
      have other := clock.small
      simp only [Option.getD_some] at bound high ⊢
      unfold updateLogical countUp
      split_ifs <;> omega

theorem apply_cases (clock : Hlc) (event : Event) :
    clock.apply event = (clock.update event.nowMs event.remote, .ok (clock.update event.nowMs event.remote)) ∨
      ∃ error, clock.apply event = (clock, .error error) := by
  cases event with
  | tick nowMs => exact .inl rfl
  | update nowMs remote => exact .inl rfl
  | checkedUpdate nowMs remote maxOffsetMs =>
    unfold apply checkedUpdate
    dsimp only
    split
    next sample _ => exact .inr ⟨_, rfl⟩
    next => exact .inl rfl

/-- What a run from this clock produces rises above the clock and above what it
merges exactly if there is room at every step. -/
theorem rising_iff (clock : Hlc) (events : List Event) :
    ((clock :: (trace clock events).map Prod.snd).Pairwise Before ∧
      ∀ entry ∈ trace clock events, ∀ remote ∈ entry.1, Before remote entry.2) ↔ HasRoom clock events := by
  induction events generalizing clock with
  | nil => simp [trace, HasRoom]
  | cons event rest ih =>
    unfold trace HasRoom
    rcases clock.apply_cases event with updated | ⟨error, refused⟩
    · rw [updated]
      dsimp only
      rw [← ih, List.map_cons, List.pairwise_cons]
      constructor
      · rintro ⟨⟨above, rising⟩, merged⟩
        obtain ⟨own, others⟩ := List.forall_mem_cons.mp merged
        refine ⟨by_contra fun full => ?_, rising, others⟩
        rcases update_of_not_room full with same | same
        · exact (above _ List.mem_cons_self).ne same
        · exact Before.irrefl _ (own _ same)
      · rintro ⟨room, rising, others⟩
        refine ⟨⟨fun later inside => ?_, rising⟩, List.forall_mem_cons.mpr ⟨fun remote given => ?_, others⟩⟩
        · rcases List.mem_cons.mp inside with rfl | behind
          · exact room.before.1
          · exact room.before.1.trans ((List.pairwise_cons.mp rising).1 later behind)
        · have named : event.remote.getD zero = remote := by rw [show event.remote = some remote from given, Option.getD_some]
          exact named ▸ room.before.2
    · rw [refused]
      exact ih clock

theorem zero_before_trace (clock : Hlc) (events : List Event) : ∀ entry ∈ trace clock events, Before zero entry.2 := by
  induction events generalizing clock with
  | nil =>
    intro entry inside
    cases inside
  | cons event rest ih =>
    unfold trace
    rcases clock.apply_cases event with updated | ⟨error, refused⟩
    · rw [updated]
      exact List.forall_mem_cons.mpr ⟨zero_before_update clock _ _, ih _⟩
    · rw [refused]
      exact ih clock

theorem small_trace (events : List Event) : ∀ clock : Hlc, clock.physicalMs < 2 ^ 48 → (∀ event ∈ events, event.Small) →
    ∀ entry ∈ trace clock events, entry.2.physicalMs < 2 ^ 48 := by
  induction events with
  | nil =>
    intro clock _ _ entry inside
    cases inside
  | cons event rest ih =>
    intro clock early small
    obtain ⟨⟨wall, sampled⟩, later⟩ := List.forall_mem_cons.mp small
    have next : (clock.update event.nowMs event.remote).physicalMs < 2 ^ 48 := by
      have sample : (event.remote.getD zero).physicalMs < 2 ^ 48 := by
        cases given : event.remote with
        | none => decide
        | some sample => exact sampled sample given
      unfold update latest
      dsimp only
      omega
    unfold trace
    rcases clock.apply_cases event with updated | ⟨error, refused⟩
    · rw [updated]
      exact List.forall_mem_cons.mpr ⟨next, ih _ next later⟩
    · rw [refused]
      exact ih clock early later

/-- The clock is strictly monotone as long as no counter at its end has to be
counted up. -/
theorem monotone_iff (small : ∀ event ∈ events, event.Small) : Monotone events ↔ HasRoom zero events := by
  rw [← rising_iff, List.pairwise_cons]
  constructor
  · intro monotone
    refine ⟨⟨fun later inside => ?_, monotone.rising⟩, monotone.merged⟩
    obtain ⟨entry, listed, rfl⟩ := List.mem_map.mp inside
    exact zero_before_trace zero events entry listed
  · rintro ⟨⟨-, rising⟩, merged⟩
    have bounds := small_trace events zero (by decide) small
    refine ⟨rising, merged, ?_, fun entry inside remote given => ?_, ?_⟩
    · rw [List.pairwise_map] at rising ⊢
      exact rising.imp_of_mem fun _ inside before => before.toU64_lt (bounds _ inside)
    · exact (merged entry inside remote given).toU64_lt (bounds entry inside)
    · intro before event after _ error failed
      rcases (zero.run before).apply_cases event with updated | ⟨_, refused⟩
      · rw [updated] at failed
        cases failed
      · rw [refused]

/-- Two ticks while the wall clock goes back, and a sample from ahead. -/
theorem monotone_backwards : Monotone [.tick 5, .tick 3, .checkedUpdate 4 (some ⟨9, 7, by decide⟩) 10] := by
  have small : ∀ event ∈ [Event.tick 5, .tick 3, .checkedUpdate 4 (some ⟨9, 7, by decide⟩) 10], event.Small := by
    simp [Event.Small, Event.nowMs, Event.remote]
  refine (monotone_iff small).mpr ⟨?_, ?_, ?_, trivial⟩
  · unfold Room
    decide
  · unfold Room
    decide
  · unfold Room
    decide

/-- A sample whose counter is at its end is not exceeded. -/
theorem full_sample_not_monotone : ¬ Monotone [.update 5 (some ⟨5, 2 ^ 16 - 1, by decide⟩)] := by
  intro monotone
  exact Before.irrefl _ (monotone.merged _ List.mem_cons_self _ rfl)

end Hlc

end KayaDB.Core
