import Mathlib.Data.Finset.Card
import Mathlib.Data.Set.Insert
import Mathlib.Algebra.Ring.Parity
import Mathlib.Algebra.Order.Ring.Nat
import Mathlib.Tactic.Common

/-! Majorities and single votes per term. The history of ballots outlives the
term in which they were cast, so a winner stays a winner for good. -/

section Majority
variable {Node : Type*}
  {electorate : Finset Node}

def Majority (electorate quorum : Finset Node) : Prop :=
  quorum ⊆ electorate ∧ electorate.card < 2 * quorum.card

theorem Majority.meet [DecidableEq Node] {first second : Finset Node} (left : Majority electorate first)
    (right : Majority electorate second) : ∃ node, node ∈ first ∧ node ∈ second := by
  have together : (first ∪ second).card ≤ electorate.card :=
    Finset.card_le_card (Finset.union_subset left.1 right.1)
  have counted := Finset.card_union_add_card_inter first second
  have shared : 0 < (first ∩ second).card := by
    have := left.2
    have := right.2
    omega
  obtain ⟨node, inside⟩ := Finset.card_pos.mp shared
  exact ⟨node, Finset.mem_inter.mp inside⟩

theorem Majority.of_half {quorum : Finset Node} (odd : Odd electorate.card) (subset : quorum ⊆ electorate)
    (half : (electorate.card + 1) / 2 ≤ quorum.card) : Majority electorate quorum := by
  refine ⟨subset, ?_⟩
  obtain ⟨count, same⟩ := odd
  omega

end Majority

/-- Each node's term and its vote in that term, with all ballots ever cast as
triples of term, voter and candidate. -/
structure Polls (Node : Type*) where
  term : Node → Nat
  vote : Node → Option Node
  ballots : Set (Nat × Node × Node)

namespace Polls
variable {Node : Type*} [DecidableEq Node]
  {term : Nat} {node : Node} {polls : Polls Node}

structure Valid (polls : Polls Node) : Prop where
  recorded : ∀ term voter candidate, (term, voter, candidate) ∈ polls.ballots →
    term ≤ polls.term voter ∧ (polls.term voter = term → polls.vote voter = some candidate)
  unique : ∀ term voter first second, (term, voter, first) ∈ polls.ballots →
    (term, voter, second) ∈ polls.ballots → first = second

def advance (polls : Polls Node) (node : Node) (term : Nat) : Polls Node :=
  { polls with
    term := Function.update polls.term node term
    vote := Function.update polls.vote node none }

def cast (polls : Polls Node) (node candidate : Node) : Polls Node :=
  { polls with
    vote := Function.update polls.vote node (some candidate)
    ballots := insert (polls.term node, node, candidate) polls.ballots }

theorem Valid.advance (valid : polls.Valid) (later : polls.term node < term) : (polls.advance node term).Valid := by
  refine ⟨?_, valid.unique⟩
  intro old voter candidate ballot
  obtain ⟨past, same⟩ := valid.recorded old voter candidate ballot
  by_cases own : voter = node
  · subst voter
    simp only [Polls.advance, Function.update_self]
    exact ⟨by omega, fun equal => by omega⟩
  · simpa only [Polls.advance, Function.update_of_ne own] using ⟨past, same⟩

theorem Valid.cast (valid : polls.Valid) {candidate : Node}
    (free : polls.vote node = none ∨ polls.vote node = some candidate) : (polls.cast node candidate).Valid := by
  have agree : ∀ other, (polls.term node, node, other) ∈ polls.ballots → other = candidate := by
    intro other ballot
    have voted := (valid.recorded _ _ _ ballot).2 rfl
    rcases free with absent | present
    · rw [absent] at voted
      cases voted
    · rw [present] at voted
      exact (Option.some.inj voted).symm
  constructor
  · intro term voter other ballot
    rcases Set.mem_insert_iff.mp ballot with fresh | old
    · cases fresh
      exact ⟨Nat.le_refl _, fun _ => by simp [Polls.cast]⟩
    · obtain ⟨past, same⟩ := valid.recorded term voter other old
      refine ⟨past, fun equal => ?_⟩
      by_cases own : voter = node
      · subst voter
        subst equal
        simp [Polls.cast, agree other old]
      · simpa only [Polls.cast, Function.update_of_ne own] using same equal
  · intro term voter first second left right
    rcases Set.mem_insert_iff.mp left with fresh | old
    · cases fresh
      rcases Set.mem_insert_iff.mp right with fresh | old
      · cases fresh
        rfl
      · exact (agree second old).symm
    · rcases Set.mem_insert_iff.mp right with fresh | later
      · cases fresh
        exact agree first old
      · exact valid.unique term voter first second old later

/-- Two candidates backed by majorities in one term are the same node. -/
theorem Valid.winner_unique (valid : polls.Valid) {electorate left right : Finset Node} {first second : Node}
    (leftMajority : Majority electorate left) (rightMajority : Majority electorate right)
    (leftBallots : ∀ voter ∈ left, (term, voter, first) ∈ polls.ballots)
    (rightBallots : ∀ voter ∈ right, (term, voter, second) ∈ polls.ballots) : first = second := by
  obtain ⟨voter, inLeft, inRight⟩ := leftMajority.meet rightMajority
  exact valid.unique term voter first second (leftBallots voter inLeft) (rightBallots voter inRight)

end Polls
