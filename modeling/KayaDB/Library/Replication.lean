import KayaDB.Library.Polls
import KayaDB.Library.Adoption

/-! Leader-based replication of a log, as a history: each node's term, vote and log,
every ballot, the logs candidates stood with, the book (the leader's log) of each term,
all acknowledgements and all choices. No messages appear: a follower may adopt any
prefix of its term's book at any time, which covers loss, duplication, delay and
reordering. -/

class Stamped (Entry : Type*) where
  termOf : Entry → Nat

export Stamped (termOf)

def lastTerm {Entry : Type*} [Stamped Entry] (log : List Entry) : Nat := (log.getLast?.map termOf).getD 0

/-- The order in which logs are compared before a vote is granted. -/
def UpToDate {Entry : Type*} [Stamped Entry] (candidate own : List Entry) : Prop :=
  lastTerm own < lastTerm candidate ∨ (lastTerm own = lastTerm candidate ∧ own.length ≤ candidate.length)

structure Replication (Node Entry : Type*) extends Polls Node where
  log : Node → List Entry
  campaign : Nat → Node → Option (List Entry)
  leader : Nat → Option Node
  book : Nat → List Entry
  acks : Set (Nat × Node × Nat)
  chosen : Set (Nat × Nat)

namespace Replication
variable {Node Entry : Type*} [DecidableEq Node] [Stamped Entry]

section
variable (state : Replication Node Entry)

def advance (node : Node) (term : Nat) : Replication Node Entry :=
  { state with toPolls := state.toPolls.advance node term }

/-- Enter a later term as a candidate with the own vote. -/
def stand (node : Node) (term : Nat) : Replication Node Entry :=
  { state with
    toPolls := (state.toPolls.advance node term).cast node node
    campaign := Function.update state.campaign term
      (Function.update (state.campaign term) node (some (state.log node))) }

def grant (node candidate : Node) : Replication Node Entry :=
  { state with toPolls := state.toPolls.cast node candidate }

/-- The leader's own log and its book grow together. -/
def append (node : Node) (entry : Entry) : Replication Node Entry :=
  { state with
    log := Function.update state.log node (state.log node ++ [entry])
    book := Function.update state.book (state.term node) (state.log node ++ [entry]) }

def elect (node : Node) (entry : Entry) : Replication Node Entry :=
  { state.append node entry with leader := Function.update state.leader (state.term node) (some node) }

noncomputable def follow (node : Node) (length : Nat) : Replication Node Entry :=
  { state with
    log := Function.update state.log node (adopt (state.log node) ((state.book (state.term node)).take length)) }

def acknowledge (node : Node) (length : Nat) : Replication Node Entry :=
  { state with acks := insert (state.term node, node, length) state.acks }

def choose (term length : Nat) : Replication Node Entry :=
  { state with chosen := insert (term, length) state.chosen }

end

/-- What one node may do. Votes require an up-to-date candidate, leadership a
majority of ballots, and a choice a majority of acknowledgements for an entry
of the leader's own term. -/
inductive Step (electorate : Finset Node) (node : Node) :
    Replication Node Entry → Replication Node Entry → Prop where
  | advance {state} {term : Nat} (later : state.term node < term) :
      Step electorate node state (state.advance node term)
  | stand {state} {term : Nat} (later : state.term node < term) :
      Step electorate node state (state.stand node term)
  | grant {state} {candidate : Node} {log : List Entry}
      (free : state.vote node = none ∨ state.vote node = some candidate)
      (stood : state.campaign (state.term node) candidate = some log)
      (fresh : UpToDate log (state.log node)) :
      Step electorate node state (state.grant node candidate)
  | elect {state} {quorum : Finset Node} {entry : Entry}
      (stood : state.campaign (state.term node) node = some (state.log node))
      (vacant : state.leader (state.term node) = none)
      (majority : Majority electorate quorum)
      (ballots : ∀ voter ∈ quorum, (state.term node, voter, node) ∈ state.ballots)
      (own : termOf entry = state.term node) :
      Step electorate node state (state.elect node entry)
  | append {state} {entry : Entry} (leads : state.leader (state.term node) = some node)
      (own : termOf entry = state.term node) :
      Step electorate node state (state.append node entry)
  | follow {state} {leader : Node} {length : Nat} (led : state.leader (state.term node) = some leader) :
      Step electorate node state (state.follow node length)
  | acknowledge {state} {leader : Node} {length : Nat}
      (led : state.leader (state.term node) = some leader)
      (short : length ≤ (state.book (state.term node)).length)
      (held : (state.book (state.term node)).take length <+: state.log node) :
      Step electorate node state (state.acknowledge node length)
  | choose {state} {length : Nat} {quorum : Finset Node} {entry : Entry}
      (leads : state.leader (state.term node) = some node)
      (majority : Majority electorate quorum)
      (acked : ∀ voter ∈ quorum, ∃ reached, length ≤ reached ∧ (state.term node, voter, reached) ∈ state.acks)
      (positive : 0 < length)
      (present : (state.book (state.term node))[length - 1]? = some entry)
      (own : termOf entry = state.term node) :
      Step electorate node state (state.choose (state.term node) length)

/-- Every entry sits at its place in the book of its own term, with the same
entries before it. Two sound logs that share an entry agree up to it. -/
def Sound (state : Replication Node Entry) (log : List Entry) : Prop :=
  ∀ index entry, log[index]? = some entry →
    (∃ node, state.leader (termOf entry) = some node) ∧ log.take (index + 1) <+: state.book (termOf entry)

/-- Every leader of a term strictly between `term` and `limit` stood with the
first `length` entries of the book of `term`. -/
def Carried (state : Replication Node Entry) (term length limit : Nat) : Prop :=
  ∀ later node log, term < later → later < limit → state.leader later = some node →
    state.campaign later node = some log → (state.book term).take length <+: log

/-- The log a voter supports in `limit` keeps what the voter acknowledged in
earlier terms, as long as the leaders in between did. -/
def Defers (state : Replication Node Entry) (voter : Node) (limit : Nat) (log : List Entry) : Prop :=
  ∀ term reached length entry, (term, voter, reached) ∈ state.acks → term < limit → 0 < length →
    length ≤ reached → (state.book term)[length - 1]? = some entry → termOf entry = term →
    state.Carried term length limit → (state.book term).take length <+: log

structure Valid (electorate : Finset Node) (state : Replication Node Entry) : Prop where
  polls : state.toPolls.Valid
  stood : ∀ term node log, state.campaign term node = some log →
    0 < term ∧ term ≤ state.term node ∧ (state.term node = term → state.vote node = some node)
  earlier : ∀ term node log, state.campaign term node = some log → ∀ entry ∈ log, termOf entry < term
  backed : ∀ term voter node, (term, voter, node) ∈ state.ballots → ∃ log, state.campaign term node = some log
  led : ∀ term node, state.leader term = some node →
    term ≤ state.term node ∧ (state.term node = term → state.log node = state.book term)
  opened : ∀ term node, state.leader term = some node → ∃ log, state.campaign term node = some log ∧
    log <+: state.book term ∧ log.length < (state.book term).length ∧
    ∀ entry ∈ (state.book term).drop log.length, termOf entry = term
  logs : ∀ node, state.Sound (state.log node)
  books : ∀ term node, state.leader term = some node → state.Sound (state.book term)
  campaigns : ∀ term node log, state.campaign term node = some log → state.Sound log
  bounded : ∀ node, ∀ entry ∈ state.log node, termOf entry ≤ state.term node
  acked : ∀ term node reached, (term, node, reached) ∈ state.acks →
    (∃ leader, state.leader term = some leader) ∧ term ≤ state.term node ∧ reached ≤ (state.book term).length
  held : ∀ term node reached, (term, node, reached) ∈ state.acks → ∀ length ≤ reached,
    state.Carried term length (state.term node + 1) → (state.book term).take length <+: state.log node
  pledged : ∀ term voter node log, (term, voter, node) ∈ state.ballots → state.leader term = none →
    state.campaign term node = some log → state.Defers voter term log
  elected : ∀ term node log, state.leader term = some node → state.campaign term node = some log →
    ∃ quorum, Majority electorate quorum ∧
      ∀ voter ∈ quorum, (term, voter, node) ∈ state.ballots ∧ state.Defers voter term log
  choices : ∀ term length, (term, length) ∈ state.chosen → 0 < length ∧
    (∃ leader, state.leader term = some leader) ∧
    (∃ entry, (state.book term)[length - 1]? = some entry ∧ termOf entry = term) ∧
    ∃ quorum, Majority electorate quorum ∧
      ∀ voter ∈ quorum, ∃ reached, length ≤ reached ∧ (term, voter, reached) ∈ state.acks

/-- Histories only grow; books grow at their end. -/
structure Grows (before after : Replication Node Entry) : Prop where
  term : ∀ node, before.term node ≤ after.term node
  ballots : before.ballots ⊆ after.ballots
  campaign : ∀ term node log, before.campaign term node = some log → after.campaign term node = some log
  leader : ∀ term node, before.leader term = some node → after.leader term = some node
  book : ∀ term node, before.leader term = some node → before.book term <+: after.book term
  acks : before.acks ⊆ after.acks
  chosen : before.chosen ⊆ after.chosen

omit [DecidableEq Node] [Stamped Entry] in
theorem Grows.refl (state : Replication Node Entry) : Grows state state :=
  ⟨fun _ => Nat.le_refl _, fun _ inside => inside, fun _ _ _ stood => stood, fun _ _ led => led,
    fun _ _ _ => List.prefix_rfl, fun _ inside => inside, fun _ inside => inside⟩

omit [DecidableEq Node] [Stamped Entry] in
theorem Grows.trans {before middle after : Replication Node Entry}
    (first : Grows before middle) (last : Grows middle after) : Grows before after :=
  ⟨fun node => (first.term node).trans (last.term node),
    fun _ inside => last.ballots (first.ballots inside),
    fun term node log stood => last.campaign term node log (first.campaign term node log stood),
    fun term node led => last.leader term node (first.leader term node led),
    fun term node led => (first.book term node led).trans (last.book term node (first.leader term node led)),
    fun _ inside => last.acks (first.acks inside),
    fun _ inside => last.chosen (first.chosen inside)⟩

end Replication
