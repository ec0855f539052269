import KayaDB.Library.Replication

/-! Safety of leader-based replication. Every step keeps the history valid, and
in a valid history a chosen prefix is part of every later leader's book. -/

set_option linter.unusedSectionVars false

namespace Replication
variable {Node Entry : Type*} [DecidableEq Node] [Stamped Entry]
  {electorate : Finset Node} {state before after : Replication Node Entry}

section
omit [DecidableEq Node]

theorem Sound.grow {log : List Entry} (sound : before.Sound log) (growth : Grows before after) :
    after.Sound log := by
  intro index entry found
  obtain ⟨⟨node, led⟩, inside⟩ := sound index entry found
  exact ⟨⟨node, growth.leader _ _ led⟩, inside.trans (growth.book _ _ led)⟩

theorem Sound.shorten {part whole : List Entry} (sound : state.Sound whole) (inside : part <+: whole) :
    state.Sound part := by
  intro index entry found
  have bound : index < part.length := (List.getElem?_eq_some_iff.mp found).1
  have same : whole[index]? = some entry := by
    obtain ⟨rest, rfl⟩ := inside
    rw [List.getElem?_append_left bound, found]
  obtain ⟨led, shared⟩ := sound index entry same
  rw [List.take_prefix_of_prefix inside (by omega)] at shared
  exact ⟨led, shared⟩

theorem Sound.concat {log : List Entry} {entry : Entry} {node : Node} (sound : state.Sound log)
    (led : state.leader (termOf entry) = some node) (book : state.book (termOf entry) = log ++ [entry]) :
    state.Sound (log ++ [entry]) := by
  intro index found present
  rcases Nat.lt_or_ge index log.length with old | fresh
  · rw [List.getElem?_append_left old] at present
    rw [List.take_append_of_le_length (by omega)]
    exact sound index found present
  · rw [List.getElem?_append_right fresh] at present
    obtain ⟨position, same⟩ := List.getElem?_eq_some_iff.mp present
    have first : index - log.length = 0 := by simpa using position
    have equal : found = entry := by simpa [first] using same.symm
    subst equal
    refine ⟨⟨node, led⟩, ?_⟩
    rw [book]
    exact List.take_prefix _ _

theorem Sound.agree {first second : List Entry} (left : state.Sound first) (right : state.Sound second)
    {index : Nat} {leftEntry rightEntry : Entry} (inFirst : first[index]? = some leftEntry)
    (inSecond : second[index]? = some rightEntry) (same : termOf leftEntry = termOf rightEntry) :
    first.take (index + 1) = second.take (index + 1) := by
  have leftLength := (List.getElem?_eq_some_iff.mp inFirst).1
  have rightLength := (List.getElem?_eq_some_iff.mp inSecond).1
  have leftPart := (left index leftEntry inFirst).2
  have rightPart := (right index rightEntry inSecond).2
  rw [← same] at rightPart
  have below := List.prefix_of_prefix_length_le leftPart rightPart (by simp only [List.length_take]; omega)
  exact below.eq_of_length (by simp only [List.length_take]; omega)

theorem Carried.narrow {term length limit smaller : Nat} (carried : state.Carried term length limit)
    (below : smaller ≤ limit) : state.Carried term length smaller :=
  fun later node log after inside led stood => carried later node log after (by omega) led stood

theorem Carried.shrink {term length limit : Nat} {leader : Node} (carried : after.Carried term length limit)
    (growth : Grows before after) (led : before.leader term = some leader)
    (short : length ≤ (before.book term).length) : before.Carried term length limit := by
  intro later node log past inside leads stood
  have kept := carried later node log past inside (growth.leader _ _ leads) (growth.campaign _ _ _ stood)
  rwa [List.take_prefix_of_prefix (growth.book _ _ led) short] at kept

theorem Defers.grow {voter : Node} {limit : Nat} {log : List Entry} (defers : before.Defers voter limit log)
    (growth : Grows before after)
    (acked : ∀ term reached, (term, voter, reached) ∈ before.acks →
      (∃ leader, before.leader term = some leader) ∧ reached ≤ (before.book term).length)
    (old : ∀ term reached, (term, voter, reached) ∈ after.acks → term < limit →
      (term, voter, reached) ∈ before.acks) : after.Defers voter limit log := by
  intro term reached length entry ack earlier positive short present own carried
  have ack := old term reached ack earlier
  obtain ⟨⟨leader, led⟩, bound⟩ := acked term reached ack
  have inside := growth.book term leader led
  have same : (before.book term)[length - 1]? = some entry := by
    obtain ⟨rest, equal⟩ := inside
    rw [← equal, List.getElem?_append_left (by omega)] at present
    exact present
  rw [List.take_prefix_of_prefix inside (by omega)]
  exact defers term reached length entry ack earlier positive short same own
    (carried.shrink growth led (by omega))

theorem Valid.book_terms (valid : Valid electorate state) {term : Nat} {node : Node}
    (led : state.leader term = some node) {entry : Entry} (inside : entry ∈ state.book term) :
    termOf entry ≤ term := by
  obtain ⟨log, stood, ⟨rest, whole⟩, _, own⟩ := valid.opened term node led
  rw [← whole] at inside
  rcases List.mem_append.mp inside with old | fresh
  · exact Nat.le_of_lt (valid.earlier term node log stood entry old)
  · refine Nat.le_of_eq (own entry ?_)
    rw [← whole, List.drop_left]
    exact fresh

/-- Chosen prefixes are never lost: whoever led a later term stood with them. -/
theorem Valid.complete [DecidableEq Node] (valid : Valid electorate state) {term length : Nat}
    (chosen : (term, length) ∈ state.chosen) :
    ∀ later node log, term < later → state.leader later = some node → state.campaign later node = some log →
      (state.book term).take length <+: log := by
  obtain ⟨positive, -, ⟨entry, present, own⟩, quorum, majority, acks⟩ := valid.choices term length chosen
  intro later
  induction later using Nat.strongRecOn with
  | ind later ih =>
    intro node log past led stood
    have carried : state.Carried term length later :=
      fun middle other kept after inside leads campaigned => ih middle inside other kept after leads campaigned
    obtain ⟨voters, elected, ballots⟩ := valid.elected later node log led stood
    obtain ⟨voter, acked, voted⟩ := majority.meet elected
    obtain ⟨reached, short, ack⟩ := acks voter acked
    exact (ballots voter voted).2 term reached length entry ack past positive short present own carried

theorem Valid.complete_book [DecidableEq Node] (valid : Valid electorate state) {term length later : Nat}
    {node : Node} (chosen : (term, length) ∈ state.chosen) (past : term ≤ later)
    (led : state.leader later = some node) : (state.book term).take length <+: state.book later := by
  rcases Nat.lt_or_eq_of_le past with before | rfl
  · obtain ⟨log, stood, inside, _⟩ := valid.opened later node led
    exact (valid.complete chosen later node log before led stood).trans inside
  · exact List.take_prefix _ _

end

/-- The first `length` entries of the log are chosen, by a leader of a term no
later than `bound`. -/
def Settled (state : Replication Node Entry) (log : List Entry) (bound length : Nat) : Prop :=
  length = 0 ∨ ∃ term reached, (term, reached) ∈ state.chosen ∧ term ≤ bound ∧ length ≤ reached ∧
    (state.book term).take length <+: log

section
omit [DecidableEq Node]

theorem Valid.chosen_length (valid : Valid electorate state) {term reached : Nat}
    (chosen : (term, reached) ∈ state.chosen) : reached ≤ (state.book term).length := by
  obtain ⟨positive, -, ⟨entry, present, _⟩, _⟩ := valid.choices term reached chosen
  have := (List.getElem?_eq_some_iff.mp present).1
  omega

theorem Settled.length_le {log : List Entry} {bound length : Nat} (settled : state.Settled log bound length)
    (valid : Valid electorate state) : length ≤ log.length := by
  rcases settled with rfl | ⟨term, reached, chosen, _, short, inside⟩
  · exact Nat.zero_le _
  · have := valid.chosen_length chosen
    exact ((List.take_prefix_iff (by omega)).mp inside).1

theorem Settled.smaller {log : List Entry} {bound length less : Nat} (settled : state.Settled log bound length)
    (below : less ≤ length) : state.Settled log bound less := by
  rcases settled with rfl | ⟨term, reached, chosen, early, short, inside⟩
  · exact Or.inl (by omega)
  · exact Or.inr ⟨term, reached, chosen, early, by omega, (List.take_prefix_take_left below).trans inside⟩

theorem Settled.later {log : List Entry} {bound limit length : Nat} (settled : state.Settled log bound length)
    (past : bound ≤ limit) : state.Settled log limit length := by
  rcases settled with rfl | ⟨term, reached, chosen, early, rest⟩
  · exact Or.inl rfl
  · exact Or.inr ⟨term, reached, chosen, early.trans past, rest⟩

theorem Settled.grow {log : List Entry} {bound length : Nat} (settled : before.Settled log bound length)
    (valid : Valid electorate before) (growth : Grows before after) : after.Settled log bound length := by
  rcases settled with rfl | ⟨term, reached, chosen, early, short, inside⟩
  · exact Or.inl rfl
  · obtain ⟨-, ⟨leader, led⟩, -⟩ := valid.choices term reached chosen
    have := valid.chosen_length chosen
    refine Or.inr ⟨term, reached, growth.chosen chosen, early, short, ?_⟩
    rwa [List.take_prefix_of_prefix (growth.book term leader led) (by omega)]

theorem Settled.carry {log other : List Entry} {bound length count : Nat} (settled : state.Settled log bound length)
    (short : length ≤ count) (part : log.take count <+: other) : state.Settled other bound length := by
  rcases settled with rfl | ⟨term, reached, chosen, early, below, inside⟩
  · exact Or.inl rfl
  · refine Or.inr ⟨term, reached, chosen, early, below, List.IsPrefix.trans ?_ part⟩
    refine List.prefix_of_prefix_length_le inside (List.take_prefix _ _) ?_
    have := inside.length_le
    simp only [List.length_take] at this ⊢
    omega

theorem Settled.shorten {log other : List Entry} {bound length : Nat} (settled : state.Settled log bound length)
    (part : log <+: other) : state.Settled other bound length := by
  rcases settled with rfl | ⟨term, reached, chosen, early, below, inside⟩
  · exact Or.inl rfl
  · exact Or.inr ⟨term, reached, chosen, early, below, inside.trans part⟩

theorem Settled.in_book [DecidableEq Node] {log : List Entry} {bound length later : Nat} {node : Node}
    (settled : state.Settled log bound length) (valid : Valid electorate state) (past : bound ≤ later)
    (led : state.leader later = some node) : log.take length <+: state.book later := by
  rcases settled with rfl | ⟨term, reached, chosen, early, short, inside⟩
  · exact List.nil_prefix
  · have bound := valid.chosen_length chosen
    rw [((List.take_prefix_iff (by omega)).mp inside).2]
    exact (List.take_prefix_take_left short).trans (valid.complete_book chosen (early.trans past) led)

/-- Following a leader gives up no settled entry. -/
theorem Settled.adopt [DecidableEq Node] {log : List Entry} {bound length later count : Nat} {node : Node}
    (settled : state.Settled log bound length) (valid : Valid electorate state) (past : bound ≤ later)
    (led : state.leader later = some node) :
    state.Settled (adopt log ((state.book later).take count)) bound length := by
  rcases settled with rfl | ⟨term, reached, chosen, early, below, inside⟩
  · exact Or.inl rfl
  · refine Or.inr ⟨term, reached, chosen, early, below, ?_⟩
    refine kept_prefix_adopt inside ?_ (List.take_prefix count _)
    exact (List.take_prefix_take_left below).trans (valid.complete_book chosen (early.trans past) led)

theorem Settled.agree [DecidableEq Node] {first second : List Entry} {left right length other : Nat}
    (settled : state.Settled first left length) (also : state.Settled second right other)
    (valid : Valid electorate state) {count : Nat} (inFirst : count ≤ length) (inSecond : count ≤ other) :
    first.take count = second.take count := by
  rcases settled.smaller inFirst with rfl | ⟨term, reached, chosen, _, short, inside⟩
  · rfl
  rcases also.smaller inSecond with rfl | ⟨term', reached', chosen', _, short', inside'⟩
  · rfl
  have bound := valid.chosen_length chosen
  have bound' := valid.chosen_length chosen'
  rw [((List.take_prefix_iff (by omega)).mp inside).2, ((List.take_prefix_iff (by omega)).mp inside').2]
  obtain ⟨-, ⟨leader, led⟩, -⟩ := valid.choices term reached chosen
  obtain ⟨-, ⟨leader', led'⟩, -⟩ := valid.choices term' reached' chosen'
  rcases Nat.le_total term term' with past | past
  · have shared := (List.take_prefix_take_left short).trans (valid.complete_book chosen past led')
    exact (((List.take_prefix_iff (by omega)).mp shared).2).symm
  · have shared := (List.take_prefix_take_left short').trans (valid.complete_book chosen' past led)
    exact ((List.take_prefix_iff (by omega)).mp shared).2

end

end Replication
