import KayaDB.Library.ReplicationSafety

set_option linter.unusedSectionVars false

namespace Replication
variable {Node Entry : Type*} [DecidableEq Node] [Stamped Entry]
  {electorate : Finset Node} {state before after : Replication Node Entry} {node : Node}
  {term limit length : Nat} {log : List Entry} {entry : Entry} {leader candidate : Node} {quorum : Finset Node}

/-- The other nodes' terms, votes and logs are untouched; new leaderships and
choices are the node's own. -/
structure Frame (node : Node) (before after : Replication Node Entry) : Prop where
  term : ∀ other, other ≠ node → after.term other = before.term other
  vote : ∀ other, other ≠ node → after.vote other = before.vote other
  log : ∀ other, other ≠ node → after.log other = before.log other
  leader : ∀ term other, after.leader term = some other → before.leader term = some other ∨ other = node
  chosen : ∀ term length, (term, length) ∈ after.chosen →
    (term, length) ∈ before.chosen ∨ after.leader term = some node

theorem Frame.refl (node : Node) (state : Replication Node Entry) : Frame node state state :=
  ⟨fun _ _ => rfl, fun _ _ => rfl, fun _ _ => rfl, fun _ _ => Or.inl, fun _ _ => Or.inl⟩

theorem Frame.trans {middle : Replication Node Entry} (first : Frame node before middle)
    (last : Frame node middle after) (growth : Grows middle after) : Frame node before after := by
  refine ⟨fun other different => (last.term other different).trans (first.term other different),
    fun other different => (last.vote other different).trans (first.vote other different),
    fun other different => (last.log other different).trans (first.log other different), ?_, ?_⟩
  · intro term other led
    rcases last.leader term other led with old | own
    · exact first.leader term other old
    · exact Or.inr own
  intro term length chosen
  rcases last.chosen term length chosen with old | led
  · exact (first.chosen term length old).imp_right (growth.leader term node)
  · exact Or.inr led

theorem Step.frame (step : Step electorate node before after) : Frame node before after := by
  cases step with
  | advance later =>
    exact { Frame.refl node _ with
      term := fun other different => Function.update_of_ne different _ _
      vote := fun other different => Function.update_of_ne different _ _ }
  | stand later =>
    refine { Frame.refl node _ with
      term := fun other different => Function.update_of_ne different _ _
      vote := fun other different => ?_ }
    simp only [Replication.stand, Polls.cast, Polls.advance, Function.update_of_ne different]
  | grant free stood fresh =>
    exact { Frame.refl node _ with vote := fun other different => Function.update_of_ne different _ _ }
  | elect stood vacant majority ballots own =>
    refine { Frame.refl node _ with
      log := fun other different => Function.update_of_ne different _ _
      leader := fun term other led => ?_
      chosen := fun _ _ => Or.inl }
    by_cases same : term = before.term node
    · subst same
      simp only [Replication.elect, Function.update_self, Option.some.injEq] at led
      exact Or.inr led.symm
    · simp only [Replication.elect, Function.update_of_ne same] at led
      exact Or.inl led
  | append leads own =>
    exact { Frame.refl node _ with log := fun other different => Function.update_of_ne different _ _ }
  | follow led =>
    exact { Frame.refl node _ with log := fun other different => Function.update_of_ne different _ _ }
  | acknowledge led short held => exact { Frame.refl node _ with }
  | choose leads majority acked positive present own =>
    refine { Frame.refl node _ with chosen := fun term length chosen => ?_ }
    rcases Set.mem_insert_iff.mp chosen with fresh | old
    · cases fresh
      exact Or.inr leads
    · exact Or.inl old

private theorem update_le {values : Node → Nat} {value : Nat} (later : values node < value) (other : Node) :
    values other ≤ Function.update values node value other := by
  by_cases own : other = node
  · subst own
    simpa using Nat.le_of_lt later
  · rw [Function.update_of_ne own]

theorem advance_grows (later : state.term node < term) : Grows state (state.advance node term) :=
  { Grows.refl state with term := update_le later }

theorem stand_campaign (state : Replication Node Entry) (node : Node) (term : Nat) :
    (state.stand node term).campaign term node = some (state.log node) := by
  simp [stand]

theorem stand_campaign_cases {later : Nat} {other : Node}
    (stood : (state.stand node term).campaign later other = some log) :
    (later = term ∧ other = node ∧ log = state.log node) ∨ state.campaign later other = some log := by
  by_cases same : later = term
  · subst same
    by_cases own : other = node
    · subst own
      rw [stand_campaign] at stood
      exact Or.inl ⟨rfl, rfl, (Option.some.inj stood).symm⟩
    · simp only [stand, Function.update_self, Function.update_of_ne own] at stood
      exact Or.inr stood
  · simp only [stand, Function.update_of_ne same] at stood
    exact Or.inr stood

theorem stand_grows (valid : Valid electorate state) (later : state.term node < term) :
    Grows state (state.stand node term) := by
  refine { Grows.refl state with
    term := update_le later
    ballots := fun _ inside => Set.mem_insert_of_mem _ inside
    campaign := fun other candidate log stood => ?_ }
  by_cases same : other = term
  · subst same
    have different : candidate ≠ node := by
      rintro rfl
      have := (valid.stood _ _ _ stood).2.1
      omega
    simpa only [stand, Function.update_self, Function.update_of_ne different] using stood
  · simpa only [stand, Function.update_of_ne same] using stood

theorem append_grows (valid : Valid electorate state) (leads : state.leader (state.term node) = some node) :
    Grows state (state.append node entry) := by
  refine { Grows.refl state with book := fun term other led => ?_ }
  by_cases same : term = state.term node
  · subst same
    have book := (valid.led _ _ leads).2 rfl
    simp only [append, Function.update_self, ← book]
    exact List.prefix_append _ _
  · simp only [append, Function.update_of_ne same]
    exact List.prefix_rfl

theorem elect_grows (vacant : state.leader (state.term node) = none) : Grows state (state.elect node entry) := by
  have different : ∀ term other, state.leader term = some other → term ≠ state.term node := by
    rintro term other led rfl
    rw [vacant] at led
    cases led
  refine { Grows.refl state with leader := fun term other led => ?_, book := fun term other led => ?_ }
  · simpa only [elect, Function.update_of_ne (different term other led)] using led
  · simp only [elect, append, Function.update_of_ne (different term other led)]
    exact List.prefix_rfl

theorem Step.grows (step : Step electorate node before after) (valid : Valid electorate before) :
    Grows before after := by
  cases step with
  | advance later => exact advance_grows later
  | stand later => exact stand_grows valid later
  | grant free stood fresh =>
    exact { Grows.refl before with ballots := fun _ inside => Set.mem_insert_of_mem _ inside }
  | elect stood vacant majority ballots own => exact elect_grows vacant
  | append leads own => exact append_grows valid leads
  | follow led => exact { Grows.refl before with }
  | acknowledge led short held =>
    exact { Grows.refl before with acks := fun _ inside => Set.mem_insert_of_mem _ inside }
  | choose leads majority acked positive present own =>
    exact { Grows.refl before with chosen := fun _ inside => Set.mem_insert_of_mem _ inside }

section
variable (valid : Valid electorate before) (growth : Grows before after)
include valid growth

/-- Without new acknowledgements every pledge carries over. -/
theorem Valid.defers_grow (same : after.acks = before.acks) {voter : Node} (defers : before.Defers voter limit log) :
    after.Defers voter limit log :=
  defers.grow growth (fun _ _ ack => ⟨(valid.acked _ _ _ ack).1, (valid.acked _ _ _ ack).2.2⟩)
    (fun _ _ ack _ => same ▸ ack)

theorem Valid.elected_grow (same : after.acks = before.acks) (led : before.leader term = some leader)
    (stood : before.campaign term leader = some log) :
    ∃ quorum, Majority electorate quorum ∧
      ∀ voter ∈ quorum, (term, voter, leader) ∈ after.ballots ∧ after.Defers voter term log := by
  obtain ⟨quorum, majority, ballots⟩ := valid.elected term leader log led stood
  exact ⟨quorum, majority, fun voter inside => ⟨growth.ballots (ballots voter inside).1,
    valid.defers_grow growth same (ballots voter inside).2⟩⟩

/-- What was acknowledged before a step was held before it, if the leaders after
the step carry it. -/
theorem Valid.held_before {reached : Nat} (ack : (term, node, reached) ∈ before.acks) (short : length ≤ reached)
    (wide : before.term node < limit) (carried : after.Carried term length limit) :
    (before.book term).take length <+: before.log node := by
  obtain ⟨⟨leader, led⟩, _, bound⟩ := valid.acked term node reached ack
  exact valid.held term node reached ack length short ((carried.shrink growth led (by omega)).narrow wide)

end

section
variable (valid : Valid electorate state)
include valid

theorem Valid.advance (later : state.term node < term) : Valid electorate (state.advance node term) := by
  have growth : Grows state (state.advance node term) := advance_grows later
  have raised := growth.term
  have past : ∀ earlier ≤ state.term node, (state.advance node term).term node ≠ earlier := by
    intro earlier below same
    simp only [Replication.advance, Polls.advance, Function.update_self] at same
    omega
  refine
    { valid with
      polls := valid.polls.advance later
      stood := ?_
      led := ?_
      bounded := fun other entry inside => (valid.bounded other entry inside).trans (raised other)
      acked := fun past other reached ack => ⟨(valid.acked _ _ _ ack).1,
        (valid.acked _ _ _ ack).2.1.trans (raised other), (valid.acked _ _ _ ack).2.2⟩
      held := fun past other reached ack length short =>
        valid.held_before growth ack short (Nat.lt_succ_of_le (raised other)) }
  · intro earlier candidate log stood
    obtain ⟨positive, reached, own⟩ := valid.stood earlier candidate log stood
    refine ⟨positive, reached.trans (raised candidate), fun same => ?_⟩
    by_cases mine : candidate = node
    · subst mine
      exact absurd same (past earlier reached)
    · simp only [Replication.advance, Polls.advance, Function.update_of_ne mine] at same ⊢
      exact own same
  · intro earlier leader led
    obtain ⟨reached, book⟩ := valid.led earlier leader led
    refine ⟨reached.trans (raised leader), fun same => ?_⟩
    by_cases mine : leader = node
    · subst mine
      exact absurd same (past earlier reached)
    · simp only [Replication.advance, Polls.advance, Function.update_of_ne mine] at same
      exact book same

/-- A candidate defers to itself: up to its new term nothing has touched its log. -/
theorem Valid.stand (later : state.term node < term) : Valid electorate (state.stand node term) := by
  have advanced := valid.advance later
  have growth := stand_grows valid later
  have ownTerm : (state.stand node term).term node = term := by simp [Replication.stand, Polls.cast, Polls.advance]
  have ballotCases : ∀ {past voter candidate}, (past, voter, candidate) ∈ (state.stand node term).ballots →
      (past = term ∧ voter = node ∧ candidate = node) ∨ (past, voter, candidate) ∈ state.ballots := by
    intro past voter candidate ballot
    refine (Set.mem_insert_iff.mp ballot).imp_left fun fresh => ?_
    simpa [Polls.advance] using fresh
  refine
    { advanced with
      polls := (valid.polls.advance later).cast (Or.inl (by simp [Polls.advance]))
      stood := ?_
      earlier := ?_
      backed := ?_
      opened := ?_
      logs := fun other => (valid.logs other).grow growth
      books := fun past leader led => (valid.books past leader led).grow growth
      campaigns := ?_
      held := fun past other reached ack length short =>
        valid.held_before growth ack short (Nat.lt_succ_of_le (growth.term other))
      pledged := ?_
      elected := ?_ }
  · intro past candidate log stood
    have voted : candidate = node → (state.stand node term).vote candidate = some candidate := by
      rintro rfl
      simp [Replication.stand, Polls.cast]
    rcases stand_campaign_cases stood with ⟨rfl, rfl, rfl⟩ | old
    · exact ⟨by omega, ownTerm.ge, fun _ => voted rfl⟩
    · obtain ⟨positive, reached, own⟩ := advanced.stood past candidate log old
      refine ⟨positive, reached, fun same => ?_⟩
      by_cases mine : candidate = node
      · exact voted mine
      · exact (Function.update_of_ne mine _ _).trans (own same)
  · intro past candidate log stood entry inside
    rcases stand_campaign_cases stood with ⟨rfl, rfl, rfl⟩ | old
    · exact Nat.lt_of_le_of_lt (valid.bounded candidate entry inside) later
    · exact valid.earlier past candidate log old entry inside
  · intro past voter candidate ballot
    rcases ballotCases ballot with ⟨rfl, rfl, rfl⟩ | cast
    · exact ⟨state.log candidate, stand_campaign state candidate past⟩
    · obtain ⟨log, stood⟩ := valid.backed past voter candidate cast
      exact ⟨log, growth.campaign _ _ _ stood⟩
  · intro past leader led
    obtain ⟨log, stood, rest⟩ := valid.opened past leader led
    exact ⟨log, growth.campaign _ _ _ stood, rest⟩
  · intro past candidate log stood
    rcases stand_campaign_cases stood with ⟨rfl, rfl, rfl⟩ | old
    · exact (valid.logs candidate).grow growth
    · exact (valid.campaigns past candidate log old).grow growth
  · intro past voter candidate log ballot vacant stood
    rcases ballotCases ballot with ⟨rfl, rfl, rfl⟩ | cast
    · rw [stand_campaign] at stood
      cases stood
      intro earlier reached length entry ack _ _ short _ _ carried
      exact valid.held_before growth ack short later carried
    · rcases stand_campaign_cases stood with ⟨rfl, rfl, rfl⟩ | old
      · obtain ⟨log, standing⟩ := valid.backed _ _ _ cast
        have := (valid.stood _ _ _ standing).2.1
        omega
      · exact valid.defers_grow growth rfl (valid.pledged past voter candidate log cast vacant old)
  · intro past leader log led stood
    obtain ⟨kept, standing, _⟩ := valid.opened past leader led
    cases stood.symm.trans (growth.campaign _ _ _ standing)
    exact valid.elected_grow growth rfl led standing

/-- An up-to-date candidate holds whatever the voter acknowledged: its last
entry is of the acknowledged term, in the same book, or of a later one whose
leader carried it. -/
theorem Valid.vote_defers (vacant : state.leader (state.term node) = none)
    (stood : state.campaign (state.term node) candidate = some log) (fresh : UpToDate log (state.log node)) :
    state.Defers node (state.term node) log := by
  intro term reached length entry ack past positive short present own carried
  obtain ⟨⟨leader, led⟩, _, bound⟩ := valid.acked term node reached ack
  have wider : state.Carried term length (state.term node + 1) := by
    intro later other kept after inside leads campaigned
    refine carried later other kept after (Nat.lt_of_le_of_ne (by omega) ?_) leads campaigned
    rintro rfl
    rw [vacant] at leads
    cases leads
  have held := valid.held term node reached ack length short wider
  obtain ⟨within, same⟩ := (List.take_prefix_iff (by omega)).mp held
  have ownEntry : (state.log node)[length - 1]? = some entry := by
    rw [List.prefix_of_getElem?_take same (by omega), present]
  obtain ⟨last, found⟩ : ∃ last, (state.log node)[(state.log node).length - 1]? = some last :=
    ⟨_, List.getElem?_eq_getElem (by omega)⟩
  obtain ⟨⟨leader', led'⟩, inBook⟩ := valid.logs node _ last found
  rw [Nat.sub_add_cancel (by omega), List.take_length] at inBook
  have lastOwn : lastTerm (state.log node) = termOf last := by
    rw [lastTerm, List.getLast?_eq_getElem?, found]
    rfl
  have notEarlier : term ≤ termOf last := by
    rw [← own]
    exact valid.book_terms led' (inBook.subset (List.mem_of_getElem? ownEntry))
  have positiveTerm : 0 < term := by
    obtain ⟨opening, standing, _⟩ := valid.opened term leader led
    exact (valid.stood term leader opening standing).1
  have nonempty : log ≠ [] := by
    rintro rfl
    rcases fresh with less | ⟨equal, _⟩
    · exact Nat.not_lt_zero _ less
    · rw [lastOwn] at equal
      simp only [lastTerm, List.getLast?_nil, Option.map_none, Option.getD_none] at equal
      omega
  obtain ⟨top, topFound⟩ : ∃ top, log[log.length - 1]? = some top :=
    ⟨_, List.getElem?_eq_getElem (Nat.sub_lt (List.length_pos_iff.mpr nonempty) Nat.one_pos)⟩
  have logPositive := List.length_pos_iff.mpr nonempty
  obtain ⟨⟨author, authored⟩, inTop⟩ := valid.campaigns _ _ _ stood _ top topFound
  rw [Nat.sub_add_cancel logPositive, List.take_length] at inTop
  have lastTop : lastTerm log = termOf top := by
    rw [lastTerm, List.getLast?_eq_getElem?, topFound]
    rfl
  have topEarlier := valid.earlier _ _ _ stood top (List.mem_of_getElem? topFound)
  have order : termOf last ≤ termOf top := by
    rcases fresh with less | ⟨equal, _⟩ <;> omega
  rcases Nat.lt_or_eq_of_le (notEarlier.trans order) with above | level
  · obtain ⟨opening, standing, openingBook, _⟩ := valid.opened _ _ authored
    have kept := carried _ author opening above topEarlier authored standing
    refine List.prefix_of_prefix_length_le (kept.trans openingBook) inTop ?_
    refine kept.length_le.trans ?_
    rcases Nat.le_total opening.length log.length with longer | shorter
    · exact longer
    · have inside := List.prefix_of_prefix_length_le inTop openingBook shorter
      have := valid.earlier _ _ _ standing top (inside.subset (List.mem_of_getElem? topFound))
      omega
  · have equal : termOf last = termOf top := by omega
    rw [← level] at inTop
    refine List.prefix_of_prefix_length_le (List.take_prefix _ _) inTop ?_
    have longer : (state.log node).length ≤ log.length := by
      rcases fresh with less | ⟨_, longer⟩
      · omega
      · exact longer
    rw [List.length_take]
    omega

theorem Valid.grant (free : state.vote node = none ∨ state.vote node = some candidate)
    (stood : state.campaign (state.term node) candidate = some log) (fresh : UpToDate log (state.log node)) :
    Valid electorate (state.grant node candidate) := by
  have step : Step electorate node state (state.grant node candidate) := .grant free stood fresh
  have growth := step.grows valid
  refine
    { valid with
      polls := valid.polls.cast free
      stood := ?_
      backed := ?_
      pledged := ?_
      elected := fun _ _ _ led standing => valid.elected_grow growth rfl led standing }
  · intro past other kept standing
    obtain ⟨positive, reached, own⟩ := valid.stood past other kept standing
    refine ⟨positive, reached, fun same => ?_⟩
    by_cases mine : other = node
    · subst mine
      have voted := own same
      rcases free with absent | present
      · rw [absent] at voted
        cases voted
      · rw [voted] at present
        cases present
        simp [Replication.grant, Polls.cast]
    · simpa only [Replication.grant, Polls.cast, Function.update_of_ne mine] using own same
  · intro past voter other ballot
    rcases Set.mem_insert_iff.mp ballot with new | cast
    · cases new
      exact ⟨log, stood⟩
    · exact valid.backed past voter other cast
  · intro past voter other kept ballot vacant standing
    rcases Set.mem_insert_iff.mp ballot with new | cast
    · cases new
      rw [show (state.grant node candidate).campaign = state.campaign from rfl, stood] at standing
      cases standing
      exact valid.defers_grow growth rfl (valid.vote_defers vacant stood fresh)
    · exact valid.defers_grow growth rfl (valid.pledged past voter other kept cast vacant standing)

/-- The node's log becomes the book of its term, with one entry of that term
more; it had been opened by a majority. -/
theorem Valid.write {leader : Nat → Option Node} (own : termOf entry = state.term node)
    (leads : leader (state.term node) = some node)
    (others : ∀ term, term ≠ state.term node → leader term = state.leader term)
    (growth : Grows state { state.append node entry with leader := leader })
    (opened : ∃ log, state.campaign (state.term node) node = some log ∧ log <+: state.log node ∧
      ∀ entry ∈ (state.log node).drop log.length, termOf entry = state.term node)
    (elected : ∀ log, state.campaign (state.term node) node = some log → ∃ quorum, Majority electorate quorum ∧
      ∀ voter ∈ quorum, (state.term node, voter, node) ∈ state.ballots ∧ state.Defers voter (state.term node) log) :
    Valid electorate { state.append node entry with leader := leader } := by
  set after : Replication Node Entry := { state.append node entry with leader := leader }
  have newBook : after.book (state.term node) = state.log node ++ [entry] := by simp [after, Replication.append]
  have newLog : after.log node = state.log node ++ [entry] := by simp [after, Replication.append]
  have oldLog : ∀ other, other ≠ node → after.log other = state.log other :=
    fun other distinct => Function.update_of_ne distinct _ _
  have oldBook : ∀ term, term ≠ state.term node → after.book term = state.book term :=
    fun term distinct => Function.update_of_ne distinct _ _
  have newSound : after.Sound (state.log node ++ [entry]) := by
    apply ((valid.logs node).grow growth).concat (own ▸ leads)
    rw [own, newBook]
  -- the leader of the node's own term, or one of another term as before
  have ledCases : ∀ {term other}, after.leader term = some other →
      (term = state.term node ∧ other = node) ∨ (term ≠ state.term node ∧ state.leader term = some other) := by
    intro term other led
    by_cases same : term = state.term node
    · subst same
      exact Or.inl ⟨rfl, Option.some.inj (led.symm.trans leads)⟩
    · exact Or.inr ⟨same, (others term same).symm.trans led⟩
  refine
    { polls := valid.polls
      stood := valid.stood
      earlier := valid.earlier
      backed := valid.backed
      led := ?_
      opened := ?_
      logs := ?_
      books := ?_
      campaigns := fun term other log standing => (valid.campaigns term other log standing).grow growth
      bounded := ?_
      acked := ?_
      held := ?_
      pledged := ?_
      elected := ?_
      choices := ?_ }
  · intro term other led
    rcases ledCases led with ⟨rfl, rfl⟩ | ⟨same, old⟩
    · exact ⟨Nat.le_refl _, fun _ => newLog.trans newBook.symm⟩
    · obtain ⟨reached, book⟩ := valid.led term other old
      refine ⟨reached, fun equal => ?_⟩
      have distinct : other ≠ node := by
        rintro rfl
        exact same equal.symm
      rw [oldLog other distinct, oldBook term same]
      exact book equal
  · intro term other led
    rcases ledCases led with ⟨rfl, rfl⟩ | ⟨same, old⟩
    · obtain ⟨log, standing, inside, fresh⟩ := opened
      have short := inside.length_le
      rw [newBook]
      refine ⟨log, standing, inside.trans (List.prefix_append _ _), ?_, ?_⟩
      · rw [List.length_append]
        exact Nat.lt_succ_of_le short
      · intro found inDrop
        rw [List.drop_append_of_le_length short] at inDrop
        rcases List.mem_append.mp inDrop with old | last
        · exact fresh found old
        · rw [List.mem_singleton.mp last, own]
    · rw [oldBook term same]
      exact valid.opened term other old
  · intro other
    by_cases mine : other = node
    · subst mine
      rw [newLog]
      exact newSound
    · rw [oldLog other mine]
      exact (valid.logs other).grow growth
  · intro term other led
    rcases ledCases led with ⟨rfl, rfl⟩ | ⟨same, old⟩
    · rw [newBook]
      exact newSound
    · rw [oldBook term same]
      exact (valid.books term other old).grow growth
  · intro other fresh inside
    by_cases mine : other = node
    · subst mine
      rw [newLog] at inside
      rcases List.mem_append.mp inside with old | last
      · exact valid.bounded other fresh old
      · rw [List.mem_singleton.mp last]
        exact own.le
    · rw [oldLog other mine] at inside
      exact valid.bounded other fresh inside
  · intro term other reached ack
    obtain ⟨⟨leader, led⟩, past, bound⟩ := valid.acked term other reached ack
    exact ⟨⟨leader, growth.leader _ _ led⟩, past, bound.trans (growth.book _ _ led).length_le⟩
  · intro term other reached ack length short carried
    have kept := valid.held_before growth ack short (Nat.lt_succ_self _) carried
    obtain ⟨⟨leader, led⟩, _, bound⟩ := valid.acked term other reached ack
    rw [List.take_prefix_of_prefix (growth.book _ _ led) (by omega)]
    by_cases mine : other = node
    · subst mine
      rw [newLog]
      exact kept.trans (List.prefix_append _ _)
    · rw [oldLog other mine]
      exact kept
  · intro term voter other log ballot vacant standing
    have same : term ≠ state.term node := by
      rintro rfl
      cases vacant.symm.trans leads
    exact valid.defers_grow growth rfl
      (valid.pledged term voter other log ballot ((others term same).symm.trans vacant) standing)
  · intro term other log led standing
    rcases ledCases led with ⟨rfl, rfl⟩ | ⟨same, old⟩
    · obtain ⟨quorum, majority, ballots⟩ := elected log standing
      exact ⟨quorum, majority, fun voter inside =>
        ⟨(ballots voter inside).1, valid.defers_grow growth rfl (ballots voter inside).2⟩⟩
    · exact valid.elected_grow growth rfl old standing
  · intro term length chosen
    obtain ⟨positive, ⟨leader, led⟩, ⟨found, present, stamped⟩, rest⟩ := valid.choices term length chosen
    refine ⟨positive, ⟨leader, growth.leader _ _ led⟩, ⟨found, ?_, stamped⟩, rest⟩
    obtain ⟨added, whole⟩ := growth.book _ _ led
    have bound := (List.getElem?_eq_some_iff.mp present).1
    rw [← whole, List.getElem?_append_left bound]
    exact present

theorem Valid.elect (stood : state.campaign (state.term node) node = some (state.log node))
    (vacant : state.leader (state.term node) = none) (majority : Majority electorate quorum)
    (ballots : ∀ voter ∈ quorum, (state.term node, voter, node) ∈ state.ballots)
    (own : termOf entry = state.term node) : Valid electorate (state.elect node entry) := by
  refine valid.write own (Function.update_self _ _ _) (fun term distinct => Function.update_of_ne distinct _ _)
    (elect_grows vacant) ⟨_, stood, List.prefix_rfl, by simp⟩ fun log standing => ?_
  exact ⟨quorum, majority, fun voter inside =>
    ⟨ballots voter inside, valid.pledged _ voter node log (ballots voter inside) vacant standing⟩⟩

theorem Valid.append (leads : state.leader (state.term node) = some node) (own : termOf entry = state.term node) :
    Valid electorate (state.append node entry) := by
  obtain ⟨log, standing, inside, -, fresh⟩ := valid.opened _ _ leads
  rw [← (valid.led _ _ leads).2 rfl] at inside fresh
  exact valid.write own leads (fun _ _ => rfl) (append_grows valid leads) ⟨log, standing, inside, fresh⟩
    fun log standing => valid.elected _ node log leads standing

theorem Valid.follow (led : state.leader (state.term node) = some leader) :
    Valid electorate (state.follow node length) := by
  have growth : Grows state (state.follow node length) := { Grows.refl state with }
  have newLog : (state.follow node length).log node
      = adopt (state.log node) ((state.book (state.term node)).take length) := Function.update_self _ _ _
  have oldLog : ∀ other, other ≠ node → (state.follow node length).log other = state.log other :=
    fun other distinct => Function.update_of_ne distinct _ _
  have part : (state.book (state.term node)).take length <+: state.book (state.term node) := List.take_prefix _ _
  have adopted := adopt_cases (state.log node) ((state.book (state.term node)).take length)
  refine
    { valid with
      led := ?_
      logs := ?_
      books := fun term other leads => (valid.books term other leads).grow growth
      campaigns := fun term other log standing => (valid.campaigns term other log standing).grow growth
      bounded := ?_
      held := ?_
      pledged := fun term voter other log ballot vacant standing =>
        valid.defers_grow growth rfl (valid.pledged term voter other log ballot vacant standing)
      elected := fun _ _ _ leads standing => valid.elected_grow growth rfl leads standing }
  · intro term other leads
    obtain ⟨reached, book⟩ := valid.led term other leads
    refine ⟨reached, fun same => ?_⟩
    by_cases mine : other = node
    · subst mine
      have held : state.log other = state.book (state.term other) := by
        rw [show state.term other = term from same]
        exact book same
      rw [newLog, adopt_of_inside (held ▸ part)]
      exact book same
    · rw [oldLog other mine]
      exact book same
  · intro other
    by_cases mine : other = node
    · subst mine
      rw [newLog]
      refine Sound.grow ?_ growth
      rcases adopted with ⟨same, _⟩ | ⟨same, _⟩
      · rw [same]
        exact valid.logs other
      · rw [same]
        exact (valid.books _ _ led).shorten part
    · rw [oldLog other mine]
      exact (valid.logs other).grow growth
  · intro other entry inside
    by_cases mine : other = node
    · subst mine
      rw [newLog] at inside
      rcases adopted with ⟨same, _⟩ | ⟨same, _⟩
      · rw [same] at inside
        exact valid.bounded other entry inside
      · rw [same] at inside
        exact valid.book_terms led (List.mem_of_mem_take inside)
    · rw [oldLog other mine] at inside
      exact valid.bounded other entry inside
  · intro term other reached ack count short carried
    have kept := valid.held_before growth ack short (Nat.lt_succ_self _) carried
    by_cases mine : other = node
    · subst mine
      rw [newLog]
      refine kept_prefix_adopt kept ?_ part
      rcases Nat.lt_or_eq_of_le (valid.acked term other reached ack).2.1 with earlier | same
      · obtain ⟨log, standing, opening, _⟩ := valid.opened _ _ led
        exact (carried _ leader log earlier (Nat.lt_succ_self _) led standing).trans opening
      · rw [same]
        exact List.take_prefix _ _
    · rw [oldLog other mine]
      exact kept

/-- An acknowledgement belongs to the node's current term, which no ballot it
has cast exceeds, so no earlier promise of deference covers it. -/
theorem Valid.acknowledge (led : state.leader (state.term node) = some leader)
    (short : length ≤ (state.book (state.term node)).length)
    (held : (state.book (state.term node)).take length <+: state.log node) :
    Valid electorate (state.acknowledge node length) := by
  have growth : Grows state (state.acknowledge node length) :=
    { Grows.refl state with acks := fun _ inside => Set.mem_insert_of_mem _ inside }
  have defers : ∀ term voter other log, (term, voter, other) ∈ state.ballots → state.Defers voter term log →
      (state.acknowledge node length).Defers voter term log := by
    intro term voter other log ballot before
    refine before.grow growth (fun _ _ ack => ⟨(valid.acked _ _ _ ack).1, (valid.acked _ _ _ ack).2.2⟩) ?_
    intro past reached ack earlier
    rcases Set.mem_insert_iff.mp ack with fresh | old
    · simp only [Prod.mk.injEq] at fresh
      obtain ⟨rfl, rfl, rfl⟩ := fresh
      have := (valid.polls.recorded _ _ _ ballot).1
      omega
    · exact old
  refine
    { valid with
      logs := fun other => (valid.logs other).grow growth
      books := fun term other leads => (valid.books term other leads).grow growth
      campaigns := fun term other log standing => (valid.campaigns term other log standing).grow growth
      acked := ?_
      held := ?_
      pledged := fun term voter other log ballot vacant standing =>
        defers term voter other log ballot (valid.pledged term voter other log ballot vacant standing)
      elected := ?_
      choices := ?_ }
  · intro term other reached ack
    rcases Set.mem_insert_iff.mp ack with fresh | old
    · simp only [Prod.mk.injEq] at fresh
      obtain ⟨rfl, rfl, rfl⟩ := fresh
      exact ⟨⟨leader, led⟩, Nat.le_refl _, short⟩
    · exact valid.acked term other reached old
  · intro term other reached ack count below carried
    rcases Set.mem_insert_iff.mp ack with fresh | old
    · simp only [Prod.mk.injEq] at fresh
      obtain ⟨rfl, rfl, rfl⟩ := fresh
      exact (List.take_prefix_take_left below).trans held
    · exact valid.held term other reached old count below carried
  · intro term other log leads standing
    obtain ⟨voters, elected, cast⟩ := valid.elected term other log leads standing
    exact ⟨voters, elected, fun voter inside => ⟨(cast voter inside).1,
      defers term voter other log (cast voter inside).1 (cast voter inside).2⟩⟩
  · intro term count chosen
    obtain ⟨positive, leads, present, quorum, majority, acks⟩ := valid.choices term count chosen
    refine ⟨positive, leads, present, quorum, majority, fun voter inside => ?_⟩
    obtain ⟨reached, below, ack⟩ := acks voter inside
    exact ⟨reached, below, Set.mem_insert_of_mem _ ack⟩

theorem Valid.choose (leads : state.leader (state.term node) = some node) (majority : Majority electorate quorum)
    (acked : ∀ voter ∈ quorum, ∃ reached, length ≤ reached ∧ (state.term node, voter, reached) ∈ state.acks)
    (positive : 0 < length) (present : (state.book (state.term node))[length - 1]? = some entry)
    (own : termOf entry = state.term node) : Valid electorate (state.choose (state.term node) length) := by
  refine { valid with choices := ?_ }
  intro term count chosen
  rcases Set.mem_insert_iff.mp chosen with fresh | old
  · simp only [Prod.mk.injEq] at fresh
    obtain ⟨rfl, rfl⟩ := fresh
    exact ⟨positive, ⟨node, leads⟩, ⟨entry, present, own⟩, quorum, majority, acked⟩
  · exact valid.choices term count old

end

theorem Step.valid (step : Step electorate node before after) (valid : Valid electorate before) :
    Valid electorate after := by
  cases step with
  | advance later => exact valid.advance later
  | stand later => exact valid.stand later
  | grant free stood fresh => exact valid.grant free stood fresh
  | elect stood vacant majority ballots own => exact valid.elect stood vacant majority ballots own
  | append leads own => exact valid.append leads own
  | follow led => exact valid.follow led
  | acknowledge led short held => exact valid.acknowledge led short held
  | choose leads majority acked positive present own =>
    exact valid.choose leads majority acked positive present own

abbrev Steps (electorate : Finset Node) (node : Node) :
    Replication Node Entry → Replication Node Entry → Prop :=
  Relation.ReflTransGen (Step electorate node)

theorem Steps.keeps (steps : Steps electorate node before after) (valid : Valid electorate before) :
    Valid electorate after ∧ Grows before after ∧ Frame node before after := by
  induction steps with
  | refl => exact ⟨valid, Grows.refl _, Frame.refl _ _⟩
  | tail _ step ih =>
    obtain ⟨middle, growth, frame⟩ := ih
    have next := step.grows middle
    exact ⟨step.valid middle, growth.trans next, frame.trans step.frame next⟩

def empty (Node Entry : Type*) : Replication Node Entry where
  term := fun _ => 0
  vote := fun _ => none
  ballots := ∅
  log := fun _ => []
  campaign := fun _ _ => none
  leader := fun _ => none
  book := fun _ => []
  acks := ∅
  chosen := ∅

omit [DecidableEq Node] in
theorem empty_valid (electorate : Finset Node) : Valid electorate (empty Node Entry) := by
  constructor
  case polls => exact ⟨by simp [empty], by simp [empty]⟩
  all_goals simp [empty, Sound]

end Replication
