import KayaDB.Raft.AppendSteps

/-! Append requests against a compacted log. Every index under the snapshot
reports the snapshot's last term, so requests that reach below it are checked
and merged against terms the entries need not have had. -/

namespace KayaDB.Raft
open RaftNode

/-- A log no part of which has been replaced by a snapshot. -/
def MemLog.whole (entries : List LogEntry) : MemLog := ⟨entries, 0, 0, none⟩

theorem Views.of_whole (entries : List LogEntry) : Views (.whole entries) entries :=
  ⟨Nat.zero_le _, rfl, fun _ => rfl, fun positive => absurd positive (Nat.lt_irrefl _),
    fun positive => absurd positive (Nat.lt_irrefl _)⟩

def TermsAscend (log : List LogEntry) : Prop := log.Pairwise fun earlier later => earlier.term ≤ later.term

/-- The request carries entries of the leader's log from the previous index on. -/
structure SentFrom (leader : List LogEntry) (request : AppendRequest) : Prop where
  entries : request.entries = (leader.take (request.prevLogIndex + request.entries.length)).drop request.prevLogIndex
  bound : request.prevLogIndex + request.entries.length ≤ leader.length
  prevTerm : (MemLog.whole leader).termAt request.prevLogIndex = some request.prevLogTerm

/-- A follower's log and a leader's, up to `upTo` the same. -/
structure SharedPrefix (own leader : List LogEntry) (upTo term : Nat) : Prop where
  positive : 0 < upTo
  within : upTo ≤ own.length
  stamp : (MemLog.whole own).termAt upTo = some term
  agrees : leader.take upTo = own.take upTo
  matching : Matching own leader
  ascending : TermsAscend own
  leaderAscending : TermsAscend leader

/-- The compacted node has answered and stored as the uncompacted one. -/
structure AppendRefines (own leader : List LogEntry) (upTo : Nat) (compacted full : RaftNode × List Envelope) :
    Prop where
  above : compacted.1.log.entriesFrom (upTo + 1) = full.1.log.entriesFrom (upTo + 1)
  answer : compacted.2 = full.2
  kept : ∀ index, upTo < index → index ≤ own.length → leader.take index = own.take index →
    compacted.1.log.get index = own[index - 1]?

/-- The request starts at or above the snapshot; or the previous entry, or else
the first entry sent, has the term the snapshot reports; or it is empty; or it
replaces everything above the snapshot. -/
def ClearOfCompaction (own : List LogEntry) (upTo term : Nat) (request : AppendRequest) : Prop :=
  upTo ≤ request.prevLogIndex ∨
  0 < request.prevLogIndex ∧ request.prevLogTerm = term ∨
  request.prevLogIndex = 0 ∧ (request.entries = [] ∨ request.entries.head?.map LogEntry.term = some term ∨
    upTo < request.entries.length ∧ ¬ (request.entries <+: own ∧ request.entries.length < own.length))

def MemLog.compacted (own : List LogEntry) (upTo term : Nat) (data : Bytes) : MemLog :=
  (whole own).installSnapshot upTo term data

/-- The node handles the request as it would without the snapshot. -/
def Unaffected (own leader : List LogEntry) (upTo term : Nat) (data : Bytes) (node : RaftNode) (sender : NodeId)
    (request : AppendRequest) : Prop :=
  AppendRefines own leader upTo ({ node with log := .compacted own upTo term data }.onAppendRequest sender request)
    ({ node with log := .whole own }.onAppendRequest sender request)

variable {request : AppendRequest} {node : RaftNode}

section
variable (sender : NodeId) (log : MemLog) (current : node.currentTerm ≤ request.term)
include current

theorem onAppendRequest_log : ({ node with log := log }.onAppendRequest sender request).1.log =
      if prevOk log request then mergeEntries log request.prevLogIndex request.entries else log := by
  rw [onAppendRequest, if_neg (Nat.not_lt.mpr current)]
  dsimp only
  cases prevOk log request <;> rfl

theorem onAppendRequest_answer :
    ({ node with log := log }.onAppendRequest sender request).2 = [node.envelope sender (.appendResponse
      ⟨node.currentTerm, prevOk log request,
        ({ node with log := log }.onAppendRequest sender request).1.log.lastIndex⟩)] := by
  rw [onAppendRequest, if_neg (Nat.not_lt.mpr current)]
  dsimp only
  cases found : prevOk log request <;> rfl

theorem onAppendRequest_floor :
    ({ node with log := log }.onAppendRequest sender request).1.log.lastIncludedIndex = log.lastIncludedIndex := by
  rw [onAppendRequest_log sender log current]
  split
  · exact mergeEntries_lastIncludedIndex _ _ _
  · rfl

end

section
variable {own leader : List LogEntry} {upTo term : Nat} {request : AppendRequest} {log : MemLog} {data : Bytes}
  {entry first : LogEntry} {index : Nat} {node : RaftNode} {rest : List LogEntry}

section
variable (shared : SharedPrefix own leader upTo term)
include shared

theorem SharedPrefix.views (data : Bytes) : Views (.compacted own upTo term data) own :=
  (Views.of_whole own).compact shared.within shared.stamp

theorem SharedPrefix.installed (data : Bytes) : (MemLog.compacted own upTo term data).lastIncludedIndex = upTo ∧
    (MemLog.compacted own upTo term data).lastIncludedTerm = term := by
  have newer : ¬ upTo ≤ (MemLog.whole own).lastIncludedIndex := Nat.not_le.mpr shared.positive
  rw [MemLog.compacted, MemLog.installSnapshot, if_neg newer]
  exact ⟨rfl, rfl⟩

/-- Leader entries under the snapshot have at most its term, those above at
least that. -/
theorem SharedPrefix.term_le (found : leader[index]? = some entry) :
    (index < upTo → entry.term ≤ term) ∧ (upTo ≤ index → term ≤ entry.term) := by
  have positive := shared.positive
  have stamp := shared.stamp
  rw [(Views.of_whole own).term_at positive (Nat.zero_le _)] at stamp
  rw [← List.prefix_of_getElem?_take shared.agrees (by omega)] at stamp
  obtain ⟨last, held, rfl⟩ := Option.map_eq_some_iff.mp stamp
  obtain ⟨bound, rfl⟩ := List.getElem?_eq_some_iff.mp found
  obtain ⟨end_, rfl⟩ := List.getElem?_eq_some_iff.mp held
  have ascending := List.pairwise_iff_getElem.mp shared.leaderAscending
  refine ⟨fun below => ?_, fun above => ?_⟩
  · rcases Nat.lt_or_eq_of_le (show index ≤ upTo - 1 by omega) with before | same
    · exact ascending index (upTo - 1) bound end_ before
    · simp only [same, le_refl]
  · exact ascending (upTo - 1) index end_ bound (by omega)

/-- A request that starts with a term of the snapshot's stays at that term up
to the end of the snapshot. -/
theorem SharedPrefix.term_eq {first : Nat} {start : LogEntry} (from_ : leader[first]? = some start)
    (same : start.term = term) (later : first ≤ index) (below : index < upTo) (found : leader[index]? = some entry) :
    entry.term = term := by
  refine Nat.le_antisymm ((shared.term_le found).1 below) ?_
  obtain ⟨bound, rfl⟩ := List.getElem?_eq_some_iff.mp found
  obtain ⟨before, rfl⟩ := List.getElem?_eq_some_iff.mp from_
  rcases Nat.lt_or_eq_of_le later with less | equal
  · rw [← same]
    exact List.pairwise_iff_getElem.mp shared.leaderAscending first index before bound less
  · subst equal
    exact same.ge

/-- Where the follower accepts, it ends up with the same log whether or not it
has been compacted. -/
theorem SharedPrefix.merged (sent : SentFrom leader request) (views : Views log own)
    (floor : log.lastIncludedIndex ≤ upTo) (reached : request.prevLogIndex ≤ own.length)
    (same : own.take request.prevLogIndex = leader.take request.prevLogIndex)
    (covered : ∀ offset entry, request.entries[offset]? = some entry → request.prevLogIndex + offset + 1 ≤
      log.lastIncludedIndex → entry.term = log.lastIncludedTerm) :
    Views (mergeEntries log request.prevLogIndex request.entries)
      (adopt own (leader.take (request.prevLogIndex + request.entries.length))) := by
  refine mergeEntries_views sent.bound request.entries _ log own views shared.matching reached same
    (Nat.le_add_right _ _) sent.entries ?_ covered
  have agree := congrArg (List.take log.lastIncludedIndex) shared.agrees
  rw [List.take_take, List.take_take, Nat.min_eq_left floor] at agree
  rw [← agree]
  exact List.take_prefix _ _

theorem SharedPrefix.prev_agrees (sent : SentFrom leader request) (ok : prevOk (.whole own) request = true) :
    request.prevLogIndex ≤ own.length ∧ own.take request.prevLogIndex = leader.take request.prevLogIndex := by
  rcases Nat.eq_zero_or_pos request.prevLogIndex with zero | positive
  · rw [zero]
    exact ⟨Nat.zero_le _, rfl⟩
  · have held := (prevOk_iff.mp ok).resolve_left positive.ne'
    have prev := sent.prevTerm
    rw [(Views.of_whole _).term_at positive (Nat.zero_le _)] at held prev
    obtain ⟨mine, found, first⟩ := Option.map_eq_some_iff.mp held
    obtain ⟨theirs, present, second⟩ := Option.map_eq_some_iff.mp prev
    have agree := shared.matching _ mine theirs found present (first.trans second.symm)
    rw [Nat.sub_add_cancel positive] at agree
    have := (List.getElem?_eq_some_iff.mp found).1
    exact ⟨by omega, agree⟩

theorem SharedPrefix.prev_ok (sent : SentFrom leader request) (below : request.prevLogIndex ≤ upTo) :
    prevOk (.whole own) request = true := by
  rw [prevOk_iff]
  rcases Nat.eq_zero_or_pos request.prevLogIndex with zero | positive
  · exact Or.inl zero
  · right
    rw [← sent.prevTerm, (Views.of_whole _).term_at positive (Nat.zero_le _),
      (Views.of_whole _).term_at positive (Nat.zero_le _),
      List.prefix_of_getElem?_take shared.agrees (by omega)]

end

theorem AppendRefines.of_views (sender : NodeId) {result : List LogEntry} {compact full : MemLog}
    (current : node.currentTerm ≤ request.term) (checks : prevOk compact request = prevOk full request)
    (compacted : Views ({ node with log := compact }.onAppendRequest sender request).1.log result)
    (uncompacted : Views ({ node with log := full }.onAppendRequest sender request).1.log result)
    (floor : compact.lastIncludedIndex = upTo) (bottom : full.lastIncludedIndex = 0)
    (kept : ∀ index ≤ own.length, leader.take index = own.take index → own.take index <+: result) :
    AppendRefines own leader upTo ({ node with log := compact }.onAppendRequest sender request)
      ({ node with log := full }.onAppendRequest sender request) := by
  have still := onAppendRequest_floor sender compact current
  have never := onAppendRequest_floor sender full current
  refine ⟨?_, ?_, fun index above inside same => ?_⟩
  · rw [compacted.entries_from (by omega), uncompacted.entries_from (by omega)]
  · rw [onAppendRequest_answer sender _ current, onAppendRequest_answer sender _ current, compacted.last_index,
      uncompacted.last_index, checks]
  · rw [compacted.get_eq (by omega)]
    obtain ⟨rest, whole⟩ := kept index inside same
    rw [← whole, List.getElem?_append_left (by rw [List.length_take]; omega), List.getElem?_take_of_lt (by omega)]

/-- An entry whose term is not the snapshot's, at an index under it, takes the
place of everything above it. -/
theorem mergeEntries_under (entries : List LogEntry) : ∀ (log : MemLog) (position : Nat),
    position + entries.length ≤ log.lastIncludedIndex → mergeEntries log position entries =
      (entries.filter fun entry => log.lastIncludedTerm ≠ entry.term).getLast?.elim log
        fun entry => { log with entries := [entry] } := by
  induction entries with
  | nil => exact fun _ _ _ => rfl
  | cons next rest ih =>
    intro log position below
    rw [List.length_cons] at below
    have reported : log.termAt (position + 1) = some log.lastIncludedTerm := by
      rw [MemLog.termAt, if_neg (by omega), if_pos (by omega)]
    have emptied : (log.truncateFrom (position + 1)).append next = { log with entries := [next] } := by
      rw [MemLog.truncateFrom, if_neg (by omega), if_pos (by omega)]
      rfl
    rw [mergeEntries, mergeEntry, reported]
    dsimp only
    split
    next conflict =>
      rw [emptied, ih { log with entries := [next] } (position + 1) (by dsimp only; omega),
        List.filter_cons_of_pos (by simpa using conflict), List.getLast?_cons]
      cases (rest.filter fun entry => decide (log.lastIncludedTerm ≠ entry.term)).getLast? <;> rfl
    next same => rw [ih log (position + 1) (by omega), List.filter_cons_of_neg (by simpa using same)]

theorem mergeEntries_append (first second : List LogEntry) : ∀ (log : MemLog) (position : Nat),
    mergeEntries log position (first ++ second) =
      mergeEntries (mergeEntries log position first) (position + first.length) second := by
  induction first with
  | nil => exact fun _ _ => rfl
  | cons entry rest ih =>
    intro log position
    rw [List.cons_append, mergeEntries, ih, mergeEntries, List.length_cons]
    congr 1
    omega

theorem Views.emptied (views : Views log own) :
    Views { log with entries := [] } (own.take log.lastIncludedIndex) := by
  have within := views.within
  refine ⟨?_, ?_, views.fresh, fun positive => ?_, views.stored⟩
  · rw [List.length_take]
    exact Nat.le_min.mpr ⟨Nat.le_refl _, within⟩
  · rw [List.drop_eq_nil_of_le (by rw [List.length_take]; exact Nat.min_le_left _ _)]
  · rw [List.getElem?_take_of_lt (Nat.sub_lt positive Nat.one_pos)]
    exact views.stamp positive

/-- Sent again from the start, the first entries under a snapshot of a later
term leave one of them as the only entry above it. -/
theorem collided (floor : log.lastIncludedIndex = upTo) (stamp : log.lastIncludedTerm = term)
    (differs : first.term ≠ term) (short : rest.length + 1 ≤ upTo) :
    ∃ entry ∈ first :: rest, mergeEntries log 0 (first :: rest) = { log with entries := [entry] } ∧ entry.term ≠ term := by
  subst floor stamp
  rw [mergeEntries_under _ log 0 (by rw [List.length_cons]; omega)]
  have some : first ∈ (first :: rest).filter fun entry => log.lastIncludedTerm ≠ entry.term :=
    List.mem_filter.mpr ⟨List.mem_cons_self, decide_eq_true differs.symm⟩
  have last := List.getLast?_eq_some_getLast (List.ne_nil_of_mem some)
  obtain ⟨inside, other⟩ := List.mem_filter.mp (List.mem_of_getLast? last)
  exact ⟨_, inside, by rw [last]; rfl, Ne.symm (of_decide_eq_true other)⟩

theorem SharedPrefix.overwritten (shared : SharedPrefix own leader upTo term) (views : Views log own)
    (floor : log.lastIncludedIndex = upTo) (stamp : log.lastIncludedTerm = term) {count : Nat}
    (inside : count ≤ leader.length) (beyond : upTo < count) (head : leader[0]? = some first)
    (differs : first.term ≠ term) : Views (mergeEntries log 0 (leader.take count)) (leader.take count) := by
  have positive := shared.positive
  obtain ⟨next, found⟩ : ∃ next, leader[upTo]? = some next := ⟨_, List.getElem?_eq_getElem (by omega)⟩
  obtain ⟨rest, start⟩ : ∃ rest, leader.take upTo = first :: rest := by
    cases leader with
    | nil => cases head
    | cons front rest =>
      cases head
      exact ⟨rest.take (upTo - 1), by rw [List.take_cons positive]⟩
  have split : leader.take count = leader.take upTo ++ next :: (leader.take count).drop (upTo + 1) := by
    have whole := (List.take_append_drop upTo (leader.take count)).symm
    rw [List.take_take, Nat.min_eq_left (Nat.le_of_lt beyond)] at whole
    rw [List.drop_eq_getElem_cons (by rw [List.length_take]; omega), List.getElem_take] at whole
    obtain ⟨bound, rfl⟩ := List.getElem?_eq_some_iff.mp found
    exact whole
  have length : (leader.take upTo).length = upTo := List.length_take_of_le (by omega)
  rw [split, mergeEntries_append, Nat.zero_add, length]
  obtain ⟨entry, origin, single, other⟩ := collided floor stamp differs
    (by rw [← List.length_cons, ← start, length])
  have smaller : entry.term < term := by
    rw [← start] at origin
    obtain ⟨index, below, same⟩ := List.mem_take_iff_getElem.mp origin
    refine Nat.lt_of_le_of_ne ((shared.term_le (List.getElem?_eq_some_iff.mpr ⟨by omega, same⟩)).1 ?_) other
    omega
  have larger := (shared.term_le found).2 (Nat.le_refl _)
  have reported : MemLog.termAt { log with entries := [entry] } (upTo + 1) = some entry.term := by
    rw [MemLog.termAt, if_neg (by omega), if_neg (by dsimp only; omega)]
    simp [floor]
  have cut : MemLog.truncateFrom { log with entries := [entry] } (upTo + 1) = { log with entries := [] } := by
    rw [MemLog.truncateFrom, if_neg (by omega), if_neg (by dsimp only; omega)]
    simp [floor]
  rw [start, single, mergeEntries, mergeEntry, reported]
  dsimp only
  rw [if_pos (by omega), cut]
  have base : Views { log with entries := [] } (leader.take upTo) := by
    rw [shared.agrees, ← floor]
    exact views.emptied
  have grown : Views (MemLog.append { log with entries := [] } next) (leader.take (upTo + 1)) := by
    rw [List.take_add_one, found]
    exact base.append next
  have merged := mergeEntries_views inside ((leader.take count).drop (upTo + 1)) (upTo + 1) _ _ grown
    (Matching.of_take leader _) (by rw [List.length_take]; omega) (by rw [List.take_take, Nat.min_self]) beyond rfl
    ((List.take_prefix _ _).trans (List.take_prefix _ _)) (fun offset later _ below => by
      rw [MemLog.append_lastIncludedIndex] at below
      exact absurd below (by simp only; omega))
  rw [adopt_of_longer (List.take_prefix_take_left beyond)] at merged
  rw [← start, ← split]
  exact merged

theorem SharedPrefix.full_log (shared : SharedPrefix own leader upTo term) (sent : SentFrom leader request)
    (ok : prevOk (.whole own) request = true) :
    Views (mergeEntries (.whole own) request.prevLogIndex request.entries)
      (adopt own (leader.take (request.prevLogIndex + request.entries.length))) := by
  obtain ⟨reached, same⟩ := shared.prev_agrees sent ok
  exact shared.merged sent (Views.of_whole own) (Nat.zero_le _) reached same
    fun offset entry _ below => absurd below (Nat.not_le.mpr (Nat.succ_pos _))

theorem shared_prefix_adopt (count : Nat) (agrees : leader.take index = own.take index) :
    own.take index <+: adopt own (leader.take count) :=
  kept_prefix_adopt (List.take_prefix _ _) (agrees ▸ List.take_prefix _ _) (List.take_prefix _ _)

section
variable (shared : SharedPrefix own leader upTo term) (sent : SentFrom leader request) (sender : NodeId)
  (current : node.currentTerm ≤ request.term)
include shared sent sender current

theorem SharedPrefix.refines (ok : prevOk (.compacted own upTo term data) request = true)
    (whole : prevOk (.whole own) request = true)
    (views : Views (mergeEntries (.compacted own upTo term data) request.prevLogIndex
      request.entries) (adopt own (leader.take (request.prevLogIndex + request.entries.length)))) :
    Unaffected own leader upTo term data node sender request := by
  refine AppendRefines.of_views sender current (ok.trans whole.symm) ?_ ?_ (shared.installed data).1 rfl
    fun index _ agrees => shared_prefix_adopt (request.prevLogIndex + request.entries.length) agrees
  · rw [onAppendRequest_log sender _ current, if_pos ok]
    exact views
  · rw [onAppendRequest_log sender _ current, if_pos whole]
    exact shared.full_log sent whole

theorem SharedPrefix.refines_above (above : upTo ≤ request.prevLogIndex) :
    Unaffected own leader upTo term data node sender request := by
  have positive := shared.positive
  have views := shared.views data
  obtain ⟨floor, -⟩ := shared.installed data
  have checks : prevOk (.compacted own upTo term data) request = prevOk (.whole own) request := by
    rw [prevOk, prevOk, views.term_at (by omega) (by omega), (Views.of_whole own).term_at (by omega) (Nat.zero_le _)]
  cases whole : prevOk (.whole own) request with
  | true =>
    obtain ⟨reached, same⟩ := shared.prev_agrees sent whole
    exact shared.refines sent sender current (checks.trans whole) whole
      (shared.merged sent views floor.le reached same fun offset entry _ below => absurd below (by omega))
  | false =>
    refine AppendRefines.of_views sender current checks ?_ ?_ floor rfl fun index _ _ => List.take_prefix index own
    · rw [onAppendRequest_log sender _ current, checks, whole]
      exact views
    · rw [onAppendRequest_log sender _ current, whole]
      exact Views.of_whole own

theorem SharedPrefix.refines_below (below : request.prevLogIndex < upTo)
    (check : request.prevLogIndex = 0 ∨ request.prevLogTerm = term)
    (uniform : ∀ index entry, request.prevLogIndex ≤ index → index < upTo → index < request.prevLogIndex +
      request.entries.length → leader[index]? = some entry → entry.term = term) :
    Unaffected own leader upTo term data node sender request := by
  have whole := shared.prev_ok sent (Nat.le_of_lt below)
  obtain ⟨reached, same⟩ := shared.prev_agrees sent whole
  obtain ⟨floor, stamp⟩ := shared.installed data
  have ok : prevOk (.compacted own upTo term data) request = true := by
    rw [prevOk_iff]
    refine check.imp_right fun known => ?_
    rcases Nat.eq_zero_or_pos request.prevLogIndex with zero | positive
    · have prev := sent.prevTerm
      rw [zero] at prev ⊢
      exact prev
    · rw [MemLog.termAt, if_neg (by omega), if_pos (by omega), stamp, known]
  refine shared.refines sent sender current ok whole
    (shared.merged sent (shared.views data) floor.le reached same fun offset entry found covered => ?_)
  have bound := (List.getElem?_eq_some_iff.mp found).1
  rw [sent.entries, List.getElem?_drop, List.getElem?_take_of_lt (by omega)] at found
  rw [stamp]
  exact uniform _ entry (Nat.le_add_right _ _) (by omega) (by omega) found

end

theorem SentFrom.from_start (sent : SentFrom leader request) (zero : request.prevLogIndex = 0) :
    request.entries = leader.take request.entries.length := by
  have entries := sent.entries
  rw [zero, Nat.zero_add] at entries
  exact entries

theorem SentFrom.head (sent : SentFrom leader request) (zero : request.prevLogIndex = 0)
    (cons : request.entries = first :: rest) : leader[0]? = some first := by
  have start := congrArg (fun list => list[0]?) (cons.symm.trans (sent.from_start zero))
  rw [cons] at start
  simpa using start.symm

section
variable (shared : SharedPrefix own leader upTo term) (sent : SentFrom leader request) (sender : NodeId)
  (current : node.currentTerm ≤ request.term) (zero : request.prevLogIndex = 0)
include shared sent current zero

/-- From the first index on: the request rewrites the log above the snapshot,
and nothing of the own log would have been left after it anyway. -/
theorem SharedPrefix.refines_rewrite
    (head : leader[0]? = some first) (differs : first.term ≠ term) (beyond : upTo < request.entries.length)
    (last : ¬ (request.entries <+: own ∧ request.entries.length < own.length)) :
    Unaffected own leader upTo term data node sender request := by
  have bound := sent.bound
  obtain ⟨floor, stamp⟩ := shared.installed data
  have taken := sent.from_start zero
  have rewritten := shared.overwritten (shared.views data) floor stamp (by omega) beyond head differs
  have ok : prevOk (.compacted own upTo term data) request = true := by
    rw [prevOk, zero]
    rfl
  refine shared.refines sent sender current ok (shared.prev_ok sent (by omega)) ?_
  have result : adopt own (leader.take request.entries.length) = leader.take request.entries.length := by
    rcases adopt_cases own (leader.take request.entries.length) with ⟨same, inside⟩ | ⟨same, _⟩
    · rw [← taken] at inside
      have reached : own.length ≤ request.entries.length := by
        by_contra longer
        exact last ⟨inside, by omega⟩
      rw [same, ← taken]
      exact (inside.eq_of_length (Nat.le_antisymm inside.length_le reached)).symm
    · exact same
  rw [zero, Nat.zero_add, result]
  rw [← taken] at rewritten ⊢
  exact rewritten

/-- From the first index on, with entries of earlier terms than the snapshot's:
what is left above the snapshot is not what the whole log would hold there. -/
theorem SharedPrefix.not_refines_start (cons : request.entries = first :: rest) (differs : first.term ≠ term)
    (stuck : request.entries.length ≤ upTo ∨ request.entries <+: own ∧ request.entries.length < own.length) :
    ({ node with log := .compacted own upTo term data }.onAppendRequest sender
        request).1.log.entriesFrom (upTo + 1) ≠
      ({ node with log := .whole own }.onAppendRequest sender request).1.log.entriesFrom (upTo + 1) := by
  have positive := shared.positive
  have bound := sent.bound
  obtain ⟨floor, stamp⟩ := shared.installed data
  have taken := sent.from_start zero
  have ok : prevOk (.compacted own upTo term data) request = true := by
    rw [prevOk, zero]
    rfl
  have whole := shared.prev_ok sent (by omega)
  have head := sent.head zero cons
  have settled := shared.full_log sent whole
  rw [onAppendRequest_log sender _ current, if_pos ok, onAppendRequest_log sender _ current, if_pos whole,
    settled.entries_from (by rw [mergeEntries_lastIncludedIndex]; exact Nat.succ_pos _), Nat.add_sub_cancel]
  have merged := mergeEntries_lastIncludedIndex request.entries (.compacted own upTo term data) 0
  rw [zero, Nat.zero_add] at *
  rw [← taken]
  rcases Nat.lt_or_ge upTo request.entries.length with beyond | short
  · rcases stuck with small | ⟨inside, longer⟩
    · omega
    have rewritten := shared.overwritten (shared.views data) floor stamp bound beyond head differs
    rw [← taken] at rewritten
    rw [rewritten.entries_from (by omega), Nat.add_sub_cancel, adopt_of_inside inside]
    intro same
    have := congrArg List.length same
    rw [List.length_drop, List.length_drop] at this
    omega
  · obtain ⟨entry, origin, single, other⟩ := collided floor stamp differs
      (show rest.length + 1 ≤ upTo by rw [← List.length_cons, ← cons]; exact short)
    rw [← cons] at origin single
    have under : entry.term ≤ term := by
      rw [taken] at origin
      obtain ⟨index, below, same⟩ := List.mem_take_iff_getElem.mp origin
      exact (shared.term_le (List.getElem?_eq_some_iff.mpr ⟨by omega, same⟩)).1 (by omega)
    have inside : request.entries <+: own := by
      rw [taken]
      have part : leader.take request.entries.length = (own.take upTo).take request.entries.length := by
        rw [← shared.agrees, List.take_take, Nat.min_eq_left short]
      rw [part, List.take_take]
      exact List.take_prefix _ _
    rw [single, MemLog.entriesFrom, floor, if_neg (by omega), adopt_of_inside inside]
    simp only [List.length_singleton, Nat.add_sub_cancel_left, Nat.sub_self, Nat.one_ne_zero, nonpos_iff_eq_zero,
      if_false, List.drop_zero]
    intro same
    have found : own[upTo]? = some entry := by
      have := congrArg (fun list => list[0]?) same
      simpa using this.symm
    have later : term ≤ entry.term := by
      have stamped := shared.stamp
      rw [(Views.of_whole own).term_at positive (Nat.zero_le _)] at stamped
      obtain ⟨last, held, rfl⟩ := Option.map_eq_some_iff.mp stamped
      obtain ⟨one, rfl⟩ := List.getElem?_eq_some_iff.mp held
      obtain ⟨two, rfl⟩ := List.getElem?_eq_some_iff.mp found
      exact List.pairwise_iff_getElem.mp shared.ascending _ _ one two (by omega)
    exact other (Nat.le_antisymm under later)

end

/-- A compacted log handles a leader's request like the whole log exactly when
the request is clear of the compaction. -/
theorem append_refines_iff (shared : SharedPrefix own leader upTo term) (sent : SentFrom leader request)
    (node : RaftNode) (sender : NodeId) (data : Bytes) (current : node.currentTerm ≤ request.term) :
    AppendRefines own leader upTo
      ({ node with log := (MemLog.whole own).installSnapshot upTo term data }.onAppendRequest sender request)
      ({ node with log := .whole own }.onAppendRequest sender request) ↔ ClearOfCompaction own upTo term request := by
  have bound := sent.bound
  rcases Nat.lt_or_ge request.prevLogIndex upTo with below | above
  swap
  · exact ⟨fun _ => Or.inl above, fun _ => shared.refines_above sent sender current above⟩
  rcases Nat.eq_zero_or_pos request.prevLogIndex with zero | positive
  · -- a request from the first index
    cases cons : request.entries with
    | nil =>
      refine ⟨fun _ => Or.inr (Or.inr ⟨zero, Or.inl cons⟩), fun _ => ?_⟩
      refine shared.refines_below sent sender current below (Or.inl zero) fun index entry _ _ inside => ?_
      rw [cons, List.length_nil] at inside
      omega
    | cons first rest =>
      have head := sent.head zero cons
      have known : request.entries.head?.map LogEntry.term = some first.term := by
        rw [cons]
        rfl
      by_cases same : first.term = term
      · refine ⟨fun _ => Or.inr (Or.inr ⟨zero, Or.inr (Or.inl (same ▸ known))⟩), fun _ => ?_⟩
        exact shared.refines_below sent sender current below (Or.inl zero)
          fun index entry _ under _ found => shared.term_eq head same (Nat.zero_le _) under found
      · constructor
        · intro refines
          by_contra unclear
          refine shared.not_refines_start sent sender current zero cons same ?_ refines.above
          by_contra free
          rw [not_or] at free
          exact unclear (Or.inr (Or.inr ⟨zero, Or.inr (Or.inr ⟨by omega, free.2⟩)⟩))
        · rintro (above | ⟨positive, -⟩ | ⟨-, empty | reported | ⟨beyond, last⟩⟩)
          · omega
          · omega
          · rw [cons] at empty
            cases empty
          · rw [known] at reported
            exact absurd (Option.some.inj reported) same
          · exact shared.refines_rewrite sent sender current zero head same beyond last
  · -- a request whose previous entry lies under the snapshot
    constructor
    · intro refines
      refine Or.inr (Or.inl ⟨positive, ?_⟩)
      have answers := refines.answer
      rw [onAppendRequest_answer sender _ current, onAppendRequest_answer sender _ current] at answers
      have ok : prevOk (.compacted own upTo term data) request = prevOk (.whole own) request := by
        have replies := congrArg Envelope.message (List.head_eq_of_cons_eq answers)
        exact congrArg AppendResponse.success (Message.appendResponse.inj replies)
      obtain ⟨floor, stamp⟩ := shared.installed data
      have reported := (prevOk_iff.mp (ok.trans (shared.prev_ok sent (Nat.le_of_lt below)))).resolve_left positive.ne'
      rw [MemLog.termAt, if_neg (by omega), if_pos (by omega), stamp] at reported
      exact (Option.some.inj reported).symm
    · rintro (above | ⟨-, reported⟩ | ⟨zero, -⟩)
      · omega
      · have prev := sent.prevTerm
        rw [(Views.of_whole leader).term_at positive (Nat.zero_le _)] at prev
        obtain ⟨start, found, stamped⟩ := Option.map_eq_some_iff.mp prev
        exact shared.refines_below sent sender current below (Or.inr reported)
          fun index entry later under _ present => shared.term_eq found (stamped.trans reported) (by omega) under present
      · omega

end

def mixedTerms : List LogEntry := [⟨1, [1]⟩, ⟨2, [2]⟩, ⟨2, [3]⟩]

def follower : RaftNode := { RaftNode.new ⟨⟨2⟩, [⟨1⟩], 1, 1⟩ with currentTerm := 2 }

theorem mixedTerms_shared : SharedPrefix mixedTerms mixedTerms 2 2 where
  positive := by decide
  within := by decide
  stamp := rfl
  agrees := rfl
  matching := fun _ _ _ _ _ _ => rfl
  ascending := by unfold TermsAscend; decide
  leaderAscending := by unfold TermsAscend; decide

theorem append_refines_iff_at_the_edge :
    AppendRefines mixedTerms mixedTerms 2
      ({ follower with log := (MemLog.whole mixedTerms).installSnapshot 2 2 [] }.onAppendRequest ⟨1⟩
        ⟨2, ⟨1⟩, 2, 2, [⟨2, [3]⟩], 3⟩)
      ({ follower with log := .whole mixedTerms }.onAppendRequest ⟨1⟩ ⟨2, ⟨1⟩, 2, 2, [⟨2, [3]⟩], 3⟩) :=
  (append_refines_iff mixedTerms_shared ⟨rfl, by decide, rfl⟩ follower ⟨1⟩ [] (by decide)).mpr (Or.inl (by decide))

def duplicate : AppendRequest := ⟨2, ⟨1⟩, 0, 0, [⟨1, [1]⟩], 3⟩

/-- The duplicate wipes out the entry above the snapshot and puts the first
entry in its place. -/
theorem duplicate_renumbers_entries :
    SharedPrefix mixedTerms mixedTerms 2 2 ∧ SentFrom mixedTerms duplicate ∧
      ({ follower with log := (MemLog.whole mixedTerms).installSnapshot 2 2 [] }.onAppendRequest ⟨1⟩
        duplicate).1.log.get 3 = some ⟨1, [1]⟩ ∧
      ({ follower with log := .whole mixedTerms }.onAppendRequest ⟨1⟩ duplicate).1.log.get 3 = some ⟨2, [3]⟩ :=
  ⟨mixedTerms_shared, ⟨rfl, by decide, rfl⟩, by decide +kernel, by decide +kernel⟩

end KayaDB.Raft
