import KayaDB.Library.Swaps
import KayaDB.Raft.CommandTrip
import KayaDB.Raft.RangePartition

/-! The range table as group 0 replicates it. A split, merge or move proposes the whole
table with the epoch it started from, and a committed table is installed only on that
epoch. A node starts from the file of its table and applies the log from its beginning.
-/

namespace KayaDB.Raft
open Readers Swaps

namespace StaticRangeTable

def encodeRange (range : StaticRange) : Bytes :=
  toLeBytes 8 range.rangeId ++ toLeBytes 8 range.epoch ++ toLeBytes 8 range.groupId ++ pushBytes range.startKey ++
    pushBytes range.endKey

def encode (table : StaticRangeTable) : Bytes :=
  1 :: (toLeBytes 8 table.metaEpoch ++ toLeBytes 8 table.nextRangeId ++ toLeBytes 8 table.nextGroupId ++
    u32Bytes table.ranges.length ++ table.ranges.flatMap encodeRange)

def takeWord (width : Nat) (label : String) : Decoder Nat := fun cur =>
  if cur.length < width then .error s!"truncated range table ({label})"
  else .ok (fromLeBytes (cur.take width), cur.drop width)

def takeU64 : String → Decoder Nat := takeWord 8

def takeU32 : String → Decoder Nat := takeWord 4

def takeBytes (label : String) : Decoder Bytes := fun cur => do
  let (len, cur) ← takeU32 label cur
  if cur.length < len then .error s!"truncated range table ({label}): need {len}, have {cur.length}"
  else .ok (cur.take len, cur.drop len)

def takeRange : Decoder StaticRange := fun cur => do
  let (rangeId, cur) ← takeU64 "range_id" cur
  let (epoch, cur) ← takeU64 "epoch" cur
  let (groupId, cur) ← takeU64 "group_id" cur
  let (startKey, cur) ← takeBytes "start_key" cur
  let (endKey, cur) ← takeBytes "end_key" cur
  .ok (⟨startKey, endKey, groupId, rangeId, epoch⟩, cur)

def decode : Bytes → Except String StaticRangeTable
  | [] => .error "empty range table snapshot"
  | version :: cur =>
    if version ≠ 1 then .error s!"unsupported range table version: {version}"
    else do
      let (metaEpoch, cur) ← takeU64 "meta_epoch" cur
      let (nextRangeId, cur) ← takeU64 "next_range_id" cur
      let (nextGroupId, cur) ← takeU64 "next_group_id" cur
      let (count, cur) ← takeU32 "range count" cur
      let (ranges, cur) ← nextMany takeRange count cur
      if cur.isEmpty then .ok ⟨ranges, metaEpoch, nextRangeId, nextGroupId⟩
      else .error s!"trailing {cur.length} bytes after range table snapshot"

end StaticRangeTable

/-- A table in the log of group 0 with the epoch it was made from. -/
structure RangeMetaEntry where
  baseEpoch : UInt64
  snapshot : Bytes
  fits : snapshot.length < 2 ^ 32

def RangeMetaEntry.command (entry : RangeMetaEntry) : Bytes :=
  (RaftCommand.rangeMeta entry.baseEpoch entry.snapshot).encode

def decodeRangeMeta (command : Bytes) : Option (UInt64 × Bytes) :=
  match RaftCommand.decode command with
  | .ok (.rangeMeta baseEpoch snapshot) => some (baseEpoch, snapshot)
  | _ => none

/-- `file` is what `range-table.bin` holds. -/
structure MetaNode where
  rangeTable : StaticRangeTable
  file : Option Bytes

namespace MetaNode

def persistRangeTable (node : MetaNode) (table : StaticRangeTable) : MetaNode := { node with file := some table.encode }

def loadPersistedRangeTable (node : MetaNode) : Option StaticRangeTable :=
  node.file.bind fun bytes => (StaticRangeTable.decode bytes).toOption

def applyRangeMetaEntry (node : MetaNode) (baseEpoch : UInt64) (snapshot : Bytes) : Except String Unit × MetaNode :=
  match StaticRangeTable.decode snapshot with
  | .error message => (.error message, node)
  | .ok newTable =>
    if node.rangeTable.metaEpoch ≠ baseEpoch.toNat then
      if node.rangeTable.encode = snapshot then (.ok (), node)
      else
        (.error s!"range meta CAS failed: base_epoch={baseEpoch} current={node.rangeTable.metaEpoch}", node)
    else (.ok (), { node.persistRangeTable newTable with rangeTable := newTable })

def apply (node : MetaNode) (entry : RangeMetaEntry) : MetaNode :=
  match decodeRangeMeta entry.command with
  | some (baseEpoch, snapshot) => (node.applyRangeMetaEntry baseEpoch snapshot).2
  | none => node

def run (node : MetaNode) (log : List RangeMetaEntry) : MetaNode := log.foldl apply node

def boot (config : StaticRangeTable) : MetaNode := ⟨config, none⟩

/-- A node starts with the table of the file, or else with the configured one. -/
def restart (node : MetaNode) (config : StaticRangeTable) : MetaNode :=
  { node with rangeTable := node.loadPersistedRangeTable.getD config }

end MetaNode

def RangeCall.Word : RangeCall → Prop
  | .splitAt _ | .mergeWithNext _ => True
  | .moveRange _ targetGroup => targetGroup < 2 ^ 64

/-- Every entry was proposed by a node that had applied a part of the log before it
and made one change of its table. -/
inductive Proposed (config : StaticRangeTable) : List RangeMetaEntry → Prop where
  | nil : Proposed config []
  | propose {log earlier table call next entry} : Proposed config log → earlier <+: log →
      table = ((MetaNode.boot config).run earlier).rangeTable → call.Word → table.perform call = (.ok (), next) →
      entry.baseEpoch.toNat = table.metaEpoch → entry.snapshot = next.encode → Proposed config (log ++ [entry])

/-- The epoch never goes back, of the entries with one base epoch just the first is
installed, and the log ends in the same table from every table that was in the file. -/
structure SafeSwaps (config : StaticRangeTable) (log : List RangeMetaEntry) : Prop where
  epoch : ∀ front later, front ++ later <+: log → ((MetaNode.boot config).run front).rangeTable.metaEpoch ≤
    ((MetaNode.boot config).run (front ++ later)).rangeTable.metaEpoch
  first : ∀ front entry back, log = front ++ entry :: back →
    (∀ earlier ∈ front, earlier.baseEpoch ≠ entry.baseEpoch) →
    StaticRangeTable.decode entry.snapshot = .ok ((MetaNode.boot config).run (front ++ [entry])).rangeTable ∧
      ((MetaNode.boot config).run (front ++ [entry])).file = some entry.snapshot
  others : ∀ front entry back, log = front ++ entry :: back →
    (∃ earlier ∈ front, earlier.baseEpoch = entry.baseEpoch) →
    (MetaNode.boot config).run (front ++ [entry]) = (MetaNode.boot config).run front
  replay : ∀ front, front <+: log → ((((MetaNode.boot config).run front).restart config).run log).rangeTable =
    ((MetaNode.boot config).run log).rangeTable

namespace StaticRangeTable

structure WordRange (range : StaticRange) : Prop where
  rangeId : range.rangeId < 2 ^ 64
  epoch : range.epoch < 2 ^ 64
  groupId : range.groupId < 2 ^ 64

structure Words (table : StaticRangeTable) : Prop where
  metaEpoch : table.metaEpoch < 2 ^ 64
  nextRangeId : table.nextRangeId < 2 ^ 64
  nextGroupId : table.nextGroupId < 2 ^ 64
  ranges : ∀ range ∈ table.ranges, WordRange range

/-- The lengths that are written with 32 bits. -/
structure Fits (table : StaticRangeTable) : Prop where
  ranges : table.ranges.length < 2 ^ 32
  startKey : ∀ range ∈ table.ranges, range.startKey.length < 2 ^ 32
  endKey : ∀ range ∈ table.ranges, range.endKey.length < 2 ^ 32

variable {value : Nat} {range : StaticRange} {table : StaticRangeTable} {call : RangeCall} {bytes : Bytes}

theorem reads_takeU64 (label : String) (small : value < 2 ^ 64) :
    Reads (takeU64 label) (toLeBytes 8 value) value := reads_word small _ id

theorem reads_takeU32 (label : String) (small : value < 2 ^ 32) :
    Reads (takeU32 label) (u32Bytes value) value := reads_word small _ id

theorem reads_takeBytes (label : String) (fits : bytes.length < 2 ^ 32) :
    Reads (takeBytes label) (pushBytes bytes) bytes := by
  intro rest
  rw [takeBytes, pushBytes, List.append_assoc, (reads_takeU32 label fits).bind_eq]
  simp

theorem reads_takeRange (words : WordRange range) (start : range.startKey.length < 2 ^ 32)
    (stop : range.endKey.length < 2 ^ 32) : Reads takeRange (encodeRange range) range := by
  intro rest
  simp only [takeRange, encodeRange, List.append_assoc]
  rw [(reads_takeU64 _ words.rangeId).bind_eq, (reads_takeU64 _ words.epoch).bind_eq,
    (reads_takeU64 _ words.groupId).bind_eq, (reads_takeBytes _ start).bind_eq, (reads_takeBytes _ stop).bind_eq]

theorem length_flatMap_le {ranges : List StaticRange} (inside : range ∈ ranges) :
    (encodeRange range).length ≤ (ranges.flatMap encodeRange).length := by
  obtain ⟨front, back, rfl⟩ := List.append_of_mem inside
  simp only [List.flatMap_append, List.flatMap_cons, List.length_append]
  omega

theorem count_le (ranges : List StaticRange) : ranges.length ≤ (ranges.flatMap encodeRange).length := by
  induction ranges with
  | nil => exact le_rfl
  | cons range ranges ih =>
    have own : 1 ≤ (encodeRange range).length := by simp [encodeRange, length_toLeBytes]; omega
    rw [List.flatMap_cons, List.length_append, List.length_cons]
    omega

theorem fits_of_length (short : table.encode.length < 2 ^ 32) : table.Fits := by
  simp only [encode, List.length_cons, List.length_append] at short
  have few := count_le table.ranges
  refine ⟨by omega, fun range inside => ?_, fun range inside => ?_⟩
  all_goals
    have part := length_flatMap_le inside
    simp only [encodeRange, pushBytes, List.length_append] at part
    omega

theorem decode_encode (words : table.Words) (fits : table.Fits) : decode table.encode = .ok table := by
  have each : ∀ range ∈ table.ranges, Reads takeRange (encodeRange range) range := fun range inside =>
    reads_takeRange (words.ranges range inside) (fits.startKey range inside) (fits.endKey range inside)
  simp only [encode, decode, ne_eq, not_true_eq_false, if_false, List.append_assoc]
  rw [(reads_takeU64 _ words.metaEpoch).bind_eq, (reads_takeU64 _ words.nextRangeId).bind_eq,
    (reads_takeU64 _ words.nextGroupId).bind_eq, (reads_takeU32 _ fits.ranges).bind_eq, (reads_many each).bind_last]
  rfl

theorem exact_takeWord (width : Nat) (label : String) : Exact (takeWord width label) (toLeBytes width) := by
  intro text value rest read
  unfold takeWord at read
  split at read
  next => cases read
  next room =>
    cases read
    have whole : (text.take width).length = width := by simp; omega
    have written := toLeBytes_fromLeBytes (text.take width)
    rw [whole] at written
    rw [written, List.take_append_drop]

theorem exact_takeBytes (label : String) : Exact (takeBytes label) pushBytes := by
  intro text value rest read
  obtain ⟨⟨len, cur⟩, taken, read⟩ := bind_eq_ok.mp read
  dsimp only at read
  split at read
  next => cases read
  next room =>
    cases read
    have whole : (cur.take len).length = len := by simp; omega
    rw [exact_takeWord 4 label taken, pushBytes, whole, List.append_assoc, List.take_append_drop]
    rfl

theorem exact_takeRange : Exact takeRange encodeRange := by
  intro text range rest read
  obtain ⟨⟨rangeId, afterId⟩, id, read⟩ := bind_eq_ok.mp read
  obtain ⟨⟨epoch, afterEpoch⟩, second, read⟩ := bind_eq_ok.mp read
  obtain ⟨⟨groupId, afterGroup⟩, group, read⟩ := bind_eq_ok.mp read
  obtain ⟨⟨startKey, afterStart⟩, start, read⟩ := bind_eq_ok.mp read
  obtain ⟨⟨endKey, afterEnd⟩, stop, read⟩ := bind_eq_ok.mp read
  cases read
  rw [exact_takeWord _ _ id, exact_takeWord _ _ second, exact_takeWord _ _ group, exact_takeBytes _ start,
    exact_takeBytes _ stop]
  simp [encodeRange]

theorem encode_decode (read : decode bytes = .ok table) : table.encode = bytes := by
  unfold decode at read
  split at read
  next => cases read
  next version cur =>
    split at read
    next => cases read
    next known =>
      obtain ⟨⟨metaEpoch, afterEpoch⟩, epoch, read⟩ := bind_eq_ok.mp read
      obtain ⟨⟨nextRangeId, afterRange⟩, range, read⟩ := bind_eq_ok.mp read
      obtain ⟨⟨nextGroupId, afterGroup⟩, group, read⟩ := bind_eq_ok.mp read
      obtain ⟨⟨count, afterCount⟩, counted, read⟩ := bind_eq_ok.mp read
      obtain ⟨⟨ranges, last⟩, many, read⟩ := bind_eq_ok.mp read
      dsimp only at read
      split at read
      next ended =>
        cases read
        obtain ⟨size, listed⟩ := exact_flatMap (fun _ => rfl) (fun _ _ => rfl) exact_takeRange many
        rw [List.isEmpty_iff.mp ended, List.append_nil] at listed
        rw [exact_takeWord _ _ epoch, exact_takeWord _ _ range, exact_takeWord _ _ group, exact_takeWord _ _ counted,
          listed, not_not.mp known, encode, size]
        simp [u32Bytes]
      next => cases read

/-- Two tables are the same if their bytes are, which is how a table that is
applied again is known. -/
theorem snapshot_bijective : (∀ table : StaticRangeTable, table.Words → table.Fits → decode table.encode = .ok table) ∧
    (∀ bytes table, decode bytes = .ok table → table.encode = bytes) ∧
    ∀ table snapshot next, Words table → Fits table → decode snapshot = .ok next →
      (table.encode = snapshot ↔ table = next) := by
  refine ⟨fun table => decode_encode, fun bytes table => encode_decode, ?_⟩
  intro table snapshot next words fits read
  constructor
  · rintro rfl
    exact Except.ok.inj ((decode_encode words fits).symm.trans read)
  · rintro rfl
    exact encode_decode read

theorem words_singleGroup : (singleGroup 0).Words := by
  refine ⟨by decide, by decide, by decide, fun range inside => ?_⟩
  cases List.mem_singleton.mp inside
  exact ⟨by decide, by decide, by decide⟩

theorem snapshot_of_singleGroup : decode (singleGroup 0).encode = .ok (singleGroup 0) :=
  snapshot_bijective.1 _ words_singleGroup (fits_of_length (by decide))

theorem saturatingAdd_lt (value step : Nat) : saturatingAdd value step < 2 ^ 64 := by
  unfold saturatingAdd
  omega

theorem Words.perform (words : table.Words) (word : call.Word) : (table.perform call).2.Words := by
  cases call with
  | splitAt splitKey =>
    dsimp only [StaticRangeTable.perform]
    fun_cases splitAt table splitKey with
    | case1 | case2 | case3 | case4 | case5 => exact words
    | case6 nonempty place found old held away inner left right =>
      refine ⟨saturatingAdd_lt _ _, saturatingAdd_lt _ _, saturatingAdd_lt _ _, fun range inside => ?_⟩
      have was := words.ranges old (List.mem_of_getElem? held)
      rcases List.eq_or_mem_of_mem_insertIdx inside with rfl | inside
      · exact ⟨words.nextRangeId, Nat.one_lt_two_pow (by decide), words.nextGroupId⟩
      · rcases List.mem_or_eq_of_mem_set inside with kept | rfl
        · exact words.ranges range kept
        · exact ⟨was.rangeId, saturatingAdd_lt _ _, was.groupId⟩
  | mergeWithNext leftStart =>
    dsimp only [StaticRangeTable.perform]
    fun_cases mergeWithNext table leftStart with
    | case1 | case2 | case4 => exact words
    | case3 place found left right next held touching merged =>
      refine ⟨saturatingAdd_lt _ _, words.nextRangeId, words.nextGroupId, fun range inside => ?_⟩
      have was := words.ranges left (List.mem_of_getElem? held)
      rcases List.mem_or_eq_of_mem_set (List.mem_of_mem_eraseIdx inside) with kept | rfl
      · exact words.ranges range kept
      · exact ⟨was.rangeId, saturatingAdd_lt _ _, was.groupId⟩
  | moveRange rangeStart targetGroup =>
    dsimp only [StaticRangeTable.perform]
    fun_cases moveRange table rangeStart targetGroup with
    | case1 | case2 | case3 => exact words
    | case4 place found range held away moved =>
      refine ⟨saturatingAdd_lt _ _, words.nextRangeId, max_lt words.nextGroupId (saturatingAdd_lt _ _),
        fun other inside => ?_⟩
      have was := words.ranges range (List.mem_of_getElem? held)
      rcases List.mem_or_eq_of_mem_set inside with kept | rfl
      · exact words.ranges other kept
      · exact ⟨was.rangeId, saturatingAdd_lt _ _, word⟩

theorem metaEpoch_perform {next : StaticRangeTable} (done : table.perform call = (.ok (), next)) :
    next.metaEpoch = saturatingAdd table.metaEpoch 1 := by
  have outcome := table.perform_outcome call
  rw [done] at outcome
  cases outcome with
  | done front old new back exchanges => exact exchanges.epoch

end StaticRangeTable

/-- What the proposals make sure of for a table in the log. -/
structure RangeMetaEntry.Holds (entry : RangeMetaEntry) (table : StaticRangeTable) : Prop where
  decodes : StaticRangeTable.decode entry.snapshot = .ok table
  encoded : table.encode = entry.snapshot
  words : table.Words
  epoch : table.metaEpoch = saturatingAdd entry.baseEpoch.toNat 1

/-- The table is empty where the bytes are of none. -/
def RangeMetaEntry.swap (entry : RangeMetaEntry) : Swap StaticRangeTable :=
  ⟨entry.baseEpoch.toNat, (StaticRangeTable.decode entry.snapshot).toOption.getD ⟨[], 0, 0, 0⟩⟩

section Log
variable {config : StaticRangeTable} {node : MetaNode} {entry : RangeMetaEntry} {table : StaticRangeTable}
  {log : List RangeMetaEntry}

theorem RangeMetaEntry.Holds.swap_eq (holds : entry.Holds table) : entry.swap = ⟨entry.baseEpoch.toNat, table⟩ := by
  rw [RangeMetaEntry.swap, holds.decodes]
  rfl

namespace MetaNode

theorem apply_eq (holds : entry.Holds table) : node.apply entry =
    if node.rangeTable.metaEpoch = entry.baseEpoch.toNat then ⟨table, some entry.snapshot⟩ else node := by
  have read : decodeRangeMeta entry.command = some (entry.baseEpoch, entry.snapshot) := by
    rw [decodeRangeMeta, RangeMetaEntry.command, decode_rangeMeta _ entry.fits]
  rw [MetaNode.apply, read]
  dsimp only
  rw [applyRangeMetaEntry, holds.decodes]
  dsimp only
  by_cases same : node.rangeTable.metaEpoch = entry.baseEpoch.toNat
  · rw [if_neg (not_not.mpr same), if_pos same, persistRangeTable, holds.encoded]
  · rw [if_pos same, if_neg same]
    split <;> rfl

theorem run_concat (node : MetaNode) (log : List RangeMetaEntry) (entry : RangeMetaEntry) :
    node.run (log ++ [entry]) = (node.run log).apply entry := List.foldl_concat ..

theorem rangeTable_apply (holds : entry.Holds table) :
    (node.apply entry).rangeTable = Swaps.apply StaticRangeTable.metaEpoch node.rangeTable entry.swap := by
  rw [apply_eq holds, Swaps.apply, holds.swap_eq]
  split <;> rfl

theorem rangeTable_run (held : ∀ entry ∈ log, ∃ table, entry.Holds table) :
    (node.run log).rangeTable =
      Swaps.run StaticRangeTable.metaEpoch node.rangeTable (log.map RangeMetaEntry.swap) := by
  induction log generalizing node with
  | nil => rfl
  | cons entry log ih =>
    obtain ⟨⟨table, holds⟩, rest⟩ := List.forall_mem_cons.mp held
    rw [List.map_cons, Swaps.run_cons, ← rangeTable_apply holds]
    exact ih rest

/-- The file is the one of the node's table, or the node has the configured table. -/
def Kept (config : StaticRangeTable) (node : MetaNode) : Prop := (node.restart config).rangeTable = node.rangeTable

theorem Kept.apply (kept : node.Kept config) (holds : entry.Holds table) : (node.apply entry).Kept config := by
  rw [apply_eq holds]
  split
  next =>
    rw [Kept, restart, loadPersistedRangeTable, Option.bind_some, holds.decodes]
    rfl
  next => exact kept

theorem Kept.run (kept : node.Kept config) (held : ∀ entry ∈ log, ∃ table, entry.Holds table) :
    (node.run log).Kept config := by
  induction log generalizing node with
  | nil => exact kept
  | cons entry log ih =>
    obtain ⟨⟨table, holds⟩, rest⟩ := List.forall_mem_cons.mp held
    exact ih (kept.apply holds) rest

theorem words_run (words : node.rangeTable.Words) (held : ∀ entry ∈ log, ∃ table, entry.Holds table) :
    (node.run log).rangeTable.Words := by
  induction log generalizing node with
  | nil => exact words
  | cons entry log ih =>
    obtain ⟨⟨table, holds⟩, rest⟩ := List.forall_mem_cons.mp held
    refine ih ?_ rest
    rw [apply_eq holds]
    split
    · exact holds.words
    · exact words

theorem metaEpoch_run_le (held : ∀ entry ∈ log, ∃ table, entry.Holds table) :
    (node.run log).rangeTable.metaEpoch ≤ node.rangeTable.metaEpoch + log.length := by
  induction log generalizing node with
  | nil => exact le_rfl
  | cons entry log ih =>
    obtain ⟨⟨table, holds⟩, rest⟩ := List.forall_mem_cons.mp held
    have step : (node.apply entry).rangeTable.metaEpoch ≤ node.rangeTable.metaEpoch + 1 := by
      rw [apply_eq holds]
      split
      next same =>
        dsimp only
        rw [holds.epoch, same]
        exact min_le_left _ _
      next => exact Nat.le_succ _
    calc (node.run (entry :: log)).rangeTable.metaEpoch
      _ ≤ (node.apply entry).rangeTable.metaEpoch + log.length := ih rest
      _ ≤ node.rangeTable.metaEpoch + (entry :: log).length := by
        rw [List.length_cons]
        omega

end MetaNode

structure Sound (config : StaticRangeTable) (log : List RangeMetaEntry) : Prop where
  held : ∀ entry ∈ log, ∃ table, entry.Holds table
  origin : ∀ front entry back, log = front ++ entry :: back → ∃ earlier, earlier <+: front ∧
    entry.baseEpoch.toNat = ((MetaNode.boot config).run earlier).rangeTable.metaEpoch

theorem Proposed.sound (words : config.Words) (proposed : Proposed config log) : Sound config log := by
  induction proposed with
  | nil =>
    refine ⟨fun entry inside => ?_, fun front entry back split => ?_⟩
    · cases inside
    · simp at split
  | @propose log earlier table call next entry _ inside found word done base snapshot ih =>
    have started : table.Words := by
      rw [found]
      exact MetaNode.words_run words fun other member => ih.held other (inside.subset member)
    have after : next.Words := by
      have kept := started.perform word
      rwa [done] at kept
    refine ⟨?_, fun front other back split => ?_⟩
    · intro other member
      rcases List.mem_append.mp member with old | new
      · exact ih.held other old
      · cases List.mem_singleton.mp new
        have short : next.encode.length < 2 ^ 32 := snapshot ▸ entry.fits
        refine ⟨next, ?_, snapshot.symm, after, ?_⟩
        · rw [snapshot]
          exact StaticRangeTable.decode_encode after (StaticRangeTable.fits_of_length short)
        · rw [base]
          exact StaticRangeTable.metaEpoch_perform done
    · cases back using List.reverseRecOn with
      | nil =>
        obtain ⟨rfl, same⟩ := List.append_inj' split rfl
        cases same
        exact ⟨earlier, inside, found ▸ base⟩
      | append_singleton back last =>
        have cut : log = front ++ other :: back := by
          have split : log ++ [entry] = (front ++ other :: back) ++ [last] := by simpa using split
          exact (List.append_inj' split rfl).1
        exact ih.origin front other back cut

theorem Sound.made (sound : Sound config log) (bounded : config.metaEpoch + log.length ≤ 2 ^ 64) :
    Made StaticRangeTable.metaEpoch config (log.map RangeMetaEntry.swap) := by
  have epoch : ∀ entry ∈ log, entry.swap.base = entry.baseEpoch.toNat ∧
      entry.swap.value.metaEpoch = saturatingAdd entry.baseEpoch.toNat 1 := by
    intro entry inside
    obtain ⟨table, holds⟩ := sound.held entry inside
    rw [holds.swap_eq]
    exact ⟨rfl, holds.epoch⟩
  refine ⟨?_, ?_, ?_⟩
  · intro front swap back split
    obtain ⟨first, others, rfl, rfl, rest⟩ := List.map_eq_append_iff.mp split
    obtain ⟨entry, later, rfl, rfl, rfl⟩ := List.map_eq_cons_iff.mp rest
    obtain ⟨earlier, inside, origin⟩ := sound.origin first entry later rfl
    refine ⟨earlier.map RangeMetaEntry.swap, inside.map _, ?_⟩
    have held : ∀ other ∈ earlier, ∃ table, other.Holds table := fun other member =>
      sound.held other (List.mem_append_left _ (inside.subset member))
    rw [(epoch entry (by simp)).1, origin, MetaNode.rangeTable_run held]
    rfl
  · intro swap inside
    obtain ⟨entry, member, rfl⟩ := List.mem_map.mp inside
    have word := entry.baseEpoch.toNat_lt
    rw [(epoch entry member).1, (epoch entry member).2, saturatingAdd]
    omega
  · intro front swap back split more
    obtain ⟨first, others, rfl, rfl, rest⟩ := List.map_eq_append_iff.mp split
    obtain ⟨entry, later, rfl, rfl, rfl⟩ := List.map_eq_cons_iff.mp rest
    obtain ⟨earlier, inside, origin⟩ := sound.origin first entry later rfl
    -- The counter is not at its end: the log is too short for that.
    have reached : ((MetaNode.boot config).run earlier).rangeTable.metaEpoch ≤ config.metaEpoch + earlier.length :=
      MetaNode.metaEpoch_run_le fun other member => sound.held other (List.mem_append_left _ (inside.subset member))
    have part := inside.length_le
    have follows : later.length ≠ 0 := fun none => more (by rw [List.length_eq_zero_iff.mp none]; rfl)
    rw [List.length_append, List.length_cons] at bounded
    rw [(epoch entry (by simp)).1, (epoch entry (by simp)).2, saturatingAdd, origin]
    omega

end Log

/-- Applying range tables is a safe compare-and-swap. The bound is met by every log,
as tables start at epoch 1 and the indices of a log are 64-bit values from 1 on. -/
theorem safeSwaps {config : StaticRangeTable} {log : List RangeMetaEntry} (words : config.Words)
    (bounded : config.metaEpoch + log.length ≤ 2 ^ 64) (proposed : Proposed config log) : SafeSwaps config log := by
  have sound := proposed.sound words
  have made := sound.made bounded
  have part : ∀ {front}, front <+: log → ∀ entry ∈ front, ∃ table, entry.Holds table :=
    fun inside entry member => sound.held entry (inside.subset member)
  have swaps : ∀ {front entry back}, log = front ++ entry :: back → log.map RangeMetaEntry.swap =
      front.map RangeMetaEntry.swap ++ entry.swap :: back.map RangeMetaEntry.swap := by
    rintro front entry back rfl
    simp
  refine ⟨?_, ?_, ?_, ?_⟩
  · intro front later inside
    rw [MetaNode.rangeTable_run (part ((List.prefix_append _ _).trans inside)), MetaNode.rangeTable_run (part inside),
      List.map_append]
    apply made.version_le
    rw [← List.map_append]
    exact inside.map _
  · intro front entry back split unused
    obtain ⟨table, holds⟩ := sound.held entry (split ▸ List.mem_append_right _ List.mem_cons_self)
    have found : ((MetaNode.boot config).run front).rangeTable.metaEpoch = entry.baseEpoch.toNat := by
      rw [MetaNode.rangeTable_run (part ⟨entry :: back, split.symm⟩)]
      refine made.first (swaps split) fun other inside same => ?_
      obtain ⟨earlier, member, rfl⟩ := List.mem_map.mp inside
      exact unused earlier member (UInt64.toNat_inj.mp same)
    rw [MetaNode.run_concat, MetaNode.apply_eq holds, if_pos found]
    exact ⟨holds.decodes, rfl⟩
  · rintro front entry back split ⟨earlier, inside, same⟩
    obtain ⟨table, holds⟩ := sound.held entry (split ▸ List.mem_append_right _ List.mem_cons_self)
    have beyond : entry.baseEpoch.toNat < ((MetaNode.boot config).run front).rangeTable.metaEpoch := by
      rw [MetaNode.rangeTable_run (part ⟨entry :: back, split.symm⟩), ← same]
      exact made.base_lt _ (swaps split) (List.cons_ne_nil _ _) earlier.swap (List.mem_map_of_mem inside)
    rw [MetaNode.run_concat, MetaNode.apply_eq holds, if_neg beyond.ne']
  · intro front inside
    rw [MetaNode.rangeTable_run sound.held, MetaNode.rangeTable_run sound.held]
    have kept : ((MetaNode.boot config).run front).Kept config := MetaNode.Kept.run rfl (part inside)
    rw [kept, MetaNode.rangeTable_run (part inside)]
    exact made.replay (inside.map _)

def firstSplit (splitKey : Bytes)
    (fits : ((StaticRangeTable.singleGroup 0).splitAt splitKey).2.encode.length < 2 ^ 32) : RangeMetaEntry :=
  ⟨1, ((StaticRangeTable.singleGroup 0).splitAt splitKey).2.encode, fits⟩

/-- Two nodes split the same table. -/
theorem safeSwaps_rivals : SafeSwaps (.singleGroup 0) [firstSplit [77] (by decide), firstSplit [80] (by decide)] := by
  have word : ∀ splitKey, RangeCall.Word (.splitAt splitKey) := fun _ => trivial
  have first : Proposed (.singleGroup 0) [firstSplit [77] (by decide)] :=
    .propose .nil (List.prefix_refl _) rfl (word [77]) rfl rfl rfl
  apply safeSwaps
  · exact StaticRangeTable.words_singleGroup
  · decide
  · exact .propose first List.nil_prefix rfl (word [80]) rfl rfl rfl

end KayaDB.Raft
