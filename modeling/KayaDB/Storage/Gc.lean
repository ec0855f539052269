import KayaDB.Storage.Session

/-! Garbage collection during compaction. Readers at or above the watermark are
to see the same before and after, whatever is dropped from the input tables. -/

namespace KayaDB.Storage
open Raft (Bytes)
open Versions Runs

namespace Engine
variable {engine : Engine} {chosen : CompactionCandidate} {entry : SstEntry} {key : Bytes} {ts : Nat}

/-- Readers from the watermark on see another version of the key instead. -/
def Hidden (engine : Engine) (entry : SstEntry) : Prop :=
  ∃ other ∈ engine.sources.flatten,
    other.key = entry.key ∧ entry.sequence < other.sequence ∧ other.sequence ≤ engine.gcWatermark.toNat

instance : Decidable (engine.Hidden entry) :=
  inferInstanceAs (Decidable (∃ other ∈ engine.sources.flatten,
    other.key = entry.key ∧ entry.sequence < other.sequence ∧ other.sequence ≤ engine.gcWatermark.toNat))

def outsideEntries (engine : Engine) (inputs : List Nat) : List SstEntry :=
  engine.memtable.entries ++ engine.leftEntries inputs

/-- Every version the compaction may drop is hidden, or it has the value that is
found outside the input tables at the watermark, which for a deletion is none. -/
def GcSafe (engine : Engine) (chosen : CompactionCandidate) : Prop :=
  ∀ entry ∈ engine.inputEntries chosen.inputTableIds,
    Obsolete (engine.inputEntries chosen.inputTableIds) engine.gcWatermark.toNat entry →
      engine.Hidden entry ∨
        entry.value = History.get (engine.outsideEntries chosen.inputTableIds) entry.key engine.gcWatermark.toNat

instance : Decidable (engine.GcSafe chosen) :=
  inferInstanceAs (Decidable (∀ entry ∈ engine.inputEntries chosen.inputTableIds, _ → _))

def Roomy (engine : Engine) : Prop :=
  (SortedSet.ofList (engine.sources.flatten.map Entry.key)).card ≤ engine.config.limits.maxScanResults

theorem mem_sources_outside (tidy : engine.Tidy) : entry ∈ (engine.compactInputs chosen).sources.flatten ↔
    entry ∈ engine.outsideEntries chosen.inputTableIds ∨ entry ∈ engine.inputEntries chosen.inputTableIds ∧
      ¬ Obsolete (engine.inputEntries chosen.inputTableIds) engine.gcWatermark.toNat entry := by
  rw [mem_sources_compactInputs tidy.numbered (tidy.unique_inputs _), outsideEntries, List.mem_append, or_assoc]
  exact or_congr Iff.rfl or_comm

/-- Where an obsolete version was the one to be read, only what lies outside the
input tables can be read afterwards. -/
theorem newest_compactInputs (tidy : engine.Tidy) (inside : entry ∈ engine.inputEntries chosen.inputTableIds)
    (obsolete : Obsolete (engine.inputEntries chosen.inputTableIds) engine.gcWatermark.toNat entry)
    (top : IsNewest engine.sources.flatten key ts entry) :
    newest (engine.compactInputs chosen).sources.flatten key ts =
      newest (engine.outsideEntries chosen.inputTableIds) key ts := by
  have subset : (engine.compactInputs chosen).sources.flatten ⊆ _ := Engine.compactInputs_subset
  refine (newest_of_visible (tidy.unique.subset subset) ?_ fun other found seen => ?_).symm
  · exact fun other held => (mem_sources_outside tidy).mpr (Or.inl held)
  · rcases (mem_sources_outside tidy).mp found with held | ⟨input, current⟩
    · exact held
    · have keys : other.key = entry.key := seen.1.trans top.visible.1.symm
      refine absurd ?_ current
      rcases (top.greatest other (subset found) seen).lt_or_eq with less | equal
      · exact ⟨less.trans obsolete.1, Or.inr ⟨entry, inside, keys.symm, less⟩⟩
      · rwa [tidy.unique other (subset found) entry top.mem keys equal]

/-- Every version the compaction may drop is above the timestamp, there is a newer
one up to it, or it has the value that is found outside the input tables. -/
def KeepsReads (engine : Engine) (chosen : CompactionCandidate) (ts : Nat) : Prop :=
  ∀ entry ∈ engine.inputEntries chosen.inputTableIds,
    Obsolete (engine.inputEntries chosen.inputTableIds) engine.gcWatermark.toNat entry → entry.sequence ≤ ts →
      (∃ other ∈ engine.sources.flatten, other.key = entry.key ∧ entry.sequence < other.sequence ∧ other.sequence ≤ ts) ∨
        entry.value = History.get (engine.outsideEntries chosen.inputTableIds) entry.key ts

theorem KeepsReads.get (safe : engine.KeepsReads chosen ts) (tidy : engine.Tidy) :
    History.get (engine.compactInputs chosen).sources.flatten key ts = History.get engine.sources.flatten key ts := by
  have subset : (engine.compactInputs chosen).sources.flatten ⊆ _ := Engine.compactInputs_subset
  unfold History.get
  cases found : newest engine.sources.flatten key ts with
  | none =>
    have nothing : newest (engine.compactInputs chosen).sources.flatten key ts = none :=
      newest_eq_none.mpr fun entry inside => newest_eq_none.mp found entry (subset inside)
    rw [nothing]
  | some entry =>
    have top := isNewest_of_newest found
    by_cases stays : entry ∈ (engine.compactInputs chosen).sources.flatten
    · have still : IsNewest (engine.compactInputs chosen).sources.flatten key ts entry :=
        ⟨stays, top.visible, fun other inside => top.greatest other (subset inside)⟩
      rw [still.newest_eq (tidy.unique.subset subset)]
    · -- the version was dropped, so it is an obsolete one of an input table
      rw [mem_sources_outside tidy, not_or, not_and, not_not] at stays
      have inside : entry ∈ engine.inputEntries chosen.inputTableIds := by
        rcases (mem_sources_split chosen.inputTableIds entry).mp top.mem with fresh | input | left
        · exact absurd (List.mem_append_left _ fresh) stays.1
        · exact input
        · exact absurd (List.mem_append_right _ left) stays.1
      have obsolete := stays.2 inside
      rw [newest_compactInputs tidy inside obsolete top]
      rcases safe entry inside obsolete top.visible.2 with ⟨other, held, same, newer, low⟩ | shown
      · have := top.greatest other held ⟨same.trans top.visible.1, low⟩
        omega
      · rw [Option.bind_some, shown, top.visible.1, History.get]

theorem GcSafe.keepsReads (safe : engine.GcSafe chosen) (late : engine.gcWatermark.toNat ≤ ts) :
    engine.KeepsReads chosen ts := by
  intro entry inside obsolete _
  by_cases hidden : ∃ other ∈ engine.sources.flatten,
      other.key = entry.key ∧ entry.sequence < other.sequence ∧ other.sequence ≤ ts
  · exact Or.inl hidden
  · right
    rcases safe entry inside obsolete with ⟨other, held, same, newer, low⟩ | shown
    · exact absurd ⟨other, held, same, newer, low.trans late⟩ hidden
    · -- nothing of the key was written between the watermark and the reader
      have quiet : newest (engine.outsideEntries chosen.inputTableIds) entry.key ts =
          newest (engine.outsideEntries chosen.inputTableIds) entry.key engine.gcWatermark.toNat := by
        refine newest_later late fun other held same seen => ?_
        have present : other ∈ engine.sources.flatten := by
          rw [mem_sources_split chosen.inputTableIds]
          rcases List.mem_append.mp held with fresh | left
          · exact Or.inl fresh
          · exact Or.inr (Or.inr left)
        by_contra above
        exact hidden ⟨other, present, same, obsolete.1.trans (Nat.lt_of_not_le above), seen⟩
      rw [shown, History.get, History.get, quiet]

theorem GcSafe.get (safe : engine.GcSafe chosen) (tidy : engine.Tidy) (late : engine.gcWatermark.toNat ≤ ts) :
    History.get (engine.compactInputs chosen).sources.flatten key ts = History.get engine.sources.flatten key ts :=
  (safe.keepsReads late).get tidy

end Engine

def supersededRun : List Event := [putByte 1 1, .flush, putByte 1 2, .flush, .setGcWatermark 2]

end KayaDB.Storage
