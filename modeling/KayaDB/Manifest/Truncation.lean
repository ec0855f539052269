import KayaDB.Manifest.Replay

/-! A manifest that was cut off at some byte. Replay applies the edits that are
whole, as long as the length of each one's payload fits its 32-bit field. -/

namespace KayaDB.Manifest
open Framing

/-- However the file of these edits is cut off, replay applies just those before
the cut, and each edit is read back as itself. -/
def Replays (edits : List Numbered) : Prop :=
  (∀ size, (replayManifest ((frames encode edits).take size)).1 = ManifestState.default.applyAll (before encode size edits) ∧
    (replayManifest ((frames encode edits).take size)).2.1 = (before encode size edits).length) ∧
  ∀ numbered ∈ edits, decodeManifestEdit (encode numbered) = .complete numbered.1 numbered.2 (encode numbered).length

theorem replayed_cut {edits : List Numbered} (fits : ∀ numbered ∈ edits, numbered.1.Fits) (size : Nat) :
    replayed ((frames encode edits).take size) = placed encode 0 (before encode size edits) :=
  decode_local.scan_cut decode_encode fits 0 size

variable {numbered : Numbered}

theorem complete_of_fits (fits : numbered.1.Fits) :
    decodeManifestEdit (encode numbered) = .complete numbered.1 numbered.2 (encode numbered).length := by
  have decoded := decode_encode [] fits
  rw [List.append_nil] at decoded
  exact decodeManifestEdit_complete_iff.mpr (decode_eq_some.mp decoded)

theorem fits_of_complete {size : Nat}
    (complete : decodeManifestEdit (encode numbered) = .complete numbered.1 numbered.2 size) : numbered.1.Fits :=
  (decodeManifestEdit_complete_iff.mp complete).fits

theorem replays_iff (edits : List Numbered) : Replays edits ↔ ∀ numbered ∈ edits, numbered.1.Fits := by
  constructor
  · intro replays numbered inside
    exact fits_of_complete (replays.2 numbered inside)
  · intro fits
    refine ⟨fun size => ?_, fun numbered inside => complete_of_fits (fits numbered inside)⟩
    obtain ⟨states, counts, -⟩ := replayFrom_eq 0 ((frames encode edits).take size) .default 0 (Nat.le_refl _)
    have found : (scan decode 0 ((frames encode edits).take size)).1 = placed encode 0 (before encode size edits) :=
      replayed_cut fits size
    rw [found] at states counts
    rw [map_placed] at states
    refine ⟨states, counts.trans ?_⟩
    rw [Nat.zero_add, ← List.length_map Prod.snd, map_placed]

/-- A table whose two keys have two gigabytes each. -/
def wideTable : TableMetadata where
  tableId := 1
  level := 0
  path := sstPath 1
  smallestKey := List.replicate (2 ^ 31) 97
  largestKey := List.replicate (2 ^ 31) 98
  minSequence := 1
  maxSequence := 2
  entryCount := 2
  fileSize := 8589934592
  footerChecksum := 0

theorem wide_table_lost : ¬ Replays [(.createTable wideTable, 1)] := by
  intro replays
  have fits : (encodeTableMetadata wideTable).length < 2 ^ 32 := fits_of_complete (replays.2 _ List.mem_cons_self)
  have smallest : wideTable.smallestKey.length = 2 ^ 31 := List.length_replicate
  have largest : wideTable.largestKey.length = 2 ^ 31 := List.length_replicate
  rw [length_encodeTableMetadata, smallest, largest] at fits
  omega

end KayaDB.Manifest
