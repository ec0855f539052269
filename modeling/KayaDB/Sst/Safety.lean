import KayaDB.Sst.Bloom
import KayaDB.Sst.Footer

/-! The decoders of blocks, index, footer and bloom filter are safe on every input
of a size that a vector can have. -/

namespace KayaDB.Sst
open Raft (Bytes fromLeBytes)
open Storage (SstEntry)
open Guarded

variable {bytes : Bytes}

theorem ensures_readLe {width : Nat} {offset : Nat} (message : String) (small : offset + width < 2 ^ 64) :
    Ensures (readLe width message bytes offset) fun value => value < 256 ^ width := by
  refine (ensures_word small).bind fun stop same => ?_
  subst same
  refine (ensures_refuse _ message).bind fun _ inside => ?_
  refine (ensures_slice (Nat.le_add_right _ _) (Nat.le_of_not_lt inside)).bind fun field same => ensures_ok ?_
  have length : field.length = width := by
    rw [same, List.length_drop, List.length_take, Nat.min_eq_left (Nat.le_of_not_lt inside), Nat.add_sub_cancel_left]
  exact length ▸ Raft.fromLeBytes_lt field

theorem ensures_readU8 (bytes : Bytes) (offset : Nat) : Ensures (readU8 bytes offset) fun _ => True := by
  unfold readU8
  cases bytes[offset]? with
  | none => exact ensures_error _
  | some byte => exact ensures_ok trivial

theorem ensures_decodeValue {next valueLen : Nat} (kind : UInt8) (inside : next + valueLen ≤ bytes.length) :
    Ensures (decodeValue bytes next valueLen kind) fun found => found.2 ≤ next + valueLen := by
  unfold decodeValue
  split
  · exact (ensures_slice (Nat.le_add_right _ _) inside).bind fun _ _ => ensures_ok (Nat.le_refl _)
  · split
    · exact ensures_ok (Nat.le_add_right _ _)
    · exact ensures_error _

section Blocks
variable {bytes : Bytes} {offset dataLen : Nat}
  {entriesEnd : Nat}

section
variable (small : bytes.length < 2 ^ 63) (inside : dataLen ≤ bytes.length)
include small inside

theorem ensures_decodeEntryLegacy (here : offset ≤ dataLen) :
    Ensures (decodeEntryLegacy bytes offset dataLen) fun found => found.2 ≤ dataLen := by
  refine (ensures_word (by omega)).bind fun next same => ?_
  subst same
  refine (ensures_refuse _ _).bind fun _ header => ?_
  refine (ensures_readLe _ (by omega)).bind fun keyLen keySmall => ?_
  refine (ensures_readLe _ (by omega)).bind fun valueLen valueSmall => ?_
  refine (ensures_readLe _ (by omega)).bind fun sequence _ => ?_
  refine (ensures_readU8 _ _).bind fun kind _ => ?_
  refine (ensures_word (by omega)).bind fun stop same => ?_
  subst same
  refine (ensures_refuse _ _).bind fun _ whole => ?_
  refine (ensures_slice (Nat.le_add_right _ _) (by omega)).bind fun key _ => ?_
  refine (ensures_decodeValue kind (by omega)).bind fun value last => ensures_ok ?_
  omega

theorem ensures_decodeEntryPrefix (here : offset ≤ dataLen)
    (restartKey : Bytes) : Ensures (decodeEntryPrefix bytes offset dataLen restartKey) fun found => found.2 ≤ dataLen := by
  refine (ensures_word (by omega)).bind fun next same => ?_
  subst same
  refine (ensures_refuse _ _).bind fun _ header => ?_
  refine (ensures_readLe _ (by omega)).bind fun shared _ => ?_
  refine (ensures_readLe _ (by omega)).bind fun nonSharedLen keySmall => ?_
  refine (ensures_readLe _ (by omega)).bind fun valueLen valueSmall => ?_
  refine (ensures_readLe _ (by omega)).bind fun sequence _ => ?_
  refine (ensures_readU8 _ _).bind fun kind _ => ?_
  refine (ensures_word (by omega)).bind fun stop same => ?_
  subst same
  refine (ensures_refuse _ _).bind fun _ whole => ?_
  obtain ⟨sharedFits, whole⟩ := not_or.mp whole
  refine (ensures_slice (Nat.zero_le _) (Nat.le_of_not_lt sharedFits)).bind fun front _ => ?_
  refine (ensures_slice (Nat.le_add_right _ _) (by omega)).bind fun nonShared _ => ?_
  refine (ensures_decodeValue kind (by omega)).bind fun value last => ensures_ok ?_
  omega

theorem ensures_decodeLegacyEntries : ∀ (count : Nat)
    {offset : Nat}, offset ≤ dataLen → Ensures (decodeLegacyEntries bytes dataLen count offset) fun _ => True
  | 0, _, _ => ensures_ok trivial
  | count + 1, _, here => by
    refine (ensures_decodeEntryLegacy small inside here).bind fun found last => ?_
    exact (ensures_decodeLegacyEntries count last).bind fun _ _ => ensures_ok trivial

end

theorem ensures_readRestarts (entriesSpan : Nat) : ∀ (count : Nat) {number : Nat} (previous : Option Nat),
    entriesEnd + (number + count) * 4 < 2 ^ 63 →
      Ensures (readRestarts bytes entriesEnd entriesSpan count number previous) fun _ => True
  | 0, _, _, _ => ensures_ok trivial
  | count + 1, number, previous, small => by
    refine (ensures_word (by omega)).bind fun place same => ?_
    subst same
    refine (ensures_readLe _ (by omega)).bind fun rel _ => ?_
    refine (ensures_refuse _ _).bind fun _ _ => ?_
    refine (ensures_refuse _ _).bind fun _ _ => ?_
    exact (ensures_readRestarts entriesSpan count (some rel) (by omega)).bind fun _ _ => ensures_ok trivial

theorem ensures_decodePrefixEntries (small : bytes.length < 2 ^ 63) (inside : entriesEnd ≤ bytes.length) :
    ∀ (count : Nat) {offset : Nat} (restarts : List Nat) (restartKey : Bytes), offset ≤ entriesEnd →
      Ensures (decodePrefixEntries bytes entriesEnd count offset restarts restartKey) fun _ => True
  | 0, _, _, _, _ => ensures_ok trivial
  | count + 1, _, _, _, here => by
    refine (ensures_decodeEntryPrefix small inside here _).bind fun found last => ?_
    exact (ensures_decodePrefixEntries small inside count _ _ last).bind fun _ _ => ensures_ok trivial

theorem ensures_decodeRestartBlock (small : bytes.length < 2 ^ 63) (inside : dataLen ≤ bytes.length) (entryCount : Nat)
    {restartCount : Nat} (few : restartCount < 2 ^ 32) :
    Ensures (decodeRestartBlock bytes dataLen entryCount restartCount) fun _ => True := by
  refine (ensures_refuse _ _).bind fun _ _ => ?_
  refine (ensures_word (by unfold entriesBase; omega)).bind fun least same => ?_
  subst same
  refine (ensures_refuse _ _).bind fun _ enough => ?_
  unfold entriesBase at enough
  refine (ensures_sub (by omega)).bind fun entriesEnd same => ?_
  refine (ensures_readRestarts _ restartCount none (by omega)).bind fun restarts _ => ?_
  refine (ensures_decodePrefixEntries small (by omega) entryCount _ _ (by unfold entriesBase; omega)).bind fun found _ => ?_
  exact (ensures_refuse _ _).bind fun _ _ => ensures_ok trivial

theorem ensures_decodeDataBlock (small : bytes.length < 2 ^ 63) : Ensures (decodeDataBlock bytes) fun _ => True := by
  refine (ensures_refuse _ _).bind fun _ long => ?_
  refine (ensures_sub (by omega)).bind fun dataLen same => ?_
  refine (ensures_readLe _ (by omega)).bind fun expectedCrc _ => ?_
  refine (ensures_slice (Nat.zero_le _) (by omega)).bind fun body _ => ?_
  refine (ensures_refuse _ _).bind fun _ _ => ?_
  refine (ensures_readLe _ (by omega)).bind fun entryCount _ => ?_
  refine (ensures_readLe _ (by omega)).bind fun restartCount few => ?_
  split
  · exact ensures_decodeLegacyEntries small (by omega) entryCount (by omega)
  · exact ensures_decodeRestartBlock small (by omega) entryCount few

end Blocks

theorem ensures_decodeIndexEntries {dataLen : Nat} (small : bytes.length < 2 ^ 63) (inside : dataLen ≤ bytes.length) :
    ∀ (count : Nat) {offset : Nat}, offset ≤ dataLen →
      Ensures (decodeIndexEntries bytes dataLen count offset) fun index => ∀ entry ∈ index, entry.blockLen < 2 ^ 32
  | 0, _, _ => ensures_ok nofun
  | count + 1, offset, here => by
    have first : Ensures (decodeIndexEntry bytes offset dataLen) fun found => found.1.blockLen < 2 ^ 32 ∧ found.2 ≤ dataLen := by
      refine (ensures_word (by omega)).bind fun next same => ?_
      subst same
      refine (ensures_refuse _ _).bind fun _ header => ?_
      refine (ensures_readLe _ (by omega)).bind fun sepLen sepSmall => ?_
      refine (ensures_readLe _ (by omega)).bind fun blockOffset _ => ?_
      refine (ensures_readLe _ (by omega)).bind fun blockLen blockSmall => ?_
      refine (ensures_readLe _ (by omega)).bind fun firstSeq _ => ?_
      refine (ensures_readLe _ (by omega)).bind fun lastSeq _ => ?_
      refine (ensures_word (by omega)).bind fun stop same => ?_
      subst same
      refine (ensures_refuse _ _).bind fun _ whole => ?_
      refine (ensures_slice (Nat.le_add_right _ _) (by omega)).bind fun separatorKey _ => ensures_ok ?_
      exact ⟨blockSmall, Nat.le_of_not_lt whole⟩
    refine first.bind fun found ⟨blockSmall, last⟩ => ?_
    refine (ensures_decodeIndexEntries small inside count last).bind fun others fits => ensures_ok ?_
    exact List.forall_mem_cons.mpr ⟨blockSmall, fits⟩

theorem ensures_decodeIndexBlock (small : bytes.length < 2 ^ 63) :
    Ensures (decodeIndexBlock bytes) fun index => ∀ entry ∈ index, entry.blockLen < 2 ^ 32 := by
  refine (ensures_refuse _ _).bind fun _ long => ?_
  refine (ensures_sub (by omega)).bind fun dataLen same => ?_
  refine (ensures_readLe _ (by omega)).bind fun expectedCrc _ => ?_
  refine (ensures_slice (Nat.zero_le _) (by omega)).bind fun body _ => ?_
  refine (ensures_refuse _ _).bind fun _ _ => ?_
  refine (ensures_readLe _ (by omega)).bind fun entryCount _ => ?_
  exact ensures_decodeIndexEntries small (by omega) entryCount (by omega)

theorem ensures_statedLen (bytes : Bytes) (len : Nat) :
    Ensures (statedLen bytes len) fun stated => stated = len → len = 0 ∨ len ≤ bytes.length := by
  unfold statedLen
  split
  next room =>
    refine (ensures_sub room).bind fun start same => ?_
    refine (ensures_slice (by omega) (Nat.le_refl _)).bind fun tail _ => ?_
    exact (ensures_readLe _ (by omega)).weaken fun _ _ _ => .inr room
  next => exact ensures_ok fun none => .inl none.symm

theorem ensures_footerLen (bytes : Bytes) : Ensures (footerLen bytes) fun len => 48 ≤ len ∧ len ≤ 72 ∧ len ≤ bytes.length := by
  refine (ensures_statedLen bytes _).bind fun v3 third => ?_
  split
  next same => exact ensures_ok ⟨by decide, by decide, (third same).resolve_left (by decide)⟩
  next =>
    refine (ensures_statedLen bytes _).bind fun v2 second => ?_
    split
    next same => exact ensures_ok ⟨by decide, by decide, (second same).resolve_left (by decide)⟩
    next =>
      refine (ensures_statedLen bytes _).bind fun v1 first => ?_
      refine (ensures_refuse _ _).bind fun _ same => ensures_ok ?_
      exact ⟨by decide, by decide, (first (not_not.mp same)).resolve_left (by decide)⟩

theorem ensures_decodeBloomPlace (fb : Bytes) (len : Nat) :
    Ensures (decodeBloomPlace fb len) fun place => place.2.1 < 2 ^ 32 := by
  unfold decodeBloomPlace
  split
  · refine (ensures_readLe _ (by decide)).bind fun bloomOffset _ => ?_
    refine (ensures_readLe _ (by decide)).bind fun bloomLen small => ?_
    exact (ensures_readLe _ (by decide)).bind fun bloomHashCount _ => ensures_ok small
  · exact ensures_ok (by decide)

theorem ensures_decodeCodec (fb : Bytes) (len : Nat) : Ensures (decodeCodec fb len) fun _ => True := by
  unfold decodeCodec
  split
  · refine (ensures_readLe _ (by decide)).bind fun codec _ => ?_
    unfold CompressionCodec.fromWire
    split_ifs
    · exact ensures_ok trivial
    · exact ensures_ok trivial
    · exact ensures_ok trivial
    · exact ensures_error _
  · exact ensures_ok trivial

theorem ensures_decodeFooter (small : bytes.length < 2 ^ 63) :
    Ensures (decodeFooter bytes) fun footer => footer.bloomLen < 2 ^ 32 := by
  refine (ensures_refuse _ _).bind fun _ long => ?_
  simp only [sstFooterLen] at long
  refine (ensures_sub (by omega)).bind fun magicStart same => ?_
  refine (ensures_slice (by omega) (Nat.le_refl _)).bind fun magicField _ => ?_
  refine (ensures_readLe _ (by decide)).bind fun magic _ => ?_
  refine (ensures_refuse _ _).bind fun _ _ => ?_
  refine (ensures_footerLen bytes).bind fun len ⟨least, most, fits⟩ => ?_
  refine (ensures_refuse _ _).bind fun _ _ => ?_
  refine (ensures_sub fits).bind fun footerStart same => ?_
  refine (ensures_slice (by omega) (Nat.le_refl _)).bind fun fb same => ?_
  have length : fb.length = len := by
    rw [same, List.length_drop, List.length_take]
    omega
  refine (ensures_sub (by omega)).bind fun crcLen same => ?_
  refine (ensures_readLe _ (by omega)).bind fun expectedCrc _ => ?_
  refine (ensures_slice (Nat.zero_le _) (by omega)).bind fun body _ => ?_
  refine (ensures_refuse _ _).bind fun _ _ => ?_
  refine (ensures_readLe _ (by decide)).bind fun formatVersion _ => ?_
  refine (ensures_refuse _ _).bind fun _ _ => ?_
  refine (ensures_decodeBloomPlace fb len).bind fun place small => ?_
  refine (ensures_decodeCodec fb len).bind fun codec _ => ?_
  refine (ensures_readLe _ (by decide)).bind fun indexBlockOffset _ => ?_
  refine (ensures_readLe _ (by decide)).bind fun indexBlockLen _ => ?_
  refine (ensures_readLe _ (by decide)).bind fun tableMinSeq _ => ?_
  refine (ensures_readLe _ (by decide)).bind fun tableMaxSeq _ => ?_
  exact (ensures_readLe _ (by decide)).bind fun entryCount _ => ensures_ok small

/-- A filter as a file gives it: it has bits, and all of them are in its bytes. -/
structure BloomFilter.Sound (bloom : BloomFilter) : Prop where
  some : bloom.numBits ≠ 0
  inside : bloom.numBits ≤ bloom.bits.length * 8

theorem bloomWidth_le (byteLen : Nat) : bloomWidth byteLen ≤ byteLen * 8 :=
  Nat.le_trans (Nat.min_le_left _ _) (Nat.mul_le_mul_right 8 (Nat.mod_le _ _))

theorem ensures_fromBytes (bytes : Bytes) (hashCount : Nat) :
    Ensures (BloomFilter.fromBytes bytes hashCount) BloomFilter.Sound := by
  refine (ensures_refuse _ _).bind fun _ _ => ?_
  refine (ensures_refuse _ _).bind fun _ some => ensures_ok ?_
  exact ⟨some, bloomWidth_le bytes.length⟩

theorem BloomFilter.Sound.mightContainFrom {bloom : BloomFilter} (sound : bloom.Sound) (hashes : UInt64 × UInt64) :
    ∀ count number : Nat, ∃ possible, bloom.mightContainFrom hashes count number = .ok possible
  | 0, _ => ⟨true, rfl⟩
  | count + 1, number => by
    have place : bloomBitIndex hashes number bloom.numBits = .ok _ := if_neg sound.some
    have below := Nat.mod_lt (hashes.1 + UInt64.ofNat number * hashes.2).toNat (Nat.pos_of_ne_zero sound.some)
    have inside := sound.inside
    have byte := get_eq (List.getElem?_eq_getElem
      (show (hashes.1 + UInt64.ofNat number * hashes.2).toNat % bloom.numBits / 8 < bloom.bits.length by omega))
    rw [BloomFilter.mightContainFrom, place, ok_bind, bloomGetBit, byte, ok_bind, ok_bind]
    split
    · exact sound.mightContainFrom hashes count (number + 1)
    · exact ⟨false, rfl⟩

end KayaDB.Sst
