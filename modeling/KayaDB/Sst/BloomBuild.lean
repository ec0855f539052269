import KayaDB.Sst.Safety

/-! The bloom filter that a table is written with rules out none of its keys. The number
of hashes, which the source computes in floating point, is given. -/

namespace KayaDB.Sst
open Raft (Bytes)
open Guarded

/-- The product stays at the last 64-bit number, and is then cut to 32 bits. -/
def bloomNumBits (numKeys bitsPerKey : Nat) : Nat := max (min (numKeys * bitsPerKey) (2 ^ 64 - 1)) 64 % 2 ^ 32

def bloomSetBit (bits : Bytes) (index : Nat) : Guarded Bytes := do
  let byte ← get bits (index / 8)
  .ok (bits.set (index / 8) (byte ||| bitMask (index % 8)))

def bloomSetHashes (hashes : UInt64 × UInt64) (numBits : Nat) : Nat → Nat → Bytes → Guarded Bytes
  | 0, _, bits => .ok bits
  | count + 1, number, bits => do
    let index ← bloomBitIndex hashes number numBits
    let bits ← bloomSetBit bits index
    bloomSetHashes hashes numBits count (number + 1) bits

def bloomAddKeys (hashCount numBits : Nat) : List Bytes → Bytes → Guarded Bytes
  | [], bits => .ok bits
  | key :: rest, bits => do
    let bits ← bloomSetHashes (bloomHashPair key) numBits hashCount 0 bits
    bloomAddKeys hashCount numBits rest bits

def buildBloomFilter (keys : List Bytes) (bitsPerKey hashCount : Nat) : Guarded Bytes :=
  let byteLen := (bloomNumBits keys.length bitsPerKey + 7) / 8
  bloomAddKeys hashCount (bloomWidth byteLen) keys (List.replicate byteLen 0)

/-- As many bytes, and every bit that was set. -/
structure Keeps (before after : Bytes) : Prop where
  length : after.length = before.length
  bits : ∀ index, bloomGetBit before index = .ok true → bloomGetBit after index = .ok true

theorem Keeps.trans {first second third : Bytes} (before : Keeps first second) (after : Keeps second third) :
    Keeps first third :=
  ⟨after.length.trans before.length, fun index set => after.bits index (before.bits index set)⟩

theorem bloomGetBit_iff {bits : Bytes} {index : Nat} : bloomGetBit bits index = .ok true ↔
    ∃ byte, bits[index / 8]? = some byte ∧ byte &&& bitMask (index % 8) ≠ 0 := by
  unfold bloomGetBit Guarded.get
  split
  next byte found => simp [found]
  next none => exact iff_of_false nofun fun held => nomatch none.symm.trans held.choose_spec.1

theorem or_and_eq_zero {first second mask : UInt8} :
    (first ||| second) &&& mask = 0 ↔ first &&& mask = 0 ∧ second &&& mask = 0 := by
  have spread : (first ||| second) &&& mask = first &&& mask ||| second &&& mask :=
    UInt8.eq_of_toBitVec_eq BitVec.and_or_distrib_right
  rw [spread, UInt8.or_eq_zero_iff]

theorem bitMask_ne_zero : ∀ bit < 8, bitMask bit ≠ 0 := by decide

theorem bloomSetBit_sets {bits : Bytes} {index : Nat} (inside : index / 8 < bits.length) :
    ∃ after, bloomSetBit bits index = .ok after ∧ Keeps bits after ∧ bloomGetBit after index = .ok true := by
  obtain ⟨byte, found⟩ : ∃ byte, bits[index / 8]? = some byte := ⟨_, List.getElem?_eq_getElem inside⟩
  refine ⟨_, by rw [bloomSetBit, get_eq found, ok_bind], ⟨List.length_set, fun other set => ?_⟩, ?_⟩
  · obtain ⟨old, held, set⟩ := bloomGetBit_iff.mp set
    apply bloomGetBit_iff.mpr
    by_cases same : index / 8 = other / 8
    · rw [same] at found inside ⊢
      cases held.symm.trans found
      exact ⟨_, List.getElem?_set_self inside, fun none => set (or_and_eq_zero.mp none).1⟩
    · exact ⟨old, (List.getElem?_set_ne same).trans held, set⟩
  · refine bloomGetBit_iff.mpr ⟨_, List.getElem?_set_self inside, fun none => ?_⟩
    have clear := (or_and_eq_zero.mp none).2
    rw [UInt8.and_self] at clear
    exact bitMask_ne_zero _ (Nat.mod_lt _ (by decide)) clear

section
variable {numBits : Nat} (positive : numBits ≠ 0)
include positive

theorem bloomBitIndex_inside {bits : Bytes} (room : numBits ≤ bits.length * 8) (hashes : UInt64 × UInt64) (number : Nat) :
    ∃ index, bloomBitIndex hashes number numBits = .ok index ∧ index / 8 < bits.length := by
  have lt := Nat.mod_lt (hashes.1 + UInt64.ofNat number * hashes.2).toNat (Nat.pos_of_ne_zero positive)
  exact ⟨_, if_neg positive, by omega⟩

theorem bloomSetHashes_sets (hashes : UInt64 × UInt64) (count : Nat) : ∀ {number : Nat} {bits : Bytes},
    numBits ≤ bits.length * 8 → ∃ after, bloomSetHashes hashes numBits count number bits = .ok after ∧ Keeps bits after ∧
      ∀ bloom : BloomFilter, bloom.numBits = numBits → Keeps after bloom.bits →
        bloom.mightContainFrom hashes count number = .ok true := by
  induction count with
  | zero => exact fun _ => ⟨_, rfl, ⟨rfl, fun _ => id⟩, fun _ _ _ => rfl⟩
  | succ count ih =>
    intro number bits room
    obtain ⟨index, place, inside⟩ := bloomBitIndex_inside positive room hashes number
    obtain ⟨middle, done, kept, set⟩ := bloomSetBit_sets inside
    obtain ⟨after, others, later, rest⟩ := ih (kept.length ▸ room)
    refine ⟨after, by rw [bloomSetHashes, place, ok_bind, done, ok_bind, others], kept.trans later, ?_⟩
    intro bloom width more
    have still := (later.trans more).bits index set
    rw [BloomFilter.mightContainFrom, width, place, ok_bind, still, ok_bind, if_pos rfl]
    exact rest bloom width more

theorem bloomAddKeys_sets (hashCount : Nat) (keys : List Bytes) : ∀ bits : Bytes, numBits ≤ bits.length * 8 →
    ∃ after, bloomAddKeys hashCount numBits keys bits = .ok after ∧ Keeps bits after ∧
      ∀ bloom : BloomFilter, bloom.numBits = numBits → bloom.hashCount = hashCount → Keeps after bloom.bits →
        ∀ key ∈ keys, bloom.mightContain key = .ok true := by
  induction keys with
  | nil => exact fun _ _ => ⟨_, rfl, ⟨rfl, fun _ => id⟩, fun _ _ _ _ => nofun⟩
  | cons key rest ih =>
    intro bits room
    obtain ⟨middle, done, kept, set⟩ := bloomSetHashes_sets positive (bloomHashPair key) hashCount room
    obtain ⟨after, others, later, found⟩ := ih middle (kept.length ▸ room)
    refine ⟨after, by rw [bloomAddKeys, done, ok_bind, others], kept.trans later, ?_⟩
    intro bloom width hashes more
    refine List.forall_mem_cons.mpr ⟨?_, found bloom width hashes more⟩
    rw [BloomFilter.mightContain, hashes]
    exact set bloom width (later.trans more)

end

/-- A table's filter can be built and read back, and answers that each of its keys may be there. -/
theorem bloom_rules_out_no_key {keys : List Bytes} {bitsPerKey hashCount : Nat} (some : hashCount ≠ 0)
    (small : keys.length * bitsPerKey < 2 ^ 32) :
    ∃ bits bloom, buildBloomFilter keys bitsPerKey hashCount = .ok bits ∧
      BloomFilter.fromBytes bits hashCount = .ok bloom ∧ ∀ key ∈ keys, bloom.mightContain key = .ok true := by
  have width : bloomNumBits keys.length bitsPerKey = max (keys.length * bitsPerKey) 64 := by
    unfold bloomNumBits
    omega
  have positive : bloomWidth ((bloomNumBits keys.length bitsPerKey + 7) / 8) ≠ 0 := by
    unfold bloomWidth
    omega
  obtain ⟨bits, built, kept, found⟩ := bloomAddKeys_sets positive hashCount keys (List.replicate _ 0)
    (by rw [List.length_replicate]; exact bloomWidth_le _)
  have length := kept.length
  rw [List.length_replicate] at length
  refine ⟨bits, ⟨bits, bloomWidth bits.length, hashCount⟩, built, ?_, found _ (by rw [length]) rfl ⟨rfl, fun _ => id⟩⟩
  unfold BloomFilter.fromBytes
  rw [refuse_of_not some, ok_bind]
  dsimp only
  rw [refuse_of_not (length ▸ positive), ok_bind]

theorem bloom_rules_out_no_key_of_two : ∃ bits bloom, buildBloomFilter [[1], [2, 3]] 10 7 = .ok bits ∧
    BloomFilter.fromBytes bits 7 = .ok bloom ∧ ∀ key ∈ [[1], [2, 3]], bloom.mightContain key = .ok true :=
  bloom_rules_out_no_key (by decide) (by decide)

end KayaDB.Sst
