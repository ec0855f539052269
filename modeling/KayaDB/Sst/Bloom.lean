import KayaDB.Sst.Block

/-! The bloom filter of a table: a row of bits, of which each key of the table
sets some, at places that double hashing gives. -/

namespace KayaDB.Sst
open Raft (Bytes toLeBytes)
open Wal (crc32c)
open Guarded

structure BloomFilter where
  bits : Bytes
  numBits : Nat
  hashCount : Nat
deriving DecidableEq, Repr

def bloomHashPair (key : Bytes) : UInt64 × UInt64 :=
  let h1 := (crc32c key).toUInt64
  let seed := key ++ (toLeBytes 8 h1.toNat).take 4
  (h1, (crc32c seed).toUInt64 ||| 1)

/-- No bit can be chosen from none. -/
def bloomBitIndex (hashes : UInt64 × UInt64) (number numBits : Nat) : Guarded Nat :=
  if numBits = 0 then .error .fault else .ok ((hashes.1 + UInt64.ofNat number * hashes.2).toNat % numBits)

def bitMask (bit : Nat) : UInt8 := 1 <<< UInt8.ofNat bit

def bloomGetBit (bits : Bytes) (index : Nat) : Guarded Bool := do
  let byte ← get bits (index / 8)
  .ok (byte &&& bitMask (index % 8) ≠ 0)

/-- The number of bits that a filter of this many bytes is taken to have. -/
def bloomWidth (byteLen : Nat) : Nat := min (byteLen % 2 ^ 32 * 8) (2 ^ 32 - 1)

namespace BloomFilter

def fromBytes (bytes : Bytes) (hashCount : Nat) : Guarded BloomFilter := do
  refuse (hashCount = 0) "bloom filter hash_count is zero"
  let numBits := bloomWidth bytes.length
  refuse (numBits = 0) "bloom filter is empty"
  .ok ⟨bytes, numBits, hashCount⟩

def mightContainFrom (bloom : BloomFilter) (hashes : UInt64 × UInt64) : Nat → Nat → Guarded Bool
  | 0, _ => .ok true
  | count + 1, number => do
    let index ← bloomBitIndex hashes number bloom.numBits
    let set ← bloomGetBit bloom.bits index
    if set then bloom.mightContainFrom hashes count (number + 1) else .ok false

def mightContain (bloom : BloomFilter) (key : Bytes) : Guarded Bool :=
  bloom.mightContainFrom (bloomHashPair key) bloom.hashCount 0

end BloomFilter

end KayaDB.Sst
