import KayaDB.Sst.Reader
import KayaDB.Sst.Safety

/-! Reading a damaged table file. The decoders are safe, so what may go wrong are
the sums of an offset and a length that the file states (of its index, its bloom
filter and each block), and a file shorter than the footer of its version. -/

namespace KayaDB.Sst
open Raft (Bytes)
open Storage (SstEntry)
open Guarded

/-- The sums and the difference that opening a file with this footer takes stay
within a word. The bloom filter is only looked for behind an index that is in
the file. -/
structure SstFooter.Fits (footer : SstFooter) (bytes : Bytes) : Prop where
  index : footer.indexBlockOffset + footer.indexBlockLen < 2 ^ 64
  room : footer.physicalLen ≤ bytes.length
  bloom : footer.indexBlockOffset + footer.indexBlockLen ≤ bytes.length - footer.physicalLen → 0 < footer.bloomLen →
    footer.bloomOffset + footer.bloomLen < 2 ^ 64

/-- The footer of the file, if it has one that is accepted, fits the file. -/
def OpenFits (bytes : Bytes) : Prop := ∀ footer, decodeFooter bytes = .ok footer → footer.Fits bytes

/-- A reader of a file of a possible size, with its index inside of the file. -/
structure SstableReader.Sound (reader : SstableReader) : Prop where
  small : reader.bytes.length < 2 ^ 63
  content : reader.footer.indexBlockOffset ≤ reader.bytes.length
  bloom : ∀ bloom ∈ reader.bloom, bloom.Sound
  index : ∀ entry ∈ reader.index, entry.blockLen < 2 ^ 32

variable {bytes : Bytes}

theorem ensures_openBloom {footer : SstFooter} {idxEnd contentEnd : Nat}
    (fits : 0 < footer.bloomLen → footer.bloomOffset + footer.bloomLen < 2 ^ 64)
    (content : contentEnd ≤ bytes.length) :
    Ensures (openBloom bytes footer idxEnd contentEnd) fun found => ∀ bloom ∈ found, bloom.Sound := by
  unfold openBloom
  split
  next some =>
    refine (ensures_word (fits some)).bind fun bloomEnd same => ?_
    refine (ensures_refuse _ _).bind fun _ inside => ?_
    refine (ensures_slice (by omega) (by omega)).bind fun bits _ => ?_
    refine (ensures_fromBytes bits footer.bloomHashCount).bind fun bloom sound => ensures_ok ?_
    exact fun _ same => Option.some.inj same ▸ sound
  next =>
    refine ensures_ok fun _ inside => ?_
    cases inside

theorem ensures_openWithCache (small : bytes.length < 2 ^ 63) (fits : OpenFits bytes) (capacity : Nat) :
    Ensures (openWithCache bytes capacity) fun opened =>
      opened.1.Sound ∧ ∀ blocks ∈ opened.2, blocks.blocks = [] := by
  refine Ensures.bind ⟨(ensures_decodeFooter small).1, fun footer read => fits footer read⟩ fun footer fits => ?_
  refine (ensures_word fits.index).bind fun idxEnd same => ?_
  subst same
  have room := fits.room
  refine (ensures_sub room).bind fun contentEnd same => ?_
  refine (ensures_refuse _ _).bind fun _ inside => ?_
  refine (ensures_openBloom (fits.bloom (by omega)) (by omega)).bind fun bloom bloomSound => ?_
  refine (ensures_slice (by omega) (by omega)).bind fun indexBytes same => ?_
  have length : indexBytes.length ≤ bytes.length := by
    rw [same, List.length_drop, List.length_take]
    omega
  refine (ensures_decodeIndexBlock (by omega)).bind fun index indexFits => ensures_ok ⟨?_, ?_⟩
  · exact ⟨small, show footer.indexBlockOffset ≤ bytes.length by omega, bloomSound, indexFits⟩
  · intro blocks made
    dsimp only at made
    split at made
    · exact Option.some.inj made ▸ rfl
    · exact nomatch made

theorem safe_openWithCache_iff (small : bytes.length < 2 ^ 63) (capacity : Nat) :
    Safe (openWithCache bytes capacity) ↔ OpenFits bytes := by
  refine ⟨fun safe footer read => ?_, fun fits => (ensures_openWithCache small fits capacity).1⟩
  obtain ⟨sum, rest⟩ := safe_bind_iff.mp ((safe_bind_iff.mp safe).2 footer read)
  have index := safe_word_iff.mp sum
  obtain ⟨difference, rest⟩ := safe_bind_iff.mp (rest _ (word_eq index))
  have room := safe_sub_iff.mp difference
  refine ⟨index, room, fun inside some => ?_⟩
  have rest := (safe_bind_iff.mp (rest _ (sub_eq room))).2 () (refuse_of_not (Nat.not_lt.mpr inside) _)
  have bloom := (safe_bind_iff.mp rest).1
  unfold openBloom at bloom
  rw [if_pos some] at bloom
  exact safe_word_iff.mp (safe_bind_iff.mp bloom).1

theorem ensures_reportCorruption {label : String} {result : Except String Bytes}
    (small : ∀ raw, result = .ok raw → raw.length < 2 ^ 63) :
    Ensures (reportCorruption label result) fun raw => raw.length < 2 ^ 63 := by
  cases result with
  | ok raw => exact ensures_ok (small raw rfl)
  | error message => exact ensures_error _

theorem ensures_unwrap (libraries : Libraries) {stored : Bytes} (small : stored.length < 2 ^ 63) (codec : CompressionCodec) :
    Ensures (unwrapDataBlockFromStorage libraries stored codec) fun raw => raw.length < 2 ^ 63 := by
  unfold unwrapDataBlockFromStorage
  split
  · exact ensures_ok small
  · cases stored with
    | nil => exact ensures_error _
    | cons kind content =>
      dsimp only
      split_ifs
      · exact ensures_ok (by simp only [List.length_cons] at small; omega)
      · exact ensures_reportCorruption fun _ => libraries.smallLz4
      · exact ensures_reportCorruption fun _ => libraries.smallZstd
      · exact ensures_error _

/-- The end of the block of an index entry stays within a word. -/
def IndexEntry.Fits (entry : IndexEntry) : Prop := entry.blockOffset + entry.blockLen < 2 ^ 64

namespace SstableReader

def Holds (reader : SstableReader) (cache : Option BlockCache) : Prop :=
  ∀ blocks ∈ cache, ∀ block ∈ blocks.blocks, block.1 ≤ reader.bytes.length

variable {reader : SstableReader} {cache : Option BlockCache} {libraries : Libraries}
  {entry : IndexEntry}

theorem Sound.ensures_decodeBlock (sound : reader.Sound) (fits : entry.Fits) :
    Ensures (reader.decodeBlock libraries entry) fun _ => entry.blockOffset ≤ reader.bytes.length := by
  have small := sound.small
  have content := sound.content
  refine (ensures_word fits).bind fun stop same => ?_
  refine (ensures_refuse _ _).bind fun _ inside => ?_
  refine (ensures_slice (by omega) (by omega)).bind fun stored same => ?_
  have length : stored.length ≤ reader.bytes.length := by
    rw [same, List.length_drop, List.length_take]
    omega
  refine (ensures_unwrap libraries (by omega) _).bind fun raw rawSmall => ?_
  exact (ensures_decodeDataBlock rawSmall).weaken fun _ _ => by omega

theorem Sound.safe_decodeBlock_iff (sound : reader.Sound) (libraries : Libraries) :
    Safe (reader.decodeBlock libraries entry) ↔ entry.Fits :=
  ⟨fun safe => safe_word_iff.mp (safe_bind_iff.mp safe).1, fun fits => (sound.ensures_decodeBlock fits).1⟩

/-- A block in the cache was read from the file, so its end stayed within a word. -/
theorem Sound.readDataBlock (sound : reader.Sound) (holds : reader.Holds cache) (named : entry ∈ reader.index) :
    (Safe (reader.readDataBlock libraries entry cache).1 ↔ entry.Fits) ∧
      reader.Holds (reader.readDataBlock libraries entry cache).2 := by
  unfold SstableReader.readDataBlock
  split
  next entries blocks found =>
    obtain ⟨before, here, found⟩ := Option.bind_eq_some_iff.mp found
    obtain ⟨held, kept⟩ := BlockCache.mem_get found
    have low := holds before here _ held
    refine ⟨iff_of_true (safe_ok entries) ?_, fun after same block member => ?_⟩
    · have small := sound.small
      have short := sound.index entry named
      exact show entry.blockOffset + entry.blockLen < 2 ^ 64 by dsimp only at low; omega
    · exact holds before here block (kept block (Option.some.inj same ▸ member))
  next =>
    rw [← sound.safe_decodeBlock_iff libraries]
    cases read : reader.decodeBlock libraries entry with
    | error stop => exact ⟨Iff.rfl, holds⟩
    | ok entries =>
      refine ⟨iff_of_true (safe_ok entries) (safe_ok entries), fun blocks made block member => ?_⟩
      obtain ⟨before, here, same⟩ := Option.map_eq_some_iff.mp made
      subst same
      cases BlockCache.mem_insert member with
      | inl kept => exact holds before here block kept
      | inr new =>
        have fits : entry.Fits := (sound.safe_decodeBlock_iff libraries).mp (read ▸ safe_ok entries)
        exact new ▸ (sound.ensures_decodeBlock fits).2 entries read

def visited {σ ρ : Type} (read : IndexEntry → Option BlockCache → Guarded (List SstEntry) × Option BlockCache)
    (skip : σ → IndexEntry → Bool) (body : σ → IndexEntry → List SstEntry → Flow σ ρ) :
    List IndexEntry → σ → Option BlockCache → List IndexEntry
  | [], _, _ => []
  | entry :: rest, state, cache =>
    if skip state entry then visited read skip body rest state cache
    else
      entry :: match read entry cache with
        | (.error _, _) => []
        | (.ok block, cache) =>
          match body state entry block with
          | .done _ => []
          | .next state => visited read skip body rest state cache

theorem safe_forBlocks_iff {σ ρ : Type}
    {read : IndexEntry → Option BlockCache → Guarded (List SstEntry) × Option BlockCache} {Inv : Option BlockCache → Prop}
    (skip : σ → IndexEntry → Bool) (body : σ → IndexEntry → List SstEntry → Flow σ ρ) (finish : σ → ρ) :
    ∀ {index : List IndexEntry} (state : σ) {cache : Option BlockCache},
      (∀ entry ∈ index, ∀ cache, Inv cache → (Safe (read entry cache).1 ↔ entry.Fits) ∧ Inv (read entry cache).2) → Inv cache →
      (Safe (forBlocks read skip body finish index state cache).1 ↔
        ∀ entry ∈ visited read skip body index state cache, entry.Fits) ∧
      Inv (forBlocks read skip body finish index state cache).2
  | [], _, _, _, held => ⟨iff_of_true (safe_ok _) nofun, held⟩
  | entry :: rest, state, cache, reads, held => by
    have later := fun state {cache} (held : Inv cache) =>
      safe_forBlocks_iff skip body finish state (fun other member => reads other (List.mem_cons_of_mem _ member)) held
    obtain ⟨here, kept⟩ := reads entry List.mem_cons_self cache held
    unfold forBlocks visited
    by_cases skipped : skip state entry
    · rw [if_pos skipped, if_pos skipped]
      exact later state held
    · rw [if_neg skipped, if_neg skipped, List.forall_mem_cons, ← here]
      -- the blocks behind this one count only if it is read and the body goes on
      cases result : read entry cache with
      | mk block cache =>
        rw [result] at kept
        cases block with
        | error stop =>
          refine ⟨?_, kept⟩
          rw [safe_error_iff, safe_error_iff]
          exact (and_iff_left fun _ member => nomatch member).symm
        | ok block =>
          dsimp only
          cases body state entry block with
          | done found => exact ⟨iff_of_true (safe_ok found) ⟨safe_ok block, nofun⟩, kept⟩
          | next state => exact ⟨(later state kept).1.trans (and_iff_right (safe_ok block)).symm, (later state kept).2⟩

def visits (libraries : Libraries) (reader : SstableReader) (cache : Option BlockCache) : Call → List IndexEntry
  | .getAt key readTs =>
    if reader.mightContain key = .ok true then
      visited (reader.readDataBlock libraries) (skipGet key) (getBody reader.multiVersion key readTs) reader.index false cache
    else []
  | .scanPrefixAt front readTs =>
    visited (reader.readDataBlock libraries) (skipScan front) (fun state _ block => scanIn front readTs state block) reader.index
      ⟨[], none, false⟩ cache
  | .allEntries =>
    @visited (List SstEntry) (List SstEntry) (reader.readDataBlock libraries) (fun _ _ => false)
      (fun result _ block => .next (result ++ block)) reader.index [] cache

def reached (libraries : Libraries) (reader : SstableReader) : List Call → Option BlockCache → List IndexEntry
  | [], _ => []
  | call :: rest, cache =>
    reader.visits libraries cache call ++ reader.reached libraries rest (reader.call libraries cache call).2

theorem Sound.mightContain (sound : reader.Sound) (key : Bytes) : ∃ possible, reader.mightContain key = .ok possible := by
  unfold SstableReader.mightContain
  cases made : reader.bloom with
  | none => exact ⟨true, rfl⟩
  | some bloom => exact (sound.bloom bloom made).mightContainFrom _ _ _

theorem Sound.call (sound : reader.Sound) (holds : reader.Holds cache) (call : Call) :
    (Safe (reader.call libraries cache call).1 ↔ ∀ entry ∈ reader.visits libraries cache call, entry.Fits) ∧
      reader.Holds (reader.call libraries cache call).2 := by
  have reads : ∀ entry ∈ reader.index, ∀ cache, reader.Holds cache →
      (Safe (reader.readDataBlock libraries entry cache).1 ↔ entry.Fits) ∧
        reader.Holds (reader.readDataBlock libraries entry cache).2 := fun _ named _ holds => sound.readDataBlock holds named
  cases call with
  | scanPrefixAt front readTs => exact safe_forBlocks_iff _ _ _ _ reads holds
  | allEntries => exact safe_forBlocks_iff _ _ _ _ reads holds
  | getAt key readTs =>
    obtain ⟨possible, answer⟩ := sound.mightContain key
    simp only [SstableReader.call, getAt, visits, safe_map_iff, answer]
    cases possible with
    | false => simpa using holds
    | true => simpa using safe_forBlocks_iff _ _ _ _ reads holds

theorem Sound.answers (sound : reader.Sound) : ∀ (calls : List Call) {cache : Option BlockCache}, reader.Holds cache →
    ((∀ answer ∈ reader.answers libraries calls cache, Safe answer) ↔
      ∀ entry ∈ reader.reached libraries calls cache, entry.Fits)
  | [], _, _ => iff_of_true nofun nofun
  | call :: rest, cache, holds => by
    obtain ⟨here, kept⟩ := @Sound.call reader cache libraries sound holds call
    have later := sound.answers rest kept
    unfold SstableReader.answers reached
    rw [List.forall_mem_cons, List.forall_mem_append, here, later]

end SstableReader

/-- Opening the file and making the calls never ends with a fault. -/
def NeverFaults (libraries : Libraries) (bytes : Bytes) (capacity : Nat) (calls : List SstableReader.Call) : Prop :=
  Safe (openWithCache bytes capacity) ∧ ∀ reader cache, openWithCache bytes capacity = .ok (reader, cache) →
    ∀ answer ∈ reader.answers libraries calls cache, Safe answer

/-- Opening fits, and so does each block that the calls get to. -/
def Bounded (libraries : Libraries) (bytes : Bytes) (capacity : Nat) (calls : List SstableReader.Call) : Prop :=
  OpenFits bytes ∧ ∀ reader cache, openWithCache bytes capacity = .ok (reader, cache) →
    ∀ entry ∈ reader.reached libraries calls cache, entry.Fits

/-- What can go wrong with a file is that it states a place whose end is not a
number of 64 bits, or that it is shorter than the footer of its version. A file is
read into a vector, and so is its size limited. -/
theorem neverFaults_iff (libraries : Libraries) {bytes : Bytes} (vector : bytes.length < 2 ^ 63) (capacity : Nat)
    (calls : List SstableReader.Call) : NeverFaults libraries bytes capacity calls ↔ Bounded libraries bytes capacity calls := by
  unfold NeverFaults Bounded
  rw [safe_openWithCache_iff vector capacity]
  refine and_congr_right fun fits => forall₂_congr fun reader cache => forall_congr' fun opened => ?_
  obtain ⟨sound, empty⟩ := (ensures_openWithCache vector fits capacity).2 _ opened
  refine sound.answers calls fun blocks here block held => ?_
  rw [empty blocks here] at held
  exact nomatch held

def noCodecs : Libraries where
  compressLz4 := id
  decompressLz4 _ := .error "unsupported"
  encodeZstd _ := none
  decodeZstd _ := .error "unsupported"
  smallLz4 := nofun
  smallZstd := nofun

def emptyFooter : SstFooter where
  indexBlockOffset := 0
  indexBlockLen := 8
  tableMinSeq := 1
  tableMaxSeq := 1
  entryCount := 0
  formatVersion := sstVersionV4
  bloomOffset := 0
  bloomLen := 0
  bloomHashCount := 0
  compressionCodec := .none

def emptyTable : Bytes := finalizeIndexBlock [] ++ encodeFooter emptyFooter

theorem neverFaults_iff_empty : emptyTable.length < 2 ^ 63 ∧ NeverFaults noCodecs emptyTable 0 [.allEntries] := by
  have vector : emptyTable.length < 2 ^ 63 := by decide +kernel
  refine ⟨vector, (neverFaults_iff noCodecs vector 0 [.allEntries]).mpr ⟨fun footer read => ?_, fun reader cache opened => ?_⟩⟩
  · have stored : decodeFooter emptyTable = .ok emptyFooter := by decide +kernel
    cases Except.ok.inj (stored.symm.trans read)
    exact ⟨by decide, by decide +kernel, fun _ _ => by decide⟩
  · have stored : openWithCache emptyTable 0 = .ok (⟨emptyTable, emptyFooter, [], none⟩, none) := by decide +kernel
    cases Except.ok.inj (stored.symm.trans opened)
    exact nofun

def farIndex : Bytes := finalizeIndexBlock [] ++ encodeFooter { emptyFooter with indexBlockOffset := 2 ^ 64 - 1 }

theorem farIndex_faults : openWithCache farIndex 0 = .error .fault ∧
    ¬ ∀ bytes capacity calls, NeverFaults noCodecs bytes capacity calls := by
  have fault : openWithCache farIndex 0 = .error .fault := by decide +kernel
  exact ⟨fault, fun never => (never farIndex 0 []).1 fault⟩

end KayaDB.Sst
