import KayaDB.Storage.Index
import KayaDB.Storage.ScanWindow

/-! Scans of an index. The key of an entry tells its index, its secondary value and its
primary key, as long as their lengths fit into the bytes they are given. What a scan
does not see are live rows behind too many deleted ones. -/

namespace KayaDB.Storage
open Raft (Bytes toLeBytes fromLeBytes length_toLeBytes fromLeBytes_toLeBytes toLeBytes_fromLeBytes fromLeBytes_lt)
open Ascii (Text)
open Versions

section Numbers
variable {width value : Nat}

@[simp] theorem length_beBytes (width value : Nat) : (beBytes width value).length = width := by
  rw [beBytes, List.length_reverse, length_toLeBytes]

theorem fromBeBytes_beBytes (fits : value < 256 ^ width) : fromBeBytes (beBytes width value) = value := by
  rw [fromBeBytes, beBytes, List.reverse_reverse, fromLeBytes_toLeBytes, Nat.mod_eq_of_lt fits]

theorem beBytes_fromBeBytes (bytes : Bytes) : beBytes bytes.length (fromBeBytes bytes) = bytes := by
  have whole := toLeBytes_fromLeBytes bytes.reverse
  rw [List.length_reverse] at whole
  rw [beBytes, fromBeBytes, whole, List.reverse_reverse]

theorem fromBeBytes_lt (bytes : Bytes) : fromBeBytes bytes < 256 ^ bytes.length := by
  have low := fromLeBytes_lt bytes.reverse
  rwa [List.length_reverse] at low

end Numbers

section Entries
variable {name other : Text} {key secondary primary : Bytes}

theorem decodeEntry_eq_some {afterName : Bytes} : decodeEntry afterName = some (secondary, primary) ↔
    afterName = secondary ++ primary ++ beBytes 4 primary.length ∧ primary.length < 2 ^ 32 := by
  constructor
  · intro decoded
    unfold decodeEntry at decoded
    dsimp only at decoded
    split at decoded
    · cases decoded
    next long =>
      split at decoded
      · cases decoded
      next enough =>
        have tail : (afterName.drop (afterName.length - 4)).length = 4 := by
          rw [List.length_drop]
          omega
        have small := fromBeBytes_lt (afterName.drop (afterName.length - 4))
        have back := beBytes_fromBeBytes (afterName.drop (afterName.length - 4))
        rw [tail] at small back
        cases decoded
        have size : ((afterName.take (afterName.length - 4)).drop ((afterName.take (afterName.length - 4)).length -
            fromBeBytes (afterName.drop (afterName.length - 4)))).length =
            fromBeBytes (afterName.drop (afterName.length - 4)) := by
          rw [List.length_drop, List.length_take]
          omega
        refine ⟨?_, size.trans_lt small⟩
        rw [size, back, List.take_append_drop, List.take_append_drop]
  · rintro ⟨rfl, fits⟩
    have whole : (secondary ++ primary ++ beBytes 4 primary.length).length - 4 = (secondary ++ primary).length := by
      simp only [List.length_append, length_beBytes, Nat.add_sub_cancel]
    have count : fromBeBytes (beBytes 4 primary.length) = primary.length := fromBeBytes_beBytes fits
    unfold decodeEntry
    dsimp only
    rw [whole, List.drop_left, List.take_left, count, List.length_append, List.length_append, length_beBytes,
      if_neg (by omega), if_neg (by omega), Nat.add_sub_cancel, List.take_left, List.drop_left]

theorem decodeDataKey_eq_some (short : name.length < 2 ^ 16) : decodeDataKey name key = some (secondary, primary) ↔
    key = encodeDataKey name secondary primary ∧ primary.length < 2 ^ 32 := by
  have count : fromBeBytes (beBytes 2 name.length) = name.length := fromBeBytes_beBytes short
  constructor
  · intro decoded
    unfold decodeDataKey at decoded
    split at decoded
    · cases decoded
    next starts =>
      obtain ⟨rest, rfl⟩ := not_not.mp starts
      dsimp only at decoded
      rw [List.drop_left] at decoded
      split at decoded
      · cases decoded
      next two =>
        split at decoded
        · cases decoded
        next long =>
          split at decoded
          · cases decoded
          next named =>
            have named := not_not.mp named
            obtain ⟨after, fits⟩ := decodeEntry_eq_some.mp decoded
            have head : (rest.take 2).length = 2 := by
              rw [List.length_take]
              omega
            have back := beBytes_fromBeBytes (rest.take 2)
            have length : name.length = fromBeBytes (rest.take 2) := by
              rw [← named, List.length_take, List.length_drop]
              omega
            rw [head, ← length] at back
            refine ⟨?_, fits⟩
            have split : rest = rest.take 2 ++ ((rest.drop 2).take (fromBeBytes (rest.take 2)) ++
                rest.drop (2 + fromBeBytes (rest.take 2))) := by
              rw [← List.drop_drop, List.take_append_drop, List.take_append_drop]
            rw [split, named, after, ← back, encodeDataKey]
            simp only [List.append_assoc]
  · rintro ⟨rfl, fits⟩
    have entry : decodeEntry (secondary ++ primary ++ beBytes 4 primary.length) = some (secondary, primary) :=
      decodeEntry_eq_some.mpr ⟨rfl, fits⟩
    generalize made : secondary ++ primary ++ beBytes 4 primary.length = body at entry
    have room : 4 ≤ body.length := by
      rw [← made, List.length_append, length_beBytes]
      omega
    have shape : encodeDataKey name secondary primary = indexDataPrefix ++ (beBytes 2 name.length ++ (name ++ body)) := by
      rw [← made]
      simp only [encodeDataKey, List.append_assoc]
    unfold decodeDataKey
    rw [shape, if_neg (not_not.mpr (List.prefix_append _ _)), List.drop_left]
    dsimp only
    rw [List.take_left' (length_beBytes _ _), count, List.drop_left' (length_beBytes _ _), List.take_left,
      ← List.drop_drop, List.drop_left' (length_beBytes _ _), List.drop_left, List.length_append, List.length_append,
      length_beBytes, if_neg (by omega), if_neg (by omega), if_neg (not_not.mpr rfl), entry]

end Entries

namespace History
variable {written : List SstEntry} {front : Bytes} {ts : Nat} {key value : Bytes}

theorem mem_live : (key, value) ∈ live written front ts ↔ front <+: key ∧ get written key ts = some value := by
  simp only [live, List.mem_filterMap, Option.map_eq_some_iff, Prod.mk.injEq]
  constructor
  · rintro ⟨_, inside, _, found, rfl, rfl⟩
    obtain ⟨-, -, -, starts, -⟩ := (mem_keys _).mp inside
    exact ⟨starts, found⟩
  · rintro ⟨starts, found⟩
    exact ⟨key, mem_keys_of_get starts found, value, found, rfl, rfl⟩

theorem live_sorted : (live written front ts).Pairwise fun first second => first.1 < second.1 := by
  refine List.Pairwise.filterMap _ (fun first second before => ?_) keys_sorted
  simp only [Option.map_eq_some_iff]
  rintro _ ⟨_, -, rfl⟩ _ ⟨_, -, rfl⟩
  exact before

theorem live_append (more : Bytes) :
    live written (front ++ more) ts = (live written front ts).filter fun row => front ++ more <+: row.1 := by
  have different : Std.Irrefl fun first second : Bytes × Bytes => first.1 < second.1 := ⟨fun _ => lt_irrefl _⟩
  refine List.Pairwise.eq_of_mem_iff live_sorted (live_sorted.filter _) fun row => ?_
  rw [List.mem_filter, mem_live, mem_live, decide_eq_true_eq]
  constructor
  · rintro ⟨starts, found⟩
    exact ⟨⟨(List.prefix_append _ _).trans starts, found⟩, starts⟩
  · rintro ⟨⟨-, found⟩, starts⟩
    exact ⟨starts, found⟩

end History

theorem rowBytes_filter_le (test : Bytes × Bytes → Bool) (rows : List (Bytes × Bytes)) :
    rowBytes (rows.filter test) ≤ rowBytes rows := by
  induction rows with
  | nil => exact le_rfl
  | cons row rows ih =>
    simp only [rowBytes, List.map_cons, List.sum_cons] at ih ⊢
    by_cases kept : test row
    · rw [List.filter_cons_of_pos kept, List.map_cons, List.sum_cons]
      omega
    · rw [List.filter_cons_of_neg kept]
      omega

namespace IndexDb
variable {db : IndexDb} {name : Text} {valuePrefix secondary primary : Bytes}

def rows (db : IndexDb) (name : Text) : List (Bytes × Bytes) :=
  db.engine.live (encodeDataScanPrefix name []) ReadTimestamp.latest.asNat

/-- All live rows of the index are entries. -/
structure Rows (db : IndexDb) (name : Text) : Prop where
  entry : ∀ row ∈ db.rows name, ∃ secondary primary, row.1 = encodeDataKey name secondary primary
  short : ∀ row ∈ db.rows name, row.1.length < 2 ^ 32

/-- The entries of the index whose secondary value starts so, in the order of their
rows; and an entry's row tells its parts. -/
structure Exact (db : IndexDb) (name : Text) (valuePrefix : Bytes) (found : List (Bytes × Bytes)) : Prop where
  listed : ∀ secondary primary, (secondary, primary) ∈ found ↔
    encodeDataKey name secondary primary ∈ (db.rows name).map Prod.fst ∧ valuePrefix <+: secondary
  ordered : found.Pairwise fun first second => encodeDataKey name first.1 first.2 < encodeDataKey name second.1 second.2
  decoded : ∀ secondary primary, primary.length < 2 ^ 32 → ∀ other parts,
    decodeDataKey other (encodeDataKey name secondary primary) = some parts ↔ other = name ∧ parts = (secondary, primary)

/-- The rows that a scan keeps: the live ones among the first that have a version. -/
def window (db : IndexDb) (name : Text) (valuePrefix : Bytes) : List (Bytes × Bytes) :=
  db.engine.liveWithin (encodeDataScanPrefix name valuePrefix) ReadTimestamp.latest.asNat

def found (db : IndexDb) (name : Text) (valuePrefix : Bytes) : List (Bytes × Bytes) :=
  (db.window name valuePrefix).filterMap fun row =>
    (decodeDataKey name row.1).filter fun parts => valuePrefix <+: parts.1

/-- The prefix can be a key, and no entry to be found is behind the first rows. -/
structure Reached (db : IndexDb) (name : Text) (valuePrefix : Bytes) : Prop where
  valid : (encodeDataScanPrefix name valuePrefix).length ≤ db.engine.config.limits.maxKeyLen
  within : ∀ row ∈ db.rows name, ∀ secondary primary, row.1 = encodeDataKey name secondary primary →
    valuePrefix <+: secondary → row ∈ db.window name valuePrefix

theorem scanPrefix_append (name : Text) (valuePrefix : Bytes) :
    encodeDataScanPrefix name valuePrefix = encodeDataScanPrefix name [] ++ valuePrefix := by
  simp [encodeDataScanPrefix]

theorem mem_rows_of_window {row : Bytes × Bytes} (inside : row ∈ db.window name valuePrefix) : row ∈ db.rows name := by
  have live := (History.liveWithin_isPrefix _).subset inside
  rw [scanPrefix_append, History.live_append] at live
  exact List.mem_of_mem_filter live

theorem Rows.small (rows : db.Rows name) (inside : encodeDataKey name secondary primary ∈ (db.rows name).map Prod.fst) :
    primary.length < 2 ^ 32 := by
  obtain ⟨row, member, same⟩ := List.mem_map.mp inside
  have short := rows.short row member
  rw [same] at short
  simp only [encodeDataKey, List.length_append] at short
  omega

theorem eq_of_key {first second : Bytes × Bytes} (one : first ∈ db.rows name) (two : second ∈ db.rows name)
    (same : first.1 = second.1) : first = second := by
  obtain ⟨key, value⟩ := first
  obtain ⟨other, value'⟩ := second
  obtain rfl : key = other := same
  have values := (History.mem_live.mp one).2.symm.trans (History.mem_live.mp two).2
  exact congrArg (Prod.mk key) (Option.some.inj values)

theorem scanByIndex_eq (unique : Unique db.engine.sources.flatten) (known : (db.indexes.get name).isSome)
    (valid : (encodeDataScanPrefix name valuePrefix).length ≤ db.engine.config.limits.maxKeyLen)
    (below : rowBytes (db.rows name) ≤ db.engine.config.limits.maxScanBytes) :
    db.scanByIndex name valuePrefix = .ok (db.found name valuePrefix) := by
  have starts : db.window name valuePrefix <+: _ := History.liveWithin_isPrefix _
  have few : (db.window name valuePrefix).length ≤ max 1 (db.engine.effectiveLimit none) := by
    refine (List.length_filterMap_le _ _).trans ?_
    rw [List.length_take]
    exact (min_le_left _ _).trans (le_max_right _ _)
  have room : rowBytes ((db.window name valuePrefix).take (db.engine.effectiveLimit none)) ≤
      db.engine.config.limits.maxScanBytes := by
    refine (rowBytes_le ((List.take_prefix _ _).trans starts)).trans (le_trans ?_ below)
    rw [scanPrefix_append, History.live_append]
    exact rowBytes_filter_le _ _
  have scanned : db.engine.scanPrefixInner (encodeDataScanPrefix name valuePrefix) none .latest =
      .ok (db.window name valuePrefix) :=
    (Engine.scan_eq_take unique valid room).trans (congrArg Except.ok (List.take_of_length_le few))
  rw [scanByIndex, if_neg (by simpa using Option.isSome_iff_ne_none.mp known), scanned]
  rfl

theorem mem_found (short : name.length < 2 ^ 16) : (secondary, primary) ∈ db.found name valuePrefix ↔
    (∃ row ∈ db.window name valuePrefix, row.1 = encodeDataKey name secondary primary) ∧ primary.length < 2 ^ 32 ∧
      valuePrefix <+: secondary := by
  simp only [found, List.mem_filterMap, Option.filter_eq_some_iff, decodeDataKey_eq_some short, decide_eq_true_eq]
  constructor
  · rintro ⟨row, inside, ⟨same, small⟩, starts⟩
    exact ⟨⟨row, inside, same⟩, small, starts⟩
  · rintro ⟨⟨row, inside, same⟩, small, starts⟩
    exact ⟨row, inside, ⟨same, small⟩, starts⟩

theorem found_sorted (short : name.length < 2 ^ 16) : (db.found name valuePrefix).Pairwise fun first second =>
    encodeDataKey name first.1 first.2 < encodeDataKey name second.1 second.2 := by
  have sorted : (db.window name valuePrefix).Pairwise fun first second => first.1 < second.1 :=
    History.live_sorted.sublist (History.liveWithin_isPrefix _).sublist
  refine List.Pairwise.filterMap _ (fun first second before => ?_) sorted
  rintro ⟨secondary, primary⟩ one ⟨secondary', primary'⟩ two
  rw [Option.filter_eq_some_iff, decodeDataKey_eq_some short] at one two
  rwa [← one.1.1, ← two.1.1]

theorem name_of_decodeDataKey {other : Text} {parts : Bytes × Bytes} (short : name.length < 2 ^ 16)
    (decoded : decodeDataKey other (encodeDataKey name secondary primary) = some parts) : other = name := by
  have count : fromBeBytes (beBytes 2 name.length) = name.length := fromBeBytes_beBytes short
  have shape : encodeDataKey name secondary primary =
      indexDataPrefix ++ (beBytes 2 name.length ++ (name ++ (secondary ++ primary ++ beBytes 4 primary.length))) := by
    simp [encodeDataKey]
  unfold decodeDataKey at decoded
  rw [shape, if_neg (not_not.mpr (List.prefix_append _ _)), List.drop_left] at decoded
  dsimp only at decoded
  rw [List.take_left' (length_beBytes _ _), count, List.drop_left' (length_beBytes _ _), List.take_left] at decoded
  split at decoded
  · cases decoded
  · split at decoded
    · cases decoded
    · split at decoded
      · cases decoded
      next same => exact (not_not.mp same).symm

/-- As long as the rows of the index are below the byte cap, a scan of it is exact
just if no entry to be found is behind the rows that the scan keeps. -/
theorem scanByIndex_exact_iff (unique : Unique db.engine.sources.flatten) (known : (db.indexes.get name).isSome)
    (short : name.length < 2 ^ 16) (rows : db.Rows name)
    (below : rowBytes (db.rows name) ≤ db.engine.config.limits.maxScanBytes) (valuePrefix : Bytes) :
    (∃ found, db.scanByIndex name valuePrefix = .ok found ∧ db.Exact name valuePrefix found) ↔
      db.Reached name valuePrefix := by
  constructor
  · rintro ⟨found, scanned, exact_⟩
    have valid : (encodeDataScanPrefix name valuePrefix).length ≤ db.engine.config.limits.maxKeyLen := by
      by_contra long
      unfold scanByIndex Engine.scanPrefixInner LimitsConfig.validateScanPrefix at scanned
      rw [if_neg (by simpa using Option.isSome_iff_ne_none.mp known), if_pos (not_le.mp long)] at scanned
      cases scanned
    refine ⟨valid, fun row inside secondary primary same starts => ?_⟩
    rw [scanByIndex_eq unique known valid below] at scanned
    cases scanned
    have listed := (exact_.listed secondary primary).mpr ⟨same ▸ List.mem_map_of_mem inside, starts⟩
    obtain ⟨⟨other, kept, also⟩, -⟩ := (mem_found short).mp listed
    rwa [eq_of_key inside (mem_rows_of_window kept) (same.trans also.symm)]
  · intro reached
    refine ⟨_, scanByIndex_eq unique known reached.valid below, ?_, found_sorted short, ?_⟩
    · intro secondary primary
      rw [mem_found short]
      constructor
      · rintro ⟨⟨row, inside, same⟩, -, starts⟩
        exact ⟨same ▸ List.mem_map_of_mem (mem_rows_of_window inside), starts⟩
      · rintro ⟨inside, starts⟩
        obtain ⟨row, member, same⟩ := List.mem_map.mp inside
        exact ⟨⟨row, reached.within row member secondary primary same starts, same⟩, rows.small inside, starts⟩
    · intro secondary primary small other parts
      have own : decodeDataKey name (encodeDataKey name secondary primary) = some (secondary, primary) :=
        (decodeDataKey_eq_some short).mpr ⟨rfl, small⟩
      constructor
      · intro decoded
        obtain rfl := name_of_decodeDataKey short decoded
        exact ⟨rfl, Option.some.inj (decoded.symm.trans own)⟩
      · rintro ⟨rfl, rfl⟩
        exact own

/-- One index over the keys with a `u`, for scans that keep a single row. The
value of a key changes, so that a deleted row comes before the live one. -/
def revised (window : Nat) : IndexDb :=
  let fresh : IndexDb := ⟨.fresh { leveledConfig with limits := ⟨64, 64, window, 4096⟩ }, .empty, .empty⟩
  let indexed := (fresh.createIndexWith [105] [117] .wholeValue .online []).1
  let first := (indexed.exec none [] (indexedPut indexed.indexes [117] [97])).1
  (first.exec none [] (indexedPut first.indexes [117] [98])).1

theorem revised_rows (window : Nat) (either : window = 1 ∨ window = 2) :
    (revised window).rows [105] = [(encodeDataKey [105] [98] [117], [])] := by
  rcases either with rfl | rfl <;> decide +kernel

/-- A scan that keeps two rows comes to the live one. -/
theorem revised_exact : ∃ found, (revised 2).scanByIndex [105] [] = .ok found ∧ (revised 2).Exact [105] [] found := by
  have only := revised_rows 2 (.inr rfl)
  have listed : (revised 2).window [105] [] = [(encodeDataKey [105] [98] [117], [])] := by decide +kernel
  have unique : Unique (revised 2).engine.sources.flatten := by
    unfold Versions.Unique
    decide +kernel
  refine (scanByIndex_exact_iff unique (by decide +kernel) (by decide) ⟨?_, ?_⟩ (by decide +kernel) []).mpr
    ⟨by decide +kernel, ?_⟩
  · rw [only]
    intro row inside
    exact ⟨[98], [117], congrArg Prod.fst (List.mem_singleton.mp inside)⟩
  · rw [only]
    intro row inside
    cases List.mem_singleton.mp inside
    decide
  · rw [only, listed]
    exact fun row inside _ _ _ _ => inside

/-- The index has one row, as many as scans return, and the scan does not find it. -/
theorem revised_not_exact : ((revised 1).rows [105]).length ≤ (revised 1).engine.config.limits.maxScanResults ∧
    rowBytes ((revised 1).rows [105]) ≤ (revised 1).engine.config.limits.maxScanBytes ∧
    ¬ ∃ found, (revised 1).scanByIndex [105] [] = .ok found ∧ (revised 1).Exact [105] [] found := by
  refine ⟨by decide +kernel, by decide +kernel, ?_⟩
  rintro ⟨found, scanned, exact_⟩
  have nothing : (revised 1).scanByIndex [105] [] = .ok [] := by decide +kernel
  cases nothing.symm.trans scanned
  have listed := (exact_.listed [98] [117]).mpr
  rw [revised_rows 1 (.inl rfl)] at listed
  exact List.not_mem_nil (listed ⟨List.mem_singleton_self _, List.nil_prefix⟩)

end IndexDb

end KayaDB.Storage
