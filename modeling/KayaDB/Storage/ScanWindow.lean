import KayaDB.Storage.Recovery

/-! How far a scan sees. It keeps the first keys that have a version, deleted ones
included, and drops the deleted ones afterwards; compared with a scan that counts
live keys only. -/

namespace KayaDB.Storage
open Raft (Bytes)
open Versions

namespace History
variable {limits : LimitsConfig} {written : List SstEntry} {front : Bytes} {ts : Nat}

def live (written : List SstEntry) (front : Bytes) (ts : Nat) : List (Bytes × Bytes) :=
  (keys written front ts).filterMap fun key => (get written key ts).map fun value => (key, value)

def liveWithin (written : List SstEntry) (front : Bytes) (ts window : Nat) : List (Bytes × Bytes) :=
  ((keys written front ts).take window).filterMap fun key => (get written key ts).map fun value => (key, value)

theorem liveWithin_isPrefix (window : Nat) : liveWithin written front ts window <+: live written front ts :=
  (List.take_prefix window _).filterMap _

end History

def rowBytes (rows : List (Bytes × Bytes)) : Nat := (rows.map fun row => row.1.length + row.2.length).sum

def liveRows (rows : List (Bytes × Option Bytes)) : List (Bytes × Bytes) :=
  rows.filterMap fun row => row.2.map fun value => (row.1, value)

variable {rows : List (Bytes × Option Bytes)} {maxBytes : Nat}

theorem collectRows_take {limit : Nat} : ∀ {count total : Nat}, count < limit →
    total + rowBytes ((liveRows rows).take (limit - count)) ≤ maxBytes →
      collectRows maxBytes limit count total rows = (liveRows rows).take (limit - count) := by
  induction rows with
  | nil => exact fun _ _ => by simp [collectRows, liveRows]
  | cons row rows ih =>
    intro count total more room
    obtain ⟨key, found⟩ := row
    cases found with
    | none => exact ih more room
    | some value =>
      obtain ⟨left, some_⟩ : ∃ left, limit - count = left + 1 := ⟨limit - count - 1, by omega⟩
      have first : (liveRows ((key, some value) :: rows)).take (limit - count) = (key, value) :: (liveRows rows).take left := by
        rw [some_]
        rfl
      rw [first] at room ⊢
      simp only [rowBytes, List.map_cons, List.sum_cons] at room
      have fits : ¬ (count ≠ 0 ∧ maxBytes < total + (key.length + value.length)) := by omega
      simp only [collectRows, if_neg fits]
      split
      next enough =>
        have last : left = 0 := by omega
        rw [last, List.take_zero]
      next again =>
        have same : left = limit - (count + 1) := by omega
        rw [same] at room ⊢
        rw [ih (Nat.lt_of_not_le again) (by unfold rowBytes; omega)]

/-- A limit of zero is met when it is tested first, after one row. -/
theorem collectRows_zero {total : Nat} : collectRows maxBytes 0 0 total rows = (liveRows rows).take 1 := by
  induction rows with
  | nil => rfl
  | cons row rows ih =>
    obtain ⟨key, found⟩ := row
    cases found with
    | none => exact ih
    | some value => simp [collectRows, liveRows]

namespace Engine
variable {engine : Engine}

def live (engine : Engine) (front : Bytes) (ts : Nat) : List (Bytes × Bytes) := History.live engine.sources.flatten front ts

/-- Those among the first keys with a version, as many as a scan keeps. -/
def liveWithin (engine : Engine) (front : Bytes) (ts : Nat) : List (Bytes × Bytes) :=
  History.liveWithin engine.sources.flatten front ts engine.config.limits.maxScanResults

def effectiveLimit (engine : Engine) (limit : Option Nat) : Nat :=
  limit.elim engine.config.limits.maxScanResults fun limit => min limit engine.config.limits.maxScanResults

theorem scan_eq_take (unique : Unique engine.sources.flatten) {front : Bytes} {limit : Option Nat} {readAt : ReadTimestamp}
    (valid : front.length ≤ engine.config.limits.maxKeyLen)
    (room : rowBytes ((engine.liveWithin front readAt.asNat).take (engine.effectiveLimit limit)) ≤
      engine.config.limits.maxScanBytes) :
    engine.scanPrefixInner front limit readAt =
      .ok ((engine.liveWithin front readAt.asNat).take (max 1 (engine.effectiveLimit limit))) := by
  have rows : liveRows (((History.keys engine.sources.flatten front readAt.asNat).take
      engine.config.limits.maxScanResults).map fun key => (key, History.get engine.sources.flatten key readAt.asNat)) =
        engine.liveWithin front readAt.asNat := by
    unfold liveRows liveWithin History.liveWithin
    rw [List.filterMap_map]
    rfl
  rw [scan_of_sources unique fun _ => Iff.rfl, History.scan, LimitsConfig.validateScanPrefix, if_neg (not_lt.mpr valid)]
  change Except.ok (collectRows _ (engine.effectiveLimit limit) 0 0 _) = _
  congr 1
  rcases Nat.eq_zero_or_pos (engine.effectiveLimit limit) with none_ | some_
  · rw [none_, collectRows_zero, rows]
    rfl
  · rw [collectRows_take some_ (by rwa [Nat.zero_add, Nat.sub_zero, rows]), Nat.sub_zero, rows, max_eq_right some_]

end Engine

theorem take_eq_take_iff {α : Type} {first whole : List α} (starts : first <+: whole) (count : Nat) :
    first.take count = whole.take count ↔ count ≤ first.length ∨ first.length = whole.length := by
  constructor
  · intro same
    have lengths := congrArg List.length same
    rw [List.length_take, List.length_take] at lengths
    have shorter := starts.length_le
    omega
  · rintro (enough | all)
    · obtain ⟨rest, rfl⟩ := starts
      exact (List.take_append_of_le_length enough).symm
    · rw [starts.eq_of_length all]

theorem rowBytes_le {first whole : List (Bytes × Bytes)} (starts : first <+: whole) : rowBytes first ≤ rowBytes whole := by
  obtain ⟨rest, rfl⟩ := starts
  simp [rowBytes]

namespace Engine
variable {engine : Engine}

/-- The prefix can be a key, and the window of the scan holds enough live keys or all
of them; none where none is asked for. -/
def SeesEnough (engine : Engine) (front : Bytes) (limit : Option Nat) (ts : Nat) : Prop :=
  front.length ≤ engine.config.limits.maxKeyLen ∧
    if engine.effectiveLimit limit = 0 then engine.liveWithin front ts = []
    else engine.effectiveLimit limit ≤ (engine.liveWithin front ts).length ∨
      (engine.liveWithin front ts).length = (engine.live front ts).length

instance (engine : Engine) (front : Bytes) (limit : Option Nat) (ts : Nat) : Decidable (engine.SeesEnough front limit ts) :=
  inferInstanceAs (Decidable (front.length ≤ engine.config.limits.maxKeyLen ∧
    if engine.effectiveLimit limit = 0 then engine.liveWithin front ts = []
    else engine.effectiveLimit limit ≤ (engine.liveWithin front ts).length ∨
      (engine.liveWithin front ts).length = (engine.live front ts).length))

/-- Below the byte cap a scan returns the first live keys just when its window holds enough of them. -/
theorem scan_first_live_iff (unique : Unique engine.sources.flatten) (front : Bytes) (limit : Option Nat)
    (readAt : ReadTimestamp) (below : rowBytes ((engine.live front readAt.asNat).take (engine.effectiveLimit limit)) ≤
      engine.config.limits.maxScanBytes) :
    engine.scanPrefixInner front limit readAt =
        .ok ((engine.live front readAt.asNat).take (engine.effectiveLimit limit)) ↔
      engine.SeesEnough front limit readAt.asNat := by
  have starts : engine.liveWithin front readAt.asNat <+: engine.live front readAt.asNat := History.liveWithin_isPrefix _
  unfold SeesEnough
  by_cases valid : front.length ≤ engine.config.limits.maxKeyLen
  · rw [scan_eq_take unique valid ((rowBytes_le (starts.take _)).trans below), Except.ok.injEq, and_iff_right valid]
    split
    next nothing =>
      rw [nothing, List.take_zero]
      exact List.take_eq_nil_iff.trans (or_iff_right Nat.one_ne_zero)
    next some_ =>
      rw [max_eq_right (Nat.pos_of_ne_zero some_)]
      exact take_eq_take_iff starts _
  · have refused : ∃ reason, engine.scanPrefixInner front limit readAt = .error reason := by
      unfold scanPrefixInner LimitsConfig.validateScanPrefix
      rw [if_pos (not_le.mp valid)]
      exact ⟨_, rfl⟩
    obtain ⟨reason, refused⟩ := refused
    rw [refused]
    exact ⟨nofun, fun seen => absurd seen.1 valid⟩

theorem unique_of_events (config : EngineConfig) (events : List Event) :
    Unique (events.foldl Engine.step (.fresh config)).sources.flatten := by
  have logged : (events.foldl Engine.step (.fresh config)).Logged := by
    induction events using List.reverseRecOn with
    | nil => exact .fresh config
    | append_singleton earlier last ih =>
      rw [List.foldl_append]
      exact ih.step last
  exact logged.unique

/-- Three keys, one of them deleted, for scans that keep two. -/
def buried : List Event :=
  [.put [1, 1] [7] none none, .put [1, 2] [8] none none, .put [1, 3] [9] none none, .flush, .delete [1, 2] none none]

def buriedEngine : Engine := buried.foldl Engine.step (.fresh { leveledConfig with limits := ⟨64, 64, 2, 4096⟩ })

theorem scan_first_live_iff_buried : buriedEngine.SeesEnough [1] (some 1) 5 ∧
    buriedEngine.scanPrefixInner [1] (some 1) (.at 5) = .ok ((buriedEngine.live [1] 5).take 1) := by
  have enough : buriedEngine.SeesEnough [1] (some 1) 5 := by decide +kernel
  exact ⟨enough, (scan_first_live_iff (unique_of_events _ buried) [1] (some 1) (.at 5) (by decide +kernel)).mpr enough⟩

/-- The deleted key takes the place of a live one, and a limit of zero still lets a
row through. The byte cap plays no part. -/
theorem scans_miscount :
    rowBytes (buriedEngine.live [1] ReadTimestamp.latest.asNat) ≤ buriedEngine.config.limits.maxScanBytes ∧
      (buriedEngine.live [1] ReadTimestamp.latest.asNat).take (buriedEngine.effectiveLimit (some 2)) =
        [([1, 1], [7]), ([1, 3], [9])] ∧
      buriedEngine.scanPrefixInner [1] (some 2) .latest = .ok [([1, 1], [7])] ∧
      (buriedEngine.live [1] ReadTimestamp.latest.asNat).take (buriedEngine.effectiveLimit (some 0)) = [] ∧
      buriedEngine.scanPrefixInner [1] (some 0) .latest = .ok [([1, 1], [7])] := by
  decide +kernel

end Engine
end KayaDB.Storage
