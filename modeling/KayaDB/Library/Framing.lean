import Mathlib.Data.List.Basic

/-! Files of framed records. A decoder cuts one record off the front of some
bytes or refuses; a reader goes on as long as records decode and are accepted,
and a log is read file by file up to the first place where a reader gets stuck. -/

namespace Framing

variable {β ρ σ : Type}

/-- What is decoded is exactly what was encoded. -/
structure Framed (encode : ρ → List β) (decode : List β → Option (ρ × Nat)) (Good : ρ → Prop) : Prop where
  complete : ∀ {record : ρ} (rest : List β), Good record →
    decode (encode record ++ rest) = some (record, (encode record).length)
  sound : ∀ {bytes : List β} {record : ρ} {size : Nat}, decode bytes = some (record, size) →
    Good record ∧ ∃ rest, bytes = encode record ++ rest ∧ size = (encode record).length
  filled : ∀ {record : ρ}, Good record → encode record ≠ []

def frames (encode : ρ → List β) (records : List ρ) : List β := records.flatMap encode

@[simp] theorem frames_nil (encode : ρ → List β) : frames encode [] = [] := rfl

@[simp] theorem frames_cons (encode : ρ → List β) (record : ρ) (records : List ρ) :
    frames encode (record :: records) = encode record ++ frames encode records := rfl

theorem Framed.torn {decode : List β → Option (ρ × Nat)} (framed : Framed encode decode Good) {record : ρ}
    (good : Good record) (front : bytes <+: encode record) (short : bytes ≠ encode record) : decode bytes = none := by
  cases decoded : decode bytes with
  | none => rfl
  | some result =>
    obtain ⟨other, size⟩ := result
    obtain ⟨also, tail, rfl, -⟩ := framed.sound decoded
    obtain ⟨more, whole⟩ := front
    -- The frame would begin with the other record's frame, so it is that frame.
    have first := framed.complete (tail ++ more) also
    have second := framed.complete [] good
    rw [← List.append_assoc, whole] at first
    rw [List.append_nil] at second
    obtain ⟨rfl, -⟩ := Prod.mk.inj (Option.some.inj (first.symm.trans second))
    have sizes := congrArg List.length whole
    simp only [List.length_append] at sizes
    have nothing : tail = [] := List.eq_nil_of_length_eq_zero (by omega)
    exact absurd (by rw [nothing, List.append_nil]) short

@[simp] theorem frames_append (encode : ρ → List β) (first second : List ρ) :
    frames encode (first ++ second) = frames encode first ++ frames encode second := List.flatMap_append

/-- The records whose frames lie within the first so many bytes of a file. -/
def before (encode : ρ → List β) : Nat → List ρ → List ρ
  | _, [] => []
  | size, record :: records =>
    if (encode record).length ≤ size then record :: before encode (size - (encode record).length) records else []

section Cuts
variable {encode : ρ → List β} {record : ρ} {records : List ρ} {size : Nat}

theorem before_whole (held : (encode record).length ≤ size) :
    before encode size (record :: records) = record :: before encode (size - (encode record).length) records := if_pos held

theorem before_short (short : size < (encode record).length) : before encode size (record :: records) = [] :=
  if_neg (Nat.not_le_of_lt short)

theorem take_frames (held : (encode record).length ≤ size) : (frames encode (record :: records)).take size =
    encode record ++ (frames encode records).take (size - (encode record).length) := by
  rw [frames_cons, List.take_append, List.take_of_length_le held]

theorem take_frames_short (short : size < (encode record).length) :
    (frames encode (record :: records)).take size = (encode record).take size := by
  rw [frames_cons, List.take_append_of_le_length (Nat.le_of_lt short)]

theorem before_prefix (size : Nat) (records : List ρ) : before encode size records <+: records := by
  induction records generalizing size with
  | nil => exact List.prefix_rfl
  | cons record records ih =>
    by_cases held : (encode record).length ≤ size
    · rw [before_whole held]
      exact (List.prefix_cons_inj record).mpr (ih _)
    · rw [before_short (Nat.lt_of_not_le held)]
      exact List.nil_prefix

end Cuts

/-- Reading from a state: the records read, the state then and the bytes left,
none of them if the end was reached. -/
inductive Reads (decode : List β → Option (ρ × Nat)) (accept : σ → ρ → Option σ) : σ → List β → List ρ → σ → List β → Prop where
  | ended (state : σ) : Reads decode accept state [] [] state []
  | undecoded {state : σ} {bytes : List β} : bytes ≠ [] → decode bytes = none →
      Reads decode accept state bytes [] state bytes
  | refused {state : σ} {bytes : List β} {record : ρ} {size : Nat} : bytes ≠ [] → decode bytes = some (record, size) →
      accept state record = none → Reads decode accept state bytes [] state bytes
  | took {state next last : σ} {bytes rest : List β} {record : ρ} {size : Nat} {records : List ρ} : bytes ≠ [] →
      decode bytes = some (record, size) → accept state record = some next →
      Reads decode accept next (bytes.drop size) records last rest →
      Reads decode accept state bytes (record :: records) last rest

variable {encode : ρ → List β} {decode : List β → Option (ρ × Nat)} {Good : ρ → Prop} {accept : σ → ρ → Option σ}
  {state last : σ} {bytes rest : List β} {records : List ρ}

namespace Reads

theorem unique (first : Reads decode accept state bytes records last rest) :
    ∀ {others : List ρ} {end_ : σ} {left : List β}, Reads decode accept state bytes others end_ left →
      others = records ∧ end_ = last ∧ left = rest := by
  induction first with
  | ended state =>
    intro others end_ left second
    cases second with
    | ended => exact ⟨rfl, rfl, rfl⟩
    | undecoded filled => exact absurd rfl filled
    | refused filled => exact absurd rfl filled
    | took filled => exact absurd rfl filled
  | undecoded filled failed =>
    intro others end_ left second
    cases second with
    | ended => exact absurd rfl filled
    | undecoded => exact ⟨rfl, rfl, rfl⟩
    | refused _ decoded => exact absurd (failed.symm.trans decoded) nofun
    | took _ decoded => exact absurd (failed.symm.trans decoded) nofun
  | refused filled decoded refusal =>
    intro others end_ left second
    cases second with
    | ended => exact absurd rfl filled
    | undecoded _ failed => exact absurd (failed.symm.trans decoded) nofun
    | refused => exact ⟨rfl, rfl, rfl⟩
    | took _ again accepted =>
      cases decoded.symm.trans again
      exact absurd (refusal.symm.trans accepted) nofun
  | took filled decoded accepted _ ih =>
    intro others end_ left second
    cases second with
    | ended => exact absurd rfl filled
    | undecoded _ failed => exact absurd (failed.symm.trans decoded) nofun
    | refused _ again refusal =>
      cases decoded.symm.trans again
      exact absurd (refusal.symm.trans accepted) nofun
    | took _ again also later =>
      cases decoded.symm.trans again
      cases accepted.symm.trans also
      obtain ⟨rfl, rfl, rfl⟩ := ih later
      exact ⟨rfl, rfl, rfl⟩

section Framed
variable (framed : Framed encode decode Good)
  {more : List ρ}
include framed

theorem split (reads : Reads decode accept state bytes records last rest) :
    bytes = frames encode records ++ rest ∧ (∀ record ∈ records, Good record) ∧ records.foldlM accept state = some last := by
  induction reads with
  | ended state => exact ⟨rfl, nofun, rfl⟩
  | undecoded => exact ⟨rfl, nofun, rfl⟩
  | refused => exact ⟨rfl, nofun, rfl⟩
  | took filled decoded accepted _ ih =>
    obtain ⟨good, tail, rfl, rfl⟩ := framed.sound decoded
    obtain ⟨parts, others, folded⟩ := ih
    rw [List.drop_left] at parts
    refine ⟨?_, ?_, ?_⟩
    · rw [frames_cons, List.append_assoc, ← parts]
    · intro record inside
      rcases List.mem_cons.mp inside with rfl | later
      · exact good
      · exact others record later
    · rw [List.foldlM_cons, accepted]
      exact folded

theorem append {next : σ} {tail : List β} (good : ∀ record ∈ records, Good record)
    (folded : records.foldlM accept state = some next) (later : Reads decode accept next tail more last rest) :
    Reads decode accept state (frames encode records ++ tail) (records ++ more) last rest := by
  induction records generalizing state with
  | nil =>
    cases folded
    exact later
  | cons record records ih =>
    have fine := good record List.mem_cons_self
    rw [List.foldlM_cons] at folded
    obtain ⟨middle, accepted, folded⟩ := Option.bind_eq_some_iff.mp folded
    rw [frames_cons, List.append_assoc]
    refine took ?_ (framed.complete _ fine) accepted ?_
    · exact fun empty => framed.filled fine (List.append_eq_nil_iff.mp empty).1
    · rw [List.drop_left]
      exact ih (fun other inside => good other (List.mem_cons_of_mem _ inside)) folded

section
variable (good : ∀ record ∈ records, Good record) (folded : records.foldlM accept state = some last)
include good folded

theorem whole : Reads decode accept state (frames encode records) records last [] := by
  have reads := append framed good folded (ended last)
  rwa [List.append_nil, List.append_nil] at reads

theorem cut (size : Nat) :
    ∃ next rest, Reads decode accept state ((frames encode records).take size) (before encode size records) next rest := by
  induction records generalizing state size with
  | nil =>
    rw [frames_nil, List.take_nil]
    exact ⟨state, [], ended state⟩
  | cons record records ih =>
    have fine := good record List.mem_cons_self
    rw [List.foldlM_cons] at folded
    obtain ⟨middle, accepted, folded⟩ := Option.bind_eq_some_iff.mp folded
    by_cases held : (encode record).length ≤ size
    · obtain ⟨next, rest, reads⟩ := ih (fun other inside => good other (List.mem_cons_of_mem _ inside)) folded
        (size - (encode record).length)
      rw [take_frames held, before_whole held]
      refine ⟨next, rest, took ?_ (framed.complete _ fine) accepted ?_⟩
      · exact fun empty => framed.filled fine (List.append_eq_nil_iff.mp empty).1
      · rw [List.drop_left]
        exact reads
    · rw [take_frames_short (Nat.lt_of_not_le held), before_short (Nat.lt_of_not_le held)]
      by_cases empty : (encode record).take size = []
      · rw [empty]
        exact ⟨state, [], ended state⟩
      · refine ⟨state, _, undecoded empty (framed.torn fine (List.take_prefix _ _) fun same => ?_)⟩
        have lengths := congrArg List.length same
        rw [List.length_take] at lengths
        omega

theorem torn (front : bytes <+: frames encode records) :
    ∃ first next rest, Reads decode accept state bytes first next rest ∧ first <+: records := by
  obtain ⟨next, rest, reads⟩ := cut framed good folded bytes.length
  rw [← List.prefix_iff_eq_take.mp front] at reads
  exact ⟨_, next, rest, reads, before_prefix _ _⟩

end

theorem torn_behind (good : ∀ record ∈ records ++ more, Good record)
    (folded : (records ++ more).foldlM accept state = some last) (whole : frames encode records <+: bytes)
    (front : bytes <+: frames encode (records ++ more)) :
    ∃ first next rest, Reads decode accept state bytes (records ++ first) next rest ∧ first <+: more := by
  rw [List.foldlM_append] at folded
  obtain ⟨middle, here, later⟩ := Option.bind_eq_some_iff.mp folded
  obtain ⟨tail, rfl⟩ := whole
  rw [frames_append] at front
  obtain ⟨first, next, rest, reads, short⟩ := torn framed (fun record inside => good record (List.mem_append_right _ inside))
    later ((List.prefix_append_right_inj _).mp front)
  exact ⟨first, next, rest, append framed (fun record inside => good record (List.mem_append_left _ inside)) here reads, short⟩

end Framed

theorem first (reads : Reads decode accept state bytes records last rest) (filled : bytes ≠ []) :
    (records = [] ∧ rest = bytes ∧ ∀ record size, decode bytes = some (record, size) → accept state record = none) ∨
      ∃ record size more, decode bytes = some (record, size) ∧ accept state record ≠ none ∧ records = record :: more := by
  cases reads with
  | ended => exact absurd rfl filled
  | undecoded _ failed => exact .inl ⟨rfl, rfl, fun record size decoded => nomatch failed.symm.trans decoded⟩
  | refused _ decoded refusal =>
    refine .inl ⟨rfl, rfl, fun record size again => ?_⟩
    cases decoded.symm.trans again
    exact refusal
  | took _ decoded accepted => exact .inr ⟨_, _, _, decoded, by rw [accepted]; nofun, rfl⟩

end Reads

/-- All files are read to their ends. -/
inductive Through (decode : List β → Option (ρ × Nat)) (accept : σ → ρ → Option σ) : σ → List (List β) → List ρ → σ → Prop where
  | done (state : σ) : Through decode accept state [] [] state
  | file {state next last : σ} {file : List β} {files : List (List β)} {records more : List ρ} :
      Reads decode accept state file records next [] → Through decode accept next files more last →
      Through decode accept state (file :: files) (records ++ more) last

/-- Recovery reads the files in order up to the first place where it gets stuck.
The file it stops in is cut off there, the later ones stay as they are. -/
inductive Recovers (decode : List β → Option (ρ × Nat)) (accept : σ → ρ → Option σ) (encode : ρ → List β) :
    σ → List (List β) → List ρ → List (List β) → Prop where
  | done (state : σ) : Recovers decode accept encode state [] [] []
  | through {state next : σ} {file : List β} {files left : List (List β)} {records more : List ρ} :
      Reads decode accept state file records next [] → Recovers decode accept encode next files more left →
      Recovers decode accept encode state (file :: files) (records ++ more) (file :: left)
  | stopped {state last : σ} {file rest : List β} {files : List (List β)} {records : List ρ} :
      Reads decode accept state file records last rest → rest ≠ [] →
      Recovers decode accept encode state (file :: files) records (frames encode records :: files)

namespace Recovers
variable {files left : List (List β)}
  {next : σ} {older : List (List β)} {file : List β}

theorem unique (first : Recovers decode accept encode state files records left) :
    ∀ {others : List ρ} {also : List (List β)}, Recovers decode accept encode state files others also →
      others = records ∧ also = left := by
  induction first with
  | done state =>
    intro others also second
    cases second
    exact ⟨rfl, rfl⟩
  | through reads _ ih =>
    intro others also second
    cases second with
    | through again later =>
      obtain ⟨rfl, rfl, -⟩ := reads.unique again
      obtain ⟨rfl, rfl⟩ := ih later
      exact ⟨rfl, rfl⟩
    | stopped again stuck => exact absurd (reads.unique again).2.2 stuck
  | stopped reads stuck =>
    intro others also second
    cases second with
    | through again _ => exact absurd (reads.unique again).2.2.symm stuck
    | stopped again _ =>
      obtain ⟨rfl, rfl, rfl⟩ := reads.unique again
      exact ⟨rfl, rfl⟩

theorem append {more : List ρ} (through : Through decode accept state older records next)
    (later : Recovers decode accept encode next files more left) :
    Recovers decode accept encode state (older ++ files) (records ++ more) (older ++ left) := by
  induction through with
  | done state => exact later
  | file reads _ ih =>
    rw [List.append_assoc]
    exact .through reads (ih later)

theorem whole (through : Through decode accept state files records last) :
    Recovers decode accept encode state files records files := by
  have recovers := append through (.done last : Recovers decode accept encode last [] [] [])
  rwa [List.append_nil, List.append_nil] at recovers

theorem cut (framed : Framed encode decode Good) (reads : Reads decode accept state file records last rest) :
    Recovers decode accept encode state [file] records [frames encode records] := by
  by_cases ended : rest = []
  · subst ended
    obtain ⟨parts, -, -⟩ := reads.split framed
    rw [List.append_nil] at parts
    have recovers := Recovers.through reads (.done last : Recovers decode accept encode last [] [] [])
    rw [List.append_nil] at recovers
    rw [← parts]
    exact recovers
  · exact .stopped reads ended

theorem behind {others : List ρ} (through : Through decode accept state older records next) :
    Recovers decode accept encode state (older ++ files) others left →
      ∃ more left, Recovers decode accept encode next files more left ∧ others = records ++ more := by
  induction through generalizing others left with
  | done state => exact fun recovers => ⟨others, left, recovers, rfl⟩
  | file reads _ ih =>
    intro recovers
    cases recovers with
    | through again later =>
      obtain ⟨rfl, rfl, -⟩ := reads.unique again
      obtain ⟨more, left, recovers, rfl⟩ := ih later
      exact ⟨more, left, recovers, (List.append_assoc _ _ _).symm⟩
    | stopped again stuck => exact absurd (reads.unique again).2.2 stuck

theorem first (recovers : Recovers decode accept encode state (file :: files) records left) (filled : file ≠ []) :
    (records = [] ∧ ∀ record size, decode file = some (record, size) → accept state record = none) ∨
      ∃ record size more, decode file = some (record, size) ∧ accept state record ≠ none ∧ records = record :: more := by
  cases recovers with
  | through reads later =>
    rcases reads.first filled with ⟨-, stuck, -⟩ | ⟨record, size, more, decoded, accepted, rfl⟩
    · exact absurd stuck.symm filled
    · exact .inr ⟨record, size, _, decoded, accepted, rfl⟩
  | stopped reads stuck =>
    rcases reads.first filled with ⟨rfl, -, barred⟩ | taken
    · exact .inl ⟨rfl, barred⟩
    · exact .inr taken

end Recovers

namespace Through
variable {files : List (List β)}

theorem frames (framed : Framed encode decode Good) {lists : List (List ρ)} (good : ∀ record ∈ lists.flatten, Good record)
    (folded : lists.flatten.foldlM accept state = some last) :
    Through decode accept state (lists.map (Framing.frames encode)) lists.flatten last := by
  induction lists generalizing state with
  | nil =>
    cases folded
    exact .done _
  | cons records lists ih =>
    rw [List.flatten_cons, List.foldlM_append] at folded
    obtain ⟨middle, here, later⟩ := Option.bind_eq_some_iff.mp folded
    refine .file (Reads.whole framed (fun record inside => good record ?_) here) (ih (fun record inside => good record ?_) later)
    · exact List.mem_append_left _ inside
    · exact List.mem_append_right _ inside

end Through

section Places

/-- A decoder looks at no more than it takes. -/
structure Local (decode : List β → Option (ρ × Nat)) : Prop where
  size : ∀ {bytes : List β} {record : ρ} {size : Nat}, decode bytes = some (record, size) → 0 < size ∧ size ≤ bytes.length
  only : ∀ {bytes : List β} {record : ρ} {size : Nat} (more : List β), decode bytes = some (record, size) →
    decode (bytes.take size ++ more) = some (record, size)

/-- The records of a file, each with the place where it stands, and the bytes
left. The fuel is the number of bytes; every record takes some. -/
def scanFrom (decode : List β → Option (ρ × Nat)) : Nat → Nat → List β → List (Nat × ρ) × List β
  | 0, _, bytes => ([], bytes)
  | fuel + 1, offset, bytes =>
    match decode bytes with
    | none => ([], bytes)
    | some (record, size) =>
      let later := scanFrom decode fuel (offset + size) (bytes.drop size)
      ((offset, record) :: later.1, later.2)

def scan (decode : List β → Option (ρ × Nat)) (offset : Nat) (bytes : List β) : List (Nat × ρ) × List β :=
  scanFrom decode bytes.length offset bytes

/-- Records and the places where their frames stand one behind the other. -/
def placed (encode : ρ → List β) : Nat → List ρ → List (Nat × ρ)
  | _, [] => []
  | offset, record :: records => (offset, record) :: placed encode (offset + (encode record).length) records

variable {record : ρ} {size offset place : Nat}

theorem map_placed (offset : Nat) (records : List ρ) : (placed encode offset records).map Prod.snd = records := by
  induction records generalizing offset with
  | nil => rfl
  | cons record records ih => exact congrArg (record :: ·) (ih _)

theorem mem_placed_behind {first second : List ρ} (offset : Nat) :
    (offset + (frames encode first).length, record) ∈ placed encode offset (first ++ record :: second) := by
  induction first generalizing offset with
  | nil => exact List.mem_cons_self
  | cons head first ih =>
    have later := ih (offset + (encode head).length)
    rw [Nat.add_assoc, ← List.length_append] at later
    exact List.mem_cons_of_mem _ later

namespace Local
variable (only : Local decode)
  {tail more : List β}
include only

theorem nothing : decode [] = none := by
  cases decoded : decode [] with
  | none => rfl
  | some found =>
    obtain ⟨positive, short⟩ := only.size decoded
    exact absurd (Nat.lt_of_lt_of_le positive short) (Nat.lt_irrefl 0)

theorem append (decoded : decode bytes = some (record, size)) (more : List β) :
    decode (bytes ++ more) = some (record, size) := by
  have same := only.only (bytes.drop size ++ more) decoded
  rwa [← List.append_assoc, List.take_append_drop] at same

/-- Bytes that are no record can begin one only if it goes beyond them. -/
theorem overruns (failed : decode tail = none) (decoded : decode (tail ++ more) = some (record, size)) :
    tail.length < size := by
  refine Nat.lt_of_not_le fun short => ?_
  have cut := only.only (tail.drop size) decoded
  rw [List.take_append_of_le_length short, List.take_append_drop] at cut
  exact nomatch failed.symm.trans cut

theorem torn (decoded : decode (bytes ++ []) = some (record, bytes.length)) {cut : Nat} (short : cut < bytes.length) :
    decode (bytes.take cut) = none := by
  cases found : decode (bytes.take cut) with
  | none => rfl
  | some result =>
    obtain ⟨other, size⟩ := result
    have fewer := (only.size found).2
    have again := only.append found (bytes.drop cut)
    rw [List.take_append_drop] at again
    rw [List.append_nil] at decoded
    cases decoded.symm.trans again
    rw [List.length_take] at fewer
    omega

theorem scanFrom_eq (offset : Nat) {fuel : Nat} (enough : bytes.length ≤ fuel) :
    scanFrom decode fuel offset bytes = match decode bytes with
      | none => ([], bytes)
      | some (record, size) =>
        let later := scan decode (offset + size) (bytes.drop size)
        ((offset, record) :: later.1, later.2) := by
  induction fuel using Nat.strongRecOn generalizing bytes offset with
  | ind fuel ih =>
    cases fuel with
    | zero =>
      rw [List.eq_nil_of_length_eq_zero (Nat.le_zero.mp enough), only.nothing]
      rfl
    | succ fuel =>
      cases decoded : decode bytes with
      | none => simp only [scanFrom, decoded]
      | some found =>
        obtain ⟨record, size⟩ := found
        have positive := (only.size decoded).1
        have fewer : (bytes.drop size).length ≤ fuel := by
          rw [List.length_drop]
          omega
        have same : scanFrom decode fuel (offset + size) (bytes.drop size) = scan decode (offset + size) (bytes.drop size) := by
          rw [ih fuel (Nat.lt_succ_self _) _ fewer]
          by_cases smaller : (bytes.drop size).length < fuel + 1
          · exact (ih _ smaller _ (Nat.le_refl _)).symm
          · exact absurd (Nat.lt_succ_of_le fewer) smaller
        simp only [scanFrom, decoded, same]

theorem scan_none (failed : decode bytes = none) (offset : Nat) : scan decode offset bytes = ([], bytes) := by
  unfold scan
  rw [only.scanFrom_eq offset (Nat.le_refl _), failed]

theorem scan_some (decoded : decode bytes = some (record, size)) (offset : Nat) : scan decode offset bytes =
    ((offset, record) :: (scan decode (offset + size) (bytes.drop size)).1, (scan decode (offset + size) (bytes.drop size)).2) := by
  conv_lhs => unfold scan
  rw [only.scanFrom_eq offset (Nat.le_refl _), decoded]

theorem scan_induction {motive : Nat → List β → Prop}
    (stuck : ∀ offset bytes, decode bytes = none → motive offset bytes)
    (took : ∀ offset bytes record size, decode bytes = some (record, size) → motive (offset + size) (bytes.drop size) →
      motive offset bytes) (offset : Nat) (bytes : List β) : motive offset bytes := by
  generalize length : bytes.length = count
  induction count using Nat.strongRecOn generalizing bytes offset with
  | ind count ih =>
    cases decoded : decode bytes with
    | none => exact stuck offset bytes decoded
    | some found =>
      obtain ⟨record, size⟩ := found
      obtain ⟨positive, short⟩ := only.size decoded
      exact took offset bytes record size decoded (ih _ (by rw [List.length_drop]; omega) _ _ rfl)

theorem scan_left (offset : Nat) (bytes : List β) :
    (scan decode offset bytes).2.length ≤ bytes.length ∧ decode (scan decode offset bytes).2 = none := by
  induction offset, bytes using only.scan_induction with
  | stuck offset bytes failed =>
    rw [only.scan_none failed]
    exact ⟨Nat.le_refl _, failed⟩
  | took offset bytes record size decoded ih =>
    rw [only.scan_some decoded]
    refine ⟨Nat.le_trans ih.1 ?_, ih.2⟩
    rw [List.length_drop]
    omega

theorem mem_scan (offset : Nat) (bytes : List β) (found : (place, record) ∈ (scan decode offset bytes).1) :
    offset ≤ place ∧ place < offset + bytes.length ∧ ∃ size, decode (bytes.drop (place - offset)) = some (record, size) := by
  induction offset, bytes using only.scan_induction with
  | stuck offset bytes failed =>
    rw [only.scan_none failed] at found
    exact absurd found List.not_mem_nil
  | took offset bytes head size decoded ih =>
    rw [only.scan_some decoded] at found
    obtain ⟨positive, short⟩ := only.size decoded
    cases found with
    | head =>
      refine ⟨Nat.le_refl _, by omega, size, ?_⟩
      rwa [Nat.sub_self]
    | tail _ later =>
      obtain ⟨low, high, other, there⟩ := ih later
      rw [List.length_drop] at high
      rw [List.drop_drop, show size + (place - (offset + size)) = place - offset by omega] at there
      exact ⟨by omega, by omega, other, there⟩

theorem scan_append (offset : Nat) (bytes more : List β) : (scan decode offset (bytes ++ more)).1 =
    (scan decode offset bytes).1 ++ (scan decode (offset + bytes.length - (scan decode offset bytes).2.length)
      ((scan decode offset bytes).2 ++ more)).1 := by
  induction offset, bytes using only.scan_induction with
  | stuck offset bytes failed =>
    rw [only.scan_none failed, Nat.add_sub_cancel]
    rfl
  | took offset bytes record size decoded ih =>
    have short := (only.size decoded).2
    rw [only.scan_some decoded, only.scan_some (only.append decoded more), List.drop_append_of_le_length short, ih,
      List.length_drop]
    simp only [List.cons_append]
    rw [show offset + size + (bytes.length - size) = offset + bytes.length by omega]

theorem unread (failed : decode tail = none) (filled : tail ≠ []) (offset : Nat) :
    (offset + tail.length, record) ∉ (scan decode offset (tail ++ more)).1 := by
  have long := List.length_pos_iff.mpr filled
  cases decoded : decode (tail ++ more) with
  | none =>
    rw [only.scan_none decoded]
    exact List.not_mem_nil
  | some found =>
    obtain ⟨other, size⟩ := found
    have longer := only.overruns failed decoded
    rw [only.scan_some decoded]
    intro inside
    rcases List.mem_cons.mp inside with first | later
    · have same := congrArg Prod.fst first
      dsimp only at same
      omega
    · have low := (only.mem_scan _ _ later).1
      omega

section Frames
variable (complete : ∀ {record : ρ} (rest : List β), Good record →
  decode (encode record ++ rest) = some (record, (encode record).length))
include complete

theorem scan_frames (good : ∀ record ∈ records, Good record) (offset : Nat) :
    scan decode offset (frames encode records) = (placed encode offset records, []) := by
  induction records generalizing offset with
  | nil => exact only.scan_none only.nothing offset
  | cons record records ih =>
    have decoded := complete (frames encode records) (good record List.mem_cons_self)
    rw [frames_cons, only.scan_some decoded, List.drop_left, ih fun other inside => good other (List.mem_cons_of_mem _ inside)]
    rfl

theorem scan_cut (good : ∀ record ∈ records, Good record) (offset size : Nat) :
    (scan decode offset ((frames encode records).take size)).1 = placed encode offset (before encode size records) := by
  induction records generalizing offset size with
  | nil =>
    rw [frames_nil, List.take_nil, only.scan_none only.nothing]
    rfl
  | cons record records ih =>
    have fine := good record List.mem_cons_self
    by_cases held : (encode record).length ≤ size
    · rw [take_frames held, before_whole held, only.scan_some (complete _ fine), List.drop_left,
        ih fun other inside => good other (List.mem_cons_of_mem _ inside)]
      rfl
    · rw [take_frames_short (Nat.lt_of_not_le held), before_short (Nat.lt_of_not_le held), only.scan_none]
      · rfl
      · exact only.torn (complete [] fine) (Nat.lt_of_not_le held)

/-- Frames behind a file are read back, each at its place, just if the file ends
with a record and they are frames that decode. -/
theorem scan_behind_iff (honest : ∀ {record : ρ} {rest : List β} {size : Nat},
      decode (encode record ++ rest) = some (record, size) → Good record) (file : List β) (later : List ρ) :
    (scan decode 0 (file ++ frames encode later)).1 = (scan decode 0 file).1 ++ placed encode file.length later ↔
      later = [] ∨ ((scan decode 0 file).2 = [] ∧ ∀ record ∈ later, Good record) := by
  constructor
  · intro kept
    have there {first second : List ρ} {record : ρ} (split : later = first ++ record :: second) :
        (file.length + (frames encode first).length, record) ∈ (scan decode 0 (file ++ frames encode later)).1 := by
      rw [kept, split]
      exact List.mem_append_right _ (mem_placed_behind file.length)
    refine or_iff_not_imp_left.mpr fun filled => ⟨?_, fun record inside => ?_⟩
    · obtain ⟨head, rest, split⟩ := List.exists_cons_of_ne_nil filled
      obtain ⟨short, failed⟩ := only.scan_left 0 file
      refine by_contra fun stuck => ?_
      have first : (file.length + (frames encode []).length, head) ∈ (scan decode 0 (file ++ frames encode later)).1 :=
        there split
      have hidden : (file.length - (scan decode 0 file).2.length + (scan decode 0 file).2.length, head) ∉
          (scan decode (file.length - (scan decode 0 file).2.length) ((scan decode 0 file).2 ++ frames encode later)).1 :=
        only.unread failed stuck _
      rw [Nat.sub_add_cancel short] at hidden
      rw [only.scan_append 0 file, Nat.zero_add] at first
      rcases List.mem_append.mp first with old | new
      · have high := (only.mem_scan _ _ old).2.1
        rw [frames_nil, List.length_nil] at high
        omega
      · exact hidden new
    · obtain ⟨first, second, split⟩ := List.append_of_mem inside
      obtain ⟨-, -, size, decoded⟩ := only.mem_scan _ _ (there split)
      rw [Nat.sub_zero, ← List.drop_drop, List.drop_left, split, frames_append, List.drop_left, frames_cons] at decoded
      exact honest decoded
  · rintro (rfl | ⟨whole, good⟩)
    · rw [frames_nil, List.append_nil]
      exact (List.append_nil _).symm
    · rw [only.scan_append, whole, List.nil_append, List.length_nil, Nat.sub_zero, Nat.zero_add,
        only.scan_frames complete good]

end Frames

end Local

end Places

end Framing
