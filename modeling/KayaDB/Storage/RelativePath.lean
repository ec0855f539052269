import KayaDB.Library.Separated
import KayaDB.Storage.FileEngine

/-! Paths below the data directory: what a parsed path is made of, how a child is put under
it, and where the disk finds it on each platform the server is built for. -/

namespace KayaDB.Storage.RelativePath
open Separated

inductive Platform
  | unix
  | windows

def namesDrive (text : List Char) : Bool := hasDrive text && text.head?.any Char.isAlpha

/-- What the platform takes for absolute. A slash at the front stands for the network prefixes too. -/
def isAbsolute (platform : Platform) (text : List Char) : Bool :=
  match platform with
  | .unix => text.head? == some '/'
  | .windows => text.head? == some '/' || namesDrive text && text[2]? == some '/'

def components (path : String) : List (List Char) := (path.toList.splitOn '/').filter fun part => part ≠ []

def join (path child : String) : Except String String :=
  match relativePath child with
  | .error message => .error message
  | .ok child =>
    if path = "" then .ok child
    else if child = "" then .ok path
    else relativePath (path ++ "/" ++ child)

/-- A component with a drive takes the place of all that stood before it. -/
def push (platform : Platform) (resolved : List (List Char)) (component : List Char) : List (List Char) :=
  match platform with
  | .unix => resolved ++ [component]
  | .windows => if namesDrive component then [component] else resolved ++ [component]

def resolve (platform : Platform) (root : List (List Char)) (path : String) : List (List Char) :=
  (components path).foldl (push platform) root

structure NormalForm (path : String) : Prop where
  again : relativePath path = .ok path
  plain : path ≠ "" → ∀ part ∈ path.toList.splitOn '/', part ≠ [] ∧ part ≠ ['.'] ∧ part ≠ ['.', '.']
  relative : ∀ platform, isAbsolute platform path.toList = false
  below : ∀ platform root, root <+: resolve platform root path

/-- A text with its slashes turned, without white space around it. -/
def trimmed (text : String) : List Char := trim (text.toList.map fun char => if char.toNat = 92 then '/' else char)

def named (text : String) : List (List Char) :=
  ((trimmed text).splitOn '/').filter fun part => part ≠ [] ∧ part ≠ ['.']

/-- No white space at either end, no colon behind the first byte, and no drive anywhere. -/
structure Settled (parts : List (List Char)) : Prop where
  begins : (parts.head?.bind List.head?).any isWhitespace = false
  ends : (parts.getLast?.bind List.getLast?).any isWhitespace = false
  colon : parts.head?.any hasDrive = false
  drives : ∀ part ∈ parts, namesDrive part = false

structure Name (part : List Char) : Prop where
  nonempty : part ≠ []
  dot : part ≠ ['.']
  dots : part ≠ ['.', '.']
  slash : '/' ∉ part
  backslash : ∀ char ∈ part, char.toNat ≠ 92

def written (parts : List (List Char)) : List Char := ['/'].intercalate parts

variable {child path text : String} {part : List Char} {parts : List (List Char)}

theorem trim_sublist (whole : List Char) : (trim whole).Sublist whole :=
  (List.rdropWhile_prefix isWhitespace _).sublist.trans (whole.dropWhile_suffix isWhitespace).sublist

theorem accepted_iff : relativePath text = .ok path ↔ (trimmed text).head? ≠ some '/' ∧ hasDrive (trimmed text) = false ∧
    ['.', '.'] ∉ (trimmed text).splitOn '/' ∧ String.ofList (written (named text)) = path := by
  have parsed : relativePath text = if trimmed text = [] ∨ trimmed text = ['.'] then .ok ""
      else if (trimmed text).head? = some '/' ∨ hasDrive (trimmed text) then .error _
      else if ['.', '.'] ∈ (trimmed text).splitOn '/' then .error _
      else .ok (String.ofList (written (named text))) := rfl
  rw [parsed]
  split
  next root =>
    have single : ['.'].splitOn '/' = [['.']] := rfl
    unfold named
    obtain empty | dot := root
    · simp [empty, hasDrive, written]
    · simp [dot, single, hasDrive, written]
  next =>
    split
    next absolute =>
      refine ⟨nofun, fun accepted => ?_⟩
      simp [accepted.1, accepted.2.1] at absolute
    next relative =>
      split
      next dots => exact ⟨nofun, fun accepted => absurd dots accepted.2.2.1⟩
      next plain => simp_all

theorem trimmed_ne : ∀ char ∈ trimmed text, char.toNat ≠ 92 := by
  intro char inside
  obtain ⟨old, _, same⟩ := List.mem_map.mp ((trim_sublist _).subset inside)
  rw [← same]
  split
  · decide
  · assumption

theorem accepted_written (accepted : relativePath text = .ok path) :
    path = String.ofList (written (named text)) ∧ ∀ part ∈ named text, Name part := by
  obtain ⟨-, -, dots, same⟩ := accepted_iff.mp accepted
  refine ⟨same.symm, fun part member => ?_⟩
  obtain ⟨piece, kept⟩ := List.mem_filter.mp member
  have apart := mem_splitOn piece
  simp only [decide_eq_true_eq] at kept
  exact {
    nonempty := kept.1
    dot := kept.2
    dots := fun same => dots (same ▸ piece)
    slash := apart.1
    backslash := fun char inside => trimmed_ne char (apart.2 inside) }

theorem pushed_plain (platform : Platform) (root : List (List Char))
    (plain : ∀ part ∈ parts, namesDrive part = false) : parts.foldl (push platform) root = root ++ parts := by
  induction parts generalizing root with
  | nil => simp
  | cons first rest ih =>
    have step : push platform root first = root ++ [first] := by
      cases platform with
      | unix => rfl
      | windows => simp [push, plain first]
    rw [List.foldl_cons, step, ih _ fun part member => plain part (List.mem_cons_of_mem _ member)]
    simp

theorem pushed_drive (member : part ∈ parts) (drive : namesDrive part = true) (root other : List (List Char)) :
    parts.foldl (push .windows) root = parts.foldl (push .windows) other := by
  induction parts generalizing root other with
  | nil => cases member
  | cons first rest ih =>
    obtain rfl | later := List.mem_cons.mp member
    · simp [push, drive]
    · exact ih later _ _

theorem below_iff (path : String) :
    (∀ platform root, root <+: resolve platform root path) ↔ ∀ part ∈ components path, namesDrive part = false := by
  constructor
  · intro below part member
    by_contra drive
    have first := below .windows [[]]
    have second := below .windows [['/']]
    unfold resolve at first second
    rw [pushed_drive member (by simpa using drive) [[]] [['/']]] at first
    cases (List.prefix_of_prefix_length_le first second le_rfl).eq_of_length rfl
  · intro plain platform root
    unfold resolve
    rw [pushed_plain platform root plain]
    exact List.prefix_append _ _

section Written
variable (names : ∀ part ∈ parts, Name part)
include names

theorem splitOn_written (nonempty : parts ≠ []) : (written parts).splitOn '/' = parts :=
  List.splitOn_intercalate '/' (fun part member => (names part member).slash) nonempty

theorem components_written : components (String.ofList (written parts)) = parts := by
  unfold components
  rw [String.toList_ofList]
  by_cases nonempty : parts = []
  · simp [nonempty, written]
  · rw [splitOn_written names nonempty, List.filter_eq_self]
    intro part member
    simpa using (names part member).nonempty

theorem written_eq_nil : String.ofList (written parts) = "" ↔ parts = [] := by
  constructor
  · intro same
    have none := components_written names
    rw [same] at none
    exact none.symm
  · intro none
    simp [none, written]

theorem trimmed_written : trimmed (String.ofList (written parts)) = trim (written parts) := by
  rw [trimmed, String.toList_ofList, List.map_congr_left, List.map_id]
  intro char inside
  have forward : char.toNat ≠ 92 := by
    obtain rfl | ⟨part, member, held⟩ := mem_intercalate inside
    · decide
    · exact (names part member).backslash char held
  simp [forward]

theorem head_written : (written parts).head? = parts.head?.bind List.head? ∧
    hasDrive (written parts) = parts.head?.any hasDrive := by
  cases parts with
  | nil => exact ⟨rfl, rfl⟩
  | cons first rest =>
    obtain ⟨char, tail, rfl⟩ := List.exists_cons_of_ne_nil (names first List.mem_cons_self).nonempty
    simp only [written, intercalate_cons, List.cons_append, List.head?_cons, Option.bind_some, Option.any_some, true_and]
    cases tail <;> cases rest <;> simp [hasDrive]

theorem slash_written : (written parts).head? ≠ some '/' := by
  rw [(head_written names).1]
  intro slash
  obtain ⟨part, first, begins⟩ := Option.bind_eq_some_iff.mp slash
  exact (names part (List.mem_of_mem_head? first)).slash (List.mem_of_mem_head? begins)

theorem getLast_written : (written parts).getLast? = parts.getLast?.bind List.getLast? := by
  obtain rfl | ⟨most, last, rfl⟩ := List.eq_nil_or_concat parts
  · rfl
  · have nonempty := (names last (by simp)).nonempty
    by_cases single : most = []
    · simp [single, written]
    · simp [written, intercalate_append single, List.getLast?_append, List.getLast?_cons,
        List.getLast?_eq_some_getLast nonempty]

/-- Parsing again would make the text shorter if there were white space to drop. -/
theorem trimmed_of_again (same : String.ofList (written (named (String.ofList (written parts)))) =
    String.ofList (written parts)) : trim (written parts) = written parts := by
  refine (trim_sublist _).eq_of_length_le ?_
  calc (written parts).length
    _ = (written (named (String.ofList (written parts)))).length := by rw [String.ofList_injective same]
    _ ≤ (['/'].intercalate ((trimmed (String.ofList (written parts))).splitOn '/')).length :=
      length_intercalate_le '/' List.filter_sublist
    _ = (trim (written parts)).length := by rw [List.intercalate_splitOn, trimmed_written names]

theorem again_iff : relativePath (String.ofList (written parts)) = .ok (String.ofList (written parts)) ↔
    trim (written parts) = written parts ∧ hasDrive (written parts) = false := by
  rw [accepted_iff]
  constructor
  · intro ⟨_, drive, _, same⟩
    have whole := trimmed_of_again names same
    rw [trimmed_written names, whole] at drive
    exact ⟨whole, drive⟩
  · intro ⟨whole, drive⟩
    have trimmed : trimmed (String.ofList (written parts)) = written parts := (trimmed_written names).trans whole
    unfold named
    rw [trimmed]
    by_cases none : parts = []
    · simp [none, written, hasDrive]
    · rw [splitOn_written names none, List.filter_eq_self.mpr fun part member => by
        simpa using And.intro (names part member).nonempty (names part member).dot]
      exact ⟨slash_written names, drive, fun dots => (names _ dots).dots rfl, rfl⟩

theorem normalForm_iff : NormalForm (String.ofList (written parts)) ↔ Settled parts := by
  have trimmed : trim (written parts) = written parts ↔ _ := dropEnds_eq_self_iff
  rw [(head_written names).1, getLast_written names] at trimmed
  have again := again_iff names
  rw [trimmed, (head_written names).2] at again
  constructor
  · intro normal
    obtain ⟨⟨begins, ends⟩, colon⟩ := again.mp normal.again
    have drives := (below_iff _).mp normal.below
    rw [components_written names] at drives
    exact ⟨begins, ends, colon, drives⟩
  · intro settled
    exact {
      again := again.mpr ⟨⟨settled.begins, settled.ends⟩, settled.colon⟩
      plain := by
        intro nonempty part member
        rw [String.toList_ofList, splitOn_written names (mt (written_eq_nil names).mpr nonempty)] at member
        have name := names part member
        exact ⟨name.nonempty, name.dot, name.dots⟩
      relative := by
        have drive := (head_written names).2.trans settled.colon
        intro platform
        cases platform <;> simp [isAbsolute, slash_written names, namesDrive, drive]
      below := by
        rw [below_iff, components_written names]
        exact settled.drives }

theorem joined_iff (accepted : relativePath child = .ok path) :
    (∃ joined, join (String.ofList (written parts)) child = .ok joined ∧
      components joined = parts ++ named child ∧ NormalForm joined) ↔ Settled (parts ++ named child) := by
  obtain ⟨rfl, childNames⟩ := accepted_written accepted
  generalize named child = more at *
  have both : ∀ part ∈ parts ++ more, Name part := by
    intro part member
    exact (List.mem_append.mp member).elim (names part) (childNames part)
  have whole : join (String.ofList (written parts)) child =
      if parts = [] ∨ more = [] then .ok (String.ofList (written (parts ++ more)))
      else relativePath (String.ofList (written (parts ++ more))) := by
    unfold join
    rw [accepted]
    dsimp only
    simp only [written_eq_nil names, written_eq_nil childNames]
    by_cases root : parts = []
    · simp [root]
    by_cases leaf : more = []
    · simp [root, leaf]
    have text : String.ofList (written parts) ++ "/" ++ String.ofList (written more) =
        String.ofList (written (parts ++ more)) := by
      rw [← String.toList_inj]
      simp [written, intercalate_append root leaf]
    rw [if_neg root, if_neg leaf, if_neg (not_or.mpr ⟨root, leaf⟩), text]
  rw [whole, ← normalForm_iff both]
  constructor
  · intro ⟨joined, done, same, normal⟩
    split at done
    · cases done
      exact normal
    · obtain ⟨rfl, later⟩ := accepted_written done
      rw [components_written later] at same
      rwa [same] at normal
  · intro normal
    refine ⟨_, ?_, components_written both, normal⟩
    split
    · rfl
    · exact normal.again

end Written

theorem relative_paths_normal_iff (text child path childPath : String) (accepted : relativePath text = .ok path)
    (acceptedChild : relativePath child = .ok childPath) :
    (NormalForm path ∧ ∃ joined, join path child = .ok joined ∧
      components joined = components path ++ components childPath ∧ NormalForm joined) ↔
      Settled (named text) ∧ Settled (named text ++ named child) := by
  obtain ⟨rfl, names⟩ := accepted_written accepted
  obtain ⟨same, childNames⟩ := accepted_written acceptedChild
  rw [normalForm_iff names, ← joined_iff names acceptedChild, components_written names, same,
    components_written childNames]

theorem relative_paths_normal_of_segment :
    NormalForm "wal" ∧ ∃ joined, join "wal" "0001.wal" = .ok joined ∧
      components joined = components "wal" ++ components "0001.wal" ∧ NormalForm joined :=
  (relative_paths_normal_iff "./wal/" "0001.wal" "wal" "0001.wal" (by decide +kernel) (by decide +kernel)).mpr
    ⟨⟨by decide +kernel, by decide +kernel, by decide +kernel, by decide +kernel⟩,
      by decide +kernel, by decide +kernel, by decide +kernel, by decide +kernel⟩

/-- The drive is looked for before the dot in front of it is dropped. -/
theorem drive_behind_dot_leaves_root :
    relativePath "./C:/Windows" = .ok "C:/Windows" ∧ relativePath "x" = .ok "x" ∧
      isAbsolute .windows "C:/Windows".toList = true ∧
      resolve .windows ["D:".toList, "kaya".toList] "C:/Windows" = ["C:".toList, "Windows".toList] ∧
      ¬(NormalForm "C:/Windows" ∧ ∃ joined, join "C:/Windows" "x" = .ok joined ∧
        components joined = components "C:/Windows" ++ components "x" ∧ NormalForm joined) := by
  refine ⟨by decide +kernel, by decide +kernel, by decide +kernel, by decide +kernel, ?_⟩
  intro ⟨normal, _⟩
  have relative := normal.relative .windows
  revert relative
  decide +kernel

end KayaDB.Storage.RelativePath
