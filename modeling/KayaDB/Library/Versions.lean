import Mathlib.Data.List.Lex
import Mathlib.Data.List.MinMax
import Mathlib.Data.List.Sort

/-! Multi-version data. Every write leaves an entry under a sequence number, and a read
at a timestamp asks for the newest entry not above it. A read that stops at the first
source with an answer finds it if each source is newer than those after it. -/

namespace Versions

structure Entry (κ β : Type*) where
  key : κ
  sequence : Nat
  value : β
deriving DecidableEq, Repr

section
variable {κ β : Type*} {key : κ} {ts : Nat} {entry other : Entry κ β} {entries more : List (Entry κ β)}
  {sources : List (List (Entry κ β))}

def Visible (key : κ) (ts : Nat) (entry : Entry κ β) : Prop := entry.key = key ∧ entry.sequence ≤ ts

instance [DecidableEq κ] (key : κ) (ts : Nat) : DecidablePred (Visible (β := β) key ts) := fun entry =>
  inferInstanceAs (Decidable (entry.key = key ∧ entry.sequence ≤ ts))

structure IsNewest (entries : List (Entry κ β)) (key : κ) (ts : Nat) (entry : Entry κ β) : Prop where
  mem : entry ∈ entries
  visible : Visible key ts entry
  greatest : ∀ other ∈ entries, Visible key ts other → other.sequence ≤ entry.sequence

/-- A key has at most one entry under each sequence number. -/
def Unique (entries : List (Entry κ β)) : Prop :=
  ∀ first ∈ entries, ∀ second ∈ entries, first.key = second.key → first.sequence = second.sequence → first = second

theorem Unique.subset (unique : Unique entries) (inside : more ⊆ entries) : Unique more :=
  fun first one second two => unique first (inside one) second (inside two)

theorem IsNewest.eq (unique : Unique entries) (newest : IsNewest entries key ts entry)
    (also : IsNewest entries key ts other) : entry = other := by
  apply unique _ newest.mem _ also.mem
  · exact newest.visible.1.trans also.visible.1.symm
  · exact le_antisymm (also.greatest _ newest.mem newest.visible) (newest.greatest _ also.mem also.visible)

section
variable [DecidableEq κ]

def newest (entries : List (Entry κ β)) (key : κ) (ts : Nat) : Option (Entry κ β) :=
  (entries.filter fun entry => Visible key ts entry).argmax Entry.sequence

theorem newest_eq_none : newest entries key ts = none ↔ ∀ entry ∈ entries, ¬ Visible key ts entry := by
  simp [newest, List.argmax_eq_none]

theorem isNewest_of_newest (found : newest entries key ts = some entry) : IsNewest entries key ts entry := by
  have picked := List.mem_filter.mp (List.argmax_mem found)
  refine ⟨picked.1, of_decide_eq_true picked.2, fun other inside visible => ?_⟩
  exact List.le_of_mem_argmax (List.mem_filter.mpr ⟨inside, decide_eq_true visible⟩) found

theorem exists_isNewest (inside : entry ∈ entries) (visible : Visible key ts entry) :
    ∃ top, IsNewest entries key ts top := by
  cases found : newest entries key ts with
  | none => exact absurd visible (newest_eq_none.mp found entry inside)
  | some top => exact ⟨top, isNewest_of_newest found⟩

theorem IsNewest.newest_eq (unique : Unique entries) (newest : IsNewest entries key ts entry) :
    Versions.newest entries key ts = some entry := by
  cases found : Versions.newest entries key ts with
  | none => exact absurd newest.visible (newest_eq_none.mp found _ newest.mem)
  | some other => rw [(isNewest_of_newest found).eq unique newest]

theorem newest_congr (unique : Unique entries) (same : ∀ entry, entry ∈ more ↔ entry ∈ entries) :
    newest more key ts = newest entries key ts := by
  cases found : newest more key ts with
  | none =>
    refine (newest_eq_none.mpr fun entry inside => ?_).symm
    exact newest_eq_none.mp found entry ((same entry).mpr inside)
  | some entry =>
    have top := isNewest_of_newest found
    refine (IsNewest.newest_eq unique ⟨(same entry).mp top.mem, top.visible, fun other inside => ?_⟩).symm
    exact top.greatest other ((same other).mpr inside)

def lookup (sources : List (List (Entry κ β))) (key : κ) (ts : Nat) : Option (Entry κ β) :=
  sources.findSome? fun source => newest source key ts

/-- For each key, all of the first source is newer than what only the second has. -/
def Newer (first second : List (Entry κ β)) : Prop :=
  ∀ recent ∈ first, ∀ old ∈ second, recent.key = old.key → old.sequence < recent.sequence ∨ old ∈ first

def Ordered (sources : List (List (Entry κ β))) : Prop := sources.Pairwise Newer

theorem lookup_of_ordered (unique : Unique sources.flatten) (ordered : Ordered sources) (key : κ) (ts : Nat) :
    lookup sources key ts = newest sources.flatten key ts := by
  induction sources with
  | nil => rfl
  | cons source rest ih =>
    rw [List.flatten_cons] at unique ⊢
    have later := ih (unique.subset (List.subset_append_right _ _)) (List.pairwise_cons.mp ordered).2
    cases found : newest source key ts with
    | some entry =>
      have top := isNewest_of_newest found
      have overall : IsNewest (source ++ rest.flatten) key ts entry := by
        refine ⟨List.mem_append_left _ top.mem, top.visible, fun other inside visible => ?_⟩
        rcases List.mem_append.mp inside with here | there
        · exact top.greatest other here visible
        · obtain ⟨below, member, held⟩ := List.mem_flatten.mp there
          have newer := (List.pairwise_cons.mp ordered).1 below member
          rcases newer entry top.mem other held (top.visible.1.trans visible.1.symm) with older | also
          · exact older.le
          · exact top.greatest other also visible
      rw [overall.newest_eq unique, lookup, List.findSome?_cons, found]
    | none =>
      have skipped : lookup (source :: rest) key ts = lookup rest key ts := by
        rw [lookup, List.findSome?_cons, found, lookup]
      rw [skipped, later]
      simp only [newest, List.filter_append]
      rw [show source.filter (fun entry => decide (Visible key ts entry)) = [] from
        List.argmax_eq_none.mp found, List.nil_append]

theorem newest_of_visible (unique : Unique entries) (inside : more ⊆ entries)
    (only : ∀ entry ∈ entries, Visible key ts entry → entry ∈ more) : newest more key ts = newest entries key ts := by
  cases found : newest entries key ts with
  | none => exact newest_eq_none.mpr fun entry member => newest_eq_none.mp found entry (inside member)
  | some entry =>
    have top := isNewest_of_newest found
    exact IsNewest.newest_eq (unique.subset inside)
      ⟨only entry top.mem top.visible, top.visible, fun other member => top.greatest other (inside member)⟩

theorem newest_added (unique : Unique more) (added : ∀ other, other ∈ more ↔ other = entry ∨ other ∈ entries)
    (newer : ∀ old ∈ entries, old.sequence < entry.sequence) :
    newest more key ts = if Visible key ts entry then some entry else newest entries key ts := by
  split
  next seen =>
    refine IsNewest.newest_eq unique ⟨(added entry).mpr (Or.inl rfl), seen, fun other inside _ => ?_⟩
    rcases (added other).mp inside with rfl | old
    · exact le_rfl
    · exact (newer other old).le
  next unseen =>
    refine (newest_of_visible unique (fun other inside => (added other).mpr (Or.inr inside)) fun other inside seen => ?_).symm
    rcases (added other).mp inside with rfl | old
    · exact absurd seen unseen
    · exact old

theorem newest_later {later : Nat} (le : ts ≤ later)
    (quiet : ∀ entry ∈ entries, entry.key = key → entry.sequence ≤ later → entry.sequence ≤ ts) :
    newest entries key later = newest entries key ts := by
  unfold newest
  congr 1
  refine List.filter_congr fun entry inside => decide_eq_decide.mpr ⟨fun seen => ?_, fun seen => ?_⟩
  · exact ⟨seen.1, quiet entry inside seen.1 seen.2⟩
  · exact ⟨seen.1, seen.2.trans le⟩

end
end

section Runs
variable {κ β : Type*} [LinearOrder κ] {key : κ} {ts : Nat} {entry other : Entry κ β} {run : List (Entry κ β)}

/-- Runs list their keys in order, and each key's entries newest first. -/
def Before (first second : Entry κ β) : Prop :=
  first.key < second.key ∨ first.key = second.key ∧ second.sequence < first.sequence

instance : DecidableRel (Before (κ := κ) (β := β)) := fun first second =>
  inferInstanceAs (Decidable (first.key < second.key ∨ first.key = second.key ∧ second.sequence < first.sequence))

theorem Before.trans {third : Entry κ β} (one : Before entry other) (two : Before other third) :
    Before entry third := by
  rcases one with less | ⟨same, newer⟩ <;> rcases two with next | ⟨equal, older⟩
  · exact Or.inl (less.trans next)
  · exact Or.inl (equal ▸ less)
  · exact Or.inl (same ▸ next)
  · exact Or.inr ⟨same.trans equal, older.trans newer⟩

theorem same_of_not_before (one : ¬ Before entry other) (two : ¬ Before other entry) :
    entry.key = other.key ∧ entry.sequence = other.sequence := by
  have keys : entry.key = other.key :=
    le_antisymm (not_lt.mp fun less => two (Or.inl less)) (not_lt.mp fun less => one (Or.inl less))
  refine ⟨keys, ?_⟩
  by_contra different
  rcases Nat.lt_or_gt_of_ne different with less | more
  · exact two (Or.inr ⟨keys.symm, less⟩)
  · exact one (Or.inr ⟨keys, more⟩)

theorem Before.ne (before : Before entry other) (keys : entry.key = other.key) : entry.sequence ≠ other.sequence := by
  rcases before with less | ⟨-, newer⟩
  · exact absurd keys less.ne
  · exact newer.ne'

theorem unique_of_sorted (sorted : run.Pairwise Before) : Unique run := by
  have apart : (run.map fun entry => (entry.key, entry.sequence)).Nodup := List.pairwise_map.mpr (sorted.imp ?_)
  · intro one inside two also keys numbers
    exact List.inj_on_of_nodup_map apart inside also (Prod.ext keys numbers)
  · intro first second before same
    exact before.ne (Prod.mk.inj same).1 (Prod.mk.inj same).2

theorem find_eq_newest [DecidableEq κ] (sorted : run.Pairwise Before) :
    run.find? (fun entry => Visible key ts entry) = newest run key ts := by
  cases found : run.find? (fun entry => decide (Visible key ts entry)) with
  | none =>
    refine (newest_eq_none.mpr fun entry inside => ?_).symm
    simpa using List.find?_eq_none.mp found entry inside
  | some entry =>
    obtain ⟨seen, before, after, rfl, skipped⟩ := List.find?_eq_some_iff_append.mp found
    refine (IsNewest.newest_eq (unique_of_sorted sorted) ⟨by simp, of_decide_eq_true seen, ?_⟩).symm
    intro other inside visible
    rcases List.mem_append.mp inside with early | late
    · have := skipped other early
      simp [visible] at this
    · rcases List.mem_cons.mp late with rfl | late
      · exact le_rfl
      · rcases (List.pairwise_cons.mp (List.pairwise_append.mp sorted).2.1).1 other late with less | ⟨-, newer⟩
        · have equal := (of_decide_eq_true seen).1.trans visible.1.symm
          exact absurd equal less.ne
        · exact newer.le

/-- An entry replaces one with the same key and number. -/
def insertEntry (entry : Entry κ β) : List (Entry κ β) → List (Entry κ β)
  | [] => [entry]
  | head :: tail =>
    if Before entry head then entry :: head :: tail
    else if Before head entry then head :: insertEntry entry tail
    else entry :: tail

theorem mem_insertEntry (inside : other ∈ insertEntry entry run) : other = entry ∨ other ∈ run := by
  induction run with
  | nil => exact Or.inl (List.mem_singleton.mp inside)
  | cons head tail ih =>
    unfold insertEntry at inside
    split at inside
    · exact List.mem_cons.mp inside
    · split at inside
      · rcases List.mem_cons.mp inside with rfl | inside
        · exact Or.inr List.mem_cons_self
        · exact (ih inside).imp_right (List.mem_cons_of_mem _)
      · exact (List.mem_cons.mp inside).imp_right (List.mem_cons_of_mem _)

theorem pairwise_insertEntry (entry : Entry κ β) (sorted : run.Pairwise Before) :
    (insertEntry entry run).Pairwise Before := by
  induction run with
  | nil => exact List.pairwise_singleton _ _
  | cons head tail ih =>
    obtain ⟨first, rest⟩ := List.pairwise_cons.mp sorted
    unfold insertEntry
    split
    next before =>
      refine List.pairwise_cons.mpr ⟨fun other inside => ?_, sorted⟩
      rcases List.mem_cons.mp inside with rfl | inside
      · exact before
      · exact before.trans (first other inside)
    next early =>
      split
      next before =>
        refine List.pairwise_cons.mpr ⟨fun other inside => ?_, ih rest⟩
        rcases mem_insertEntry inside with rfl | inside
        · exact before
        · exact first other inside
      next late =>
        obtain ⟨keys, numbers⟩ := same_of_not_before early late
        refine List.pairwise_cons.mpr ⟨fun other inside => ?_, rest⟩
        have before := first other inside
        rwa [Before, ← keys, ← numbers] at before

def Same (entry other : Entry κ β) : Prop := entry.key = other.key ∧ entry.sequence = other.sequence

instance (entry : Entry κ β) : DecidablePred (Same entry) := fun other =>
  inferInstanceAs (Decidable (entry.key = other.key ∧ entry.sequence = other.sequence))

theorem perm_insertEntry (entry : Entry κ β) (sorted : run.Pairwise Before) :
    List.Perm run ((run.find? fun old => Same entry old).toList ++ run.filter fun old => ¬ Same entry old) ∧
      List.Perm (insertEntry entry run) (entry :: run.filter fun old => ¬ Same entry old) := by
  have others : ∀ {rest : List (Entry κ β)}, (∀ old ∈ rest, Before entry old) →
      rest.filter (fun old => decide (¬ Same entry old)) = rest := fun after =>
    List.filter_eq_self.mpr fun old inside => decide_eq_true fun same => (after old inside).ne same.1 same.2
  induction run with
  | nil => exact ⟨List.Perm.nil, List.Perm.refl _⟩
  | cons head tail ih =>
    obtain ⟨first, rest⟩ := List.pairwise_cons.mp sorted
    unfold insertEntry
    split
    next before =>
      have after : ∀ old ∈ head :: tail, Before entry old :=
        List.forall_mem_cons.mpr ⟨before, fun old inside => before.trans (first old inside)⟩
      have none : (head :: tail).find? (fun old => Same entry old) = none := by
        refine List.find?_eq_none.mpr fun old inside same => ?_
        exact (after old inside).ne (of_decide_eq_true same).1 (of_decide_eq_true same).2
      rw [others after, none]
      exact ⟨List.Perm.refl _, List.Perm.refl _⟩
    next early =>
      split
      next before =>
        have apart : ¬ Same entry head := fun same => before.ne same.1.symm same.2.symm
        obtain ⟨parts, placed⟩ := ih rest
        rw [List.find?_cons_of_neg (by simpa using apart), List.filter_cons_of_pos (by simpa using apart)]
        exact ⟨(parts.cons head).trans List.perm_middle.symm, (placed.cons head).trans (List.Perm.swap ..)⟩
      next late =>
        have same : Same entry head := same_of_not_before early late
        have after : ∀ old ∈ tail, Before entry old := by
          intro old inside
          rw [Before, same.1, same.2]
          exact first old inside
        rw [List.find?_cons_of_pos (by simpa using same), List.filter_cons_of_neg (by simpa using same), others after]
        exact ⟨List.Perm.refl _, List.Perm.refl _⟩

end Runs

section Parts
variable {α : Type*} {holds : α → Bool} {items : List α}

theorem cut_eq_filter (closed : items.Pairwise fun first second => holds second → holds first) :
    items.takeWhile holds = items.filter holds ∧ items.dropWhile holds = items.filter fun item => !holds item := by
  induction items with
  | nil => exact ⟨rfl, rfl⟩
  | cons head tail ih =>
    obtain ⟨first, rest⟩ := List.pairwise_cons.mp closed
    cases kept : holds head with
    | true => simp [kept, ih rest]
    | false =>
      have none : ∀ item ∈ tail, holds item = false := fun item inside =>
        Bool.eq_false_iff.mpr fun also => Bool.eq_false_iff.mp kept (first item inside also)
      have all : tail.filter (fun item => !holds item) = tail :=
        List.filter_eq_self.mpr fun item inside => by rw [none item inside]; rfl
      have nothing : tail.filter holds = [] := List.filter_eq_nil_iff.mpr fun item inside => by simp [none item inside]
      simp [kept, all, nothing]

end Parts

section Prefixes
variable {α : Type*} [LinearOrder α] {front middle last : List α}

theorem isPrefix_of_between (low : ¬ middle < front) (high : ¬ last < middle) (starts : front <+: last) :
    front <+: middle := by
  induction front generalizing middle last with
  | nil => exact List.nil_prefix
  | cons head front ih =>
    obtain ⟨rest, rfl⟩ := starts
    cases middle with
    | nil => exact absurd List.Lex.nil low
    | cons item middle =>
      rcases lt_trichotomy item head with less | rfl | more
      · exact absurd (List.Lex.rel less) low
      · refine List.cons_prefix_cons.mpr ⟨rfl, ih (fun less => low (.cons less)) ?_ (List.prefix_append front rest)⟩
        exact fun less => high (.cons less)
      · exact absurd (List.Lex.rel more) high

theorem not_lt_of_isPrefix (starts : front <+: last) : ¬ last < front := by
  obtain ⟨rest, rfl⟩ := starts
  induction front with
  | nil => exact fun less => nomatch less
  | cons head front ih =>
    intro less
    cases less with
    | cons less => exact ih less
    | rel less => exact lt_irrefl _ less

end Prefixes
end Versions
