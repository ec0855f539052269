import Mathlib.Data.List.Nodup
import Mathlib.Data.List.Sort

structure SortedMap (κ β : Type*) [LinearOrder κ] where
  entries : List (κ × β)
  sorted : entries.Pairwise fun first second => first.1 < second.1

namespace SortedMap
variable {κ β : Type*} [LinearOrder κ] {map : SortedMap κ β} {key other : κ} {value : β}

def empty : SortedMap κ β := ⟨[], List.Pairwise.nil⟩

def get (map : SortedMap κ β) (key : κ) : Option β := (map.entries.find? fun entry => entry.1 = key).map Prod.snd

private theorem sorted_insert (map : SortedMap κ β) (key : κ) (value : β) :
    (map.entries.filter (fun entry => entry.1 < key) ++
      (key, value) :: map.entries.filter (fun entry => key < entry.1)).Pairwise fun first second => first.1 < second.1 := by
  rw [List.pairwise_append, List.pairwise_cons]
  refine ⟨map.sorted.sublist List.filter_sublist, ⟨?_, map.sorted.sublist List.filter_sublist⟩, ?_⟩
  · intro entry inside
    exact of_decide_eq_true (List.mem_filter.mp inside).2
  · intro first one second two
    have low : first.1 < key := of_decide_eq_true (List.mem_filter.mp one).2
    rcases List.mem_cons.mp two with rfl | high
    · exact low
    · exact low.trans (of_decide_eq_true (List.mem_filter.mp high).2)

def insert (map : SortedMap κ β) (key : κ) (value : β) : SortedMap κ β := ⟨_, sorted_insert map key value⟩

def range (map : SortedMap κ β) (low : κ) : List (κ × β) := map.entries.dropWhile fun entry => entry.1 < low

theorem get_eq_some : map.get key = some value ↔ (key, value) ∈ map.entries := by
  unfold get
  rw [Option.map_eq_some_iff]
  constructor
  · rintro ⟨entry, found, rfl⟩
    have same : entry.1 = key := by simpa using List.find?_some found
    exact same ▸ List.mem_of_find?_eq_some found
  · intro inside
    cases found : map.entries.find? fun entry => entry.1 = key with
    | none => exact absurd (decide_eq_true rfl) (List.find?_eq_none.mp found _ inside)
    | some entry =>
      have same : entry.1 = key := by simpa using List.find?_some found
      have distinct : (map.entries.map Prod.fst).Nodup := List.pairwise_map.mpr (map.sorted.imp ne_of_lt)
      refine ⟨entry, rfl, ?_⟩
      rw [List.inj_on_of_nodup_map distinct (List.mem_of_find?_eq_some found) inside same]

@[ext] theorem ext {first second : SortedMap κ β} (same : ∀ key, first.get key = second.get key) : first = second := by
  have members : ∀ entry, entry ∈ first.entries ↔ entry ∈ second.entries := fun entry => by
    rw [← get_eq_some, same, get_eq_some]
  have perm : first.entries.Perm second.entries := by
    refine (List.perm_ext_iff_of_nodup ?_ ?_).mpr members
    · exact first.sorted.imp fun less same => absurd (congrArg Prod.fst same) less.ne
    · exact second.sorted.imp fun less same => absurd (congrArg Prod.fst same) less.ne
  obtain ⟨one, sorted⟩ := first
  obtain ⟨two, also⟩ := second
  congr
  refine List.Perm.eq_of_pairwise ?_ sorted also perm
  exact fun _ _ _ _ less more => absurd less more.asymm

theorem get_insert [DecidableEq κ] (map : SortedMap κ β) (key : κ) (value : β) :
    (map.insert key value).get = Function.update map.get key (some value) := by
  funext other
  have members : ∀ found, (other, found) ∈ (map.insert key value).entries ↔
      if other = key then found = value else (other, found) ∈ map.entries := by
    intro found
    simp only [insert, List.mem_append, List.mem_cons, List.mem_filter, decide_eq_true_eq, Prod.mk.injEq]
    by_cases same : other = key
    · simp [same]
    · rcases lt_or_gt_of_ne same with less | more
      · simp [same, less, less.not_gt]
      · simp [same, more, more.not_gt]
  refine Option.ext fun found => ?_
  rw [get_eq_some, members, Function.update_apply]
  split
  · rw [Option.some.injEq, eq_comm]
  · exact get_eq_some.symm

end SortedMap
