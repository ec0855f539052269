import Mathlib.Order.Lattice
import Mathlib.Order.Basic
import Mathlib.Data.List.Chain
import Mathlib.Data.List.Basic

/-! Lists of half-open intervals that cover a linear order from a point on without
gap or overlap. The intervals carry other data, so they are given by two readings
of an arbitrary type; no upper end means that the interval is open to the right. -/

namespace KayaDB.Tilings
variable {ι α : Type} [LinearOrder α] {low : ι → α} {high : ι → Option α} {start : α}
  {items back : List ι} {old left right : ι}

/-- The items cover everything from `start` on, each beginning where the one
before it ends. -/
inductive Tiles (low : ι → α) (high : ι → Option α) : α → List ι → Prop where
  | last {start item} : low item = start → high item = none → Tiles low high start [item]
  | next {start item stop rest} : low item = start → high item = some stop → start < stop → Tiles low high stop rest →
      Tiles low high start (item :: rest)

def Covers (low : ι → α) (high : ι → Option α) (key : α) (item : ι) : Prop :=
  low item ≤ key ∧ ∀ stop ∈ high item, key < stop

instance (key : α) : DecidablePred (Covers low high key) := fun item =>
  match ends : high item with
  | none => decidable_of_iff (low item ≤ key) (by simp [Covers, ends])
  | some stop => decidable_of_iff (low item ≤ key ∧ key < stop) (by simp [Covers, ends])

section
variable (tiles : Tiles low high start items)
include tiles

theorem Tiles.start_le : ∀ item ∈ items, start ≤ low item := by
  induction tiles with
  | last begins _ =>
    intro item inside
    cases List.mem_singleton.mp inside
    exact begins.ge
  | next begins _ less _ ih =>
    intro item inside
    cases List.mem_cons.mp inside with
    | inl same => exact same ▸ begins.ge
    | inr later => exact less.le.trans (ih item later)

theorem Tiles.sorted : items.Pairwise fun first second => low first < low second := by
  induction tiles with
  | last _ _ => exact List.pairwise_singleton _ _
  | next begins _ less later ih =>
    apply List.pairwise_cons.mpr
    refine ⟨fun other inside => ?_, ih⟩
    rw [begins]
    exact less.trans_le (later.start_le other inside)

theorem Tiles.adjacent : items.IsChain fun first second => high first = some (low second) := by
  induction tiles with
  | last _ _ => exact List.IsChain.singleton _
  | next _ ends _ later ih =>
    cases later with
    | last begins _ => exact List.IsChain.cons_cons (begins ▸ ends) ih
    | next begins _ _ _ => exact List.IsChain.cons_cons (begins ▸ ends) ih

theorem Tiles.covers_one {key : α} (reached : start ≤ key) : ∃ item, items.filter (Covers low high key) = [item] := by
  induction tiles with
  | @last start item begins ends =>
    refine ⟨item, ?_⟩
    simp [Covers, begins, ends, reached]
  | @next start item stop rest begins ends less later ih =>
    by_cases beyond : stop ≤ key
    · have missed : ¬ Covers low high key item := fun covered => (covered.2 stop ends).not_ge beyond
      rw [List.filter_cons_of_neg (by simpa using missed)]
      exact ih beyond
    · have covered : Covers low high key item := by
        refine ⟨begins.trans_le reached, fun other same => ?_⟩
        cases ends.symm.trans same
        exact not_le.mp beyond
      refine ⟨item, ?_⟩
      rw [List.filter_cons_of_pos (by simpa using covered), List.filter_eq_nil_iff.mpr]
      intro other inside
      have above := later.start_le other inside
      simpa [Covers] using fun low_le => absurd (above.trans low_le) beyond

end

theorem Tiles.splice {front rest : List ι} (tiles : Tiles low high start (front ++ rest)) (remaining : rest ≠ []) :
    ∃ middle, Tiles low high middle rest ∧
      ∀ other, Tiles low high middle other → Tiles low high start (front ++ other) := by
  induction front generalizing start with
  | nil => exact ⟨start, tiles, fun _ => id⟩
  | cons item front ih =>
    generalize whole : (item :: front) ++ rest = items at tiles
    cases tiles with
    | last _ _ =>
      obtain ⟨-, nothing⟩ := List.cons.inj whole
      exact absurd (List.append_eq_nil_iff.mp nothing).2 remaining
    | next begins ends less later =>
      obtain ⟨rfl, rfl⟩ := List.cons.inj whole
      obtain ⟨middle, tail, exchange⟩ := ih later
      exact ⟨middle, tail, fun other fits => Tiles.next begins ends less (exchange other fits)⟩

theorem Tiles.cut {point : α} (tiles : Tiles low high start (old :: back)) (above : low old < point)
    (below : ∀ stop ∈ high old, point < stop) (leftLow : low left = low old) (leftHigh : high left = some point)
    (rightLow : low right = point) (rightHigh : high right = high old) :
    Tiles low high start (left :: right :: back) := by
  cases tiles with
  | last begins ends =>
    exact Tiles.next (leftLow.trans begins) leftHigh (begins ▸ above) (Tiles.last rightLow (rightHigh.trans ends))
  | next begins ends less later =>
    exact Tiles.next (leftLow.trans begins) leftHigh (begins ▸ above)
      (Tiles.next rightLow (rightHigh.trans ends) (below _ ends) later)

theorem Tiles.join {joined : ι} (tiles : Tiles low high start (left :: right :: back))
    (joinedLow : low joined = low left) (joinedHigh : high joined = high right) :
    Tiles low high start (joined :: back) := by
  cases tiles with
  | next begins ends less later =>
    cases later with
    | last _ open_ => exact Tiles.last (joinedLow.trans begins) (joinedHigh.trans open_)
    | next _ stops more rest => exact Tiles.next (joinedLow.trans begins) (joinedHigh.trans stops) (less.trans more) rest

theorem Tiles.relabel {new : ι} (tiles : Tiles low high start (old :: back)) (sameLow : low new = low old)
    (sameHigh : high new = high old) : Tiles low high start (new :: back) := by
  cases tiles with
  | last begins ends => exact Tiles.last (sameLow.trans begins) (sameHigh.trans ends)
  | next begins ends less later => exact Tiles.next (sameLow.trans begins) (sameHigh.trans ends) less later

end KayaDB.Tilings
