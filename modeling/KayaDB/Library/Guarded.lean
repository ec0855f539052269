import Mathlib.Algebra.Ring.Nat
import Mathlib.Logic.Basic
import Mathlib.Data.Nat.Notation

/-! Computations that may stop: with an error that is reported to the caller, or
with a fault, where the program would panic (an access out of bounds, an
arithmetic overflow). A computation is safe if it does not end with a fault. -/

namespace Guarded

inductive Stop where
  | error (message : String)
  | fault
deriving DecidableEq, Repr

end Guarded

abbrev Guarded (α : Type) := Except Guarded.Stop α

namespace Guarded
variable {α β : Type}
  {result first : Guarded α} {later : α → Guarded β} {condition : Prop} {value second start stop : Nat}
  {items : List β} {post : α → Prop}

def refuse (condition : Prop) [Decidable condition] (message : String) : Guarded Unit :=
  if condition then .error (.error message) else .ok ()

/-- The result of an addition or a product of machine words. -/
def word (value : Nat) : Guarded Nat := if value < 2 ^ 64 then .ok value else .error .fault

def sub (first second : Nat) : Guarded Nat := if second ≤ first then .ok (first - second) else .error .fault

def slice (items : List β) (start stop : Nat) : Guarded (List β) :=
  if start ≤ stop ∧ stop ≤ items.length then .ok ((items.take stop).drop start) else .error .fault

def get (items : List β) (index : Nat) : Guarded β :=
  match items[index]? with
  | some item => .ok item
  | none => .error .fault

def take (items : List β) (count : Nat) : Guarded (List β × List β) :=
  if count ≤ items.length then .ok (items.take count, items.drop count) else .error .fault

def Safe (result : Guarded α) : Prop := result ≠ .error .fault

@[simp] theorem safe_ok (value : α) : Safe (.ok value) := nofun

theorem safe_error_iff {stop : Stop} : Safe (.error stop : Guarded α) ↔ stop ≠ .fault := by
  cases stop with
  | error message => exact iff_of_true nofun nofun
  | fault => exact iff_of_false (fun safe => safe rfl) (fun other => other rfl)

@[simp] theorem safe_error (message : String) : Safe (.error (.error message) : Guarded α) := nofun

@[simp] theorem not_safe_fault : ¬ Safe (.error .fault : Guarded α) := fun safe => safe rfl

@[simp] theorem safe_map_iff {change : α → β} : Safe (result.map change) ↔ Safe result := by
  cases result with
  | error stop => exact safe_error_iff.trans safe_error_iff.symm
  | ok value => exact iff_of_true (safe_ok _) (safe_ok _)

theorem safe_bind_iff : Safe (first >>= later) ↔ Safe first ∧ ∀ value, first = .ok value → Safe (later value) := by
  cases first with
  | error stop =>
    cases stop with
    | error message => exact ⟨fun _ => ⟨nofun, nofun⟩, fun _ => nofun⟩
    | fault => exact ⟨fun safe => absurd rfl safe, fun safe => absurd rfl safe.1⟩
  | ok value => exact ⟨fun safe => ⟨nofun, fun _ same => Except.ok.inj same ▸ safe⟩, fun safe => safe.2 value rfl⟩

theorem Safe.bind (safe : Safe first) (next : ∀ value, first = .ok value → Safe (later value)) :
    Safe (first >>= later) := safe_bind_iff.mpr ⟨safe, next⟩

theorem bind_eq_ok {value : β} :
    first >>= later = .ok value ↔ ∃ middle, first = .ok middle ∧ later middle = .ok value := by
  cases first with
  | error stop => exact ⟨nofun, fun ⟨_, same, _⟩ => nomatch same⟩
  | ok middle => exact ⟨fun same => ⟨middle, rfl, same⟩, fun ⟨_, same, later⟩ => Except.ok.inj same ▸ later⟩

@[simp] theorem ok_bind (value : α) (later : α → Guarded β) : (.ok value : Guarded α) >>= later = later value := rfl

@[simp] theorem safe_refuse (condition : Prop) [Decidable condition] (message : String) : Safe (refuse condition message) := by
  unfold refuse
  split <;> nofun

theorem refuse_eq_ok [Decidable condition] {message : String} {value : Unit} :
    refuse condition message = .ok value ↔ ¬ condition := by
  unfold refuse
  by_cases held : condition
  · simp [held]
  · simp [held]

theorem refuse_of_not [Decidable condition] (held : ¬ condition) (message : String) :
    refuse condition message = .ok () := if_neg held

theorem word_eq (small : value < 2 ^ 64) : word value = .ok value := if_pos small

@[simp] theorem safe_word_iff : Safe (word value) ↔ value < 2 ^ 64 := by
  unfold word
  by_cases small : value < 2 ^ 64
  · rw [if_pos small]
    exact iff_of_true (safe_ok value) small
  · rw [if_neg small]
    exact iff_of_false not_safe_fault small

theorem sub_eq {first : Nat} (le : second ≤ first) : sub first second = .ok (first - second) := if_pos le

@[simp] theorem safe_sub_iff {first : Nat} : Safe (sub first second) ↔ second ≤ first := by
  unfold sub
  by_cases le : second ≤ first
  · simp [le]
  · simp [le]

theorem slice_eq (order : start ≤ stop) (inside : stop ≤ items.length) :
    slice items start stop = .ok ((items.take stop).drop start) := if_pos ⟨order, inside⟩

theorem get_eq {index : Nat} {item : β} (found : items[index]? = some item) : get items index = .ok item := by
  unfold get
  rw [found]

/-- The computation is safe, and what it returns meets the condition. -/
def Ensures (result : Guarded α) (post : α → Prop) : Prop := Safe result ∧ ∀ value, result = .ok value → post value

theorem ensures_ok {value : α} (held : post value) : Ensures (.ok value) post :=
  ⟨safe_ok value, fun _ same => Except.ok.inj same ▸ held⟩

theorem ensures_error (message : String) : Ensures (.error (.error message)) post := ⟨safe_error message, nofun⟩

theorem Ensures.bind {middle : α → Prop} {post : β → Prop} (ensures : Ensures first middle)
    (next : ∀ value, middle value → Ensures (later value) post) : Ensures (first >>= later) post := by
  refine ⟨ensures.1.bind fun value same => (next value (ensures.2 value same)).1, fun value same => ?_⟩
  obtain ⟨between, here, there⟩ := bind_eq_ok.mp same
  exact (next between (ensures.2 between here)).2 value there

theorem ensures_ok_iff {value : α} : Ensures (.ok value) post ↔ post value :=
  ⟨fun ensures => ensures.2 value rfl, ensures_ok⟩

theorem ensures_bind_iff {post : β → Prop} :
    Ensures (first >>= later) post ↔ Ensures first fun value => Ensures (later value) post := by
  refine ⟨fun ensures => ⟨(safe_bind_iff.mp ensures.1).1, fun middle here => ⟨?_, fun value there => ?_⟩⟩,
    fun ensures => ensures.bind fun _ => id⟩
  · exact (safe_bind_iff.mp ensures.1).2 middle here
  · exact ensures.2 value (bind_eq_ok.mpr ⟨middle, here, there⟩)

theorem ensures_congr {first second : α → Prop} (same : ∀ value, result = .ok value → (first value ↔ second value)) :
    Ensures result first ↔ Ensures result second :=
  and_congr_right fun _ => forall_congr' fun value => imp_congr_right (same value)

theorem ensures_take_iff {count : Nat} {post : List β × List β → Prop} :
    Ensures (take items count) post ↔ count ≤ items.length ∧ post (items.take count, items.drop count) := by
  unfold take
  by_cases inside : count ≤ items.length
  · rw [if_pos inside, ensures_ok_iff]
    exact ⟨fun held => ⟨inside, held⟩, And.right⟩
  · rw [if_neg inside]
    exact ⟨fun ensures => absurd ensures.1 not_safe_fault, fun held => absurd held.1 inside⟩

theorem Ensures.weaken {strong weak : α → Prop} (ensures : Ensures result strong)
    (implies : ∀ value, strong value → weak value) : Ensures result weak :=
  ⟨ensures.1, fun value same => implies value (ensures.2 value same)⟩

theorem ensures_refuse (condition : Prop) [Decidable condition] (message : String) :
    Ensures (refuse condition message) fun _ => ¬ condition := ⟨safe_refuse condition message, fun _ => refuse_eq_ok.mp⟩

theorem ensures_word (small : value < 2 ^ 64) : Ensures (word value) (· = value) := by
  rw [word_eq small]
  exact ensures_ok rfl

theorem ensures_sub {first : Nat} (le : second ≤ first) : Ensures (sub first second) (· = first - second) := by
  rw [sub_eq le]
  exact ensures_ok rfl

theorem ensures_slice (order : start ≤ stop) (inside : stop ≤ items.length) :
    Ensures (slice items start stop) (· = (items.take stop).drop start) := by
  rw [slice_eq order inside]
  exact ensures_ok rfl

end Guarded
