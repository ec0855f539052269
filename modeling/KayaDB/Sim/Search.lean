import KayaDB.Sim.Linear

/-! What the checker finds. The search tries just the orders in which nothing
stands before an operation that ended before it started, so that it keeps to real
time backwards. -/

namespace KayaDB.Sim
open Raft (Bytes)

abbrev Contents := Bytes → Option Bytes

/-- The rows are those of all keys under `front`, in the order of the keys. -/
def Lists (contents : Contents) (front : Bytes) (rows : List (Bytes × Bytes)) : Prop :=
  rows.Pairwise (fun first second => first.1 < second.1) ∧
    ∀ key value, (key, value) ∈ rows ↔ front <+: key ∧ contents key = some value

def Matches (contents : Contents) (entry : HistoryEntry) : Prop :=
  match entry.op, entry.result with
  | .get key, .value observed => observed = contents key
  | .scan front, .scan observed => Lists contents front observed
  | _, _ => True

def effect (contents : Contents) (entry : HistoryEntry) : Contents :=
  match entry.op, entry.result with
  | .put key value, .ok => Function.update contents key (some value)
  | .delete key, .ok => Function.update contents key none
  | _, _ => contents

/-- The operations could have been executed one after the other. -/
def Explained : Contents → History → Prop
  | _, [] => True
  | contents, entry :: rest => Matches contents entry ∧ Explained (effect contents entry) rest

/-- Some order that puts operations first that are to come before others explains
the history. -/
def Explainable (history : History) (before : HistoryEntry → HistoryEntry → Prop) : Prop :=
  ∃ order : List (Fin history.length), order.Perm (List.finRange history.length) ∧
    order.Pairwise (fun i j => ¬ before (history.get j) (history.get i)) ∧
    Explained (fun _ => none) (order.map history.get)

def Precedes (a b : HistoryEntry) : Prop := a.endTick < b.startTick

instance (a b : HistoryEntry) : Decidable (Precedes a b) := inferInstanceAs (Decidable (_ < _))

/-- The history is one of a store that executes each operation at once, between
its start and its end. -/
def Linearizable (history : History) : Prop := Explainable history Precedes

def HistoryEntry.Typed (entry : HistoryEntry) : Prop :=
  match entry.op, entry.result with
  | _, .error _ => True
  | .put _ _, .ok => True
  | .delete _, .ok => True
  | .get _, .value _ => True
  | .scan _, .scan _ => True
  | _, _ => False

variable {front : Bytes} {model : Model} {idx : Nat} {tag : String} {history : History}

/-- Visiting an operation applies its effect, and is silent if the result is in
order and what was read is there. -/
structure Follows (visit : Nat → Model → HistoryEntry → Model × Option String) (inOrder : HistoryEntry → Prop) : Prop where
  effect : ∀ idx model entry, (visit idx model entry).1.get = effect model.get entry
  silent : ∀ idx model entry, (visit idx model entry).2 = none ↔ inOrder entry ∧ Matches model.get entry

/-- Whether there is an order that explains the results does not depend on what
the checker goes by instead of real time: the order of recording and results of
the right kind where no operations overlap, real time turned around where some do. -/
def Telling (history : History) : Prop :=
  (sequential history = true →
    ((∀ entry ∈ history, entry.Typed) ∧ Explained (fun _ => none) history ↔ Linearizable history)) ∧
  (sequential history = false → (Explainable history (fun a b => Precedes b a) ↔ Linearizable history))

end KayaDB.Sim
