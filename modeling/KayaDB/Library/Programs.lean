import Mathlib.Data.List.Basic

/-! Programs over a store, as syntax: a program looks keys up, scans, asks for
writes one after the other and may give up. Run to its end or cut off after some
writes, it does the same on any two stores that answer alike. -/

namespace Programs

inductive Program (κ ν ω α : Type) where
  | done (value : α)
  | fail (reason : String)
  | get (key : κ) (next : Option ν → Program κ ν ω α)
  | scan (front : κ) (next : List (κ × ν) → Program κ ν ω α)
  | write (request : ω) (next : Program κ ν ω α)

/-- A scan may be refused and a write may fail; a failed write need not leave
everything as it was. -/
structure Store (κ ν ω σ : Type) where
  get : σ → κ → Option ν
  scan : σ → κ → Except String (List (κ × ν))
  perform : σ → ω → σ × Except String Unit

variable {κ ν ω α β σ τ : Type}

namespace Program
variable (program : Program κ ν ω α)

def bind (program : Program κ ν ω α) (rest : α → Program κ ν ω β) : Program κ ν ω β :=
  match program with
  | .done value => rest value
  | .fail reason => .fail reason
  | .get key next => .get key fun found => (next found).bind rest
  | .scan front next => .scan front fun rows => (next rows).bind rest
  | .write request next => .write request (next.bind rest)

def ofExcept : Except String α → Program κ ν ω α
  | .ok value => .done value
  | .error reason => .fail reason

instance : Monad (Program κ ν ω) where
  pure := .done
  bind := .bind

def run (store : Store κ ν ω σ) (state : σ) : Program κ ν ω α → σ × Except String α
  | .done value => (state, .ok value)
  | .fail reason => (state, .error reason)
  | .get key next => (next (store.get state key)).run store state
  | .scan front next =>
    match store.scan state front with
    | .ok rows => (next rows).run store state
    | .error reason => (state, .error reason)
  | .write request next =>
    match store.perform state request with
    | (state, .ok ()) => next.run store state
    | (state, .error reason) => (state, .error reason)

/-- What holds at every point of a run, before and after each write. -/
def Throughout (store : Store κ ν ω σ) (Holds : σ → Prop) (state : σ) : Program κ ν ω α → Prop
  | .done _ | .fail _ => Holds state
  | .get key next => (next (store.get state key)).Throughout store Holds state
  | .scan front next =>
    match store.scan state front with
    | .ok rows => (next rows).Throughout store Holds state
    | .error _ => Holds state
  | .write request next =>
    Holds state ∧
      match store.perform state request with
      | (state, .ok ()) => next.Throughout store Holds state
      | (state, .error _) => Holds state

/-- Every write the program may ask for is of this kind, whatever it looks up and
whatever rows its scans answer. -/
def Only (Answers : κ → List (κ × ν) → Prop) (Allowed : ω → Prop) : Program κ ν ω α → Prop
  | .done _ | .fail _ => True
  | .get _ next => ∀ found, (next found).Only Answers Allowed
  | .scan front next => ∀ rows, Answers front rows → (next rows).Only Answers Allowed
  | .write request next => Allowed request ∧ next.Only Answers Allowed

variable {store : Store κ ν ω σ} {Holds : σ → Prop} {state : σ} {Answers : κ → List (κ × ν) → Prop}
  {Allowed : ω → Prop}

@[simp] theorem pure_eq (value : α) : (pure value : Program κ ν ω α) = .done value := rfl

@[simp] theorem bind_eq (rest : α → Program κ ν ω β) :
    program >>= rest = program.bind rest := rfl

theorem run_ofExcept (result : Except String α) (state : σ) :
    (ofExcept result : Program κ ν ω α).run store state = (state, result) := by
  cases result <;> rfl

theorem run_bind (rest : α → Program κ ν ω β) : ∀ state : σ,
    (program.bind rest).run store state =
      match program.run store state with
      | (state, .ok value) => (rest value).run store state
      | (state, .error reason) => (state, .error reason) := by
  induction program with
  | done value => exact fun state => rfl
  | fail reason => exact fun state => rfl
  | get key next ih => exact fun state => ih (store.get state key) state
  | scan front next ih =>
    intro state
    simp only [bind, run]
    cases store.scan state front with
    | ok rows => exact ih rows state
    | error reason => rfl
  | write request next ih =>
    intro state
    simp only [bind, run]
    rcases store.perform state request with ⟨after, _ | _⟩
    · rfl
    · exact ih after

namespace Throughout

theorem run (program : Program κ ν ω α) : ∀ {state : σ}, program.Throughout store Holds state →
    Holds (program.run store state).1 := by
  induction program with
  | done value => exact id
  | fail reason => exact id
  | get key next ih => exact fun held => ih _ held
  | scan front next ih =>
    intro state held
    simp only [Throughout, Program.run] at held ⊢
    cases scanned : store.scan state front with
    | ok rows =>
      rw [scanned] at held
      exact ih rows held
    | error reason =>
      rw [scanned] at held
      exact held
  | write request next ih =>
    intro state held
    simp only [Throughout, Program.run] at held ⊢
    rcases performed : store.perform state request with ⟨after, _ | _⟩ <;> rw [performed] at held
    · exact held.2
    · exact ih held.2

end Throughout

theorem Only.ofExcept (result : Except String α) :
    (Program.ofExcept result : Program κ ν ω α).Only Answers Allowed := by
  cases result <;> trivial

theorem Only.bind {rest : α → Program κ ν ω β} (only : program.Only Answers Allowed)
    (also : ∀ value, (rest value).Only Answers Allowed) : (program.bind rest).Only Answers Allowed := by
  induction program with
  | done value => exact also value
  | fail reason => trivial
  | get key next ih => exact fun found => ih found (only found)
  | scan front next ih => exact fun rows answered => ih rows (only rows answered)
  | write request next ih => exact ⟨only.1, ih only.2⟩

theorem Only.mono {Wider : ω → Prop} (implied : ∀ request, Allowed request → Wider request)
    (only : program.Only Answers Allowed) : program.Only Answers Wider := by
  induction program with
  | done value => trivial
  | fail reason => trivial
  | get key next ih => exact fun found => ih found (only found)
  | scan front next ih => exact fun rows answered => ih rows (only rows answered)
  | write request next ih => exact ⟨implied request only.1, ih only.2⟩

/-- What every allowed write preserves, done or failed, holds throughout. -/
theorem Only.throughout
    (answers : ∀ state front rows, store.scan state front = .ok rows → Answers front rows)
    (kept : ∀ state request, Holds state → Allowed request → Holds (store.perform state request).1) :
    ∀ {state : σ}, program.Only Answers Allowed → Holds state → program.Throughout store Holds state := by
  induction program with
  | done value => exact fun _ held => held
  | fail reason => exact fun _ held => held
  | get key next ih => exact fun only held => ih _ (only _) held
  | scan front next ih =>
    intro state only held
    simp only [Throughout]
    cases scanned : store.scan state front with
    | ok rows => exact ih rows (only rows (answers state front rows scanned)) held
    | error reason => exact held
  | write request next ih =>
    intro state only held
    have after := kept state request held only.1
    simp only [Throughout]
    refine ⟨held, ?_⟩
    rcases performed : store.perform state request with ⟨later, _ | _⟩ <;> rw [performed] at after
    · exact after
    · exact ih only.2 after

end Program

end Programs
