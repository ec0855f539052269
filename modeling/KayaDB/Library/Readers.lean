import Mathlib.Logic.Basic

namespace KayaDB.Readers
variable {α β ε γ : Type}
  {result : γ} {first : Except ε α} {value : α} {text : List β} {next : List β → Except ε (α × List β)}

/-- `next` reads `value` from `text`, whatever follows. -/
def Reads (next : List β → Except ε (α × List β)) (text : List β) (value : α) : Prop :=
  ∀ rest, next (text ++ rest) = .ok (value, rest)

theorem ok_bind (value : α) (further : α → Except ε γ) : (Except.ok value >>= further) = further value := rfl

theorem bind_eq_ok {further : α → Except ε γ} :
    (first >>= further) = .ok result ↔ ∃ value, first = .ok value ∧ further value = .ok result := by
  cases first with
  | error reason => exact iff_of_false (by rintro ⟨⟩) (by rintro ⟨_, ⟨⟩, _⟩)
  | ok value => simp [ok_bind]

theorem map_eq_ok {change : α → γ} :
    first.map change = .ok result ↔ ∃ value, first = .ok value ∧ change value = result := by
  cases first with
  | error reason => exact iff_of_false (by rintro ⟨⟩) (by rintro ⟨_, ⟨⟩, _⟩)
  | ok value => simp [Except.map]

theorem Reads.bind_eq (reads : Reads next text value) (rest : List β) (further : α × List β → Except ε γ) :
    (next (text ++ rest) >>= further) = further (value, rest) := by
  rw [reads rest]
  rfl

theorem Reads.bind_last (reads : Reads next text value) (further : α × List β → Except ε γ) :
    (next text >>= further) = further (value, []) := by
  simpa using reads.bind_eq [] further

theorem reads_flatMap {write : α → List β} {many : Nat → List β → Except ε (List α × List β)}
    (nil : ∀ cur, many 0 cur = .ok ([], cur))
    (cons : ∀ count cur, many (count + 1) cur = next cur >>= fun first => many count first.2 >>= fun others => .ok
      (first.1 :: others.1, others.2)) {values : List α} (reads : ∀ value ∈ values, Reads next (write value) value) :
    Reads (many values.length) (values.flatMap write) values := by
  induction values with
  | nil => exact fun rest => nil rest
  | cons value values ih =>
    intro rest
    have others := ih fun other inside => reads other (List.mem_cons_of_mem _ inside)
    rw [List.length_cons, cons, List.flatMap_cons, List.append_assoc,
      (reads value List.mem_cons_self).bind_eq, others.bind_eq]

/-- What `next` takes from a text is what `write` puts down for the value. -/
def Exact (next : List β → Except ε (α × List β)) (write : α → List β) : Prop :=
  ∀ ⦃text value rest⦄, next text = .ok (value, rest) → text = write value ++ rest

theorem exact_flatMap {write : α → List β} {many : Nat → List β → Except ε (List α × List β)}
    (nil : ∀ cur, many 0 cur = .ok ([], cur))
    (cons : ∀ count cur, many (count + 1) cur = next cur >>= fun first => many count first.2 >>= fun others => .ok
      (first.1 :: others.1, others.2)) (exact : Exact next write) {count : Nat} {values : List α} {rest : List β}
    (read : many count text = .ok (values, rest)) :
    values.length = count ∧ text = values.flatMap write ++ rest := by
  induction count generalizing text values with
  | zero =>
    cases (nil text).symm.trans read
    exact ⟨rfl, rfl⟩
  | succ count ih =>
    rw [cons] at read
    obtain ⟨⟨first, middle⟩, taken, read⟩ := bind_eq_ok.mp read
    obtain ⟨⟨others, last⟩, more, read⟩ := bind_eq_ok.mp read
    cases read
    obtain ⟨size, rfl⟩ := ih more
    rw [exact taken, List.flatMap_cons, List.append_assoc, List.length_cons, size]
    exact ⟨rfl, rfl⟩

/-- What `next` reads does not depend on what follows it. -/
def Steady (next : List β → Except ε (α × List β)) : Prop :=
  ∀ ⦃text value rest⦄, next text = .ok (value, rest) → ∀ more, next (text ++ more) = .ok (value, rest ++ more)

section
variable {reader : StateT (List β) (Except ε) α} {further : α → StateT (List β) (Except ε) γ}

theorem Reads.bind {more : List β} (reads : Reads reader text value) (then_ : Reads (further value) more result) :
    Reads (reader >>= further) (text ++ more) result := by
  intro rest
  rw [List.append_assoc]
  exact (reads.bind_eq (more ++ rest) fun first => further first.1 first.2).trans (then_ rest)

theorem Reads.map (reads : Reads reader text value) (change : α → γ) :
    Reads (reader >>= fun value => pure (change value)) text (change value) :=
  fun rest => reads.bind_eq rest fun first => .ok (change first.1, first.2)

theorem Steady.bind (steady : Steady reader) (then_ : ∀ value, Steady (further value)) :
    Steady (reader >>= further) := by
  intro text value rest read more
  change (reader text >>= fun first => further first.1 first.2) = _ at read
  obtain ⟨⟨first, middle⟩, taken, others⟩ := bind_eq_ok.mp read
  change (reader (text ++ more) >>= fun first => further first.1 first.2) = _
  rw [steady taken more]
  exact then_ first others more

theorem steady_pure (value : α) : Steady (pure value : StateT (List β) (Except ε) α) := by
  intro text _ rest read more
  cases read
  rfl

theorem steady_throw (reason : ε) : Steady (throw reason : StateT (List β) (Except ε) α) := by
  intro text _ rest read
  cases read

end

theorem Steady.unfinished (steady : Steady next) (reads : Reads next text value) {cut : List β} (part : cut <+: text)
    (short : cut ≠ text) (other : α × List β) : next cut ≠ .ok other := by
  obtain ⟨more, rfl⟩ := part
  intro read
  have whole := (steady read more).symm.trans ((congrArg next (List.append_nil _)).symm.trans (reads []))
  have ended := congrArg Prod.snd (Except.ok.inj whole)
  rw [(List.append_eq_nil_iff.mp ended).2, List.append_nil] at short
  exact short rfl

end KayaDB.Readers
