import SqlMini.Loops

/-!
# Routines that throw

A routine of a language with exceptions changes a state and then returns,
throws, or stops in undefined behaviour. The state survives an exception: a
routine that throws has done what it did before. Nothing survives undefined
behaviour, so there is no state to report.

`Routine φ ε σ α` is such a routine, with faults in `φ`, exceptions in `ε`,
states in `σ` and results in `α`. The rules below reduce a composite to what
its first part did (`bind_of_ok`, `bind_of_throw`, `bind_of_stop`), and invert
it (`bind_eq_ok`, `bind_eq_stop`). What a composite returns is what its parts
return one after the other (`returns_bind`).
-/

/-- **A routine**: it returns or throws in a new state, or stops. -/
def Routine (φ ε σ α : Type) : Type := σ → Except φ (Except ε α × σ)

namespace Routine

variable {φ ε σ α β : Type}

/-- One routine after another. -/
def bind (m : Routine φ ε σ α) (k : α → Routine φ ε σ β) : Routine φ ε σ β := fun s =>
  match m s with
  | .error f => .error f
  | .ok (.error e, s') => .ok (.error e, s')
  | .ok (.ok a, s') => k a s'

instance : Monad (Routine φ ε σ) where
  pure a := fun s => .ok (.ok a, s)
  bind := bind

/-- `throw e;`. -/
def throw (e : ε) : Routine φ ε σ α := fun s => .ok (.error e, s)

/-- Undefined behaviour. -/
def stop (f : φ) : Routine φ ε σ α := fun _ => .error f

/-- A computation that may throw and leaves the state alone. -/
def ofExcept : Except ε α → Routine φ ε σ α
  | .ok a => pure a
  | .error e => throw e

/-- The state. -/
def get : Routine φ ε σ σ := fun s => .ok (.ok s, s)

/-- A change of the state. -/
def modify (f : σ → σ) : Routine φ ε σ Unit := fun s => .ok (.ok (), f s)

variable {m : Routine φ ε σ α} {k : α → Routine φ ε σ β} {s s' t : σ} {a : α} {b : β}
  {e : ε} {f : φ}

@[simp] theorem pure_apply (a : α) (s : σ) : (pure a : Routine φ ε σ α) s = .ok (.ok a, s) := rfl

@[simp] theorem throw_apply (e : ε) (s : σ) :
    (throw e : Routine φ ε σ α) s = .ok (.error e, s) := rfl

@[simp] theorem get_apply (s : σ) : (get : Routine φ ε σ σ) s = .ok (.ok s, s) := rfl

@[simp] theorem modify_apply (f : σ → σ) (s : σ) :
    (modify f : Routine φ ε σ Unit) s = .ok (.ok (), f s) := rfl

@[simp] theorem ofExcept_apply (r : Except ε α) (s : σ) :
    (ofExcept r : Routine φ ε σ α) s = .ok (r, s) := by
  cases r with
  | ok a => rfl
  | error e => rfl

theorem bind_apply (m : Routine φ ε σ α) (k : α → Routine φ ε σ β) (s : σ) :
    (m >>= k) s = bind m k s := rfl

/-- After a part that returns comes the rest. -/
theorem bind_of_ok (h : m s = .ok (.ok a, s')) : (m >>= k) s = k a s' := by
  rw [bind_apply, bind, h]

/-- After a part that throws comes nothing. -/
theorem bind_of_throw (h : m s = .ok (.error e, s')) : (m >>= k) s = .ok (.error e, s') := by
  rw [bind_apply, bind, h]

theorem bind_of_stop (h : m s = .error f) : (m >>= k) s = .error f := by
  rw [bind_apply, bind, h]

/-- **Inversion**: a composite that returns had a first part that
returned. -/
theorem bind_eq_ok : (m >>= k) s = .ok (.ok b, t)
    ↔ ∃ a s', m s = .ok (.ok a, s') ∧ k a s' = .ok (.ok b, t) := by
  rcases h : m s with f | ⟨e | a, s'⟩
  · rw [bind_of_stop h]
    simp
  · rw [bind_of_throw h]
    simp
  · rw [bind_of_ok h]
    simp

/-- **A composite stops** in its first part or in the rest. -/
theorem bind_eq_stop : (m >>= k) s = .error f
    ↔ m s = .error f ∨ ∃ a s', m s = .ok (.ok a, s') ∧ k a s' = .error f := by
  rcases h : m s with f | ⟨e | a, s'⟩
  · rw [bind_of_stop h]
    simp
  · rw [bind_of_throw h]
    simp
  · rw [bind_of_ok h]
    simp

/-! ## Faults that do not happen -/

/-- **A routine that never stops with the fault `f`.** -/
def Avoids (f : φ) (m : Routine φ ε σ α) : Prop := ∀ s, m s ≠ .error f

theorem avoids_pure (a : α) : Avoids f (pure a : Routine φ ε σ α) := nofun

theorem avoids_throw (e : ε) : Avoids f (throw e : Routine φ ε σ α) := nofun

theorem avoids_ofExcept (r : Except ε α) : Avoids f (ofExcept r : Routine φ ε σ α) := by
  intro s h
  rw [ofExcept_apply] at h
  cases h

/-- A composite avoids what its parts avoid. -/
theorem Avoids.bind (hm : Avoids f m) (hk : ∀ a, Avoids f (k a)) : Avoids f (m >>= k) := by
  intro s h
  rcases bind_eq_stop.mp h with h | ⟨a, s', -, h⟩
  · exact hm s h
  · exact hk a s' h

/-- Where the rest avoids a fault, it happens in the first part. -/
theorem bind_eq_stop_iff (hk : ∀ a, Avoids f (k a)) : (m >>= k) s = .error f ↔ m s = .error f :=
  bind_eq_stop.trans ⟨fun h => h.resolve_right (fun ⟨a, s', _, h'⟩ => hk a s' h'), Or.inl⟩

/-! ## Results -/

variable {Q : α → σ → Prop}

/-- **A routine returns**, with a result and a state in `Q`. -/
def Returns (m : Routine φ ε σ α) (s : σ) (Q : α → σ → Prop) : Prop :=
  ∃ a s', m s = .ok (.ok a, s') ∧ Q a s'

theorem Returns.mono {Q' : α → σ → Prop} (h : Returns m s Q) (hQ : ∀ a s', Q a s' → Q' a s') :
    Returns m s Q' := by
  obtain ⟨a, s', hm, ha⟩ := h
  exact ⟨a, s', hm, hQ a s' ha⟩

theorem returns_of_ok (h : m s = .ok (.ok a, s')) : Returns m s Q ↔ Q a s' := by
  unfold Returns
  rw [h]
  constructor
  · rintro ⟨b, t, hb, hQ⟩
    obtain ⟨hab, rfl⟩ := Prod.mk.inj (Except.ok.inj hb)
    rwa [Except.ok.inj hab]
  · exact fun hQ => ⟨a, s', rfl, hQ⟩

theorem not_returns_of_throw (h : m s = .ok (.error e, s')) : ¬ Returns m s Q := by
  rintro ⟨a, t, ha, -⟩
  rw [h] at ha
  cases ha

theorem not_returns_of_stop (h : m s = .error f) : ¬ Returns m s Q := by
  rintro ⟨a, t, ha, -⟩
  rw [h] at ha
  cases ha

/-- **The rule of composition.** -/
theorem returns_bind {Q : β → σ → Prop} :
    Returns (m >>= k) s Q ↔ Returns m s (fun a s' => Returns (k a) s' Q) := by
  rcases h : m s with f | ⟨e | a, s'⟩
  · exact iff_of_false (not_returns_of_stop (bind_of_stop h)) (not_returns_of_stop h)
  · exact iff_of_false (not_returns_of_throw (bind_of_throw h)) (not_returns_of_throw h)
  · rw [returns_of_ok h]
    unfold Returns
    rw [bind_of_ok h]

theorem returns_pure {a : α} : Returns (pure a : Routine φ ε σ α) s Q ↔ Q a s :=
  returns_of_ok (pure_apply a s)

theorem not_returns_throw {e : ε} : ¬ Returns (throw e : Routine φ ε σ α) s Q :=
  not_returns_of_throw (throw_apply e s)

/-- A computation that may throw. -/
theorem returns_ofExcept {r : Except ε α} :
    Returns (ofExcept r : Routine φ ε σ α) s Q ↔ ∃ a, r = .ok a ∧ Q a s := by
  cases r with
  | error e => exact iff_of_false (not_returns_of_throw (ofExcept_apply _ _)) (by simp)
  | ok a =>
    rw [returns_of_ok (ofExcept_apply _ _)]
    simp

end Routine
