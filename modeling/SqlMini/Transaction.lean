import SqlMini.Routine

/-!
# Routines that write once

A routine may keep what holds of the state (`Preserves`), leave a part of it as
it is (`Leaves`), or leave it if it throws (`Atomic`). A routine that reads, then
makes one call that is atomic, and then answers, is atomic itself
(`Leaves.bind_atomic`, `Atomic.answer`): whatever fails before the write has
changed nothing.
-/

namespace Routine

variable {φ ε σ α β : Type}

/-- **A routine that keeps** what holds of the state. -/
def Preserves (P : σ → Prop) (m : Routine φ ε σ α) : Prop :=
  ∀ s r s', P s → m s = .ok (r, s') → P s'

/-- **A routine that leaves** a part of the state as it is. -/
def Leaves {τ : Type} (part : σ → τ) (m : Routine φ ε σ α) : Prop :=
  ∀ s r s', m s = .ok (r, s') → part s' = part s

/-- **A routine that leaves it if it throws**, and otherwise returns a value
with `Q`. -/
def Atomic {τ : Type} (part : σ → τ) (m : Routine φ ε σ α) (Q : α → Prop) : Prop :=
  ∀ s r s', m s = .ok (r, s') → (∃ x, r = .error x ∧ part s' = part s) ∨ ∃ a, r = .ok a ∧ Q a

section Preserves

variable {P : σ → Prop} {m n : Routine φ ε σ α} {k : α → Routine φ ε σ β}

theorem preserves_pure (a : α) : Preserves P (pure a : Routine φ ε σ α) := by
  intro s r s' hs h
  rwa [← (Prod.mk.inj (Except.ok.inj h)).2]

theorem preserves_ofExcept (r : Except ε α) : Preserves P (ofExcept r : Routine φ ε σ α) := by
  intro s r' s' hs h
  rw [ofExcept_apply] at h
  rwa [← (Prod.mk.inj (Except.ok.inj h)).2]

theorem preserves_get : Preserves P (get : Routine φ ε σ σ) := by
  intro s r s' hs h
  rwa [← (Prod.mk.inj (Except.ok.inj h)).2]

theorem Preserves.bind (hm : Preserves P m) (hk : ∀ a, Preserves P (k a)) :
    Preserves P (m >>= k) := by
  intro s r s' hs h
  rcases hrun : m s with f | ⟨x | a, s₁⟩
  · rw [bind_of_stop hrun] at h
    cases h
  · rw [bind_of_throw hrun] at h
    rw [← (Prod.mk.inj (Except.ok.inj h)).2]
    exact hm s _ s₁ hs hrun
  · rw [bind_of_ok hrun] at h
    exact hk a s₁ r s' (hm s _ s₁ hs hrun) h

theorem preserves_ite {p : Prop} [Decidable p] (hm : p → Preserves P m)
    (hn : ¬ p → Preserves P n) : Preserves P (if p then m else n) := by
  split
  case isTrue hp => exact hm hp
  case isFalse hp => exact hn hp

end Preserves

variable {τ : Type} {part : σ → τ} {m : Routine φ ε σ α} {k : α → Routine φ ε σ β} {Q : β → Prop}

/-- A part is left as it is if whatever it is, it stays that. -/
theorem leaves_iff : Leaves part m ↔ ∀ c, Preserves (fun s => part s = c) m :=
  ⟨fun h _ s r s' hs hrun => (h s r s' hrun).trans hs, fun h s r s' hrun => h _ s r s' rfl hrun⟩

theorem leaves_ofExcept (r : Except ε α) : Leaves part (ofExcept r : Routine φ ε σ α) :=
  leaves_iff.mpr (fun _ => preserves_ofExcept r)

theorem leaves_get : Leaves part (get : Routine φ ε σ σ) := leaves_iff.mpr (fun _ => preserves_get)

/-- A routine that throws. -/
theorem atomic_throw (hm : Leaves part m) (hthrow : ∀ s a s', m s ≠ .ok (.ok a, s'))
    {Q : α → Prop} : Atomic part m Q := by
  intro s r s' h
  cases r with
  | error x => exact Or.inl ⟨x, rfl, hm s _ s' h⟩
  | ok a => exact absurd h (hthrow s a s')

/-- **Reading first**, and then something that is atomic. -/
theorem Leaves.bind_atomic (hm : Leaves part m) (hk : ∀ a, Atomic part (k a) Q) :
    Atomic part (m >>= k) Q := by
  intro s r s' h
  rcases hs : m s with f | ⟨x | a, s₁⟩
  · rw [bind_of_stop hs] at h
    cases h
  · rw [bind_of_throw hs] at h
    obtain ⟨rfl, rfl⟩ := Prod.mk.inj (Except.ok.inj h)
    exact Or.inl ⟨x, rfl, hm s _ s₁ hs⟩
  · rw [bind_of_ok hs] at h
    rcases hk a s₁ r s' h with ⟨x, hr, hpart⟩ | hok
    · exact Or.inl ⟨x, hr, hpart.trans (hm s _ s₁ hs)⟩
    · exact Or.inr hok

/-- **The write**, and what is answered for it. -/
theorem Atomic.answer {Q' : α → Prop} {f : α → β} (hm : Atomic part m Q') (hQ : ∀ a, Q (f a)) :
    Atomic part (m >>= fun a => pure (f a)) Q := by
  intro s r s' h
  rcases hs : m s with x | ⟨x | a, s₁⟩
  · rw [bind_of_stop hs] at h
    cases h
  · rw [bind_of_throw hs] at h
    obtain ⟨rfl, rfl⟩ := Prod.mk.inj (Except.ok.inj h)
    rcases hm s _ s₁ hs with ⟨y, -, hpart⟩ | ⟨a, ha, -⟩
    · exact Or.inl ⟨x, rfl, hpart⟩
    · cases ha
  · rw [bind_of_ok hs] at h
    obtain ⟨rfl, -⟩ := Prod.mk.inj (Except.ok.inj h)
    exact Or.inr ⟨f a, rfl, hQ a⟩

theorem atomic_ite {p : Prop} [Decidable p] {n : Routine φ ε σ α} {Q : α → Prop}
    (hm : p → Atomic part m Q) (hn : ¬ p → Atomic part n Q) :
    Atomic part (if p then m else n) Q := by
  split
  case isTrue hp => exact hm hp
  case isFalse hp => exact hn hp

end Routine
