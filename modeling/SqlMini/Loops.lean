import Mathlib.Tactic

/-!
# Fallible computations and counted loops

A computation over raw memory either returns or stops in undefined
behaviour: an access outside a buffer, a pointer whose target is gone, an
element taken out of an empty container, a loop that never ends. `Fault`
names these outcomes and a fallible computation is an `Except Fault`.

The three counted loops below are the shapes low-level code is written in:
an ascending and a descending loop over an index, and an ascending search
that leaves at the first hit. Each comes with the rule its correctness
proofs use – an invariant indexed by the loop variable for the first two
(`forUp_invariant`, `forDown_invariant`), the characterisation of the hit
for the search (`searchUp_spec`).

A vector is read and assigned at an index inside it or not at all. One that
is filled from the front agrees with what it is to hold up to the index
reached (`CppVector.FilledTo`).
-/

/-- **Why a run stops** without returning. -/
inductive Fault where
  /-- An access outside the bytes of a buffer. -/
  | outOfBounds
  /-- A dereference of a pointer whose target no longer exists. -/
  | danglingPointer
  /-- The last element of an empty container was asked for. -/
  | emptyContainer
  /-- A loop that never reaches its exit. -/
  | noTermination
  deriving DecidableEq, Repr

namespace Except

variable {ε α β : Type}

/-- A returned value is handed to the continuation. -/
@[simp] theorem ok_bind_eq (a : α) (f : α → Except ε β) :
    (Except.ok a >>= f) = f a := rfl

/-- A fault skips the continuation. -/
@[simp] theorem error_bind_eq (e : ε) (f : α → Except ε β) :
    ((Except.error e : Except ε α) >>= f) = Except.error e := rfl

/-- **Inversion of a bind**: a composite that returns had a first part that
returned. -/
theorem bind_eq_ok {x : Except ε α} {f : α → Except ε β} {b : β} :
    (x >>= f) = .ok b ↔ ∃ a, x = .ok a ∧ f a = .ok b := by
  cases x with
  | error e => simp
  | ok a => simp

/-- A computation that returns on every element returns on the list. -/
theorem mapM_eq_ok {f : α → Except ε β} {g : α → β} {l : List α}
    (h : ∀ a ∈ l, f a = .ok (g a)) : l.mapM f = .ok (l.map g) := by
  induction l with
  | nil => rfl
  | cons a l ih =>
    rw [List.mapM_cons, h a List.mem_cons_self, ok_bind_eq,
      ih (fun b hb => h b (List.mem_cons_of_mem a hb))]
    rfl

end Except

namespace CppVector

variable {α : Type} {xs ys : List α} {i : ℕ} {x : α}

/-- Reading `xs[i]`. -/
def get (xs : List α) (i : ℕ) : Except Fault α :=
  match xs[i]? with
  | some x => .ok x
  | none => .error .outOfBounds

/-- Assigning `xs[i] = x`. -/
def set (i : ℕ) (x : α) (xs : List α) : Except Fault (List α) :=
  if i < xs.length then .ok (xs.set i x) else .error .outOfBounds

theorem get_eq_ok (h : xs[i]? = some x) : get xs i = .ok x := by
  rw [get, h]

/-- **The vector `xs` holds the first `i` elements of `ys`**, and has its
size. -/
structure FilledTo (ys : List α) (i : ℕ) (xs : List α) : Prop where
  /-- The size is that of the vector it is to become. -/
  length : xs.length = ys.length
  /-- The elements before the index are in place. -/
  before : ∀ j, j < i → xs[j]? = ys[j]?

namespace FilledTo

/-- Nothing is filled in at first. -/
theorem replicate (ys : List α) (x : α) {n : ℕ} (hn : n = ys.length) :
    FilledTo ys 0 (List.replicate n x) :=
  ⟨List.length_replicate.trans hn, fun j hj => absurd hj (Nat.not_lt_zero j)⟩

/-- **One assignment** at the index reached. -/
theorem set (h : FilledTo ys i xs) (hx : ys[i]? = some x) :
    ∃ xs', CppVector.set i x xs = .ok xs' ∧ FilledTo ys (i + 1) xs' := by
  obtain ⟨hi, -⟩ := List.getElem?_eq_some_iff.mp hx
  have hlt : i < xs.length := h.length ▸ hi
  refine ⟨xs.set i x, if_pos hlt, List.length_set.trans h.length, fun j hj => ?_⟩
  rcases Nat.lt_succ_iff_lt_or_eq.mp hj with hlt' | rfl
  · rw [List.getElem?_set_ne hlt'.ne', h.before j hlt']
  · rw [List.getElem?_set_self hlt, hx]

/-- A vector filled in to the end. -/
theorem eq (h : FilledTo ys ys.length xs) : xs = ys := by
  refine List.ext_getElem? (fun j => ?_)
  by_cases hj : j < ys.length
  · exact h.before j hj
  · rw [List.getElem?_eq_none (h.length ▸ not_lt.mp hj), List.getElem?_eq_none (not_lt.mp hj)]

end FilledTo

end CppVector

namespace Loop

variable {σ : Type}

/-- **The ascending loop** `for (i = lo; i < lo + n; ++i) s = body i s`. -/
def forUp (body : ℕ → σ → Except Fault σ) : (n lo : ℕ) → σ → Except Fault σ
  | 0, _, s => .ok s
  | n + 1, lo, s => do forUp body n (lo + 1) (← body lo s)

/-- **The descending loop** `for (i = lo + n; i > lo; --i) s = body i s`. -/
def forDown (body : ℕ → σ → Except Fault σ) : (n lo : ℕ) → σ → Except Fault σ
  | 0, _, s => .ok s
  | n + 1, lo, s => do forDown body n lo (← body (lo + n + 1) s)

/-- **The search** `for (i = lo; i < lo + n; ++i) if (test i) { hit = i; break; }`. -/
def searchUp (test : ℕ → Except Fault Bool) : (n lo : ℕ) → Except Fault (Option ℕ)
  | 0, _ => .ok none
  | n + 1, lo => do
    if ← test lo then return some lo
    searchUp test n (lo + 1)

/-- **Invariant rule of the ascending loop.** What holds at `lo` and is
carried from each index to the next holds past the last one. -/
theorem forUp_invariant {body : ℕ → σ → Except Fault σ} (I : ℕ → σ → Prop) :
    ∀ (n lo : ℕ) (s : σ), I lo s →
      (∀ i s, lo ≤ i → i < lo + n → I i s → ∃ s', body i s = .ok s' ∧ I (i + 1) s') →
      ∃ s', forUp body n lo s = .ok s' ∧ I (lo + n) s'
  | 0, _, s, h0, _ => ⟨s, rfl, h0⟩
  | n + 1, lo, s, h0, hstep => by
    obtain ⟨s₁, hb, h1⟩ := hstep lo s le_rfl (by omega) h0
    obtain ⟨s₂, hr, h2⟩ := forUp_invariant I n (lo + 1) s₁ h1
      (fun i t hi hi' => hstep i t (by omega) (by omega))
    refine ⟨s₂, ?_, ?_⟩
    · rw [forUp, hb]
      exact hr
    · rw [show lo + (n + 1) = lo + 1 + n from by omega]
      exact h2

/-- **Invariant rule of the descending loop.** The index counts down, so
the invariant is carried from `i` to `i - 1` and ends at `lo`. -/
theorem forDown_invariant {body : ℕ → σ → Except Fault σ} (I : ℕ → σ → Prop) :
    ∀ (n lo : ℕ) (s : σ), I (lo + n) s →
      (∀ i s, lo ≤ i → i < lo + n → I (i + 1) s →
        ∃ s', body (i + 1) s = .ok s' ∧ I i s') →
      ∃ s', forDown body n lo s = .ok s' ∧ I lo s'
  | 0, _, s, h0, _ => ⟨s, rfl, h0⟩
  | n + 1, lo, s, h0, hstep => by
    obtain ⟨s₁, hb, h1⟩ := hstep (lo + n) s (by omega) (by omega) h0
    obtain ⟨s₂, hr, h2⟩ := forDown_invariant I n lo s₁ h1
      (fun i t hi hi' => hstep i t hi (by omega))
    refine ⟨s₂, ?_, h2⟩
    rw [forDown, hb]
    exact hr

variable {test : ℕ → Except Fault Bool} {P : ℕ → Prop} [DecidablePred P]

/-- **Characterisation of the search**: where the test decides `P`, the
loop returns the first index satisfying `P`, if there is one. -/
theorem searchUp_spec : ∀ (n lo : ℕ),
    (∀ i, lo ≤ i → i < lo + n → test i = .ok (decide (P i))) →
    (searchUp test n lo = .ok none ∧ ∀ i, lo ≤ i → i < lo + n → ¬ P i) ∨
    (∃ j, searchUp test n lo = .ok (some j) ∧ lo ≤ j ∧ j < lo + n ∧ P j ∧
      ∀ i, lo ≤ i → i < j → ¬ P i)
  | 0, lo, _ => Or.inl ⟨rfl, fun i h h' => absurd h' (by omega)⟩
  | n + 1, lo, htest => by
    have hlo := htest lo le_rfl (by omega)
    by_cases hP : P lo
    · refine Or.inr ⟨lo, ?_, le_rfl, by omega, hP, fun i h h' => absurd h' (by omega)⟩
      rw [searchUp, hlo]
      simp [hP]
      rfl
    · have hrec : searchUp test (n + 1) lo = searchUp test n (lo + 1) := by
        rw [searchUp, hlo]
        simp [hP]
      have hno : ∀ i, lo ≤ i → ¬ lo + 1 ≤ i → ¬ P i := by
        intro i h h'
        rw [show i = lo from by omega]
        exact hP
      rw [hrec]
      rcases searchUp_spec n (lo + 1) (fun i h h' => htest i (by omega) (by omega))
        with ⟨he, hn⟩ | ⟨j, he, hj, hj', hPj, hn⟩
      · refine Or.inl ⟨he, fun i h h' => ?_⟩
        by_cases hi : lo + 1 ≤ i
        · exact hn i hi (by omega)
        · exact hno i h hi
      · refine Or.inr ⟨j, he, by omega, by omega, hPj, fun i h h' => ?_⟩
        by_cases hi : lo + 1 ≤ i
        · exact hn i hi h'
        · exact hno i h hi

end Loop
