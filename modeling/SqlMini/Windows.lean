import Mathlib.Tactic

/-!
# Searches that end at a hit

A search that ends with its `n`-th hit looks at a prefix of its list
(`Search.upTo`), and the hits there are the first `n` hits of the list
(`Search.first`, `filter_upTo`).

A loop with an early exit is a fold whose steps say whether to go on
(`Search.foldUntil`). It runs through a concatenation part by part, so a nested
loop that leaves both loops at once is a loop over pairs
(`foldUntil_product`).
-/

namespace Search

variable {α β σ : Type} {p : α → Bool} {c : Option ℕ} {n : ℕ} {l : List α} {a : α}

/-- The first elements of a list, or all of them. -/
def first : Option ℕ → List α → List α
  | none, l => l
  | some n, l => l.take n

/-- **What a search looks at** that ends with its `n`-th hit, or with the end of
the list. -/
def upTo (p : α → Bool) : Option ℕ → List α → List α
  | _, [] => []
  | c, a :: l => if c = some 0 then [] else a :: upTo p (if p a then c.map Nat.pred else c) l

theorem upTo_zero (l : List α) : upTo p (some 0) l = [] := by
  cases l with
  | nil => rfl
  | cons a l => rfl

theorem upTo_cons (hc : c ≠ some 0) :
    upTo p c (a :: l) = a :: upTo p (if p a then c.map Nat.pred else c) l := if_neg hc

/-- A search that is not ended looks at everything. -/
theorem upTo_none : ∀ l : List α, upTo p none l = l
  | [] => rfl
  | a :: l => by
    rw [upTo_cons (Option.some_ne_none 0).symm, Option.map_none, ite_self, upTo_none l]

/-- **The hits it sees** are the first ones. -/
theorem filter_upTo (p : α → Bool) : ∀ (l : List α) (c : Option ℕ),
    (upTo p c l).filter p = first c (l.filter p)
  | l, none => congrArg (List.filter p) (upTo_none l)
  | [], some n => List.take_nil.symm
  | a :: l, some 0 => rfl
  | a :: l, some (n + 1) => by
    rw [upTo_cons (by simp)]
    cases ha : p a with
    | true =>
      have ih := filter_upTo p l (some n)
      simp only [first] at ih
      simp [ha, first, ih]
    | false =>
      have ih := filter_upTo p l (some (n + 1))
      simp only [first] at ih
      simp [ha, first, ih]

/-- **A loop with an early exit**: a step says whether to go on. -/
def foldUntil (step : σ → α → Bool × σ) : List α → σ → Bool × σ
  | [], s => (true, s)
  | a :: l, s => if (step s a).1 then foldUntil step l (step s a).2 else (false, (step s a).2)

variable {step step' : σ → α → Bool × σ}

theorem foldUntil_append : ∀ (l l' : List α) (s : σ), foldUntil step (l ++ l') s
    = if (foldUntil step l s).1 then foldUntil step l' (foldUntil step l s).2
      else foldUntil step l s
  | [], _, _ => rfl
  | a :: l, l', s => by
    rw [List.cons_append, foldUntil, foldUntil]
    split
    · exact foldUntil_append l l' _
    · rfl

theorem foldUntil_map (f : β → α) : ∀ (l : List β) (s : σ),
    foldUntil step (l.map f) s = foldUntil (fun s b => step s (f b)) l s
  | [], _ => rfl
  | b :: l, s => by
    rw [List.map_cons, foldUntil, foldUntil, foldUntil_map f l]

/-- Only the steps at elements of the list matter. -/
theorem foldUntil_congr : ∀ (l : List α) (s : σ), (∀ a ∈ l, ∀ s, step s a = step' s a) →
    foldUntil step l s = foldUntil step' l s
  | [], _, _ => rfl
  | a :: l, s, h => by
    rw [foldUntil, foldUntil, h a List.mem_cons_self,
      foldUntil_congr l _ (fun b hb => h b (List.mem_cons_of_mem a hb))]

/-- **Two nested loops** that are left together are one loop over the pairs. -/
theorem foldUntil_product {step : σ → α × β → Bool × σ} (r : List β) : ∀ (l : List α) (s : σ),
    foldUntil (fun s a => foldUntil (fun s b => step s (a, b)) r s) l s = foldUntil step (l ×ˢ r) s
  | [], _ => rfl
  | a :: l, s => by
    rw [List.product_cons, foldUntil_append, foldUntil_map, ← foldUntil_product r l, foldUntil]
    split
    case isTrue => rfl
    case isFalse h =>
      rw [Bool.not_eq_true] at h
      rw [← h]

end Search
