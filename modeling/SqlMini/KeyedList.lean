import Mathlib.Tactic
import Mathlib.Order.Interval.Finset.Nat

/-!
# Sorted lists as maps on a range

A list of pairs sorted by their first components holds the part of a map
that falls into a range of keys: `RangeMap m lo hi cs` says that the pairs
of `cs` are exactly the bindings of `m` in `[lo, hi)`. Binding a key changes
the list at one place (`insert`, `replace`), and cutting the list at an
element cuts the range at its key (`cut`).
-/

/-- **The pairs of a list are the bindings of a map in a range.** -/
structure RangeMap {α β : Type} [LinearOrder α] (m : α → Option β) (lo hi : α)
    (cs : List (α × β)) : Prop where
  /-- The keys increase. -/
  sorted : cs.Pairwise (fun a b => a.1 < b.1)
  /-- The pairs are the bindings. -/
  mem : ∀ k v, (k, v) ∈ cs ↔ lo ≤ k ∧ k < hi ∧ m k = some v

/-- **How many keys below a bound** are bound. -/
def boundBelow {β : Type} (m : ℕ → Option β) (n : ℕ) : ℕ := Nat.count (fun k => (m k).isSome) n

namespace RangeMap

variable {α β : Type} [LinearOrder α] {m m' : α → Option β} {lo hi k : α} {v v₀ : β}
  {c : α × β} {cs l₁ l₂ : List (α × β)}

/-- The empty map. -/
theorem nil : RangeMap (fun _ => none) lo hi ([] : List (α × β)) :=
  ⟨List.Pairwise.nil, by simp⟩

/-- A pair of the list is a binding. -/
theorem of_mem (h : RangeMap m lo hi cs) (hc : c ∈ cs) :
    lo ≤ c.1 ∧ c.1 < hi ∧ m c.1 = some c.2 := (h.mem c.1 c.2).mp hc

/-- A key bound in the range is in the list, and no other. -/
theorem key_mem_iff (h : RangeMap m lo hi cs) (hlo : lo ≤ k) (hhi : k < hi) :
    (∃ c ∈ cs, c.1 = k) ↔ m k ≠ none := by
  rw [Option.ne_none_iff_exists']
  constructor
  · rintro ⟨c, hc, rfl⟩
    exact ⟨c.2, (h.of_mem hc).2.2⟩
  · rintro ⟨v, hv⟩
    exact ⟨(k, v), (h.mem k v).mpr ⟨hlo, hhi, hv⟩, rfl⟩

/-- Only the part of the map in the range matters. -/
theorem congr (h : RangeMap m lo hi cs) (hm : ∀ k, lo ≤ k → k < hi → m' k = m k) :
    RangeMap m' lo hi cs := by
  refine ⟨h.sorted, fun k v => (h.mem k v).trans ⟨?_, ?_⟩⟩
  · rintro ⟨h1, h2, h3⟩
    exact ⟨h1, h2, (hm k h1 h2).trans h3⟩
  · rintro ⟨h1, h2, h3⟩
    exact ⟨h1, h2, (hm k h1 h2).symm.trans h3⟩

/-- **Binding a key elsewhere** changes nothing in the range. -/
theorem update_of_not_mem (h : RangeMap m lo hi cs) (hk : k < lo ∨ hi ≤ k) (o : Option β) :
    RangeMap (Function.update m k o) lo hi cs := by
  refine h.congr (fun j hlo hhi => Function.update_of_ne ?_ _ _)
  rintro rfl
  rcases hk with hk | hk
  · exact absurd hk (not_lt.mpr hlo)
  · exact absurd hk (not_le.mpr hhi)

/-- A list whose pairs at other keys are those of `cs` holds the map with the
key rebound. -/
theorem update_mem (h : RangeMap m lo hi cs) (hlo : lo ≤ k) (hhi : k < hi)
    {cs' : List (α × β)} (hsort : cs'.Pairwise (fun a b => a.1 < b.1)) (hself : (k, v) ∈ cs')
    (hother : ∀ j w, j ≠ k → ((j, w) ∈ cs' ↔ (j, w) ∈ cs))
    (honly : ∀ w, (k, w) ∈ cs' → w = v) :
    RangeMap (Function.update m k (some v)) lo hi cs' := by
  refine ⟨hsort, fun j w => ?_⟩
  by_cases hj : j = k
  · subst hj
    rw [Function.update_self, Option.some.injEq]
    constructor
    · intro hw
      exact ⟨hlo, hhi, (honly w hw).symm⟩
    · rintro ⟨-, -, rfl⟩
      exact hself
  · rw [Function.update_of_ne hj, hother j w hj]
    exact h.mem j w

/-- **Binding a new key** puts a pair between those of smaller and those of
larger keys. -/
theorem insert (h : RangeMap m lo hi (l₁ ++ l₂)) (hlo : lo ≤ k) (hhi : k < hi)
    (h₁ : ∀ c ∈ l₁, c.1 < k) (h₂ : ∀ c ∈ l₂, k < c.1) (v : β) :
    RangeMap (Function.update m k (some v)) lo hi (l₁ ++ (k, v) :: l₂) := by
  obtain ⟨hp₁, hp₂, hp⟩ := List.pairwise_append.mp h.sorted
  refine h.update_mem hlo hhi ?_ (by simp) (fun j w hj => ?_) (fun w hw => ?_)
  · refine List.pairwise_append.mpr ⟨hp₁, List.pairwise_cons.mpr ⟨fun c hc => h₂ c hc, hp₂⟩, ?_⟩
    intro a ha b hb
    rcases List.mem_cons.mp hb with rfl | hb
    · exact h₁ a ha
    · exact hp a ha b hb
  · simp [hj]
  · simp only [List.mem_append, List.mem_cons, Prod.mk.injEq, true_and] at hw
    rcases hw with hw | hw | hw
    · exact absurd (h₁ _ hw) (lt_irrefl k)
    · exact hw
    · exact absurd (h₂ _ hw) (lt_irrefl k)

/-- **Rebinding a key** replaces its pair. -/
theorem replace (h : RangeMap m lo hi (l₁ ++ (k, v₀) :: l₂)) (v : β) :
    RangeMap (Function.update m k (some v)) lo hi (l₁ ++ (k, v) :: l₂) := by
  obtain ⟨hp₁, hp₂, hp⟩ := List.pairwise_append.mp h.sorted
  obtain ⟨hk, hp₂⟩ := List.pairwise_cons.mp hp₂
  have h₁ : ∀ c ∈ l₁, c.1 < k := fun c hc => hp c hc _ List.mem_cons_self
  obtain ⟨hlo, hhi, -⟩ := h.of_mem (List.mem_append_right l₁ List.mem_cons_self)
  refine h.update_mem hlo hhi ?_ (by simp) (fun j w hj => ?_) (fun w hw => ?_)
  · refine List.pairwise_append.mpr ⟨hp₁, List.pairwise_cons.mpr ⟨hk, hp₂⟩, ?_⟩
    intro a ha b hb
    rcases List.mem_cons.mp hb with rfl | hb
    · exact h₁ a ha
    · exact hp a ha b (List.mem_cons_of_mem _ hb)
  · simp [hj]
  · simp only [List.mem_append, List.mem_cons, Prod.mk.injEq, true_and] at hw
    rcases hw with hw | hw | hw
    · exact absurd (h₁ _ hw) (lt_irrefl k)
    · exact hw
    · exact absurd (hk _ hw) (lt_irrefl k)

/-- **Cutting the list at an element** cuts the range at its key. -/
theorem cut (h : RangeMap m lo hi (l₁ ++ c :: l₂)) :
    RangeMap m lo c.1 l₁ ∧ RangeMap m c.1 hi (c :: l₂) := by
  obtain ⟨hp₁, hp₂, hp⟩ := List.pairwise_append.mp h.sorted
  have h₁ : ∀ a ∈ l₁, a.1 < c.1 := fun a ha => hp a ha _ List.mem_cons_self
  have h₂ : ∀ a ∈ c :: l₂, c.1 ≤ a.1 := by
    intro a ha
    rcases List.mem_cons.mp ha with rfl | ha
    · exact le_rfl
    · exact ((List.pairwise_cons.mp hp₂).1 a ha).le
  obtain ⟨hlo, hhi, -⟩ := h.of_mem (List.mem_append_right l₁ (List.mem_cons_self (a := c)))
  refine ⟨⟨hp₁, fun k v => ⟨fun hk => ?_, ?_⟩⟩, ⟨hp₂, fun k v => ⟨fun hk => ?_, ?_⟩⟩⟩
  · obtain ⟨h1, -, h3⟩ := h.of_mem (List.mem_append_left _ hk)
    exact ⟨h1, h₁ _ hk, h3⟩
  · rintro ⟨h1, h2, h3⟩
    rcases List.mem_append.mp ((h.mem k v).mpr ⟨h1, h2.trans hhi, h3⟩) with hk | hk
    · exact hk
    · exact absurd h2 (not_lt.mpr (h₂ _ hk))
  · obtain ⟨-, h2, h3⟩ := h.of_mem (List.mem_append_right _ hk)
    exact ⟨h₂ _ hk, h2, h3⟩
  · rintro ⟨h1, h2, h3⟩
    rcases List.mem_append.mp ((h.mem k v).mpr ⟨hlo.trans h1, h2, h3⟩) with hk | hk
    · exact absurd h1 (not_le.mpr (h₁ _ hk))
    · exact hk

/-- The cut is inside the range, where something is before it. -/
theorem lt_cut (h : RangeMap m lo hi (l₁ ++ c :: l₂)) (hne : l₁ ≠ []) : lo < c.1 := by
  obtain ⟨a, ha⟩ := List.exists_mem_of_ne_nil l₁ hne
  have hlt := (List.pairwise_append.mp h.sorted).2.2 a ha c List.mem_cons_self
  exact (h.of_mem (List.mem_append_left _ ha)).1.trans_lt hlt

/-- **The keys of a map that binds the whole range** are the numbers of the
range. -/
theorem keys_eq {m : ℕ → Option β} {lo hi : ℕ} {cs : List (ℕ × β)} (h : RangeMap m lo hi cs)
    (hall : ∀ k, lo ≤ k → k < hi → m k ≠ none) :
    cs.map Prod.fst = List.range' lo (hi - lo) := by
  have hs : (cs.map Prod.fst).Pairwise (· < ·) := List.pairwise_map.mpr h.sorted
  have hr : (List.range' lo (hi - lo)).Pairwise (· < ·) := List.pairwise_lt_range'
  refine List.Perm.eq_of_pairwise (fun a b _ _ hab hba => absurd hab (lt_asymm hba)) hs hr ?_
  refine (List.perm_ext_iff_of_nodup (hs.imp ne_of_lt) (hr.imp ne_of_lt)).mpr (fun k => ?_)
  rw [List.mem_map, List.mem_range'_1]
  constructor
  · rintro ⟨c, hc, rfl⟩
    obtain ⟨h1, h2, -⟩ := h.of_mem hc
    omega
  · intro hk
    exact (h.key_mem_iff hk.1 (by omega)).mpr (hall k hk.1 (by omega))

/-- **A long list covers a wide range.** -/
theorem length_le {m : ℕ → Option β} {lo hi : ℕ} {cs : List (ℕ × β)} (h : RangeMap m lo hi cs) :
    cs.length ≤ hi - lo := by
  have hnd : (cs.map Prod.fst).Nodup :=
    (List.pairwise_map.mpr h.sorted).imp (fun hlt => ne_of_lt hlt)
  rw [← List.length_map (f := Prod.fst), ← List.toFinset_card_of_nodup hnd, ← Nat.card_Ico]
  refine Finset.card_le_card (fun k hk => ?_)
  obtain ⟨c, hc, rfl⟩ := List.mem_map.mp (List.mem_toFinset.mp hk)
  obtain ⟨h1, h2, -⟩ := h.of_mem hc
  exact Finset.mem_Ico.mpr ⟨h1, h2⟩

/-- **The pairs of a list are counted** among the keys bound in the range. -/
theorem boundBelow_add_length_le {m : ℕ → Option β} {lo hi : ℕ} {cs : List (ℕ × β)}
    (h : RangeMap m lo hi cs) (hle : lo ≤ hi) :
    boundBelow m lo + cs.length ≤ boundBelow m hi := by
  have hnd : (cs.map Prod.fst).Nodup :=
    (List.pairwise_map.mpr h.sorted).imp (fun hlt => ne_of_lt hlt)
  have hkey : ∀ k ∈ (cs.map Prod.fst).toFinset, lo ≤ k ∧ k < hi ∧ (m k).isSome = true := by
    intro k hk
    obtain ⟨c, hc, rfl⟩ := List.mem_map.mp (List.mem_toFinset.mp hk)
    obtain ⟨h1, h2, h3⟩ := h.of_mem hc
    exact ⟨h1, h2, by rw [h3]; rfl⟩
  have hapart : Disjoint {k ∈ Finset.range lo | (m k).isSome = true}
      (cs.map Prod.fst).toFinset := by
    refine Finset.disjoint_left.mpr (fun k hk hk' => ?_)
    have hlo := (Finset.mem_filter.mp hk).1
    exact absurd (Finset.mem_range.mp hlo) (not_lt.mpr (hkey k hk').1)
  rw [boundBelow, boundBelow, Nat.count_eq_card_filter_range, Nat.count_eq_card_filter_range,
    ← List.length_map (f := Prod.fst), ← List.toFinset_card_of_nodup hnd,
    ← Finset.card_union_of_disjoint hapart]
  refine Finset.card_le_card (fun k hk => ?_)
  rcases Finset.mem_union.mp hk with hk | hk
  · obtain ⟨hlo, hm⟩ := Finset.mem_filter.mp hk
    exact Finset.mem_filter.mpr ⟨Finset.mem_range.mpr ((Finset.mem_range.mp hlo).trans_le hle), hm⟩
  · obtain ⟨-, h2, h3⟩ := hkey k hk
    exact Finset.mem_filter.mpr ⟨Finset.mem_range.mpr h2, h3⟩

end RangeMap
