import Mathlib.Tactic

/-!
# The entries used last

A cache of bounded size that drops the entry used longest ago holds, at any
time, the entries used last. `Recency.order` puts the entries of a history,
latest first, in the order of their last uses, and `Recency.window` keeps the
first `m` of them; `Recency.touch` is what such a cache does with its own
list when an entry is used.

The two agree (`Recency.window_cons`), so what a cache holds is a function of
the history alone, and the entry it drops is the one whose last use is the
oldest (`Recency.idxOf_lt_of_dropped`).
-/

namespace Recency

variable {α : Type} [DecidableEq α] {a b c : α} {h l : List α} {m k : ℕ}

/-- **The entries of a history**, latest first, by their last uses. -/
def order : List α → List α
  | [] => []
  | a :: h => a :: (order h).filter (· ≠ a)

/-- **The `m` entries used last.** -/
def window (m : ℕ) (h : List α) : List α := (order h).take m

/-- **Using an entry** of a list of at most `m`: it moves to the front, or is
put there and the last one dropped where the list is full. -/
def touch (m : ℕ) (a : α) (l : List α) : List α :=
  if a ∈ l then a :: l.filter (· ≠ a)
  else if m ≤ l.length then a :: l.dropLast
  else a :: l

/-! ## The order of the last uses -/

@[simp] theorem mem_order : ∀ {h : List α}, b ∈ order h ↔ b ∈ h
  | [] => Iff.rfl
  | a :: h => by
    rw [order, List.mem_cons, List.mem_filter, mem_order, List.mem_cons]
    by_cases hb : b = a <;> simp [hb]

theorem nodup_order : ∀ h : List α, (order h).Nodup
  | [] => List.nodup_nil
  | a :: h => List.nodup_cons.mpr ⟨by simp, (nodup_order h).filter _⟩

/-- **The order is by last uses**: an entry further down was last used
before. -/
theorem pairwise_order : ∀ h : List α,
    (order h).Pairwise (fun x y => h.idxOf x < h.idxOf y)
  | [] => .nil
  | a :: h => by
    refine List.pairwise_cons.mpr ⟨fun y hy => ?_, ?_⟩
    · have hne : y ≠ a := by simpa using (List.mem_filter.mp hy).2
      rw [List.idxOf_cons_self, List.idxOf_cons_ne _ hne.symm]
      exact Nat.succ_pos _
    · have hp := (pairwise_order h).sublist (List.filter_sublist (p := (· ≠ a)))
      refine hp.imp_of_mem (fun {x y} hx hy hlt => ?_)
      have hxa : x ≠ a := by simpa using (List.mem_filter.mp hx).2
      have hya : y ≠ a := by simpa using (List.mem_filter.mp hy).2
      rw [List.idxOf_cons_ne _ hxa.symm, List.idxOf_cons_ne _ hya.symm]
      exact Nat.succ_lt_succ hlt

/-! ## The entries used last -/

/-- Without the entry itself, a list is one shorter. -/
theorem length_filter_ne (hl : l.Nodup) (ha : a ∈ l) :
    (l.filter (· ≠ a)).length + 1 = l.length := by
  have h := List.length_erase_add_one ha
  rwa [hl.erase_eq_filter, show (fun x => x != a) = (fun x => decide (x ≠ a)) from
    funext fun x => by by_cases hx : x = a <;> simp [hx]] at h

/-- Cutting to `m` entries commutes with using an entry. -/
theorem take_cons_filter (hm : 1 ≤ m) (hl : l.Nodup) :
    (a :: l.filter (· ≠ a)).take m = touch m a (l.take m) := by
  obtain ⟨n, rfl⟩ : ∃ n, m = n + 1 := ⟨m - 1, by omega⟩
  rw [List.take_succ_cons]
  have hsplit : l.filter (· ≠ a)
      = (l.take (n + 1)).filter (· ≠ a) ++ (l.drop (n + 1)).filter (· ≠ a) := by
    rw [← List.filter_append, List.take_append_drop]
  have hlen := List.length_take_le (n + 1) l
  unfold touch
  split
  case isTrue ha =>
    have hcut := length_filter_ne (hl.sublist (List.take_sublist (n + 1) l)) ha
    refine congrArg (a :: ·) ?_
    rw [hsplit]
    by_cases hfull : (l.take (n + 1)).length = n + 1
    · rw [List.take_append_of_le_length (by omega), List.take_of_length_le (by omega)]
    · rw [List.drop_eq_nil_of_le (by rw [List.length_take] at hfull; omega), List.filter_nil,
        List.append_nil, List.take_of_length_le (by omega)]
  case isFalse ha =>
    have hkeep : (l.take (n + 1)).filter (· ≠ a) = l.take (n + 1) :=
      List.filter_eq_self.mpr (fun x hx => by
        simp only [ne_eq, decide_eq_true_eq]
        rintro rfl
        exact ha hx)
    have htake : (l.filter (· ≠ a)).take n = l.take n := by
      rw [hsplit, hkeep]
      by_cases hfull : n ≤ (l.take (n + 1)).length
      · rw [List.take_append_of_le_length hfull, List.take_take, Nat.min_eq_left (Nat.le_succ n)]
      · rw [List.drop_eq_nil_of_le (by rw [List.length_take] at hfull; omega), List.filter_nil,
          List.append_nil, List.take_take, Nat.min_eq_left (Nat.le_succ n)]
    rw [htake]
    split
    case isTrue hfull =>
      have hcut : (l.take (n + 1)).length - 1 = n := by omega
      rw [List.dropLast_eq_take, hcut, List.take_take, Nat.min_eq_left (Nat.le_succ n)]
    case isFalse hfull =>
      rw [List.length_take] at hfull
      rw [List.take_of_length_le (by omega), List.take_of_length_le (by omega)]

/-- **What a cache does with its list** when an entry is used keeps the
entries used last. -/
theorem window_cons (hm : 1 ≤ m) (a : α) (h : List α) :
    window m (a :: h) = touch m a (window m h) :=
  take_cons_filter hm (nodup_order h)

/-! ## Places -/

omit [DecidableEq α] in
/-- Filtering moves entries to the front. -/
theorem mem_take_filter {p : α → Bool} {j : ℕ} (hb : b ∈ l.take k) (hp : p b = true)
    (hj : ((l.take k).filter p).length ≤ j) : b ∈ (l.filter p).take j := by
  have hpre : (l.take k).filter p <+: (l.filter p).take j :=
    List.prefix_take_iff.mpr ⟨(List.take_prefix k l).filter p, hj⟩
  exact hpre.subset (List.mem_filter.mpr ⟨hb, hp⟩)

/-- **Using an entry** moves the others down by one place at most. -/
theorem mem_take_touch (hb : b ∈ l.take k) (hk : k < m) : b ∈ (touch m a l).take (k + 1) := by
  unfold touch
  split
  · by_cases hba : b = a
    · rw [hba]
      exact List.mem_cons_self
    · refine List.mem_cons_of_mem _ (mem_take_filter hb (by simpa using hba) ?_)
      exact (List.length_filter_le _ _).trans (List.length_take_le k l)
  · split
    case isTrue hfull =>
      rw [List.take_succ_cons, List.dropLast_eq_take, List.take_take, Nat.min_eq_left (by omega)]
      exact List.mem_cons_of_mem _ hb
    case isFalse => exact List.mem_cons_of_mem _ hb

/-- Using one of the first entries keeps the others among them. -/
theorem mem_take_touch_of_mem (ha : a ∈ l.take k) (hb : b ∈ l.take k) :
    b ∈ (touch m a l).take k := by
  cases k with
  | zero => simp at hb
  | succ k =>
    rw [touch, if_pos (List.mem_of_mem_take ha), List.take_succ_cons]
    by_cases hba : b = a
    · rw [hba]
      exact List.mem_cons_self
    · refine List.mem_cons_of_mem _ (mem_take_filter hb (by simpa using hba) ?_)
      have hlt : ((l.take (k + 1)).filter (· ≠ a)).length < (l.take (k + 1)).length :=
        List.length_filter_lt_length_iff_exists.mpr ⟨a, ha, by simp⟩
      have hle := List.length_take_le (k + 1) l
      omega

/-- **The entry dropped is the one used longest ago.** -/
theorem idxOf_lt_of_dropped (hb : b ∈ window m h) (hdrop : b ∉ touch m a (window m h))
    (hc : c ∈ window m h) (hne : c ≠ b) : h.idxOf c < h.idxOf b := by
  have hpair : (window m h).Pairwise (fun x y => h.idxOf x < h.idxOf y) :=
    (pairwise_order h).sublist (List.take_sublist _ _)
  unfold touch at hdrop
  split at hdrop
  case isTrue ha =>
    simp only [List.mem_cons, List.mem_filter, not_or, hb, true_and] at hdrop
    simp [hdrop.1] at hdrop
  case isFalse ha =>
    split at hdrop
    case isFalse hfull => exact absurd (List.mem_cons_of_mem _ hb) hdrop
    case isTrue hfull =>
      have hnil : window m h ≠ [] := List.ne_nil_of_mem hb
      have hlast : b = (window m h).getLast hnil := by
        rw [← List.dropLast_append_getLast hnil, List.mem_append] at hb
        rcases hb with hb | hb
        · exact absurd (List.mem_cons_of_mem _ hb) hdrop
        · exact List.mem_singleton.mp hb
      rw [← List.dropLast_append_getLast hnil, ← hlast] at hpair hc
      rcases List.mem_append.mp hc with hc | hc
      · exact (List.pairwise_append.mp hpair).2.2 c hc b List.mem_cons_self
      · exact absurd (List.mem_singleton.mp hc) hne

end Recency
