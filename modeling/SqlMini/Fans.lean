import Mathlib.Tactic

/-!
# Children separated by keys

An inner node of a search tree holds `n` keys and `n + 1` children: the keys
cut the range of the node into `n + 1` brackets, and each child covers one.
`Fans ok lo ks cs hi` says that the children `cs` cover `[lo, hi)` cut at
the keys `ks`, where `ok a b c` is whatever it means for the child `c` to
cover `[a, b)`.

The rules follow what search trees do with a node: a search is routed to the
child whose bracket contains the key (`Fans.route`), a child is replaced by
two when it was split (`Fans.refine`), and a node is cut at one of its keys
(`Fans.cut`). What each child weighs adds up to what the node weighs
(`Fans.weigh`).
-/

variable {α β : Type} [LinearOrder α]

/-- **The children `cs` cover `[lo, hi)` cut at the keys `ks`.** -/
inductive Fans (ok : α → α → β → Prop) : α → List α → List β → α → Prop
  /-- A single child covers the whole range. -/
  | last {lo hi : α} {c : β} (hlt : lo < hi) (hc : ok lo hi c) : Fans ok lo [] [c] hi
  /-- The first child covers the range up to the first key. -/
  | cons {lo k hi : α} {c : β} {ks : List α} {cs : List β} (hlt : lo < k) (hc : ok lo k c)
      (hrest : Fans ok k ks cs hi) : Fans ok lo (k :: ks) (c :: cs) hi

namespace Fans

variable {ok ok' : α → α → β → Prop} {lo hi x : α} {ks : List α} {cs : List β} {c : β} {i : ℕ}

/-- The range is not empty. -/
theorem lt (h : Fans ok lo ks cs hi) : lo < hi := by
  induction h with
  | last hlt _ => exact hlt
  | cons hlt _ _ ih => exact hlt.trans ih

/-- The first child begins where the range does. -/
theorem head (h : Fans ok lo ks cs hi) : ∃ c b, cs[0]? = some c ∧ ok lo b c := by
  cases h with
  | last hlt hc => exact ⟨_, _, rfl, hc⟩
  | cons hlt hc hrest => exact ⟨_, _, rfl, hc⟩

/-- **A child covers a bracket** of the range. -/
theorem of_mem (h : Fans ok lo ks cs hi) (hc : c ∈ cs) :
    ∃ a b, ok a b c ∧ lo ≤ a ∧ a < b ∧ b ≤ hi := by
  induction h with
  | @last lo hi d hlt hd =>
    rw [List.mem_singleton.mp hc]
    exact ⟨lo, hi, hd, le_rfl, hlt, le_rfl⟩
  | @cons lo k hi d ks cs hlt hd hrest ih =>
    rcases List.mem_cons.mp hc with rfl | hmem
    · exact ⟨lo, k, hd, le_rfl, hlt, hrest.lt.le⟩
    · obtain ⟨a, b, hab, ha, hlt', hb⟩ := ih hmem
      exact ⟨a, b, hab, hlt.le.trans ha, hlt', hb⟩

/-- Another reading of the children, as far as it holds of each in its
bracket. -/
theorem mono (h : Fans ok lo ks cs hi)
    (hok : ∀ a b c, c ∈ cs → lo ≤ a → a < b → b ≤ hi → ok a b c → ok' a b c) :
    Fans ok' lo ks cs hi := by
  induction h with
  | last hlt hc => exact last hlt (hok _ _ _ List.mem_cons_self le_rfl hlt le_rfl hc)
  | cons hlt hc hrest ih =>
    refine cons hlt (hok _ _ _ List.mem_cons_self le_rfl hlt hrest.lt.le hc) (ih ?_)
    intro a b d hd ha hab hb
    exact hok a b d (List.mem_cons_of_mem _ hd) (hlt.le.trans ha) hab hb

/-- **A fan is cut at one of its keys.** -/
theorem cut (h : Fans ok lo ks cs hi) (hk : ks[i]? = some x) :
    Fans ok lo (ks.take i) (cs.take (i + 1)) x
      ∧ Fans ok x (ks.drop (i + 1)) (cs.drop (i + 1)) hi := by
  induction h generalizing i with
  | last _ _ => simp at hk
  | @cons lo k hi d ks cs hlt hd hrest ih =>
    cases i with
    | zero =>
      have hkx : k = x := by simpa using hk
      subst hkx
      exact ⟨last hlt hd, hrest⟩
    | succ i =>
      obtain ⟨hl, hr⟩ := ih (by simpa using hk)
      exact ⟨cons hlt hd hl, hr⟩

/-! ## Keys -/

/-- The keys lie strictly inside the range and increase. -/
theorem keys_sorted (h : Fans ok lo ks cs hi) :
    ks.Pairwise (· < ·) ∧ ∀ k ∈ ks, lo < k ∧ k < hi := by
  induction h with
  | last _ _ => simp
  | @cons lo k hi d ks cs hlt hd hrest ih =>
    obtain ⟨hp, hin⟩ := ih
    refine ⟨List.pairwise_cons.mpr ⟨fun y hy => (hin y hy).1, hp⟩, ?_⟩
    intro y hy
    rcases List.mem_cons.mp hy with rfl | hmem
    · exact ⟨hlt, hrest.lt⟩
    · exact ⟨hlt.trans (hin y hmem).1, (hin y hmem).2⟩

/-- The child left of a key covers a bracket that ends there. -/
theorem left_of_key (h : Fans ok lo ks cs hi) (hk : ks[i]? = some x) (hc : cs[i]? = some c) :
    ∃ a, ok a x c ∧ lo ≤ a ∧ a < x := by
  induction h generalizing i with
  | last _ _ => simp at hk
  | @cons lo k hi d ks cs hlt hd hrest ih =>
    cases i with
    | zero =>
      have hkx : k = x := by simpa using hk
      have hdc : d = c := by simpa using hc
      subst hkx hdc
      exact ⟨lo, hd, le_rfl, hlt⟩
    | succ i =>
      obtain ⟨a, ha, hle, hax⟩ := ih (by simpa using hk) (by simpa using hc)
      exact ⟨a, ha, hlt.le.trans hle, hax⟩

/-- The child right of a key covers a bracket that starts there. -/
theorem right_of_key (h : Fans ok lo ks cs hi) (hk : ks[i]? = some x)
    (hc : cs[i + 1]? = some c) : ∃ b, ok x b c ∧ x < b ∧ b ≤ hi := by
  obtain ⟨-, hr⟩ := h.cut hk
  have hc0 : (cs.drop (i + 1))[0]? = some c := by simpa using hc
  generalize ks.drop (i + 1) = ks' at hr
  generalize cs.drop (i + 1) = cs' at hr hc0
  cases hr with
  | @last _ _ d hlt hd =>
    have hdc : d = c := by simpa using hc0
    subst hdc
    exact ⟨hi, hd, hlt, le_rfl⟩
  | @cons _ k _ d ks cs hlt hd hrest =>
    have hdc : d = c := by simpa using hc0
    subst hdc
    exact ⟨k, hd, hlt, hrest.lt.le⟩

/-! ## Routing -/

/-- **A search is routed** to the child left of the first key beyond it, and
the bracket of that child contains the key searched for. -/
theorem route (h : Fans ok lo ks cs hi) (hlo : lo ≤ x) (hhi : x < hi) :
    ∃ a b c, cs[ks.findIdx (fun k => decide (x < k))]? = some c ∧ ok a b c
      ∧ a ≤ x ∧ x < b := by
  induction h with
  | @last lo hi d hlt hd => exact ⟨lo, hi, d, rfl, hd, hlo, hhi⟩
  | @cons lo k hi d ks cs hlt hd hrest ih =>
    rw [List.findIdx_cons]
    by_cases hxk : x < k
    · exact ⟨lo, k, d, by simp [hxk], hd, hlo, hxk⟩
    · obtain ⟨a, b, c, hc, hok, hax, hxb⟩ := ih (not_lt.mp hxk) hhi
      exact ⟨a, b, c, by simpa [hxk] using hc, hok, hax, hxb⟩

/-- The child whose bracket contains a key is the one the search is routed
to. -/
theorem findIdx_eq (h : Fans ok lo ks cs hi) (hc : cs[i]? = some c)
    (hx : ∀ a b, ok a b c → a ≤ x ∧ x < b) :
    ks.findIdx (fun k => decide (x < k)) = i := by
  induction h generalizing i with
  | last _ _ =>
    cases i with
    | zero => rfl
    | succ i => simp at hc
  | @cons lo k hi d ks cs hlt hd hrest ih =>
    rw [List.findIdx_cons]
    cases i with
    | zero =>
      have hdc : d = c := by simpa using hc
      subst hdc
      simp [(hx _ _ hd).2]
    | succ i =>
      have hc' : cs[i]? = some c := by simpa using hc
      obtain ⟨a, b, hab, ha, -, -⟩ := hrest.of_mem (List.mem_of_getElem? hc')
      have hkx : ¬ x < k := not_lt.mpr (ha.trans (hx a b hab).1)
      simp [hkx, ih hc']

/-- **A child that was split is replaced by its two halves.** Where the
bracket of a child determines where it starts, the child occurs once, so the
other children are untouched. -/
theorem refine {sep : α} {r : β} (h : Fans ok lo ks cs hi) (hc : cs[i]? = some c)
    (hstart : ∀ a b a' b', ok a b c → ok a' b' c → a = a')
    (hkeep : ∀ a b d, d ≠ c → ok a b d → ok' a b d)
    (hsplit : ∀ a b, ok a b c → a < sep ∧ sep < b ∧ ok' a sep c ∧ ok' sep b r) :
    Fans ok' lo (ks.take i ++ sep :: ks.drop i) (cs.take (i + 1) ++ r :: cs.drop (i + 1)) hi := by
  induction h generalizing i with
  | @last lo hi d hlt hd =>
    cases i with
    | zero =>
      have hdc : d = c := by simpa using hc
      subst hdc
      obtain ⟨h1, h2, hl, hr⟩ := hsplit lo hi hd
      exact cons h1 hl (last h2 hr)
    | succ i => simp at hc
  | @cons lo k hi d ks cs hlt hd hrest ih =>
    -- a child of the rest starts at `k` or later, so it is not the first one
    have hne : ∀ e ∈ cs, e = c → ok lo k c → False := by
      rintro e he rfl hfirst
      obtain ⟨a, b, hab, hka, -, -⟩ := hrest.of_mem he
      exact absurd (hstart _ _ _ _ hfirst hab) (hlt.trans_le hka).ne
    cases i with
    | zero =>
      have hdc : d = c := by simpa using hc
      subst hdc
      obtain ⟨h1, h2, hl, hr⟩ := hsplit lo k hd
      refine cons h1 hl (cons h2 hr (hrest.mono ?_))
      intro a b e he _ _ _ hok
      exact hkeep a b e (fun hec => hne e he hec hd) hok
    | succ i =>
      have hc' : cs[i]? = some c := by simpa using hc
      have hdc : d ≠ c := by
        rintro rfl
        exact hne d (List.mem_of_getElem? hc') rfl hd
      exact cons hlt (hkeep _ _ _ hdc hd) (ih hc')

/-! ## Weight -/

/-- **A node of many children weighs much**: if each child weighs at least `w`,
where the weight is the growth of a function over its bracket, the node weighs
that many times `w`. -/
theorem weigh {μ : α → ℕ} {w : ℕ} (h : Fans ok lo ks cs hi)
    (hw : ∀ a b c, c ∈ cs → ok a b c → μ a + w ≤ μ b) : μ lo + cs.length * w ≤ μ hi := by
  induction h with
  | @last lo hi d hlt hd =>
    have h1 := hw lo hi d List.mem_cons_self hd
    simpa using h1
  | @cons lo k hi d ks cs hlt hd hrest ih =>
    have h1 := hw lo k d List.mem_cons_self hd
    have h2 := ih (fun a b c hc => hw a b c (List.mem_cons_of_mem _ hc))
    rw [List.length_cons, Nat.succ_mul]
    omega

end Fans

/-! ## Disjoint intervals -/

/-- **Disjoint intervals fit side by side**: the widths of finitely many
pairwise disjoint intervals below `n` add up to at most `n`. -/
theorem sum_width_le {ι : Type} [DecidableEq ι] (s : Finset ι) (lo hi : ι → ℕ) (n : ℕ)
    (hn : ∀ i ∈ s, hi i ≤ n)
    (hd : ∀ i ∈ s, ∀ j ∈ s, i ≠ j → hi i ≤ lo j ∨ hi j ≤ lo i) :
    ∑ i ∈ s, (hi i - lo i) ≤ n := by
  have hcard : (s.biUnion (fun i => Finset.Ico (lo i) (hi i))).card
      = ∑ i ∈ s, (hi i - lo i) := by
    rw [Finset.card_biUnion]
    · simp
    · intro i hi' j hj hij
      refine Finset.disjoint_left.mpr (fun x hx hx' => ?_)
      rw [Finset.mem_Ico] at hx hx'
      have := hd i hi' j hj hij
      omega
  rw [← hcard, ← Finset.card_range n]
  refine Finset.card_le_card (fun x hx => ?_)
  obtain ⟨i, hi', hx⟩ := Finset.mem_biUnion.mp hx
  exact Finset.mem_range.mpr ((Finset.mem_Ico.mp hx).2.trans_le (hn i hi'))
