import SqlMini.TreeShape

/-!
# The size of the tree

A node other than the root is half full and ranges of one level are
disjoint, so the ranges of 32-bit keys leave room for few pages: a page at
level `l` covers at least `127 · 256 ^ l` keys (`Tree.width`, of the general
`Tree.weigh`). Hence no page
but the root is above level `3`, the tree is at most four levels high
(`Tree.height_le`), and it has fewer than `2 ^ 28` pages
(`Tree.pages_le`) – the 32-bit page counter does not wrap and a descent
ends.
-/

namespace BTree

/-- **What every leaf owes**, whatever else it does: sorted cells, and a
range at least half as wide as a leaf is full. -/
structure LeafSpec.Sound (Leaf : LeafSpec) : Prop where
  /-- The keys do not decrease. -/
  sorted : ∀ {cs lo hi}, Leaf cs lo hi → cs.Pairwise (fun a b => a.1 ≤ b.1)
  /-- A half full leaf has a wide range. -/
  wide : ∀ {cs lo hi}, Leaf cs lo hi → 255 ≤ cs.length → lo + 127 ≤ hi

variable {Leaf : LeafSpec} {T : ℕ → Prop} {lab : ℕ → Label} {H : ℕ} {pages : ℕ → Page}

/-- **A page weighs much**, more the higher it is, if a half full leaf weighs
`w`: a weight is the growth of a function over the range of keys. -/
theorem Tree.weigh {μ : ℕ → ℕ} {w : ℕ} (h : Tree Leaf T lab H pages)
    (hleaf : ∀ cs lo hi, Leaf cs lo hi → 255 ≤ cs.length → μ lo + w ≤ μ hi) : ∀ (l p : ℕ), T p →
    p ≠ 0 → (lab p).lvl = l → μ (lab p).lo + w * 256 ^ l ≤ μ (lab p).hi
  | 0, p, hp, h0, hl => by
    have hn := h.node p hp
    have hw := hleaf _ _ _ (hn.leaf hl).2 (by simpa using hn.half h0)
    simpa using hw
  | l + 1, p, hp, h0, hl => by
    have hn := h.node p hp
    have hlvl := h.shape.lvl_le p hp
    -- each child weighs much by induction
    have hw : ∀ a b c, c ∈ (Node.view (pages p)).children → Covers T lab l a b c →
        μ a + w * 256 ^ l ≤ μ b := by
      intro a b c _ hc
      have hc0 : c ≠ 0 := by
        rintro rfl
        have he := congrArg Label.lvl (h.shape.root_lab.symm.trans hc.2)
        simp only at he
        omega
      have hrec := h.weigh hleaf l c hc.1 hc0 (by rw [hc.2])
      rw [hc.2] at hrec
      exact hrec
    have hfan := (hn.inner l hl).2.weigh hw
    have hlen : 256 ≤ (Node.view (pages p)).children.length := by
      rw [NodeView.length_children]
      have := hn.half h0
      omega
    calc μ (lab p).lo + w * 256 ^ (l + 1) = μ (lab p).lo + 256 * (w * 256 ^ l) := by ring
      _ ≤ μ (lab p).lo + (Node.view (pages p)).children.length * (w * 256 ^ l) :=
        Nat.add_le_add_left (Nat.mul_le_mul_right _ hlen) _
      _ ≤ μ (lab p).hi := hfan

/-- **A page covers many keys**, more the higher it is. -/
theorem Tree.width (hL : Leaf.Sound) (h : Tree Leaf T lab H pages) (l p : ℕ) (hp : T p)
    (h0 : p ≠ 0) (hl : (lab p).lvl = l) : (lab p).lo + 127 * 256 ^ l ≤ (lab p).hi :=
  h.weigh (μ := id) (fun _ _ _ hleaf => hL.wide hleaf) l p hp h0 hl

/-- Only the root may be above level `3`. -/
theorem Tree.lvl_le_three (hL : Leaf.Sound) (h : Tree Leaf T lab H pages) {p : ℕ} (hp : T p)
    (h0 : p ≠ 0) : (lab p).lvl ≤ 3 := by
  by_contra hlt
  have hw := h.width hL _ p hp h0 rfl
  have hhi := h.shape.hi_le p hp
  have hpow : 256 ^ 4 ≤ 256 ^ (lab p).lvl := Nat.pow_le_pow_right (by omega) (by omega)
  omega

/-- **The tree is at most four levels high.** -/
theorem Tree.height_le (hL : Leaf.Sound) (h : Tree Leaf T lab H pages) : H ≤ 4 := by
  by_contra hlt
  have hl : (lab 0).lvl = H := by rw [h.shape.root_lab]
  have hn := h.node 0 h.shape.root
  obtain ⟨l, rfl⟩ : ∃ l, H = l + 1 := ⟨H - 1, by omega⟩
  have hc := (Node.view (pages 0)).getElem?_children_last
  obtain ⟨hT, hlvl, -, -⟩ := hn.child hl (List.mem_of_getElem? hc)
  have hne : (Node.view (pages 0)).link ≠ 0 := by
    intro he
    rw [he] at hlvl
    omega
  have := h.lvl_le_three hL hT hne
  omega

/-- The pages of a tree whose pages are handed out from `base` on: the root
and those from `base` to the next one to be handed out. -/
def Owned (base next p : ℕ) : Prop := p = 0 ∨ (base ≤ p ∧ p < next)

/-- Handing out a page adds it. -/
theorem owned_succ {base next : ℕ} (h : base ≤ next) :
    Owned base (next + 1) = withPage (Owned base next) next := by
  funext p
  unfold withPage Owned
  exact propext (by omega)

/-- **A tree has fewer than `2 ^ 28` pages.** -/
theorem Tree.pages_le (hL : Leaf.Sound) {base next : ℕ} (hbase : 1 ≤ base)
    (h : Tree Leaf (Owned base next) lab H pages) : next ≤ base + 268435456 := by
  have hT : ∀ p ∈ Finset.Ico base next, Owned base next p ∧ p ≠ 0 := by
    intro p hp
    rw [Finset.mem_Ico] at hp
    exact ⟨Or.inr hp, by omega⟩
  have hmaps : ∀ p ∈ Finset.Ico base next, (lab p).lvl ∈ Finset.range 4 := by
    intro p hp
    have := h.lvl_le_three hL (hT p hp).1 (hT p hp).2
    exact Finset.mem_range.mpr (by omega)
  -- the pages of one level fit side by side
  have hlevel : ∀ l ∈ Finset.range 4,
      ∑ p ∈ Finset.Ico base next with (lab p).lvl = l, ((lab p).hi - (lab p).lo) ≤ 4294967296 := by
    intro l _
    refine sum_width_le _ _ _ _ (fun p hp => ?_) (fun p hp q hq hpq => ?_)
    · exact h.shape.hi_le p (hT p (Finset.mem_filter.mp hp).1).1
    · rw [Finset.mem_filter] at hp hq
      exact h.shape.apart p q (hT p hp.1).1 (hT q hq.1).1 hpq (hp.2.trans hq.2.symm)
  have hsum : ∑ p ∈ Finset.Ico base next, ((lab p).hi - (lab p).lo) ≤ 4 * 4294967296 := by
    rw [← Finset.sum_fiberwise_of_maps_to hmaps]
    exact (Finset.sum_le_card_nsmul _ _ _ hlevel).trans (by simp)
  have hcount : (Finset.Ico base next).card * 127
      ≤ ∑ p ∈ Finset.Ico base next, ((lab p).hi - (lab p).lo) := by
    refine (Finset.card_nsmul_le_sum _ _ 127 (fun p hp => ?_))
    have hw := h.width hL _ p (hT p hp).1 (hT p hp).2 rfl
    have hpow : 1 ≤ 256 ^ (lab p).lvl := Nat.one_le_pow _ _ (by omega)
    omega
  rw [Nat.card_Ico] at hcount
  omega

end BTree
