import SqlMini.TreeShape

/-!
# The links between the leaves

Each leaf names the next one. In terms of the labels, the link of a leaf leads
to the leaf whose range begins where its own ends, and the last leaf has no
link (`LinkOk`, `Linked`). As ranges are disjoint, that fixes the chain.

Cutting a leaf puts the new page between it and its successor
(`Linked.cut_leaf`). The steps above the leaves keep every link that is
there, since they keep the ranges of the leaves (`Linked.cut_inner`,
`Linked.congr`), and a new root moves page `0`, which nothing links to
(`Linked.grow`).
-/

namespace BTree

variable {T T' : ℕ → Prop} {lab lab' : ℕ → Label} {H : ℕ} {pages pages' : ℕ → Page}
  {c right left sep link hi p q : ℕ}

/-- **The link of a leaf is right** where its range ends at `hi`: it leads to
the leaf whose range begins there, or nowhere where no key is left. -/
def LinkOk (T : ℕ → Prop) (lab : ℕ → Label) (link hi : ℕ) : Prop :=
  (hi = 4294967296 ∧ link = Node.invalidPageId) ∨ (T link ∧ (lab link).lvl = 0 ∧ (lab link).lo = hi)

/-- **The leaves are linked** in the order of their ranges. -/
def Linked (T : ℕ → Prop) (lab : ℕ → Label) (pages : ℕ → Page) : Prop :=
  ∀ p, T p → (lab p).lvl = 0 → LinkOk T lab (Node.view (pages p)).link (lab p).hi

/-- A link stays right while the leaf it leads to begins where it did. -/
theorem LinkOk.mono (h : LinkOk T lab link hi)
    (hkeep : T link → (lab link).lvl = 0 → (lab link).lo = hi →
      T' link ∧ (lab' link).lvl = 0 ∧ (lab' link).lo = hi) : LinkOk T' lab' link hi := by
  rcases h with h | ⟨hT, hl, hlo⟩
  · exact Or.inl h
  · exact Or.inr (hkeep hT hl hlo)

/-- **A step that keeps the leaves and their links** keeps them linked. -/
theorem Linked.congr (h : Linked T lab pages)
    (hback : ∀ p, T' p → (lab' p).lvl = 0 → T p ∧ lab' p = lab p
      ∧ (Node.view (pages' p)).link = (Node.view (pages p)).link)
    (hkeep : ∀ p, T p → (lab p).lvl = 0 → T' p ∧ lab' p = lab p) : Linked T' lab' pages' := by
  intro p hp hl
  obtain ⟨hT, hlab, hlink⟩ := hback p hp hl
  rw [hlab] at hl
  rw [hlink, hlab]
  refine (h p hT hl).mono (fun hq hql hqo => ?_)
  obtain ⟨hq', hlab'⟩ := hkeep _ hq hql
  rw [hlab']
  exact ⟨hq', hql, hqo⟩

/-- Writing a page that keeps its link keeps the leaves linked. -/
theorem Linked.set_leaf (h : Linked T lab pages) {b : Page}
    (hlink : (Node.view b).link = (Node.view (pages p)).link) :
    Linked T lab (Function.update pages p b) := by
  refine h.congr (fun q hq _ => ⟨hq, rfl, ?_⟩) (fun q hq _ => ⟨hq, rfl⟩)
  by_cases hqp : q = p
  · subst hqp
    rw [Function.update_self, hlink]
  · rw [Function.update_of_ne hqp]

section Cut

variable (hc : T c) (hfresh : ¬ T right)
include hc hfresh

/-- A page begins where it did. -/
theorem cutLab_lo (hq : T q) : (cutLab lab c right sep q).lvl = (lab q).lvl
    ∧ (cutLab lab c right sep q).lo = (lab q).lo := by
  by_cases hqc : q = c
  · subst hqc
    rw [cutLab_self hc hfresh]
    exact ⟨rfl, rfl⟩
  · rw [cutLab_other hfresh hq hqc]
    exact ⟨rfl, rfl⟩

/-- The link of a page that was not cut. -/
theorem LinkOk.cut (h : LinkOk T lab link hi) :
    LinkOk (withPage T right) (cutLab lab c right sep) link hi := by
  refine h.mono (fun hT hl hlo => ?_)
  obtain ⟨h1, h2⟩ : (cutLab lab c right sep link).lvl = (lab link).lvl
    ∧ (cutLab lab c right sep link).lo = (lab link).lo := cutLab_lo hc hfresh hT
  exact ⟨Or.inl hT, h1.trans hl, h2.trans hlo⟩

/-- **Cutting an inner node** leaves the leaves linked. -/
theorem Linked.cut_inner (h : Linked T lab pages) (hlvl : (lab c).lvl ≠ 0)
    (hframe : ∀ q, T q → q ≠ c → pages' q = pages q) :
    Linked (withPage T right) (cutLab lab c right sep) pages' := by
  rintro p (hp | rfl) hl
  · have hpc : p ≠ c := by
      rintro rfl
      exact hlvl ((cutLab_lo hc hfresh hp).1.symm.trans hl)
    rw [cutLab_other hfresh hp hpc] at hl ⊢
    rw [hframe p hp hpc]
    exact (h p hp hl).cut hc hfresh
  · rw [SplitTree.cutLab_right] at hl
    exact absurd hl hlvl

/-- **Cutting a leaf** puts the new page behind it. -/
theorem Linked.cut_leaf (h : Linked T lab pages) (hlvl : (lab c).lvl = 0)
    (hlow : (Node.view (pages' c)).link = right)
    (hup : (Node.view (pages' right)).link = (Node.view (pages c)).link)
    (hframe : ∀ q, T q → q ≠ c → pages' q = pages q) :
    Linked (withPage T right) (cutLab lab c right sep) pages' := by
  rintro p (hp | rfl) hl
  · by_cases hpc : p = c
    · subst hpc
      rw [cutLab_self hp hfresh, hlow]
      refine Or.inr ⟨Or.inr rfl, ?_⟩
      rw [SplitTree.cutLab_right]
      exact ⟨hlvl, rfl⟩
    · rw [cutLab_other hfresh hp hpc] at hl ⊢
      rw [hframe p hp hpc]
      exact (h p hp hl).cut hc hfresh
  · rw [SplitTree.cutLab_right, hup]
    exact (h c hc hlvl).cut hc hfresh

end Cut

/-- **A new root** above the halves of the old one leaves the leaves
linked. -/
theorem Linked.grow (hs : Shape T lab H) (hfresh : ¬ T right) (hleft : ¬ withPage T right left)
    (hlo : 0 < sep) (h : Linked (withPage T right) (cutLab lab 0 right sep) pages)
    (hcopy : (Node.view (pages' left)).link = (Node.view (pages 0)).link)
    (hframe : ∀ q, q ≠ 0 → q ≠ left → pages' q = pages q) :
    Linked (withPage (withPage T right) left) (growLab lab H left right sep) pages' := by
  have hlr : right ≠ left := fun he => hleft (Or.inr he.symm)
  have hr0 : right ≠ 0 := fun he => hfresh (he ▸ hs.root)
  have hl0 : left ≠ 0 := fun he => hleft (Or.inl (he ▸ hs.root))
  have hlabR : growLab lab H left right sep right = cutLab lab 0 right sep right := by
    rw [growLab, Function.update_of_ne hlr, Function.update_self, SplitTree.cutLab_right,
      hs.root_lab]
  have hlabq : ∀ q, T q → q ≠ 0 → growLab lab H left right sep q = cutLab lab 0 right sep q := by
    intro q hq hq0
    have h1 : q ≠ left := fun he => hleft (Or.inl (he ▸ hq))
    have h2 : q ≠ right := fun he => hfresh (he ▸ hq)
    rw [cutLab_other hfresh hq hq0, growLab, Function.update_of_ne h1, Function.update_of_ne h2,
      Function.update_of_ne hq0]
  -- a leaf that is linked to does not begin at `0`, so it is not page `0`
  have hlink : ∀ link hi, 0 < hi → LinkOk (withPage T right) (cutLab lab 0 right sep) link hi →
      LinkOk (withPage (withPage T right) left) (growLab lab H left right sep) link hi := by
    intro link hi hpos hok
    refine hok.mono (fun hT hlvl hlo' => ?_)
    rcases hT with hT | rfl
    · have hne : link ≠ 0 := by
        rintro rfl
        have h0 : (cutLab lab 0 right sep 0).lo = (lab 0).lo := (cutLab_lo hs.root hfresh hT).2
        rw [hs.root_lab] at h0
        simp only at h0
        omega
      rw [hlabq link hT hne]
      exact ⟨Or.inl (Or.inl hT), hlvl, hlo'⟩
    · rw [hlabR]
      exact ⟨Or.inl (Or.inr rfl), hlvl, hlo'⟩
  rintro p ((hp | rfl) | rfl) hl
  · by_cases hp0 : p = 0
    · subst hp0
      rw [growLab, Function.update_of_ne hl0.symm, Function.update_of_ne hr0.symm,
        Function.update_self] at hl
      exact absurd hl (Nat.succ_ne_zero H)
    · have hpl : p ≠ left := fun he => hleft (Or.inl (he ▸ hp))
      rw [hlabq p hp hp0] at hl ⊢
      rw [hframe p hp0 hpl]
      refine hlink _ _ ?_ (h p (Or.inl hp) hl)
      rw [cutLab_other hfresh hp hp0]
      exact Nat.zero_lt_of_lt (hs.lt p hp)
  · rw [hlabR] at hl ⊢
    rw [hframe p hr0 hlr]
    refine hlink _ _ ?_ (h p (Or.inr rfl) hl)
    rw [SplitTree.cutLab_right, hs.root_lab]
    exact Nat.zero_lt_succ _
  · have hlabL : growLab lab H p right sep p = ⟨H, 0, sep⟩ := Function.update_self _ _ _
    have hlab0 : cutLab lab 0 right sep 0 = ⟨H, 0, sep⟩ := by
      rw [cutLab_self hs.root hfresh, hs.root_lab]
    have h0 := h 0 (Or.inl hs.root) (by rwa [hlab0, ← hlabL])
    rw [hlab0] at h0
    rw [hlabL, hcopy]
    exact hlink _ _ hlo h0

end BTree
