import SqlMini.NodeSpec
import SqlMini.Fans

/-!
# The shape of the tree

The pages of a B-tree are described by a **labelling**: each page of the
tree has a level and a range of keys, `Label`. The root, page `0`, has the
whole range; an inner node covers its range by its children, one level
lower (`Fans`); a leaf is at level `0`; and two pages of one level have
disjoint ranges (`Shape`). `Tree` says that every page of the tree is what
its label says. What a leaf holds is left open: `Leaf cs lo hi` is any
predicate of its cells and its range.

Disjointness is what makes the description local. A page has one parent, for
the ranges of two parents would meet in the range of the page; so a change to
a page and its parent is seen by no third page.

While a split travels up the path, one page has been cut in two and its
parent does not know yet: `SplitTree` is the tree with the page `c` cut at
the key `sep`, the upper half in the page `right`. `SplitTree.close` ends the
journey in a parent with room, `SplitTree.lift` carries it one level up, and
`Tree.grow` ends it in a new root.
-/

namespace BTree

/-- **The label of a page**: its level above the leaves and its range of
keys. -/
@[ext] structure Label where
  /-- The level, `0` for a leaf. -/
  lvl : ℕ
  /-- The least key of the range. -/
  lo : ℕ
  /-- The end of the range. -/
  hi : ℕ

/-- What a leaf owes its range. -/
abbrev LeafSpec := List (ℕ × ℕ) → ℕ → ℕ → Prop

/-- The child `c` covers `[a, b)` at level `l`. -/
def Covers (T : ℕ → Prop) (lab : ℕ → Label) (l a b c : ℕ) : Prop := T c ∧ lab c = ⟨l, a, b⟩

/-- **The view of page `p` is what the label `L` says.** -/
structure NodeOk (Leaf : LeafSpec) (T : ℕ → Prop) (lab : ℕ → Label) (p : ℕ) (v : NodeView)
    (L : Label) : Prop where
  /-- The root flag is set in page `0` alone. -/
  root : v.root = decide (p = 0)
  /-- A node is not overfull. -/
  num_le : v.num ≤ 510
  /-- A node other than the root is half full. -/
  half : p ≠ 0 → 255 ≤ v.num
  /-- A node at level `0` is a leaf. -/
  leaf : L.lvl = 0 → v.type = .leaf ∧ Leaf v.cells L.lo L.hi
  /-- A node above it is an inner node, and its children cover its range. -/
  inner : ∀ l, L.lvl = l + 1 →
    v.type = .internal ∧ Fans (Covers T lab l) L.lo v.keys v.children L.hi

/-- **The labels of a tree of height `H`.** -/
structure Shape (T : ℕ → Prop) (lab : ℕ → Label) (H : ℕ) : Prop where
  /-- The root is a page of the tree. -/
  root : T 0
  /-- It has the whole range. -/
  root_lab : lab 0 = ⟨H, 0, 4294967296⟩
  /-- A range is not empty. -/
  lt : ∀ p, T p → (lab p).lo < (lab p).hi
  /-- A range is one of 32-bit keys. -/
  hi_le : ∀ p, T p → (lab p).hi ≤ 4294967296
  /-- No page is above the root. -/
  lvl_le : ∀ p, T p → (lab p).lvl ≤ H
  /-- Two pages of one level have disjoint ranges. -/
  apart : ∀ p q, T p → T q → p ≠ q → (lab p).lvl = (lab q).lvl →
    (lab p).hi ≤ (lab q).lo ∨ (lab q).hi ≤ (lab p).lo

/-- **The pages `T` are a tree.** -/
structure Tree (Leaf : LeafSpec) (T : ℕ → Prop) (lab : ℕ → Label) (H : ℕ)
    (pages : ℕ → Page) : Prop where
  /-- The labels are those of a tree. -/
  shape : Shape T lab H
  /-- Every page is what its label says. -/
  node : ∀ p, T p → NodeOk Leaf T lab p (Node.view (pages p)) (lab p)

variable {Leaf Leaf' : LeafSpec} {T T' : ℕ → Prop} {lab lab' : ℕ → Label} {H : ℕ}
  {pages pages' : ℕ → Page} {p q c : ℕ} {v : NodeView} {L : Label}

namespace NodeOk

/-- A node is a leaf or an inner node, as its level says. -/
theorem type_eq (h : NodeOk Leaf T lab p v L) :
    v.type = .internal ↔ ∃ l, L.lvl = l + 1 := by
  rcases Nat.eq_zero_or_eq_succ_pred L.lvl with h0 | hs
  · rw [(h.leaf h0).1]
    simp [h0]
  · exact iff_of_true (h.inner _ hs).1 ⟨_, hs⟩

/-- Nothing but the labels of the children matters. -/
theorem mono (h : NodeOk Leaf T lab p v L)
    (hleaf : L.lvl = 0 → Leaf v.cells L.lo L.hi → Leaf' v.cells L.lo L.hi)
    (hkeep : ∀ l d a b, L.lvl = l + 1 → d ∈ v.children → L.lo ≤ a → a < b → b ≤ L.hi → T d →
      lab d = ⟨l, a, b⟩ → T' d ∧ lab' d = ⟨l, a, b⟩) : NodeOk Leaf' T' lab' p v L where
  root := h.root
  num_le := h.num_le
  half := h.half
  leaf h0 := ⟨(h.leaf h0).1, hleaf h0 (h.leaf h0).2⟩
  inner l hl := ⟨(h.inner l hl).1, (h.inner l hl).2.mono
    (fun a b d hd ha hab hb hok => hkeep l d a b hl hd ha hab hb hok.1 hok.2)⟩

/-- A child of an inner node covers a part of its range. -/
theorem child (h : NodeOk Leaf T lab p v L) {l : ℕ} (hl : L.lvl = l + 1) (hc : c ∈ v.children) :
    T c ∧ (lab c).lvl = l ∧ L.lo ≤ (lab c).lo ∧ (lab c).hi ≤ L.hi := by
  obtain ⟨a, b, ⟨hT, hlab⟩, ha, -, hb⟩ := (h.inner l hl).2.of_mem hc
  rw [hlab]
  exact ⟨hT, rfl, ha, hb⟩

end NodeOk

namespace Shape

/-- No page but the root is at the height of the tree. -/
theorem lvl_lt (h : Shape T lab H) (hp : T p) (h0 : p ≠ 0) : (lab p).lvl < H := by
  refine lt_of_le_of_ne (h.lvl_le p hp) (fun he => ?_)
  have hlt := h.lt p hp
  have hhi := h.hi_le p hp
  have hlab := h.root_lab
  have hap := h.apart p 0 hp h.root h0 (by rw [he, hlab])
  rw [hlab] at hap
  simp only at hap
  omega

/-- **A page has one parent.** -/
theorem parent_unique (h : Shape T lab H) (hp : T p) (hq : T q)
    (hlvl : (lab p).lvl = (lab q).lvl) {a b : ℕ} (hab : a < b)
    (hpa : (lab p).lo ≤ a) (hpb : b ≤ (lab p).hi) (hqa : (lab q).lo ≤ a)
    (hqb : b ≤ (lab q).hi) : p = q := by
  by_contra hne
  have hap := h.apart p q hp hq hne hlvl
  omega

end Shape

/-! ## A change within a leaf -/

/-- **Writing a leaf** leaves a tree, as far as the leaf still owes its range
what it owed, or what the tree now asks of every leaf. -/
theorem Tree.set_leaf (h : Tree Leaf T lab H pages) (hp : T p) (h0 : (lab p).lvl = 0)
    (hroot : v.root = (Node.view (pages p)).root) (htype : v.type = .leaf)
    (hle : v.num ≤ 510) (hge : (Node.view (pages p)).num ≤ v.num)
    (hleaf : Leaf' v.cells (lab p).lo (lab p).hi)
    (hkeep : ∀ q, T q → q ≠ p → (lab q).lvl = 0 →
      Leaf (Node.view (pages q)).cells (lab q).lo (lab q).hi →
      Leaf' (Node.view (pages q)).cells (lab q).lo (lab q).hi)
    (hv : Node.view (pages' p) = v) (hframe : ∀ q, q ≠ p → pages' q = pages q) :
    Tree Leaf' T lab H pages' := by
  refine ⟨h.shape, fun q hq => ?_⟩
  by_cases hqp : q = p
  · subst hqp
    have hn := h.node q hq
    rw [hv]
    exact ⟨hroot.trans hn.root, hle, fun hne => (hn.half hne).trans hge,
      fun _ => ⟨htype, hleaf⟩, fun l hl => absurd (h0.symm.trans hl) (Nat.succ_ne_zero l).symm⟩
  · rw [hframe q hqp]
    exact (h.node q hq).mono (hkeep q hq hqp) (fun l d a b _ _ _ _ _ hT hl => ⟨hT, hl⟩)

/-! ## A page cut in two -/

/-- **The page `c` was cut at `sep`**, the upper half is in the page
`right`, and no other page changed. -/
structure SplitTree (Leaf : LeafSpec) (T : ℕ → Prop) (lab : ℕ → Label) (H : ℕ)
    (pages : ℕ → Page) (c right sep : ℕ) : Prop where
  /-- The labels are those of the tree before. -/
  shape : Shape T lab H
  /-- The page cut is a page of the tree. -/
  mem : T c
  /-- It is not the root. -/
  ne_root : c ≠ 0
  /-- The page of the upper half is not. -/
  fresh : ¬ T right
  /-- The cut is inside the range. -/
  sep_lo : (lab c).lo < sep
  sep_hi : sep < (lab c).hi
  /-- The other pages are what their labels say. -/
  rest : ∀ p, T p → p ≠ c → NodeOk Leaf T lab p (Node.view (pages p)) (lab p)
  /-- The lower half covers the range below the cut. -/
  lower : NodeOk Leaf T lab c (Node.view (pages c)) ⟨(lab c).lvl, (lab c).lo, sep⟩
  /-- The upper half covers the range from it on. -/
  upper : NodeOk Leaf T lab right (Node.view (pages right)) ⟨(lab c).lvl, sep, (lab c).hi⟩

/-- The pages with one more. -/
def withPage (T : ℕ → Prop) (right q : ℕ) : Prop := T q ∨ q = right

/-- The labels after a page was cut. -/
def cutLab (lab : ℕ → Label) (c right sep : ℕ) : ℕ → Label :=
  Function.update (Function.update lab c ⟨(lab c).lvl, (lab c).lo, sep⟩) right
    ⟨(lab c).lvl, sep, (lab c).hi⟩

/-- The page cut keeps its lower half. -/
theorem cutLab_self {right sep : ℕ} (hc : T c) (hfresh : ¬ T right) :
    cutLab lab c right sep c = ⟨(lab c).lvl, (lab c).lo, sep⟩ := by
  have hne : c ≠ right := fun he => hfresh (he ▸ hc)
  rw [cutLab, Function.update_of_ne hne, Function.update_self]

/-- The other pages keep their labels. -/
theorem cutLab_other {right sep : ℕ} (hfresh : ¬ T right) (hq : T q) (hqc : q ≠ c) :
    cutLab lab c right sep q = lab q := by
  have hne : q ≠ right := fun he => hfresh (he ▸ hq)
  rw [cutLab, Function.update_of_ne hne, Function.update_of_ne hqc]

namespace SplitTree

variable {right sep : ℕ}

section Labels

variable (h : SplitTree Leaf T lab H pages c right sep)
include h

omit h in
theorem cutLab_right : cutLab lab c right sep right = ⟨(lab c).lvl, sep, (lab c).hi⟩ :=
  Function.update_self _ _ _

theorem cutLab_left : cutLab lab c right sep c = ⟨(lab c).lvl, (lab c).lo, sep⟩ :=
  cutLab_self h.mem h.fresh

theorem cutLab_of_ne (hq : T q) (hqc : q ≠ c) : cutLab lab c right sep q = lab q :=
  cutLab_other h.fresh hq hqc

/-- The level of a page of the tree is what it was, and its range is part of
what it was. -/
theorem cutLab_sub (hq : T q) : (cutLab lab c right sep q).lvl = (lab q).lvl
    ∧ (lab q).lo ≤ (cutLab lab c right sep q).lo
    ∧ (cutLab lab c right sep q).hi ≤ (lab q).hi
    ∧ (cutLab lab c right sep q).lo < (cutLab lab c right sep q).hi := by
  by_cases hqc : q = c
  · subst hqc
    rw [h.cutLab_left]
    exact ⟨rfl, le_rfl, h.sep_hi.le, h.sep_lo⟩
  · rw [h.cutLab_of_ne hq hqc]
    exact ⟨rfl, le_rfl, le_rfl, h.shape.lt q hq⟩

/-- **The labels after the cut** are those of a tree again. -/
theorem shape_cut : Shape (withPage T right) (cutLab lab c right sep) H := by
  have hlo := h.sep_lo
  have hhi := h.sep_hi
  have hr : cutLab lab c right sep right = ⟨(lab c).lvl, sep, (lab c).hi⟩ := cutLab_right
  -- a page of the tree at the level of the cut is apart from the upper half
  have hright : ∀ q, T q → (cutLab lab c right sep q).lvl = (lab c).lvl →
      (cutLab lab c right sep q).hi ≤ sep ∨ (lab c).hi ≤ (cutLab lab c right sep q).lo := by
    intro q hq hl
    obtain ⟨h1, h2, h3, -⟩ := h.cutLab_sub hq
    by_cases hqc : q = c
    · subst hqc
      rw [h.cutLab_left]
      exact Or.inl le_rfl
    · have hap := h.shape.apart q c hq h.mem hqc (h1.symm.trans hl)
      omega
  refine ⟨Or.inl h.shape.root, ?_, ?_, ?_, ?_, ?_⟩
  · rw [h.cutLab_of_ne h.shape.root h.ne_root.symm]
    exact h.shape.root_lab
  · rintro p (hp | rfl)
    · exact (h.cutLab_sub hp).2.2.2
    · rw [hr]
      exact hhi
  · rintro p (hp | rfl)
    · exact (h.cutLab_sub hp).2.2.1.trans (h.shape.hi_le p hp)
    · rw [hr]
      exact h.shape.hi_le c h.mem
  · rintro p (hp | rfl)
    · rw [(h.cutLab_sub hp).1]
      exact h.shape.lvl_le p hp
    · rw [hr]
      exact h.shape.lvl_le c h.mem
  · rintro p q (hp | rfl) (hq | rfl) hpq hl
    · obtain ⟨h1, h2, h3, -⟩ := h.cutLab_sub hp
      obtain ⟨h1', h2', h3', -⟩ := h.cutLab_sub hq
      have hap := h.shape.apart p q hp hq hpq (by omega)
      omega
    · rw [hr] at hl ⊢
      exact hright p hp hl
    · rw [hr] at hl ⊢
      exact (hright q hq hl.symm).symm
    · exact absurd rfl hpq

/-- The children of a page that is not the parent keep their labels. -/
theorem nodeOk_cut (hv : NodeOk Leaf T lab p v L) (hnot : ∀ l, L.lvl = l + 1 → c ∉ v.children) :
    NodeOk Leaf (withPage T right) (cutLab lab c right sep) p v L :=
  hv.mono (fun _ hl => hl) (fun l _ _ _ hl hd _ _ _ hT hlab =>
    ⟨Or.inl hT, (h.cutLab_of_ne hT (fun hdc => hnot l hl (hdc ▸ hd))).trans hlab⟩)

omit h in
/-- A page at the level of the cut or below is not the parent. -/
theorem not_mem_children (hv : NodeOk Leaf T lab p v L) (hlvl : L.lvl ≤ (lab c).lvl) :
    ∀ l, L.lvl = l + 1 → c ∉ v.children := by
  intro l hl hc
  have h2 := (hv.child hl hc).2.1
  omega

/-- **The lower half** is what its new label says. -/
theorem lower_cut : NodeOk Leaf (withPage T right) (cutLab lab c right sep) c
    (Node.view (pages c)) (cutLab lab c right sep c) := by
  rw [h.cutLab_left]
  exact h.nodeOk_cut h.lower (not_mem_children h.lower le_rfl)

/-- **The upper half** is what its label says. -/
theorem upper_cut : NodeOk Leaf (withPage T right) (cutLab lab c right sep) right
    (Node.view (pages right)) (cutLab lab c right sep right) := by
  rw [cutLab_right]
  exact h.nodeOk_cut h.upper (not_mem_children h.upper le_rfl)

end Labels

/-- The page `parent` has the page cut as its child at `slot`. -/
structure Parent (T : ℕ → Prop) (lab : ℕ → Label) (pages : ℕ → Page) (c parent slot : ℕ) :
    Prop where
  /-- The parent is a page of the tree. -/
  mem : T parent
  /-- It is one level up. -/
  lvl : (lab parent).lvl = (lab c).lvl + 1
  /-- The page is its child. -/
  child : (Node.view (pages parent)).children[slot]? = some c

variable {parent slot : ℕ}

/-- The merged node of a full parent has `511` keys and `512` children. -/
theorem length_merged (slot sep right : ℕ) (hnum : (Node.view (pages parent)).num = 510) :
    (insertAt (Node.view (pages parent)).keys slot sep).length = 511
      ∧ (insertAt (Node.view (pages parent)).children (slot + 1) right).length = 512 := by
  simp [hnum]

section AtParent

variable (h : SplitTree Leaf T lab H pages c right sep) (hP : Parent T lab pages c parent slot)
include h hP

theorem parent_ne : parent ≠ c := by
  rintro rfl
  have hl := hP.lvl
  omega

theorem parent_ok : NodeOk Leaf T lab parent (Node.view (pages parent)) (lab parent) :=
  h.rest parent hP.mem (h.parent_ne hP)

/-- **The third pages**: those that are neither the page cut nor its parent
are what their labels say. -/
theorem rest_cut (hp : T p) (hpc : p ≠ c) (hpP : p ≠ parent) :
    NodeOk Leaf (withPage T right) (cutLab lab c right sep) p (Node.view (pages p))
      (cutLab lab c right sep p) := by
  rw [h.cutLab_of_ne hp hpc]
  refine h.nodeOk_cut (h.rest p hp hpc) (fun l hl hc => hpP ?_)
  obtain ⟨-, h1, h2, h3⟩ := (h.rest p hp hpc).child hl hc
  obtain ⟨-, -, h4, h5⟩ := (h.parent_ok hP).child hP.lvl (List.mem_of_getElem? hP.child)
  exact h.shape.parent_unique hp hP.mem (by rw [hl, hP.lvl, h1]) (h.shape.lt c h.mem) h2 h3 h4 h5

/-- **Every page but the parent** is what its label says. -/
theorem others_cut (hp : withPage T right p) (hpP : p ≠ parent) :
    NodeOk Leaf (withPage T right) (cutLab lab c right sep) p (Node.view (pages p))
      (cutLab lab c right sep p) := by
  rcases hp with hp | rfl
  · by_cases hpc : p = c
    · subst hpc
      exact h.lower_cut
    · exact h.rest_cut hP hp hpc hpP
  · exact h.upper_cut

/-- **The merged node**: the parent's keys with the separator and its
children with the upper half cover its range. -/
theorem merged : Fans (Covers (withPage T right) (cutLab lab c right sep) (lab c).lvl)
    (lab parent).lo (insertAt (Node.view (pages parent)).keys slot sep)
    (insertAt (Node.view (pages parent)).children (slot + 1) right) (lab parent).hi := by
  refine ((h.parent_ok hP).inner _ hP.lvl).2.refine hP.child ?_ ?_ ?_
  · intro a b a' b' h1 h2
    have he := h1.2.symm.trans h2.2
    exact congrArg Label.lo he
  · intro a b d hdc hd
    exact ⟨Or.inl hd.1, (h.cutLab_of_ne hd.1 hdc).trans hd.2⟩
  · intro a b hab
    have hlo := h.sep_lo
    have hhi := h.sep_hi
    have hl := h.cutLab_left
    have hr : cutLab lab c right sep right = ⟨(lab c).lvl, sep, (lab c).hi⟩ := cutLab_right
    rw [hab.2] at hlo hhi hl hr
    exact ⟨hlo, hhi, ⟨Or.inl h.mem, hl⟩, Or.inr rfl, hr⟩

/-- The position the separator is searched at in a full parent is the slot
the descent recorded. -/
theorem slot_eq : (Node.view (pages parent)).keys.findIdx (fun k => decide (sep < k)) = slot := by
  refine ((h.parent_ok hP).inner _ hP.lvl).2.findIdx_eq hP.child (fun a b hab => ?_)
  have hlo := h.sep_lo
  have hhi := h.sep_hi
  rw [hab.2] at hlo hhi
  exact ⟨hlo.le, hhi⟩

omit h in
theorem slot_le : slot ≤ (Node.view (pages parent)).num := by
  have hlt := (List.getElem?_eq_some_iff.mp hP.child).1
  rw [NodeView.length_children] at hlt
  omega

/-- **A parent with room ends the split.** -/
theorem close (hv : v.type = (Node.view (pages parent)).type)
    (hroot : v.root = (Node.view (pages parent)).root) (hle : v.num ≤ 510)
    (hkeys : v.keys = insertAt (Node.view (pages parent)).keys slot sep)
    (hchildren : v.children = insertAt (Node.view (pages parent)).children (slot + 1) right)
    (hpage : Node.view (pages' parent) = v) (hframe : ∀ q, q ≠ parent → pages' q = pages q) :
    Tree Leaf (withPage T right) (cutLab lab c right sep) H pages' := by
  have hPok := h.parent_ok hP
  have hnum : v.num = (Node.view (pages parent)).num + 1 := by
    have hl := congrArg List.length hkeys
    simpa using hl
  refine ⟨h.shape_cut, fun p hp => ?_⟩
  by_cases hpP : p = parent
  · subst hpP
    rw [hpage, h.cutLab_of_ne hP.mem (h.parent_ne hP)]
    refine ⟨hroot.trans hPok.root, hle, fun h0 => ?_, fun h0 => ?_, fun l hl => ?_⟩
    · have hhalf := hPok.half h0
      omega
    · have hl := hP.lvl
      omega
    · obtain rfl : l = (lab c).lvl := by
        have hl' := hP.lvl
        omega
      refine ⟨hv.trans (hPok.inner _ hl).1, ?_⟩
      rw [hkeys, hchildren]
      exact h.merged hP
  · rw [hframe p hpP]
    exact h.others_cut hP hp hpP

/-- **The merged node of a full parent is cut** at its middle key. -/
theorem merged_cut (hnum : (Node.view (pages parent)).num = 510) {pushed : ℕ}
    (hpushed : (insertAt (Node.view (pages parent)).keys slot sep)[255]? = some pushed) :
    Fans (Covers (withPage T right) (cutLab lab c right sep) (lab c).lvl) (lab parent).lo
        ((insertAt (Node.view (pages parent)).keys slot sep).take 255)
        ((insertAt (Node.view (pages parent)).children (slot + 1) right).take 256) pushed
      ∧ Fans (Covers (withPage T right) (cutLab lab c right sep) (lab c).lvl) pushed
        (((insertAt (Node.view (pages parent)).keys slot sep).drop 256).take 255)
        (((insertAt (Node.view (pages parent)).children (slot + 1) right).drop 256).take 256)
        (lab parent).hi := by
  obtain ⟨hlk, hlc⟩ := length_merged slot sep right hnum
  obtain ⟨h1, h2⟩ := (h.merged hP).cut hpushed
  refine ⟨h1, ?_⟩
  rw [List.take_of_length_le (by simp only [List.length_drop]; omega),
    List.take_of_length_le (by simp only [List.length_drop]; omega)]
  exact h2

end AtParent

end SplitTree

/-- **A view holds a half of a split inner node.** -/
structure IsHalf (v : NodeView) (keys children : List ℕ) : Prop where
  /-- It is an inner node. -/
  type : v.type = .internal
  /-- It is not a root. -/
  root : v.root = false
  /-- Its keys. -/
  keys : v.keys = keys
  /-- Its children. -/
  children : v.children = children

/-- Clearing the root flag of a half leaves a half. -/
theorem IsHalf.setIsRoot {b : Page} {keys children : List ℕ}
    (h : IsHalf (Node.view b) keys children) :
    IsHalf (Node.view (Node.setIsRoot false b)) keys children := by
  rw [Node.view_setIsRoot]
  exact ⟨h.type, rfl, h.keys, h.children⟩

/-- A half of a split is a node one level above its children. -/
theorem IsHalf.nodeOk {keys children : List ℕ} {l lo hi : ℕ} (h : IsHalf v keys children)
    (hlen : keys.length = 255) (hp : p ≠ 0) (hf : Fans (Covers T lab l) lo keys children hi) :
    NodeOk Leaf T lab p v ⟨l + 1, lo, hi⟩ := by
  have hnum : v.num = 255 := by
    have hl := congrArg List.length h.keys
    simpa [hlen] using hl
  refine ⟨by rw [h.root, decide_eq_false hp], by omega, fun _ => by omega, fun h0 => ?_,
    fun l' hl => ?_⟩
  · exact absurd h0 (Nat.succ_ne_zero l)
  · obtain rfl : l = l' := Nat.succ.inj hl
    refine ⟨h.type, ?_⟩
    rw [h.keys, h.children]
    exact hf

namespace SplitTree

variable {right sep parent slot R pushed : ℕ}

/-- **A full parent is split in turn**, and the split is one level up. -/
theorem lift (h : SplitTree Leaf T lab H pages c right sep)
    (hP : Parent T lab pages c parent slot) (hne : parent ≠ 0)
    (hnum : (Node.view (pages parent)).num = 510)
    (hpushed : (insertAt (Node.view (pages parent)).keys slot sep)[255]? = some pushed)
    (hR : ¬ withPage T right R)
    (hlower : IsHalf (Node.view (pages' parent))
      ((insertAt (Node.view (pages parent)).keys slot sep).take 255)
      ((insertAt (Node.view (pages parent)).children (slot + 1) right).take 256))
    (hupper : IsHalf (Node.view (pages' R))
      (((insertAt (Node.view (pages parent)).keys slot sep).drop 256).take 255)
      (((insertAt (Node.view (pages parent)).children (slot + 1) right).drop 256).take 256))
    (hframe : ∀ q, q ≠ parent → q ≠ R → pages' q = pages q) :
    SplitTree Leaf (withPage T right) (cutLab lab c right sep) H pages' parent R pushed := by
  obtain ⟨hf1, hf2⟩ := h.merged_cut hP hnum hpushed
  obtain ⟨hlk, -⟩ := length_merged slot sep right hnum
  have hlabP := h.cutLab_of_ne hP.mem (h.parent_ne hP)
  have hlvl := hP.lvl
  have hR0 : R ≠ 0 := fun he => hR (Or.inl (he ▸ h.shape.root))
  have hnR : ∀ q, withPage T right q → q ≠ R := fun q hq he => hR (he ▸ hq)
  refine ⟨h.shape_cut, Or.inl hP.mem, hne, hR, ?_, ?_, ?_, ?_, ?_⟩
  · rw [hlabP]
    exact hf1.lt
  · rw [hlabP]
    exact hf2.lt
  · intro p hp hpP
    rw [hframe p hpP (hnR p hp)]
    exact h.others_cut hP hp hpP
  · rw [hlabP, hlvl]
    exact hlower.nodeOk (by simp only [List.length_take]; omega) hne hf1
  · rw [hlabP, hlvl]
    exact hupper.nodeOk (by simp only [List.length_take, List.length_drop]; omega) hR0 hf2

end SplitTree

/-! ## A new root -/

/-- The labels after the root was cut and a new one put above the
halves. -/
def growLab (lab : ℕ → Label) (H left right sep : ℕ) : ℕ → Label :=
  Function.update (Function.update (Function.update lab 0 ⟨H + 1, 0, 4294967296⟩)
    right ⟨H, sep, 4294967296⟩) left ⟨H, 0, sep⟩

/-- **A new root** above the halves of the old one: a node of one key in
page `0`, the halves in two fresh pages. -/
theorem Tree.grow {left right sep : ℕ} (hs : Shape T lab H)
    (hrest : ∀ p, T p → p ≠ 0 → NodeOk Leaf T lab p (Node.view (pages p)) (lab p))
    (hright : ¬ T right) (hleft : ¬ withPage T right left) (hlo : 0 < sep)
    (hhi : sep < 4294967296)
    (hl : NodeOk Leaf T lab left (Node.view (pages left)) ⟨H, 0, sep⟩)
    (hr : NodeOk Leaf T lab right (Node.view (pages right)) ⟨H, sep, 4294967296⟩)
    (htype : (Node.view (pages 0)).type = .internal) (hroot : (Node.view (pages 0)).root = true)
    (hkeys : (Node.view (pages 0)).keys = [sep])
    (hchildren : (Node.view (pages 0)).children = [left, right]) :
    Tree Leaf (withPage (withPage T right) left) (growLab lab H left right sep) (H + 1) pages := by
  have hlr : right ≠ left := fun he => hleft (Or.inr he.symm)
  have hr0 : right ≠ 0 := fun he => hright (he ▸ hs.root)
  have hl0 : left ≠ 0 := fun he => hleft (Or.inl (he ▸ hs.root))
  have hlabL : growLab lab H left right sep left = ⟨H, 0, sep⟩ := Function.update_self _ _ _
  have hlabR : growLab lab H left right sep right = ⟨H, sep, 4294967296⟩ := by
    rw [growLab, Function.update_of_ne hlr, Function.update_self]
  have hlab0 : growLab lab H left right sep 0 = ⟨H + 1, 0, 4294967296⟩ := by
    rw [growLab, Function.update_of_ne hl0.symm, Function.update_of_ne hr0.symm,
      Function.update_self]
  have hlabq : ∀ q, T q → q ≠ 0 → growLab lab H left right sep q = lab q := by
    intro q hq hq0
    have h1 : q ≠ left := fun he => hleft (Or.inl (he ▸ hq))
    have h2 : q ≠ right := fun he => hright (he ▸ hq)
    rw [growLab, Function.update_of_ne h1, Function.update_of_ne h2, Function.update_of_ne hq0]
  -- the old pages but the root are below the halves
  have hlvl : ∀ q, T q → q ≠ 0 → (lab q).lvl < H := fun q => hs.lvl_lt
  have hmono : ∀ p v L, L.lvl ≤ H → NodeOk Leaf T lab p v L →
      NodeOk Leaf (withPage (withPage T right) left) (growLab lab H left right sep) p v L := by
    intro p v L hL hv
    refine hv.mono (fun _ hc => hc) (fun l d a b hl' _ _ _ _ hT hlab => ⟨Or.inl (Or.inl hT), ?_⟩)
    have hd0 : d ≠ 0 := by
      rintro rfl
      have h1 := congrArg Label.lvl (hs.root_lab.symm.trans hlab)
      simp only at h1
      omega
    rw [hlabq d hT hd0, hlab]
  refine ⟨⟨Or.inl (Or.inl hs.root), hlab0, ?_, ?_, ?_, ?_⟩, ?_⟩
  · rintro p ((hp | rfl) | rfl)
    · by_cases hp0 : p = 0
      · subst hp0
        rw [hlab0]
        exact Nat.zero_lt_succ _
      · rw [hlabq p hp hp0]
        exact hs.lt p hp
    · rw [hlabR]
      exact hhi
    · rw [hlabL]
      exact hlo
  · rintro p ((hp | rfl) | rfl)
    · by_cases hp0 : p = 0
      · subst hp0
        rw [hlab0]
      · rw [hlabq p hp hp0]
        exact hs.hi_le p hp
    · rw [hlabR]
    · rw [hlabL]
      exact hhi.le
  · rintro p ((hp | rfl) | rfl)
    · by_cases hp0 : p = 0
      · subst hp0
        rw [hlab0]
      · rw [hlabq p hp hp0]
        exact (hs.lvl_le p hp).trans (Nat.le_succ H)
    · rw [hlabR]
      exact Nat.le_succ H
    · rw [hlabL]
      exact Nat.le_succ H
  · -- the level of a page tells the root, the halves and the rest apart
    have hcase : ∀ q, withPage (withPage T right) left q →
        (q = 0 ∧ growLab lab H left right sep q = ⟨H + 1, 0, 4294967296⟩) ∨
        (q = right ∧ growLab lab H left right sep q = ⟨H, sep, 4294967296⟩) ∨
        (q = left ∧ growLab lab H left right sep q = ⟨H, 0, sep⟩) ∨
        (T q ∧ growLab lab H left right sep q = lab q ∧ (lab q).lvl < H) := by
      rintro q ((hq | rfl) | rfl)
      · by_cases hq0 : q = 0
        · subst hq0
          exact Or.inl ⟨rfl, hlab0⟩
        · exact Or.inr (Or.inr (Or.inr ⟨hq, hlabq q hq hq0, hlvl q hq hq0⟩))
      · exact Or.inr (Or.inl ⟨rfl, hlabR⟩)
      · exact Or.inr (Or.inr (Or.inl ⟨rfl, hlabL⟩))
    intro p q hp hq hpq hpl
    rcases hcase p hp with ⟨ip, ep⟩ | ⟨ip, ep⟩ | ⟨ip, ep⟩ | ⟨tp, ep, lp⟩ <;>
      rcases hcase q hq with ⟨iq, eq⟩ | ⟨iq, eq⟩ | ⟨iq, eq⟩ | ⟨tq, eq, lq⟩ <;>
      rw [ep, eq] at hpl ⊢
    case inr.inr.inr.inr.inr.inr => exact hs.apart p q tp tq hpq hpl
    all_goals
      first
        | exact absurd (ip.trans iq.symm) hpq
        | (simp only at hpl ⊢; omega)
  · rintro p ((hp | rfl) | rfl)
    · by_cases hp0 : p = 0
      · subst hp0
        rw [hlab0]
        refine ⟨hroot, ?_, fun h0 => absurd rfl h0, fun h0 => absurd h0 (Nat.succ_ne_zero H),
          fun l hl' => ⟨htype, ?_⟩⟩
        · have hn := congrArg List.length hkeys
          rw [NodeView.length_keys] at hn
          simp only [List.length_singleton] at hn
          omega
        · obtain rfl : H = l := Nat.succ.inj hl'
          rw [hkeys, hchildren]
          exact .cons hlo ⟨Or.inr rfl, hlabL⟩ (.last hhi ⟨Or.inl (Or.inr rfl), hlabR⟩)
      · rw [hlabq p hp hp0]
        exact hmono p _ _ (hs.lvl_le p hp) (hrest p hp hp0)
    · rw [hlabR]
      exact hmono p _ _ le_rfl hr
    · rw [hlabL]
      exact hmono p _ _ le_rfl hl

/-! ## Paths -/

/-- **The recorded ancestors are the path** from the root to the page
`c`. -/
def Path (T : ℕ → Prop) (lab : ℕ → Label) (pages : ℕ → Page) : Ancestors → ℕ → Prop
  | [], c => c = 0
  | (parent, slot) :: ancestors, c =>
    SplitTree.Parent T lab pages c parent slot ∧ Path T lab pages ancestors parent

/-- A path is kept by a change below it. -/
theorem Path.congr : ∀ {ancestors : Ancestors} {c : ℕ}, Path T lab pages ancestors c →
    (lab' c).lvl = (lab c).lvl →
    (∀ q, T q → (lab c).lvl < (lab q).lvl →
      T' q ∧ (lab' q).lvl = (lab q).lvl ∧ pages' q = pages q) →
    Path T' lab' pages' ancestors c
  | [], _, h, _, _ => h
  | (parent, slot) :: ancestors, c, ⟨hP, hrest⟩, hc, hkeep => by
    have hlvl := hP.lvl
    obtain ⟨h1, h2, h3⟩ := hkeep parent hP.mem (by omega)
    refine ⟨⟨h1, by rw [h2, hc, hlvl], ?_⟩, hrest.congr h2 (fun q hq hlt => hkeep q hq (by omega))⟩
    rw [h3]
    exact hP.child

/-- The path is as long as the page is deep. -/
theorem Path.length_eq (hroot : (lab 0).lvl = H) : ∀ {ancestors : Ancestors} {c : ℕ},
    Path T lab pages ancestors c → (lab c).lvl + ancestors.length = H
  | [], c, h => by
    rw [show c = 0 from h]
    exact hroot
  | (parent, slot) :: ancestors, c, ⟨hP, hrest⟩ => by
    have h1 := hrest.length_eq hroot
    have h2 := hP.lvl
    rw [List.length_cons]
    omega

end BTree
