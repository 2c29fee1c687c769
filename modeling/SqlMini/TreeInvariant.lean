import SqlMini.TreeRuns

/-!
# The representation invariant of the B-tree

The invariant the labels of `SqlMini.TreeShape` carry is stated here without
them, on the pages a walk from page `0` reaches (`IsBTree`): they form a tree
of uniform depth, ordered, with nodes at least half full, and each key
inserted is in one leaf, the one a search for it ends in. Every run of
insertions of distinct keys and removals on a new tree leaves the pages so
(`runs_isBTree`) – the page counter does not come near its end.
-/

namespace BTree

open PageProg

variable {Leaf : LeafSpec} {m : ℕ → Option ℕ} {T : ℕ → Prop} {lab : ℕ → Label} {H base : ℕ}
  {pages : ℕ → Page} {s : Store} {p q : ℕ} {π π' : List ℕ}

/-! ## Walks -/

/-- The page a walk leads to: at each inner node to the child at the given
slot. -/
def pageAt (pages : ℕ → Page) : ℕ → List ℕ → Option ℕ
  | p, [] => some p
  | p, i :: π =>
    if Node.getNodeType (pages p) = .internal then
      match (Node.view (pages p)).children[i]? with
      | some c => pageAt pages c π
      | none => none
    else none

/-- **The pages are a B-tree** that holds the keys `inserted`. -/
structure IsBTree (inserted : Fin uint32Size → Prop) (s : Store) : Prop where
  /-- A page is reached by one walk. -/
  once : ∀ π π' p, pageAt s.pages 0 π = some p → pageAt s.pages 0 π' = some p → π = π'
  /-- All leaves are at one depth. -/
  depth : ∃ H, ∀ π p, pageAt s.pages 0 π = some p →
    (Node.getNodeType (s.pages p) = .leaf ↔ π.length = H)
  /-- The keys of a node increase. -/
  sorted : ∀ π p, pageAt s.pages 0 π = some p → (Node.view (s.pages p)).keys.Pairwise (· < ·)
  /-- The keys under the child left of a key are smaller. -/
  below : ∀ π p i k π' q x, pageAt s.pages 0 π = some p →
    (Node.view (s.pages p)).keys[i]? = some k →
    pageAt s.pages 0 (π ++ i :: π') = some q → x ∈ (Node.view (s.pages q)).keys → x < k
  /-- Those under the child right of it are not. -/
  above : ∀ π p i k π' q x, pageAt s.pages 0 π = some p →
    (Node.view (s.pages p)).keys[i]? = some k →
    pageAt s.pages 0 (π ++ (i + 1) :: π') = some q → x ∈ (Node.view (s.pages q)).keys → k ≤ x
  /-- No node is overfull. -/
  num_le : ∀ π p, pageAt s.pages 0 π = some p → Node.getNumCells (s.pages p) ≤ Node.maxCells
  /-- A node other than the root is half full. -/
  half : ∀ π p, pageAt s.pages 0 π = some p → p ≠ 0 → 255 ≤ Node.getNumCells (s.pages p)
  /-- Page `0` alone has the root flag. -/
  root : ∀ p, Node.isRoot (s.pages p) = decide (p = 0)
  /-- A search for any key ends. -/
  finds : ∀ k : Fin uint32Size, Runs (find k) s (fun _ _ => True)
  /-- The descent for a key inserted ends in the one leaf that holds it. -/
  holds : ∀ k : Fin uint32Size, inserted k →
    Runs (do
        let root ← Pool.getPage rootPageId
        let r ← descend k uint32Size rootPageId root []
        return r.1) s
      (fun p _ => (∃ π, pageAt s.pages 0 π = some p) ∧ Node.getNodeType (s.pages p) = .leaf
        ∧ k.val ∈ (Node.view (s.pages p)).keys
        ∧ ∀ π q, pageAt s.pages 0 π = some q → Node.getNodeType (s.pages q) = .leaf →
          k.val ∈ (Node.view (s.pages q)).keys → q = p)

/-- The first step of a walk. -/
theorem pageAt_cons_eq_some {i : ℕ} : pageAt pages p (i :: π) = some q ↔
    Node.getNodeType (pages p) = .internal
      ∧ ∃ c, (Node.view (pages p)).children[i]? = some c ∧ pageAt pages c π = some q := by
  rw [pageAt]
  by_cases ht : Node.getNodeType (pages p) = .internal
  · rw [if_pos ht]
    cases (Node.view (pages p)).children[i]? with
    | none => simp
    | some c => simp [ht]
  · rw [if_neg ht]
    simp [ht]

/-- A walk in two parts. -/
theorem pageAt_append_eq_some : ∀ (π π' : List ℕ) (p : ℕ), pageAt pages p (π ++ π') = some q ↔
    ∃ c, pageAt pages p π = some c ∧ pageAt pages c π' = some q
  | [], π', p => by simp [pageAt]
  | i :: π, π', p => by
    rw [List.cons_append, pageAt_cons_eq_some]
    simp only [pageAt_cons_eq_some, pageAt_append_eq_some π π']
    constructor
    · rintro ⟨ht, c, hc, d, hd, hq⟩
      exact ⟨d, ⟨ht, c, hc, hd⟩, hq⟩
    · rintro ⟨d, ⟨ht, c, hc, hd⟩, hq⟩
      exact ⟨ht, c, hc, d, hd, hq⟩

namespace Tree

/-- An inner node is above its children. -/
theorem lvl_of_internal (h : Tree Leaf T lab H pages) (hp : T p)
    (ht : Node.getNodeType (pages p) = .internal) : ∃ l, (lab p).lvl = l + 1 :=
  (h.node p hp).type_eq.mp ht

/-- A leaf is at level `0`. -/
theorem type_leaf_iff (h : Tree Leaf T lab H pages) (hp : T p) :
    Node.getNodeType (pages p) = .leaf ↔ (lab p).lvl = 0 := by
  constructor
  · intro ht
    by_contra hne
    have hi := (h.node p hp).type_eq.mpr ⟨_, (Nat.succ_pred_eq_of_ne_zero hne).symm⟩
    exact NodeType.noConfusion (hi.symm.trans ht)
  · exact fun h0 => ((h.node p hp).leaf h0).1

/-- **Where a walk leads**: to a page of the tree as far down as the walk is
long, and into the range it started in. -/
theorem walk (h : Tree Leaf T lab H pages) : ∀ (π : List ℕ) (p : ℕ), T p →
    pageAt pages p π = some q → T q ∧ (lab q).lvl + π.length = (lab p).lvl
      ∧ (lab p).lo ≤ (lab q).lo ∧ (lab q).hi ≤ (lab p).hi
  | [], p, hp, hq => by
    obtain rfl : p = q := Option.some.inj hq
    exact ⟨hp, rfl, le_rfl, le_rfl⟩
  | i :: π, p, hp, hq => by
    obtain ⟨ht, c, hc, hcq⟩ := pageAt_cons_eq_some.mp hq
    obtain ⟨l, hl⟩ := h.lvl_of_internal hp ht
    obtain ⟨hcT, hcl, hclo, hchi⟩ := (h.node p hp).child hl (List.mem_of_getElem? hc)
    obtain ⟨h1, h2, h3, h4⟩ := h.walk π c hcT hcq
    rw [List.length_cons]
    exact ⟨h1, by omega, hclo.trans h3, h4.trans hchi⟩

/-- The slot of a child is told by the child. -/
theorem slot_unique (h : Tree Leaf T lab H pages) (hp : T p) {l i j c : ℕ}
    (hl : (lab p).lvl = l + 1) (hi : (Node.view (pages p)).children[i]? = some c)
    (hj : (Node.view (pages p)).children[j]? = some c) : i = j := by
  have hf := ((h.node p hp).inner l hl).2
  have hx : ∀ a b, Covers T lab l a b c → a ≤ (lab c).lo ∧ (lab c).lo < b := by
    rintro a b ⟨hT, hlab⟩
    have hlt := h.shape.lt c hT
    rw [hlab] at hlt ⊢
    exact ⟨le_rfl, hlt⟩
  exact (hf.findIdx_eq hi hx).symm.trans (hf.findIdx_eq hj hx)

/-- **A page is reached by one walk.** -/
theorem walk_unique (h : Tree Leaf T lab H pages) : ∀ (π π' : List ℕ) (p : ℕ), T p →
    pageAt pages p π = some q → pageAt pages p π' = some q → π = π'
  | [], [], _, _, _, _ => rfl
  | [], j :: π', p, hp, hq, hq' => by
    have h1 := (h.walk [] p hp hq).2.1
    have h2 := (h.walk (j :: π') p hp hq').2.1
    simp only [List.length_nil, List.length_cons] at h1 h2
    omega
  | i :: π, [], p, hp, hq, hq' => by
    have h1 := (h.walk (i :: π) p hp hq).2.1
    have h2 := (h.walk [] p hp hq').2.1
    simp only [List.length_nil, List.length_cons] at h1 h2
    omega
  | i :: π, j :: π', p, hp, hq, hq' => by
    obtain ⟨ht, c, hc, hcq⟩ := pageAt_cons_eq_some.mp hq
    obtain ⟨-, d, hd, hdq⟩ := pageAt_cons_eq_some.mp hq'
    obtain ⟨l, hl⟩ := h.lvl_of_internal hp ht
    obtain ⟨hcT, hcl, -, -⟩ := (h.node p hp).child hl (List.mem_of_getElem? hc)
    obtain ⟨hdT, hdl, -, -⟩ := (h.node p hp).child hl (List.mem_of_getElem? hd)
    obtain ⟨hqT, -, h1, h2⟩ := h.walk π c hcT hcq
    obtain ⟨-, -, h3, h4⟩ := h.walk π' d hdT hdq
    -- the ranges of the two children meet in that of the page
    obtain rfl := h.shape.parent_unique hcT hdT (hcl.trans hdl.symm) (h.shape.lt q hqT) h1 h2 h3 h4
    rw [h.slot_unique hp hl hc hd, h.walk_unique π π' c hcT hcq hdq]

/-- The path a descent records is a walk. -/
theorem walk_of_path (h : Tree Leaf T lab H pages) : ∀ (ancestors : Ancestors) (c : ℕ),
    Path T lab pages ancestors c → pageAt pages 0 (ancestors.map Prod.snd).reverse = some c
  | [], c, hc => congrArg some (show 0 = c from (show c = 0 from hc).symm)
  | (parent, slot) :: ancestors, c, ⟨hP, hrest⟩ => by
    rw [List.map_cons, List.reverse_cons, pageAt_append_eq_some]
    refine ⟨parent, h.walk_of_path ancestors parent hrest, pageAt_cons_eq_some.mpr
      ⟨(h.node parent hP.mem).type_eq.mpr ⟨_, hP.lvl⟩, c, hP.child, rfl⟩⟩

/-- **The keys of a node** increase and are in its range. -/
theorem keys_sorted (h : Tree (LeafMap m) T lab H pages) (hp : T p) :
    (Node.view (pages p)).keys.Pairwise (· < ·)
      ∧ ∀ k ∈ (Node.view (pages p)).keys, (lab p).lo ≤ k ∧ k < (lab p).hi := by
  have hn := h.node p hp
  rcases Nat.eq_zero_or_eq_succ_pred (lab p).lvl with h0 | hs
  · have hl : RangeMap m (lab p).lo (lab p).hi (Node.view (pages p)).cells := (hn.leaf h0).2
    refine ⟨List.pairwise_map.mpr hl.sorted, fun k hk => ?_⟩
    obtain ⟨c, hc, rfl⟩ := List.mem_map.mp hk
    exact ⟨(hl.of_mem hc).1, (hl.of_mem hc).2.1⟩
  · obtain ⟨hsort, hin⟩ := (hn.inner _ hs).2.keys_sorted
    exact ⟨hsort, fun k hk => ⟨(hin k hk).1.le, (hin k hk).2⟩⟩

/-- A key bound by the map is in the leaf of its range. -/
theorem key_mem_leaf (h : Tree (LeafMap m) T lab H pages) (hp : T p) (hl : (lab p).lvl = 0) {k : ℕ}
    (hlo : (lab p).lo ≤ k) (hhi : k < (lab p).hi) (hk : m k ≠ none) :
    k ∈ (Node.view (pages p)).keys := by
  obtain ⟨c, hc, hck⟩ := (RangeMap.key_mem_iff ((h.node p hp).leaf hl).2 hlo hhi).mpr hk
  exact List.mem_map.mpr ⟨c, hc, hck⟩

end Tree

/-! ## The invariant -/

/-- **A tree in the sense of its labels is one in the sense of walks.** -/
theorem TreeState.isBTree {inserted : Fin uint32Size → Prop}
    (h : TreeState (LeafMap m) base lab H s)
    (hkeys : ∀ k : Fin uint32Size, inserted k → m k ≠ none)
    (hrest : ∀ p, ¬ Owned base s.nextPageId p → Node.isRoot (s.pages p) = false) :
    IsBTree inserted s := by
  have hroot := h.tree.shape.root
  have hlab := h.tree.shape.root_lab
  refine ⟨?_, ⟨H, ?_⟩, ?_, ?_, ?_, ?_, ?_, ?_, ?_, ?_⟩
  · exact fun π π' p hp hp' => h.tree.walk_unique π π' 0 hroot hp hp'
  · intro π p hp
    obtain ⟨hT, hl, -, -⟩ := h.tree.walk π 0 hroot hp
    rw [hlab] at hl
    simp only at hl
    rw [h.tree.type_leaf_iff hT]
    omega
  · exact fun π p hp => (h.tree.keys_sorted (h.tree.walk π 0 hroot hp).1).1
  · intro π p i k π' q x hp hk hq hx
    obtain ⟨p', hp', hq⟩ := (pageAt_append_eq_some π (i :: π') 0).mp hq
    obtain rfl := Option.some.inj (hp.symm.trans hp')
    obtain ⟨ht, c, hc, hq⟩ := pageAt_cons_eq_some.mp hq
    have hT := (h.tree.walk π 0 hroot hp).1
    obtain ⟨l, hl⟩ := h.tree.lvl_of_internal hT ht
    obtain ⟨a, ⟨hcT, hclab⟩, -, -⟩ := ((h.tree.node p hT).inner l hl).2.left_of_key hk hc
    obtain ⟨hqT, -, -, hhi⟩ := h.tree.walk π' c hcT hq
    rw [hclab] at hhi
    exact ((h.tree.keys_sorted hqT).2 x hx).2.trans_le hhi
  · intro π p i k π' q x hp hk hq hx
    obtain ⟨p', hp', hq⟩ := (pageAt_append_eq_some π ((i + 1) :: π') 0).mp hq
    obtain rfl := Option.some.inj (hp.symm.trans hp')
    obtain ⟨ht, c, hc, hq⟩ := pageAt_cons_eq_some.mp hq
    have hT := (h.tree.walk π 0 hroot hp).1
    obtain ⟨l, hl⟩ := h.tree.lvl_of_internal hT ht
    obtain ⟨b, ⟨hcT, hclab⟩, -, -⟩ := ((h.tree.node p hT).inner l hl).2.right_of_key hk hc
    obtain ⟨hqT, -, hlo, -⟩ := h.tree.walk π' c hcT hq
    rw [hclab] at hlo
    exact hlo.trans ((h.tree.keys_sorted hqT).2 x hx).1
  · exact fun π p hp => (h.tree.node p (h.tree.walk π 0 hroot hp).1).num_le
  · exact fun π p hp hp0 => (h.tree.node p (h.tree.walk π 0 hroot hp).1).half hp0
  · intro p
    by_cases hT : Owned base s.nextPageId p
    · exact (h.tree.node p hT).root
    · have hp0 : p ≠ 0 := fun he => hT (Or.inl he)
      rw [hrest p hT, decide_eq_false hp0]
  · exact fun k => (runs_find (leafMap_sound m) h k.isLt).mono (fun _ _ _ => trivial)
  · intro k hk
    refine h.runs_search (leafMap_sound m) k.isLt (fun r c hr => (runs_pure r.1).mpr ?_)
    have hmem := h.tree.key_mem_leaf hr.mem hr.lvl hr.lo hr.hi (hkeys k hk)
    refine ⟨⟨_, h.tree.walk_of_path r.2.2 r.1 hr.path⟩, (h.tree.type_leaf_iff hr.mem).mpr hr.lvl,
      hmem, fun π q hq hleaf hkq => ?_⟩
    have hqT := (h.tree.walk π 0 hroot hq).1
    have hql := (h.tree.type_leaf_iff hqT).mp hleaf
    obtain ⟨h1, h2⟩ := (h.tree.keys_sorted hqT).2 _ hkq
    by_contra hne
    have hap := h.tree.shape.apart q r.1 hqT hr.mem hne (hql.trans hr.lvl.symm)
    have h3 := hr.lo
    have h4 := hr.hi
    omega

/-- **The keys of the map** after a run. -/
theorem runs_execAll_keys : ∀ (ops : List MapOp) (m : ℕ → Option ℕ) (s : Store), HoldsMap m base s →
    RoomAlong ops s →
    Runs (execAll ops) s (fun _ s' => Store.Within .btree (Owned base s'.nextPageId) s s' ∧
      s.nextPageId ≤ s'.nextPageId ∧ ∃ m', HoldsMap m' base s' ∧
        ∀ j : Fin uint32Size, m' j ≠ none ↔ m j ≠ none ∨ j ∈ inserted ops)
  | [], m, s, h, _ => (runs_pure _).mpr ⟨.refl _ _ s, le_rfl, m, h, by simp [inserted]⟩
  | op :: ops, m, s, h, hroom => by
    obtain ⟨r, s₁, hrun, hw₁, hle₁, m₁, h₁, hk₁⟩ := runs_exec_keys h hroom.1
    obtain ⟨rs, s₂, hrun', hw₂, hle₂, m₂, h₂, hk₂⟩ := runs_execAll_keys ops m₁ s₁ h₁
      (hroom.2 r s₁ hrun)
    rw [execAll, runs_bind]
    refine ⟨r, s₁, hrun, runs_bind.mpr ⟨rs, s₂, hrun', (runs_pure _).mpr ⟨?_, hle₁.trans hle₂, m₂,
      h₂, fun j => ?_⟩⟩⟩
    · exact (hw₁.mono (fun _ hp => hp.mono hle₂)).trans hw₂
    · rw [hk₂, hk₁, show inserted (op :: ops) = inserted [op] ++ inserted ops from
        List.filterMap_append (l := [op]), List.mem_append, or_assoc]

/-- **The representation invariant** holds after every run of insertions of
distinct keys and removals on a new tree, and every operation of the run
returns. -/
theorem runs_isBTree (ops : List MapOp) (hnd : (inserted ops).Nodup) :
    Runs (do construct true; execAll ops) .empty (fun _ s => IsBTree (· ∈ inserted ops) s) := by
  rw [runs_bind]
  refine ⟨(), newStore, run_construct, ?_⟩
  have hroom := roomAlong_of_nodup ops _ newStore holdsMap_newStore hnd (fun _ _ => rfl)
  refine (runs_execAll_keys ops _ newStore holdsMap_newStore hroom).mono ?_
  rintro _ s ⟨hw, -, m, ⟨lab, H, h⟩, hkeys⟩
  refine h.isBTree (fun k hk => (hkeys k).mpr (Or.inr hk)) (fun p hp => ?_)
  -- a page that is not the tree's was never written
  have hp0 : p ≠ 0 := fun he => hp (Or.inl he)
  have hzero : newStore.pages p = Buffer.zero pageSize := Function.update_of_ne hp0 _ _
  rw [hw.frame p hp, hzero]
  simp [Node.isRoot]

/-- A run of two insertions and a removal. -/
theorem runs_isBTree_three : Runs (do construct true; execAll [.insert 5 7, .remove 5, .insert 3 1])
    .empty (fun _ s => IsBTree (· ∈ inserted [.insert 5 7, .remove 5, .insert 3 1]) s) :=
  runs_isBTree _ (by decide)

end BTree
