import SqlMini.TreeInvariant

/-!
# The chain of the leaves

From the leftmost leaf, which the first children lead to, the links visit
every leaf once and in the order of the keys, and end there
(`runs_leafChain`). Nothing in the class follows them yet.

The links are right in terms of the labels (`Linked`), so the chain from a
leaf goes through the leaves from its range on, by induction on how much is
left of the keys (`TreeState.exists_chainFrom`).
-/

namespace BTree

open PageProg

variable {Leaf : LeafSpec} {m : ℕ → Option ℕ} {T : ℕ → Prop} {lab : ℕ → Label} {H base : ℕ}
  {pages : ℕ → Page} {s : Store} {p q : ℕ}

/-- **Following the links** from a leaf until there is none. -/
inductive ChainFrom (pages : ℕ → Page) : ℕ → List ℕ → Prop
  | last {p : ℕ} (h : Node.getNextLeafId (pages p) = Node.invalidPageId) : ChainFrom pages p [p]
  | link {p : ℕ} {chain : List ℕ} (h : Node.getNextLeafId (pages p) ≠ Node.invalidPageId)
      (hrest : ChainFrom pages (Node.getNextLeafId (pages p)) chain) :
      ChainFrom pages p (p :: chain)

/-- **The leaves are one chain** that holds the keys `inserted`. -/
structure IsLeafChain (inserted : Fin uint32Size → Prop) (s : Store) (first : ℕ)
    (chain : List ℕ) : Prop where
  /-- The chain starts at the leftmost leaf. -/
  leftmost : ∃ n, pageAt s.pages 0 (List.replicate n 0) = some first
  leftmost_leaf : Node.getNodeType (s.pages first) = .leaf
  /-- It follows the links to the end. -/
  links : ChainFrom s.pages first chain
  /-- It visits no page twice. -/
  nodup : chain.Nodup
  /-- It visits the leaves of the tree. -/
  leaves : ∀ p, p ∈ chain
    ↔ Node.getNodeType (s.pages p) = .leaf ∧ ∃ π, pageAt s.pages 0 π = some p
  /-- The keys on the way increase. -/
  sorted : (chain.flatMap (fun p => (Node.view (s.pages p)).keys)).Pairwise (· < ·)
  /-- They are the keys inserted. -/
  keys : ∀ k, k ∈ chain.flatMap (fun p => (Node.view (s.pages p)).keys)
    ↔ ∃ j : Fin uint32Size, j.val = k ∧ inserted j

/-! ## The leftmost leaf -/

/-- **The first children lead to a leaf** that begins where the walk did. -/
theorem Tree.leftmost (h : Tree Leaf T lab H pages) : ∀ (l p : ℕ), T p → (lab p).lvl = l →
    ∃ q, pageAt pages p (List.replicate l 0) = some q ∧ T q ∧ (lab q).lvl = 0
      ∧ (lab q).lo = (lab p).lo
  | 0, p, hp, hl => ⟨p, rfl, hp, hl, rfl⟩
  | l + 1, p, hp, hl => by
    obtain ⟨htype, hfans⟩ := (h.node p hp).inner l hl
    obtain ⟨c, b, hc, hcT, hclab⟩ := hfans.head
    obtain ⟨q, hq, hqT, hql, hqlo⟩ := h.leftmost l c hcT (by rw [hclab])
    refine ⟨q, pageAt_cons_eq_some.mpr ⟨htype, c, hc, hq⟩, hqT, hql, ?_⟩
    rw [hqlo, hclab]

/-! ## The chain from a leaf -/

/-- The keys of a leaf. -/
theorem Tree.mem_keys_leaf (h : Tree (LeafMap m) T lab H pages) (hp : T p) (hl : (lab p).lvl = 0)
    {k : ℕ} : k ∈ (Node.view (pages p)).keys ↔ (lab p).lo ≤ k ∧ k < (lab p).hi ∧ m k ≠ none := by
  constructor
  · intro hk
    obtain ⟨h1, h2⟩ := (h.keys_sorted hp).2 k hk
    obtain ⟨c, hc, rfl⟩ := List.mem_map.mp hk
    exact ⟨h1, h2, (RangeMap.key_mem_iff ((h.node p hp).leaf hl).2 h1 h2).mp ⟨c, hc, rfl⟩⟩
  · rintro ⟨h1, h2, hk⟩
    exact h.key_mem_leaf hp hl h1 h2 hk

/-- **The chain from a leaf** goes through the leaves from its range on. -/
theorem TreeState.exists_chainFrom (h : TreeState (LeafMap m) base lab H s)
    (hlinks : Linked (Owned base s.nextPageId) lab s.pages) : ∀ (n p : ℕ),
    Owned base s.nextPageId p → (lab p).lvl = 0 → 4294967296 - (lab p).lo ≤ n →
    ∃ chain, ChainFrom s.pages p chain ∧ chain.Nodup
      ∧ (∀ q, q ∈ chain ↔ Owned base s.nextPageId q ∧ (lab q).lvl = 0 ∧ (lab p).lo ≤ (lab q).lo)
      ∧ (chain.flatMap (fun p => (Node.view (s.pages p)).keys)).Pairwise (· < ·)
      ∧ ∀ k, k ∈ chain.flatMap (fun p => (Node.view (s.pages p)).keys)
        ↔ (lab p).lo ≤ k ∧ k < 4294967296 ∧ m k ≠ none
  | 0, p, hp, hl, hn => by
    have hlt := h.tree.shape.lt p hp
    have hle := h.tree.shape.hi_le p hp
    omega
  | n + 1, p, hp, hl, hn => by
    have hlt := h.tree.shape.lt p hp
    have hkeys : ∀ k, k ∈ (Node.view (s.pages p)).keys
        ↔ (lab p).lo ≤ k ∧ k < (lab p).hi ∧ m k ≠ none := fun k => h.tree.mem_keys_leaf hp hl
    have hsort := (h.tree.keys_sorted hp).1
    -- another leaf from there on begins behind the range
    have hbehind : ∀ q, Owned base s.nextPageId q → (lab q).lvl = 0 → q ≠ p →
        (lab p).lo ≤ (lab q).lo → (lab p).hi ≤ (lab q).lo := by
      intro q hq hql hqp hlo
      have hap := h.tree.shape.apart q p hq hp hqp (hql.trans hl.symm)
      have hlt' := h.tree.shape.lt q hq
      omega
    rcases hlinks p hp hl with ⟨hhi, hlink⟩ | ⟨hT, hql, hqlo⟩
    · refine ⟨[p], .last hlink, List.nodup_singleton p, fun q => ?_, ?_, fun k => ?_⟩
      · rw [List.mem_singleton]
        constructor
        · rintro rfl
          exact ⟨hp, hl, le_rfl⟩
        · rintro ⟨hq, hql, hlo⟩
          by_contra hne
          have h1 := hbehind q hq hql hne hlo
          have h2 := h.tree.shape.lt q hq
          have h3 := h.tree.shape.hi_le q hq
          omega
      · rwa [List.flatMap_singleton]
      · rw [List.flatMap_singleton, hkeys, hhi]
    · set link := (Node.view (s.pages p)).link with hlink
      obtain ⟨chain, hchain, hnd, hmem, hsort', hkeys'⟩ :=
        h.exists_chainFrom hlinks n link hT hql (by omega)
      have hvalid : link ≠ Node.invalidPageId := by
        have h1 := h.lt_next hT
        have h2 := h.next_small (leafMap_sound m)
        unfold Node.invalidPageId
        omega
      refine ⟨p :: chain, .link hvalid hchain, List.nodup_cons.mpr ⟨fun hpc => ?_, hnd⟩,
        fun q => ?_, ?_, fun k => ?_⟩
      · have := ((hmem p).mp hpc).2.2
        omega
      · rw [List.mem_cons, hmem, hqlo]
        constructor
        · rintro (rfl | ⟨hq, hql, hlo⟩)
          · exact ⟨hp, hl, le_rfl⟩
          · exact ⟨hq, hql, hlt.le.trans hlo⟩
        · rintro ⟨hq, hql, hlo⟩
          by_cases hqp : q = p
          · exact Or.inl hqp
          · exact Or.inr ⟨hq, hql, hbehind q hq hql hqp hlo⟩
      · rw [List.flatMap_cons, List.pairwise_append]
        refine ⟨hsort, hsort', fun a ha b hb => ?_⟩
        have h1 := ((hkeys a).mp ha).2.1
        have h2 := ((hkeys' b).mp hb).1
        omega
      · rw [List.flatMap_cons, List.mem_append, hkeys, hkeys', hqlo]
        have hle := h.tree.shape.hi_le p hp
        constructor
        · rintro (⟨h1, h2, h3⟩ | ⟨h1, h2, h3⟩)
          · exact ⟨h1, by omega, h3⟩
          · exact ⟨by omega, h2, h3⟩
        · rintro ⟨h1, h2, h3⟩
          by_cases hk : k < (lab p).hi
          · exact Or.inl ⟨h1, hk, h3⟩
          · exact Or.inr ⟨not_lt.mp hk, h2, h3⟩

/-- A leaf is at the end of a walk. -/
theorem TreeState.exists_walk (hL : Leaf.Sound) (h : TreeState Leaf base lab H s)
    (hp : Owned base s.nextPageId p) (hl : (lab p).lvl = 0) :
    ∃ π, pageAt s.pages 0 π = some p := by
  have hlt := h.tree.shape.lt p hp
  have hle := h.tree.shape.hi_le p hp
  have hrun : Runs (do
      let root ← Pool.getPage rootPageId
      let r ← descend (lab p).lo uint32Size rootPageId root []
      return r.1) s (fun q _ => q = p ∧ ∃ π, pageAt s.pages 0 π = some q) := by
    refine h.runs_search hL (show (lab p).lo < 4294967296 by omega)
      (fun r c hr => (runs_pure r.1).mpr ⟨?_, _, h.tree.walk_of_path r.2.2 r.1 hr.path⟩)
    by_contra hne
    have hap := h.tree.shape.apart r.1 p hr.mem hp hne (hr.lvl.trans hl.symm)
    have h1 := hr.lo
    have h2 := hr.hi
    omega
  obtain ⟨q, -, -, rfl, hπ⟩ := hrun
  exact hπ

/-- **Linked leaves are one chain.** -/
theorem TreeState.isLeafChain {inserted : Fin uint32Size → Prop}
    (h : TreeState (LeafMap m) base lab H s)
    (hlinks : Linked (Owned base s.nextPageId) lab s.pages)
    (hkeys : ∀ j : Fin uint32Size, m j ≠ none ↔ inserted j) :
    ∃ first chain, IsLeafChain inserted s first chain := by
  have hlab := h.tree.shape.root_lab
  obtain ⟨first, hfirst, hT, hl, hlo⟩ := h.tree.leftmost H 0 h.tree.shape.root (by rw [hlab])
  rw [hlab] at hlo
  obtain ⟨chain, hchain, hnd, hmem, hsort, hk⟩ := h.exists_chainFrom hlinks _ first hT hl le_rfl
  rw [hlo] at hmem hk
  refine ⟨first, chain, ⟨H, hfirst⟩, (h.tree.type_leaf_iff hT).mpr hl, hchain, hnd, fun p => ?_,
    hsort, fun k => ?_⟩
  · rw [hmem]
    constructor
    · rintro ⟨hp, hpl, -⟩
      exact ⟨(h.tree.type_leaf_iff hp).mpr hpl, h.exists_walk (leafMap_sound m) hp hpl⟩
    · rintro ⟨htype, π, hπ⟩
      have hp := (h.tree.walk π 0 h.tree.shape.root hπ).1
      exact ⟨hp, (h.tree.type_leaf_iff hp).mp htype, Nat.zero_le _⟩
  · rw [hk]
    constructor
    · rintro ⟨-, hlt, hm⟩
      exact ⟨⟨k, hlt⟩, rfl, (hkeys ⟨k, hlt⟩).mp hm⟩
    · rintro ⟨j, rfl, hj⟩
      exact ⟨Nat.zero_le _, j.isLt, (hkeys j).mpr hj⟩

/-! ## Runs -/

/-- **A pool holds a tree with linked leaves** and the bindings of `m`. -/
def HoldsChain (m : ℕ → Option ℕ) (base : ℕ) (s : Store) : Prop :=
  ∃ lab H, TreeState (LeafMap m) base lab H s ∧ Linked (Owned base s.nextPageId) lab s.pages

/-- **One operation** keeps the leaves linked. -/
theorem HoldsChain.runs_exec {op : MapOp} (h : HoldsChain m base s)
    (hnew : ∀ k v, op = .insert k v → m k = none) :
    Runs op.exec s (fun _ s' => ∃ m', HoldsChain m' base s'
      ∧ ∀ j : Fin uint32Size, m' j ≠ none ↔ m j ≠ none ∨ j ∈ inserted [op]) := by
  obtain ⟨lab, H, hT, hlinks⟩ := h
  have hgrown : ∀ {m' : ℕ → Option ℕ} {s' : Store}, Grown (LeafMap m') base lab s s' →
      HoldsChain m' base s' := by
    rintro m' s' ⟨⟨lab', H', hT', hl⟩, -, -⟩
    exact ⟨lab', H', hT', hl hlinks⟩
  cases op with
  | insert k v =>
    simp only [MapOp.exec, runs_bind]
    refine (hT.runs_insert (leafMap_sound m) (leafStep_fresh (hnew k v rfl) v.val) k.isLt
      v.isLt).mono (fun _ s' hg => ?_)
    rw [runs_pure]
    refine ⟨_, hgrown hg, fun j => ?_⟩
    by_cases hj : j = k
    · subst hj
      simp [inserted]
    · rw [Function.update_of_ne (fun he => hj (Fin.ext he))]
      simp [inserted, hj]
  | remove k =>
    simp only [MapOp.exec, runs_bind]
    refine (hT.runs_remove (leafMap_sound m) (leafBury_remove m k) k.isLt).mono
      (fun r s' hr => ?_)
    rw [runs_pure]
    obtain ⟨p, idx, hreach, hr⟩ := hr
    rcases hr with ⟨-, ⟨c, rfl⟩, -⟩ | ⟨-, hg, v, hcell, -⟩
    · exact ⟨m, ⟨lab, H, hT.atClock c, hlinks⟩, by simp [inserted]⟩
    · refine ⟨_, hgrown hg, fun j => ?_⟩
      have hm := LeafMap.lookup ((hT.tree.node p hreach.mem).leaf hreach.lvl).2 hreach.found
        hreach.lo hreach.hi
      rw [hcell] at hm
      by_cases hj : j = k
      · subst hj
        simp [inserted, ← hm]
      · rw [Function.update_of_ne (fun he => hj (Fin.ext he))]
        simp [inserted]

/-- **A run of operations** keeps the leaves linked. -/
theorem HoldsChain.runs_execAll : ∀ (ops : List MapOp) (m : ℕ → Option ℕ) (s : Store),
    HoldsChain m base s → (inserted ops).Nodup → (∀ k ∈ inserted ops, m k = none) →
    Runs (execAll ops) s (fun _ s' => ∃ m', HoldsChain m' base s'
      ∧ ∀ j : Fin uint32Size, m' j ≠ none ↔ m j ≠ none ∨ j ∈ inserted ops)
  | [], m, s, h, _, _ => (runs_pure _).mpr ⟨m, h, by simp [inserted]⟩
  | op :: ops, m, s, h, hnd, hnew => by
    have hcons : inserted (op :: ops) = inserted [op] ++ inserted ops :=
      List.filterMap_append (l := [op])
    rw [hcons] at hnd hnew
    obtain ⟨r, s₁, hrun, m₁, h₁, hk₁⟩ := h.runs_exec (fun k v (he : op = .insert k v) => by
      subst he
      exact hnew k (by simp [inserted]))
    obtain ⟨rs, s₂, hrun', m₂, h₂, hk₂⟩ := runs_execAll ops m₁ s₁ h₁
      (List.nodup_append.mp hnd).2.1 (fun k hk => by
        by_contra hne
        rcases (hk₁ k).mp hne with hm | hin
        · exact hm (hnew k (List.mem_append_right _ hk))
        · exact (List.nodup_append.mp hnd).2.2 k hin k hk rfl)
    rw [execAll, runs_bind]
    refine ⟨r, s₁, hrun, runs_bind.mpr ⟨rs, s₂, hrun', (runs_pure _).mpr ⟨m₂, h₂, fun j => ?_⟩⟩⟩
    rw [hk₂, hk₁, hcons, List.mem_append, or_assoc]

/-- A new tree is one leaf without a link. -/
theorem holdsChain_newStore : HoldsChain (fun _ => none) 1 newStore := by
  refine ⟨rootLab, 0, treeState_newStore RangeMap.nil, fun p hp _ => Or.inl ⟨rfl, ?_⟩⟩
  obtain rfl : p = 0 := by
    have h1 : newStore.nextPageId = 1 := rfl
    rw [h1] at hp
    unfold Owned at hp
    omega
  show (Node.view (Node.initializeAsLeaf true (Buffer.zero pageSize))).link = _
  rw [Node.view_initializeAsLeaf]
  rfl

/-- **The leaves are one chain** after every run of insertions of distinct
keys and removals on a new tree, and every operation of the run returns. -/
theorem runs_leafChain (ops : List MapOp) (hnd : (inserted ops).Nodup) :
    Runs (do construct true; execAll ops) .empty
      (fun _ s => ∃ first chain, IsLeafChain (· ∈ inserted ops) s first chain) := by
  rw [runs_bind]
  refine ⟨(), newStore, run_construct, ?_⟩
  refine (HoldsChain.runs_execAll ops _ newStore holdsChain_newStore hnd (fun _ _ => rfl)).mono ?_
  rintro _ s ⟨m, ⟨lab, H, hT, hlinks⟩, hkeys⟩
  exact hT.isLeafChain hlinks (fun j => (hkeys j).trans (by simp))

/-- Keys inserted out of order, and one removed again. -/
theorem runs_leafChain_three :
    Runs (do construct true; execAll [.insert 5 7, .remove 5, .insert 3 1]) .empty
      (fun _ s => ∃ first chain,
        IsLeafChain (· ∈ inserted [.insert 5 7, .remove 5, .insert 3 1]) s first chain) :=
  runs_leafChain _ (by decide)

end BTree
