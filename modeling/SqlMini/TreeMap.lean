import SqlMini.TreeInsert
import SqlMini.KeyedList

/-!
# The B-tree as a map

A tree whose leaves hold the bindings of one map, each those of its range
(`LeafMap`), stands for that map. `find` reads it, `remove` rebinds a key to
the tombstone, and `insert` binds a key – with one exception. A full leaf is
cut before it is looked at, so an insertion of a key that such a leaf holds
already puts a second cell for the key next to the first. `Room key` is the
absence of that case; under it the leaves are those of the map with the key
bound.

The three operations on a pool that holds such a tree are `HoldsMap.runs_find`,
`HoldsMap.runs_insert` and `HoldsMap.runs_remove`.
-/

namespace BTree

open PageProg

variable {m : ℕ → Option ℕ} {T : ℕ → Prop} {lab : ℕ → Label} {H base : ℕ} {s s' : Store}
  {key value idx lo hi : ℕ} {cs : List (ℕ × ℕ)}

/-! ## Leaves of a map -/

/-- **The leaves hold the bindings of `m`.** -/
def LeafMap (m : ℕ → Option ℕ) : LeafSpec := fun cs lo hi => RangeMap m lo hi cs

theorem leafMap_sound (m : ℕ → Option ℕ) : (LeafMap m).Sound where
  sorted h := RangeMap.sorted h |>.imp le_of_lt
  wide h hlen := by
    have hle := RangeMap.length_le h
    omega

/-- A list is cut at one of its elements. -/
theorem eq_take_cons_drop {α : Type} {l : List α} {i : ℕ} {a : α} (h : l[i]? = some a) :
    l = l.take i ++ a :: l.drop (i + 1) := by
  obtain ⟨hi, rfl⟩ := List.getElem?_eq_some_iff.mp h
  rw [← List.drop_eq_getElem_cons hi, List.take_append_drop]

/-- **What a search finds** in a leaf is what the map says. -/
theorem LeafMap.lookup (h : LeafMap m cs lo hi) (hf : FoundIn cs key idx) (hlo : lo ≤ key)
    (hhi : key < hi) : (cellFor cs key idx).map Prod.snd = m key := by
  rcases hf.hit with ⟨v, hv⟩ | hno
  · have hcell : cellFor cs key idx = some (key, v) := by simp [cellFor, hv]
    rw [hcell]
    exact (RangeMap.of_mem h (List.mem_of_getElem? hv)).2.2.symm
  · have hcell : cellFor cs key idx = none := by
      rw [cellFor, Option.filter_eq_none_iff]
      intro c hc
      simpa using hno c (List.mem_of_getElem? hc)
    have hm : ¬ m key ≠ none := by
      rw [← RangeMap.key_mem_iff h hlo hhi]
      rintro ⟨c, hc, hck⟩
      exact hno c hc hck
    rw [hcell, not_not.mp hm]
    rfl

/-- Rebinding a key in its leaf. -/
theorem LeafMap.set (h : LeafMap m cs lo hi) {v : ℕ} (hv : cs[idx]? = some (key, v)) (value : ℕ) :
    LeafMap (Function.update m key (some value)) (cs.set idx (key, value)) lo hi := by
  have hcs := eq_take_cons_drop hv
  have hlt := (List.getElem?_eq_some_iff.mp hv).1
  have hset : cs.set idx (key, value) = cs.take idx ++ (key, value) :: cs.drop (idx + 1) := by
    rw [List.set_eq_take_append_cons_drop, if_pos hlt]
  unfold LeafMap at h
  rw [hcs] at h
  rw [hset]
  exact h.replace value

/-- Binding a new key in its leaf. -/
theorem LeafMap.insertAt (h : LeafMap m cs lo hi) (hf : FoundIn cs key idx) (hlo : lo ≤ key)
    (hhi : key < hi) (hno : ∀ c ∈ cs, c.1 ≠ key) (value : ℕ) :
    LeafMap (Function.update m key (some value)) (insertAt cs idx (key, value)) lo hi := by
  have h' : RangeMap m lo hi (cs.take idx ++ cs.drop idx) := by
    rw [List.take_append_drop]
    exact h
  refine h'.insert hlo hhi (fun c hc => ?_) (fun c hc => ?_) value
  · exact lt_of_le_of_ne (hf.before c hc) (hno c (List.mem_of_mem_take hc))
  · exact lt_of_le_of_ne (hf.after c hc) (hno c (List.mem_of_mem_drop hc)).symm

/-- Cutting a leaf. -/
theorem LeafMap.cut (h : LeafMap m cs lo hi) {i : ℕ} (hi0 : 0 < i) (hi' : i < cs.length) :
    ∃ c, cs[i]? = some c ∧ lo < c.1 ∧ c.1 < hi ∧ LeafMap m (cs.take i) lo c.1
      ∧ LeafMap m (cs.drop i) c.1 hi := by
  have hc := List.getElem?_eq_getElem hi'
  have hcs := eq_take_cons_drop hc
  have hmem := (RangeMap.of_mem h (List.mem_of_getElem? hc)).2.1
  have hdrop : cs.drop i = cs[i] :: cs.drop (i + 1) := List.drop_eq_getElem_cons hi'
  have h' : RangeMap m lo hi (cs.take i ++ cs[i] :: cs.drop (i + 1)) := by
    rw [← hcs]
    exact h
  refine ⟨cs[i], hc, h'.lt_cut ?_, hmem, h'.cut.1, ?_⟩
  · rw [← List.length_pos_iff, List.length_take]
    omega
  · rw [hdrop]
    exact h'.cut.2

/-! ## The condition of an insertion -/

/-- The leaves hold the bindings of `m`, and a full leaf that `key` belongs
to does not hold it. -/
def LeafRoom (m : ℕ → Option ℕ) (key : ℕ) : LeafSpec := fun cs lo hi =>
  LeafMap m cs lo hi ∧ (lo ≤ key → key < hi → cs.length = 510 → m key = none)

theorem leafRoom_sound (m : ℕ → Option ℕ) (key : ℕ) : (LeafRoom m key).Sound where
  sorted h := (leafMap_sound m).sorted h.1
  wide h := (leafMap_sound m).wide h.1

/-- **An insertion binds its key**, in a leaf with room or a full one that
does not hold it. -/
theorem leafStep_insert (m : ℕ → Option ℕ) (key value : ℕ) :
    LeafStep (LeafRoom m key) (LeafMap (Function.update m key (some value))) key value where
  keep h hk := RangeMap.update_of_not_mem h.1 hk _
  replace h _ _ _ _ hv := h.1.set hv.choose_spec value
  insert h hlo hhi _ hf hno := h.1.insertAt hf hlo hhi hno value
  split {cs lo hi idx} h hlo hhi hlen hf := by
    have hnone := h.2 hlo hhi hlen
    have hno : ∀ c ∈ cs, c.1 ≠ key := by
      intro c hc hck
      exact (RangeMap.key_mem_iff h.1 hlo hhi).mp ⟨c, hc, hck⟩ hnone
    refine (h.1.insertAt hf hlo hhi hno value).cut (by omega) ?_
    rw [length_insertAt]
    omega

/-- **An insertion of a new key** binds it, in whatever leaf. -/
theorem leafStep_fresh (hm : m key = none) (value : ℕ) :
    LeafStep (LeafMap m) (LeafMap (Function.update m key (some value))) key value :=
  (leafStep_insert m key value).strengthen (fun h => ⟨h, fun _ _ _ => hm⟩)

/-- **A removal rebinds its key** to the tombstone. -/
theorem leafBury_remove (m : ℕ → Option ℕ) (key : ℕ) :
    LeafBury (LeafMap m) (LeafMap (Function.update m key (some tombstone))) key where
  keep h hk := RangeMap.update_of_not_mem h hk _
  bury h _ _ _ hv _ := LeafMap.set h hv tombstone

/-- Whether an insertion of `key` would find its leaf full and the key in it.
No part of the class: the descent and the search are those of `insert`. -/
def fullLeafHolds (key : ℕ) : PageProg Bool := do
  let root ← Pool.getPage rootPageId
  let r ← descend key uint32Size rootPageId root []
  let buf ← Pool.load r.2.1
  if Node.maxCells ≤ Node.getNumCells buf then do
    let idx ← PageProg.lift (leafNodeFind buf key)
    PageProg.lift (holdsKey buf idx key)
  else return false

/-- **The case that goes wrong is not met** by an insertion of `key`. -/
def Room (key : ℕ) (s : Store) : Prop := ∃ s', (fullLeafHolds key).run s = .ok (false, s')

/-- **A pool holds a tree with the bindings of `m`.** -/
def HoldsMap (m : ℕ → Option ℕ) (base : ℕ) (s : Store) : Prop :=
  ∃ lab H, TreeState (LeafMap m) base lab H s

namespace HoldsMap

/-- The clock does not matter. -/
theorem atClock (h : HoldsMap m base s) (c : ℕ) : HoldsMap m base (s.atClock c) := by
  obtain ⟨lab, H, h⟩ := h
  exact ⟨lab, H, h.atClock c⟩

/-- What the condition looks at. -/
theorem runs_fullLeafHolds (h : TreeState (LeafMap m) base lab H s) (hkey : key < 4294967296) :
    Runs (fullLeafHolds key) s (fun r _ => ∃ p idx,
      Reached (Owned base s.nextPageId) lab s.pages key p idx
        ∧ (r = true ↔ (Node.view (s.pages p)).cells.length = 510 ∧ m key ≠ none)) := by
  have hL := leafMap_sound m
  unfold fullLeafHolds
  refine h.runs_search hL hkey (fun r c hr => ?_)
  obtain ⟨idx, hidx, hreach, hcase⟩ := hr.reached hL h.tree
  have hn := h.tree.node _ hr.mem
  have hle := hn.num_le
  have hlook := LeafMap.lookup (hn.leaf hr.lvl).2 hreach.found hr.lo hr.hi
  have hlen := (Node.view (s.pages r.1)).length_cells
  rw [runs_bind, runs_load, hr.ptr]
  refine runs_ite (fun hfull => ?_) (fun hroom => ?_)
  · have hnum : (Node.view (s.pages r.1)).cells.length = 510 := hlen.trans (le_antisymm hle hfull)
    rw [Store.pages_atClock, runs_bind, runs_lift_ok hidx]
    rcases hcase with ⟨hhold, hcell⟩ | ⟨v, hhold, hcell, -, -⟩
    · rw [runs_lift_ok hhold]
      rw [hcell] at hlook
      exact ⟨r.1, idx, hreach, by simp [← hlook]⟩
    · rw [runs_lift_ok hhold]
      rw [hcell] at hlook
      exact ⟨r.1, idx, hreach, by simp [← hlook, hnum]⟩
  · rw [runs_pure]
    have hnum : (Node.view (s.pages r.1)).cells.length ≠ 510 := fun he =>
      hroom (he.symm.trans hlen).le
    exact ⟨r.1, idx, hreach, fun hb => absurd hb Bool.false_ne_true, fun hb => absurd hb.1 hnum⟩

/-- A key the map does not bind is in no leaf. -/
theorem room_of_none (h : HoldsMap m base s) (hkey : key < 4294967296) (hm : m key = none) :
    Room key s := by
  obtain ⟨lab, H, h⟩ := h
  obtain ⟨r, s', hrun, p, idx, -, hr⟩ := runs_fullLeafHolds h hkey
  have hf : r = false := by
    rw [← Bool.not_eq_true, hr]
    exact fun hb => hb.2 hm
  rw [hf] at hrun
  exact ⟨s', hrun⟩

/-- **The condition in terms of the leaves.** -/
theorem leafRoom (h : TreeState (LeafMap m) base lab H s) (hkey : key < 4294967296)
    (hroom : Room key s) : TreeState (LeafRoom m key) base lab H s := by
  obtain ⟨r, s', hrun, p, idx, hreach, hr⟩ := runs_fullLeafHolds h hkey
  obtain ⟨s₁, hrun'⟩ := hroom
  have hf : r = false := (Prod.mk.inj (Except.ok.inj (hrun.symm.trans hrun'))).1
  have hnot : ¬ ((Node.view (s.pages p)).cells.length = 510 ∧ m key ≠ none) := by
    rw [← hr, hf]
    exact Bool.false_ne_true
  refine ⟨h.base_pos, h.base_small, h.base_le, h.synced, h.tree.shape, fun q hq => ?_⟩
  refine (h.tree.node q hq).mono (fun hl hc => ⟨hc, fun hlo hhi hlen => ?_⟩)
    (fun _ _ _ _ _ _ _ _ _ hT hlab => ⟨hT, hlab⟩)
  by_cases hqp : q = p
  · subst hqp
    by_contra hm
    exact hnot ⟨hlen, hm⟩
  · -- two leaves have disjoint ranges
    have hap := h.tree.shape.apart q p hq hreach.mem hqp (hl.trans hreach.lvl.symm)
    have h1 := hreach.lo
    have h2 := hreach.hi
    omega

/-! ## The operations -/

/-- **`find` reads the map.** -/
theorem runs_find (h : HoldsMap m base s) (hkey : key < 4294967296) :
    Runs (find key) s (fun r s' => (∃ c, s' = s.atClock c) ∧ r = answer (m key)) := by
  obtain ⟨lab, H, h⟩ := h
  refine (BTree.runs_find (leafMap_sound m) h hkey).mono ?_
  rintro r s' ⟨hs, p, idx, hreach, hr⟩
  refine ⟨hs, ?_⟩
  rw [hr, LeafMap.lookup ((h.tree.node p hreach.mem).leaf hreach.lvl).2 hreach.found hreach.lo
    hreach.hi]

/-- **`insert` binds its key**, where the condition holds. -/
theorem runs_insert (h : HoldsMap m base s) (hkey : key < 4294967296) (hvalue : value < 4294967296)
    (hroom : Room key s) :
    Runs (insert key value) s
      (fun _ s' => ∃ lab, Grown (LeafMap (Function.update m key (some value))) base lab s s') := by
  obtain ⟨lab, H, h⟩ := h
  exact ((leafRoom h hkey hroom).runs_insert (leafRoom_sound m key) (leafStep_insert m key value)
    hkey hvalue).mono (fun _ _ hg => ⟨lab, hg⟩)

/-- **`remove` rebinds a key in use** to the tombstone. -/
theorem runs_remove (h : HoldsMap m base s) (hkey : key < 4294967296) :
    Runs (remove key) s (fun r s' =>
      (r = false ∧ (∀ v, m key = some v → v = tombstone) ∧ ∃ c, s' = s.atClock c)
      ∨ (r = true ∧ (∃ v, m key = some v ∧ v ≠ tombstone)
        ∧ ∃ lab, Grown (LeafMap (Function.update m key (some tombstone))) base lab s s')) := by
  obtain ⟨lab, H, h⟩ := h
  refine (h.runs_remove (leafMap_sound m) (leafBury_remove m key) hkey).mono ?_
  rintro r s' ⟨p, idx, hreach, hr⟩
  have hlook := LeafMap.lookup ((h.tree.node p hreach.mem).leaf hreach.lvl).2 hreach.found hreach.lo
    hreach.hi
  rcases hr with ⟨hr, hs, hans⟩ | ⟨hr, hg, v, hcell, hv⟩
  · rw [hlook] at hans
    exact Or.inl ⟨hr, hans, hs⟩
  · rw [hcell] at hlook
    exact Or.inr ⟨hr, ⟨v, hlook.symm, hv⟩, lab, hg⟩

end HoldsMap

/-! ## A new tree -/

/-- The labels of a tree of one leaf. -/
def rootLab (_ : ℕ) : Label := ⟨0, 0, 4294967296⟩

/-- **A tree of one leaf.** -/
theorem treeState_root {Leaf : LeafSpec} (hbase : 1 ≤ base) (hsmall : base ≤ 2147483648)
    (hnext : s.nextPageId = base) (hsync : s.extent = base)
    (htype : (Node.view (s.pages 0)).type = .leaf) (hroot : (Node.view (s.pages 0)).root = true)
    (hnum : (Node.view (s.pages 0)).num ≤ 510)
    (hleaf : Leaf (Node.view (s.pages 0)).cells 0 4294967296) :
    TreeState Leaf base rootLab 0 s := by
  have hT : ∀ p, Owned base s.nextPageId p → p = 0 := by
    intro p hp
    rw [hnext] at hp
    unfold Owned at hp
    omega
  refine ⟨hbase, hsmall, hnext.ge, hsync.trans hnext.symm, ⟨Or.inl rfl, rfl, ?_, ?_, ?_, ?_⟩, ?_⟩
  · exact fun p _ => Nat.zero_lt_succ _
  · exact fun p _ => le_rfl
  · exact fun p _ => le_rfl
  · intro p q hp hq hpq _
    exact absurd ((hT p hp).trans (hT q hq).symm) hpq
  · intro p hp
    rw [hT p hp]
    exact ⟨hroot, hnum, fun h0 => absurd rfl h0, fun _ => ⟨htype, hleaf⟩,
      fun l hl => absurd hl (Nat.succ_ne_zero l).symm⟩

/-- The array a new tree over an empty pool starts from. -/
def newStore : Store :=
  (((Store.empty.touch rootPageId).put .btree rootPageId
    (Node.initializeAsLeaf true (Buffer.zero pageSize))).mark rootPageId)

/-- **`BTree::BTree`** over an empty pool. -/
theorem run_construct : (construct true).run .empty = .ok ((), newStore) := rfl

/-- The root page of a new tree. -/
theorem view_newRoot (buf : Page) : (Node.view (Node.initializeAsLeaf true buf)).type = .leaf
    ∧ (Node.view (Node.initializeAsLeaf true buf)).root = true
    ∧ (Node.view (Node.initializeAsLeaf true buf)).num = 0
    ∧ (Node.view (Node.initializeAsLeaf true buf)).cells = [] := by
  rw [Node.view_initializeAsLeaf]
  exact ⟨rfl, rfl, rfl, rfl⟩

/-- **A new tree** has what leaves owe for the whole range with no cells. -/
theorem treeState_newStore {Leaf : LeafSpec} (h : Leaf [] 0 4294967296) :
    TreeState Leaf 1 rootLab 0 newStore := by
  obtain ⟨htype, hroot, hnum, hcells⟩ := view_newRoot (Buffer.zero pageSize)
  refine treeState_root le_rfl (by omega) rfl rfl htype hroot (hnum.trans_le (Nat.zero_le _)) ?_
  rw [show (Node.view (newStore.pages 0)).cells = [] from hcells]
  exact h

theorem holdsMap_newStore : HoldsMap (fun _ => none) 1 newStore :=
  ⟨rootLab, 0, treeState_newStore RangeMap.nil⟩

end BTree
