import SqlMini.TreeInsert

/-!
# What a parent is given

`insert_into_parent` puts a separator and the child behind it into an inner
node: in place where the node has room, by cutting the merged node where it
is full, and under a new root where the full node was one. Whichever way it
goes, what is left holds in order the old keys with the separator at its
slot, and the old children with the new one behind the child that was split
(`insertIntoParent_conserves`).

Unlike in `SqlMini.TreeSplit`, nothing is known of the tree around the node,
and the node is any page. Of the page numbers it is asked only that a new
root finds one that was not used, as it does in a tree (`Tree.pages_le`).
That the keys ascend and that the separator fits between its neighbours is
needed for one thing: a split looks the slot up in the keys once more, and
finds the one the descent recorded (`Fits.findIdx_eq`).
-/

/-! ## Page numbers -/

/-- The counter does not stop at the page that was accessed. -/
theorem bumpPageId_ne (p next : ℕ) : bumpPageId p next ≠ p := by
  unfold bumpPageId uint32Size
  split <;> omega

theorem bumpPageId_lt (p : ℕ) {next : ℕ} (h : next < 4294967296) :
    bumpPageId p next < 4294967296 := by
  unfold bumpPageId uint32Size
  split <;> omega

/-- The page number after the next is not that of the page accessed either. -/
theorem bumpPageId_succ_ne {p next : ℕ} (hp : p < 4294967296) (h : next + 1 < 4294967296) :
    (bumpPageId p next + 1) % uint32Size ≠ p := by
  unfold bumpPageId uint32Size
  split <;> omega

/-- A second access to a page leaves the counter. -/
theorem bumpPageId_bumpPageId (p next : ℕ) :
    bumpPageId p (bumpPageId p next) = bumpPageId p next := by
  unfold bumpPageId
  split <;> simp_all

/-- The counter after a page was handed out and accessed. -/
theorem Store.nextPageId_handOut_touch (s : Store) :
    (s.handOut.touch s.nextPageId).nextPageId = (s.nextPageId + 1) % uint32Size := by
  show bumpPageId s.nextPageId ((s.nextPageId + 1) % uint32Size) = _
  exact ite_self _

namespace BTree

open PageProg

variable {s : Store} {p slot sep right pushed : ℕ} {keys children : List ℕ}

/-! ## The slot -/

/-- **The separator fits at the slot**: it is strictly between the keys next
to it. -/
structure Fits (keys : List ℕ) (slot sep : ℕ) : Prop where
  /-- The slot is the position of a child. -/
  le_length : slot ≤ keys.length
  /-- The key before is smaller. -/
  below : ∀ i k, i + 1 = slot → keys[i]? = some k → k < sep
  /-- The key there is larger. -/
  above : ∀ k, keys[slot]? = some k → sep < k

/-- Every key before the slot is smaller. -/
theorem Fits.lt_of_lt (h : Fits keys slot sep) (hsort : keys.Pairwise (· < ·)) {j : ℕ}
    (hj : j < keys.length) (hjs : j < slot) : keys[j] < sep := by
  obtain ⟨i, rfl⟩ := Nat.exists_eq_succ_of_ne_zero (Nat.ne_zero_of_lt hjs)
  have hi : i < keys.length := h.le_length
  have hlast : keys[i] < sep := h.below i _ rfl (List.getElem?_eq_getElem hi)
  rcases Nat.lt_succ_iff_lt_or_eq.mp hjs with hji | rfl
  · exact (List.pairwise_iff_getElem.mp hsort j i hj hi hji).trans hlast
  · exact hlast

/-- **The slot a split recomputes** is the one the descent recorded. -/
theorem Fits.findIdx_eq (h : Fits keys slot sep) (hsort : keys.Pairwise (· < ·)) :
    keys.findIdx (fun k => decide (sep < k)) = slot := by
  rcases h.le_length.lt_or_eq with hlt | rfl
  · refine (List.findIdx_eq hlt).mpr ⟨decide_eq_true (h.above _ (List.getElem?_eq_getElem hlt)),
      fun j hj => decide_eq_false ?_⟩
    exact (h.lt_of_lt hsort (hj.trans hlt) hj).not_gt
  · refine List.findIdx_eq_length_of_false (fun k hk => decide_eq_false ?_)
    obtain ⟨j, hj, rfl⟩ := List.getElem_of_mem hk
    exact (h.lt_of_lt hsort hj hj).not_gt

/-! ## The halves, in order -/

/-- **Two inner nodes hold the keys and the children of one**, with the key
`pushed` between them. -/
structure InOrder (lower upper : NodeView) (pushed : ℕ) (keys children : List ℕ) : Prop where
  /-- Both are inner nodes. -/
  lower_type : lower.type = .internal
  upper_type : upper.type = .internal
  /-- The keys. -/
  keys : lower.keys ++ pushed :: upper.keys = keys
  /-- The children. -/
  children : lower.children ++ upper.children = children

/-- The halves of a merged node hold all of it. -/
theorem InOrder.of_halves {lower upper : NodeView} (hk : keys.length = 511)
    (hc : children.length = 512) (hpushed : keys[255]? = some pushed)
    (hlower : IsHalf lower (keys.take 255) (children.take 256))
    (hupper : IsHalf upper ((keys.drop 256).take 255) ((children.drop 256).take 256)) :
    InOrder lower upper pushed keys children := by
  obtain ⟨hlt, hget⟩ := List.getElem?_eq_some_iff.mp hpushed
  have hkeys : (keys.drop 256).take 255 = keys.drop 256 :=
    List.take_of_length_le (by rw [List.length_drop, hk])
  have hchildren : (children.drop 256).take 256 = children.drop 256 :=
    List.take_of_length_le (by rw [List.length_drop, hc])
  refine ⟨hlower.type, hupper.type, ?_, ?_⟩
  · rw [hlower.keys, hupper.keys, hkeys, ← hget, List.getElem_cons_drop,
      List.take_append_drop]
  · rw [hlower.children, hupper.children, hchildren, List.take_append_drop]

/-! ## What becomes of the node -/

/-- **The node `p` took** the separator and the child behind it. -/
structure Taken (s s' : Store) (p slot sep right : ℕ) : Prop where
  /-- The separator is at its slot. -/
  keys : (Node.view (s'.pages p)).keys = insertAt (Node.view (s.pages p)).keys slot sep
  /-- The child is directly behind the one there. -/
  children : (Node.view (s'.pages p)).children
    = insertAt (Node.view (s.pages p)).children (slot + 1) right
  /-- The other pages are as they were. -/
  frame : ∀ q, q ≠ p → s'.pages q = s.pages q

/-- **The node `p` was cut** into itself and the page `new`. -/
structure CutAt (s s' : Store) (p new pushed slot sep right : ℕ) : Prop where
  /-- The page of the upper half is another one. -/
  ne : new ≠ p
  /-- The halves hold the old keys and children and the new ones. -/
  inOrder : InOrder (Node.view (s'.pages p)) (Node.view (s'.pages new)) pushed
    (insertAt (Node.view (s.pages p)).keys slot sep)
    (insertAt (Node.view (s.pages p)).children (slot + 1) right)
  /-- The other pages are as they were. -/
  frame : ∀ q, q ≠ p → q ≠ new → s'.pages q = s.pages q

/-- **The node `p` became a root** above its halves, in the pages `left` and
`new`. -/
structure RaisedAbove (s s' : Store) (p left new pushed slot sep right : ℕ) : Prop where
  /-- The three pages are different ones. -/
  left_ne : left ≠ p
  new_ne : new ≠ p
  halves_ne : left ≠ new
  /-- The node is a root of one key between the two. -/
  root : IsNewRoot (Node.view (s'.pages p)) pushed left new
  /-- The halves hold the old keys and children and the new ones. -/
  inOrder : InOrder (Node.view (s'.pages left)) (Node.view (s'.pages new)) pushed
    (insertAt (Node.view (s.pages p)).keys slot sep)
    (insertAt (Node.view (s.pages p)).children (slot + 1) right)
  /-- The other pages are as they were. -/
  frame : ∀ q, q ≠ p → q ≠ left → q ≠ new → s'.pages q = s.pages q

/-! ## The two branches -/

section Branches

variable (ancestors : Ancestors) {Q : Unit → Store → Prop}

/-- A node with room. -/
theorem runs_insertIntoParent_of_lt (hnum : (Node.view (s.pages p)).num < 510) :
    Runs (insertIntoParent sep right ((p, slot) :: ancestors)) s Q
      ↔ Runs (do
          modifyChecked ⟨p, s.clock⟩ (parentInsert slot sep right)
          Pool.markDirty p) (s.touch p) Q := by
  have hlt : Node.getNumCells ((s.touch p).pages p) < Node.maxCells := hnum
  rw [insertIntoParent, runs_bind, runs_getPage, runs_bind, runs_load, if_pos hlt]

/-- A full node. -/
theorem runs_insertIntoParent_of_full (hnum : (Node.view (s.pages p)).num = 510) :
    Runs (insertIntoParent sep right ((p, slot) :: ancestors)) s Q
      ↔ Runs (internalNodeSplitAndInsert p sep right
          (fun pushedKey newId => insertIntoParent pushedKey newId ancestors)) (s.touch p) Q := by
  have hge : ¬ Node.getNumCells ((s.touch p).pages p) < Node.maxCells := not_lt.mpr hnum.ge
  rw [insertIntoParent, runs_bind, runs_getPage, runs_bind, runs_load, if_neg hge]

end Branches

/-- **The cut of a full node**, wherever it is. -/
theorem exists_cut (hnum : (Node.view (s.pages p)).num = 510)
    (hsort : (Node.view (s.pages p)).keys.Pairwise (· < ·))
    (hfits : Fits (Node.view (s.pages p)).keys slot sep)
    (hsep : sep < 4294967296) (hright : right < 4294967296) :
    ∃ s₂ pushed, CutAt s s₂ p (bumpPageId p s.nextPageId) pushed slot sep right
      ∧ (Node.view (s₂.pages p)).root = false ∧ pushed < 4294967296
      ∧ s₂.nextPageId = (bumpPageId p s.nextPageId + 1) % uint32Size
      ∧ ∀ k Q, Runs (internalNodeSplitAndInsert p sep right k) (s.touch p) Q
        ↔ Runs (attachInner ⟨p, s.clock + 1⟩ p (Node.isRoot (s.pages p)) k pushed
          (bumpPageId p s.nextPageId)) s₂ Q := by
  obtain ⟨hlk, hlc⟩ := SplitTree.length_merged slot sep right hnum
  obtain ⟨pushed, hpushed⟩ : ∃ k, (insertAt (Node.view (s.pages p)).keys slot sep)[255]? = some k :=
    ⟨_, List.getElem?_eq_getElem (by omega)⟩
  have hne := bumpPageId_ne p s.nextPageId
  -- the page is requested twice, and the counter moves once
  have hnew : ((s.touch p).touch p).nextPageId = bumpPageId p s.nextPageId :=
    bumpPageId_bumpPageId p s.nextPageId
  obtain ⟨b, b', hlower, hupper, hlt, hiff⟩ := runs_internalNodeSplitAndInsert_iff
    (s := s.touch p) hnum (hnew.symm ▸ hne) (hfits.findIdx_eq hsort) hsep hright hpushed
  have hpages : (cutStore (s.touch p) p b b').pages
      = Function.update (Function.update s.pages p b) (bumpPageId p s.nextPageId) b' := by
    rw [← hnew]
    rfl
  have hp : (cutStore (s.touch p) p b b').pages p = b := by
    rw [hpages, Function.update_of_ne hne.symm, Function.update_self]
  have hq : (cutStore (s.touch p) p b b').pages (bumpPageId p s.nextPageId) = b' := by
    rw [hpages, Function.update_self]
  refine ⟨cutStore (s.touch p) p b b', pushed, ⟨hne, ?_, fun q hqp hqn => ?_⟩, ?_, hlt, ?_,
    fun k Q => ?_⟩
  · rw [hp, hq]
    exact .of_halves hlk hlc hpushed hlower hupper
  · rw [hpages, Function.update_of_ne hqn, Function.update_of_ne hqp]
  · rw [hp]
    exact hlower.root
  · rw [← hnew]
    exact (((s.touch p).touch p).put .btree p b).nextPageId_handOut_touch
  · rw [hiff, hnew]
    rfl

/-! ## Conservation -/

/-- **`insert_into_parent` conserves the keys and the children** of the node
`p`, which it reaches with the slot the descent recorded. -/
structure ParentInsertion (s : Store) (p slot sep right : ℕ) (ancestors : Ancestors) : Prop where
  /-- A node with room takes the separator and the child. -/
  room : (Node.view (s.pages p)).num < 510 →
    Runs (insertIntoParent sep right ((p, slot) :: ancestors)) s
      (fun _ s' => Taken s s' p slot sep right)
  /-- The slot a split looks up in the keys it read is the one recorded. -/
  slot_eq : (Node.view (s.pages p)).num = 510 →
    ∃ oldKeys, (List.range Node.maxCells).mapM (Node.getKey (s.pages p)) = .ok oldKeys
      ∧ oldKeys.findIdx (fun k => decide (sep < k)) = slot
  /-- A full node is cut, whatever comes then, and what comes is that the key
  between the halves goes to the parent. -/
  cut : (Node.view (s.pages p)).num = 510 → (Node.view (s.pages p)).root = false →
    ∃ s₂ new pushed, CutAt s s₂ p new pushed slot sep right
      ∧ (∀ k Q, Runs (internalNodeSplitAndInsert p sep right k) (s.touch p) Q
        ↔ Runs (k pushed new) s₂ Q)
      ∧ ∀ Q, Runs (insertIntoParent sep right ((p, slot) :: ancestors)) s Q
        ↔ Runs (insertIntoParent pushed new ancestors) s₂ Q
  /-- A full root stays where it is, with the key between the halves as its
  only one. -/
  raised : (Node.view (s.pages p)).num = 510 → (Node.view (s.pages p)).root = true →
    s.nextPageId + 1 < 4294967296 →
    Runs (insertIntoParent sep right ((p, slot) :: ancestors)) s
      (fun _ s' => ∃ left new pushed, RaisedAbove s s' p left new pushed slot sep right)

section

variable (hfits : Fits (Node.view (s.pages p)).keys slot sep) (hsep : sep < 4294967296)
  (hright : right < 4294967296)
include hfits hsep hright

/-- In place. -/
theorem runs_insertIntoParent_taken (ancestors : Ancestors)
    (hnum : (Node.view (s.pages p)).num < 510) :
    Runs (insertIntoParent sep right ((p, slot) :: ancestors)) s
      (fun _ s' => Taken s s' p slot sep right) := by
  have hslot : slot ≤ (Node.view (s.pages p)).num := by
    simpa using hfits.le_length
  obtain ⟨b, hb, -, -, hkeys, hchildren⟩ := parentInsert_spec hnum hslot hsep hright
  rw [runs_insertIntoParent_of_lt ancestors hnum]
  simp only [runs_bind, runs_modifyChecked, runs_markDirty, Store.pages_touch, hb,
    Except.ok.injEq, exists_eq_left']
  have hp : (((s.touch p).put .btree p b).mark p).pages p = b := Function.update_self _ _ _
  exact ⟨hp.symm ▸ hkeys, hp.symm ▸ hchildren, fun q hq => Function.update_of_ne hq _ _⟩

variable (hnum : (Node.view (s.pages p)).num = 510)
  (hsort : (Node.view (s.pages p)).keys.Pairwise (· < ·))
include hnum hsort

/-- Through a cut, of which the parent is told. -/
theorem exists_cutAt (hroot : (Node.view (s.pages p)).root = false) :
    ∃ s₂ new pushed, CutAt s s₂ p new pushed slot sep right
      ∧ ∀ k Q, Runs (internalNodeSplitAndInsert p sep right k) (s.touch p) Q
        ↔ Runs (k pushed new) s₂ Q := by
  obtain ⟨s₂, pushed, ⟨hne, hin, hframe⟩, hflag, -, -, hiff⟩ :=
    exists_cut hnum hsort hfits hsep hright
  have hwas : Node.isRoot (s.pages p) = false := hroot
  generalize bumpPageId p s.nextPageId = new at hin hframe hiff hne
  have hpages : ((s₂.put .btree p (Node.setIsRoot false (s₂.pages p))).mark p).pages
      = Function.update s₂.pages p (Node.setIsRoot false (s₂.pages p)) := rfl
  -- the flag was not set
  have hview : Node.view (Node.setIsRoot false (s₂.pages p)) = Node.view (s₂.pages p) := by
    rw [Node.view_setIsRoot]
    exact NodeView.ext rfl hflag.symm rfl rfl rfl
  refine ⟨(s₂.put .btree p (Node.setIsRoot false (s₂.pages p))).mark p, new, pushed,
    ⟨hne, ?_, fun q hqp hqn => ?_⟩, fun k Q => ?_⟩
  · rw [hpages, Function.update_self, Function.update_of_ne hne, hview]
    exact hin
  · rw [hpages, Function.update_of_ne hqp]
    exact hframe q hqp hqn
  · rw [hiff, attachInner, hwas]
    simp only [Bool.false_eq_true, if_false, runs_bind, runs_modify, runs_markDirty]

/-- Under a new root, which needs a page for the lower half. -/
theorem runs_insertIntoParent_raised (ancestors : Ancestors)
    (hroot : (Node.view (s.pages p)).root = true)
    (hp : p < 4294967296) (hroom : s.nextPageId + 1 < 4294967296) :
    Runs (insertIntoParent sep right ((p, slot) :: ancestors)) s
      (fun _ s' => ∃ left new pushed, RaisedAbove s s' p left new pushed slot sep right) := by
  obtain ⟨s₂, pushed, ⟨hne, hin, hframe⟩, -, hlt, hnext, hiff⟩ :=
    exists_cut hnum hsort hfits hsep hright
  have hnew : bumpPageId p s.nextPageId < 4294967296 := bumpPageId_lt p (Nat.lt_of_succ_lt hroom)
  have hleft := bumpPageId_succ_ne hp hroom
  generalize bumpPageId p s.nextPageId = new at hin hframe hnext hiff hne hnew hleft
  have hln : s₂.nextPageId ≠ new := by
    rw [hnext]
    unfold uint32Size
    omega
  have hlp : s₂.nextPageId ≠ p := by
    rw [hnext]
    exact hleft
  have hl : s₂.nextPageId < 4294967296 := by
    rw [hnext]
    exact Nat.mod_lt _ (by decide)
  have hwas : Node.isRoot (s.pages p) = true := hroot
  rw [runs_insertIntoParent_of_full ancestors hnum, hiff, attachInner, if_pos hwas]
  refine (runs_rootAbove rfl hlp.symm hl hnew hlt).mono ?_
  rintro - s' ⟨b, hpages, habove, -, -, -⟩
  generalize s₂.nextPageId = left at hpages habove hln hlp
  have hb : s'.pages p = b := by
    rw [hpages, Function.update_self]
  rw [← hb] at habove
  have hcopy : s'.pages left = Node.setIsRoot false (s₂.pages p) := by
    rw [hpages, Function.update_of_ne hlp, Function.update_self]
  have hupper : s'.pages new = s₂.pages new := by
    rw [hpages, Function.update_of_ne hne, Function.update_of_ne hln.symm]
  refine ⟨left, new, pushed, hlp, hne, hln, habove, ?_, fun q hqp hql hqn => ?_⟩
  · rw [hcopy, hupper, Node.view_setIsRoot]
    exact ⟨hin.lower_type, hin.upper_type, hin.keys, hin.children⟩
  · rw [hpages, Function.update_of_ne hqp, Function.update_of_ne hql]
    exact hframe q hqp hqn

end

/-- **Parent insertion conserves the keys and the children**, in place, through
a cut and under a new root. -/
theorem insertIntoParent_conserves (ancestors : Ancestors)
    (hsort : (Node.view (s.pages p)).keys.Pairwise (· < ·))
    (hfits : Fits (Node.view (s.pages p)).keys slot sep)
    (hp : p < 4294967296) (hsep : sep < 4294967296) (hright : right < 4294967296) :
    ParentInsertion s p slot sep right ancestors where
  room hlt := runs_insertIntoParent_taken hfits hsep hright ancestors hlt
  slot_eq hfull := ⟨_, mapM_getKey_eq hfull, hfits.findIdx_eq hsort⟩
  cut hfull hroot := by
    obtain ⟨s₂, new, pushed, hcut, hiff⟩ := exists_cutAt hfits hsep hright hfull hsort hroot
    refine ⟨s₂, new, pushed, hcut, hiff, fun Q => ?_⟩
    rw [runs_insertIntoParent_of_full ancestors hfull, hiff]
  raised hfull hroot := runs_insertIntoParent_raised hfits hsep hright hfull hsort ancestors
    hroot hp

/-- A separator behind the last key of a full node, which is a root or not. -/
theorem insertIntoParent_conserves_last : ∃ b : Page, (Node.view b).num = 510
    ∧ ParentInsertion (oneLeaf b) 0 510 600 7 []
    ∧ ParentInsertion (oneLeaf (Node.setIsRoot true b)) 0 510 600 7 [] := by
  obtain ⟨b, hnum, hcells⟩ := exists_fullLeaf
  have hkeys : (Node.view b).keys = List.range 510 := by
    rw [NodeView.keys, hcells, List.map_map]
    exact List.map_id _
  have hsort : (List.range 510).Pairwise (· < ·) := List.pairwise_lt_range
  have hfits : Fits (List.range 510) 510 600 := by
    refine ⟨by simp, fun i k hi hk => ?_, fun k hk => ?_⟩
    · exact (List.mem_range.mp (List.mem_of_getElem? hk)).trans (by omega)
    · rw [List.getElem?_eq_none (by simp)] at hk
      cases hk
  have hpage : ∀ b' : Page, (oneLeaf b').pages 0 = b' := by simp [oneLeaf]
  have hroot : (Node.view (Node.setIsRoot true b)).keys = List.range 510 := by
    rw [Node.view_setIsRoot]
    exact hkeys
  refine ⟨b, hnum, insertIntoParent_conserves [] ?_ ?_ (by omega) (by omega) (by omega),
    insertIntoParent_conserves [] ?_ ?_ (by omega) (by omega) (by omega)⟩
  · rwa [hpage, hkeys]
  · rwa [hpage, hkeys]
  · rwa [hpage, hroot]
  · rwa [hpage, hroot]

end BTree
