import SqlMini.TreeSearch
import SqlMini.LeafLinks

/-!
# Splits

A split of a full node travels up the path the descent recorded. Each stage
is a step of `SqlMini.TreeShape` made by the program: a parent with room
takes the separator (`SplitState.runs_parentInsert`), a full one is cut in
turn (`runs_internalNodeSplitAndInsert`), and above a full root a new one is
put (`runs_createNewRoot`). `runs_insertIntoParent` assembles them by
induction on the path: a tree with a page cut in two becomes a tree.
-/

namespace BTree

open PageProg

/-! ## Setters through a pointer -/

section Setters

variable {s : Store} {ptr : PagePtr} {Q : Unit → Store → Prop}

@[simp] theorem runs_modify {f : Page → Page} : Runs (modify ptr f) s Q
    ↔ Q () (s.put .btree ptr.page (f (s.pages ptr.page))) := runs_pure _

theorem runs_modifyChecked {f : Page → Except Fault Page} : Runs (modifyChecked ptr f) s Q
    ↔ ∃ b, f (s.pages ptr.page) = .ok b ∧ Q () (s.put .btree ptr.page b) := by
  unfold modifyChecked
  simp only [runs_bind, runs_load, runs_lift, runs_store]

end Setters

variable {Leaf : LeafSpec} {T : ℕ → Prop} {lab : ℕ → Label} {H base : ℕ} {s s' : Store}
  {c right sep : ℕ}

/-- More pages are owned later. -/
theorem Owned.mono {next next' p : ℕ} (h : Owned base next p) (hle : next ≤ next') :
    Owned base next' p := by
  unfold Owned at h ⊢
  omega

/-- **What an insertion leaves**: a tree in the pool, its leaves linked if
they were under the labels `lab`, and no write or new page but the tree's. -/
structure Grown (Leaf : LeafSpec) (base : ℕ) (lab : ℕ → Label) (s s' : Store) : Prop where
  /-- The pool holds a tree, and the links are right as before. -/
  tree : ∃ lab' H', TreeState Leaf base lab' H' s'
    ∧ (Linked (Owned base s.nextPageId) lab s.pages →
      Linked (Owned base s'.nextPageId) lab' s'.pages)
  /-- Only pages of the tree were written. -/
  within : Store.Within .btree (Owned base s'.nextPageId) s s'
  /-- No page was given back. -/
  next_le : s.nextPageId ≤ s'.nextPageId

namespace Grown

/-- The pool holds a tree. -/
theorem state (h : Grown Leaf base lab s s') : ∃ lab' H', TreeState Leaf base lab' H' s' := by
  obtain ⟨lab', H', hT, -⟩ := h.tree
  exact ⟨lab', H', hT⟩

/-- The clock does not matter. -/
theorem of_atClock {k : ℕ} (h : Grown Leaf base lab (s.atClock k) s') : Grown Leaf base lab s s' :=
  ⟨h.tree, ⟨h.within.frame, h.within.log⟩, h.next_le⟩

/-- One stage after another. -/
theorem after {s₁ : Store} {lab₁ : ℕ → Label} (h : Grown Leaf base lab₁ s₁ s')
    (hl : Linked (Owned base s.nextPageId) lab s.pages →
      Linked (Owned base s₁.nextPageId) lab₁ s₁.pages)
    (hw : Store.Within .btree (Owned base s₁.nextPageId) s s₁)
    (hle : s.nextPageId ≤ s₁.nextPageId) : Grown Leaf base lab s s' := by
  obtain ⟨lab', H', hT, hlinks⟩ := h.tree
  exact ⟨⟨lab', H', hT, fun h' => hlinks (hl h')⟩,
    (hw.mono (fun _ hp => hp.mono h.next_le)).trans h.within, hle.trans h.next_le⟩

end Grown

/-! ## A new root -/

/-- **A root of one key** between two children. -/
structure IsNewRoot (v : NodeView) (sep left right : ℕ) : Prop where
  type : v.type = .internal
  root : v.root = true
  keys : v.keys = [sep]
  children : v.children = [left, right]

/-- The page of a new root. -/
theorem newRoot_spec {left : ℕ} (hl : left < 4294967296) (hr : right < 4294967296)
    (hs : sep < 4294967296) (buf : Page) :
    ∃ b b', Node.setLeftChildId 0 left (Node.setNumCells 1 (Node.initializeAsInternal true buf))
        = .ok b ∧ Node.setKey 0 sep b = .ok b'
      ∧ IsNewRoot (Node.view (Node.setRightmostChildId right b')) sep left right := by
  have h0 : 0 < 510 := by omega
  have hv₁ := Node.view_setNumCells (show 1 < 4294967296 from by omega)
    (Node.initializeAsInternal true buf)
  rw [Node.view_initializeAsInternal] at hv₁
  obtain ⟨b, hb, hvb⟩ := Node.setValue_spec h0 hl
    (Node.setNumCells 1 (Node.initializeAsInternal true buf))
  obtain ⟨b', hb', hvb'⟩ := Node.setKey_spec h0 hs b
  have hv := Node.view_setRightmostChildId hr b'
  rw [hvb', hvb, hv₁] at hv
  refine ⟨b, b', hb, hb', ?_, ?_, ?_, ?_⟩
  · rw [hv]
    rfl
  · rw [hv]
    rfl
  · rw [hv]
    simp [NodeView.keys, NodeView.cells]
  · rw [hv]
    simp [NodeView.children, NodeView.cells]

/-- **A new root was put above two halves**: the lower one was copied from
page `0` to the next page. -/
structure NewRoot (s s' : Store) (right sep : ℕ) : Prop where
  /-- One page was handed out. -/
  next : s'.nextPageId = s.nextPageId + 1
  /-- It was marked dirty. -/
  extent : s'.extent = max s.extent (s.nextPageId + 1)
  /-- It is a copy of the old root. -/
  copy : s'.pages s.nextPageId = Node.setIsRoot false (s.pages 0)
  /-- Page `0` is a root of one key. -/
  type : (Node.view (s'.pages 0)).type = .internal
  root : (Node.view (s'.pages 0)).root = true
  keys : (Node.view (s'.pages 0)).keys = [sep]
  children : (Node.view (s'.pages 0)).children = [s.nextPageId, right]
  /-- The other pages are as they were. -/
  frame : ∀ q, q ≠ 0 → q ≠ s.nextPageId → s'.pages q = s.pages q
  /-- Two pages were written. -/
  within : ∀ T : ℕ → Prop, T 0 → T s.nextPageId → Store.Within .btree T s s'

/-- The pages of a new root: two pages changed. -/
theorem NewRoot.of_pages {b : Page} (h0 : 0 < s.nextPageId)
    (hnext : s'.nextPageId = s.nextPageId + 1)
    (hextent : s'.extent = max (max s.extent (s.nextPageId + 1)) (rootPageId + 1))
    (hpages : s'.pages = Function.update (Function.update s.pages s.nextPageId
      (Node.setIsRoot false (s.pages 0))) 0 b)
    (hroot : IsNewRoot (Node.view b) sep s.nextPageId right)
    (hwithin : ∀ T : ℕ → Prop, T 0 → T s.nextPageId → Store.Within .btree T s s') :
    NewRoot s s' right sep := by
  have hb : s'.pages 0 = b := by
    rw [hpages, Function.update_self]
  rw [← hb] at hroot
  refine ⟨hnext, ?_, ?_, hroot.type, hroot.root, hroot.keys, hroot.children, ?_, hwithin⟩
  · rw [hextent]
    exact max_eq_left (show 0 + 1 ≤ _ from by omega)
  · rw [hpages, Function.update_of_ne (by omega), Function.update_self]
  · intro q hq hqn
    rw [hpages, Function.update_of_ne hq, Function.update_of_ne hqn]

/-- **`create_new_root`** puts the first key of the right half between the
halves. -/
theorem runs_createNewRoot {old : PagePtr} (hold : old.page = 0)
    (hpos : 0 < s.nextPageId) (hnext : s.nextPageId + 1 < 4294967296) (hr0 : right ≠ 0)
    (hright : right < s.nextPageId)
    (hsep : ((Node.view (s.pages right)).cell 0).1 = sep) :
    Runs (createNewRoot old rootPageId right) s (fun _ s' => NewRoot s s' right sep) := by
  have hs : sep < 4294967296 := hsep ▸ (Node.cell_view_lt (s.pages right) 0).1
  obtain ⟨b, b', hb, hb', hroot⟩ := newRoot_spec
    (show s.nextPageId < 4294967296 from by omega) (show right < 4294967296 from by omega) hs
    (s.pages 0)
  have hfresh := s.nextPageId_fresh hnext
  have h0 : 0 ≠ s.nextPageId := by omega
  have hrn : right ≠ s.nextPageId := by omega
  have hkey : Node.getKey (s.pages right) 0 = .ok sep := by
    rw [Node.getKey_eq (by omega), hsep]
  unfold createNewRoot
  simp only [runs_bind, runs_getUnusedPageNum, runs_getPage, runs_load, runs_store, runs_modify,
    runs_markDirty, runs_modifyChecked, runs_lift, hold, Store.pages_put, Store.pages_mark,
    Store.pages_touch, Store.pages_handOut, Function.update_self, Function.update_of_ne h0,
    Function.update_of_ne hrn, Function.update_of_ne hr0, Function.update_idem, hb, hb', hkey,
    Except.ok.injEq, exists_eq_left']
  refine .of_pages hpos ?_ rfl ?_ hroot (fun T hT0 hTn => ?_)
  · have hlt : right < s.nextPageId + 1 := by omega
    simp [Store.nextPageId_touch_of_lt, hfresh, hlt]
  · simp only [Store.pages_put, Store.pages_mark, Store.pages_touch, Store.pages_handOut,
      Function.update_idem]
  · exact (Store.Within.refl _ T s).handOut hTn |>.touch _ |>.put _ hTn |>.put _ hTn |>.mark _
      |>.put _ hT0 |>.put _ hT0 |>.touch _ |>.put _ hT0 |>.put _ hT0 |>.put _ hT0 |>.mark _

/-- The part of `internal_node_split_and_insert` that puts a new root above
the halves. -/
def rootAbove (node : PagePtr) (nodeId pushedKey rightId : ℕ) : PageProg Unit := do
  let leftId ← Pool.getUnusedPageNum
  let left ← Pool.getPage leftId
  let buf ← Pool.load node
  Pool.store .btree left buf
  modify left (Node.setIsRoot false)
  Pool.markDirty leftId
  modify node (Node.initializeAsInternal true)
  modify node (Node.setNumCells 1)
  modifyChecked node (Node.setLeftChildId 0 leftId)
  modifyChecked node (Node.setKey 0 pushedKey)
  modify node (Node.setRightmostChildId rightId)
  Pool.markDirty nodeId

/-- **A node becomes a root** above a copy of itself and another node; two
pages change. -/
theorem runs_rootAbove {p : ℕ} {node : PagePtr} (hnode : node.page = p) (hne : p ≠ s.nextPageId)
    (hnext : s.nextPageId < 4294967296) (hright : right < 4294967296) (hsep : sep < 4294967296) :
    Runs (rootAbove node p sep right) s (fun _ s' => ∃ b,
      s'.pages = Function.update (Function.update s.pages s.nextPageId
        (Node.setIsRoot false (s.pages p))) p b
      ∧ IsNewRoot (Node.view b) sep s.nextPageId right
      ∧ s'.nextPageId = (s.handOut.touch s.nextPageId).nextPageId
      ∧ s'.extent = max (max s.extent (s.nextPageId + 1)) (p + 1)
      ∧ ∀ T : ℕ → Prop, T p → T s.nextPageId → Store.Within .btree T s s') := by
  obtain ⟨b, b', hb, hb', hroot⟩ := newRoot_spec hnext hright hsep (s.pages p)
  unfold rootAbove
  simp only [runs_bind, runs_getUnusedPageNum, runs_getPage, runs_load, runs_store, runs_modify,
    runs_markDirty, runs_modifyChecked, hnode, Store.pages_put, Store.pages_mark,
    Store.pages_touch, Store.pages_handOut, Function.update_self, Function.update_of_ne hne,
    Function.update_idem, hb, hb', Except.ok.injEq, exists_eq_left']
  refine ⟨_, rfl, hroot, rfl, rfl, fun T hT hTn => ?_⟩
  exact (Store.Within.refl _ T s).handOut hTn |>.touch _ |>.put _ hTn |>.put _ hTn |>.mark _
    |>.put _ hT |>.put _ hT |>.put _ hT |>.put _ hT |>.put _ hT |>.mark _

/-- Page `0` becomes a root above a copy of itself. -/
theorem runs_newRoot {node : PagePtr} (hnode : node.page = 0)
    (hpos : 0 < s.nextPageId) (hnext : s.nextPageId + 1 < 4294967296)
    (hright : right < 4294967296) (hsep : sep < 4294967296) :
    Runs (rootAbove node rootPageId sep right) s (fun _ s' => NewRoot s s' right sep) := by
  refine (runs_rootAbove hnode hpos.ne (Nat.lt_of_succ_lt hnext) hright hsep).mono ?_
  rintro - s' ⟨b, hpages, hroot, hnext', hextent, hwithin⟩
  exact .of_pages hpos (hnext'.trans (s.nextPageId_fresh hnext)) hextent hpages hroot hwithin

/-- **A new root makes a tree** of the halves of the old one. -/
theorem NewRoot.grown (h : NewRoot s s' right sep) (hs : Shape T lab H)
    (hbase : 1 ≤ base) (hsmall : base ≤ 2147483648) (hle : base ≤ s.nextPageId)
    (hsync : s.extent = s.nextPageId) (howned : Owned base s.nextPageId = withPage T right)
    (hfresh : ¬ T right) (hlo : 0 < sep) (hhi : sep < 4294967296)
    (hrest : ∀ p, T p → p ≠ 0 → NodeOk Leaf T lab p (Node.view (s.pages p)) (lab p))
    (hleft : ∀ left, left ≠ 0 →
      NodeOk Leaf T lab left ((Node.view (s.pages 0)).withRoot false) ⟨H, 0, sep⟩)
    (hright : NodeOk Leaf T lab right (Node.view (s.pages right)) ⟨H, sep, 4294967296⟩) :
    Grown Leaf base (cutLab lab 0 right sep) s s' := by
  have hnext := h.next
  have hown : Owned base s'.nextPageId = withPage (withPage T right) s.nextPageId := by
    rw [hnext, owned_succ hle, howned]
  have hL : ¬ withPage T right s.nextPageId := by
    rw [← howned]
    unfold Owned
    omega
  have hTL : ∀ q, T q → q ≠ s.nextPageId := fun q hq he => hL (Or.inl (he ▸ hq))
  have hr0 : right ≠ 0 := fun he => hfresh (he ▸ hs.root)
  have hrL : right ≠ s.nextPageId := fun he => hL (Or.inr he.symm)
  refine ⟨⟨growLab lab H s.nextPageId right sep, H + 1, ⟨hbase, hsmall, by omega, ?_, ?_⟩,
    fun hlinks => ?_⟩, ?_, by omega⟩
  · rw [h.extent, hnext]
    omega
  · rw [hown]
    refine Tree.grow hs (fun p hp hp0 => ?_) hfresh hL hlo hhi ?_ ?_ h.type h.root h.keys
      h.children
    · rw [h.frame p hp0 (hTL p hp)]
      exact hrest p hp hp0
    · rw [h.copy, Node.view_setIsRoot]
      exact hleft _ (by omega)
    · rw [h.frame right hr0 hrL]
      exact hright
  · rw [howned] at hlinks
    rw [hown]
    refine hlinks.grow hs hfresh hL hlo ?_ h.frame
    rw [h.copy, Node.view_setIsRoot]
    rfl
  · rw [hown]
    exact h.within _ (Or.inl (Or.inl hs.root)) (Or.inr rfl)

/-! ## Splitting an inner node -/

/-- **An inner node was cut** into itself and the next page. -/
structure Halved (s s' : Store) (node : ℕ) (keys children : List ℕ) : Prop where
  /-- One page was handed out. -/
  next : s'.nextPageId = s.nextPageId + 1
  /-- It was marked dirty. -/
  extent : s'.extent = max s.extent (s.nextPageId + 1)
  /-- The lower half stayed. -/
  lower : IsHalf (Node.view (s'.pages node)) (keys.take 255) (children.take 256)
  /-- The upper half is in the new page. -/
  upper : IsHalf (Node.view (s'.pages s.nextPageId)) ((keys.drop 256).take 255)
    ((children.drop 256).take 256)
  /-- The other pages are as they were. -/
  frame : ∀ q, q ≠ node → q ≠ s.nextPageId → s'.pages q = s.pages q
  /-- Two pages were written. -/
  within : ∀ T : ℕ → Prop, T node → T s.nextPageId → Store.Within .btree T s s'

/-- The pages of an inner node cut in two. -/
theorem Halved.of_pages {node : ℕ} {keys children : List ℕ} {b b' : Page}
    (hne : s.nextPageId ≠ node) (hnext : s'.nextPageId = s.nextPageId + 1)
    (hextent : s'.extent = max s.extent (s.nextPageId + 1))
    (hpages : s'.pages = Function.update (Function.update s.pages node b) s.nextPageId b')
    (hb : IsHalf (Node.view b) (keys.take 255) (children.take 256))
    (hb' : IsHalf (Node.view b') ((keys.drop 256).take 255) ((children.drop 256).take 256))
    (hwithin : ∀ T : ℕ → Prop, T node → T s.nextPageId → Store.Within .btree T s s') :
    Halved s s' node keys children := by
  refine ⟨hnext, hextent, ?_, ?_, fun q hq hqn => ?_, hwithin⟩
  · rw [hpages, Function.update_of_ne hne.symm, Function.update_self]
    exact hb
  · rw [hpages, Function.update_self]
    exact hb'
  · rw [hpages, Function.update_of_ne hqn, Function.update_of_ne hq]

/-- The array once both halves of a node are written. -/
def halvedStore (s : Store) (node : ℕ) (b b' : Page) : Store :=
  (((((s.atClock (s.clock + 1)).put .btree node b).handOut.touch s.nextPageId).put .btree
    s.nextPageId b').mark s.nextPageId)

section HalvedStore

variable {node : ℕ} {b b' : Page}

theorem nextPageId_halvedStore (node : ℕ) (b b' : Page)
    (hnext : s.nextPageId + 1 < 4294967296) :
    (halvedStore s node b b').nextPageId = s.nextPageId + 1 :=
  ((s.atClock (s.clock + 1)).put .btree node b).nextPageId_fresh hnext

@[simp] theorem pages_halvedStore : (halvedStore s node b b').pages
    = Function.update (Function.update s.pages node b) s.nextPageId b' := rfl

@[simp] theorem extent_halvedStore :
    (halvedStore s node b b').extent = max s.extent (s.nextPageId + 1) := rfl

theorem within_halvedStore {T : ℕ → Prop} (hT : T node) (hTn : T s.nextPageId) :
    Store.Within .btree T s (halvedStore s node b b') :=
  (((Store.Within.refl _ T s).atClock (s.clock + 1)).put b hT).handOut hTn |>.touch _
    |>.put b' hTn |>.mark _

end HalvedStore

/-- The array once both halves of a node are written, which may be the first
request for it. -/
def cutStore (s : Store) (node : ℕ) (b b' : Page) : Store :=
  ((((s.touch node).put .btree node b).handOut.touch (s.touch node).nextPageId).put .btree
    (s.touch node).nextPageId b').mark (s.touch node).nextPageId

theorem cutStore_eq {node : ℕ} (b b' : Page) (hnode : node < s.nextPageId) :
    cutStore s node b b' = halvedStore s node b b' := by
  rw [cutStore, Store.touch_eq_atClock hnode]
  rfl

/-- What `internal_node_split_and_insert` does once both halves are written. -/
def attachInner (node : PagePtr) (nodeId : ℕ) (wasRoot : Bool)
    (insertIntoParent : ℕ → ℕ → PageProg Unit) (pushedKey rightId : ℕ) : PageProg Unit :=
  if wasRoot then rootAbove node nodeId pushedKey rightId
  else do
    modify node (Node.setIsRoot false)
    Pool.markDirty nodeId
    insertIntoParent pushedKey rightId

/-- The keys of a node are 32-bit numbers. -/
theorem keys_view_lt (buf : Page) : ∀ x ∈ (Node.view buf).keys, x < 4294967296 := by
  intro x hx
  obtain ⟨c, hc, rfl⟩ := List.mem_map.mp hx
  obtain ⟨j, -, rfl⟩ := mem_cells.mp hc
  exact (Node.cell_view_lt buf j).1

/-- So are its children. -/
theorem children_view_lt (buf : Page) : ∀ x ∈ (Node.view buf).children, x < 4294967296 := by
  intro x hx
  rcases List.mem_append.mp hx with hx | hx
  · obtain ⟨c, hc, rfl⟩ := List.mem_map.mp hx
    obtain ⟨j, -, rfl⟩ := mem_cells.mp hc
    exact (Node.cell_view_lt buf j).2
  · rw [List.mem_singleton.mp hx]
    exact Node.link_view_lt buf

/-- **The merged node is cut** into the page of the node and the next page. -/
theorem runs_internalNodeSplitAndInsert_iff {node slot pushed : ℕ}
    (hnum : (Node.view (s.pages node)).num = 510) (hne : (s.touch node).nextPageId ≠ node)
    (hslot : (Node.view (s.pages node)).keys.findIdx (fun k => decide (sep < k)) = slot)
    (hsep : sep < 4294967296) (hright : right < 4294967296)
    (hpushed : (insertAt (Node.view (s.pages node)).keys slot sep)[255]? = some pushed) :
    ∃ b b', IsHalf (Node.view b) ((insertAt (Node.view (s.pages node)).keys slot sep).take 255)
        ((insertAt (Node.view (s.pages node)).children (slot + 1) right).take 256)
      ∧ IsHalf (Node.view b')
        (((insertAt (Node.view (s.pages node)).keys slot sep).drop 256).take 255)
        (((insertAt (Node.view (s.pages node)).children (slot + 1) right).drop 256).take 256)
      ∧ pushed < 4294967296
      ∧ ∀ insertIntoParent Q, Runs (internalNodeSplitAndInsert node sep right insertIntoParent) s Q
        ↔ Runs (attachInner ⟨node, s.clock⟩ node (Node.isRoot (s.pages node)) insertIntoParent
          pushed (s.touch node).nextPageId) (cutStore s node b b') Q := by
  obtain ⟨hlk, hlc⟩ := SplitTree.length_merged slot sep right hnum
  have hkeys := forall_mem_insertAt slot (keys_view_lt (s.pages node)) hsep
  have hchildren := forall_mem_insertAt (slot + 1) (children_view_lt (s.pages node)) hright
  obtain ⟨b, hb, hbt, hbr, hbk, hbc⟩ := fillInternal_spec hkeys hchildren 0 255
    (by omega) (by omega) (by omega) (s.pages node)
  obtain ⟨b', hb', hbt', hbr', hbk', hbc'⟩ := fillInternal_spec hkeys hchildren 256 255
    (by omega) (by omega) (by omega) (s.pages (s.touch node).nextPageId)
  have hold : (Node.view (s.pages node)).cells.map Prod.snd
      ++ [Node.getRightmostChildId (s.pages node)] = (Node.view (s.pages node)).children := rfl
  have hle : slot ≤ Node.maxCells := by
    have hlen : (Node.view (s.pages node)).keys.length = 510 := by simp [hnum]
    rw [← hslot]
    exact List.findIdx_le_length.trans hlen.le
  have hmerged := mergeArrays_spec (n := Node.maxCells) (by rw [NodeView.length_keys, hnum]; rfl)
    (by rw [NodeView.length_children, hnum]; rfl) hle sep right
  have hm : (Node.maxCells + 1) / 2 = 255 := rfl
  have hm' : Node.maxCells - 255 = 255 := rfl
  have hd : (insertAt (Node.view (s.pages node)).keys slot sep).getD 255 0 = pushed := by
    rw [List.getD_eq_getElem?_getD, hpushed]
    rfl
  refine ⟨b, b', ⟨hbt, hbr, hbk, hbc⟩, ⟨hbt', hbr', hbk', hbc'⟩,
    hkeys _ (List.mem_of_getElem? hpushed), fun insertIntoParent Q => ?_⟩
  unfold internalNodeSplitAndInsert
  simp only [runs_bind, runs_getUnusedPageNum, runs_getPage, runs_load, runs_modifyChecked,
    runs_markDirty, runs_lift, Store.pages_put, Store.pages_touch, Store.pages_handOut,
    mapM_getKey_eq hnum, mapM_getLeftChildId_eq hnum, hold, hslot, hmerged, hm, hm', hd, hb,
    Except.ok.injEq, exists_eq_left', Function.update_of_ne hne, Store.nextPageId_put,
    Nat.reduceAdd, hb']
  rfl

/-- **`internal_node_split_and_insert`** cuts the merged node, and then puts
a new root above the halves or goes on with the parent. -/
theorem runs_internalNodeSplitAndInsert {node slot pushed : ℕ}
    {insertIntoParent : ℕ → ℕ → PageProg Unit} {Q : Unit → Store → Prop}
    (hnum : (Node.view (s.pages node)).num = 510) (hnode : node < s.nextPageId)
    (hnext : s.nextPageId + 2 < 4294967296) (hsync : s.extent = s.nextPageId)
    (hslot : (Node.view (s.pages node)).keys.findIdx (fun k => decide (sep < k)) = slot)
    (hsep : sep < 4294967296) (hright : right < 4294967296)
    (hpushed : (insertAt (Node.view (s.pages node)).keys slot sep)[255]? = some pushed)
    (hroot : (Node.view (s.pages node)).root = true → node = 0)
    (hnew : ∀ s₂ s', (Node.view (s.pages node)).root = true →
      Halved s s₂ node (insertAt (Node.view (s.pages node)).keys slot sep)
        (insertAt (Node.view (s.pages node)).children (slot + 1) right) →
      NewRoot s₂ s' s.nextPageId pushed → Q () s')
    (hup : ∀ s', (Node.view (s.pages node)).root = false →
      Halved s s' node (insertAt (Node.view (s.pages node)).keys slot sep)
        (insertAt (Node.view (s.pages node)).children (slot + 1) right) →
      Runs (insertIntoParent pushed s.nextPageId) s' Q) :
    Runs (internalNodeSplitAndInsert node sep right insertIntoParent) s Q := by
  have hne : s.nextPageId ≠ node := by omega
  have htouch := Store.nextPageId_touch_of_lt _ _ hnode
  obtain ⟨b, b', hlower, hupper, hpush, hiff⟩ := runs_internalNodeSplitAndInsert_iff
    hnum (htouch.symm ▸ hne) hslot hsep hright hpushed
  have hnext' := nextPageId_halvedStore node b b' (show s.nextPageId + 1 < 4294967296 from by omega)
  rw [hiff, cutStore_eq b b' hnode, htouch, attachInner]
  refine runs_ite (fun hr => ?_) (fun hr => ?_)
  · have hhalved : Halved s (halvedStore s node b b') node _ _ :=
      .of_pages hne hnext' rfl rfl hlower hupper (fun T hT hTn => within_halvedStore hT hTn)
    obtain rfl := hroot hr
    exact (runs_newRoot rfl (by omega) (by omega) (by omega) hpush).mono
      (fun _ s' => hnew _ s' hr hhalved)
  · simp only [runs_bind, runs_modify, runs_markDirty]
    refine hup _ (eq_false_of_ne_true hr)
      (.of_pages hne hnext' ?_ ?_ (b := Node.setIsRoot false b) ?_ hupper ?_)
    · show max (max s.extent (s.nextPageId + 1)) (node + 1) = _
      omega
    · simp only [Store.pages_put, Store.pages_mark, pages_halvedStore,
        Function.update_of_ne hne.symm, Function.update_self]
      rw [Function.update_comm hne, Function.update_idem]
    · exact hlower.setIsRoot
    · exact fun T hT hTn => ((within_halvedStore hT hTn).put _ hT).mark _

/-! ## Up the path -/

/-- **A pool holds a tree with a page cut in two.** -/
structure SplitState (Leaf : LeafSpec) (base : ℕ) (T : ℕ → Prop) (lab : ℕ → Label) (H : ℕ)
    (s : Store) (c right sep : ℕ) : Prop where
  /-- As for a tree. -/
  base_pos : 1 ≤ base
  base_small : base ≤ 2147483648
  base_le : base ≤ s.nextPageId
  synced : s.extent = s.nextPageId
  /-- The upper half is in the one page that is not yet the tree's. -/
  owned : Owned base s.nextPageId = withPage T right
  /-- What the pages are. -/
  split : SplitTree Leaf T lab H s.pages c right sep

namespace SplitState

variable {parent slot pushed : ℕ}

theorem atClock (h : SplitState Leaf base T lab H s c right sep) (k : ℕ) :
    SplitState Leaf base T lab H (s.atClock k) c right sep :=
  ⟨h.base_pos, h.base_small, h.base_le, h.synced, h.owned, h.split⟩

theorem lt_next (h : SplitState Leaf base T lab H s c right sep) {p : ℕ}
    (hp : withPage T right p) : p < s.nextPageId := by
  rw [← h.owned] at hp
  have h1 := h.base_pos
  have h2 := h.base_le
  unfold Owned at hp
  omega

theorem sep_lt (h : SplitState Leaf base T lab H s c right sep) : sep < 4294967296 :=
  h.split.sep_hi.trans_le (h.split.shape.hi_le c h.split.mem)

/-- The next page is not one of the tree's. -/
theorem next_fresh (h : SplitState Leaf base T lab H s c right sep) :
    ¬ withPage T right s.nextPageId := fun hp => absurd (h.lt_next hp) (lt_irrefl _)

/-- The parent is above the leaves. -/
theorem parent_lvl (h : SplitState Leaf base T lab H s c right sep)
    (hP : SplitTree.Parent T lab s.pages c parent slot) :
    (cutLab lab c right sep parent).lvl ≠ 0 := by
  rw [(h.split.cutLab_sub hP.mem).1, hP.lvl]
  exact Nat.succ_ne_zero _

/-- **A parent with room takes the separator.** -/
theorem runs_parentInsert (h : SplitState Leaf base T lab H s c right sep)
    (hP : SplitTree.Parent T lab s.pages c parent slot) (hroom : s.nextPageId < 4294967296)
    (hnum : (Node.view (s.pages parent)).num < 510) {ptr : PagePtr} (hptr : ptr.page = parent) :
    Runs (do modifyChecked ptr (parentInsert slot sep right); Pool.markDirty parent) s
      (fun _ s' => Grown Leaf base (cutLab lab c right sep) s s') := by
  have hPT : withPage T right parent := Or.inl hP.mem
  have hPlt := h.lt_next hPT
  have hrlt : right < 4294967296 := (h.lt_next (Or.inr rfl)).trans hroom
  have hsync := h.synced
  obtain ⟨b, hb, htype, hroot, hkeys, hchildren⟩ :=
    parentInsert_spec hnum (SplitTree.slot_le hP) h.sep_lt hrlt
  simp only [runs_bind, runs_modifyChecked, runs_markDirty, hptr, hb, Except.ok.injEq,
    exists_eq_left']
  have hown : Owned base s.nextPageId parent := by
    rw [h.owned]
    exact hPT
  have hle : (Node.view b).num ≤ 510 := by
    have hl := congrArg List.length hkeys
    rw [NodeView.length_keys, length_insertAt, NodeView.length_keys] at hl
    omega
  refine ⟨⟨cutLab lab c right sep, H, ⟨h.base_pos, h.base_small, h.base_le, ?_, ?_⟩,
    fun hlinks => hlinks.congr (fun p hp hl => ⟨hp, rfl, ?_⟩) (fun p hp _ => ⟨hp, rfl⟩)⟩, ?_,
    le_rfl⟩
  · show max s.extent (parent + 1) = s.nextPageId
    omega
  · show Tree Leaf (Owned base s.nextPageId) _ H _
    rw [h.owned]
    refine h.split.close hP htype hroot hle hkeys hchildren ?_ (fun q hq => ?_)
    · exact congrArg Node.view (Function.update_self _ _ _)
    · exact Function.update_of_ne hq _ _
  · have hne : p ≠ parent := by
      rintro rfl
      exact h.parent_lvl hP hl
    rw [Store.pages_mark, Store.pages_put, Function.update_of_ne hne]
  · exact ((Store.Within.refl _ _ s).put b hown).mark parent

section AtParent

variable (h : SplitState Leaf base T lab H s c right sep)
  (hP : SplitTree.Parent T lab s.pages c parent slot)
  (hnum : (Node.view (s.pages parent)).num = 510)
  (hpushed : (insertAt (Node.view (s.pages parent)).keys slot sep)[255]? = some pushed)
  (hh : Halved s s' parent (insertAt (Node.view (s.pages parent)).keys slot sep)
    (insertAt (Node.view (s.pages parent)).children (slot + 1) right))
include h hh

/-- Cutting a node keeps the counters together. -/
theorem synced_halved : s'.extent = s'.nextPageId := by
  have hsync := h.synced
  rw [hh.extent, hh.next]
  omega

/-- The page handed out is the one that is not yet the tree's. -/
theorem owned_halved :
    Owned base s'.nextPageId = withPage (withPage T right) s.nextPageId := by
  rw [hh.next, owned_succ h.base_le, h.owned]

include hP

/-- Cutting the parent leaves the leaves linked. -/
theorem links_halved (hlinks : Linked (Owned base s.nextPageId) (cutLab lab c right sep) s.pages) :
    Linked (Owned base s'.nextPageId)
      (cutLab (cutLab lab c right sep) parent s.nextPageId pushed) s'.pages := by
  rw [h.owned] at hlinks
  rw [h.owned_halved hh]
  refine hlinks.cut_inner (Or.inl hP.mem) h.next_fresh (h.parent_lvl hP) (fun q hq hne => ?_)
  exact hh.frame q hne (fun he => h.next_fresh (he ▸ hq))

include hnum hpushed

/-- **A full parent is cut in turn.** -/
theorem lift (hne : parent ≠ 0) : SplitState Leaf base (withPage T right) (cutLab lab c right sep) H
    s' parent s.nextPageId pushed := by
  refine ⟨h.base_pos, h.base_small, ?_, h.synced_halved hh, h.owned_halved hh, ?_⟩
  · rw [hh.next]
    exact h.base_le.trans (Nat.le_succ _)
  · exact h.split.lift hP hne hnum hpushed h.next_fresh hh.lower hh.upper hh.frame

/-- **A full root is cut** and a new one put above it. -/
theorem grown (h0 : parent = 0) {s'' : Store} (hn : NewRoot s' s'' s.nextPageId pushed) :
    Grown Leaf base (cutLab lab c right sep) s s'' := by
  subst h0
  obtain ⟨hf1, hf2⟩ := h.split.merged_cut hP hnum hpushed
  obtain ⟨hlk, -⟩ := SplitTree.length_merged slot sep right hnum
  have hlab := h.split.shape.root_lab
  have hlvl : (lab c).lvl + 1 = H := by
    rw [← hP.lvl, hlab]
  have hnR : ∀ q, withPage T right q → q ≠ s.nextPageId := fun q hq he => h.next_fresh (he ▸ hq)
  have hR0 : s.nextPageId ≠ 0 := (hnR 0 (Or.inl h.split.shape.root)).symm
  rw [hlab] at hf1 hf2
  have hown : Owned base s'.nextPageId 0 := Or.inl rfl
  have hownR : Owned base s'.nextPageId s.nextPageId := by
    rw [h.owned_halved hh]
    exact Or.inr rfl
  have hle : base ≤ s'.nextPageId := by
    rw [hh.next]
    exact h.base_le.trans (Nat.le_succ _)
  refine (hn.grown h.split.shape_cut h.base_pos h.base_small hle (h.synced_halved hh)
    (h.owned_halved hh) h.next_fresh hf1.lt hf2.lt (fun p hp hp0 => ?_) (fun left hl0 => ?_)
    ?_).after (h.links_halved hP hh) (hh.within _ hown hownR) (by rw [hh.next]; exact Nat.le_succ _)
  · rw [hh.frame p hp0 (hnR p hp)]
    exact h.split.others_cut hP hp hp0
  · have hhalf : IsHalf ((Node.view (s'.pages 0)).withRoot false) _ _ :=
      ⟨hh.lower.type, rfl, hh.lower.keys, hh.lower.children⟩
    rw [← hlvl]
    exact hhalf.nodeOk (by simp only [List.length_take]; omega) hl0 hf1
  · rw [← hlvl]
    exact hh.upper.nodeOk (by simp only [List.length_take, List.length_drop]; omega) hR0 hf2

end AtParent

end SplitState

/-- **`insert_into_parent` makes a tree** of a tree with a page cut in two, by
induction on the path: each level takes the separator or hands one on. -/
theorem runs_insertIntoParent : ∀ (ancestors : Ancestors) (T : ℕ → Prop) (lab : ℕ → Label)
    (c right sep : ℕ) (s : Store), SplitState Leaf base T lab H s c right sep →
    Path T lab s.pages ancestors c → s.nextPageId + ancestors.length + 1 < 4294967296 →
    Runs (insertIntoParent sep right ancestors) s
      (fun _ s' => Grown Leaf base (cutLab lab c right sep) s s')
  | [], _, _, _, _, _, _, h, hpath, _ => absurd hpath h.split.ne_root
  | (parent, slot) :: ancestors, T, lab, c, right, sep, s, h, ⟨hP, hpath⟩, hroom => by
    have hok := h.split.parent_ok hP
    have hPlt := h.lt_next (Or.inl hP.mem)
    rw [List.length_cons] at hroom
    rw [insertIntoParent]
    simp only [runs_bind, runs_getPage]
    rw [Store.touch_eq_atClock hPlt]
    rw [runs_load]
    have h' := h.atClock (s.clock + 1)
    refine runs_ite (fun hnum => ?_) (fun hnum => ?_)
    · exact (h'.runs_parentInsert hP (show s.nextPageId < 4294967296 from by omega) hnum rfl).mono
        (fun _ _ hg => hg.of_atClock)
    have hfull : (Node.view (s.pages parent)).num = 510 :=
      le_antisymm hok.num_le (not_lt.mp hnum)
    have hlen := (SplitTree.length_merged slot sep right hfull).1
    have hpushed := List.getElem?_eq_getElem
      (show 255 < (insertAt (Node.view (s.pages parent)).keys slot sep).length from by omega)
    have hroot := hok.root
    refine runs_internalNodeSplitAndInsert hfull hPlt
      (show s.nextPageId + 2 < 4294967296 from by omega) h'.synced (h.split.slot_eq hP) h.sep_lt
      (show right < 4294967296 from by have hr := h.lt_next (Or.inr rfl); omega) hpushed ?_ ?_ ?_
    · intro hr
      exact of_decide_eq_true (hroot.symm.trans hr)
    · intro s₂ s' hr hh hn
      exact (h'.grown hP hfull hpushed hh (of_decide_eq_true (hroot.symm.trans hr)) hn).of_atClock
    · intro s' hr hh
      have hne : parent ≠ 0 := of_decide_eq_false (hroot.symm.trans hr)
      have hlift := h'.lift hP hfull hpushed hh hne
      have hfresh := h.next_fresh
      have hown : Owned base s'.nextPageId parent := by
        rw [h'.owned_halved hh]
        exact Or.inl (Or.inl hP.mem)
      have hownR : Owned base s'.nextPageId s.nextPageId := by
        rw [h'.owned_halved hh]
        exact Or.inr rfl
      have hnext := hh.next
      refine (runs_insertIntoParent ancestors _ _ _ _ _ s' hlift ?_ ?_).mono (fun _ s'' hg => ?_)
      · refine hpath.congr (h.split.cutLab_sub hP.mem).1 (fun q hq hlt => ⟨Or.inl hq,
          (h.split.cutLab_sub hq).1, hh.frame q ?_ ?_⟩)
        · rintro rfl
          exact lt_irrefl _ hlt
        · rintro rfl
          exact hfresh (Or.inl hq)
      · rw [hnext]
        show s.nextPageId + 1 + ancestors.length + 1 < 4294967296
        omega
      · refine (hg.after (h'.links_halved hP hh) (hh.within _ hown hownR) ?_).of_atClock
        rw [hnext]
        exact Nat.le_succ _

end BTree
