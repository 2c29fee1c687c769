import SqlMini.TreeSplit

/-!
# Insertions and removals

An insertion changes the leaf of its key, or cuts it in two when it is full
and hands the cut to the path above; a removal writes a tombstone. What a
leaf holds is still left open: `LeafStep` and `LeafBury` say what the two
must do to what a leaf owes its range, and the rest of the argument does not
look further (`runs_insert`, `runs_remove`).
-/

namespace BTree

open PageProg

variable {Leaf Leaf' : LeafSpec} {T : ℕ → Prop} {lab : ℕ → Label} {H base : ℕ} {s s' : Store}
  {key value : ℕ}

/-! ## Splitting a leaf -/

/-- Cell `i` of a leaf with the new cell among the others. -/
def mergedCell (v : NodeView) (ins : ℕ) (c : ℕ × ℕ) (i : ℕ) : ℕ × ℕ :=
  if i = ins then c else if ins < i then v.cell (i - 1) else v.cell i

/-- The merged cells by position. -/
theorem getElem?_mergedCell {v : NodeView} {ins : ℕ} {c : ℕ × ℕ} (hins : ins ≤ v.num) (i : ℕ) :
    (insertAt v.cells ins c)[i]? = if i ≤ v.num then some (mergedCell v ins c i) else none := by
  have hlen := v.length_cells
  unfold mergedCell
  rcases Nat.lt_trichotomy i ins with hi | rfl | hi
  · rw [getElem?_insertAt_of_lt (by omega) hi, getElem?_cells_eq, if_pos (by omega),
      if_pos (by omega), if_neg (by omega), if_neg (by omega)]
  · rw [getElem?_insertAt_self (by omega), if_pos hins, if_pos rfl]
  · rw [getElem?_insertAt_of_gt (by omega) hi, getElem?_cells_eq]
    by_cases hn : i ≤ v.num
    · rw [if_pos (by omega), if_pos hn, if_neg (by omega), if_pos hi]
    · rw [if_neg (by omega), if_neg hn]

/-- A leaf that holds a slice of the merged cells. -/
theorem cells_eq_slice {u v : NodeView} {ins : ℕ} {c : ℕ × ℕ} (off n : ℕ) (hins : ins ≤ v.num)
    (hnum : u.num = n) (hle : off + n ≤ v.num + 1)
    (hcell : ∀ j, j < n → u.cell j = mergedCell v ins c (off + j)) :
    u.cells = ((insertAt v.cells ins c).drop off).take n := by
  refine List.ext_getElem? (fun j => ?_)
  rw [getElem?_cells_eq, hnum, List.getElem?_take, List.getElem?_drop, getElem?_mergedCell hins]
  by_cases hj : j < n
  · rw [if_pos hj, if_pos hj, if_pos (by omega), hcell j hj]
  · rw [if_neg hj, if_neg hj]

/-- **The redistribution at work**: the cells from `i` on are where they
belong. -/
structure Redistributed (s : Store) (old new : ℕ) (v w : NodeView) (ins : ℕ) (c : ℕ × ℕ) (i : ℕ)
    (s' : Store) : Prop where
  /-- The lower half so far. -/
  lower : Node.view (s'.pages old)
    = v.withCell (fun j => if i ≤ j ∧ j < 255 then mergedCell v ins c j else v.cell j)
  /-- The upper half so far. -/
  upper : ∃ cell, Node.view (s'.pages new) = w.withCell cell
    ∧ ∀ j, j < 256 → i ≤ 255 + j → cell j = mergedCell v ins c (255 + j)
  /-- One page was handed out. -/
  next : s'.nextPageId = (s.handOut.touch s.nextPageId).nextPageId
  /-- Nothing else changed. -/
  extent : s'.extent = s.extent
  frame : ∀ q, q ≠ old → q ≠ new → s'.pages q = s.pages q
  within : ∀ T : ℕ → Prop, T old → T new → Store.Within .btree T s s'

/-- **One step of the redistribution**: the cell read was not overwritten
yet. -/
theorem runs_redistribute {old new : PagePtr} (hne : old.page ≠ new.page) {v w : NodeView}
    {ins : ℕ} (hins : ins ≤ 510) (hkey : key < 4294967296) (hvalue : value < 4294967296)
    (hv : ∀ j, (v.cell j).1 < 4294967296 ∧ (v.cell j).2 < 4294967296) {i : ℕ} (hi : i ≤ 510)
    (h : Redistributed s old.page new.page v w ins (key, value) (i + 1) s') :
    Runs (redistribute old new key value ins 255 i) s'
      (fun _ => Redistributed s old.page new.page v w ins (key, value) i) := by
  have hc : (mergedCell v ins (key, value) i).1 < 4294967296
      ∧ (mergedCell v ins (key, value) i).2 < 4294967296 := by
    unfold mergedCell
    split
    · exact ⟨hkey, hvalue⟩
    · split
      · exact hv _
      · exact hv _
  have hread : ∀ j, j ≤ i → j < 510 → Node.getCell (s'.pages old.page) j = .ok (v.cell j) := by
    intro j hj hj'
    rw [Node.getCell_eq hj', h.lower, NodeView.cell_withCell, if_neg (by omega)]
  have hcell : (if (i : ℤ) = ins then .ok (key, value)
      else if (ins : ℤ) < i then Node.getCell (s'.pages old.page) (i - 1)
      else Node.getCell (s'.pages old.page) i) = .ok (mergedCell v ins (key, value) i) := by
    unfold mergedCell
    rcases Nat.lt_trichotomy i ins with hlt | rfl | hgt
    · rw [if_neg (by omega), if_neg (by omega), if_neg (by omega), if_neg (by omega),
        hread i le_rfl (by omega)]
    · rw [if_pos rfl, if_pos rfl]
    · rw [if_neg (by omega), if_pos (by omega), if_neg (by omega), if_pos hgt,
        hread (i - 1) (by omega) (by omega)]
  unfold redistribute
  simp only [runs_bind, runs_load, runs_lift_ok hcell, runs_modifyChecked]
  by_cases hsplit : 255 ≤ i
  · obtain ⟨b, hb, hvb⟩ := Node.setCell_spec (show i - 255 < 510 from by omega) hc
      (s'.pages new.page)
    obtain ⟨cell, hup, hcells⟩ := h.upper
    rw [if_pos hsplit, if_pos hsplit]
    refine ⟨b, hb, ⟨?_, ⟨Function.update cell (i - 255) (mergedCell v ins (key, value) i), ?_, ?_⟩,
      h.next, h.extent, ?_, fun T hT hT' => (h.within T hT hT').put b hT'⟩⟩
    · rw [Store.pages_put, Function.update_of_ne hne, h.lower]
      refine v.withCell_congr (fun j => ?_)
      by_cases hj : i + 1 ≤ j ∧ j < 255
      · omega
      · rw [if_neg hj, if_neg (by omega)]
    · rw [Store.pages_put, Function.update_self, hvb, hup]
      rfl
    · intro j hj hij
      by_cases hji : j = i - 255
      · have hi255 : 255 + j = i := by omega
        rw [hji, Function.update_self, ← hji, hi255]
      · rw [Function.update_of_ne hji]
        exact hcells j hj (by omega)
    · intro q hq hq'
      rw [Store.pages_put, Function.update_of_ne hq', h.frame q hq hq']
  · obtain ⟨b, hb, hvb⟩ := Node.setCell_spec (show i < 510 from by omega) hc (s'.pages old.page)
    obtain ⟨cell, hup, hcells⟩ := h.upper
    rw [if_neg hsplit, if_neg hsplit]
    refine ⟨b, hb, ⟨?_, ⟨cell, ?_, fun j hj hij => hcells j hj (by omega)⟩, h.next, h.extent, ?_,
      fun T hT hT' => (h.within T hT hT').put b hT⟩⟩
    · rw [Store.pages_put, Function.update_self, hvb, h.lower, NodeView.withCell_withCell,
        NodeView.cell_withCell]
      refine v.withCell_congr (fun j => ?_)
      by_cases hji : j = i
      · subst hji
        rw [Function.update_self, if_pos (by omega)]
      · rw [Function.update_of_ne hji]
        by_cases hj : i + 1 ≤ j ∧ j < 255
        · rw [if_pos hj, if_pos (by omega)]
        · rw [if_neg hj, if_neg (by omega)]
    · rw [Store.pages_put, Function.update_of_ne hne.symm]
      exact hup
    · intro q hq hq'
      rw [Store.pages_put, Function.update_of_ne hq, h.frame q hq hq']

/-- The array when the redistribution starts. -/
def splitStart (s : Store) (leaf : ℕ) : Store :=
  (((s.handOut.touch s.nextPageId).put .btree s.nextPageId
      (Node.initializeAsLeaf false (s.pages s.nextPageId))).put .btree s.nextPageId
      (Node.setNextLeafId (Node.getNextLeafId (s.pages leaf))
        (Node.initializeAsLeaf false (s.pages s.nextPageId)))).put .btree leaf
      (Node.setNextLeafId s.nextPageId (s.pages leaf))

theorem redistributed_start {leaf ins : ℕ} {c : ℕ × ℕ} :
    Redistributed s leaf s.nextPageId (Node.view ((splitStart s leaf).pages leaf))
      (Node.view ((splitStart s leaf).pages s.nextPageId)) ins c 511 (splitStart s leaf) := by
  refine ⟨?_, ⟨(Node.view ((splitStart s leaf).pages s.nextPageId)).cell, rfl,
    fun j hj hij => by omega⟩, rfl, rfl, fun q hq hqn => ?_, fun T hT hTn => ?_⟩
  · refine NodeView.eq_withCell _ (fun j => ?_)
    rw [if_neg (by omega)]
  · simp only [splitStart, Store.pages_put, Store.pages_touch, Store.pages_handOut,
      Function.update_of_ne hq, Function.update_of_ne hqn]
  · exact (Store.Within.refl _ T s).handOut hTn |>.touch _ |>.put _ hTn |>.put _ hTn |>.put _ hT

/-- The leaf is as it was but for its link. -/
theorem view_splitStart_leaf (leaf : ℕ) (hN : s.nextPageId < 4294967296) :
    Node.view ((splitStart s leaf).pages leaf)
      = (Node.view (s.pages leaf)).withLink s.nextPageId := by
  rw [splitStart, Store.pages_put, Function.update_self, Node.view_setNextLeafId hN]

/-- The new page is an empty leaf, linked as the leaf was. -/
theorem view_splitStart_new {leaf : ℕ} (hne : leaf ≠ s.nextPageId) :
    (Node.view ((splitStart s leaf).pages s.nextPageId)).type = .leaf
      ∧ (Node.view ((splitStart s leaf).pages s.nextPageId)).root = false
      ∧ (Node.view ((splitStart s leaf).pages s.nextPageId)).link
        = (Node.view (s.pages leaf)).link := by
  rw [splitStart, Store.pages_put, Function.update_of_ne hne.symm, Store.pages_put,
    Function.update_self, Node.view_setNextLeafId
      (show Node.getNextLeafId (s.pages leaf) < 4294967296 from Node.link_view_lt _),
    Node.view_initializeAsLeaf]
  exact ⟨rfl, rfl, rfl⟩

/-- **A leaf was cut** into itself and the next page; `cs` are its cells with
the new one among them. -/
structure LeafHalved (s s' : Store) (leaf : ℕ) (cs : List (ℕ × ℕ)) : Prop where
  /-- One page was handed out. -/
  next : s'.nextPageId = (s.handOut.touch s.nextPageId).nextPageId
  /-- Both were marked dirty. -/
  extent : s'.extent = max (max s.extent (leaf + 1)) (s.nextPageId + 1)
  /-- The lower half stayed. -/
  lower_type : (Node.view (s'.pages leaf)).type = (Node.view (s.pages leaf)).type
  lower_root : (Node.view (s'.pages leaf)).root = (Node.view (s.pages leaf)).root
  lower : (Node.view (s'.pages leaf)).cells = cs.take 255
  lower_link : (Node.view (s'.pages leaf)).link = s.nextPageId
  /-- The upper half is in the new page. -/
  upper_type : (Node.view (s'.pages s.nextPageId)).type = .leaf
  upper_root : (Node.view (s'.pages s.nextPageId)).root = false
  upper : (Node.view (s'.pages s.nextPageId)).cells = cs.drop 255
  upper_link : (Node.view (s'.pages s.nextPageId)).link = (Node.view (s.pages leaf)).link
  /-- The other pages are as they were. -/
  frame : ∀ q, q ≠ leaf → q ≠ s.nextPageId → s'.pages q = s.pages q
  /-- Two pages were written. -/
  within : ∀ T : ℕ → Prop, T leaf → T s.nextPageId → Store.Within .btree T s s'

/-- The array when the halves are complete. -/
def splitEnd (s : Store) (leaf new : ℕ) : Store :=
  (((s.put .btree leaf (Node.setNumCells 255 (s.pages leaf))).put .btree new
    (Node.setNumCells 256 (s.pages new))).mark leaf).mark new

/-- **The redistribution cuts the leaf**, once the numbers of cells are
set. -/
theorem Redistributed.halved {leaf ins : ℕ} {c : ℕ × ℕ} (hne : leaf ≠ s.nextPageId)
    (hnum : (Node.view (s.pages leaf)).num = 510) (hins : ins ≤ 510)
    (hN : s.nextPageId < 4294967296)
    (h : Redistributed s leaf s.nextPageId (Node.view ((splitStart s leaf).pages leaf))
      (Node.view ((splitStart s leaf).pages s.nextPageId)) ins c 0 s') :
    LeafHalved s (splitEnd s' leaf s.nextPageId) leaf
      (insertAt (Node.view (s.pages leaf)).cells ins c) := by
  have hlow := h.lower
  rw [view_splitStart_leaf leaf hN] at hlow
  obtain ⟨cell, hup, hcell⟩ := h.upper
  rw [view_splitStart_leaf leaf hN] at hcell
  obtain ⟨htype, hroot, hlink⟩ := view_splitStart_new hne
  have hvl := Node.view_setNumCells (show 255 < 4294967296 from by omega) (s'.pages leaf)
  have hvu := Node.view_setNumCells (show 256 < 4294967296 from by omega) (s'.pages s.nextPageId)
  rw [hlow] at hvl
  rw [hup] at hvu
  have hpl : (splitEnd s' leaf s.nextPageId).pages leaf = Node.setNumCells 255 (s'.pages leaf) := by
    rw [splitEnd, Store.pages_mark, Store.pages_mark, Store.pages_put, Function.update_of_ne hne,
      Store.pages_put, Function.update_self]
  have hpu : (splitEnd s' leaf s.nextPageId).pages s.nextPageId
      = Node.setNumCells 256 (s'.pages s.nextPageId) := by
    rw [splitEnd, Store.pages_mark, Store.pages_mark, Store.pages_put, Function.update_self]
  have hlen : (insertAt (Node.view (s.pages leaf)).cells ins c).length = 511 := by simp [hnum]
  refine ⟨h.next, ?_, ?_, ?_, ?_, ?_, ?_, ?_, ?_, ?_, fun q hq hqn => ?_, fun T hT hTn => ?_⟩
  · show max (max s'.extent (leaf + 1)) (s.nextPageId + 1) = _
    rw [h.extent]
  · rw [hpl, hvl]
    rfl
  · rw [hpl, hvl]
    rfl
  · rw [hpl]
    refine cells_eq_slice 0 255 (hins.trans_eq hnum.symm)
      ((congrArg NodeView.num hvl).trans rfl) (by omega) (fun j hj => ?_)
    rw [hvl, Nat.zero_add]
    exact if_pos ⟨Nat.zero_le j, hj⟩
  · rw [hpl, hvl]
    rfl
  · rw [hpu, hvu]
    exact htype
  · rw [hpu, hvu]
    exact hroot
  · rw [hpu, ← List.take_of_length_le
      (l := (insertAt (Node.view (s.pages leaf)).cells ins c).drop 255) (i := 256)
      (by simp only [List.length_drop]; omega)]
    refine cells_eq_slice 255 256 (hins.trans_eq hnum.symm)
      ((congrArg NodeView.num hvu).trans rfl) (by omega) (fun j hj => ?_)
    rw [hvu]
    exact hcell j hj (Nat.zero_le _)
  · rw [hpu, hvu]
    exact hlink
  · rw [splitEnd, Store.pages_mark, Store.pages_mark, Store.pages_put, Function.update_of_ne hqn,
      Store.pages_put, Function.update_of_ne hq, h.frame q hq hqn]
  · exact (((h.within T hT hTn).put _ hT).put _ hTn).mark _ |>.mark _

/-- `leaf_node_split_and_insert` up to the separator: the new page and the
separator. -/
def cutLeaf (old : PagePtr) (oldId k v : ℕ) : PageProg (ℕ × ℕ) := do
  let newId ← Pool.getUnusedPageNum
  let new ← Pool.getPage newId
  modify new (Node.initializeAsLeaf false)
  let buf ← Pool.load old
  modify new (Node.setNextLeafId (Node.getNextLeafId buf))
  modify old (Node.setNextLeafId newId)
  let split := (Node.maxCells + 1) / 2
  let buf ← Pool.load old
  let ins ← PageProg.lift (leafNodeFind buf k)
  PageProg.forDown (redistribute old new k v (CInt.ofUInt ins).val split) (Node.maxCells + 1) 0
  modify old (Node.setNumCells split)
  modify new (Node.setNumCells (Node.maxCells + 1 - split))
  Pool.markDirty oldId
  Pool.markDirty newId
  let buf ← Pool.load new
  let separator ← PageProg.lift (Node.getKey buf 0)
  return (newId, separator)

/-- The rest: a new root above the halves, or the parent. -/
def attachHalf (old : PagePtr) (oldId : ℕ) (ancestors : Ancestors) (r : ℕ × ℕ) : PageProg Unit := do
  let buf ← Pool.load old
  if Node.isRoot buf then createNewRoot old oldId r.1
  else insertIntoParent r.2 r.1 ancestors

theorem runs_leafNodeSplitAndInsert_iff {oldId : ℕ} {old : PagePtr} {ancestors : Ancestors}
    {Q : Unit → Store → Prop} :
    Runs (leafNodeSplitAndInsert old oldId key value ancestors) s Q
      ↔ Runs (cutLeaf old oldId key value) s
        (fun r s' => Runs (attachHalf old oldId ancestors r) s' Q) := by
  unfold leafNodeSplitAndInsert cutLeaf attachHalf
  simp only [runs_bind, runs_pure]

/-- **The first part of `leaf_node_split_and_insert`** cuts the leaf. -/
theorem runs_cutLeaf {leaf : ℕ} {old : PagePtr} (hptr : old.page = leaf)
    (hnum : (Node.view (s.pages leaf)).num = 510) (hsort : SortedKeys (Node.view (s.pages leaf)))
    (hkey : key < 4294967296) (hvalue : value < 4294967296) (hne : leaf ≠ s.nextPageId)
    (hN : s.nextPageId < 4294967296) :
    Runs (cutLeaf old leaf key value) s (fun r s₂ => ∃ ins,
      FoundIn (Node.view (s.pages leaf)).cells key ins
        ∧ LeafHalved s s₂ leaf (insertAt (Node.view (s.pages leaf)).cells ins (key, value))
        ∧ r = (s.nextPageId, ((Node.view (s₂.pages s.nextPageId)).cell 0).1)) := by
  have hvl := view_splitStart_leaf leaf hN
  obtain ⟨ins, hins, hat⟩ := leafNodeFind_spec key
    (show (Node.view ((splitStart s leaf).pages leaf)).num ≤ 510 from hvl ▸ hnum.le)
    (hvl ▸ hsort)
  have hcells : ∀ j, ((Node.view ((splitStart s leaf).pages leaf)).cell j).1 < 4294967296
      ∧ ((Node.view ((splitStart s leaf).pages leaf)).cell j).2 < 4294967296 :=
    Node.cell_view_lt _
  have hfound := hat.foundIn
  rw [hvl] at hfound
  have hle : ins ≤ 510 := by
    have h := hfound.le_length
    rw [NodeView.length_cells] at h
    exact h.trans hnum.le
  rw [show (splitStart s leaf).pages leaf = Node.setNextLeafId s.nextPageId (s.pages leaf) from
    Function.update_self _ _ _] at hins
  unfold cutLeaf
  simp only [runs_bind, runs_getUnusedPageNum, runs_getPage, runs_load, runs_modify, hptr,
    Store.pages_put, Store.pages_touch, Store.pages_handOut, Function.update_self,
    Function.update_of_ne hne, runs_lift_ok hins,
    CInt.val_ofUInt (show ins < 2147483648 from by omega)]
  rw [show (Node.maxCells + 1) / 2 = 255 from rfl, show Node.maxCells + 1 - 255 = 256 from rfl]
  change Runs (forDown (redistribute old ⟨s.nextPageId, s.clock⟩ key value ins 255) 511 0)
    (splitStart s leaf) _
  refine (runs_forDown (Redistributed s leaf s.nextPageId _ _ ins (key, value)) 511 0 _
    redistributed_start (fun i t _ hi ht => ?_)).mono (fun _ t ht => ?_)
  · subst hptr
    exact runs_redistribute (show old.page ≠ (⟨s.nextPageId, s.clock⟩ : PagePtr).page from hne) hle
      hkey hvalue hcells (Nat.lt_succ_iff.mp (by omega)) ht
  · have hh := ht.halved hne hnum hle hN
    have hkey0 : Node.getKey ((splitEnd t leaf s.nextPageId).pages s.nextPageId) 0 = .ok _ :=
      Node.getKey_eq (by omega)
    simp only [Function.update_of_ne hne.symm, runs_markDirty]
    change Runs (PageProg.lift (Node.getKey ((splitEnd t leaf s.nextPageId).pages s.nextPageId) 0))
      (splitEnd t leaf s.nextPageId) _
    rw [runs_lift_ok hkey0, runs_pure]
    exact ⟨ins, hfound, hh, rfl⟩

/-- **`leaf_node_split_and_insert`** cuts the leaf, and then puts a new root
above the halves or goes on with the parent. -/
theorem runs_leafNodeSplitAndInsert {leaf : ℕ} {old : PagePtr} {ancestors : Ancestors}
    {Q : Unit → Store → Prop} (hptr : old.page = leaf)
    (hnum : (Node.view (s.pages leaf)).num = 510) (hsort : SortedKeys (Node.view (s.pages leaf)))
    (hkey : key < 4294967296) (hvalue : value < 4294967296) (hne : leaf ≠ s.nextPageId)
    (hN : s.nextPageId < 4294967296)
    (hQ : ∀ ins s₂ sep, FoundIn (Node.view (s.pages leaf)).cells key ins →
      LeafHalved s s₂ leaf (insertAt (Node.view (s.pages leaf)).cells ins (key, value)) →
      ((Node.view (s₂.pages s.nextPageId)).cell 0).1 = sep →
      ((Node.view (s.pages leaf)).root = true →
        Runs (createNewRoot old leaf s.nextPageId) s₂ Q) ∧
      ((Node.view (s.pages leaf)).root = false →
        Runs (insertIntoParent sep s.nextPageId ancestors) s₂ Q)) :
    Runs (leafNodeSplitAndInsert old leaf key value ancestors) s Q := by
  rw [runs_leafNodeSplitAndInsert_iff]
  refine (runs_cutLeaf hptr hnum hsort hkey hvalue hne hN).mono ?_
  rintro r s₂ ⟨ins, hfound, hh, rfl⟩
  obtain ⟨h1, h2⟩ := hQ ins s₂ _ hfound hh rfl
  unfold attachHalf
  rw [runs_bind, runs_load, hptr]
  refine runs_ite (fun hr => h1 (hh.lower_root.symm.trans hr)) (fun hr => h2 ?_)
  exact hh.lower_root.symm.trans (eq_false_of_ne_true hr)

section NewKey

variable {cs : List (ℕ × ℕ)} {ins : ℕ} (h : FoundIn cs key ins) (hno : ∀ c ∈ cs, c.1 ≠ key)
include h hno

theorem FoundIn.lt_of_mem_take {c : ℕ × ℕ} (hc : c ∈ cs.take ins) : c.1 < key :=
  lt_of_le_of_ne (h.before c hc) (hno c (List.mem_of_mem_take hc))

theorem FoundIn.lt_of_mem_drop {c : ℕ × ℕ} (hc : c ∈ cs.drop ins) : key < c.1 :=
  lt_of_le_of_ne (h.after c hc) (hno c (List.mem_of_mem_drop hc)).symm

/-- The position a search returns for a new key is its place in the order. -/
theorem FoundIn.insertAt_eq (value : ℕ) :
    insertAt cs ins (key, value) = cs.orderedInsert (fun a b => a.1 ≤ b.1) (key, value) := by
  have hbefore : ∀ c ∈ cs.take ins, decide ¬ key ≤ c.1 := fun c hc =>
    decide_eq_true (not_le.mpr (h.lt_of_mem_take hno hc))
  rw [List.orderedInsert_eq_take_drop]
  conv_rhs => rw [← List.take_append_drop ins cs]
  rw [List.takeWhile_append_of_pos hbefore, List.dropWhile_append_of_pos hbefore]
  cases hd : cs.drop ins with
  | nil => simp [insertAt, hd]
  | cons c rest =>
    have hc : key ≤ c.1 := (h.lt_of_mem_drop hno (hd ▸ List.mem_cons_self)).le
    simp [insertAt, hd, hc]

/-- A new key at its place keeps the keys in order. -/
theorem FoundIn.pairwise_insertAt (hsort : cs.Pairwise (fun a b => a.1 < b.1)) (value : ℕ) :
    (insertAt cs ins (key, value)).Pairwise (fun a b => a.1 < b.1) := by
  rw [← List.take_append_drop ins cs] at hsort
  obtain ⟨hp₁, hp₂, hp⟩ := List.pairwise_append.mp hsort
  refine List.pairwise_append.mpr ⟨hp₁, List.pairwise_cons.mpr
    ⟨fun c hc => h.lt_of_mem_drop hno hc, hp₂⟩, fun a ha b hb => ?_⟩
  rcases List.mem_cons.mp hb with rfl | hb
  · exact h.lt_of_mem_take hno ha
  · exact hp a ha b hb

end NewKey

/-- **The cut conserves the cells.** The halves hold the cells of the full
leaf with the new one at its place, and the separator handed on is the first
key of the upper half. -/
theorem leafSplit_conserves {leaf : ℕ} {old : PagePtr} (ancestors : Ancestors)
    (hptr : old.page = leaf) (hnum : (Node.view (s.pages leaf)).num = 510)
    (hsort : (Node.view (s.pages leaf)).cells.Pairwise (fun a b => a.1 < b.1))
    (hkey : key < 4294967296) (hvalue : value < 4294967296)
    (hno : ∀ c ∈ (Node.view (s.pages leaf)).cells, c.1 ≠ key) (hne : leaf ≠ s.nextPageId)
    (hN : s.nextPageId < 4294967296) :
    ∃ s₂ sep, (∀ Q, Runs (leafNodeSplitAndInsert old leaf key value ancestors) s Q
        ↔ Runs (attachHalf old leaf ancestors (s.nextPageId, sep)) s₂ Q)
      ∧ (Node.view (s₂.pages leaf)).cells.length = 255
      ∧ (Node.view (s₂.pages s.nextPageId)).cells.length = 256
      ∧ (Node.view (s₂.pages leaf)).cells ++ (Node.view (s₂.pages s.nextPageId)).cells
        = (Node.view (s.pages leaf)).cells.orderedInsert (fun a b => a.1 ≤ b.1) (key, value)
      ∧ (∀ c ∈ (Node.view (s₂.pages leaf)).cells, c.1 < sep)
      ∧ (∀ c ∈ (Node.view (s₂.pages s.nextPageId)).cells, sep ≤ c.1)
      ∧ ∃ c ∈ (Node.view (s₂.pages s.nextPageId)).cells, c.1 = sep := by
  obtain ⟨r, s₂, hrun, ins, hfound, hh, hr⟩ := runs_cutLeaf hptr hnum
    (sortedKeys_of_pairwise (hsort.imp le_of_lt)) hkey hvalue hne hN
  obtain ⟨sep, hsep⟩ : ∃ sep, ((Node.view (s₂.pages s.nextPageId)).cell 0).1 = sep := ⟨_, rfl⟩
  rw [hsep] at hr
  have hcells := hfound.insertAt_eq hno value
  have hlen : (insertAt (Node.view (s.pages leaf)).cells ins (key, value)).length = 511 := by
    simp [hnum]
  have hupper : (Node.view (s₂.pages s.nextPageId)).cells.length = 256 := by
    rw [hh.upper, List.length_drop, hlen]
  -- the separator is the first key of the upper half
  have hhead : (Node.view (s₂.pages s.nextPageId)).cells[0]?
      = some ((Node.view (s₂.pages s.nextPageId)).cell 0) := by
    rw [NodeView.length_cells] at hupper
    rw [getElem?_cells_eq, if_pos (by omega)]
  have hsorted := hfound.pairwise_insertAt hno hsort value
  rw [← List.take_append_drop 255 (insertAt _ ins (key, value)), ← hh.lower, ← hh.upper] at hsorted
  obtain ⟨-, hp₂, hp⟩ := List.pairwise_append.mp hsorted
  have hmem := List.mem_of_getElem? hhead
  refine ⟨s₂, sep, fun Q => ?_, ?_, hupper, ?_, fun c hc => ?_, fun c hc => ?_,
    ⟨_, hmem, hsep⟩⟩
  · rw [runs_leafNodeSplitAndInsert_iff, ← hr]
    exact ⟨fun ⟨r', s', hrun', h⟩ => by
      obtain ⟨rfl, rfl⟩ := Prod.mk.inj (Except.ok.inj (hrun.symm.trans hrun'))
      exact h, fun h => ⟨r, s₂, hrun, h⟩⟩
  · rw [hh.lower, List.length_take, hlen]
    rfl
  · rw [hh.lower, hh.upper, List.take_append_drop, hcells]
  · rw [← hsep]
    exact hp c hc _ hmem
  · obtain ⟨rest, hrest⟩ : ∃ rest, (Node.view (s₂.pages s.nextPageId)).cells
        = (Node.view (s₂.pages s.nextPageId)).cell 0 :: rest := by
      cases hcs : (Node.view (s₂.pages s.nextPageId)).cells with
      | nil => rw [hcs] at hhead; cases hhead
      | cons d rest => rw [hcs] at hhead; exact ⟨rest, by rw [Option.some.inj hhead]⟩
    rw [hrest] at hc hp₂
    rcases List.mem_cons.mp hc with rfl | hc
    · exact hsep.ge
    · rw [← hsep]
      exact ((List.pairwise_cons.mp hp₂).1 c hc).le

/-- A page can hold the cells of the first `510` keys. -/
theorem exists_fullLeaf : ∃ b : Page, (Node.view b).num = 510
    ∧ (Node.view b).cells = (List.range 510).map (fun j => (j, 0)) := by
  have hfill : ∀ n, n ≤ 510 → ∃ b : Page, (Node.view b).num = 510
      ∧ ∀ j, j < n → (Node.view b).cell j = (j, 0) := by
    intro n
    induction n with
    | zero =>
      intro _
      refine ⟨Node.setNumCells 510 (Buffer.zero pageSize), ?_,
        fun j hj => absurd hj (Nat.not_lt_zero j)⟩
      rw [Node.view_setNumCells (by omega)]
      rfl
    | succ n ih =>
      intro hn
      obtain ⟨b, hnum, hcell⟩ := ih (by omega)
      have hc : (n, 0).1 < 4294967296 ∧ (n, 0).2 < 4294967296 := by
        simp only
        omega
      obtain ⟨b', -, hv⟩ := Node.setCell_spec (show n < 510 from by omega) hc b
      refine ⟨b', ?_, fun j hj => ?_⟩
      · rw [hv]
        exact hnum
      · rw [hv, NodeView.cell_withCell]
        by_cases hjn : j = n
        · rw [hjn, Function.update_self]
        · rw [Function.update_of_ne hjn]
          exact hcell j (by omega)
  obtain ⟨b, hnum, hcell⟩ := hfill 510 le_rfl
  refine ⟨b, hnum, List.ext_getElem? (fun j => ?_)⟩
  rw [getElem?_cells_eq, hnum, List.getElem?_map]
  by_cases hj : j < 510
  · rw [if_pos hj, hcell j hj, List.getElem?_range hj]
    rfl
  · rw [if_neg hj, List.getElem?_eq_none (by simpa using hj)]
    rfl

/-- An array whose only page in use is a given leaf. -/
def oneLeaf (b : Page) : Store := ⟨Function.update (fun _ => Buffer.zero pageSize) 0 b, 1, 0, 1, []⟩

/-- The key `510` behind the first `510`. -/
theorem leafSplit_conserves_last : ∃ b : Page, ∃ s₂ sep,
    (∀ Q, Runs (leafNodeSplitAndInsert ⟨0, 0⟩ 0 510 7 []) (oneLeaf b) Q
        ↔ Runs (attachHalf ⟨0, 0⟩ 0 [] (1, sep)) s₂ Q)
      ∧ (Node.view (s₂.pages 0)).cells.length = 255
      ∧ (Node.view (s₂.pages 1)).cells.length = 256
      ∧ (Node.view (s₂.pages 0)).cells ++ (Node.view (s₂.pages 1)).cells
        = (Node.view ((oneLeaf b).pages 0)).cells.orderedInsert (fun a b => a.1 ≤ b.1) (510, 7)
      ∧ (∀ c ∈ (Node.view (s₂.pages 0)).cells, c.1 < sep)
      ∧ (∀ c ∈ (Node.view (s₂.pages 1)).cells, sep ≤ c.1)
      ∧ ∃ c ∈ (Node.view (s₂.pages 1)).cells, c.1 = sep := by
  obtain ⟨b, hnum, hcells⟩ := exists_fullLeaf
  have hpage : (oneLeaf b).pages 0 = b := by simp [oneLeaf]
  refine ⟨b, leafSplit_conserves [] rfl (hpage.symm ▸ hnum) ?_ (by omega) (by omega) ?_
    (show 0 ≠ 1 by omega) (show 1 < 4294967296 by omega)⟩
  · rw [hpage, hcells]
    exact List.pairwise_map.mpr List.pairwise_lt_range
  · rw [hpage, hcells]
    intro c hc
    obtain ⟨j, hj, rfl⟩ := List.mem_map.mp hc
    exact (List.mem_range.mp hj).ne

/-! ## Insertion -/

/-- **What the insertion of a key does** to what the leaves owe: `Leaf` is
owed before, `Leaf'` after. -/
structure LeafStep (Leaf Leaf' : LeafSpec) (key value : ℕ) : Prop where
  /-- A leaf the key does not belong to is unaffected. -/
  keep : ∀ {cs lo hi}, Leaf cs lo hi → key < lo ∨ hi ≤ key → Leaf' cs lo hi
  /-- The value of a key in a leaf with room is replaced. -/
  replace : ∀ {cs lo hi idx}, Leaf cs lo hi → lo ≤ key → key < hi → cs.length < 510 →
    FoundIn cs key idx → (∃ v, cs[idx]? = some (key, v)) → Leaf' (cs.set idx (key, value)) lo hi
  /-- A new key is put into a leaf with room. -/
  insert : ∀ {cs lo hi idx}, Leaf cs lo hi → lo ≤ key → key < hi → cs.length < 510 →
    FoundIn cs key idx → (∀ c ∈ cs, c.1 ≠ key) → Leaf' (insertAt cs idx (key, value)) lo hi
  /-- A full leaf takes the cell and is cut inside its range. -/
  split : ∀ {cs lo hi idx}, Leaf cs lo hi → lo ≤ key → key < hi → cs.length = 510 →
    FoundIn cs key idx → ∃ c, (insertAt cs idx (key, value))[255]? = some c ∧ lo < c.1 ∧ c.1 < hi
      ∧ Leaf' ((insertAt cs idx (key, value)).take 255) lo c.1
      ∧ Leaf' ((insertAt cs idx (key, value)).drop 255) c.1 hi

/-- More may be owed before. -/
theorem LeafStep.strengthen {Leaf₀ : LeafSpec} (h : LeafStep Leaf Leaf' key value)
    (hl : ∀ {cs lo hi}, Leaf₀ cs lo hi → Leaf cs lo hi) : LeafStep Leaf₀ Leaf' key value where
  keep hc := h.keep (hl hc)
  replace hc := h.replace (hl hc)
  insert hc := h.insert (hl hc)
  split hc := h.split (hl hc)

/-- A leaf the key does not belong to, in a tree. -/
theorem LeafStep.keep_of_ne (hstep : LeafStep Leaf Leaf' key value) (hs : Shape T lab H)
    {p q : ℕ} (hp : T p) (hq : T q) (hqp : q ≠ p) (hpl : (lab p).lvl = 0) (hql : (lab q).lvl = 0)
    (hlo : (lab p).lo ≤ key) (hhi : key < (lab p).hi) {cs : List (ℕ × ℕ)}
    (h : Leaf cs (lab q).lo (lab q).hi) : Leaf' cs (lab q).lo (lab q).hi := by
  have hap := hs.apart q p hq hp hqp (by omega)
  exact hstep.keep h (by omega)

namespace TreeState

/-- **A leaf with room** takes the cell. -/
theorem runs_leafInsert (hL : Leaf.Sound) (h : TreeState Leaf base lab H s)
    (hstep : LeafStep Leaf Leaf' key value) (hkey : key < 4294967296) (hvalue : value < 4294967296)
    {r : ℕ × PagePtr × Ancestors} (hr : LeafFor (Owned base s.nextPageId) lab s.pages key r)
    (hroom : (Node.view (s.pages r.1)).num < 510) :
    Runs (do modifyChecked r.2.1 (leafInsert key value); Pool.markDirty r.1) s
      (fun _ s' => Grown Leaf' base lab s s') := by
  have hn := h.tree.node _ hr.mem
  have hleaf := hn.leaf hr.lvl
  have hlt := h.lt_next hr.mem
  have hsync := h.synced
  obtain ⟨idx, b, hb, hat, htype, hroot, hlink, hset, hins⟩ := leafInsert_spec hroom
    (sortedKeys_of_pairwise (hL.sorted hleaf.2)) hkey hvalue
  have hlen := (Node.view (s.pages r.1)).length_cells
  have hnum : (Node.view b).cells.length = (Node.view b).num := (Node.view b).length_cells
  -- what the leaf holds afterwards
  have hres : Leaf' (Node.view b).cells (lab r.1).lo (lab r.1).hi
      ∧ (Node.view (s.pages r.1)).num ≤ (Node.view b).num ∧ (Node.view b).num ≤ 510 := by
    by_cases hpres : idx < (Node.view (s.pages r.1)).num
        ∧ ((Node.view (s.pages r.1)).cell idx).1 = key
    · have hcs := hset hpres.1 hpres.2
      rw [hcs] at hnum ⊢
      rw [List.length_set] at hnum
      refine ⟨hstep.replace hleaf.2 hr.lo hr.hi (by omega) hat.foundIn
        ⟨((Node.view (s.pages r.1)).cell idx).2, ?_⟩, by omega, by omega⟩
      rw [NodeView.getElem?_cells _ hpres.1, ← hpres.2]
    · have hcs := hins hpres
      rw [hcs] at hnum ⊢
      rw [length_insertAt] at hnum
      refine ⟨hstep.insert hleaf.2 hr.lo hr.hi (by omega) hat.foundIn ?_, by omega, by omega⟩
      intro c hc
      obtain ⟨j, hj, rfl⟩ := mem_cells.mp hc
      rcases hat.hit with hhit | hno
      · exact absurd hhit hpres
      · exact hno j hj
  simp only [runs_bind, runs_modifyChecked, runs_markDirty, hr.ptr, hb, Except.ok.injEq,
    exists_eq_left']
  refine ⟨⟨lab, H, ⟨h.base_pos, h.base_small, h.base_le, ?_, ?_⟩,
    fun hlinks => hlinks.set_leaf hlink⟩, ((Store.Within.refl _ _ s).put b hr.mem).mark r.1, le_rfl⟩
  · show max s.extent (r.1 + 1) = s.nextPageId
    omega
  · refine h.tree.set_leaf hr.mem hr.lvl hroot (htype.trans hleaf.1) hres.2.2 hres.2.1 hres.1
      (fun q hq hqp hql => hstep.keep_of_ne h.tree.shape hr.mem hq hqp hr.lvl hql hr.lo hr.hi)
      ?_ (fun q hq => ?_)
    · exact congrArg Node.view (Function.update_self _ _ _)
    · exact Function.update_of_ne hq _ _

/-- A half of a cut leaf is a node. -/
theorem nodeOk_of_cells {p lo hi : ℕ} {v : NodeView} {cs : List (ℕ × ℕ)} (hp : p ≠ 0)
    (htype : v.type = .leaf) (hroot : v.root = false) (hcells : v.cells = cs)
    (hhalf : 255 ≤ cs.length) (hle : cs.length ≤ 510) (hleaf : Leaf cs lo hi) :
    NodeOk Leaf T lab p v ⟨0, lo, hi⟩ := by
  have hnum : v.num = cs.length := by rw [← hcells, v.length_cells]
  refine ⟨by rw [hroot, decide_eq_false hp], by omega, fun _ => by omega, fun _ => ⟨htype, ?_⟩,
    fun l hl => absurd hl (Nat.succ_ne_zero l).symm⟩
  rw [hcells]
  exact hleaf

/-- **A full leaf** is cut. -/
theorem runs_leafSplit (hL : Leaf.Sound) (h : TreeState Leaf base lab H s)
    (hstep : LeafStep Leaf Leaf' key value) (hkey : key < 4294967296) (hvalue : value < 4294967296)
    {r : ℕ × PagePtr × Ancestors} (hr : LeafFor (Owned base s.nextPageId) lab s.pages key r)
    (hfull : (Node.view (s.pages r.1)).num = 510) :
    Runs (leafNodeSplitAndInsert r.2.1 r.1 key value r.2.2) s
      (fun _ s' => Grown Leaf' base lab s s') := by
  obtain ⟨leaf, node, ancestors⟩ := r
  have hmem := hr.mem
  have hlvl := hr.lvl
  have hpath := hr.path
  simp only at hfull hmem hlvl hpath
  have hn := h.tree.node _ hmem
  have hleaf := hn.leaf hlvl
  have hlt := h.lt_next hmem
  have hsmall := h.next_small hL
  have hH := h.tree.height_le hL
  have hbase := h.base_pos
  have hble := h.base_le
  have hfresh : ¬ Owned base s.nextPageId s.nextPageId := fun hp =>
    absurd (h.lt_next hp) (lt_irrefl _)
  have hneq : ∀ q, Owned base s.nextPageId q → q ≠ s.nextPageId := fun q hq he => hfresh (he ▸ hq)
  refine runs_leafNodeSplitAndInsert hr.ptr hfull (sortedKeys_of_pairwise (hL.sorted hleaf.2))
    hkey hvalue hlt.ne (by omega) (fun ins s₂ sep hfound hh hsep => ?_)
  obtain ⟨c, hc, hclo, hchi, hlow, hup⟩ := hstep.split hleaf.2 hr.lo hr.hi
    (by simpa using hfull) hfound
  have hlen : (insertAt (Node.view (s.pages leaf)).cells ins (key, value)).length = 511 := by
    simp [hfull]
  -- the separator is the key of the cell the leaf was cut at
  have hsepc : sep = c.1 := by
    have hcells := congrArg (fun l : List (ℕ × ℕ) => l[0]?) hh.upper
    simp only [List.getElem?_drop, Nat.add_zero] at hcells
    rw [hc, getElem?_cells_eq] at hcells
    split at hcells
    · rw [← hsep, Option.some.inj hcells]
    · cases hcells
  rw [← hsepc] at hclo hchi hlow hup
  have hnext := hh.next.trans (s.nextPageId_fresh (by omega))
  have howned : Owned base s₂.nextPageId = withPage (Owned base s.nextPageId) s.nextPageId := by
    rw [hnext, owned_succ h.base_le]
  have hwithin : Store.Within .btree (Owned base s₂.nextPageId) s s₂ := by
    rw [howned]
    exact hh.within _ (Or.inl hmem) (Or.inr rfl)
  have hsync : s₂.extent = s₂.nextPageId := by
    have hs := h.synced
    rw [hh.extent, hnext]
    omega
  have hlinks : Linked (Owned base s.nextPageId) lab s.pages →
      Linked (Owned base s₂.nextPageId) (cutLab lab leaf s.nextPageId sep) s₂.pages := by
    intro hl
    rw [howned]
    exact hl.cut_leaf hmem hfresh hlvl hh.lower_link hh.upper_link
      (fun q hq hql => hh.frame q hql (hneq q hq))
  -- the halves, wherever the lower one is and whatever the labels
  have hlower : ∀ T lab' p v, p ≠ 0 → v.type = .leaf → v.root = false →
      v.cells = (Node.view (s₂.pages leaf)).cells →
      NodeOk Leaf' T lab' p v ⟨0, (lab leaf).lo, sep⟩ := fun T lab' p v hp ht hr' hcs =>
    nodeOk_of_cells hp ht hr' (hcs.trans hh.lower) (by simp only [List.length_take]; omega)
      (by simp only [List.length_take]; omega) hlow
  have hupper : ∀ T lab', NodeOk Leaf' T lab' s.nextPageId (Node.view (s₂.pages s.nextPageId))
      ⟨0, sep, (lab leaf).hi⟩ := fun T lab' =>
    nodeOk_of_cells (by omega) hh.upper_type hh.upper_root hh.upper
      (by simp only [List.length_drop]; omega) (by simp only [List.length_drop]; omega) hup
  have htype := hh.lower_type.trans hleaf.1
  refine ⟨fun hroot => ?_, fun hroot => ?_⟩
  · obtain rfl : leaf = 0 := of_decide_eq_true (hn.root.symm.trans hroot)
    have hlab := h.tree.shape.root_lab
    have hH0 : H = 0 := by rw [← hlvl, hlab]
    subst hH0
    rw [hlab] at hclo hchi hlow hup
    refine (runs_createNewRoot hr.ptr (by omega) (by omega) (by omega) (by omega) hsep).mono
      (fun _ s' hnew => ?_)
    refine (hnew.grown h.tree.shape hbase h.base_small (by omega) hsync howned hfresh hclo hchi
      (fun p hp hp0 => absurd (h.tree.shape.lvl_lt hp hp0) (Nat.not_lt_zero _)) (fun left hl => ?_)
      ?_).after hlinks hwithin (by omega)
    · rw [hlab] at hlower
      exact hlower _ _ _ _ hl htype rfl rfl
    · rw [hlab] at hupper
      exact hupper _ _
  · have hne : leaf ≠ 0 := of_decide_eq_false (hn.root.symm.trans hroot)
    have hsplit : SplitState Leaf' base (Owned base s.nextPageId) lab H s₂ leaf s.nextPageId
      sep := by
      refine ⟨hbase, h.base_small, by omega, hsync, howned, ⟨h.tree.shape, hmem, hne, hfresh, hclo,
        hchi, fun p hp hpl => ?_, ?_, ?_⟩⟩
      · rw [hh.frame p hpl (hneq p hp)]
        exact (h.tree.node p hp).mono (fun hl hc => hstep.keep_of_ne h.tree.shape hmem hp hpl hlvl
          hl hr.lo
          hr.hi hc) (fun _ _ _ _ _ _ _ _ _ hT hlab => ⟨hT, hlab⟩)
      · rw [hlvl]
        exact hlower _ _ _ _ hne htype (hh.lower_root.trans hroot) rfl
      · rw [hlvl]
        exact hupper _ _
    refine (runs_insertIntoParent ancestors _ _ _ _ _ s₂ hsplit ?_ ?_).mono
      (fun _ s' hg => hg.after hlinks hwithin (by omega))
    · refine hpath.congr rfl (fun q hq hq' => ⟨hq, rfl, hh.frame q ?_ (hneq q hq)⟩)
      rintro rfl
      exact lt_irrefl _ hq'
    · have hlenp := hpath.length_eq (congrArg Label.lvl h.tree.shape.root_lab)
      simp only at hlenp
      omega

/-- **Insertion into a tree** leaves a tree, whose leaves owe what the
insertion makes of what they owed. -/
theorem runs_insert (hL : Leaf.Sound) (h : TreeState Leaf base lab H s)
    (hstep : LeafStep Leaf Leaf' key value) (hkey : key < 4294967296)
    (hvalue : value < 4294967296) :
    Runs (insert key value) s (fun _ s' => Grown Leaf' base lab s s') := by
  unfold insert
  refine h.runs_search hL hkey (fun r c hr => ?_)
  have h' := h.atClock c
  have hle := (h.tree.node _ hr.mem).num_le
  rw [runs_bind, runs_load, hr.ptr]
  refine runs_ite (fun hfull => ?_) (fun hroom => ?_)
  · exact (h'.runs_leafSplit hL hstep hkey hvalue hr (le_antisymm hle hfull)).mono
      (fun _ _ hg => hg.of_atClock)
  · exact (h'.runs_leafInsert hL hstep hkey hvalue hr (not_le.mp hroom)).mono
      (fun _ _ hg => hg.of_atClock)

end TreeState

/-! ## Removal -/

/-- **What the removal of a key does** to what the leaves owe. -/
structure LeafBury (Leaf Leaf' : LeafSpec) (key : ℕ) : Prop where
  /-- A leaf the key does not belong to is unaffected. -/
  keep : ∀ {cs lo hi}, Leaf cs lo hi → key < lo ∨ hi ≤ key → Leaf' cs lo hi
  /-- The value of the key is overwritten with a tombstone. -/
  bury : ∀ {cs lo hi idx v}, Leaf cs lo hi → lo ≤ key → key < hi → FoundIn cs key idx →
    cs[idx]? = some (key, v) → v ≠ tombstone → Leaf' (cs.set idx (key, tombstone)) lo hi

/-- The element a search returns is the one at the position. -/
theorem getElem?_of_cellFor {cs : List (ℕ × ℕ)} {idx : ℕ} {c : ℕ × ℕ}
    (h : cellFor cs key idx = some c) : cs[idx]? = some c :=
  (Option.filter_eq_some_iff.mp h).1

/-- **`remove`** buries the value of a key in use, and returns whether there
was one. -/
theorem TreeState.runs_remove (hL : Leaf.Sound) (h : TreeState Leaf base lab H s)
    (hstep : LeafBury Leaf Leaf' key) (hkey : key < 4294967296) :
    Runs (remove key) s (fun r s' =>
      ∃ p idx, Reached (Owned base s.nextPageId) lab s.pages key p idx ∧
        ((r = false ∧ (∃ c, s' = s.atClock c)
            ∧ ∀ v, (cellFor (Node.view (s.pages p)).cells key idx).map Prod.snd = some v →
              v = tombstone)
          ∨ (r = true ∧ Grown Leaf' base lab s s'
            ∧ ∃ v, cellFor (Node.view (s.pages p)).cells key idx = some (key, v)
              ∧ v ≠ tombstone))) := by
  unfold remove
  refine h.runs_search hL hkey (fun r c hr => ?_)
  obtain ⟨idx, hidx, hreach, hcase⟩ := hr.reached hL h.tree
  simp only [runs_bind, runs_load, Store.pages_atClock, hr.ptr, runs_lift_ok hidx]
  rcases hcase with ⟨hhold, hcell⟩ | ⟨v, hhold, hcell, hlt, hval⟩
  · simp only [runs_lift_ok hhold, Bool.not_false, if_true]
    rw [runs_pure]
    refine ⟨r.1, idx, hreach, Or.inl ⟨rfl, ⟨c, rfl⟩, fun v hv => ?_⟩⟩
    rw [hcell] at hv
    cases hv
  simp only [runs_lift_ok hhold, Bool.not_true, Bool.false_eq_true, if_false, runs_bind,
    runs_lift_ok hval]
  refine runs_ite (fun htomb => ?_) (fun htomb => ?_)
  · rw [runs_pure]
    refine ⟨r.1, idx, hreach, Or.inl ⟨rfl, ⟨c, rfl⟩, fun w hw => ?_⟩⟩
    rw [hcell] at hw
    exact (Option.some.inj hw).symm.trans htomb
  have hn := h.tree.node _ hr.mem
  have hleaf := hn.leaf hr.lvl
  have hnum := hn.num_le
  have hsync := h.synced
  have hpage := h.lt_next hr.mem
  obtain ⟨b, hb, hvb⟩ := Node.setValue_spec (show idx < 510 from by omega)
    (show tombstone < 4294967296 from by decide) (s.pages r.1)
  simp only [runs_bind, runs_modifyChecked, runs_markDirty, Store.pages_atClock, hr.ptr, hb,
    Except.ok.injEq, exists_eq_left']
  rw [runs_pure]
  refine ⟨r.1, idx, hreach, Or.inr ⟨rfl, ?_, v, hcell, htomb⟩⟩
  have hat := getElem?_of_cellFor hcell
  have hk : ((Node.view (s.pages r.1)).cell idx).1 = key := by
    rw [NodeView.getElem?_cells _ hlt] at hat
    rw [Option.some.inj hat]
  have hcells : (Node.view b).cells = (Node.view (s.pages r.1)).cells.set idx (key, tombstone) := by
    refine cells_update hlt ((congrArg NodeView.num hvb).trans rfl) ?_
    rw [hvb, hk]
    rfl
  have hnumb : (Node.view b).num = (Node.view (s.pages r.1)).num :=
    (congrArg NodeView.num hvb).trans rfl
  refine ⟨⟨lab, H, ⟨h.base_pos, h.base_small, h.base_le, ?_, ?_⟩,
    fun hlinks => hlinks.set_leaf ((congrArg NodeView.link hvb).trans rfl)⟩,
    (((Store.Within.refl _ _ s).atClock c).put b hr.mem).mark r.1, le_rfl⟩
  · show max s.extent (r.1 + 1) = s.nextPageId
    omega
  · refine h.tree.set_leaf hr.mem hr.lvl ((congrArg NodeView.root hvb).trans rfl)
      (((congrArg NodeView.type hvb).trans rfl).trans hleaf.1) (by omega) (by omega) ?_
        (fun q hq hqp hql hc => ?_)
      (congrArg Node.view (Function.update_self _ _ _)) (fun q hq => Function.update_of_ne hq _ _)
    · rw [hcells]
      exact hstep.bury hleaf.2 hr.lo hr.hi hreach.found hat htomb
    · have hlvl := hr.lvl
      have hlo := hr.lo
      have hhi := hr.hi
      have hap := h.tree.shape.apart q r.1 hq hr.mem hqp (by omega)
      exact hstep.keep hc (by omega)

end BTree
