import SqlMini.Pager

/-!
# B-tree nodes

A node is a page: a header – the type byte, the root byte, the number of
cells, and a link that is the rightmost child of an inner node and the next
leaf of a leaf – followed by `maxCells` cells of a key and a value each. An
inner node keeps the child left of a key in the value of its cell.

The first part is the class, accessor by accessor. Cell offsets are computed
in 32 bits and may leave the page, so the cell accessors are checked.

The second part reads a page as a record, `NodeView`, and says what each
setter does to that record (`view_setNumCells`, `view_putCell`, …). The
algorithms of the tree are verified on views; a page offset occurs in no
later module.
-/

/-- `NodeType`. The byte is only ever compared with `INTERNAL`, so that any
other one makes a leaf. -/
inductive NodeType where
  | internal
  | leaf
  deriving DecidableEq

namespace Node

/-! ## The class -/

/-- `INVALID_PAGE_ID`. -/
def invalidPageId : ℕ := 4294967295

/-- `NODE_HEADER_SIZE`. -/
abbrev headerSize : ℕ := 16

/-- `CELL_SIZE`. -/
abbrev cellSize : ℕ := 8

/-- `NODE_MAX_CELLS`. -/
def maxCells : ℕ := (pageSize - headerSize) / cellSize

/-- `get_node_type`. -/
def getNodeType (buf : Page) : NodeType := if buf.readLE 0 1 = 0 then .internal else .leaf

/-- `set_node_type`. -/
def setNodeType (t : NodeType) (buf : Page) : Page :=
  buf.writeLE 0 1 (match t with | .internal => 0 | .leaf => 1)

/-- `is_root`. -/
def isRoot (buf : Page) : Bool := buf.readLE 1 1 ≠ 0

/-- `set_is_root`. -/
def setIsRoot (r : Bool) (buf : Page) : Page := buf.writeLE 1 1 r.toNat

/-- `get_num_cells`. -/
def getNumCells (buf : Page) : ℕ := buf.readLE 4 4

/-- `set_num_cells`. -/
def setNumCells (n : ℕ) (buf : Page) : Page := buf.writeLE 4 4 n

/-- `increment_num_cells`. -/
def incrementNumCells (buf : Page) : Page := setNumCells ((getNumCells buf + 1) % uint32Size) buf

/-- `get_rightmost_child_id`. -/
def getRightmostChildId (buf : Page) : ℕ := buf.readLE 8 4

/-- `set_rightmost_child_id`. -/
def setRightmostChildId (id : ℕ) (buf : Page) : Page := buf.writeLE 8 4 id

/-- `get_next_leaf_id`. -/
def getNextLeafId (buf : Page) : ℕ := buf.readLE 8 4

/-- `set_next_leaf_id`. -/
def setNextLeafId (id : ℕ) (buf : Page) : Page := buf.writeLE 8 4 id

/-- `get_cell_offset`. -/
def getCellOffset (i : ℕ) : ℕ := (headerSize + i * cellSize) % uint32Size

/-- `get_key`. -/
def getKey (buf : Page) (i : ℕ) : Except Fault ℕ := buf.fetch (getCellOffset i) 4

/-- `set_key`. -/
def setKey (i k : ℕ) (buf : Page) : Except Fault Page := buf.poke (getCellOffset i) 4 k

/-- `get_value`. -/
def getValue (buf : Page) (i : ℕ) : Except Fault ℕ := buf.fetch (getCellOffset i + 4) 4

/-- `set_value`. -/
def setValue (i v : ℕ) (buf : Page) : Except Fault Page := buf.poke (getCellOffset i + 4) 4 v

/-- `get_left_child_id`. -/
def getLeftChildId (buf : Page) (i : ℕ) : Except Fault ℕ := getValue buf i

/-- `set_left_child_id`. -/
def setLeftChildId (i id : ℕ) (buf : Page) : Except Fault Page := setValue i id buf

/-- `initialize_as_leaf`. -/
def initializeAsLeaf (r : Bool) (buf : Page) : Page :=
  setNextLeafId invalidPageId (setNumCells 0 (setIsRoot r (setNodeType .leaf buf)))

/-- `initialize_as_internal`. -/
def initializeAsInternal (r : Bool) (buf : Page) : Page :=
  setNumCells 0 (setIsRoot r (setNodeType .internal buf))

/-- The key and the value of a cell. -/
def getCell (buf : Page) (i : ℕ) : Except Fault (ℕ × ℕ) := do
  let k ← getKey buf i
  return (k, ← getValue buf i)

/-- Setting the key and then the value of a cell. -/
def setCell (i : ℕ) (c : ℕ × ℕ) (buf : Page) : Except Fault Page := do
  let buf ← setKey i c.1 buf
  setValue i c.2 buf

end Node

/-! ## Views -/

/-- **What a page holds as a node.** -/
@[ext] structure NodeView where
  /-- The node type. -/
  type : NodeType
  /-- The root flag. -/
  root : Bool
  /-- The number of cells. -/
  num : ℕ
  /-- The rightmost child, or the next leaf. -/
  link : ℕ
  /-- The key and the value of each cell, used or not. -/
  cell : ℕ → ℕ × ℕ

namespace NodeView

/-- The view with another type. -/
@[simps] def withType (v : NodeView) (t : NodeType) : NodeView := { v with type := t }

/-- The view with another root flag. -/
@[simps] def withRoot (v : NodeView) (r : Bool) : NodeView := { v with root := r }

/-- The view with another number of cells. -/
@[simps] def withNum (v : NodeView) (n : ℕ) : NodeView := { v with num := n }

/-- The view with another link. -/
@[simps] def withLink (v : NodeView) (id : ℕ) : NodeView := { v with link := id }

/-- The view with other cells. -/
@[simps] def withCell (v : NodeView) (f : ℕ → ℕ × ℕ) : NodeView := { v with cell := f }

@[simp] theorem cell_withCell (v : NodeView) (f : ℕ → ℕ × ℕ) : (v.withCell f).cell = f := rfl

/-- The cells given last are the cells. -/
@[simp] theorem withCell_withCell (v : NodeView) (f g : ℕ → ℕ × ℕ) :
    (v.withCell f).withCell g = v.withCell g := rfl

/-- Only the cells of a view with other cells matter. -/
theorem withCell_congr (v : NodeView) {f g : ℕ → ℕ × ℕ} (h : ∀ j, f j = g j) :
    v.withCell f = v.withCell g := congrArg v.withCell (funext h)

/-- A view with its own cells is the view. -/
theorem eq_withCell (v : NodeView) {f : ℕ → ℕ × ℕ} (h : ∀ j, v.cell j = f j) :
    v = v.withCell f := v.withCell_congr h

/-- The cells in use. -/
def cells (v : NodeView) : List (ℕ × ℕ) := (List.range v.num).map v.cell

/-- The keys in use. -/
def keys (v : NodeView) : List ℕ := v.cells.map Prod.fst

/-- The children of an inner node. -/
def children (v : NodeView) : List ℕ := v.cells.map Prod.snd ++ [v.link]

variable (v : NodeView)

@[simp] theorem length_cells : v.cells.length = v.num := by simp [cells]

@[simp] theorem length_keys : v.keys.length = v.num := by simp [keys]

@[simp] theorem length_children : v.children.length = v.num + 1 := by simp [children]

theorem getElem?_cells {i : ℕ} (h : i < v.num) : v.cells[i]? = some (v.cell i) := by
  simp [cells, h]

theorem getElem?_keys {i : ℕ} (h : i < v.num) : v.keys[i]? = some (v.cell i).1 := by
  simp [keys, cells, h]

theorem getElem?_children {i : ℕ} (h : i < v.num) : v.children[i]? = some (v.cell i).2 := by
  rw [children, List.getElem?_append_left (by simpa using h)]
  simp [cells, h]

theorem getElem?_children_last : v.children[v.num]? = some v.link := by
  rw [children, List.getElem?_append_right (by simp)]
  simp

end NodeView

namespace Node

/-- **The view of a page.** -/
def view (buf : Page) : NodeView where
  type := getNodeType buf
  root := isRoot buf
  num := getNumCells buf
  link := getRightmostChildId buf
  cell := fun i => (buf.readLE (16 + i * 8) 4, buf.readLE (20 + i * 8) 4)

variable {buf : Page} {i : ℕ}

theorem link_view_lt (buf : Page) : (view buf).link < 4294967296 := buf.readLE_four_lt 8

theorem cell_view_lt (buf : Page) (i : ℕ) :
    ((view buf).cell i).1 < 4294967296 ∧ ((view buf).cell i).2 < 4294967296 :=
  ⟨buf.readLE_four_lt _, buf.readLE_four_lt _⟩

/-! ### Getters -/

/-- The offset of a cell inside the page does not wrap. -/
theorem getCellOffset_eq (h : i < 510) : getCellOffset i = 16 + i * 8 :=
  Nat.mod_eq_of_lt (show 16 + i * 8 < 4294967296 from by omega)

theorem getKey_eq (h : i < 510) : getKey buf i = .ok ((view buf).cell i).1 := by
  unfold getKey
  rw [getCellOffset_eq h]
  exact buf.fetch_ok (by omega)

theorem getValue_eq (h : i < 510) : getValue buf i = .ok ((view buf).cell i).2 := by
  unfold getValue
  rw [getCellOffset_eq h, show 16 + i * 8 + 4 = 20 + i * 8 from by omega]
  exact buf.fetch_ok (by omega)

theorem getCell_eq (h : i < 510) : getCell buf i = .ok ((view buf).cell i) := by
  unfold getCell
  rw [getKey_eq h, Except.ok_bind_eq, getValue_eq h]
  rfl

/-! ### Setters

Each field of the view lies apart from the bytes the setters of the other
fields write. -/

section Apart

variable {off w v : ℕ}

theorem getNodeType_writeLE (buf : Page) (h : 1 ≤ off) :
    getNodeType (buf.writeLE off w v) = getNodeType buf := by
  unfold getNodeType
  rw [Buffer.readLE_writeLE_disjoint _ _ (by omega)]

theorem isRoot_writeLE (buf : Page) (h : off + w ≤ 1 ∨ 2 ≤ off) :
    isRoot (buf.writeLE off w v) = isRoot buf := by
  unfold isRoot
  rw [Buffer.readLE_writeLE_disjoint _ _ (by omega)]

theorem getNumCells_writeLE (buf : Page) (h : off + w ≤ 4 ∨ 8 ≤ off) :
    getNumCells (buf.writeLE off w v) = getNumCells buf :=
  Buffer.readLE_writeLE_disjoint _ _ (by omega)

theorem getRightmostChildId_writeLE (buf : Page) (h : off + w ≤ 8 ∨ 12 ≤ off) :
    getRightmostChildId (buf.writeLE off w v) = getRightmostChildId buf :=
  Buffer.readLE_writeLE_disjoint _ _ (by omega)

theorem cell_view_writeLE (buf : Page) (h : off + w ≤ 16) :
    (view (buf.writeLE off w v)).cell = (view buf).cell := by
  funext i
  exact Prod.ext (Buffer.readLE_writeLE_disjoint _ _ (by omega))
    (Buffer.readLE_writeLE_disjoint _ _ (by omega))

end Apart

theorem view_setNodeType (t : NodeType) (buf : Page) :
    view (setNodeType t buf) = (view buf).withType t := by
  refine NodeView.ext ?_ (isRoot_writeLE buf (by omega)) (getNumCells_writeLE buf (by omega))
    (getRightmostChildId_writeLE buf (by omega)) (cell_view_writeLE buf (by omega))
  show getNodeType (setNodeType t buf) = t
  unfold getNodeType setNodeType
  rw [Buffer.readLE_writeLE_same _ _ (show 0 + 1 ≤ 4096 from by omega)]
  cases t <;> rfl

theorem view_setIsRoot (r : Bool) (buf : Page) :
    view (setIsRoot r buf) = (view buf).withRoot r := by
  refine NodeView.ext (getNodeType_writeLE buf (by omega)) ?_ (getNumCells_writeLE buf (by omega))
    (getRightmostChildId_writeLE buf (by omega)) (cell_view_writeLE buf (by omega))
  show isRoot (setIsRoot r buf) = r
  unfold isRoot setIsRoot
  rw [Buffer.readLE_writeLE_same _ _ (show 1 + 1 ≤ 4096 from by omega)]
  cases r <;> rfl

theorem view_setNumCells {n : ℕ} (hn : n < 4294967296) (buf : Page) :
    view (setNumCells n buf) = (view buf).withNum n :=
  NodeView.ext (getNodeType_writeLE buf (by omega)) (isRoot_writeLE buf (by omega))
    (Page.readLE_writeLE_four buf (by omega) hn) (getRightmostChildId_writeLE buf (by omega))
    (cell_view_writeLE buf (by omega))

theorem view_setRightmostChildId {id : ℕ} (hid : id < 4294967296) (buf : Page) :
    view (setRightmostChildId id buf) = (view buf).withLink id :=
  NodeView.ext (getNodeType_writeLE buf (by omega)) (isRoot_writeLE buf (by omega))
    (getNumCells_writeLE buf (by omega)) (Page.readLE_writeLE_four buf (by omega) hid)
    (cell_view_writeLE buf (by omega))

/-- The next leaf is kept where the rightmost child is. -/
theorem view_setNextLeafId {id : ℕ} (hid : id < 4294967296) (buf : Page) :
    view (setNextLeafId id buf) = (view buf).withLink id :=
  view_setRightmostChildId hid buf

theorem view_initializeAsLeaf (r : Bool) (buf : Page) :
    view (initializeAsLeaf r buf)
      = ((((view buf).withType .leaf).withRoot r).withNum 0).withLink invalidPageId := by
  unfold initializeAsLeaf
  rw [view_setNextLeafId (show invalidPageId < 4294967296 from by decide),
    view_setNumCells (by omega), view_setIsRoot, view_setNodeType]

theorem view_initializeAsInternal (r : Bool) (buf : Page) :
    view (initializeAsInternal r buf)
      = (((view buf).withType .internal).withRoot r).withNum 0 := by
  unfold initializeAsInternal
  rw [view_setNumCells (by omega), view_setIsRoot, view_setNodeType]

/-- A store to a field of a cell is seen in the cells alone. -/
theorem view_writeLE_cell (buf : Page) {off v : ℕ} (h16 : 16 ≤ off) :
    view (buf.writeLE off 4 v) = (view buf).withCell (view (buf.writeLE off 4 v)).cell :=
  NodeView.ext (getNodeType_writeLE buf (by omega)) (isRoot_writeLE buf (by omega))
    (getNumCells_writeLE buf (by omega)) (getRightmostChildId_writeLE buf (by omega)) rfl

/-- **Setting a value** is seen in that cell alone. -/
theorem setValue_spec (h : i < 510) {v : ℕ} (hv : v < 4294967296) (buf : Page) :
    ∃ buf', setValue i v buf = .ok buf' ∧ view buf' = (view buf).withCell
      (Function.update (view buf).cell i (((view buf).cell i).1, v)) := by
  refine ⟨buf.writeLE (20 + i * 8) 4 v, ?_, ?_⟩
  · unfold setValue
    rw [getCellOffset_eq h, show 16 + i * 8 + 4 = 20 + i * 8 from by omega]
    exact buf.poke_ok v (by omega)
  rw [view_writeLE_cell buf (by omega)]
  refine (view buf).withCell_congr (fun j => ?_)
  show (view (buf.writeLE (20 + i * 8) 4 v)).cell j
    = Function.update (view buf).cell i (((view buf).cell i).1, v) j
  have hkey : ((view (buf.writeLE (20 + i * 8) 4 v)).cell j).1 = ((view buf).cell j).1 :=
    Buffer.readLE_writeLE_disjoint _ _ (by omega)
  by_cases hj : j = i
  · subst hj
    rw [Function.update_self]
    exact Prod.ext hkey (Page.readLE_writeLE_four buf (by omega) hv)
  · rw [Function.update_of_ne hj]
    exact Prod.ext hkey (Buffer.readLE_writeLE_disjoint _ _ (by omega))

/-- Setting a key is seen in that cell alone. -/
theorem setKey_spec (h : i < 510) {k : ℕ} (hk : k < 4294967296) (buf : Page) :
    ∃ buf', setKey i k buf = .ok buf' ∧ view buf' = (view buf).withCell
      (Function.update (view buf).cell i (k, ((view buf).cell i).2)) := by
  refine ⟨buf.writeLE (16 + i * 8) 4 k, ?_, ?_⟩
  · unfold setKey
    rw [getCellOffset_eq h]
    exact buf.poke_ok k (by omega)
  rw [view_writeLE_cell buf (by omega)]
  refine (view buf).withCell_congr (fun j => ?_)
  show (view (buf.writeLE (16 + i * 8) 4 k)).cell j
    = Function.update (view buf).cell i (k, ((view buf).cell i).2) j
  have hval : ((view (buf.writeLE (16 + i * 8) 4 k)).cell j).2 = ((view buf).cell j).2 :=
    Buffer.readLE_writeLE_disjoint _ _ (by omega)
  by_cases hj : j = i
  · subst hj
    rw [Function.update_self]
    exact Prod.ext (Page.readLE_writeLE_four buf (by omega) hk) hval
  · rw [Function.update_of_ne hj]
    exact Prod.ext (Buffer.readLE_writeLE_disjoint _ _ (by omega)) hval

/-- **Setting a cell** is seen in that cell alone. -/
theorem setCell_spec (h : i < 510) {c : ℕ × ℕ} (hc : c.1 < 4294967296 ∧ c.2 < 4294967296)
    (buf : Page) :
    ∃ buf', setCell i c buf = .ok buf' ∧ view buf' = (view buf).withCell
      (Function.update (view buf).cell i c) := by
  obtain ⟨b, hb, hvb⟩ := setKey_spec h hc.1 buf
  obtain ⟨b', hb', hvb'⟩ := setValue_spec h hc.2 b
  refine ⟨b', ?_, ?_⟩
  · unfold setCell
    rw [hb]
    exact hb'
  · rw [hvb', hvb, NodeView.withCell_withCell]
    refine (view buf).withCell_congr (fun j => ?_)
    simp

end Node
