import SqlMini.Node
import SqlMini.PageProgram

/-!
# The B-tree

A map from 32-bit keys to 32-bit values kept in the pages of a pool, the
root in page `0`. Leaves hold the entries, sorted by key; a removal
overwrites the value with a tombstone. An insertion into a full leaf splits
it and hands a separator up the path the descent recorded; a full root is
copied to a fresh page so that page `0` stays the root.

This is the class function by function, as programs over a page pool. What
is computed between two requests to the pool is a function on the bytes at
hand. `for` loops are the loops of `SqlMini.Loops`; the two `while` loops
run on a budget larger than the number of their states, so that exhausting
it (`Fault.noTermination`) is running forever.
-/

namespace BTree

/-- `BTREE_TOMBSTONE`. -/
def tombstone : ℕ := 4294967294

/-- `-1`, the result of a search that finds nothing. -/
def notFound : CInt := ⟨-1, by omega⟩

/-- `root_page_id`. -/
def rootPageId : ℕ := 0

/-- The path of a descent: the inner nodes it went through and the slot it
left each by, the last one first. -/
abbrev Ancestors := List (ℕ × ℕ)

/-- Calling a setter through a node pointer. -/
def modify (ptr : PagePtr) (f : Page → Page) : PageProg Unit := do
  let buf ← Pool.load ptr
  Pool.store .btree ptr (f buf)

/-- Calling a checked setter through a node pointer. -/
def modifyChecked (ptr : PagePtr) (f : Page → Except Fault Page) : PageProg Unit := do
  let buf ← Pool.load ptr
  let buf ← PageProg.lift (f buf)
  Pool.store .btree ptr buf

/-- `BTree::BTree`, for a pool over an empty file or not. -/
def construct (isNew : Bool) : PageProg Unit := do
  let buf ← Pool.getPage rootPageId
  if isNew then
    modify buf (Node.initializeAsLeaf true)
    Pool.markDirty rootPageId

/-! ## Searching -/

/-- The loop of `leaf_node_find`. -/
def leafNodeFindLoop (node : Page) (key : ℕ) : (fuel min max : ℕ) → Except Fault ℕ
  | 0, _, _ => .error .noTermination
  | fuel + 1, min, max =>
    if min = max then .ok min
    else do
      let mid := (min + max) % uint32Size / 2
      let k ← Node.getKey node mid
      if key = k then return mid
      else if key < k then leafNodeFindLoop node key fuel min mid
      else leafNodeFindLoop node key fuel ((mid + 1) % uint32Size) max

/-- `leaf_node_find`. The budget is the number of pairs of bounds. -/
def leafNodeFind (node : Page) (key : ℕ) : Except Fault ℕ :=
  leafNodeFindLoop node key (uint32Size * uint32Size) 0 (Node.getNumCells node)

/-- `idx < node.get_num_cells() && node.get_key(idx) == key`. -/
def holdsKey (node : Page) (idx key : ℕ) : Except Fault Bool := do
  if idx < Node.getNumCells node then return decide ((← Node.getKey node idx) = key)
  else return false

/-- The child of an inner node a descent goes to, and its slot. -/
def childFor (node : Page) (key : ℕ) : Except Fault (ℕ × ℕ) := do
  let hit ← Loop.searchUp (fun i => do return decide (key < (← Node.getKey node i)))
    (Node.getNumCells node) 0
  match hit with
  | some i => return (← Node.getLeftChildId node i, i)
  | none => return (Node.getRightmostChildId node, Node.getNumCells node)

/-- The descent of `insert`, `remove` and `find` from a node to a leaf: the
number and the pointer of the leaf and the path to it, which only `insert`
keeps. The budget is the number of pages. -/
def descend (key : ℕ) : (fuel curId : ℕ) → PagePtr → Ancestors →
    PageProg (ℕ × PagePtr × Ancestors)
  | 0, _, _, _ => .fail .noTermination
  | fuel + 1, curId, node, ancestors => do
    let buf ← Pool.load node
    if Node.getNodeType buf = .internal then
      let (nextId, slot) ← PageProg.lift (childFor buf key)
      let next ← Pool.getPage nextId
      descend key fuel nextId next ((curId, slot) :: ancestors)
    else return (curId, node, ancestors)

/-- `find`. -/
def find (k : ℕ) : PageProg CInt := do
  let root ← Pool.getPage rootPageId
  let (_, node, _) ← descend k uint32Size rootPageId root []
  let buf ← Pool.load node
  let idx ← PageProg.lift (leafNodeFind buf k)
  if ← PageProg.lift (holdsKey buf idx k) then
    let val ← PageProg.lift (Node.getValue buf idx)
    return if val = tombstone then notFound else .ofUInt val
  else return notFound

/-- `remove`. -/
def remove (k : ℕ) : PageProg Bool := do
  let root ← Pool.getPage rootPageId
  let (cur, node, _) ← descend k uint32Size rootPageId root []
  let buf ← Pool.load node
  let idx ← PageProg.lift (leafNodeFind buf k)
  if !(← PageProg.lift (holdsKey buf idx k)) then return false
  else
    let val ← PageProg.lift (Node.getValue buf idx)
    if val = tombstone then return false
    else
      modifyChecked node (Node.setValue idx tombstone)
      Pool.markDirty cur
      return true

/-! ## Inserting into a node with room -/

/-- The body of the loops that open a gap: cell `i` becomes a copy of the
cell before it. -/
def shiftCell (i : ℕ) (node : Page) : Except Fault Page := do
  let k ← Node.getKey node (i - 1)
  let node ← Node.setKey i k node
  let v ← Node.getValue node (i - 1)
  Node.setValue i v node

/-- The branch of `insert` for a leaf with room. -/
def leafInsert (key value : ℕ) (node : Page) : Except Fault Page := do
  let idx ← leafNodeFind node key
  if ← holdsKey node idx key then Node.setValue idx value node
  else
    let node ← Loop.forDown shiftCell (Node.getNumCells node - idx) idx node
    let node ← Node.setCell idx (key, value) node
    return Node.incrementNumCells node

/-- The branch of `insert_into_parent` for a parent with room. -/
def parentInsert (slot sepKey rightId : ℕ) (parent : Page) : Except Fault Page := do
  let num := Node.getNumCells parent
  let oldRightmost := Node.getRightmostChildId parent
  let parent ← Loop.forDown shiftCell (num - slot) slot parent
  let parent ← Node.setKey slot sepKey parent
  let parent ← if slot < num then Node.setLeftChildId (slot + 1) rightId parent
    else do
      let parent ← Node.setLeftChildId slot oldRightmost parent
      pure (Node.setRightmostChildId rightId parent)
  return Node.setNumCells (num + 1) parent

/-! ## Splitting -/

/-- `create_new_root`. -/
def createNewRoot (old : PagePtr) (oldId rightId : ℕ) : PageProg Unit := do
  let leftId ← Pool.getUnusedPageNum
  let left ← Pool.getPage leftId
  let buf ← Pool.load old
  Pool.store .btree left buf
  modify left (Node.setIsRoot false)
  Pool.markDirty leftId
  modify old (Node.initializeAsInternal true)
  modify old (Node.setNumCells 1)
  let right ← Pool.getPage rightId
  modifyChecked old (Node.setLeftChildId 0 leftId)
  let buf ← Pool.load right
  let sep ← PageProg.lift (Node.getKey buf 0)
  modifyChecked old (Node.setKey 0 sep)
  modify old (Node.setRightmostChildId rightId)
  Pool.markDirty oldId

/-- The body of the first loop over the merged arrays: what is before the
slot stays where it is. -/
def mergeBefore (oldKeys oldCh : List ℕ) (i : ℕ) (new : List ℕ × List ℕ) :
    Except Fault (List ℕ × List ℕ) := do
  let newKeys ← CppVector.set i (← CppVector.get oldKeys i) new.1
  let newCh ← CppVector.set i (← CppVector.get oldCh i) new.2
  return (newKeys, newCh)

/-- The body of the second loop: what is after it moves up by one. -/
def mergeAfter (oldKeys oldCh : List ℕ) (i : ℕ) (new : List ℕ × List ℕ) :
    Except Fault (List ℕ × List ℕ) := do
  let newKeys ← CppVector.set (i + 1) (← CppVector.get oldKeys i) new.1
  let newCh ← CppVector.set (i + 2) (← CppVector.get oldCh (i + 1)) new.2
  return (newKeys, newCh)

/-- The merged arrays `new_keys` and `new_ch` of `n + 1` keys and `n + 2`
children. -/
def mergeArrays (oldKeys oldCh : List ℕ) (n slot sepKey rightChildId : ℕ) :
    Except Fault (List ℕ × List ℕ) := do
  let (newKeys, newCh) ← Loop.forUp (mergeBefore oldKeys oldCh) slot 0
    (List.replicate (n + 1) 0, List.replicate (n + 2) 0)
  let newKeys ← CppVector.set slot sepKey newKeys
  let newCh ← CppVector.set slot (← CppVector.get oldCh slot) newCh
  let newCh ← CppVector.set (slot + 1) rightChildId newCh
  Loop.forUp (mergeAfter oldKeys oldCh) (n - slot) slot (newKeys, newCh)

/-- One step of an inner-node half: cell `i` from the merged arrays. -/
def fillCell (keys children : List ℕ) (off i : ℕ) (node : Page) : Except Fault Page := do
  let node ← Node.setKey i (keys.getD (off + i) 0) node
  Node.setLeftChildId i (children.getD (off + i) 0) node

/-- Writing `n` cells of the merged arrays, from `off` on, as an inner
node. -/
def fillInternal (keys children : List ℕ) (off n : ℕ) (node : Page) : Except Fault Page := do
  let node := Node.setNumCells n (Node.initializeAsInternal false node)
  let node ← Loop.forUp (fillCell keys children off) n 0 node
  return Node.setRightmostChildId (children.getD (off + n) 0) node

/-- `internal_node_split_and_insert`; `insertIntoParent` is the call at its
end, on the ancestors that remain. -/
def internalNodeSplitAndInsert (nodeId sepKey rightChildId : ℕ)
    (insertIntoParent : ℕ → ℕ → PageProg Unit) : PageProg Unit := do
  let node ← Pool.getPage nodeId
  let buf ← Pool.load node
  let wasRoot := Node.isRoot buf
  let n := Node.maxCells
  let oldKeys ← PageProg.lift ((List.range n).mapM (Node.getKey buf))
  let oldCh ← PageProg.lift ((List.range n).mapM (Node.getLeftChildId buf))
  let oldCh := oldCh ++ [Node.getRightmostChildId buf]
  let slot := oldKeys.findIdx (fun k => decide (sepKey < k))
  let (newKeys, newCh) ← PageProg.lift (mergeArrays oldKeys oldCh n slot sepKey rightChildId)
  let m := (n + 1) / 2
  let pushedKey := newKeys.getD m 0
  let leftNum := m
  let rightNum := n - m
  modifyChecked node (fillInternal newKeys newCh 0 leftNum)
  let rightId ← Pool.getUnusedPageNum
  let rightNode ← Pool.getPage rightId
  modifyChecked rightNode (fillInternal newKeys newCh (m + 1) rightNum)
  Pool.markDirty rightId
  if wasRoot then
    let leftId ← Pool.getUnusedPageNum
    let left ← Pool.getPage leftId
    let buf ← Pool.load node
    Pool.store .btree left buf
    modify left (Node.setIsRoot false)
    Pool.markDirty leftId
    modify node (Node.initializeAsInternal true)
    modify node (Node.setNumCells 1)
    modifyChecked node (Node.setLeftChildId 0 leftId)
    modifyChecked node (Node.setKey 0 pushedKey)
    modify node (Node.setRightmostChildId rightId)
    Pool.markDirty nodeId
  else
    modify node (Node.setIsRoot false)
    Pool.markDirty nodeId
    insertIntoParent pushedKey rightId

/-- `insert_into_parent`. -/
def insertIntoParent (sepKey rightId : ℕ) : Ancestors → PageProg Unit
  | [] => .fail .emptyContainer
  | (parentId, slot) :: ancestors => do
    let parent ← Pool.getPage parentId
    let buf ← Pool.load parent
    if Node.getNumCells buf < Node.maxCells then
      modifyChecked parent (parentInsert slot sepKey rightId)
      Pool.markDirty parentId
    else
      internalNodeSplitAndInsert parentId sepKey rightId
        (fun pushedKey newId => insertIntoParent pushedKey newId ancestors)

/-- The body of the redistribution loop: cell `i` of the old cells with the
new one among them goes to the half it belongs to. -/
def redistribute (old new : PagePtr) (k v : ℕ) (ins : ℤ) (split i : ℕ) : PageProg Unit := do
  let target := if split ≤ i then new else old
  let idx := if split ≤ i then i - split else i
  let buf ← Pool.load old
  let c ← PageProg.lift
    (if i = ins then .ok (k, v)
      else if ins < i then Node.getCell buf (i - 1)
      else Node.getCell buf i)
  modifyChecked target (Node.setCell idx c)

/-- `leaf_node_split_and_insert`. -/
def leafNodeSplitAndInsert (old : PagePtr) (oldId k v : ℕ) (ancestors : Ancestors) :
    PageProg Unit := do
  let newId ← Pool.getUnusedPageNum
  let new ← Pool.getPage newId
  modify new (Node.initializeAsLeaf false)
  let buf ← Pool.load old
  modify new (Node.setNextLeafId (Node.getNextLeafId buf))
  modify old (Node.setNextLeafId newId)
  let split := (Node.maxCells + 1) / 2
  let buf ← Pool.load old
  let ins ← PageProg.lift (leafNodeFind buf k)
  PageProg.forDown (redistribute old new k v (CInt.ofUInt ins).val split) (Node.maxCells + 1) 0
  modify old (Node.setNumCells split)
  modify new (Node.setNumCells (Node.maxCells + 1 - split))
  Pool.markDirty oldId
  Pool.markDirty newId
  let buf ← Pool.load new
  let separator ← PageProg.lift (Node.getKey buf 0)
  let buf ← Pool.load old
  if Node.isRoot buf then createNewRoot old oldId newId
  else insertIntoParent separator newId ancestors

/-- `insert`. -/
def insert (key value : ℕ) : PageProg Unit := do
  let root ← Pool.getPage rootPageId
  let (curId, node, ancestors) ← descend key uint32Size rootPageId root []
  let buf ← Pool.load node
  if Node.maxCells ≤ Node.getNumCells buf then
    leafNodeSplitAndInsert node curId key value ancestors
  else
    modifyChecked node (leafInsert key value)
    Pool.markDirty curId

end BTree
