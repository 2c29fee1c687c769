import SqlMini.BTree
import SqlMini.SlottedPage
import SqlMini.Schema

/-!
# Tables

A table keeps its rows as records of heap pages and finds them through a
B-tree from rowids to packed pointers, a heap page and a slot in one integer.
Page `1023` holds the metadata: the next rowid, the current heap page and
the schema. Rows are appended to the current heap page; where it has no room
the next page becomes the current one, for good.

This is the class function by function, as programs over a page pool. The
object's own fields are a `Table`, handed on explicitly, so that a call that
throws still hands on the fields it changed before.
-/

/-- **The fields of a table object.** -/
structure Table where
  /-- `schema_`. -/
  schema : Schema
  /-- `next_rowid_`. -/
  nextRowid : ℕ
  /-- `cur_heap_page_`. -/
  curHeapPage : ℕ
  deriving DecidableEq

instance : Inhabited Table := ⟨⟨default, 0, 0⟩⟩

namespace Table

/-- `SCHEMA_PAGE_ID`. -/
abbrev schemaPageId : ℕ := 1023

/-- `HEAP_PAGE_BASE`. -/
abbrev heapPageBase : ℕ := 512

/-! ## Packed pointers -/

/-- `pack_ptr`. -/
def packPtr (pageId slot : ℕ) : ℕ :=
  (((pageId + uint32Size - heapPageBase) % uint32Size) <<< 12 % uint32Size) ||| (slot &&& 0xFFF)

/-- `ptr_page`. -/
def ptrPage (packed : ℕ) : ℕ := (packed >>> 12 + heapPageBase) % uint32Size

/-- `ptr_slot`. -/
def ptrSlot (packed : ℕ) : ℕ := packed &&& 0xFFF

/-! ## Metadata -/

/-- `write_meta`. -/
def writeMeta (t : Table) : PageProg Unit := do
  let ptr ← Pool.getPage schemaPageId
  let buf ← Pool.load ptr
  let buf := buf.writeLE 0 4 t.nextRowid
  let buf := buf.writeLE 4 4 t.curHeapPage
  let sb := t.schema.serialize
  let slen := sb.length % uint32Size
  let buf := buf.writeLE 8 4 slen
  let buf ← PageProg.lift (if 0 < slen then buf.copyIn 12 (sb.take slen) else .ok buf)
  Pool.store .metadata ptr buf
  Pool.markDirty schemaPageId

/-- The bytes behind a pointer into a page. -/
def pageReader (buf : Page) (off : ℕ) : Reader := fun j =>
  match buf.byte? (off + j) with
  | some b => .ok b
  | none => .error .outOfBounds

/-- `read_meta`. -/
def readMeta : PageProg Table := do
  let ptr ← Pool.getPage schemaPageId
  let buf ← Pool.load ptr
  let slen := buf.readLE 8 4
  let schema ← PageProg.lift
    (if 0 < slen then Schema.deserialize (pageReader buf 12) slen else .ok default)
  return ⟨schema, buf.readLE 0 4, buf.readLE 4 4⟩

/-- `Table::Table`, for a pool over an empty file or not. -/
def construct (schema : Schema) (create isNew : Bool) : PageProg Table := do
  BTree.construct isNew
  if create then
    let ptr ← Pool.getPage heapPageBase
    let buf ← Pool.load ptr
    Pool.store .heap ptr (SlottedPage.init buf)
    Pool.markDirty heapPageBase
    let t : Table := ⟨schema, 1, heapPageBase⟩
    writeMeta t
    Pool.flushAll
    return t
  else
    let t ← readMeta
    return { t with schema := { t.schema with tableName := schema.tableName } }

/-- `Table::~Table`. -/
def destruct (t : Table) : PageProg Unit := do
  writeMeta t
  Pool.flushAll

/-! ## Rows -/

/-- `heap_page`. -/
def heapPage (pageId : ℕ) : PageProg PagePtr := do
  let ptr ← Pool.getPage pageId
  let buf ← Pool.load ptr
  if SlottedPage.freeOffset buf = 0 then
    Pool.store .heap ptr (SlottedPage.init buf)
    Pool.markDirty pageId
    return ptr
  else return ptr

/-- The second half of `insert_row`, once the heap page is chosen. -/
def placeRow (t : Table) (hbuf : PagePtr) (data : ByteString) :
    PageProg (Except StdException ℕ × Table) := do
  let buf ← Pool.load hbuf
  let r ← PageProg.lift (SlottedPage.insert buf data)
  if r.1 = SlottedPage.uint16Max then
    return (.error (.runtimeError (ascii "slot insert failed")), t)
  else
    Pool.store .heap hbuf r.2
    Pool.markDirty t.curHeapPage
    let rowid := t.nextRowid
    let t := { t with nextRowid := (rowid + 1) % uint32Size }
    BTree.insert rowid (packPtr t.curHeapPage r.1)
    writeMeta t
    return (.ok rowid, t)

/-- `insert_row`. The length of the encoding is a `uint16_t`. -/
def insertRow (t : Table) (row : Row) : PageProg (Except StdException ℕ × Table) := do
  let bytes := serializeRow t.schema row
  let len := bytes.length % uint16Size
  let hbuf ← heapPage t.curHeapPage
  let buf ← Pool.load hbuf
  if SlottedPage.freeSpace buf < len + SlottedPage.slotEntrySize + 4 then
    let t := { t with curHeapPage := (t.curHeapPage + 1) % uint32Size }
    if schemaPageId ≤ t.curHeapPage then
      return (.error (.runtimeError (ascii "out of heap pages")), t)
    else
      let hbuf ← heapPage t.curHeapPage
      placeRow t hbuf (bytes.take len)
  else placeRow t hbuf (bytes.take len)

/-- Following a packed pointer to a row, as `scan` and `find_by_rowid` do. -/
def fetchRow (t : Table) (packed : CInt) : PageProg (Option Row) := do
  let hbuf ← Pool.getPage (ptrPage packed.toUInt)
  let buf ← Pool.load hbuf
  let r ← PageProg.lift (SlottedPage.get buf (ptrSlot packed.toUInt))
  match r with
  | none => return none
  | some (off, len) => do
    let row ← PageProg.lift (deserializeRow t.schema (pageReader buf off) len)
    return some row

/-- `find_by_rowid`. -/
def findByRowid (t : Table) (rowid : ℕ) : PageProg (Option Row) := do
  let packed ← BTree.find rowid
  if packed.val < 0 then return none else fetchRow t packed

/-- **A callback of `scan`** with the state it captures: whether to go on,
and the state, or an exception. -/
abbrev Callback (σ : Type) := ℕ → Row → σ → Except StdException (Bool × σ)

/-- The loop of `scan`, over `n` rowids from `rid` on. -/
def scanFrom {σ : Type} (t : Table) (cb : Callback σ) :
    (n rid count : ℕ) → σ → PageProg (Except StdException (ℕ × σ))
  | 0, _, count, st => pure (.ok (count, st))
  | n + 1, rid, count, st => do
    let packed ← BTree.find rid
    if packed.val < 0 then scanFrom t cb n (rid + 1) count st
    else do
      let r ← fetchRow t packed
      match r with
      | none => scanFrom t cb n (rid + 1) count st
      | some row =>
        match cb rid row st with
        | .error e => return .error e
        | .ok (true, st) => scanFrom t cb n (rid + 1) (count + 1) st
        | .ok (false, st) => return .ok (count + 1, st)

/-- `scan`: the number of rows the callback was called on, and its state. -/
def scan {σ : Type} (t : Table) (cb : Callback σ) (st : σ) :
    PageProg (Except StdException (ℕ × σ)) :=
  scanFrom t cb (t.nextRowid - 1) 1 0 st

/-- `delete_row`. -/
def deleteRow (rowid : ℕ) : PageProg Bool := do
  let packed ← BTree.find rowid
  if packed.val < 0 then return false
  else
    let pg := ptrPage packed.toUInt
    let hbuf ← Pool.getPage pg
    let buf ← Pool.load hbuf
    let buf ← PageProg.lift (SlottedPage.deleteSlot buf (ptrSlot packed.toUInt))
    Pool.store .heap hbuf buf
    Pool.markDirty pg
    let _ ← BTree.remove rowid
    return true

/-- The second loop of `delete_where`. -/
def deleteAll : (rids : List ℕ) → (count : ℕ) → PageProg ℕ
  | [], count => pure count
  | rid :: rids, count => do
    let hit ← deleteRow rid
    deleteAll rids (if hit then count + 1 else count)

/-- The callback with which `delete_where` collects rowids. -/
def collect (pred : ℕ → Row → Except StdException Bool) : Callback (List ℕ) := fun rid row st =>
  match pred rid row with
  | .error e => .error e
  | .ok hit => .ok (true, if hit then st ++ [rid] else st)

/-- `delete_where`. -/
def deleteWhere (t : Table) (pred : ℕ → Row → Except StdException Bool) :
    PageProg (Except StdException ℕ) := do
  let r ← scan t (collect pred) []
  match r with
  | .error e => return .error e
  | .ok (_, rids) => do
    let count ← deleteAll rids 0
    return .ok count

end Table
