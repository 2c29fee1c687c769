import SqlMini.Table
import SqlMini.RecordStore
import SqlMini.TreeMap

/-!
# The state of a table

A table divides the page numbers among its three components: the metadata
has page `1023`, the heap the pages from `512` up to it, and the B-tree page
`0` and the pages handed out, which start after `1023` because that page was
accessed before any was handed out. `TableState` is the invariant: the
B-tree's pages are a tree, the heap pages up to the current one are well
formed and those after it untouched.

What the leaves of the tree owe is a parameter, as it is for the tree.
-/

/-! ## Packed pointers -/

namespace Table

/-- Every packed pointer is below this bound. -/
abbrev packedEnd : ℕ := 2093056

/-- **A packed pointer** is the heap page and the slot side by side. -/
theorem packPtr_eq {p slot : ℕ} (hp : 512 ≤ p) (hp' : p ≤ 1022) (hslot : slot ≤ 1022) :
    packPtr p slot = (p - 512) * 4096 + slot := by
  have hsub : (p + uint32Size - heapPageBase) % uint32Size = p - 512 := by
    show (p + 4294967296 - 512) % 4294967296 = p - 512
    omega
  have hand : slot &&& 0xFFF = slot := by
    rw [Nat.and_two_pow_sub_one_eq_mod slot 12]
    exact Nat.mod_eq_of_lt (by omega)
  have hshift : (p - 512) <<< 12 % uint32Size = (p - 512) <<< 12 := by
    rw [Nat.shiftLeft_eq]
    exact Nat.mod_eq_of_lt (show (p - 512) * 2 ^ 12 < 4294967296 from by omega)
  rw [packPtr, hsub, hand, hshift, ← Nat.shiftLeft_add_eq_or_of_lt (by omega), Nat.shiftLeft_eq]

theorem packPtr_lt {p slot : ℕ} (hp : 512 ≤ p) (hp' : p ≤ 1022) (hslot : slot ≤ 1022) :
    packPtr p slot < packedEnd := by
  rw [packPtr_eq hp hp' hslot]
  show _ < 2093056
  omega

/-- The heap page of a packed pointer. -/
theorem ptrPage_eq {v : ℕ} (h : v < packedEnd) : ptrPage v = v / 4096 + 512 := by
  have hv : v < 2093056 := h
  rw [ptrPage, Nat.shiftRight_eq_div_pow]
  exact Nat.mod_eq_of_lt (show v / 4096 + 512 < 4294967296 from by omega)

/-- The slot of a packed pointer. -/
theorem ptrSlot_eq (v : ℕ) : ptrSlot v = v % 4096 := Nat.and_two_pow_sub_one_eq_mod v 12

/-- **A packed pointer leads to a heap page.** -/
theorem ptrPage_mem {v : ℕ} (h : v < packedEnd) : 512 ≤ ptrPage v ∧ ptrPage v ≤ 1022 := by
  have hv : v < 2093056 := h
  rw [ptrPage_eq h]
  omega

/-- **What is packed is unpacked.** -/
theorem ptr_packPtr {p slot : ℕ} (hp : 512 ≤ p) (hp' : p ≤ 1022) (hslot : slot ≤ 1022) :
    ptrPage (packPtr p slot) = p ∧ ptrSlot (packPtr p slot) = slot := by
  rw [ptrPage_eq (packPtr_lt hp hp' hslot), ptrSlot_eq, packPtr_eq hp hp' hslot]
  omega

end Table

/-! ## The heap -/

/-- A page of the heap. -/
def HeapPage (p : ℕ) : Prop := 512 ≤ p ∧ p ≤ 1022

/-- **The heap pages**: those up to the current one are in use. -/
structure HeapOk (pages : ℕ → Page) (cur : ℕ) : Prop where
  /-- The current page is a page of the heap. -/
  cur_mem : HeapPage cur
  /-- A page in use is well formed. -/
  used : ∀ p, 512 ≤ p → p ≤ cur → SlottedPage.WellFormed (pages p)
  /-- The others are as they were in the new file. -/
  unused : ∀ p, cur < p → p ≤ 1022 → pages p = Buffer.zero pageSize

namespace SlottedPage

/-- An untouched page has no slots. -/
theorem numSlots_zero : numSlots (Buffer.zero pageSize) = 0 := Buffer.readLE_zero ..

theorem freeOffset_zero : freeOffset (Buffer.zero pageSize) = 0 := Buffer.readLE_zero ..

/-- An untouched page holds no record. -/
theorem content_zero (i : ℕ) : content (Buffer.zero pageSize) i = none := by
  rw [content_eq_none]
  intro hl
  have hlt := hl.1
  rw [numSlots_zero] at hlt
  exact Nat.not_lt_zero _ hlt

end SlottedPage

namespace HeapOk

variable {pages pages' : ℕ → Page} {cur p : ℕ}

/-- A change elsewhere. -/
theorem congr (h : HeapOk pages cur) (hp : ∀ p, HeapPage p → pages' p = pages p) :
    HeapOk pages' cur := by
  have hc := h.cur_mem
  refine ⟨hc, fun p h1 h2 => ?_, fun p h1 h2 => ?_⟩
  · rw [hp p ⟨h1, h2.trans hc.2⟩]
    exact h.used p h1 h2
  · rw [hp p ⟨by unfold HeapPage at hc; omega, h2⟩]
    exact h.unused p h1 h2

/-- A page in use replaced by a well-formed page. -/
theorem set (h : HeapOk pages cur) {buf : Page} (hp : p ≤ cur) (hw : SlottedPage.WellFormed buf) :
    HeapOk (Function.update pages p buf) cur := by
  refine ⟨h.cur_mem, fun q h1 h2 => ?_, fun q h1 h2 => ?_⟩
  · by_cases hq : q = p
    · rw [hq, Function.update_self]
      exact hw
    · rw [Function.update_of_ne hq]
      exact h.used q h1 h2
  · rw [Function.update_of_ne (by omega)]
    exact h.unused q h1 h2

/-- The next page formatted. -/
theorem format (h : HeapOk pages cur) {buf : Page} (hc : cur < 1022)
    (hw : SlottedPage.WellFormed buf) : HeapOk (Function.update pages (cur + 1) buf) (cur + 1) := by
  refine ⟨?_, fun q h1 h2 => ?_, fun q h1 h2 => ?_⟩
  · have hm := h.cur_mem
    unfold HeapPage at *
    omega
  · by_cases hq : q = cur + 1
    · rw [hq, Function.update_self]
      exact hw
    · rw [Function.update_of_ne hq]
      exact h.used q h1 (by omega)
  · rw [Function.update_of_ne (by omega)]
    exact h.unused q (by omega) h2

end HeapOk

/-! ## Who may write where -/

/-- **A page belongs to a component.** -/
def Owner.owns : Owner → ℕ → Prop
  | .btree, p => p = 0 ∨ 1024 ≤ p
  | .heap, p => HeapPage p
  | .metadata, p => p = Table.schemaPageId

/-- An entry of the log respects the division of the pages. -/
def Event.owned : Event → Prop
  | .wrote o p => o.owns p
  | .handedOut p => Owner.owns .btree p

namespace Store

/-- **Between `s` and `s'` every component kept to its pages.** -/
def Owned (s s' : Store) : Prop := ∃ es, s'.log = es ++ s.log ∧ ∀ e ∈ es, Event.owned e

namespace Owned

variable {s s' s'' : Store} {p : ℕ}

theorem refl (s : Store) : Owned s s := ⟨[], rfl, by simp⟩

theorem trans (h : Owned s s') (h' : Owned s' s'') : Owned s s'' := by
  obtain ⟨es, he, hes⟩ := h
  obtain ⟨es', he', hes'⟩ := h'
  refine ⟨es' ++ es, by rw [he', he, List.append_assoc], fun e hmem => ?_⟩
  rcases List.mem_append.mp hmem with hm | hm
  · exact hes' e hm
  · exact hes e hm

theorem atClock (h : Owned s s') (c : ℕ) : Owned s (s'.atClock c) := h

theorem mark (h : Owned s s') (p : ℕ) : Owned s (s'.mark p) := h

theorem put (h : Owned s s') {o : Owner} (buf : Page) (hp : o.owns p) :
    Owned s (s'.put o p buf) := by
  obtain ⟨es, he, hes⟩ := h
  refine ⟨.wrote o p :: es, ?_, ?_⟩
  · show Event.wrote o p :: s'.log = _
    rw [he]
    rfl
  · intro e hmem
    rcases List.mem_cons.mp hmem with rfl | hm
    · exact hp
    · exact hes e hm

/-- A tree that keeps to its pages. -/
theorem of_within {next : ℕ} (h : Store.Within .btree (BTree.Owned 1024 next) s s') :
    Owned s s' := by
  obtain ⟨es, he, hes⟩ := h.log
  refine ⟨es, he, fun e hmem => ?_⟩
  have hw := hes e hmem
  cases e with
  | wrote o p =>
    obtain ⟨rfl, hp⟩ := hw
    exact hp.imp id And.left
  | handedOut p => exact hw.2.imp id And.left

end Owned

/-- **Between `s` and `s'` every component kept to its pages**, and the metadata
was left alone. -/
structure Spared (s s' : Store) : Prop where
  owned : Owned s s'
  metadata : s'.pages Table.schemaPageId = s.pages Table.schemaPageId

namespace Spared

variable {s s' s'' : Store}

theorem refl (s : Store) : Spared s s := ⟨Owned.refl s, rfl⟩

theorem trans (h : Spared s s') (h' : Spared s' s'') : Spared s s'' :=
  ⟨h.owned.trans h'.owned, h'.metadata.trans h.metadata⟩

theorem atClock (h : Spared s s') (c : ℕ) : Spared s (s'.atClock c) := ⟨h.owned, h.metadata⟩

end Spared

end Store

/-! ## The invariant -/

namespace BTree.TreeState

variable {Leaf : LeafSpec} {base : ℕ} {lab : ℕ → Label} {H : ℕ} {s s' : Store}

/-- The tree is in its pages. -/
theorem frame (h : TreeState Leaf base lab H s)
    (hpages : ∀ p, Owned base s.nextPageId p → s'.pages p = s.pages p)
    (hnext : s'.nextPageId = s.nextPageId) (hext : s'.extent = s.extent) :
    TreeState Leaf base lab H s' := by
  refine ⟨h.base_pos, h.base_small, hnext ▸ h.base_le, ?_, ?_⟩
  · rw [hext, hnext]
    exact h.synced
  · rw [hnext]
    refine ⟨h.tree.shape, fun p hp => ?_⟩
    rw [hpages p hp]
    exact h.tree.node p hp

end BTree.TreeState

/-- **The schema fits the metadata page**: the bytes that `write_meta` copies
do. Their number is a `uint32_t`. -/
def Schema.Fits (schema : Schema) : Prop := schema.serialize.length % uint32Size ≤ 4084

instance (schema : Schema) : Decidable schema.Fits := inferInstanceAs (Decidable (_ ≤ _))

/-- **The invariant of a table** whose leaves owe `Leaf`. -/
structure TableState (Leaf : BTree.LeafSpec) (t : Table) (s : Store) : Prop where
  /-- The pages of the B-tree are a tree. -/
  tree : ∃ lab H, BTree.TreeState Leaf 1024 lab H s
  /-- The heap pages are in order. -/
  heap : HeapOk s.pages t.curHeapPage
  /-- The next rowid is a `uint32_t`. -/
  rowid_lt : t.nextRowid < 4294967296
  /-- The schema fits the metadata page. -/
  fits : t.schema.Fits

/-- The record of a heap page and slot. -/
def Store.record (s : Store) (p slot : ℕ) : Option ByteString :=
  SlottedPage.content (s.pages p) slot

namespace TableState

open PageProg BTree

variable {Leaf Leaf' : LeafSpec} {t : Table} {s s' : Store} {p slot : ℕ}

/-- The pages below the tree's were all accessed. -/
theorem lt_next (h : TableState Leaf t s) (hp : p ≤ 1023) : p < s.nextPageId := by
  obtain ⟨lab, H, hT⟩ := h.tree
  have := hT.base_le
  omega

theorem lt_extent (h : TableState Leaf t s) (hp : p ≤ 1023) : max s.extent (p + 1) = s.extent := by
  obtain ⟨lab, H, hT⟩ := h.tree
  have := hT.base_le
  have := hT.synced
  omega

theorem atClock (h : TableState Leaf t s) (c : ℕ) : TableState Leaf t (s.atClock c) := by
  obtain ⟨lab, H, hT⟩ := h.tree
  exact ⟨⟨lab, H, hT.atClock c⟩, h.heap, h.rowid_lt, h.fits⟩

/-- **A write to a page that is not the tree's.** -/
theorem put (h : TableState Leaf t s) {buf : Page} (o : Owner) {cur : ℕ} (hp : 1 ≤ p)
    (hp' : p ≤ 1023) (hheap : HeapOk (Function.update s.pages p buf) cur) :
    TableState Leaf { t with curHeapPage := cur } ((s.put o p buf).mark p) := by
  obtain ⟨lab, H, hT⟩ := h.tree
  refine ⟨⟨lab, H, hT.frame (fun q hq => ?_) rfl (h.lt_extent hp')⟩, hheap, h.rowid_lt, h.fits⟩
  have hne : q ≠ p := by
    unfold BTree.Owned at hq
    omega
  exact Function.update_of_ne hne _ _

/-- The next rowid moved on. -/
theorem withRowid (h : TableState Leaf t s) (n : ℕ) (hn : n < 4294967296) :
    TableState Leaf { t with nextRowid := n } s := ⟨h.tree, h.heap, hn, h.fits⟩

/-- What a step of the tree leaves of the rest. -/
theorem of_grown (h : TableState Leaf t s) {lab : ℕ → Label} (hg : Grown Leaf' 1024 lab s s') :
    TableState Leaf' t s' ∧ Store.Owned s s'
      ∧ ∀ p, 1 ≤ p → p ≤ 1023 → s'.pages p = s.pages p := by
  have hframe : ∀ p, 1 ≤ p → p ≤ 1023 → s'.pages p = s.pages p := by
    intro p hp hp'
    refine hg.within.frame p ?_
    unfold BTree.Owned
    omega
  refine ⟨⟨hg.state, h.heap.congr (fun p hp => hframe p ?_ ?_), h.rowid_lt, h.fits⟩,
    Store.Owned.of_within hg.within, hframe⟩
  · exact le_trans (by omega) hp.1
  · exact hp.2.trans (by omega)

end TableState

/-! ## Metadata -/

namespace Table

open PageProg BTree

variable {Leaf : LeafSpec} {Leaf' : ℕ → LeafSpec} {t : Table} {s : Store} {p : ℕ}
  {hbuf : PagePtr} {data : ByteString}

/-- The bytes of the schema that `write_meta` copies. -/
def schemaBytes (t : Table) : ByteString :=
  t.schema.serialize.take (t.schema.serialize.length % uint32Size)

/-- The metadata page after `write_meta`. -/
def metaPage (t : Table) (buf : Page) : Page :=
  (((buf.writeLE 0 4 t.nextRowid).writeLE 4 4 t.curHeapPage).writeLE 8 4
    (t.schema.serialize.length % uint32Size)).blit 12 t.schemaBytes

/-- The array after `write_meta`. -/
def metaStore (t : Table) (s : Store) : Store :=
  ((s.touch schemaPageId).put .metadata schemaPageId (metaPage t (s.pages schemaPageId))).mark
    schemaPageId

theorem length_schemaBytes (t : Table) :
    t.schemaBytes.length = t.schema.serialize.length % uint32Size := by
  rw [schemaBytes, List.length_take]
  exact min_eq_left (Nat.mod_le _ _)

/-- **`write_meta`** writes the metadata page, if the schema fits; otherwise
it runs past the end of the page. -/
theorem runs_writeMeta {Q : Unit → Store → Prop} :
    Runs (writeMeta t) s Q ↔ t.schema.Fits ∧ Q () (metaStore t s) := by
  have hcopy : ∀ buf : Page, (if 0 < t.schema.serialize.length % uint32Size then
      buf.copyIn 12 (t.schema.serialize.take (t.schema.serialize.length % uint32Size)) else .ok buf)
        = if t.schema.Fits then Except.ok (buf.blit 12 t.schemaBytes)
          else Except.error Fault.outOfBounds := by
    intro buf
    have hlen := t.length_schemaBytes
    split
    case isTrue =>
      show buf.copyIn 12 t.schemaBytes = _
      unfold Buffer.copyIn Schema.Fits
      rw [hlen]
      exact if_congr (show 12 + _ ≤ 4096 ↔ _ by omega) rfl rfl
    case isFalse h0 =>
      have hzero : t.schema.serialize.length % uint32Size = 0 := by omega
      rw [if_pos (show t.schema.Fits by unfold Schema.Fits; omega),
        List.eq_nil_of_length_eq_zero (hlen.trans hzero), Buffer.blit_nil]
  simp only [writeMeta, runs_bind, runs_getPage, runs_load, hcopy]
  rw [runs_lift]
  by_cases hfit : t.schema.Fits
  · rw [if_pos hfit]
    simp only [Except.ok.injEq, exists_eq_left', runs_store, runs_markDirty, hfit, true_and]
    rfl
  · rw [if_neg hfit]
    simp [hfit]

end Table

namespace TableState

open PageProg BTree Table

variable {Leaf : LeafSpec} {t : Table} {s : Store}

/-- The metadata of the table written. -/
theorem metaStore (h : TableState Leaf t s) :
    TableState Leaf t (metaStore t s) ∧ Store.Owned s (metaStore t s)
      ∧ ∀ p, p ≠ schemaPageId → (Table.metaStore t s).pages p = s.pages p := by
  have htouch := Store.touch_eq_atClock (h.lt_next le_rfl)
  have hframe : ∀ p, p ≠ schemaPageId → (Table.metaStore t s).pages p = s.pages p := fun p hp =>
    Function.update_of_ne hp _ _
  refine ⟨?_, ?_, hframe⟩
  · unfold Table.metaStore
    rw [htouch]
    refine (h.atClock _).put .metadata (by decide) le_rfl (h.heap.congr (fun p hp => ?_))
    exact hframe p (ne_of_lt (lt_of_le_of_lt hp.2 (by decide)))
  · unfold Table.metaStore
    rw [htouch]
    exact (((Store.Owned.refl s).atClock _).put (o := .metadata) (p := schemaPageId) _ rfl).mark _

end TableState
