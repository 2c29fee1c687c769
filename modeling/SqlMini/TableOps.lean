import SqlMini.TableState

/-!
# The operations of a table

Each operation is described by what it does to the records of the heap and
to what the leaves of the tree owe. An insertion stores the row in a free
slot and its pointer in the tree, unless it finds the heap used up or the
row too long for a page, in which case it has moved the cursor on
(`runs_insertRow`). Following a pointer reads the record behind it
(`runs_fetchRow`). A deletion frees the slot behind the pointer and buries
the pointer (`runs_deleteRow`).
-/

/-! ## Insertion -/

/-- **A record was stored** in a free slot of the heap. -/
structure Stored (s s' : Store) (p slot : ℕ) (data : ByteString) : Prop where
  /-- The page is one of the heap. -/
  mem : HeapPage p
  /-- The slot fits the twelve bits of a packed pointer. -/
  slot_le : slot ≤ 1022
  /-- The slot was free. -/
  fresh : s.record p slot = none
  /-- It holds the record. -/
  stored : s'.record p slot = some data
  /-- The other slots are as they were. -/
  frame : ∀ q i, HeapPage q → (q ≠ p ∨ i ≠ slot) → s'.record q i = s.record q i

namespace Table

open PageProg BTree

variable {Leaf : LeafSpec} {Leaf' : ℕ → LeafSpec} {t : Table} {s : Store} {p : ℕ}
  {hbuf : PagePtr} {data : ByteString}

/-- A page in use is handed on. -/
theorem runs_heapPage_used (hw : SlottedPage.WellFormed (s.pages p)) (hp : p < s.nextPageId) :
    Runs (heapPage p) s (fun ptr s' => ptr.page = p ∧ s' = s.atClock (s.clock + 1)) := by
  have hfree := hw.bounds
  unfold heapPage
  simp only [runs_bind, runs_getPage, runs_load, Store.touch_eq_atClock hp]
  refine runs_ite (fun h0 => ?_) (fun _ => (runs_pure _).mpr ⟨rfl, rfl⟩)
  have h0' : SlottedPage.freeOffset (s.pages p) = 0 := h0
  omega

/-- The array after the heap page `p` was formatted. -/
def formatted (s : Store) (p : ℕ) : Store :=
  ((s.atClock (s.clock + 1)).put .heap p (SlottedPage.init (Buffer.zero pageSize))).mark p

/-- An untouched page is formatted. -/
theorem runs_heapPage_unused (hz : s.pages p = Buffer.zero pageSize) (hp : p < s.nextPageId) :
    Runs (heapPage p) s (fun ptr s' => ptr.page = p ∧ s' = formatted s p) := by
  unfold heapPage
  simp only [runs_bind, runs_getPage, runs_load, Store.touch_eq_atClock hp]
  refine runs_ite (fun _ => ?_) (fun hne => ?_)
  · simp only [runs_bind, runs_store, runs_markDirty, runs_pure]
    rw [show (s.atClock (s.clock + 1)).pages p = Buffer.zero pageSize from hz]
    exact ⟨trivial, rfl⟩
  · refine absurd ?_ hne
    show SlottedPage.freeOffset (s.pages p) = 0
    rw [hz]
    exact SlottedPage.freeOffset_zero

/-- **The next page formatted**: no record comes or goes. -/
theorem formatted_spec (h : TableState Leaf t s) (hc : t.curHeapPage < 1022) :
    TableState Leaf { t with curHeapPage := t.curHeapPage + 1 } (formatted s (t.curHeapPage + 1))
      ∧ Store.Owned s (formatted s (t.curHeapPage + 1))
      ∧ ∀ p i, (formatted s (t.curHeapPage + 1)).record p i = s.record p i := by
  have hcur := h.heap.cur_mem
  have hz := h.heap.unused _ (Nat.lt_succ_self _) hc
  refine ⟨(h.atClock _).put .heap (Nat.succ_pos _) (le_trans hc (by omega))
    (h.heap.format hc (SlottedPage.wellFormed_init _)), ?_, fun p i => ?_⟩
  · exact (((Store.Owned.refl s).atClock _).put (o := .heap) (p := t.curHeapPage + 1) _
      ⟨le_trans hcur.1 (Nat.le_succ _), hc⟩).mark _
  · show SlottedPage.content (Function.update s.pages _ _ _) i = SlottedPage.content (s.pages p) i
    by_cases hp : p = t.curHeapPage + 1
    · rw [hp, Function.update_self, SlottedPage.content_init, hz, SlottedPage.content_zero]
    · rw [Function.update_of_ne hp]

/-- **The second half of an insertion**: the row is stored on the current
heap page and its pointer in the tree, unless the page is full. -/
theorem runs_placeRow (hL : Leaf.Sound)
    (hstep : ∀ v, v < packedEnd → LeafStep Leaf (Leaf' v) t.nextRowid v)
    (h : TableState Leaf t s) (hptr : hbuf.page = t.curHeapPage) :
    Runs (placeRow t hbuf data) s (fun r s' =>
      (r = (.error (.runtimeError (ascii "slot insert failed")), t) ∧ s' = s
        ∧ SlottedPage.freeSpace (s.pages t.curHeapPage) < data.length + 4)
      ∨ ∃ slot, r = (.ok t.nextRowid, { t with nextRowid := (t.nextRowid + 1) % uint32Size })
        ∧ TableState (Leaf' (packPtr t.curHeapPage slot)) r.2 s'
        ∧ Stored s s' t.curHeapPage slot data ∧ Store.Owned s s'
        ∧ data.length + SlottedPage.directoryGrowth (s.pages t.curHeapPage)
          ≤ SlottedPage.freeSpace (s.pages t.curHeapPage)) := by
  have hcur := h.heap.cur_mem
  have hw := h.heap.used _ hcur.1 le_rfl
  unfold placeRow
  simp only [runs_bind, runs_load, hptr]
  rcases SlottedPage.insert_spec hw data with ⟨hfull, hins⟩ | ⟨hfits, slot, buf', hins, hi⟩
  · have hgrow := SlottedPage.directoryGrowth_le (s.pages t.curHeapPage)
    rw [runs_lift_ok hins]
    refine runs_ite (fun _ => (runs_pure _).mpr (Or.inl ⟨rfl, rfl, ?_⟩)) (fun hne => absurd rfl hne)
    rw [hw.freeSpace_eq]
    omega
  · have hslot := hi.slot_le
    rw [runs_lift_ok hins]
    refine runs_ite (fun he => absurd he ?_) (fun _ => ?_)
    · show slot ≠ 65535
      omega
    · have hput : TableState Leaf t ((s.put .heap t.curHeapPage buf').mark t.curHeapPage) :=
        h.put .heap (le_trans (by omega) hcur.1) (hcur.2.trans (by omega))
          (h.heap.set le_rfl hi.wellFormed)
      have hlt := packPtr_lt hcur.1 hcur.2 hslot
      obtain ⟨lab, H, hT⟩ := hput.tree
      simp only [runs_bind, runs_store, runs_markDirty, hptr]
      refine (hT.runs_insert hL (hstep _ hlt) h.rowid_lt (lt_trans hlt (by decide))).mono
        (fun _ s₂ hg => ?_)
      obtain ⟨hstate, howned, hframe⟩ := hput.of_grown hg
      obtain ⟨hstate', howned', hframe'⟩ :=
        (hstate.withRowid ((t.nextRowid + 1) % uint32Size) (Nat.mod_lt _ (by decide))).metaStore
      refine (runs_writeMeta (t := { t with nextRowid := (t.nextRowid + 1) % uint32Size })).mpr
        ⟨h.fits, (runs_pure _).mpr ?_⟩
      -- the heap pages at the end are those after the slot was filled
      have hheap : ∀ q, HeapPage q →
        (metaStore { t with nextRowid := (t.nextRowid + 1) % uint32Size }
          s₂).pages q = Function.update s.pages t.curHeapPage buf' q := fun q hq =>
        (hframe' q (ne_of_lt (lt_of_le_of_lt hq.2 (by decide)))).trans
          (hframe q (le_trans (by omega) hq.1) (hq.2.trans (by omega)))
      refine Or.inr ⟨slot, rfl, hstate', ⟨hcur, hslot, hi.fresh, ?_, fun q i hq hne => ?_⟩, ?_, ?_⟩
      · unfold Store.record
        rw [hheap _ hcur, Function.update_self]
        exact hi.stored
      · unfold Store.record
        rw [hheap _ hq]
        by_cases hqc : q = t.curHeapPage
        · subst hqc
          rw [Function.update_self]
          exact hi.frame i (hne.resolve_left (fun hn => hn rfl))
        · rw [Function.update_of_ne hqc]
      · exact (((Store.Owned.refl s).put (o := .heap) (p := t.curHeapPage) buf' hcur).mark _
          |>.trans howned).trans howned'
      · rw [hw.freeSpace_eq]
        exact hfits

/-- The bytes of a row that are stored: the length is a `uint16_t`. -/
def stored (t : Table) (row : Row) : ByteString :=
  (serializeRow t.schema row).take ((serializeRow t.schema row).length % uint16Size)

theorem length_stored (t : Table) (row : Row) :
    (t.stored row).length = (serializeRow t.schema row).length % uint16Size := by
  rw [stored, List.length_take]
  exact min_eq_left (Nat.mod_le _ _)

/-- **The last heap page has no room** for a row: the condition under which
`insert_row` moves on from it. -/
def OutOfPages (t : Table) (row : Row) (s : Store) : Prop :=
  t.curHeapPage = 1022 ∧
    SlottedPage.freeSpace (s.pages 1022) < (serializeRow t.schema row).length % uint16Size + 8

/-- **A page has room** for a row: the current one, or the next one, which
is empty. -/
def HasRoom (t : Table) (row : Row) (s : Store) : Prop :=
  (serializeRow t.schema row).length % uint16Size + 8
      ≤ SlottedPage.freeSpace (s.pages t.curHeapPage)
    ∨ t.curHeapPage < 1022 ∧ (serializeRow t.schema row).length % uint16Size ≤ 4088

/-- Where the heap is used up no page has room. -/
theorem OutOfPages.not_hasRoom {row : Row} (h : OutOfPages t row s) : ¬ HasRoom t row s := by
  obtain ⟨hc, hfree⟩ := h
  rintro (hroom | ⟨hlt, -⟩)
  · rw [hc] at hroom
    omega
  · omega

/-- **`insert_row`** stores the row and its pointer; or it found the heap
used up, or the row too long for a page, and has moved the cursor on. -/
theorem runs_insertRow (hL : Leaf.Sound)
    (hstep : ∀ v, v < packedEnd → LeafStep Leaf (Leaf' v) t.nextRowid v)
    (h : TableState Leaf t s) (row : Row) :
    Runs (insertRow t row) s (fun r s' =>
      (OutOfPages t row s ∧ r = (.error (.runtimeError (ascii "out of heap pages")),
          { t with curHeapPage := 1023 }) ∧ ∃ c, s' = s.atClock c)
      ∨ (¬ OutOfPages t row s ∧ Store.Owned s s' ∧
        ((r = (.error (.runtimeError (ascii "slot insert failed")),
            { t with curHeapPage := t.curHeapPage + 1 }) ∧ TableState Leaf r.2 s'
            ∧ (∀ p i, s'.record p i = s.record p i) ∧ ¬ HasRoom t row s)
          ∨ ∃ p slot, r = (.ok t.nextRowid,
              { t with nextRowid := (t.nextRowid + 1) % uint32Size, curHeapPage := p })
            ∧ TableState (Leaf' (packPtr p slot)) r.2 s' ∧ Stored s s' p slot (t.stored row)
            ∧ HasRoom t row s))) := by
  have hcur := h.heap.cur_mem
  have hw := h.heap.used _ hcur.1 le_rfl
  have hlt := h.lt_next (hcur.2.trans (by omega))
  unfold insertRow
  simp only [runs_bind]
  refine (runs_heapPage_used hw hlt).mono ?_
  rintro hbuf s₁ ⟨hptr, rfl⟩
  have h₁ := h.atClock (s.clock + 1)
  simp only [runs_load, hptr, Store.pages_atClock]
  refine runs_ite (fun hfull => ?_) (fun hroom => ?_)
  · have hnext : (t.curHeapPage + 1) % uint32Size = t.curHeapPage + 1 :=
      Nat.mod_eq_of_lt (lt_of_le_of_lt (Nat.succ_le_succ hcur.2) (by decide))
    rw [hnext]
    refine runs_ite (fun hend => ?_) (fun hnend => ?_)
    · have hend' : 1023 ≤ t.curHeapPage + 1 := hend
      have hc : t.curHeapPage = 1022 := le_antisymm hcur.2 (by omega)
      rw [runs_pure, hc]
      refine Or.inl ⟨⟨hc, ?_⟩, rfl, s.clock + 1, rfl⟩
      rw [← hc]
      exact hfull
    · have hlt' : t.curHeapPage < 1022 := by
        have hend' : ¬ 1023 ≤ t.curHeapPage + 1 := hnend
        omega
      have hno : ¬ OutOfPages t row s := fun ho => absurd ho.1 (ne_of_lt hlt')
      have hz := h₁.heap.unused _ (Nat.lt_succ_self _) hlt'
      obtain ⟨h₂, howned, hrec⟩ := formatted_spec h₁ hlt'
      rw [runs_bind]
      refine (runs_heapPage_unused hz (h₁.lt_next (le_trans hlt' (by omega)))).mono ?_
      rintro hbuf' s₂ ⟨hptr', rfl⟩
      refine (runs_placeRow (t := { t with curHeapPage := t.curHeapPage + 1 })
        hL hstep h₂ hptr').mono
        (fun r s' hr => Or.inr ⟨hno, ?_⟩)
      -- the page just formatted has one entry and 4088 bytes to give
      have hempty : (formatted (s.atClock (s.clock + 1)) (t.curHeapPage + 1)).pages
          (t.curHeapPage + 1) = SlottedPage.init (Buffer.zero pageSize) :=
            Function.update_self _ _ _
      have hspace : SlottedPage.freeSpace (SlottedPage.init (Buffer.zero pageSize)) = 4092 := by
        decide
      have hgrow : SlottedPage.directoryGrowth (SlottedPage.init (Buffer.zero pageSize)) = 4 := by
        decide
      have hlen := t.length_stored row
      unfold stored at hlen
      rw [hempty, hspace, hgrow, hlen] at hr
      rcases hr with ⟨rfl, rfl, hturned⟩ | ⟨slot, rfl, hstate, hst, howned', hfits⟩
      · refine ⟨howned, Or.inl ⟨rfl, h₂, fun p i => hrec p i, ?_⟩⟩
        rintro (hroom | ⟨-, hroom⟩)
        · exact absurd hfull (not_lt.mpr hroom)
        · omega
      · exact ⟨howned.trans howned', Or.inr ⟨_, slot, rfl, hstate, ⟨hst.mem, hst.slot_le,
          (hrec _ _).symm.trans hst.fresh, hst.stored,
          fun q i hq hne => (hst.frame q i hq hne).trans (hrec q i)⟩, Or.inr ⟨hlt', by omega⟩⟩⟩
  · have hno : ¬ OutOfPages t row s := fun ho => hroom (by
      rw [ho.1]
      exact ho.2)
    refine (runs_placeRow hL hstep h₁ hptr).mono (fun r s' hr => Or.inr ⟨hno, ?_⟩)
    rcases hr with ⟨rfl, rfl, hfull⟩ | ⟨slot, rfl, hstate, hst, howned, -⟩
    · -- the test before has found room enough
      refine absurd ?_ hroom
      have hlen := List.length_take_le ((serializeRow t.schema row).length % uint16Size)
        (serializeRow t.schema row)
      exact lt_of_lt_of_le hfull (by
        show _ ≤ _ + 4 + 4
        omega)
    · exact ⟨howned, Or.inr ⟨t.curHeapPage, slot, rfl, hstate, ⟨hst.mem, hst.slot_le, hst.fresh,
        hst.stored, hst.frame⟩, Or.inl (not_lt.mp hroom)⟩⟩

end Table

namespace TableState

open PageProg BTree Table

variable {Leaf : LeafSpec} {Leaf' : ℕ → LeafSpec} {t : Table} {s s' : Store} {p slot : ℕ}

/-- **There is room** for a row that fits an empty page, unless the last page
has none. -/
theorem hasRoom (h : TableState Leaf t s) {row : Row}
    (hlen : (serializeRow t.schema row).length ≤ 4088)
    (hroom : ¬ OutOfPages t row s) : HasRoom t row s := by
  have hmod : (serializeRow t.schema row).length % uint16Size ≤ 4088 :=
    (Nat.mod_le _ _).trans hlen
  by_contra hno
  rw [HasRoom, not_or, not_le, not_and_or, not_lt] at hno
  obtain ⟨hspace, hlast⟩ := hno
  have hcur : t.curHeapPage = 1022 :=
    le_antisymm h.heap.cur_mem.2 (hlast.resolve_right (fun hn => hn hmod))
  exact hroom ⟨hcur, hcur ▸ hspace⟩

/-- A record is no longer than a page. -/
theorem length_record_le (h : TableState Leaf t s) (hp : HeapPage p) {data : ByteString}
    (hr : s.record p slot = some data) : data.length ≤ 4096 := by
  obtain ⟨hl, hs⟩ := SlottedPage.content_eq_some.mp hr
  by_cases hpc : p ≤ t.curHeapPage
  · have hin : _ ≤ 4096 := ((h.heap.used p hp.1 hpc).inside slot hl).2
    rw [← hs, Buffer.length_slice]
    omega
  · rw [h.heap.unused p (not_le.mp hpc) hp.2] at hl
    exact absurd hl (SlottedPage.content_eq_none.mp (SlottedPage.content_zero slot))

/-- **A row too long for a page** moves the cursor on. -/
theorem runs_insertRow_of_long (hL : Leaf.Sound)
    (hstep : ∀ v, v < packedEnd → LeafStep Leaf (Leaf' v) t.nextRowid v) (h : TableState Leaf t s)
    (row : Row) (hlong : 4096 < (t.stored row).length) :
    Runs (insertRow t row) s (fun r s' => (∃ e, r.1 = .error e)
      ∧ r.2 = { t with curHeapPage := t.curHeapPage + 1 }
      ∧ (t.curHeapPage < 1022 → TableState Leaf r.2 s')) := by
  refine (runs_insertRow hL hstep h row).mono ?_
  rintro r s' (⟨hout, rfl, -⟩ | ⟨-, -, ⟨rfl, hstate, -⟩ | ⟨p, slot, rfl, hstate, hst, -⟩⟩)
  · exact ⟨⟨_, rfl⟩, by rw [hout.1], fun hc => absurd hout.1 (ne_of_lt hc)⟩
  · exact ⟨⟨_, rfl⟩, rfl, fun _ => hstate⟩
  · have hle := hstate.length_record_le hst.mem hst.stored
    omega

end TableState

/-! ## Reading -/

namespace Table

open PageProg BTree

variable {Leaf Leaf' : LeafSpec} {t : Table} {s : Store} {v : ℕ}

/-- The row behind a slot of a heap page. -/
def rowAt (t : Table) (buf : Page) (slot : ℕ) : Except Fault (Option Row) := do
  match ← SlottedPage.get buf slot with
  | none => return none
  | some (off, len) => return some (← deserializeRow t.schema (pageReader buf off) len)

/-- **Following a packed pointer** reads the row behind it. -/
theorem runs_fetchRow (hv : v < packedEnd) (hnext : 1024 ≤ s.nextPageId)
    {Q : Option Row → Store → Prop} :
    Runs (fetchRow t (.ofUInt v)) s Q ↔
      ∃ o, rowAt t (s.pages (ptrPage v)) (ptrSlot v) = .ok o ∧ Q o (s.atClock (s.clock + 1)) := by
  have hv' : v < 2093056 := hv
  have hp := ptrPage_mem hv
  rw [fetchRow, CInt.toUInt_ofUInt (by omega)]
  simp only [runs_bind, runs_getPage, runs_load]
  rw [Store.touch_eq_atClock (show ptrPage v < s.nextPageId from by omega)]
  simp only [Store.pages_atClock]
  unfold rowAt
  rw [runs_lift]
  cases hget : SlottedPage.get (s.pages (ptrPage v)) (ptrSlot v) with
  | error f => exact iff_of_false (by rintro ⟨_, he, -⟩; cases he) (by rintro ⟨_, he, -⟩; cases he)
  | ok r =>
    simp only [Except.ok.injEq, exists_eq_left', Except.ok_bind_eq]
    rcases r with - | ⟨off, len⟩
    · refine (runs_pure _).trans ⟨fun hq => ⟨none, rfl, hq⟩, ?_⟩
      rintro ⟨o, he, hq⟩
      exact Except.ok.inj he ▸ hq
    · simp only [runs_bind, runs_lift, runs_pure, Except.bind_eq_ok]
      constructor
      · rintro ⟨row, hrow, hq⟩
        exact ⟨some row, ⟨row, hrow, rfl⟩, hq⟩
      · rintro ⟨o, ⟨row, hrow, he⟩, hq⟩
        exact ⟨row, hrow, Except.ok.inj he ▸ hq⟩

/-- Reading a row changes nothing. -/
theorem always_fetchRow (hv : v < packedEnd) (hnext : 1024 ≤ s.nextPageId) :
    Always (fetchRow t (.ofUInt v)) s (fun _ s' => s' = s.atClock (s.clock + 1)) := by
  intro o s' hrun
  rw [run_eq_ok, runs_fetchRow hv hnext] at hrun
  obtain ⟨o', -, -, he⟩ := hrun
  exact he.symm

/-- The bytes of a slice, read one by one. -/
theorem reads_pageReader (buf : Page) {off len : ℕ} (h : off + len ≤ 4096) :
    (pageReader buf off).Reads 0 (buf.slice off len) := by
  intro j b hj
  obtain ⟨hlt, hb⟩ := List.getElem?_eq_some_iff.mp hj
  rw [Buffer.length_slice] at hlt
  rw [Buffer.getElem_slice] at hb
  rw [pageReader, Nat.zero_add, buf.byte?_eq (show off + j < 4096 from by omega), hb]

/-- A pointer into a page leads to the bytes up to the end of the page. -/
theorem endsBy_pageReader (buf : Page) (off : ℕ) : (pageReader buf off).EndsBy (4096 - off) := by
  intro pos b h
  unfold pageReader Buffer.byte? at h
  by_cases hlt : off + pos < pageSize
  · have hlt' : off + pos < 4096 := hlt
    omega
  · rw [dif_neg hlt] at h
    cases h

/-- **A stored row is read back.** -/
theorem rowAt_eq {buf : Page} {slot : ℕ} {row : Row} (hw : SlottedPage.WellFormed buf)
    (hrow : row.length = t.schema.cols.length)
    (hc : SlottedPage.content buf slot = some (serializeRow t.schema row)) :
    rowAt t buf slot = .ok (some (t.schema.columnValues row)) := by
  obtain ⟨hl, hs⟩ := SlottedPage.content_eq_some.mp hc
  have hin : SlottedPage.offsetOf buf slot + SlottedPage.lengthOf buf slot ≤ 4096 :=
    (hw.inside slot hl).2
  have hlen : SlottedPage.lengthOf buf slot = (serializeRow t.schema row).length := by
    rw [← hs, Buffer.length_slice]
  have hrd := reads_pageReader buf hin
  rw [hs] at hrd
  unfold rowAt
  rw [hw.get_eq, if_pos hl, Except.ok_bind_eq]
  simp only
  rw [hlen, deserializeRow_serializeRow hrow.le (by rw [← hlen]; omega) hrd]
  rfl

end Table

/-! ## Looking up a pointer -/

namespace BTree

/-- **What is known of the value of a key** from the leaf it belongs to, and
that a value in use is a packed pointer. -/
structure LeafSays (Leaf : LeafSpec) (key : ℕ) (Val : Option ℕ → Prop) : Prop where
  /-- What a search finds in the leaf. -/
  val : ∀ {cs lo hi idx}, Leaf cs lo hi → lo ≤ key → key < hi → FoundIn cs key idx →
    Val ((cellFor cs key idx).map Prod.snd)
  /-- A value in use is a packed pointer. -/
  small : ∀ v, Val (some v) → v ≠ tombstone → v < Table.packedEnd

/-- A key has no value in use. -/
def Unused (o : Option ℕ) : Prop := ∀ v, o = some v → v = tombstone

/-- **The answer of `find`** is negative exactly where there is no value in
use. -/
theorem answer_cases {o : Option ℕ} (h : ∀ v, o = some v → v ≠ tombstone → v < Table.packedEnd) :
    (Unused o ∧ (answer o).val < 0)
      ∨ ∃ v, o = some v ∧ v ≠ tombstone ∧ v < Table.packedEnd ∧ answer o = .ofUInt v
        ∧ ¬ (answer o).val < 0 := by
  rcases o with - | v
  · exact Or.inl ⟨fun v hv => (by cases hv), by decide⟩
  · by_cases hv : v = tombstone
    · refine Or.inl ⟨fun w hw => (Option.some.inj hw).symm.trans hv, ?_⟩
      rw [answer, if_pos hv]
      decide
    · have hlt := h v rfl hv
      have hlt' : v < 2093056 := hlt
      have ha : answer (some v) = .ofUInt v := if_neg hv
      refine Or.inr ⟨v, rfl, hv, hlt, ha, ?_⟩
      rw [ha, CInt.val_ofUInt (by omega)]
      omega

end BTree

/-- **A record was freed.** -/
structure Freed (s s' : Store) (p slot : ℕ) : Prop where
  /-- The slot is free. -/
  freed : s'.record p slot = none
  /-- The other slots are as they were. -/
  frame : ∀ q i, HeapPage q → (q ≠ p ∨ i ≠ slot) → s'.record q i = s.record q i

namespace TableState

open PageProg BTree Table

variable {Leaf Leaf' : LeafSpec} {t : Table} {s : Store} {key : ℕ} {Val : Option ℕ → Prop}

/-- **`find`** in the tree of a table. -/
theorem runs_find (hL : Leaf.Sound) (hsay : LeafSays Leaf key Val) (h : TableState Leaf t s)
    (hkey : key < 4294967296) :
    Runs (BTree.find key) s (fun r s' => (∃ c, s' = s.atClock c) ∧ ∃ o, Val o ∧ r = answer o) := by
  obtain ⟨lab, H, hT⟩ := h.tree
  refine (BTree.runs_find hL hT hkey).mono ?_
  rintro r s' ⟨hs, p, idx, hreach, hr⟩
  exact ⟨hs, _, hsay.val ((hT.tree.node p hreach.mem).leaf hreach.lvl).2 hreach.lo hreach.hi
    hreach.found, hr⟩

/-- **`remove`** in the tree of a table. -/
theorem runs_remove (hL : Leaf.Sound) (hsay : LeafSays Leaf key Val)
    (hbury : LeafBury Leaf Leaf' key) (h : TableState Leaf t s) (hkey : key < 4294967296) :
    Runs (BTree.remove key) s (fun _ s' => Store.Owned s s'
      ∧ (∀ p, 1 ≤ p → p ≤ 1023 → s'.pages p = s.pages p)
      ∧ ((TableState Leaf t s' ∧ ∃ o, Val o ∧ Unused o) ∨ TableState Leaf' t s')) := by
  obtain ⟨lab, H, hT⟩ := h.tree
  refine (hT.runs_remove hL hbury hkey).mono ?_
  rintro r s' ⟨p, idx, hreach, hr⟩
  have hval := hsay.val ((hT.tree.node p hreach.mem).leaf hreach.lvl).2 hreach.lo hreach.hi
    hreach.found
  rcases hr with ⟨-, ⟨c, rfl⟩, hunused⟩ | ⟨-, hg, -⟩
  · exact ⟨(Store.Owned.refl s).atClock c, fun _ _ _ => rfl,
      Or.inl ⟨h.atClock c, _, hval, hunused⟩⟩
  · obtain ⟨hstate, howned, hframe⟩ := h.of_grown hg
    exact ⟨howned, hframe, Or.inr hstate⟩

end TableState

/-! ## Deletion -/

namespace SlottedPage

/-- A slot of a heap page is freed, whether the page is in use or not. -/
theorem deleteSlot_zero (slot : ℕ) :
    deleteSlot (Buffer.zero pageSize) slot = .ok (Buffer.zero pageSize) := by
  unfold deleteSlot
  rw [numSlots_zero, if_pos (Nat.zero_le slot)]

end SlottedPage

namespace HeapOk

variable {pages : ℕ → Page} {cur p : ℕ}

/-- **A slot of any heap page is freed.** -/
theorem deleteSlot_spec (h : HeapOk pages cur) (hp : HeapPage p) (slot : ℕ) :
    ∃ buf', SlottedPage.deleteSlot (pages p) slot = .ok buf'
      ∧ HeapOk (Function.update pages p buf') cur
      ∧ SlottedPage.content buf' slot = none
      ∧ ∀ j, j ≠ slot → SlottedPage.content buf' j = SlottedPage.content (pages p) j := by
  by_cases hpc : p ≤ cur
  · obtain ⟨buf', he, hw, hnone, hframe⟩ := SlottedPage.deleteSlot_spec (h.used p hp.1 hpc) slot
    exact ⟨buf', he, h.set hpc hw, hnone, hframe⟩
  · have hz := h.unused p (not_le.mp hpc) hp.2
    refine ⟨Buffer.zero pageSize, by rw [hz, SlottedPage.deleteSlot_zero], ?_,
      SlottedPage.content_zero slot, fun j _ => by rw [hz]⟩
    rw [← hz, Function.update_eq_self]
    exact h

end HeapOk

namespace Table

open PageProg BTree

variable {Leaf Leaf' : LeafSpec} {t : Table} {s : Store} {key : ℕ} {Val : Option ℕ → Prop}

/-- **`delete_row`** frees the slot behind the pointer of a rowid and buries
the pointer, or finds none. -/
theorem runs_deleteRow (hL : Leaf.Sound) (hsay : LeafSays Leaf key Val)
    (hbury : LeafBury Leaf Leaf' key) (h : TableState Leaf t s) (hkey : key < 4294967296) :
    Runs (deleteRow key) s (fun r s' => Store.Spared s s' ∧ ∃ o, Val o ∧
      ((r = false ∧ Unused o ∧ ∃ c, s' = s.atClock c)
      ∨ (r = true ∧ ∃ v, o = some v ∧ v ≠ tombstone ∧ v < packedEnd
        ∧ Freed s s' (ptrPage v) (ptrSlot v)
        ∧ ((TableState Leaf t s' ∧ ∃ o, Val o ∧ Unused o) ∨ TableState Leaf' t s')))) := by
  unfold deleteRow
  rw [runs_bind]
  refine (h.runs_find hL hsay hkey).mono ?_
  rintro r s' ⟨⟨c, rfl⟩, o, hval, rfl⟩
  rcases answer_cases (o := o) (fun v hv => hsay.small v (hv ▸ hval)) with
    ⟨hun, hneg⟩ | ⟨v, hv, hne, hlt, hans, hnneg⟩
  · rw [if_pos hneg, runs_pure]
    exact ⟨(Store.Spared.refl s).atClock c, o, hval, Or.inl ⟨rfl, hun, c, rfl⟩⟩
  · have hmem := ptrPage_mem hlt
    have hlt' : v < 2093056 := hlt
    rw [if_neg hnneg, hans, CInt.toUInt_ofUInt (by omega)]
    obtain ⟨buf', he, hheap, hnone, hframe⟩ := h.heap.deleteSlot_spec hmem (ptrSlot v)
    simp only [runs_bind, runs_getPage, runs_load]
    rw [Store.touch_atClock c (h.lt_next (hmem.2.trans (by omega)))]
    simp only [Store.pages_atClock, runs_lift_ok he, runs_store, runs_markDirty]
    have hput : TableState Leaf t (((s.atClock (c + 1)).put .heap (ptrPage v) buf').mark
      (ptrPage v)) :=
      (h.atClock _).put .heap (le_trans (by omega) hmem.1) (hmem.2.trans (by omega)) hheap
    refine (hput.runs_remove hL hsay hbury hkey).mono ?_
    rintro r s₂ ⟨howned, hpages, hstate⟩
    rw [runs_pure]
    -- the pages below the tree's are those after the slot was freed
    have hend : ∀ q, 1 ≤ q → q ≤ 1023 → s₂.pages q = Function.update s.pages (ptrPage v) buf' q :=
      hpages
    have hheap' : ∀ q, HeapPage q → 1 ≤ q ∧ q ≤ 1023 := fun q hq =>
      ⟨le_trans (by omega) hq.1, hq.2.trans (by omega)⟩
    refine ⟨⟨?_, ?_⟩, o, hval, Or.inr ⟨rfl, v, hv, hne, hlt, ⟨?_, fun q i hq hqi => ?_⟩, hstate⟩⟩
    · exact ((((Store.Owned.refl s).atClock _).put (o := .heap) buf' hmem).mark _).trans howned
    · have hle : ptrPage v ≤ 1022 := hmem.2
      have hmeta : 1023 ≠ ptrPage v := by omega
      rw [hend schemaPageId (show 1 ≤ 1023 by omega) le_rfl, Function.update_of_ne hmeta]
    · unfold Store.record
      rw [hend _ (hheap' _ hmem).1 (hheap' _ hmem).2, Function.update_self]
      exact hnone
    · unfold Store.record
      rw [hend q (hheap' q hq).1 (hheap' q hq).2]
      by_cases hqv : q = ptrPage v
      · rw [hqv, Function.update_self]
        exact hframe i (hqi.resolve_left (fun hn => hn hqv))
      · rw [Function.update_of_ne hqv]

end Table
