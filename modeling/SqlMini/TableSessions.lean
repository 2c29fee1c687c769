import SqlMini.TableMeta

/-!
# Tables opened again

A table that is closed writes its metadata, and a pool opened on the file
afterwards starts from the same pages and, since every page handed out was
marked dirty, from the same counter. The table takes its next rowid and its
heap cursor from the metadata page, so what holds between two calls holds
across sessions, too (`Kept.reopen`).

Whatever the schema that is read back, a row whose encoding fits an empty
page is never turned down by a page, and there is a page for it until the
cursor is on the last one (`insertRow_accepts`).
-/

/-- **The array behind the file** into which a pool has written the pages
marked dirty, for a pool opened on it. -/
def Store.reopened (s : Store) : Store := ⟨s.pages, s.extent % uint32Size, 0, s.extent, []⟩

namespace Table

open PageProg BTree

variable {Leaf : LeafSpec} {t t' : Table} {s s' s'' : Store} {schema : Schema}

/-- A tree is the same for the pool opened next. -/
theorem tableState_reopened (hL : Leaf.Sound) (h : TableState Leaf t s) :
    TableState Leaf t s.reopened := by
  obtain ⟨lab, H, hT⟩ := h.tree
  have hsmall := hT.next_small hL
  have hnext : s.reopened.nextPageId = s.nextPageId := by
    show s.extent % 4294967296 = s.nextPageId
    rw [hT.synced]
    exact Nat.mod_eq_of_lt (by omega)
  exact ⟨⟨lab, H, hT.frame (fun _ _ => rfl) hnext rfl⟩, h.heap, h.rowid_lt, h.fits⟩

/-- **`Table::Table`** over a file with pages. -/
theorem runs_construct_stored {Q : Table → Store → Prop} :
    Runs (construct schema false false) s Q
      ↔ ∃ stored, storedSchema (s.pages schemaPageId) = .ok stored
        ∧ Q ⟨⟨schema.tableName, stored.cols⟩, (s.pages schemaPageId).readLE 0 4,
            (s.pages schemaPageId).readLE 4 4⟩ ((s.touch rootPageId).touch schemaPageId) := by
  unfold construct BTree.construct
  simp only [Bool.false_eq_true, if_false, runs_bind, runs_getPage, runs_readMeta, runs_pure,
    Store.pages_touch]

/-- **`Table::~Table`.** -/
theorem runs_destruct {Q : Unit → Store → Prop} :
    Runs (destruct t) s Q ↔ t.schema.Fits ∧ Q () (metaStore t s) := by
  unfold destruct
  simp only [runs_bind, runs_writeMeta, runs_flushAll]

/-- **Closing and opening a table** keeps what holds between two calls. -/
theorem Kept.reopen (h : Kept t s) (hclose : (destruct t).run s = .ok ((), s'))
    (hopen : (construct schema false false).run s'.reopened = .ok (t', s'')) : Kept t' s'' := by
  obtain ⟨n, hn, h⟩ := h
  obtain ⟨-, -, rfl⟩ := runs_destruct.mp (run_eq_ok.mp hclose)
  obtain ⟨stored, hstored, rfl, rfl⟩ := runs_construct_stored.mp (run_eq_ok.mp hopen)
  have hclosed := tableState_reopened (leafRows_sound n) h.metaStore.1
  have hcur := h.heap.cur_mem.2
  have hmeta : (metaStore t s).reopened.pages schemaPageId
      = metaPage t (s.pages schemaPageId) := Function.update_self schemaPageId _ s.pages
  rw [hmeta] at hstored ⊢
  rw [readLE_metaPage_nextRowid h.rowid_lt,
    readLE_metaPage_curHeapPage (lt_of_le_of_lt hcur (by decide)),
    Store.touch_eq_atClock (hclosed.lt_next (p := rootPageId) (Nat.zero_le _)),
    Store.touch_eq_atClock ((hclosed.atClock _).lt_next le_rfl)]
  have hfits : stored.Fits := fits_of_storedSchema hstored
  exact ⟨n, hn, ((hclosed.atClock _).atClock _).tree, hclosed.heap, hclosed.rowid_lt, hfits⟩

/-- **`insert_row`**, where it returns. -/
theorem Kept.of_insertRow (h : Kept t s) {row : Row} {rowid : ℕ}
    (hrun : (insertRow t row).run s = .ok ((.ok rowid, t'), s')) : Kept t' s' := by
  refine ((h.runs_insertRow (fun (hout : OutOfPages t row s) => ?_)).always _ _ hrun).1
  -- an insertion that finds the last heap page used up throws
  obtain ⟨n, hn, hstate⟩ := h
  rcases (Table.runs_insertRow (leafRows_sound n) (fun v hv => hn ▸ leafStep_rows n hv) hstate
    row).always _ _ hrun with ⟨-, he, -⟩ | ⟨hno, -⟩
  · cases (Prod.mk.inj he).1
  · exact hno hout

/-- **The tables in use**, over any number of sessions: no call has thrown. -/
inductive InUse : Table → Store → Prop
  /-- A new table. -/
  | new {schema : Schema} {t : Table} {s : Store}
      (hrun : (construct schema true true).run .empty = .ok (t, s)) : InUse t s
  /-- `insert_row`. -/
  | insert {t t' : Table} {s s' : Store} {rowid : ℕ} (h : InUse t s) (row : Row)
      (hrun : (insertRow t row).run s = .ok ((.ok rowid, t'), s')) : InUse t' s'
  /-- `delete_row`. -/
  | delete {t : Table} {s s' : Store} {hit : Bool} (h : InUse t s) (rowid : Fin uint32Size)
      (hrun : (deleteRow rowid).run s = .ok (hit, s')) : InUse t s'
  /-- `delete_where`. -/
  | deleteWhere {t : Table} {s s' : Store} {n : ℕ} (h : InUse t s)
      (pred : ℕ → Row → Except StdException Bool)
      (hrun : (deleteWhere t pred).run s = .ok (.ok n, s')) : InUse t s'
  /-- The table is closed, and opened again on the same file. -/
  | reopen {t t' : Table} {s s' s'' : Store} (h : InUse t s) (schema : Schema)
      (hclose : (destruct t).run s = .ok ((), s'))
      (hopen : (construct schema false false).run s'.reopened = .ok (t', s'')) : InUse t' s''

/-- **A table in use is in order.** -/
theorem InUse.kept (h : InUse t s) : Kept t s := by
  induction h with
  | new hrun =>
    obtain ⟨hfit, rfl, rfl⟩ := construct_eq_ok.mp hrun
    exact .new hfit
  | insert h row hrun ih => exact ih.of_insertRow hrun
  | delete h rowid hrun ih => exact ((ih.runs_deleteRow rowid.isLt).always _ _ hrun).1
  | deleteWhere h pred hrun ih => exact (ih.always_deleteWhere pred _ _ hrun).1
  | reopen h schema hclose hopen ih => exact ih.reopen hclose hopen

/-- **Rows that fit are accepted while there is room**: a row of at most 4088
bytes is not turned down by a page, and the heap is out of pages only if the
cursor was on the last one. -/
theorem insertRow_accepts (h : InUse t s) {row : Row}
    (hlen : (serializeRow t.schema row).length ≤ 4088) :
    Runs (insertRow t row) s (fun r _ =>
      r.1 ≠ .error (.runtimeError (ascii "slot insert failed"))
        ∧ (r.1 = .error (.runtimeError (ascii "out of heap pages")) → t.curHeapPage = 1022)) := by
  obtain ⟨n, hn, hstate⟩ := h.kept
  refine (Table.runs_insertRow (leafRows_sound n) (fun v hv => hn ▸ leafStep_rows n hv) hstate
    row).mono ?_
  rintro r s' (⟨hout, rfl, -⟩ | ⟨hno, -, ⟨rfl, -, -, hroom⟩ | ⟨p, slot, rfl, -⟩⟩)
  · refine ⟨fun he => ?_, fun _ => hout.1⟩
    exact absurd (StdException.runtimeError.inj (Except.error.inj he)) (by decide)
  · exact absurd (hstate.hasRoom hlen hno) hroom
  · exact ⟨by simp, by simp⟩

/-- A table of one integer column. -/
def counters : Schema := ⟨ascii "t", [⟨ascii "a", .int, 4⟩]⟩

/-- A second row, after the table was closed and opened again. -/
theorem insertRow_accepts_reopened : ∃ t s, InUse t s ∧ t.nextRowid = 2
    ∧ Runs (insertRow t [.makeInt (.ofUInt 7)]) s (fun r _ =>
      r.1 ≠ .error (.runtimeError (ascii "slot insert failed"))
        ∧ (r.1 = .error (.runtimeError (ascii "out of heap pages")) → t.curHeapPage = 1022)) := by
  have hnew : InUse ⟨counters, 1, 512⟩ (metaStore ⟨counters, 1, 512⟩ newHeap) :=
    .new (construct_eq_ok.mpr ⟨by decide, rfl, rfl⟩)
  have hruns : (do
      let ((r, t), s) ← (insertRow ⟨counters, 1, 512⟩ [.makeInt (.ofUInt 5)]).run
        (metaStore ⟨counters, 1, 512⟩ newHeap)
      let (_, s) ← (destruct t).run s
      let (t, _) ← (construct counters false false).run s.reopened
      return (r, t) : Except Fault _) = .ok (.ok 1, ⟨counters, 2, 512⟩) := by decide +kernel
  obtain ⟨⟨⟨r, t⟩, s⟩, hinsert, hruns⟩ := Except.bind_eq_ok.mp hruns
  obtain ⟨⟨_, s'⟩, hclose, hruns⟩ := Except.bind_eq_ok.mp hruns
  obtain ⟨⟨t', s''⟩, hopen, hruns⟩ := Except.bind_eq_ok.mp hruns
  obtain ⟨rfl, rfl⟩ := Prod.mk.inj (Except.ok.inj hruns)
  have hused : InUse _ s'' := (hnew.insert _ hinsert).reopen counters hclose hopen
  exact ⟨_, s'', hused, rfl, insertRow_accepts hused (by decide)⟩

end Table
