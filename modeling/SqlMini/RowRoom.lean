import SqlMini.TableTruncation

/-!
# The rows that some table takes

An insertion compares the length of the encoding with the room on the current
page, both cut to sixteen bits. So whether there is a table that takes a row
depends on the schema, which the metadata page has to hold, and on what is left
of the length (`exists_takes_iff`).

A page formatted for the table takes 4088 bytes. The eight lengths above are
taken by a page whose directory has as many entries as wrap around to a
directory of no bytes (`wrappedPage`), which a file can hold but no insertion
leaves.
-/

namespace SlottedPage

variable {buf : Page} {data : ByteString}

/-- **A record stored** lies in the page. -/
theorem length_le_of_insert {r : ℕ × Page} (h : insert buf data = .ok r) (hr : r.1 ≠ uint16Max) :
    data.length ≤ pageSize := by
  unfold insert at h
  obtain ⟨reuse, -, h⟩ := Except.bind_eq_ok.mp h
  simp only at h
  generalize (headerSize + numSlots buf * slotEntrySize + _) % uint16Size = dirEnd at h
  by_cases hfull : freeOffset buf < dirEnd + data.length
  · rw [if_pos hfull] at h
    exact absurd (congrArg Prod.fst (Except.ok.inj h)).symm hr
  · rw [if_neg hfull] at h
    obtain ⟨buf', hcopy, -⟩ := Except.bind_eq_ok.mp h
    unfold Buffer.copyIn at hcopy
    split at hcopy
    case isTrue hle => exact le_trans (Nat.le_add_left _ _) hle
    case isFalse => cases hcopy

/-- A page whose directory claims 16383 entries. -/
def wrappedPage : Page := ((Buffer.zero pageSize).writeLE 0 2 16383).writeLE 2 2 4096

theorem numSlots_wrappedPage : numSlots wrappedPage = 16383 := by
  unfold numSlots wrappedPage
  rw [Buffer.readLE_writeLE_disjoint _ _ (by omega), Buffer.readLE_writeLE_same _ _ (by decide)]
  rfl

theorem freeOffset_wrappedPage : freeOffset wrappedPage = 4096 := by
  unfold freeOffset wrappedPage
  rw [Buffer.readLE_writeLE_same _ _ (by decide)]
  rfl

theorem freeSpace_wrappedPage : freeSpace wrappedPage = 4096 := by
  unfold freeSpace
  rw [numSlots_wrappedPage, freeOffset_wrappedPage]
  rfl

theorem findReusable_wrappedPage : findReusable wrappedPage = .ok (some 0) := by
  have hslot : slotOffset wrappedPage 0 = .ok 0 := by
    unfold slotOffset wrappedPage
    rw [Buffer.fetch_eq_ok _ (by decide), Buffer.readLE_writeLE_disjoint _ _ (by decide),
      Buffer.readLE_writeLE_disjoint _ _ (by decide), Buffer.readLE_zero]
  unfold findReusable
  rw [numSlots_wrappedPage, Loop.searchUp, hslot]
  rfl

/-- **The whole page** is given to a record. -/
theorem insert_wrappedPage (h : data.length ≤ 4096) :
    ∃ buf, insert wrappedPage data = .ok (0, buf) := by
  have hle : 4096 - data.length + data.length ≤ pageSize := by
    rw [Nat.sub_add_cancel h]
  unfold insert
  simp only [findReusable_wrappedPage, Except.ok_bind_eq, numSlots_wrappedPage,
    freeOffset_wrappedPage]
  rw [if_neg (show ¬ 4096 < _ by
    show ¬ 4096 < 0 + data.length
    omega), Buffer.copyIn_eq_ok _ hle, Except.ok_bind_eq]
  unfold setSlot
  rw [Buffer.poke_eq_ok _ _ (by decide), Except.ok_bind_eq, Buffer.poke_eq_ok _ _ (by decide)]
  exact ⟨_, rfl⟩

end SlottedPage

namespace Table

open PageProg BTree

variable {schema : Schema} {row : Row} {t : Table} {s : Store} {hbuf : PagePtr} {data : ByteString}

/-- **A row inserted.** -/
def Takes (t : Table) (s : Store) (row : Row) : Prop :=
  Runs (insertRow t row) s (fun r _ => ∃ rowid, r.1 = .ok rowid)

theorem of_runs_placeRow (h : Runs (placeRow t hbuf data) s (fun r _ => ∃ rowid, r.1 = .ok rowid)) :
    t.schema.Fits ∧ data.length ≤ pageSize := by
  unfold placeRow at h
  simp only [runs_bind, runs_load, runs_lift] at h
  obtain ⟨r, hins, h⟩ := h
  by_cases hfull : r.1 = SlottedPage.uint16Max
  · rw [if_pos hfull, runs_pure] at h
    obtain ⟨rowid, hrowid⟩ := h
    cases hrowid
  · rw [if_neg hfull] at h
    simp only [runs_bind, runs_store, runs_markDirty] at h
    obtain ⟨-, s', -, h⟩ := h
    exact ⟨(runs_writeMeta.mp h).1, SlottedPage.length_le_of_insert hins hfull⟩

/-- **What a row inserted says** of the table and the row. -/
theorem Takes.fits (h : Takes t s row) :
    t.schema.Fits ∧ (serializeRow t.schema row).length % uint16Size ≤ pageSize := by
  have hlen := t.length_stored row
  unfold stored at hlen
  unfold Takes insertRow at h
  rw [runs_bind] at h
  obtain ⟨ptr, s₁, -, h⟩ := h
  simp only [runs_bind, runs_load] at h
  split at h
  case isTrue =>
    split at h
    case isTrue =>
      obtain ⟨rowid, hrowid⟩ := (runs_pure _).mp h
      cases hrowid
    case isFalse =>
      rw [runs_bind] at h
      obtain ⟨ptr', s₂, -, h⟩ := h
      obtain ⟨hfit, hle⟩ := of_runs_placeRow h
      exact ⟨hfit, hlen ▸ hle⟩
  case isFalse =>
    obtain ⟨hfit, hle⟩ := of_runs_placeRow h
    exact ⟨hfit, hlen ▸ hle⟩

/-- Two heap pages with a wrapped directory. -/
def wrappedStore (schema : Schema) : Store :=
  ((metaStore ⟨schema, 1, 512⟩ newHeap).put .heap 512 SlottedPage.wrappedPage).put .heap 513
    SlottedPage.wrappedPage

theorem takes_wrappedStore (hfit : schema.Fits)
    (hle : (serializeRow schema row).length % uint16Size ≤ 4096)
    (hlong : 4088 < (serializeRow schema row).length % uint16Size) :
    Takes ⟨schema, 1, 512⟩ (wrappedStore schema) row := by
  have hlen := (⟨schema, 1, 512⟩ : Table).length_stored row
  have h512 : (wrappedStore schema).pages 512 = SlottedPage.wrappedPage := by
    unfold wrappedStore
    rw [Store.pages_put, Function.update_of_ne (show 512 ≠ 513 by decide), Store.pages_put,
      Function.update_self]
  have h513 : (wrappedStore schema).pages 513 = SlottedPage.wrappedPage := by
    unfold wrappedStore
    rw [Store.pages_put, Function.update_self]
  have hfree : ¬ SlottedPage.freeOffset SlottedPage.wrappedPage = 0 := by
    rw [SlottedPage.freeOffset_wrappedPage]
    decide
  obtain ⟨buf, hins⟩ := SlottedPage.insert_wrappedPage (hlen.trans_le hle)
  unfold stored at hins
  obtain ⟨lab, H, hT⟩ := (tableState_new_map hfit).tree
  -- the pages of the tree are those of the new table
  have htree : ∀ c, TreeState (LeafMap fun _ => none) 1024 lab H
      (((((wrappedStore schema).touch 512).touch 513).put .heap 513 c).mark 513) := by
    refine fun c => hT.frame (fun p hp => ?_) rfl rfl
    unfold BTree.Owned at hp
    show (Function.update (Function.update (Function.update _ 512 _) 513 _) 513 c : ℕ → Page) p = _
    rw [Function.update_of_ne (by omega), Function.update_of_ne (by omega),
      Function.update_of_ne (by omega)]
  unfold Takes insertRow heapPage placeRow
  simp only [runs_bind, runs_getPage, runs_load, Store.pages_touch, h512, if_neg hfree, runs_pure]
  rw [if_pos (show SlottedPage.freeSpace SlottedPage.wrappedPage < _ by
    rw [SlottedPage.freeSpace_wrappedPage]
    show 4096 < _ + 4 + 4
    omega), if_neg (by decide)]
  have hcur : (512 + 1) % uint32Size = 513 := rfl
  simp only [hcur, runs_bind, runs_getPage, runs_load, Store.pages_touch, h513, if_neg hfree,
    runs_pure]
  rw [runs_lift_ok hins, if_neg (show ¬ 0 = 65535 by decide)]
  simp only [runs_bind, runs_store, runs_markDirty]
  refine ((htree buf).runs_insert (leafMap_sound _) (leafStep_fresh rfl _) (by decide)
    (by decide)).mono (fun _ s' _ => ?_)
  exact runs_writeMeta.mpr ⟨hfit, (runs_pure _).mpr ⟨1, rfl⟩⟩

/-- **Some table takes the row** exactly if the schema fits the metadata page
and what is left of the length of the row a page. -/
theorem exists_takes_iff : (∃ t s, t.schema = schema ∧ Takes t s row)
    ↔ schema.Fits ∧ (serializeRow schema row).length % uint16Size ≤ pageSize := by
  constructor
  · rintro ⟨t, s, rfl, h⟩
    exact h.fits
  · rintro ⟨hfit, hle⟩
    by_cases hlong : 4088 < (serializeRow schema row).length % uint16Size
    · exact ⟨_, _, rfl, takes_wrappedStore hfit hle hlong⟩
    · obtain ⟨t, s, -, -, -, hrun, -⟩ := exists_inserted hfit (not_lt.mp hlong)
      exact ⟨_, _, rfl, _, _, hrun, 1, rfl⟩

end Table
