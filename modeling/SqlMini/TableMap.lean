import SqlMini.RowMap

/-!
# A table is a map from rowids to rows

`Stands a m t s` is the joint invariant of the three structures a table is
spread over: the tree binds rowids to packed pointers (`m`), a rowid with a
row (`a`) has a pointer to a slot that holds the encoding of the row, and no
two rowids in use share a slot. An insertion takes a slot that is free, so
no row loses its own; a deletion frees the slot of its row and buries the
pointer, so that the slot can be taken again.

Each call on a table that stands for a map returns what the call on the map
returns and leaves a table that stands for the map it leaves
(`Stands.runs_exec`). A schema too long for the metadata page is the one
obstacle: `write_meta` then writes past the end of the page, in the
constructor already.
-/

namespace Table

open PageProg BTree

variable {σ : Type} {a : RowMap} {m : ℕ → Option ℕ} {t : Table} {s s' : Store} {key : ℕ}

/-- **The table stands for the map `a`**, by way of the pointers `m`. -/
structure Stands (a : RowMap) (m : ℕ → Option ℕ) (t : Table) (s : Store) : Prop where
  /-- The pages are in order, the pointers in the tree. -/
  state : TableState (LeafMap m) t s
  /-- The next rowid is that of the map. -/
  next_eq : t.nextRowid = a.next
  next_pos : 1 ≤ a.next
  /-- Only rowids handed out are in the tree. -/
  born : ∀ r, m r ≠ none → 1 ≤ r ∧ r < a.next
  /-- A rowid without a row has no pointer in use. -/
  gone : ∀ r, a.rows r = none → Unused (m r)
  /-- A rowid with a row has a pointer to its encoding. -/
  row : ∀ r row, a.rows r = some row → ∃ v raw, m r = some v ∧ v ≠ tombstone ∧ v < packedEnd
    ∧ s.record (ptrPage v) (ptrSlot v) = some (serializeRow t.schema raw)
    ∧ raw.length = t.schema.cols.length ∧ t.schema.columnValues raw = row
  /-- No two rowids share a slot. -/
  apart : ∀ r r' v, m r = some v → m r' = some v → v ≠ tombstone → r = r'

/-- Two packed pointers to one slot are equal. -/
theorem ptr_injective {v w : ℕ} (hv : v < packedEnd) (hw : w < packedEnd)
    (hp : ptrPage v = ptrPage w) (hs : ptrSlot v = ptrSlot w) : v = w := by
  rw [ptrPage_eq hv, ptrPage_eq hw] at hp
  rw [ptrSlot_eq, ptrSlot_eq] at hs
  omega

/-- A packed pointer is not the tombstone. -/
theorem ne_tombstone {v : ℕ} (hv : v < packedEnd) : v ≠ tombstone := by
  have hv' : v < 2093056 := hv
  show v ≠ 4294967294
  omega

namespace Stands

/-- A rowid with a pointer in use has a row. -/
theorem isSome_of_used (h : Stands a m t s) {v : ℕ} (hm : m key = some v) (hv : v ≠ tombstone) :
    ∃ row, a.rows key = some row := by
  rw [← Option.ne_none_iff_exists']
  intro hnone
  exact hv (h.gone key hnone v hm)

/-- What the leaves say about a rowid. -/
theorem leafSays (h : Stands a m t s) (key : ℕ) :
    LeafSays (LeafMap m) key (fun o => o = m key) where
  val hleaf hlo hhi hf := LeafMap.lookup hleaf hf hlo hhi
  small v hv hne := by
    obtain ⟨row, hrow⟩ := h.isSome_of_used hv.symm hne
    obtain ⟨w, -, hw, -, hlt, -⟩ := h.row key row hrow
    rw [← hv, Option.some.injEq] at hw
    exact hw ▸ hlt

theorem atClock (h : Stands a m t s) (c : ℕ) : Stands a m t (s.atClock c) :=
  ⟨h.state.atClock c, h.next_eq, h.next_pos, h.born, h.gone, h.row, h.apart⟩

/-- The next rowid is not in the tree. -/
theorem fresh (h : Stands a m t s) : m t.nextRowid = none := by
  by_contra hne
  have hlt := (h.born _ hne).2
  rw [h.next_eq] at hlt
  exact lt_irrefl _ hlt

/-! ## Insertion -/

/-- **A row stored** under the next rowid. -/
theorem insert (h : Stands a m t s) {p slot : ℕ} {raw : Row} {t' : Table}
    (hst : Stored s s' p slot (serializeRow t.schema raw))
    (hraw : raw.length = t.schema.cols.length) (hsmall : a.next < 4294967295)
    (ht' : t'.nextRowid = (t.nextRowid + 1) % uint32Size) (hschema : t'.schema = t.schema)
    (hstate : TableState (LeafMap (Function.update m t.nextRowid (some (packPtr p slot)))) t' s') :
    Stands (a.insert (t.schema.columnValues raw))
      (Function.update m t.nextRowid (some (packPtr p slot))) t' s' := by
  have hlt := packPtr_lt hst.mem.1 hst.mem.2 hst.slot_le
  obtain ⟨hpage, hslot⟩ := ptr_packPtr hst.mem.1 hst.mem.2 hst.slot_le
  have hn := h.next_eq
  -- a slot in use is not the one taken
  have hother : ∀ r v, m r = some v → v ≠ tombstone →
      v < packedEnd ∧ (ptrPage v ≠ p ∨ ptrSlot v ≠ slot) := by
    intro r v hm hv
    obtain ⟨row, hrow⟩ := h.isSome_of_used hm hv
    obtain ⟨w, raw', hw, -, hlt', hrec, -⟩ := h.row r row hrow
    rw [hm, Option.some.injEq] at hw
    subst hw
    refine ⟨hlt', ?_⟩
    by_contra hno
    rw [not_or, not_not, not_not] at hno
    obtain ⟨rfl, rfl⟩ := hno
    rw [hst.fresh] at hrec
    cases hrec
  refine ⟨hstate, ?_, Nat.le_add_left 1 _, fun r hr => ?_, fun r hr => ?_, fun r row hr => ?_,
    fun r r' v hr hr' hv => ?_⟩
  · rw [ht', hn]
    show (a.next + 1) % 4294967296 = a.next + 1
    omega
  · show 1 ≤ r ∧ r < a.next + 1
    by_cases hrn : r = t.nextRowid
    · have hpos := h.next_pos
      omega
    · rw [Function.update_of_ne hrn] at hr
      have hb := h.born r hr
      omega
  · have hrn : r ≠ t.nextRowid := by
      rintro rfl
      rw [hn, a.rows_insert_self] at hr
      cases hr
    rw [Function.update_of_ne hrn]
    rw [a.rows_insert_of_ne _ (hn ▸ hrn)] at hr
    exact h.gone r hr
  · by_cases hrn : r = t.nextRowid
    · subst hrn
      rw [hn, a.rows_insert_self, Option.some.injEq] at hr
      refine ⟨packPtr p slot, raw, Function.update_self _ _ _, ne_tombstone hlt, hlt, ?_, ?_, ?_⟩
      · rw [hpage, hslot, hschema]
        exact hst.stored
      · rw [hschema]
        exact hraw
      · rw [hschema]
        exact hr
    · rw [a.rows_insert_of_ne _ (hn ▸ hrn)] at hr
      obtain ⟨v, raw', hv, hne, hlt', hrec, hlen, hval⟩ := h.row r row hr
      refine ⟨v, raw', by rw [Function.update_of_ne hrn, hv], hne, hlt', ?_, hschema ▸ hlen,
        hschema ▸ hval⟩
      rw [hst.frame _ _ (ptrPage_mem hlt') (hother r v hv hne).2, hschema]
      exact hrec
  · have hnew : ∀ k, k ≠ t.nextRowid → m k = some (packPtr p slot) → False := by
      intro k _ hk
      rcases (hother k _ hk (ne_tombstone hlt)).2 with hp | hs
      · exact hp hpage
      · exact hs hslot
    by_cases hrn : r = t.nextRowid <;> by_cases hrn' : r' = t.nextRowid
    · rw [hrn, hrn']
    · subst hrn
      rw [Function.update_self, Option.some.injEq] at hr
      rw [Function.update_of_ne hrn', ← hr] at hr'
      exact (hnew r' hrn' hr').elim
    · subst hrn'
      rw [Function.update_self, Option.some.injEq] at hr'
      rw [Function.update_of_ne hrn, ← hr'] at hr
      exact (hnew r hrn hr).elim
    · rw [Function.update_of_ne hrn] at hr
      rw [Function.update_of_ne hrn'] at hr'
      exact h.apart r r' v hr hr' hv

/-! ## Deletion -/

/-- **A row freed** and its pointer buried. -/
theorem delete (h : Stands a m t s) {v : ℕ} (hm : m key = some v)
    (hlt : v < packedEnd) (hfreed : Freed s s' (ptrPage v) (ptrSlot v))
    (hstate : TableState (LeafMap (Function.update m key (some tombstone))) t s') :
    Stands (a.delete key) (Function.update m key (some tombstone)) t s' := by
  refine ⟨hstate, h.next_eq, h.next_pos, fun r hr => ?_, fun r hr => ?_, fun r row hr => ?_,
    fun r r' w hr hr' hw => ?_⟩
  · by_cases hrk : r = key
    · refine h.born r ?_
      rw [hrk, hm]
      exact Option.some_ne_none v
    · rw [Function.update_of_ne hrk] at hr
      exact h.born r hr
  · by_cases hrk : r = key
    · rw [hrk, Function.update_self]
      exact fun w hw => (Option.some.inj hw).symm
    · rw [Function.update_of_ne hrk]
      rw [a.rows_delete_of_ne hrk] at hr
      exact h.gone r hr
  · have hrk : r ≠ key := by
      rintro rfl
      rw [a.rows_delete_self] at hr
      cases hr
    rw [a.rows_delete_of_ne hrk] at hr
    obtain ⟨w, raw, hw, hne, hlt', hrec, hraw⟩ := h.row r row hr
    refine ⟨w, raw, by rw [Function.update_of_ne hrk, hw], hne, hlt', ?_, hraw⟩
    rw [hfreed.frame _ _ (ptrPage_mem hlt') ?_]
    · exact hrec
    · -- the rows have slots of their own
      by_contra hno
      rw [not_or, not_not, not_not] at hno
      have hvw := ptr_injective hlt' hlt hno.1 hno.2
      exact hrk (h.apart r key w hw (hvw ▸ hm) hne)
  · have hkeep : ∀ k, Function.update m key (some tombstone) k = some w → m k = some w := by
      intro k hk
      by_cases hkk : k = key
      · rw [hkk, Function.update_self, Option.some.injEq] at hk
        exact absurd hk.symm hw
      · rwa [Function.update_of_ne hkk] at hk
    exact h.apart r r' w (hkeep r hr) (hkeep r' hr') hw

/-- **`delete_row`** removes the row, if there is one. -/
theorem runs_deleteRow (h : Stands a m t s) (hkey : key < 4294967296) :
    Runs (deleteRow key) s (fun r s' => r = (a.rows key).isSome
      ∧ ∃ m', Stands (a.delete key) m' t s') := by
  refine (Table.runs_deleteRow (leafMap_sound m) (h.leafSays key) (leafBury_remove m key) h.state
    hkey).mono ?_
  rintro r s' ⟨-, o, rfl, ⟨rfl, hun, c, rfl⟩ | ⟨rfl, v, hv, hne, hlt, hfreed, hstate⟩⟩
  · have hnone : a.rows key = none := by
      by_contra hsome
      obtain ⟨row, hrow⟩ := Option.ne_none_iff_exists'.mp hsome
      obtain ⟨v, -, hv, hne, -⟩ := h.row key row hrow
      exact hne (hun v hv)
    rw [hnone, RowMap.delete_eq_self hnone]
    exact ⟨rfl, m, h.atClock c⟩
  · obtain ⟨row, hrow⟩ := h.isSome_of_used hv hne
    rw [hrow]
    rcases hstate with ⟨-, o, rfl, hun⟩ | hstate
    · exact absurd (hun v hv) hne
    · exact ⟨rfl, _, h.delete hv hlt hfreed hstate⟩

/-- The second loop of `delete_where`. -/
theorem runs_deleteAll : ∀ (rids : List ℕ) (count : ℕ) (a : RowMap) (m : ℕ → Option ℕ) (s : Store),
    Stands a m t s → rids.Nodup → (∀ r ∈ rids, r < 4294967296 ∧ (a.rows r).isSome) →
    Runs (deleteAll rids count) s (fun k s' => k = count + rids.length
      ∧ ∃ m', Stands (rids.foldl RowMap.delete a) m' t s')
  | [], count, a, m, s, h, _, _ => (runs_pure _).mpr ⟨rfl, m, h⟩
  | rid :: rids, count, a, m, s, h, hnd, hmem => by
    obtain ⟨hnot, hnd⟩ := List.nodup_cons.mp hnd
    obtain ⟨hlt, hsome⟩ := hmem rid List.mem_cons_self
    rw [deleteAll, runs_bind]
    refine (h.runs_deleteRow hlt).mono ?_
    rintro hit s' ⟨rfl, m', h'⟩
    rw [hsome]
    refine (runs_deleteAll rids (count + 1) _ m' s' h' hnd (fun r hr => ?_)).mono ?_
    · obtain ⟨hlt', hsome'⟩ := hmem r (List.mem_cons_of_mem rid hr)
      refine ⟨hlt', ?_⟩
      have hne : r ≠ rid := fun he => hnot (he ▸ hr)
      rw [a.rows_delete_of_ne hne]
      exact hsome'
    · rintro k s'' ⟨rfl, hm'⟩
      refine ⟨?_, hm'⟩
      rw [List.length_cons]
      omega

/-! ## Reading -/

/-- Following the pointer of a rowid with a row. -/
theorem rowAt_eq (h : Stands a m t s) {v : ℕ} (hm : m key = some v) (hv : v ≠ tombstone)
    (hlt : v < packedEnd) : rowAt t (s.pages (ptrPage v)) (ptrSlot v) = .ok (a.rows key) := by
  obtain ⟨row, hrow⟩ := h.isSome_of_used hm hv
  obtain ⟨w, raw, hw, -, -, hrec, hraw, hval⟩ := h.row key row hrow
  rw [hm, Option.some.injEq] at hw
  subst hw
  obtain ⟨hp, hp'⟩ := ptrPage_mem hlt
  rw [hrow, ← hval]
  by_cases hpc : ptrPage v ≤ t.curHeapPage
  · exact Table.rowAt_eq (h.state.heap.used _ hp hpc) hraw hrec
  · unfold Store.record at hrec
    rw [h.state.heap.unused _ (not_le.mp hpc) hp', SlottedPage.content_zero] at hrec
    cases hrec

/-- **Looking a rowid up**: there is no pointer, or following it reads the
row. -/
theorem runs_find (h : Stands a m t s) (hkey : key < 4294967296) :
    Runs (BTree.find key) s (fun packed s' => (∃ c, s' = s.atClock c)
      ∧ ((packed.val < 0 ∧ a.rows key = none)
        ∨ (¬ packed.val < 0 ∧ ∃ row, a.rows key = some row
          ∧ Runs (fetchRow t packed) s' (fun r s'' => r = some row
            ∧ ∃ c, s'' = s.atClock c)))) := by
  refine (h.state.runs_find (leafMap_sound m) (h.leafSays key) hkey).mono ?_
  rintro r s' ⟨⟨c, rfl⟩, o, rfl, rfl⟩
  refine ⟨⟨c, rfl⟩, ?_⟩
  rcases answer_cases (o := m key) (fun v hv => (h.leafSays key).small v hv.symm) with
    ⟨hun, hneg⟩ | ⟨v, hv, hne, hlt, hans, hnneg⟩
  · refine Or.inl ⟨hneg, ?_⟩
    by_contra hsome
    obtain ⟨row, hrow⟩ := Option.ne_none_iff_exists'.mp hsome
    obtain ⟨v, -, hv, hne, -⟩ := h.row key row hrow
    exact hne (hun v hv)
  · obtain ⟨row, hrow⟩ := h.isSome_of_used hv hne
    have hat := h.rowAt_eq hv hne hlt
    rw [hrow] at hat
    refine Or.inr ⟨hnneg, row, hrow, ?_⟩
    rw [hans, runs_fetchRow hlt ((h.atClock c).state.lt_next (le_refl 1023))]
    exact ⟨some row, hat, rfl, _, rfl⟩

/-- **`find_by_rowid`** returns the row of the map. -/
theorem runs_findByRowid (h : Stands a m t s) (hkey : key < 4294967296) :
    Runs (findByRowid t key) s (fun r s' => r = a.rows key ∧ ∃ c, s' = s.atClock c) := by
  rw [findByRowid, runs_bind]
  refine (h.runs_find hkey).mono ?_
  rintro packed s' ⟨⟨c, rfl⟩, ⟨hneg, hnone⟩ | ⟨hnneg, row, hrow, hfetch⟩⟩
  · rw [if_pos hneg, runs_pure, hnone]
    exact ⟨rfl, c, rfl⟩
  · rw [if_neg hnneg, hrow]
    exact hfetch

/-- **`scan`** visits the rows of the map in the order of their rowids. -/
theorem runs_scanFrom (cb : Callback σ) : ∀ (n rid count : ℕ) (st : σ) (s : Store),
    Stands a m t s → rid + n ≤ 4294967296 →
    Runs (scanFrom t cb n rid count st) s (fun r s' =>
      r = RowMap.visit cb (a.between rid n) count st ∧ ∃ c, s' = s.atClock c)
  | 0, _, _, _, s, _, _ => (runs_pure _).mpr ⟨rfl, s.clock, rfl⟩
  | n + 1, rid, count, st, s, h, hrid => by
    have ih := fun count st c => runs_scanFrom cb n (rid + 1) count st (s.atClock c) (h.atClock c)
      (by omega)
    rw [scanFrom, RowMap.between_succ, runs_bind]
    refine (h.runs_find (by omega)).mono ?_
    rintro packed s' ⟨⟨c, rfl⟩, ⟨hneg, hnone⟩ | ⟨hnneg, row, hrow, hfetch⟩⟩
    · rw [if_pos hneg, hnone]
      exact ih count st c
    · rw [if_neg hnneg, hrow, runs_bind, RowMap.visit]
      refine hfetch.mono ?_
      rintro r s₂ ⟨rfl, c', rfl⟩
      simp only
      rcases cb rid row st with e | ⟨go, st'⟩
      · exact (runs_pure _).mpr ⟨rfl, c', rfl⟩
      · cases go with
        | true => exact ih (count + 1) st' c'
        | false => exact (runs_pure _).mpr ⟨rfl, c', rfl⟩

theorem runs_scan (h : Stands a m t s) (cb : Callback σ) (st : σ) :
    Runs (scan t cb st) s (fun r s' => r = RowMap.visit cb a.all 0 st ∧ ∃ c, s' = s.atClock c) := by
  have hlt := h.state.rowid_lt
  have hn := h.next_eq
  rw [scan, hn]
  exact runs_scanFrom cb (a.next - 1) 1 0 st s h (by omega)

/-! ## One call -/

/-- **`insert_row`** throws where there is no room, and adds a row under the
next rowid where there is. -/
theorem runs_insertRow (h : Stands a m t s) {raw : Row} (hraw : raw.length = t.schema.cols.length)
    (hlen : (serializeRow t.schema raw).length < 65536) (hsmall : a.next < 4294967295) :
    Runs (Table.insertRow t raw) s (fun r s' => (¬ HasRoom t raw s ∧ ∃ e, r.1 = .error e)
      ∨ (HasRoom t raw s ∧ r.1 = .ok a.next ∧ r.2.schema = t.schema
        ∧ ∃ m', Stands (a.insert (t.schema.columnValues raw)) m' r.2 s')) := by
  have hstored : t.stored raw = serializeRow t.schema raw := by
    rw [stored, Nat.mod_eq_of_lt hlen, List.take_length]
  refine (Table.runs_insertRow (leafMap_sound m) (fun v _ => leafStep_fresh h.fresh v) h.state
    raw).mono ?_
  rintro r s' (⟨hout, rfl, -⟩ | ⟨-, -, ⟨rfl, -, -, hno⟩ | ⟨p, slot, rfl, hstate, hst, hroom⟩⟩)
  · exact Or.inl ⟨hout.not_hasRoom, _, rfl⟩
  · exact Or.inl ⟨hno, _, rfl⟩
  · rw [hstored] at hst
    exact Or.inr ⟨hroom, congrArg Except.ok h.next_eq, rfl, _,
      h.insert hst hraw hsmall rfl rfl hstate⟩

/-- **An `insert_row` that throws** before the heap is used up moves the cursor
on; the rows are the same. -/
theorem runs_insertRow_throws (h : Stands a m t s) (raw : Row) (hroom : ¬ OutOfPages t raw s) :
    Runs (Table.insertRow t raw) s (fun r s' =>
      ∀ e, r.1 = .error e → r.2.schema = t.schema ∧ Stands a m r.2 s') := by
  refine (Table.runs_insertRow (leafMap_sound m) (fun v _ => leafStep_fresh h.fresh v) h.state
    raw).mono ?_
  rintro r s' (⟨hout, -, -⟩ | ⟨-, -, ⟨rfl, hstate, hrec, -⟩ | ⟨p, slot, rfl, -⟩⟩) e he
  · exact absurd hout hroom
  · refine ⟨rfl, ⟨hstate, h.next_eq, h.next_pos, h.born, h.gone, fun r row hr => ?_, h.apart⟩⟩
    obtain ⟨v, raw', hv, hne, hlt, hat, hlen, hcol⟩ := h.row r row hr
    exact ⟨v, raw', hv, hne, hlt, (hrec _ _).trans hat, hlen, hcol⟩
  · cases he

/-- **`delete_where`** removes the rows the predicate holds of. -/
theorem runs_deleteWhere (h : Stands a m t s) (pred : ℕ → Row → Except StdException Bool) :
    Runs (deleteWhere t pred) s (fun r s' =>
      (∃ e, RowMap.matching pred a.all = .error e ∧ r = .error e ∧ ∃ m', Stands a m' t s')
      ∨ ∃ rids, RowMap.matching pred a.all = .ok rids ∧ r = .ok rids.length
        ∧ ∃ m', Stands (rids.foldl RowMap.delete a) m' t s') := by
  rw [deleteWhere, runs_bind]
  refine (h.runs_scan (collect pred) []).mono ?_
  rintro r s' ⟨rfl, c, rfl⟩
  rcases RowMap.visit_collect pred a.all 0 [] with ⟨e, hv, hm⟩ | ⟨rids, hv, hm⟩
  · rw [hv]
    exact (runs_pure _).mpr (Or.inl ⟨e, hm, rfl, m, h.atClock c⟩)
  · obtain ⟨hnd, hmem⟩ := RowMap.matching_spec pred a _ _ rids hm
    have hlt := h.state.rowid_lt
    have hn := h.next_eq
    rw [hv, List.nil_append]
    simp only [runs_bind]
    refine ((h.atClock c).runs_deleteAll rids 0 a m _ hnd (fun r hr => ?_)).mono ?_
    · obtain ⟨h1, h2, h3⟩ := hmem r hr
      exact ⟨by omega, h3⟩
    · rintro k s'' ⟨rfl, hm'⟩
      rw [runs_pure, Nat.zero_add]
      exact Or.inr ⟨rids, hm, rfl, hm'⟩

/-- **One call** on a table that stands for a map: an insertion that throws,
or the result of the call on the map and a table that stands for what it
leaves. -/
theorem runs_exec (h : Stands a m t s) (op : TableOp σ) (hok : op.Storable t.schema)
    (hsmall : a.next + op.inserts ≤ 2147483648) :
    Runs (exec t op) s (fun r s' => (∃ e, r.1 = .inserted (.error e))
      ∨ (r.1 = (a.apply t.schema op).1 ∧ r.2.schema = t.schema
        ∧ ∃ m', Stands (a.apply t.schema op).2 m' r.2 s')) := by
  cases op with
  | insert row =>
    rw [exec, runs_bind]
    have hnext : a.next < 4294967295 := by
      have hone : a.next + 1 ≤ 2147483648 := hsmall
      omega
    refine (h.runs_insertRow hok.1 (Nat.lt_succ_of_le hok.2) hnext).mono ?_
    rintro r s' (⟨-, e, he⟩ | ⟨-, he, hschema, hm'⟩)
    · exact (runs_pure _).mpr (Or.inl ⟨e, congrArg TableResult.inserted he⟩)
    · exact (runs_pure _).mpr (Or.inr ⟨congrArg TableResult.inserted he, hschema, hm'⟩)
  | delete rowid =>
    rw [exec, runs_bind]
    refine (h.runs_deleteRow rowid.isLt).mono ?_
    rintro r s' ⟨rfl, hm'⟩
    exact (runs_pure _).mpr (Or.inr ⟨rfl, rfl, hm'⟩)
  | deleteWhere pred =>
    rw [exec, runs_bind]
    refine (h.runs_deleteWhere pred).mono ?_
    rintro r s' (⟨e, hm, rfl, hm'⟩ | ⟨rids, hm, rfl, hm'⟩)
    · rw [runs_pure, RowMap.apply, hm]
      exact Or.inr ⟨rfl, rfl, hm'⟩
    · rw [runs_pure, RowMap.apply, hm]
      exact Or.inr ⟨rfl, rfl, hm'⟩
  | find rowid =>
    rw [exec, runs_bind]
    refine (h.runs_findByRowid rowid.isLt).mono ?_
    rintro r s' ⟨rfl, c, rfl⟩
    exact (runs_pure _).mpr (Or.inr ⟨rfl, rfl, m, h.atClock c⟩)
  | scan cb st =>
    rw [exec, runs_bind]
    refine (h.runs_scan cb st).mono ?_
    rintro r s' ⟨rfl, c, rfl⟩
    exact (runs_pure _).mpr (Or.inr ⟨rfl, rfl, m, h.atClock c⟩)

end Stands

/-! ## A run -/

/-- **The calls of a run return what they return on the map**, up to the
first insertion that throws. -/
def RefinesAlong : List (TableOp σ) → RowMap → Table → Store → Prop
  | [], _, _, _ => True
  | op :: ops, a, t, s => Runs (exec t op) s (fun r s' => (∃ e, r.1 = .inserted (.error e))
    ∨ (r.1 = (a.apply t.schema op).1 ∧ RefinesAlong ops (a.apply t.schema op).2 r.2 s'))

/-- **A run** on a table that stands for a map. -/
theorem Stands.refinesAlong : ∀ (ops : List (TableOp σ)) (a : RowMap) (m : ℕ → Option ℕ) (t : Table)
    (s : Store), Stands a m t s → (∀ op ∈ ops, op.Storable t.schema) →
    a.next + (ops.map TableOp.inserts).sum ≤ 2147483648 → RefinesAlong ops a t s
  | [], _, _, _, _, _, _, _ => trivial
  | op :: ops, a, m, t, s, h, hok, hsmall => by
    rw [List.map_cons, List.sum_cons] at hsmall
    refine (h.runs_exec op (hok op List.mem_cons_self) (by omega)).mono ?_
    rintro r s' (hthrow | ⟨hr, hschema, m', h'⟩)
    · exact Or.inl hthrow
    · refine Or.inr ⟨hr, Stands.refinesAlong ops _ m' r.2 s' h' (fun op' hop' => ?_) ?_⟩
      · rw [hschema]
        exact hok op' (List.mem_cons_of_mem op hop')
      · have hn := a.next_apply t.schema op
        omega

/-- A new table stands for the map without rows. -/
theorem Stands.new {schema : Schema} (hfit : schema.Fits) :
    Stands .empty (fun _ => none) ⟨schema, 1, 512⟩ (metaStore ⟨schema, 1, 512⟩ newHeap) where
  state := tableState_new hfit RangeMap.nil
  next_eq := rfl
  next_pos := le_rfl
  born r hr := absurd rfl hr
  gone r _ v hv := by cases hv
  row r row hr := by cases hr
  apart r r' v hr := by cases hr

/-- **The first row of a table.** -/
theorem Stands.exists_first {schema : Schema} (hfit : schema.Fits) {raw : Row}
    (hraw : raw.length = schema.cols.length) (hlen : (serializeRow schema raw).length ≤ 4088) :
    ∃ m t s, (Table.insertRow ⟨schema, 1, 512⟩ raw).run (metaStore ⟨schema, 1, 512⟩ newHeap)
        = .ok ((.ok 1, t), s)
      ∧ Stands (RowMap.empty.insert (schema.columnValues raw)) m t s ∧ t.schema = schema := by
  have hroom : HasRoom ⟨schema, 1, 512⟩ raw (metaStore ⟨schema, 1, 512⟩ newHeap) := by
    refine Or.inr ⟨show 512 < 1022 by decide, ?_⟩
    rw [Nat.mod_eq_of_lt (show (serializeRow schema raw).length < 65536 by omega)]
    exact hlen
  obtain ⟨⟨r, t⟩, s, hrun, ⟨hno, -⟩ | ⟨-, rfl, hschema, m, hm⟩⟩ :=
    (Stands.new hfit).runs_insertRow hraw (show (serializeRow schema raw).length < 65536 by omega)
      (show 1 < 4294967295 by decide)
  · exact absurd hroom hno
  · exact ⟨m, t, s, hrun, hm, hschema⟩

/-- **A table with one row**, as an insertion into a new table leaves it. -/
theorem Stands.exists_of_row {schema : Schema} (hfit : schema.Fits) {raw : Row}
    (hraw : raw.length = schema.cols.length) (hlen : (serializeRow schema raw).length ≤ 4088) :
    ∃ m t s, Stands (RowMap.empty.insert (schema.columnValues raw)) m t s ∧ t.schema = schema := by
  obtain ⟨m, t, s, -, hm, hschema⟩ := Stands.exists_first hfit hraw hlen
  exact ⟨m, t, s, hm, hschema⟩

/-- **A table refines a map**: whatever storable rows are inserted, fewer
than `2 ^ 31` of them, a new table returns what the map returns. -/
def RefinesMap (schema : Schema) : Prop :=
  ∀ (σ : Type) (ops : List (TableOp σ)), (∀ op ∈ ops, op.Storable schema) →
    (ops.map TableOp.inserts).sum < 2147483648 →
    Runs (construct schema true true) .empty (fun t s => t.schema = schema
      ∧ RefinesAlong ops .empty t s)

/-- The constructor of a table whose schema does not fit writes past the end
of the metadata page. -/
theorem RefinesMap.fits {schema : Schema} (h : RefinesMap schema) : schema.Fits :=
  (runs_construct.mp (h Unit [] (by simp) (by simp))).1

/-- **A table refines a map exactly if its schema fits the metadata page.** -/
theorem refinesMap_iff (schema : Schema) : RefinesMap schema ↔ schema.Fits := by
  refine ⟨RefinesMap.fits, fun hfit σ ops hok hsmall => ?_⟩
  refine runs_construct.mpr ⟨hfit, rfl, ?_⟩
  refine Stands.refinesAlong ops _ _ _ _ (Stands.new hfit) hok ?_
  show 1 + _ ≤ _
  omega

/-- A schema of twenty columns of one name. -/
def twenty (name : ByteString) : Schema := ⟨ascii "wide", List.replicate 20 ⟨name, .int, 0⟩⟩

theorem length_serialize_twenty (name : ByteString) :
    (twenty name).serialize.length = 20 * (4 + name.length) + 1 := by
  rw [Schema.length_serialize, twenty, List.map_replicate, List.sum_replicate, smul_eq_mul]

/-- **A schema that does not fit** has no table to refine a map. -/
theorem not_refinesMap_twenty : ¬ RefinesMap (twenty (List.replicate 250 97)) := by
  intro h
  have hfits := h.fits
  unfold Schema.Fits at hfits
  rw [length_serialize_twenty, List.length_replicate] at hfits
  exact absurd hfits (by decide)

end Table
