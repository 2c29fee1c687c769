import SqlMini.TableFailure

/-!
# Rows cut off at sixteen bits

`insert_row` narrows the length of a row's encoding to sixteen bits before
anything looks at it, so the test that is meant to turn long rows down sees
the length modulo `65536`. A row of `65536` bytes or more therefore either
throws, as it should, or – when what is left of its length fits a page – is
stored as the first few bytes of its encoding, under a rowid.

What a look-up makes of such a record is decided by the decoder, which reads
inside one page: the row it returns encodes to no more bytes than a page has,
so it is never the row inserted (`length_le_of_rowAt`). Below `65536` bytes
nothing is cut off and the row is read back. `insertKeeps_iff` puts the two
together.
-/

/-- **A row decoded in full encodes to what the reader had to give.** -/
theorem le_of_deserializeFields {rd : Reader} {len N : ℕ} (hrd : rd.EndsBy N) (hN : N < 65536) :
    ∀ (cs : List Column) (pos : ℕ) (row : Row), deserializeFields rd len cs pos = .ok row →
      row.length = cs.length → pos ≤ N →
      pos + (List.zipWith fieldBytes cs row).flatten.length ≤ N
  | [], pos, row, _, _, hpos => hpos
  | c :: cs, pos, row, h, hrow, hpos => by
    rw [deserializeFields] at h
    by_cases hend : len ≤ pos
    · rw [if_pos hend] at h
      rw [← Except.ok.inj h] at hrow
      cases hrow
    rw [if_neg hend] at h
    by_cases hc : c.type = .int
    · rw [if_pos hc] at h
      obtain ⟨n, hn, h⟩ := Except.bind_eq_ok.mp h
      obtain ⟨rest, hr, h⟩ := Except.bind_eq_ok.mp h
      have hle := hrd.le_of_bytes hn hpos
      rw [Nat.mod_eq_of_lt (by omega)] at hr
      rw [← Except.ok.inj h] at hrow ⊢
      have ih := le_of_deserializeFields hrd hN cs (pos + 4) rest hr (Nat.succ.inj hrow) hle
      rw [List.zipWith_cons_cons, List.flatten_cons, List.length_append, fieldBytes, if_pos hc,
        LittleEndian.length_encode]
      omega
    · rw [if_neg hc] at h
      obtain ⟨n, hn, h⟩ := Except.bind_eq_ok.mp h
      obtain ⟨text, ht, h⟩ := Except.bind_eq_ok.mp h
      obtain ⟨rest, hr, h⟩ := Except.bind_eq_ok.mp h
      have hle := hrd.le_of_bytes hn hpos
      rw [Nat.mod_eq_of_lt (show pos + 2 < 65536 by omega)] at hr ht
      have hle' := hrd.le_of_bytes ht hle
      have hlen := Reader.length_of_bytes ht
      rw [Nat.mod_eq_of_lt (by omega), ← hlen] at hr
      rw [← hlen] at hle'
      rw [← Except.ok.inj h] at hrow ⊢
      have ih := le_of_deserializeFields hrd hN cs (pos + 2 + text.length) rest hr
        (Nat.succ.inj hrow) hle'
      rw [List.zipWith_cons_cons, List.flatten_cons, List.length_append, fieldBytes, if_neg hc,
        List.length_append, LittleEndian.length_encode]
      dsimp only
      omega

/-- The values a column does not store are not encoded. -/
theorem fieldBytes_columnValue (c : Column) (v : Value) :
    fieldBytes c (Schema.columnValue c v) = fieldBytes c v := by
  unfold fieldBytes Schema.columnValue
  by_cases hc : c.type = .int
  · rw [if_pos hc, if_pos hc, if_pos hc]
  · rw [if_neg hc, if_neg hc, if_neg hc]

theorem serializeRow_columnValues (schema : Schema) (row : Row) :
    serializeRow schema (schema.columnValues row) = serializeRow schema row := by
  unfold serializeRow Schema.columnValues
  generalize schema.cols = cs
  induction cs generalizing row with
  | nil => rfl
  | cons c cs ih =>
    cases row with
    | nil => rfl
    | cons v row =>
      rw [List.zipWith_cons_cons, List.zipWith_cons_cons, List.zipWith_cons_cons,
        fieldBytes_columnValue, List.flatten_cons, List.flatten_cons, ih]

namespace Table

open PageProg BTree

variable {m : ℕ → Option ℕ} {t : Table} {s : Store} {row : Row} {buf : Page} {slot : ℕ}

/-- **A row read from a page** encodes to no more bytes than a page has. -/
theorem length_le_of_rowAt (hrow : row.length = t.schema.cols.length)
    (h : rowAt t buf slot = .ok (some (t.schema.columnValues row))) :
    (serializeRow t.schema row).length ≤ 4096 := by
  unfold rowAt at h
  obtain ⟨r, -, h⟩ := Except.bind_eq_ok.mp h
  rcases r with - | ⟨off, len⟩
  · cases Except.ok.inj h
  obtain ⟨row', hd, h⟩ := Except.bind_eq_ok.mp h
  rw [Option.some.inj (Except.ok.inj h)] at hd
  have hle := le_of_deserializeFields (endsBy_pageReader buf off) (by omega) _ _ _ hd (by
    rw [Schema.columnValues, List.length_zipWith, hrow, min_self]) (Nat.zero_le _)
  rw [Nat.zero_add] at hle
  have hser : (serializeRow t.schema (t.schema.columnValues row)).length ≤ 4096 :=
    hle.trans (Nat.sub_le 4096 off)
  rwa [serializeRow_columnValues] at hser

/-! ## An insertion followed by a look-up -/

/-- **The row inserted is the row found**: if `insert_row` returns a rowid,
`find_by_rowid` then returns the integers and texts that were inserted. -/
def InsertKeeps (t : Table) (s : Store) (row : Row) : Prop :=
  ∀ rowid t' s', (insertRow t row).run s = .ok ((.ok rowid, t'), s') →
    ∃ s'', (findByRowid t' rowid).run s' = .ok (some (t.schema.columnValues row), s'')

/-- **A look-up of a rowid** the tree binds to a pointer reads the row behind
the pointer. -/
theorem runs_findByRowid_bound {Leaf : LeafSpec} (hL : Leaf.Sound) (h : TableState Leaf t s)
    {key v : ℕ} (hsay : LeafSays Leaf key (fun o => o = some v)) (hkey : key < 4294967296)
    (hv : v < packedEnd) : ∃ c, ∀ Q : Option Row → Store → Prop, Runs (findByRowid t key) s Q ↔
      ∃ o, rowAt t (s.pages (ptrPage v)) (ptrSlot v) = .ok o ∧ Q o (s.atClock c) := by
  have hv' : v < 2093056 := hv
  obtain ⟨r, s₁, hrun, ⟨c, rfl⟩, o, rfl, rfl⟩ := h.runs_find hL hsay hkey
  have hans : answer (some v) = .ofUInt v := if_neg (show v ≠ 4294967294 by omega)
  have hpos : ¬ (CInt.ofUInt v).val < 0 := by
    rw [CInt.val_ofUInt (by omega)]
    omega
  rw [hans] at hrun
  refine ⟨c + 1, fun Q => ?_⟩
  have hfind : Runs (findByRowid t key) s Q ↔ Runs (fetchRow t (.ofUInt v)) (s.atClock c) Q := by
    unfold findByRowid Runs
    rw [run_bind, hrun, Except.ok_bind_eq]
    simp only [if_neg hpos]
  rw [hfind]
  exact runs_fetchRow hv ((h.atClock c).lt_next (le_refl 1023))

/-- **An insertion stores the first bytes of the encoding** where a page has
room for them, and throws where none has. The look-up reads the record
back. -/
theorem runs_insertRow_found (h : TableState (LeafMap m) t s) (hroom : BTree.Room t.nextRowid s)
    (row : Row) : Runs (insertRow t row) s (fun r s' =>
      (¬ HasRoom t row s ∧ ∃ e, r.1 = .error e)
      ∨ (HasRoom t row s ∧ ∃ p slot, r.1 = .ok t.nextRowid ∧ r.2.schema = t.schema
        ∧ r.2.nextRowid = (t.nextRowid + 1) % uint32Size
        ∧ SlottedPage.WellFormed (s'.pages p)
        ∧ SlottedPage.content (s'.pages p) slot = some (t.stored row)
        ∧ ∃ c, ∀ Q : Option Row → Store → Prop, Runs (findByRowid r.2 t.nextRowid) s' Q ↔
          ∃ o, rowAt r.2 (s'.pages p) slot = .ok o ∧ Q o (s'.atClock c))) := by
  obtain ⟨lab, H, hT⟩ := h.tree
  have hstate : TableState (LeafRoom m t.nextRowid) t s :=
    ⟨⟨lab, H, HoldsMap.leafRoom hT h.rowid_lt hroom⟩, h.heap, h.rowid_lt, h.fits⟩
  refine (runs_insertRow (leafRoom_sound m _) (fun v _ => leafStep_insert m _ v) hstate row).mono ?_
  rintro r s' (⟨hout, rfl, -⟩ | ⟨-, -, ⟨rfl, -, -, hno⟩ | ⟨p, slot, rfl, hstate', hst, hhas⟩⟩)
  · exact Or.inl ⟨hout.not_hasRoom, _, rfl⟩
  · exact Or.inl ⟨hno, _, rfl⟩
  · have hlt := packPtr_lt hst.mem.1 hst.mem.2 hst.slot_le
    obtain ⟨hpage, hslot⟩ := ptr_packPtr hst.mem.1 hst.mem.2 hst.slot_le
    -- the tree binds the rowid to the pointer
    have hsay : LeafSays (LeafMap (Function.update m t.nextRowid (some (packPtr p slot))))
        t.nextRowid (fun o => o = some (packPtr p slot)) :=
      ⟨fun hl hlo hhi hf => (LeafMap.lookup hl hf hlo hhi).trans (Function.update_self _ _ _),
        fun v hv _ => Option.some.inj hv ▸ hlt⟩
    have hfound := runs_findByRowid_bound (leafMap_sound _) hstate' hsay h.rowid_lt hlt
    rw [hpage, hslot] at hfound
    exact Or.inr ⟨hhas, p, slot, rfl, rfl, rfl, hstate'.heap.used p hst.mem.1 le_rfl,
      hst.stored, hfound⟩

/-- An insertion that throws has nothing to keep. -/
theorem insertKeeps_of_throws (h : TableState (LeafMap m) t s) (hroom : BTree.Room t.nextRowid s)
    (hno : ¬ HasRoom t row s) : InsertKeeps t s row := by
  intro rowid t' s' hrun'
  obtain ⟨r, s₁, hrun, ⟨-, e, he⟩ | ⟨hhas, -⟩⟩ := runs_insertRow_found h hroom row
  · obtain ⟨rfl, -⟩ := Prod.mk.inj (Except.ok.inj (hrun.symm.trans hrun'))
    cases he
  · exact absurd hhas hno

/-- **Any other insertion** keeps the row exactly if the record it stored is
read back as the row. -/
theorem insertKeeps_iff_rowAt (h : TableState (LeafMap m) t s) (hroom : BTree.Room t.nextRowid s)
    (hhas : HasRoom t row s) : ∃ t' buf slot, t'.schema = t.schema ∧ SlottedPage.WellFormed buf
      ∧ SlottedPage.content buf slot = some (t.stored row)
      ∧ (InsertKeeps t s row ↔ rowAt t' buf slot = .ok (some (t.schema.columnValues row))) := by
  obtain ⟨r, s₁, hrun, ⟨hno, -⟩ | ⟨-, p, slot, hr, hschema, -, hw, hcontent, c, hfind⟩⟩ :=
    runs_insertRow_found h hroom row
  · exact absurd hhas hno
  refine ⟨r.2, s₁.pages p, slot, hschema, hw, hcontent, fun hk => ?_, fun ho => ?_⟩
  · obtain ⟨s'', hf⟩ := hk t.nextRowid r.2 s₁ (by rw [hrun, ← hr])
    obtain ⟨o, ho, rfl, -⟩ := (hfind _).mp (run_eq_ok.mp hf)
    exact ho
  · intro rowid t' s' hrun'
    obtain ⟨rfl, rfl⟩ := Prod.mk.inj (Except.ok.inj (hrun.symm.trans hrun'))
    rw [Except.ok.inj hr]
    exact ⟨_, run_eq_ok.mpr ((hfind _).mpr ⟨_, ho, rfl, rfl⟩)⟩

/-- An encoding of sixteen bits of length is read back. -/
theorem insertKeeps_of_short (h : TableState (LeafMap m) t s) (hroom : BTree.Room t.nextRowid s)
    (hrow : row.length = t.schema.cols.length) (hhas : HasRoom t row s)
    (hlen : (serializeRow t.schema row).length ≤ 65535) : InsertKeeps t s row := by
  obtain ⟨t', buf, slot, hschema, hw, hcontent, hiff⟩ := insertKeeps_iff_rowAt h hroom hhas
  have hstored : t.stored row = serializeRow t.schema row := by
    rw [stored, Nat.mod_eq_of_lt (Nat.lt_succ_of_le hlen), List.take_length]
  rw [hstored, ← hschema] at hcontent
  rw [← hschema] at hrow
  rw [hiff, ← hschema]
  exact rowAt_eq hw hrow hcontent

/-- A longer one that a page has room for is not. -/
theorem not_insertKeeps_of_long (h : TableState (LeafMap m) t s)
    (hroom : BTree.Room t.nextRowid s) (hrow : row.length = t.schema.cols.length)
    (hhas : HasRoom t row s) (hlen : 65536 ≤ (serializeRow t.schema row).length) :
    ¬ InsertKeeps t s row := by
  obtain ⟨t', buf, slot, hschema, -, -, hiff⟩ := insertKeeps_iff_rowAt h hroom hhas
  rw [hiff]
  intro ho
  rw [← hschema] at ho hrow hlen
  have hle := length_le_of_rowAt hrow ho
  omega

/-- **What an insertion keeps of a row**: everything, if the encoding has at
most `65535` bytes or no page has room for what is left of it, so that the
insertion throws; otherwise a look-up of the rowid does not return the row. -/
theorem insertKeeps_iff (h : TableState (LeafMap m) t s) (hroom : BTree.Room t.nextRowid s)
    (hrow : row.length = t.schema.cols.length) :
    InsertKeeps t s row ↔ (serializeRow t.schema row).length ≤ 65535 ∨ ¬ HasRoom t row s := by
  by_cases hhas : HasRoom t row s
  · constructor
    · intro hk
      by_contra hno
      rw [not_or] at hno
      exact not_insertKeeps_of_long h hroom hrow hhas (by omega) hk
    · rintro (hlen | hno)
      · exact insertKeeps_of_short h hroom hrow hhas hlen
      · exact absurd hhas hno
  · exact iff_of_true (insertKeeps_of_throws h hroom hhas) (Or.inr hhas)

/-! ## The states it is about -/

/-- Leaves that hold rowids, each by a map of its own, hold them by one map. -/
theorem exists_leafMap {lab : ℕ → Label} {H n : ℕ} (hT : TreeState (LeafRows n) 1024 lab H s)
    (hn : n < 4294967296) : ∃ m, TreeState (LeafMap m) 1024 lab H s
      ∧ ∀ k, m k ≠ none → 1 ≤ k ∧ k ≤ n := by
  classical
  have hleaf : ∀ p, BTree.Owned 1024 s.nextPageId p → (lab p).lvl = 0 → ∃ m : ℕ → Option ℕ,
      (∀ k, m k ≠ none ↔ 1 ≤ k ∧ k ≤ n)
        ∧ RangeMap m (lab p).lo (lab p).hi (Node.view (s.pages p)).cells := by
    intro p hp hl
    rcases ((hT.tree.node p hp).leaf hl).2.keys with ⟨-, hm⟩ | ⟨hle, -⟩
    · exact hm
    · omega
  choose! f hdom hf using hleaf
  -- a key belongs to the leaf whose range it is in
  let m : ℕ → Option ℕ := fun k =>
    if h : ∃ p, BTree.Owned 1024 s.nextPageId p ∧ (lab p).lvl = 0 ∧ (lab p).lo ≤ k ∧ k < (lab p).hi
    then f h.choose k else none
  have hm : ∀ p k, BTree.Owned 1024 s.nextPageId p → (lab p).lvl = 0 → (lab p).lo ≤ k →
      k < (lab p).hi → m k = f p k := by
    intro p k hp hl hlo hhi
    have hex : ∃ p, BTree.Owned 1024 s.nextPageId p ∧ (lab p).lvl = 0 ∧ (lab p).lo ≤ k
      ∧ k < (lab p).hi := ⟨p, hp, hl, hlo, hhi⟩
    obtain ⟨hq, hql, hqlo, hqhi⟩ := hex.choose_spec
    have heq : hex.choose = p := by
      by_contra hne
      have hap := hT.tree.shape.apart _ p hq hp hne (hql.trans hl.symm)
      omega
    show (if h : _ then _ else _) = _
    rw [dif_pos hex, heq]
  refine ⟨m, ⟨hT.base_pos, hT.base_small, hT.base_le, hT.synced, hT.tree.shape, fun p hp => ?_⟩, ?_⟩
  · exact (hT.tree.node p hp).mono
      (fun hl _ => (hf p hp hl).congr (fun k hlo hhi => hm p k hp hl hlo hhi))
      (fun _ _ _ _ _ _ _ _ _ hd hlab => ⟨hd, hlab⟩)
  · intro k hk
    by_cases hex : ∃ p, BTree.Owned 1024 s.nextPageId p ∧ (lab p).lvl = 0 ∧ (lab p).lo ≤ k
      ∧ k < (lab p).hi
    · obtain ⟨p, hp, hl, hlo, hhi⟩ := hex
      rw [hm p k hp hl hlo hhi] at hk
      exact (hdom p hp hl k).mp hk
    · exact absurd (dif_neg hex) hk

/-- **Every state of a table** into which fewer than `2 ^ 32` rows were
inserted: its tree stands for a map, and the next rowid has room. -/
theorem exists_map_of_rows {n : ℕ} (h : TableState (LeafRows n) t s)
    (hnext : t.nextRowid = (n + 1) % 4294967296) (hn : n < 4294967296) :
    ∃ m, TableState (LeafMap m) t s ∧ BTree.Room t.nextRowid s := by
  obtain ⟨lab, H, hT⟩ := h.tree
  obtain ⟨m, hT', hm⟩ := exists_leafMap hT hn
  refine ⟨m, ⟨⟨lab, H, hT'⟩, h.heap, h.rowid_lt, h.fits⟩,
    HoldsMap.room_of_none ⟨lab, H, hT'⟩ h.rowid_lt ?_⟩
  by_contra hne
  have hk := hm _ hne
  omega

/-- The tree of a new table binds nothing. -/
theorem tableState_new_map {schema : Schema} (hfit : schema.Fits) :
    TableState (LeafMap fun _ => none) ⟨schema, 1, 512⟩ (metaStore ⟨schema, 1, 512⟩ newHeap) :=
  tableState_new hfit RangeMap.nil

/-- The first rowid has room. -/
theorem room_new {schema : Schema} (hfit : schema.Fits) :
    BTree.Room 1 (metaStore ⟨schema, 1, 512⟩ newHeap) :=
  HoldsMap.room_of_none (tableState_new_map hfit).tree (by decide) rfl

/-- **The first insertion** into a new table that has room for what is left of
the row. -/
theorem exists_inserted {schema : Schema} (hfit : schema.Fits)
    (hlen : (serializeRow schema row).length % uint16Size ≤ 4088) :
    ∃ t s p slot c, (insertRow ⟨schema, 1, 512⟩ row).run (metaStore ⟨schema, 1, 512⟩ newHeap)
        = .ok ((.ok 1, t), s)
      ∧ t.schema = schema ∧ t.nextRowid = 2 ∧ SlottedPage.WellFormed (s.pages p)
      ∧ SlottedPage.content (s.pages p) slot = some ((⟨schema, 1, 512⟩ : Table).stored row)
      ∧ ∀ Q : Option Row → Store → Prop, Runs (findByRowid t 1) s Q ↔
          ∃ o, rowAt t (s.pages p) slot = .ok o ∧ Q o (s.atClock c) := by
  obtain ⟨r, s, hrun, ⟨hno, -⟩ | ⟨-, p, slot, hr, hschema, hnext, hw, hcontent, c, hfind⟩⟩ :=
    runs_insertRow_found (tableState_new_map hfit) (room_new hfit) row
  · exact absurd (Or.inr ⟨show 512 < 1022 by decide, hlen⟩) hno
  · refine ⟨r.2, s, p, slot, c, ?_, hschema, hnext, hw, hcontent, hfind⟩
    rw [hrun, ← hr]

/-- **A record of no bytes** is read as a row without values. -/
theorem rowAt_of_empty (hw : SlottedPage.WellFormed buf)
    (hc : SlottedPage.content buf slot = some []) :
    rowAt t buf slot = .ok (some []) := by
  obtain ⟨hl, hs⟩ := SlottedPage.content_eq_some.mp hc
  have hlen : SlottedPage.lengthOf buf slot = 0 := by
    have hzero := congrArg List.length hs
    rwa [Buffer.length_slice, List.length_nil] at hzero
  unfold rowAt
  rw [hw.get_eq, if_pos hl, Except.ok_bind_eq]
  simp only
  rw [hlen]
  unfold deserializeRow
  cases t.schema.cols with
  | nil => rfl
  | cons c cs => rfl

/-- **A scan over one rowid** calls the callback on the row the look-up
finds. -/
theorem runs_scan_of_findByRowid {σ : Type} {cb : Callback σ} {st st' : σ} (hnext : t.nextRowid = 2)
    (h : Runs (findByRowid t 1) s (fun r _ => r = some row)) (hcb : cb 1 row st = .ok (true, st')) :
    Runs (scan t cb st) s (fun r _ => r = .ok (1, st')) := by
  unfold findByRowid at h
  rw [runs_bind] at h
  rw [scan, hnext, scanFrom, runs_bind]
  refine h.mono (fun packed s' hfetch => ?_)
  beta_reduce at hfetch ⊢
  by_cases hneg : packed.val < 0
  · rw [if_pos hneg] at hfetch
    cases (runs_pure _).mp hfetch
  · rw [if_neg hneg] at hfetch ⊢
    rw [runs_bind]
    refine hfetch.mono ?_
    rintro r s'' rfl
    simp only [hcb]
    exact (runs_pure _).mpr rfl

theorem insertKeeps_iff_notes : InsertKeeps ⟨notes, 1, 512⟩ (metaStore ⟨notes, 1, 512⟩ newHeap)
      [.makeText (ascii "abc")]
    ↔ (serializeRow notes [.makeText (ascii "abc")]).length ≤ 65535
      ∨ ¬ HasRoom ⟨notes, 1, 512⟩ [.makeText (ascii "abc")] (metaStore ⟨notes, 1, 512⟩ newHeap) :=
  insertKeeps_iff (tableState_new_map notes_fits) (room_new notes_fits) rfl

/-- A text that 16 bits of length cut to nothing is not kept. -/
theorem not_insertKeeps_of_length {body : ByteString} (hbody : body.length = 65536) :
    ¬ InsertKeeps ⟨notes, 1, 512⟩ (metaStore ⟨notes, 1, 512⟩ newHeap) [.makeText body] := by
  have hlen := length_serializeRow_notes body
  rw [hbody] at hlen
  refine not_insertKeeps_of_long (tableState_new_map notes_fits) (room_new notes_fits) rfl
    (Or.inl ?_) (hlen.symm ▸ by omega)
  have hpage : (metaStore ⟨notes, 1, 512⟩ newHeap).pages 512
      = SlottedPage.init (Buffer.zero pageSize) := by
    rw [pages_metaStore (by decide), pages_newHeap, if_pos rfl]
  have hspace : SlottedPage.freeSpace (SlottedPage.init (Buffer.zero pageSize)) = 4092 := by
    decide
  show (serializeRow notes _).length % 65536 + 8
    ≤ SlottedPage.freeSpace ((metaStore ⟨notes, 1, 512⟩ newHeap).pages 512)
  rw [hlen, hpage, hspace]
  omega

/-- **A text of 65536 bytes** is stored as two bytes, the length of the empty
text. -/
theorem not_insertKeeps : ∃ t s, (construct notes true true).run .empty = .ok (t, s)
    ∧ ¬ InsertKeeps t s [.makeText (List.replicate 65536 120)] :=
  ⟨_, _, construct_eq_ok.mpr ⟨notes_fits, rfl, rfl⟩,
    not_insertKeeps_of_length List.length_replicate⟩

end Table
