import SqlMini.TableOwnership

/-!
# Insertions that throw

`insert_row` moves the heap cursor on before it knows whether the row fits
the next page, and throws without moving it back. Either way of throwing
comes after that move: a page whose free space passed the test has room for
the record, so only the page moved on to can turn the record down. Hence
every insertion that throws leaves the cursor one page further
(`always_insertRow_throws`), and the space of the page left behind, and of
the page moved on to where it was formatted for nothing, is out of reach of
later rows.
-/

namespace SlottedPage

variable {buf buf' : Page} {data : List UInt8} {i : ℕ}

/-- A slot written lies inside the page. -/
theorem le_of_setSlot {o len : ℕ} (h : setSlot buf i o len = .ok buf') : i ≤ 1022 := by
  unfold setSlot at h
  obtain ⟨b, -, hb⟩ := Except.bind_eq_ok.mp h
  unfold Buffer.poke at hb
  split at hb
  case isTrue hle =>
    have hle' : slotAt i + 2 + 2 ≤ 4096 := hle
    rw [slotAt_eq] at hle'
    omega
  case isFalse => cases hb

/-- **A record that the free space exceeds by an entry of the directory** is
not turned down, whatever is in the page. -/
theorem insert_ne_uint16Max (h : insert buf data = .ok (i, buf'))
    (hroom : data.length + 8 ≤ freeSpace buf) : i ≠ uint16Max := by
  have hfree : freeOffset buf < 65536 := buf.readLE_two_lt 2
  have hspace : (4 + numSlots buf * 4) % 65536 + data.length + 8 ≤ freeOffset buf := by
    have hroom' : data.length + 8 ≤ if freeOffset buf ≤ (4 + numSlots buf * 4) % 65536 then 0
        else freeOffset buf - (4 + numSlots buf * 4) % 65536 := hroom
    split at hroom' <;> omega
  unfold insert at h
  obtain ⟨reuse, -, h⟩ := Except.bind_eq_ok.mp h
  have hpass : ¬ freeOffset buf < (headerSize + numSlots buf * slotEntrySize
      + if reuse.isNone then slotEntrySize else 0) % uint16Size + data.length := by
    show ¬ freeOffset buf < (4 + numSlots buf * 4 + if reuse.isNone then 4 else 0) % 65536
      + data.length
    split <;> omega
  simp only [if_neg hpass] at h
  obtain ⟨b, -, h⟩ := Except.bind_eq_ok.mp h
  have hle : i ≤ 1022 := by
    rcases reuse with - | j
    · obtain ⟨b', hs, he⟩ := Except.bind_eq_ok.mp h
      rw [← (Prod.mk.inj (Except.ok.inj he)).1]
      exact le_of_setSlot hs
    · obtain ⟨b', hs, he⟩ := Except.bind_eq_ok.mp h
      rw [← (Prod.mk.inj (Except.ok.inj he)).1]
      exact le_of_setSlot hs
  show i ≠ 65535
  omega

end SlottedPage

namespace Table

open PageProg BTree

variable {t : Table} {s : Store}

/-! ## What an exception leaves -/

/-- **A record is turned down** only by a page without room for it. -/
theorem always_placeRow_throws {hbuf : PagePtr} {data : ByteString} :
    Always (placeRow t hbuf data) s (fun r _ => ∀ e, r.1 = .error e → r.2 = t
      ∧ SlottedPage.freeSpace (s.pages hbuf.page) < data.length + 8) := by
  unfold placeRow
  refine Always.bind (Runs.always (runs_load.mpr ?_))
  refine Always.bind (always_lift.mpr (fun r hr => ?_))
  split
  case isTrue hfull =>
    refine Runs.always ((runs_pure _).mpr (fun e _ => ⟨rfl, ?_⟩))
    by_contra hroom
    exact SlottedPage.insert_ne_uint16Max hr (not_lt.mp hroom) hfull
  case isFalse =>
    -- whatever the tree and the metadata do, the row is in
    refine Always.bind (fun _ _ _ => Always.bind (fun _ _ _ => Always.bind (fun _ _ _ =>
      Always.bind (fun _ _ _ => Runs.always ((runs_pure _).mpr ?_)))))
    rintro e ⟨⟩

/-- **Every insertion that throws** leaves the cursor one page further. -/
theorem always_insertRow_throws {row : Row} :
    Always (insertRow t row) s (fun r _ => ∀ e, r.1 = .error e →
      r.2 = { t with curHeapPage := (t.curHeapPage + 1) % uint32Size }) := by
  unfold insertRow
  refine Always.bind (fun hbuf s₁ _ => Always.bind (Runs.always (runs_load.mpr ?_)))
  split
  case isTrue =>
    simp only
    split
    case isTrue => exact Runs.always ((runs_pure _).mpr (fun _ _ => rfl))
    case isFalse =>
      refine Always.bind (fun hbuf' s₂ _ => always_placeRow_throws.mono (fun r _ hr e he => ?_))
      exact (hr e he).1
  case isFalse hroom =>
    refine always_placeRow_throws.mono (fun r _ hr e he => absurd (hr e he).2 ?_)
    have hlen := t.length_stored row
    unfold stored at hlen
    rw [hlen]
    exact hroom

/-! ## What later calls see -/

/-- The insertions of a sequence of rows that succeed. -/
def succeeding (t : Table) : List Row → PageProg (List Bool)
  | [] => pure []
  | row :: rows => do
    let r ← insertRow t row
    let rest ← succeeding r.2 rows
    return r.1.toBool :: rest

/-- What a program returns. -/
def outcome {α : Type} (m : PageProg α) (s : Store) : Except Fault α := (m.run s).map Prod.fst

/-- **A call left the table as it was**: the fields, the rows found and
scanned, and which later insertions succeed. -/
structure Unaffected (t : Table) (s : Store) (t' : Table) (s' : Store) : Prop where
  nextRowid : t'.nextRowid = t.nextRowid
  curHeapPage : t'.curHeapPage = t.curHeapPage
  found : ∀ rowid, outcome (findByRowid t' rowid) s' = outcome (findByRowid t rowid) s
  scanned : ∀ (cb : Callback (List (ℕ × Row))) st,
    outcome (scan t' cb st) s' = outcome (scan t cb st) s
  later : ∀ rows, outcome (succeeding t' rows) s' = outcome (succeeding t rows) s

/-- A cursor that has moved is an effect. -/
theorem not_unaffected_of_moved {t' : Table} {s' : Store}
    (h : t' = { t with curHeapPage := (t.curHeapPage + 1) % uint32Size }) :
    ¬ Unaffected t s t' s' := by
  intro hun
  have hcur : (t.curHeapPage + 1) % 4294967296 = t.curHeapPage :=
    (congrArg Table.curHeapPage h).symm.trans hun.curHeapPage
  omega

/-- A row too long for a page, on a new table. -/
theorem throws_longNote : ∃ e t' s', (insertRow ⟨notes, 1, 512⟩ longNote).run
    (metaStore ⟨notes, 1, 512⟩ newHeap) = .ok ((.error e, t'), s') := by
  obtain ⟨r, s', hrun, ⟨e, he⟩, -⟩ :=
    (tableState_new notes_fits LeafRows.new).runs_insertRow_of_long (leafRows_sound 0)
      (fun v hv => leafStep_rows 0 hv) longNote (by
        rw [length_stored_longNote]
        decide)
  refine ⟨e, r.2, s', ?_⟩
  rw [hrun, ← he]

/-- **No insertion that throws leaves the table as it was**, from whatever
state and for whatever row. -/
theorem insertRow_throws_affects (t : Table) (s : Store) (row : Row) (e : StdException)
    (t' : Table) (s' : Store) (h : (insertRow t row).run s = .ok ((.error e, t'), s')) :
    ¬ Unaffected t s t' s' :=
  not_unaffected_of_moved (always_insertRow_throws _ _ h e rfl)

theorem insertRow_throws_affects_longNote : ∃ e t' s',
    (insertRow ⟨notes, 1, 512⟩ longNote).run (metaStore ⟨notes, 1, 512⟩ newHeap)
        = .ok ((.error e, t'), s')
      ∧ ¬ Unaffected ⟨notes, 1, 512⟩ (metaStore ⟨notes, 1, 512⟩ newHeap) t' s' := by
  obtain ⟨e, t', s', h⟩ := throws_longNote
  exact ⟨e, t', s', h, insertRow_throws_affects _ _ longNote e _ _ h⟩

/-- **A row too long for a page** affects a new table. -/
theorem not_unaffected_longNote : ∃ t s, (construct notes true true).run .empty = .ok (t, s)
    ∧ ∃ e t' s', (insertRow t longNote).run s = .ok ((.error e, t'), s')
      ∧ ¬ Unaffected t s t' s' := by
  obtain ⟨e, t', s', h⟩ := throws_longNote
  exact ⟨_, _, construct_eq_ok.mpr ⟨notes_fits, rfl, rfl⟩, e, t', s', h,
    not_unaffected_of_moved (always_insertRow_throws _ _ h e rfl)⟩

end Table
