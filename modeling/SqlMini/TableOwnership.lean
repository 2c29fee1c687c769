import SqlMini.TableRuns

/-!
# Whose page is whose

Three components share the page numbers, and nothing in the code keeps them
apart but the order in which pages are first accessed and the test
`cur_heap_page_ >= SCHEMA_PAGE_ID` of `insert_row`. That test comes after
the cursor was moved and throws without moving it back. From then on the
cursor stands on the metadata page, and the next insertion takes that page
for a heap page, an unformatted one as long as the next rowid is below
`65536`.

Up to that point the pages are kept apart: `ownedAlong_iff` says that the
property holds in a run exactly if no insertion of the run finds the last
heap page used up.
-/

namespace Table

open PageProg BTree

variable {σ : Type} {Leaf : LeafSpec} {Leaf' : ℕ → LeafSpec} {t : Table} {s : Store}

/-- **The writes on record keep to the components' pages.** -/
structure PagesKept (log : List Event) : Prop where
  /-- The heap writes heap pages. -/
  heap : ∀ p, .wrote .heap p ∈ log → heapPageBase ≤ p ∧ p ≤ 1022
  /-- The metadata page is written as metadata. -/
  metadata : ∀ o, .wrote o schemaPageId ∈ log → o = .metadata
  /-- Page `0` and the pages handed out are written by the B-tree. -/
  btree : ∀ o p, .wrote o p ∈ log → p = 0 ∨ .handedOut p ∈ log → o = .btree

/-- **The property at one point of a run.** -/
structure OwnedNow (t : Table) (s : Store) : Prop where
  /-- The cursor is on a heap page. -/
  cur_ge : heapPageBase ≤ t.curHeapPage
  cur_lt : t.curHeapPage < schemaPageId
  /-- The writes so far. -/
  pages : PagesKept s.log

/-- **The property along a run**: at the start and after every call that
returns. -/
def OwnedAlong : List (TableOp σ) → Table → Store → Prop
  | [], t, s => OwnedNow t s
  | op :: ops, t, s =>
    OwnedNow t s ∧ ∀ r s', (exec t op).run s = .ok (r, s') → OwnedAlong ops r.2 s'

/-- **No insertion of the run finds the last heap page used up.** -/
def NeverUsedUp : List (TableOp σ) → Table → Store → Prop
  | [], _, _ => True
  | op :: ops, t, s => (∀ row, op = .insert row → ¬ OutOfPages t row s)
    ∧ ∀ r s', (exec t op).run s = .ok (r, s') → NeverUsedUp ops r.2 s'

/-- What every component keeping to its pages amounts to. -/
theorem pagesKept_of_owned {log : List Event} (h : ∀ e ∈ log, Event.owned e) : PagesKept log where
  heap p hp := h _ hp
  metadata o ho := by
    have hown := h _ ho
    cases o with
    | btree => exact hown.elim (fun h0 => by cases h0) (fun h1 => absurd h1 (by decide))
    | heap => exact absurd hown.2 (by decide)
    | metadata => rfl
  btree o p hp hwho := by
    have hown := h _ hp
    have hp' : p = 0 ∨ 1024 ≤ p := hwho.elim Or.inl (fun hh => h _ hh)
    cases o with
    | btree => rfl
    | heap =>
      obtain ⟨h1, h2⟩ := hown
      omega
    | metadata =>
      have h1 : p = 1023 := hown
      omega

/-- **Between two calls** the property holds. -/
theorem Kept.ownedNow (h : Kept t s) (hlog : Store.Owned .empty s) : OwnedNow t s := by
  obtain ⟨n, -, h⟩ := h
  obtain ⟨es, he, hes⟩ := hlog
  obtain ⟨h1, h2⟩ := h.heap.cur_mem
  refine ⟨h1, Nat.lt_succ_of_le h2, pagesKept_of_owned (fun e hmem => hes e ?_)⟩
  rw [he] at hmem
  simpa [Store.empty] using hmem

/-- An insertion that finds the last heap page used up moves the cursor off
the heap. -/
theorem Kept.runs_usedUp (h : Kept t s) {row : Row} (hout : OutOfPages t row s) :
    Runs (insertRow t row) s (fun r _ => r.2.curHeapPage = schemaPageId) := by
  obtain ⟨n, hn, h⟩ := h
  refine (Table.runs_insertRow (leafRows_sound n)
    (fun v hv => hn ▸ leafStep_rows n hv) h row).mono ?_
  rintro r s' (⟨-, rfl, -⟩ | ⟨hno, -⟩)
  · rfl
  · exact absurd hout hno

/-- **Along a run** the pages are kept apart exactly as long as the last heap
page is not used up. -/
theorem Kept.ownedAlong_iff : ∀ (ops : List (TableOp σ)) (t : Table) (s : Store), Kept t s →
    Store.Owned .empty s → (OwnedAlong ops t s ↔ NeverUsedUp ops t s)
  | [], t, s, h, hlog => iff_of_true (h.ownedNow hlog) trivial
  | op :: ops, t, s, h, hlog => by
    have hnow := h.ownedNow hlog
    have hrest := fun hroom r s' (hrun : (exec t op).run s = .ok (r, s')) =>
      have hk := h.always_exec op hroom r s' hrun
      Kept.ownedAlong_iff ops r.2 s' hk.1 (hlog.trans hk.2)
    constructor
    · rintro ⟨-, hown⟩
      have hroom : ∀ row, op = .insert row → ¬ OutOfPages t row s := by
        rintro row rfl hout
        obtain ⟨r, s', hrun, hcur⟩ := h.runs_usedUp hout
        have hexec : (exec t (.insert row : TableOp σ)).run s = .ok ((.inserted r.1, r.2), s') := by
          rw [exec, run_bind, hrun]
          rfl
        have hafter := hown _ s' hexec
        have hlt : r.2.curHeapPage < schemaPageId := by
          cases ops with
          | nil => exact hafter.cur_lt
          | cons op' ops => exact hafter.1.cur_lt
        rw [hcur] at hlt
        exact lt_irrefl _ hlt
      exact ⟨hroom, fun r s' hrun => (hrest hroom r s' hrun).mp (hown r s' hrun)⟩
    · rintro ⟨hroom, hnever⟩
      exact ⟨hnow, fun r s' hrun => (hrest hroom r s' hrun).mpr (hnever r s' hrun)⟩

/-- **Page ownership**, for every run on a new table: it is kept exactly if
no insertion finds the last heap page used up. -/
theorem ownedAlong_iff_neverUsedUp (schema : Schema) (ops : List (TableOp σ)) (t : Table)
    (s : Store) (h : (construct schema true true).run .empty = .ok (t, s)) :
    OwnedAlong ops t s ↔ NeverUsedUp ops t s := by
  obtain ⟨hfit, rfl, rfl⟩ := construct_eq_ok.mp h
  exact Kept.ownedAlong_iff ops _ _ (Kept.new hfit) (owned_new schema)

/-! ## The failing run -/

/-- A table of one text column. -/
def notes : Schema := ⟨ascii "notes", [⟨ascii "body", .text, 255⟩]⟩

/-- A row that no page holds. -/
def longNote : Row := [.makeText (List.replicate 5000 120)]

theorem notes_fits : notes.Fits := by decide

/-- Two calls on a new table, one of which throws. -/
theorem ownedAlong_iff_neverUsedUp_notes :
    (construct notes true true).run .empty
        = .ok (⟨notes, 1, 512⟩, metaStore ⟨notes, 1, 512⟩ newHeap)
      ∧ (OwnedAlong ([.insert longNote, .scan (fun _ _ _ => .ok (true, ())) ()] :
          List (TableOp Unit))
          ⟨notes, 1, 512⟩ (metaStore ⟨notes, 1, 512⟩ newHeap)
        ↔ NeverUsedUp ([.insert longNote, .scan (fun _ _ _ => .ok (true, ())) ()] :
          List (TableOp Unit))
          ⟨notes, 1, 512⟩ (metaStore ⟨notes, 1, 512⟩ newHeap)) :=
  ⟨construct_eq_ok.mpr ⟨notes_fits, rfl, rfl⟩,
    ownedAlong_iff_neverUsedUp _ _ _ _ (construct_eq_ok.mpr ⟨notes_fits, rfl, rfl⟩)⟩

theorem length_serializeRow_notes (body : ByteString) :
    (serializeRow notes [.makeText body]).length = 2 + body.length := by
  simp [serializeRow, notes, fieldBytes, Value.makeText]

theorem length_stored_longNote (n c : ℕ) :
    ((⟨notes, n, c⟩ : Table).stored longNote).length = 5002 := by
  rw [length_stored, show serializeRow (⟨notes, n, c⟩ : Table).schema longNote
    = serializeRow notes [.makeText (List.replicate 5000 120)] from rfl, length_serializeRow_notes,
    List.length_replicate]
  rfl

/-- Rows too long for a page walk the cursor off the heap. -/
theorem not_ownedAlong_longNotes : ∀ (k c : ℕ) (s : Store), c + k = 1023 →
    (k ≠ 0 → TableState (LeafRows 0) ⟨notes, 1, c⟩ s) →
    ¬ OwnedAlong (List.replicate k (.insert longNote : TableOp Unit)) ⟨notes, 1, c⟩ s
  | 0, c, s, hc, _, hown => by
    have hlt : c < 1023 := hown.cur_lt
    omega
  | k + 1, c, s, hc, h, hown => by
    obtain ⟨r, s', hrun, -, hr, hstate⟩ := (h (Nat.succ_ne_zero k)).runs_insertRow_of_long
      (leafRows_sound 0) (fun v hv => leafStep_rows 0 hv) longNote (by
        rw [length_stored_longNote]
        decide)
    have hexec : (exec ⟨notes, 1, c⟩ (.insert longNote : TableOp Unit)).run s
        = .ok ((.inserted r.1, r.2), s') := by
      rw [exec, run_bind, hrun]
      rfl
    have hafter := hown.2 _ s' hexec
    rw [hr] at hafter hstate
    exact not_ownedAlong_longNotes k (c + 1) s' (by omega)
      (fun hk => hstate (show c < 1022 by omega)) hafter

/-- **The property fails**: 511 rows too long for a page, on a new table. -/
theorem not_ownedAlong : ∃ t s, (construct notes true true).run .empty = .ok (t, s)
    ∧ ¬ OwnedAlong (List.replicate 511 (.insert longNote : TableOp Unit)) t s := by
  refine ⟨_, _, construct_eq_ok.mpr ⟨notes_fits, rfl, rfl⟩, ?_⟩
  exact not_ownedAlong_longNotes 511 512 _ rfl (fun _ => tableState_new notes_fits
    (LeafRows.new))

end Table
