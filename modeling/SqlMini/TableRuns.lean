import SqlMini.TableLeaves

/-!
# Runs of operations on a table

A run is a sequence of the calls a table offers, each with its own result,
on a table just created. `Kept` is what holds between any two of them as
long as the last heap page is not used up: the invariant of the table, with
the leaves of the tree as they are after some number of insertions
(`always_exec`). Reading a row that was cut off when it was stored may run
past the end of its page; a run in which that happens has no result.
-/

/-- **The calls of a table.** A callback has its state in `σ`. -/
inductive TableOp (σ : Type) where
  /-- `insert_row(row)`. -/
  | insert (row : Row)
  /-- `delete_row(rowid)`. -/
  | delete (rowid : Fin uint32Size)
  /-- `delete_where(pred)`. -/
  | deleteWhere (pred : ℕ → Row → Except StdException Bool)
  /-- `find_by_rowid(rowid, out)`. -/
  | find (rowid : Fin uint32Size)
  /-- `scan(cb)`, with the state the callback starts from. -/
  | scan (cb : Table.Callback σ) (st : σ)

/-- How many rows a call inserts, if it does not throw. -/
def TableOp.inserts {σ : Type} : TableOp σ → ℕ
  | .insert _ => 1
  | _ => 0

/-- A row inserted has one value per column and an encoding whose length is a
`uint16_t`. -/
def TableOp.Storable {σ : Type} (schema : Schema) : TableOp σ → Prop
  | .insert row => row.length = schema.cols.length ∧ (serializeRow schema row).length ≤ 65535
  | _ => True

/-- **Their results.** -/
inductive TableResult (σ : Type) where
  | inserted (r : Except StdException ℕ)
  | deleted (hit : Bool)
  | deletedWhere (r : Except StdException ℕ)
  | found (row : Option Row)
  | scanned (r : Except StdException (ℕ × σ))

namespace Table

open PageProg BTree

variable {σ : Type} {Leaf : LeafSpec} {t : Table} {s : Store} {n : ℕ}

/-- One call. -/
def exec (t : Table) : TableOp σ → PageProg (TableResult σ × Table)
  | .insert row => do
    let r ← insertRow t row
    return (.inserted r.1, r.2)
  | .delete rowid => do
    let hit ← deleteRow rowid
    return (.deleted hit, t)
  | .deleteWhere pred => do
    let r ← deleteWhere t pred
    return (.deletedWhere r, t)
  | .find rowid => do
    let row ← findByRowid t rowid
    return (.found row, t)
  | .scan cb st => do
    let r ← scan t cb st
    return (.scanned r, t)

/-! ## A new table -/

/-- The array after the heap of a new table was formatted. -/
def newHeap : Store :=
  ((newStore.touch heapPageBase).put .heap heapPageBase
    (SlottedPage.init (newStore.pages heapPageBase))).mark heapPageBase

/-- **`Table::Table`** over an empty file creates a table, if the schema
fits the metadata page. -/
theorem runs_construct {schema : Schema} {Q : Table → Store → Prop} :
    Runs (construct schema true true) .empty Q
      ↔ schema.Fits ∧ Q ⟨schema, 1, 512⟩ (metaStore ⟨schema, 1, 512⟩ newHeap) := by
  have hnew : ∀ {U : Unit → Store → Prop},
    Runs (BTree.construct true) .empty U ↔ U () newStore := by
    intro U
    exact runs_pure ()
  unfold construct
  rw [runs_bind, hnew]
  simp only [if_true, runs_bind, runs_getPage, runs_load, runs_store, runs_markDirty, runs_flushAll,
    runs_pure]
  rw [runs_writeMeta (t := ⟨schema, 1, 512⟩)]
  rfl

theorem construct_eq_ok {schema : Schema} :
    (construct schema true true).run .empty = .ok (t, s) ↔
      schema.Fits ∧ t = ⟨schema, 1, 512⟩ ∧ s = metaStore ⟨schema, 1, 512⟩ newHeap := by
  rw [run_eq_ok, runs_construct, eq_comm (a := t), eq_comm (a := s)]

/-- The pages of a new table: a root and a formatted heap page. -/
theorem pages_newHeap (p : ℕ) : newHeap.pages p = if p = 512 then
      SlottedPage.init (Buffer.zero pageSize)
    else if p = 0 then Node.initializeAsLeaf true (Buffer.zero pageSize)
    else Buffer.zero pageSize := by
  show Function.update (Function.update _ 0 _) 512 _ p = _
  rw [Function.update_apply, Function.update_apply]
  rfl

/-- Writing the metadata touches no other page. -/
theorem pages_metaStore {p : ℕ} (hp : p ≠ 1023) : (metaStore t s).pages p = s.pages p :=
  Function.update_of_ne hp _ _

/-- **The state of a new table.** -/
theorem tableState_new {schema : Schema} (hfit : schema.Fits)
    (hleaf : Leaf [] 0 4294967296) :
    TableState Leaf ⟨schema, 1, 512⟩ (metaStore ⟨schema, 1, 512⟩ newHeap) := by
  obtain ⟨htype, hroot, hnum, hcells⟩ := view_newRoot (Buffer.zero pageSize)
  have hpage : (metaStore ⟨schema, 1, 512⟩ newHeap).pages 0
      = Node.initializeAsLeaf true (Buffer.zero pageSize) := by
    rw [pages_metaStore (by decide), pages_newHeap]
    rfl
  refine ⟨⟨rootLab, 0, treeState_root (by decide) (by decide) rfl rfl ?_ ?_ ?_ ?_⟩, ?_,
    show 1 < 4294967296 by decide, hfit⟩
  · rw [hpage]
    exact htype
  · rw [hpage]
    exact hroot
  · rw [hpage, hnum]
    exact Nat.zero_le _
  · rw [hpage, hcells]
    exact hleaf
  · refine ⟨⟨le_rfl, show 512 ≤ 1022 by decide⟩, fun p h1 h2 => ?_, fun p h1 h2 => ?_⟩
    · have hp : p = 512 := le_antisymm h2 h1
      rw [hp, pages_metaStore (by decide), pages_newHeap, if_pos rfl]
      exact SlottedPage.wellFormed_init _
    · have h1' : 512 < p := h1
      rw [pages_metaStore (by omega), pages_newHeap, if_neg (by omega), if_neg (by omega)]

/-- Only the components' own pages were written. -/
theorem owned_new (schema : Schema) :
    Store.Owned .empty (metaStore ⟨schema, 1, 512⟩ newHeap) := by
  refine ⟨[.wrote .metadata 1023, .wrote .heap 512, .wrote .btree 0], rfl, ?_⟩
  intro e he
  simp only [List.mem_cons, List.not_mem_nil, or_false] at he
  rcases he with rfl | rfl | rfl
  · exact rfl
  · exact ⟨le_rfl, by decide⟩
  · exact Or.inl rfl

/-! ## Reading changes nothing -/

/-- **`scan`** leaves the pages alone, and keeps what its callback keeps. -/
theorem always_scanFrom {Val : ℕ → Option ℕ → Prop} {cb : Callback σ} {I : σ → Prop}
    (hL : Leaf.Sound) (hsay : ∀ key, LeafSays Leaf key (Val key))
    (hcb : ∀ rid row st b st', rid < 4294967296 → I st → cb rid row st = .ok (b, st') → I st') :
    ∀ (n rid count : ℕ) (st : σ) (s : Store), TableState Leaf t s → rid + n ≤ 4294967296 → I st →
      Always (scanFrom t cb n rid count st) s
        (fun r s' => (∃ c, s' = s.atClock c) ∧ ∀ k st', r = .ok (k, st') → I st')
  | 0, _, _, st, s, _, _, hst => ((runs_pure _).mpr ⟨⟨s.clock, rfl⟩, by
      rintro k st' he
      rwa [← (Prod.mk.inj (Except.ok.inj he)).2]⟩).always
  | n + 1, rid, count, st, s, h, hrid, hst => by
    have ih := fun count st c (hst : I st) => always_scanFrom hL hsay hcb n (rid + 1) count st
      (s.atClock c) (h.atClock c) (by omega) hst
    rw [scanFrom]
    refine Always.bind ((h.runs_find hL (hsay rid) (by omega)).always.mono ?_)
    rintro r s' ⟨⟨c, rfl⟩, o, hval, rfl⟩
    rcases answer_cases (o := o) (fun v hv => (hsay rid).small v (hv ▸ hval)) with
      ⟨-, hneg⟩ | ⟨v, -, -, hlt, hans, hnneg⟩
    · rw [if_pos hneg]
      exact ih count st c hst
    rw [if_neg hnneg, hans]
    refine Always.bind ((always_fetchRow hlt ((h.atClock c).lt_next (le_refl 1023))).mono ?_)
    rintro row s₁ rfl
    cases row with
    | none => exact ih count st _ hst
    | some row =>
      have hcb' := fun b st' => hcb rid row st b st' (by omega) hst
      simp only
      split
      case h_1 e he => exact ((runs_pure _).mpr ⟨⟨_, rfl⟩, by rintro k st' ⟨⟩⟩).always
      case h_2 st' he => exact ih _ _ _ (hcb' _ _ he)
      case h_3 st' he =>
        refine ((runs_pure _).mpr ⟨⟨_, rfl⟩, ?_⟩).always
        rintro k st'' he'
        rw [← (Prod.mk.inj (Except.ok.inj he')).2]
        exact hcb' _ _ he

theorem always_scan {Val : ℕ → Option ℕ → Prop} {cb : Callback σ} {I : σ → Prop} {st : σ}
    (hL : Leaf.Sound) (hsay : ∀ key, LeafSays Leaf key (Val key)) (h : TableState Leaf t s)
    (hcb : ∀ rid row st b st', rid < 4294967296 → I st → cb rid row st = .ok (b, st') → I st')
    (hst : I st) : Always (scan t cb st) s
      (fun r s' => (∃ c, s' = s.atClock c) ∧ ∀ k st', r = .ok (k, st') → I st') := by
  have hlt := h.rowid_lt
  exact always_scanFrom hL hsay hcb _ _ _ _ _ h (by omega) hst

/-- **`find_by_rowid`** leaves the pages alone. -/
theorem always_findByRowid {key : ℕ} {Val : Option ℕ → Prop} (hL : Leaf.Sound)
    (hsay : LeafSays Leaf key Val) (h : TableState Leaf t s) (hkey : key < 4294967296) :
    Always (findByRowid t key) s (fun _ s' => ∃ c, s' = s.atClock c) := by
  unfold findByRowid
  refine Always.bind ((h.runs_find hL hsay hkey).always.mono ?_)
  rintro r s' ⟨⟨c, rfl⟩, o, hval, rfl⟩
  rcases answer_cases (o := o) (fun v hv => hsay.small v (hv ▸ hval)) with
    ⟨-, hneg⟩ | ⟨v, -, -, hlt, hans, hnneg⟩
  · rw [if_pos hneg]
    exact ((runs_pure _).mpr ⟨c, rfl⟩).always
  · rw [if_neg hnneg, hans]
    refine (always_fetchRow hlt ((h.atClock c).lt_next (le_refl 1023))).mono ?_
    rintro row s₁ rfl
    exact ⟨_, rfl⟩

/-! ## What holds between two calls -/

/-- **Between two calls** the table is in order, with a tree of as many
rowids as were handed out. -/
def Kept (t : Table) (s : Store) : Prop :=
  ∃ n, t.nextRowid = (n + 1) % 4294967296 ∧ TableState (LeafRows n) t s

namespace Kept

theorem atClock (h : Kept t s) (c : ℕ) : Kept t (s.atClock c) := by
  obtain ⟨n, hn, h⟩ := h
  exact ⟨n, hn, h.atClock c⟩

/-- A new table. -/
theorem new {schema : Schema} (hfit : schema.Fits) :
    Kept ⟨schema, 1, 512⟩ (metaStore ⟨schema, 1, 512⟩ newHeap) :=
  ⟨0, rfl, tableState_new hfit LeafRows.new⟩

/-- **`insert_row`**, as long as the last heap page is not used up. -/
theorem runs_insertRow (h : Kept t s) {row : Row} (hroom : ¬ OutOfPages t row s) :
    Runs (insertRow t row) s (fun r s' => Kept r.2 s' ∧ Store.Owned s s') := by
  obtain ⟨n, hn, h⟩ := h
  refine (Table.runs_insertRow (leafRows_sound n)
    (fun v hv => hn ▸ leafStep_rows n hv) h row).mono ?_
  rintro r s' (⟨hout, -⟩ | ⟨-, howned, ⟨rfl, hstate, -⟩ | ⟨p, slot, rfl, hstate, -⟩⟩)
  · exact absurd hout hroom
  · exact ⟨⟨n, hn, hstate⟩, howned⟩
  · refine ⟨⟨n + 1, ?_, hstate⟩, howned⟩
    show (t.nextRowid + 1) % 4294967296 = _
    rw [hn]
    omega

/-- **`delete_row`.** -/
theorem runs_deleteRow (h : Kept t s) {key : ℕ} (hkey : key < 4294967296) :
    Runs (deleteRow key) s (fun _ s' => Kept t s' ∧ Store.Spared s s') := by
  obtain ⟨n, hn, h⟩ := h
  refine (Table.runs_deleteRow (leafRows_sound n) (leafSays_rows n key) (leafBury_rows n key) h
    hkey).mono ?_
  rintro r s' ⟨hspared, o, -, ⟨-, -, c, rfl⟩ | ⟨-, v, -, -, -, -, ⟨hstate, -⟩ | hstate⟩⟩
  · exact ⟨⟨n, hn, h.atClock c⟩, hspared⟩
  · exact ⟨⟨n, hn, hstate⟩, hspared⟩
  · exact ⟨⟨n, hn, hstate⟩, hspared⟩

/-- The second loop of `delete_where`. -/
theorem runs_deleteAll : ∀ (rids : List ℕ) (count : ℕ) (s : Store), Kept t s →
    (∀ r ∈ rids, r < 4294967296) →
    Runs (deleteAll rids count) s (fun _ s' => Kept t s' ∧ Store.Spared s s')
  | [], _, s, h, _ => (runs_pure _).mpr ⟨h, Store.Spared.refl s⟩
  | rid :: rids, count, s, h, hlt => by
    rw [deleteAll, runs_bind]
    refine (h.runs_deleteRow (hlt rid List.mem_cons_self)).mono ?_
    rintro hit s' ⟨h', hspared⟩
    refine (runs_deleteAll rids _ s' h' (fun r hr => hlt r (List.mem_cons_of_mem rid hr))).mono ?_
    rintro r s'' ⟨h'', hspared'⟩
    exact ⟨h'', hspared.trans hspared'⟩

/-- **`delete_where`.** -/
theorem always_deleteWhere (h : Kept t s) (pred : ℕ → Row → Except StdException Bool) :
    Always (deleteWhere t pred) s (fun _ s' => Kept t s' ∧ Store.Spared s s') := by
  obtain ⟨n, hn, hstate⟩ := id h
  unfold deleteWhere
  refine Always.bind ((always_scan (I := fun rids : List ℕ => ∀ r ∈ rids, r < 4294967296)
    (leafRows_sound n) (leafSays_rows n) hstate ?_ (by simp)).mono ?_)
  · -- the rowids collected are rowids scanned
    intro rid row st b st' hrid hst he
    unfold collect at he
    split at he
    · cases he
    · obtain ⟨-, rfl⟩ := Prod.mk.inj (Except.ok.inj he)
      split
      · intro r hr
        rcases List.mem_append.mp hr with hr | hr
        · exact hst r hr
        · rw [List.mem_singleton.mp hr]
          exact hrid
      · exact hst
  · rintro r s' ⟨⟨c, rfl⟩, hrids⟩
    have hc := h.atClock c
    rcases r with e | ⟨k, rids⟩
    · exact ((runs_pure _).mpr ⟨hc, (Store.Spared.refl s).atClock c⟩).always
    · refine Always.bind ((hc.runs_deleteAll rids 0 _ (hrids k rids rfl)).always.mono ?_)
      rintro count s'' ⟨h', hspared⟩
      exact ((runs_pure _).mpr
        ⟨h', ((Store.Spared.refl s).atClock c).trans hspared⟩).always

/-- **One call** leaves the table in order and every component in its pages,
as long as it is not an insertion that finds the last heap page used up. -/
theorem always_exec (h : Kept t s) (op : TableOp σ)
    (hroom : ∀ row, op = .insert row → ¬ OutOfPages t row s) :
    Always (exec t op) s (fun r s' => Kept r.2 s' ∧ Store.Owned s s') := by
  obtain ⟨n, hn, hstate⟩ := id h
  cases op with
  | insert row =>
    refine Always.bind ((h.runs_insertRow (hroom row rfl)).always.mono (fun r s' hr => ?_))
    exact ((runs_pure _).mpr hr).always
  | delete rowid =>
    refine Always.bind ((h.runs_deleteRow rowid.isLt).always.mono (fun r s' hr => ?_))
    exact ((runs_pure _).mpr ⟨hr.1, hr.2.owned⟩).always
  | deleteWhere pred =>
    refine Always.bind ((h.always_deleteWhere pred).mono (fun r s' hr => ?_))
    exact ((runs_pure _).mpr ⟨hr.1, hr.2.owned⟩).always
  | find rowid =>
    refine Always.bind ((always_findByRowid (leafRows_sound n) (leafSays_rows n rowid) hstate
      rowid.isLt).mono ?_)
    rintro r s' ⟨c, rfl⟩
    exact ((runs_pure _).mpr ⟨h.atClock c, (Store.Owned.refl s).atClock c⟩).always
  | scan cb st =>
    refine Always.bind ((always_scan (I := fun _ => True) (leafRows_sound n) (leafSays_rows n)
      hstate (fun _ _ _ _ _ _ _ _ => trivial) trivial).mono ?_)
    rintro r s' ⟨⟨c, rfl⟩, -⟩
    exact ((runs_pure _).mpr ⟨h.atClock c, (Store.Owned.refl s).atClock c⟩).always

end Kept

end Table
