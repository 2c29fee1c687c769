import SqlMini.StorageSimulation
import SqlMini.Reopening

/-!
# A database of maps

What the engine is for: tables by their names, each a schema and a finite map
from rowids to rows, without pages, files or pools. `Database.storage` is that
database as a storage, so the executors run over it, and what they then answer
is what statements mean.

The engine has the same answers (`answers_eq_database`), until an insertion finds
no room in the heap: whether there is room is a matter of pages. The rows of a
statement of at most 60000 bytes have encodings whose lengths fit sixteen bits,
and rowids are handed out until the counter of 32 bits would wrap.
-/

open SqlEngine Routine

/-- **A table without pages**: its schema, and its rows under rowids. -/
structure MapTable where
  /-- The columns, and the name. -/
  schema : Schema
  /-- The rows, and the next rowid. -/
  rows : RowMap

/-- **A database**: tables by their names. -/
abbrev Database := ByteString → Option MapTable

namespace Database

variable {α β : Type}

/-- The database without tables. -/
def empty : Database := fun _ => none

/-- A table is there, or is created. A schema that does not fit the metadata
page cannot be. -/
def openTable (name : ByteString) (schemaIfCreate : Option Schema) : StorageM Database Unit :=
  fun d =>
    match d name, schemaIfCreate with
    | some _, _ => .ok (.ok (), d)
    | none, none => .ok (.error (.runtimeError (ascii "Table '" ++ name
        ++ ascii "' does not exist. Use CREATE TABLE first.")), d)
    | none, some schema =>
      if schema.Fits then .ok (.ok (), Function.update d name (some ⟨schema, .empty⟩))
      else .error (.pages .outOfBounds)

/-- A call on the table of that name. -/
def onTable (name : ByteString) (m : MapTable → Except StdException α × RowMap) :
    StorageM Database α := fun d =>
  match d name with
  | none => .error (.pages .danglingPointer)
  | some t => .ok ((m t).1, Function.update d name (some { t with rows := (m t).2 }))

section Calls

variable {d : Database} {name : ByteString} {mt : MapTable} {sc : Option Schema}

theorem openTable_of_some (h : d name = some mt) : openTable name sc d = .ok (.ok (), d) := by
  simp only [openTable, h]

theorem openTable_absent (h : d name = none) :
    openTable name none d = .ok (.error (.runtimeError (ascii "Table '" ++ name
      ++ ascii "' does not exist. Use CREATE TABLE first.")), d) := by
  simp only [openTable, h]

theorem openTable_new {schema : Schema} (h : d name = none) :
    openTable name (some schema) d = if schema.Fits then
      .ok (.ok (), Function.update d name (some ⟨schema, .empty⟩))
    else .error (.pages .outOfBounds) := by
  simp only [openTable, h]

theorem onTable_of_some {m : MapTable → Except StdException α × RowMap} (h : d name = some mt) :
    onTable name m d
      = .ok ((m mt).1, Function.update d name (some { mt with rows := (m mt).2 })) := by
  simp only [onTable, h]

end Calls

/-- **The database as a storage**: each call is a call on a map. -/
def storage : Storage Database where
  openTable := openTable
  schemaOf name := onTable name (fun t => (.ok t.schema, t.rows))
  insertRow name row := onTable name (fun t =>
    (.ok t.rows.next, t.rows.insert (t.schema.columnValues row)))
  findByRowid name rowid := onTable name (fun t => (.ok (t.rows.rows rowid), t.rows))
  scan name cb st := onTable name (fun t => (RowMap.visit cb t.rows.all 0 st, t.rows))
  deleteWhere name pred := onTable name (fun t =>
    match RowMap.matching pred t.rows.all with
    | .error e => (.error e, t.rows)
    | .ok rids => (.ok rids.length, rids.foldl RowMap.delete t.rows))

end Database

/-! ## A map on its pages -/

namespace Table

open PageProg

variable {σ α : Type} {mt : MapTable} {t t' : Table} {s s' : Store}

/-- A schema that does not fit the metadata page is not written. -/
theorem writeMeta_of_not_fits (h : ¬ t.schema.Fits) (s : Store) :
    (writeMeta t).run s = .error .outOfBounds := by
  have hbig : 4084 < t.schema.serialize.length % uint32Size := not_le.mp h
  have hcopy : ∀ buf : Page, (if 0 < t.schema.serialize.length % uint32Size then
      buf.copyIn 12 (t.schema.serialize.take (t.schema.serialize.length % uint32Size)) else .ok buf)
        = .error .outOfBounds := by
    intro buf
    have hlen := t.length_schemaBytes
    rw [if_pos (lt_trans (by decide) hbig)]
    refine if_neg (fun hle => ?_)
    have hle' : 12 + t.schemaBytes.length ≤ 4096 := hle
    omega
  unfold writeMeta
  simp only [hcopy]
  rfl

/-- A table whose schema does not fit is not created. -/
theorem construct_of_not_fits {schema : Schema} (h : ¬ schema.Fits) :
    (construct schema true true).run .empty = .error .outOfBounds := by
  have hmeta := writeMeta_of_not_fits (t := ⟨schema, 1, 512⟩) h newHeap
  show (do
    writeMeta ⟨schema, 1, 512⟩
    Pool.flushAll
    return (⟨schema, 1, 512⟩ : Table)).run newHeap = _
  rw [run_bind, hmeta]
  rfl

/-- The exceptions of an insertion that finds no room. -/
def NoRoom (x : StdException) : Prop :=
  x = .runtimeError (ascii "out of heap pages") ∨ x = .runtimeError (ascii "slot insert failed")

theorem always_placeRow_noRoom {hbuf : PagePtr} {data : ByteString} :
    Always (placeRow t hbuf data) s (fun r _ => ∀ x, r.1 = .error x → NoRoom x) := by
  unfold placeRow
  refine Always.bind (fun buf s₁ _ => Always.bind (always_lift.mpr (fun r _ => ?_)))
  split
  case isTrue =>
    refine ((runs_pure _).mpr ?_).always
    rintro x ⟨⟩
    exact Or.inr rfl
  case isFalse =>
    refine Always.bind (fun _ _ _ => Always.bind (fun _ _ _ => Always.bind (fun _ _ _ =>
      Always.bind (fun _ _ _ => ?_))))
    exact ((runs_pure _).mpr (by rintro x ⟨⟩)).always

/-- **`insert_row` throws** for lack of room. -/
theorem always_insertRow_noRoom {row : Row} :
    Always (insertRow t row) s (fun r _ => ∀ x, r.1 = .error x → NoRoom x) := by
  unfold insertRow
  refine Always.bind (fun hbuf s₁ _ => Always.bind (Runs.always (runs_load.mpr ?_)))
  split
  case isTrue =>
    simp only
    split
    case isTrue =>
      refine ((runs_pure _).mpr ?_).always
      rintro x ⟨⟩
      exact Or.inl rfl
    case isFalse => exact Always.bind (fun _ _ _ => always_placeRow_noRoom)
  case isFalse => exact always_placeRow_noRoom

/-- **A table on its pages holds a map**: it stands for it, and its metadata is
on its page. How many requests were made does not count. -/
def Holds (mt : MapTable) (t : Table) (s : Store) : Prop :=
  t.schema = mt.schema ∧ ∃ s₀ m, s₀.Like s ∧ Stands mt.rows m t s₀ ∧ InStep t s₀

/-- A new table. -/
theorem Holds.new {schema : Schema} (hfit : schema.Fits) :
    Holds ⟨schema, .empty⟩ ⟨schema, 1, 512⟩ (metaStore ⟨schema, 1, 512⟩ newHeap) :=
  ⟨rfl, _, _, .refl _, Stands.new hfit, InStep.new hfit⟩

/-- **`insert_row`** throws for lack of room, or adds a row to the map. -/
theorem Holds.insertRow (h : Holds mt t s) {raw : Row} (hraw : raw.length = mt.schema.cols.length)
    (hlen : (serializeRow mt.schema raw).length < 65536) (hsmall : mt.rows.next < 4294967295) :
    ∃ r t' s', (Table.insertRow t raw).run s = .ok ((r, t'), s') ∧ ((∃ x, NoRoom x ∧ r = .error x)
      ∨ (r = .ok mt.rows.next
        ∧ Holds { mt with rows := mt.rows.insert (mt.schema.columnValues raw) } t' s')) := by
  obtain ⟨hschema, s₀, m, hlike, hstands, hstep⟩ := h
  rw [← hschema] at hraw hlen
  obtain ⟨⟨r, t'⟩, s₁, hrun, hpost⟩ := hstands.runs_insertRow hraw hlen hsmall
  obtain ⟨s', hrun', hlike'⟩ := (blind_insertRow t raw).run_like hlike hrun
  refine ⟨r, t', s', hrun', ?_⟩
  rcases hpost with ⟨-, x, hx⟩ | ⟨-, hok, hkeep, m', hstands'⟩
  · exact Or.inl ⟨x, always_insertRow_noRoom _ _ hrun x hx, hx⟩
  · have hexec : (t.exec (.insert raw : TableOp Unit)).run s₀ = .ok ((.inserted r, t'), s₁) :=
      run_eq_ok.mpr (runs_bind.mpr ⟨_, _, hrun, (runs_pure _).mpr ⟨rfl, rfl⟩⟩)
    have hquiet : ¬ (TableResult.inserted r : TableResult Unit).Threw := by
      rw [show r = .ok mt.rows.next from hok]
      exact id
    refine Or.inr ⟨hok, hkeep.trans hschema, s₁, m', hlike', ?_, (hstep.of_exec hexec hquiet).1⟩
    rw [← hschema]
    exact hstands'

/-- **`find_by_rowid`** returns the row of the map. -/
theorem Holds.findByRowid (h : Holds mt t s) {rowid : ℕ} (hkey : rowid < uint32Size) :
    ∃ s', (Table.findByRowid t rowid).run s = .ok (mt.rows.rows rowid, s') ∧ Holds mt t s' := by
  obtain ⟨hschema, s₀, m, hlike, hstands, hstep⟩ := h
  obtain ⟨r, s₁, hrun, rfl, c, rfl⟩ := hstands.runs_findByRowid hkey
  obtain ⟨s', hrun', hlike'⟩ := (blind_findByRowid t rowid).run_like hlike hrun
  exact ⟨s', hrun', hschema, _, m, hlike', hstands.atClock c, hstep.atClock c⟩

/-- **`scan`** visits the rows of the map. -/
theorem Holds.scan (h : Holds mt t s) (cb : Callback σ) (st : σ) :
    ∃ s', (Table.scan t cb st).run s = .ok (RowMap.visit cb mt.rows.all 0 st, s')
      ∧ Holds mt t s' := by
  obtain ⟨hschema, s₀, m, hlike, hstands, hstep⟩ := h
  obtain ⟨r, s₁, hrun, rfl, c, rfl⟩ := hstands.runs_scan cb st
  obtain ⟨s', hrun', hlike'⟩ := (blind_scan t cb st).run_like hlike hrun
  exact ⟨s', hrun', hschema, _, m, hlike', hstands.atClock c, hstep.atClock c⟩

/-- **`delete_where`** deletes from the map, or nothing at all. -/
theorem Holds.deleteWhere (h : Holds mt t s) (pred : ℕ → Row → Except StdException Bool) :
    ∃ r s', (Table.deleteWhere t pred).run s = .ok (r, s')
      ∧ ((∃ e, RowMap.matching pred mt.rows.all = .error e ∧ r = .error e ∧ Holds mt t s')
        ∨ ∃ rids, RowMap.matching pred mt.rows.all = .ok rids ∧ r = .ok rids.length
          ∧ Holds { mt with rows := rids.foldl RowMap.delete mt.rows } t s') := by
  obtain ⟨hschema, s₀, m, hlike, hstands, hstep⟩ := h
  obtain ⟨r, s₁, hrun, hpost⟩ := hstands.runs_deleteWhere pred
  obtain ⟨s', hrun', hlike'⟩ := (blind_deleteWhere t pred).run_like hlike hrun
  have hexec : (t.exec (.deleteWhere pred : TableOp Unit)).run s₀
      = .ok ((.deletedWhere r, t), s₁) :=
    run_eq_ok.mpr (runs_bind.mpr ⟨_, _, hrun, (runs_pure _).mpr ⟨rfl, rfl⟩⟩)
  refine ⟨r, s', hrun', ?_⟩
  rcases hpost with ⟨e, he, rfl, -⟩ | ⟨rids, hrids, rfl, m', hstands'⟩
  · -- nothing was written: the scan threw
    obtain ⟨r, s₂, hscan, rfl, c, rfl⟩ := hstands.runs_scan (collect pred) []
    rcases RowMap.visit_collect pred mt.rows.all 0 [] with ⟨x, hv, hm⟩ | ⟨rids, -, hm⟩
    · have hthrow : (Table.deleteWhere t pred).run s₀ = .ok (.error x, s₀.atClock c) := by
        rw [Table.deleteWhere, run_bind, hscan, hv]
        rfl
      obtain ⟨-, rfl⟩ := Prod.mk.inj (Except.ok.inj (hrun.symm.trans hthrow))
      exact Or.inl ⟨e, he, rfl, hschema, _, m, hlike', hstands.atClock c, hstep.atClock c⟩
    · cases he.symm.trans hm
  · exact Or.inr ⟨rids, hrids, rfl, hschema, s₁, m', hlike', hstands',
      (hstep.of_exec hexec id).1⟩

end Table

/-! ## The rows of short statements -/

namespace SqlEngine

variable {schema : Schema} {row : Row} {vals : List ByteString}

/-- The bytes of the texts of a row. -/
def textBytes (row : Row) : ℕ := (row.map (fun v => v.strVal.length)).sum

theorem textBytes_cons (v : Value) (row : Row) :
    textBytes (v :: row) = v.strVal.length + textBytes row := rfl

theorem textBytes_replicate_default (n : ℕ) : textBytes (List.replicate n default) = 0 := by
  unfold textBytes
  rw [List.map_replicate, List.sum_replicate]
  exact Nat.mul_zero n

/-- A field in a row replaced. -/
theorem textBytes_set (x : Value) : ∀ (row : Row) (i : ℕ),
    textBytes (row.set i x) ≤ x.strVal.length + textBytes row
  | [], _ => Nat.zero_le _
  | v :: row, 0 => by
    rw [List.set_cons_zero, textBytes_cons, textBytes_cons]
    omega
  | v :: row, i + 1 => by
    have ih := textBytes_set x row i
    rw [List.set_cons_succ, textBytes_cons, textBytes_cons]
    omega

/-- A value is no longer than its literal. -/
theorem length_strVal_literal {type : ColType} {val : ByteString} {x : Value}
    (h : literal type val = .ok x) : x.strVal.length ≤ val.length := by
  unfold literal at h
  split at h
  · obtain ⟨n, -, rfl⟩ : ∃ n, CppString.stoi val = .ok n ∧ Value.makeInt n = x := by
      rcases hn : CppString.stoi val with e | n
      · rw [hn] at h
        cases h
      · rw [hn] at h
        exact ⟨n, rfl, Except.ok.inj h⟩
    exact Nat.zero_le _
  · rw [← Except.ok.inj h]
    exact le_rfl

theorem textBytes_positionalRow : ∀ (cs : List Column) (vs : List ByteString) (row : Row),
    positionalRow cs vs = .ok row → textBytes row ≤ bytesOf vs
  | [], vs, row, h => by
    rw [← Except.ok.inj h]
    exact Nat.zero_le _
  | c :: cs, [], row, h => by
    rw [← Except.ok.inj h, textBytes_replicate_default]
    exact Nat.zero_le _
  | c :: cs, v :: vs, row, h => by
    rw [positionalRow] at h
    obtain ⟨x, hx, h⟩ := Except.bind_eq_ok.mp h
    obtain ⟨rest, hrest, h⟩ := Except.bind_eq_ok.mp h
    have hlit := length_strVal_literal hx
    have ih := textBytes_positionalRow cs vs rest hrest
    rw [← Except.ok.inj h, textBytes_cons, bytesOf_cons]
    omega

theorem textBytes_namedRow : ∀ (cs vs : List ByteString) (row row' : Row),
    namedRow schema cs vs row = .ok row' → textBytes row' ≤ textBytes row + bytesOf vs
  | [], vs, row, row', h => by
    have hrow : row' = row := by
      cases vs <;> exact (Except.ok.inj h).symm
    rw [hrow]
    exact Nat.le_add_right _ _
  | c :: cs, [], row, row', h => by
    rw [← Except.ok.inj h]
    exact Nat.le_add_right _ _
  | c :: cs, v :: vs, row, row', h => by
    rw [namedRow] at h
    by_cases hneg : schema.findCol c < 0
    · simp only [if_pos hneg] at h
      cases h
    simp only [if_neg hneg] at h
    obtain ⟨x, hx, h⟩ := Except.bind_eq_ok.mp h
    have hlit := length_strVal_literal hx
    have hset := textBytes_set x row (schema.findCol c).toNat
    have ih := textBytes_namedRow cs vs _ row' h
    rw [bytesOf_cons]
    omega

/-- **The texts of a row** that is inserted are no longer than its values. -/
theorem textBytes_insertedRow {cols : List ByteString}
    (h : insertedRow schema cols vals = .ok row) :
    textBytes row ≤ bytesOf vals := by
  unfold insertedRow at h
  split at h
  · exact textBytes_positionalRow _ _ _ h
  · have hle := textBytes_namedRow _ _ _ _ h
    rwa [textBytes_replicate_default, Nat.zero_add] at hle

theorem length_fieldBytes_le (c : Column) (v : Value) :
    (fieldBytes c v).length ≤ 4 + v.strVal.length := by
  unfold fieldBytes
  split
  · rw [LittleEndian.length_encode]
    omega
  · rw [List.length_append, LittleEndian.length_encode]
    omega

/-- **The encoding of a row** is not much longer than its texts. -/
theorem length_serializeRow_le : ∀ (cs : List Column) (row : Row),
    ((List.zipWith fieldBytes cs row).flatten).length ≤ 4 * cs.length + textBytes row
  | [], row => Nat.zero_le _
  | c :: cs, [] => Nat.zero_le _
  | c :: cs, v :: row => by
    have hfield := length_fieldBytes_le c v
    have ih := length_serializeRow_le cs row
    rw [List.zipWith_cons_cons, List.flatten_cons, List.length_append, textBytes_cons,
      List.length_cons]
    omega

/-- There are not more columns than a metadata page has room for. -/
theorem length_le_columnWeight (cols : List Column) : 4 * cols.length ≤ columnWeight cols := by
  induction cols with
  | nil => exact le_rfl
  | cons c cols ih =>
    unfold columnWeight at ih ⊢
    rw [List.map_cons, List.sum_cons, List.length_cons]
    omega

end SqlEngine
