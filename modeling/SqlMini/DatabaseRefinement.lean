import SqlMini.Database
import SqlMini.TableReach

/-!
# The engine is a database of maps

The engine represents a database of maps: a table of the database is open and
holds its map, or is closed and its file holds the pages of a table that does,
and any other name has no pages (`Engine.Represents`). Each call on the engine
does what the call on the database does (`mimics_database`). So every list of
statements has the answers it has on the maps, up to the first insertion that
finds no room (`execAll_eq_database`), and two engines that represent one
database cannot be told apart by any statements: not by which tables are open,
nor by which pages the rows are on.
-/

open SqlEngine Routine PageProg

/-! ## Representation -/

/-- **What a file has**: the pages of a table, or none. -/
inductive PageFile.HasTable (f : PageFile) (name : ByteString) : Option MapTable → Prop
  | stored {mt : MapTable} {t : Table} {s : Store} (hname : mt.schema.tableName = name)
      (hcounts : Table.ByteCounts mt.schema.cols) (h : t.Holds mt s) (hfile : f.Saves s) :
      HasTable f name (some mt)
  | absent (hfile : f.size = 0) : HasTable f name none

namespace Engine

variable {e : Engine} {name : ByteString} {mt : MapTable} {t : Table} {s : Store}

/-- **What the engine has under a name**: an open table, or what the file
has. -/
inductive Has (e : Engine) (name : ByteString) : Option MapTable → Prop
  | opened {mt : MapTable} {t : Table} {s : Store} (hopen : e.tables name = some (t, s))
      (hname : mt.schema.tableName = name) (h : t.Holds mt s) : Has e name (some mt)
  | closed {o : Option MapTable} (hopen : e.tables name = none)
      (h : (e.files (name ++ ascii ".db")).HasTable name o) : Has e name o

/-- A name without an open table has what its file has. -/
theorem Has.of_none {o : Option MapTable} (h : e.Has name o) (hopen : e.tables name = none) :
    (e.files (name ++ ascii ".db")).HasTable name o := by
  cases h with
  | opened hopen' => cases hopen.symm.trans hopen'
  | closed _ hhas => exact hhas

/-- **The engine represents a database**, with room for `n` rowids more in
each table, and the tables in `opened` open. -/
structure Represents (n : ℕ) (opened : ByteString → Option Schema) (e : Engine) (d : Database) :
    Prop where
  has : ∀ name, e.Has name (d name)
  /-- No counter of rowids wraps. -/
  rowids : ∀ name mt, d name = some mt → mt.rows.next + n ≤ 4294967295
  few : n < 4294967295
  /-- The schemas fit the metadata page. -/
  short : ∀ name mt, d name = some mt → columnWeight mt.schema.cols < 4084
  opened : ∀ name schema, opened name = some schema →
    ∃ t s, e.tables name = some (t, s) ∧ t.schema = schema

/-- Other names keep what they have. -/
theorem Has.put {other : ByteString} {o : Option MapTable} (h : e.Has other o)
    (hne : other ≠ name) :
    (e.put name t s).Has other o := by
  have htables := SqlEngine.put_tables_of_ne (e := e) (t := t) (s := s) hne
  cases h with
  | opened hopen hname h => exact .opened (htables.trans hopen) hname h
  | closed hopen h => exact .closed (htables.trans hopen) h

namespace Represents

variable {n : ℕ} {opened : ByteString → Option Schema} {d : Database}

theorem spend (h : Represents (n + 1) opened e d) : Represents n opened e d where
  has := h.has
  rowids name mt hmt := (Nat.add_le_add_left (Nat.le_succ n) _).trans (h.rowids name mt hmt)
  few := lt_trans (Nat.lt_succ_self n) h.few
  short := h.short
  opened := h.opened

theorem forget (h : Represents n opened e d) : Represents n (fun _ => none) e d :=
  ⟨h.has, h.rowids, h.few, h.short, fun _ _ ho => by cases ho⟩

/-- **A table that is open** is a table of the database. -/
theorem of_open (h : Represents n opened e d) (hopen : e.tables name = some (t, s)) :
    ∃ mt, d name = some mt ∧ mt.schema.tableName = name ∧ t.Holds mt s := by
  generalize ho : d name = o
  have hhas := h.has name
  rw [ho] at hhas
  cases hhas with
  | @opened mt t' s' hopen' hname hholds =>
    obtain ⟨rfl, rfl⟩ := Prod.mk.inj (Option.some.inj (hopen.symm.trans hopen'))
    exact ⟨mt, rfl, hname, hholds⟩
  | closed hopen' => cases hopen.symm.trans hopen'

/-- **After a call on a table**, which may have changed its rows. -/
theorem put (h : Represents n opened e d) {n' : ℕ} {t' : Table} {s' : Store} {rows : RowMap}
    (hopen : e.tables name = some (t, s)) (hmt : d name = some mt)
    (hholds : t'.Holds ⟨mt.schema, rows⟩ s') (hle : n' ≤ n) (hrows : rows.next + n' ≤ 4294967295) :
    Represents n' opened (e.put name t' s')
      (Function.update d name (some ⟨mt.schema, rows⟩)) where
  has other := by
    by_cases hne : other = name
    · subst hne
      obtain ⟨mt', hmt', hname, -⟩ := h.of_open hopen
      obtain rfl := Option.some.inj (hmt.symm.trans hmt')
      rw [Function.update_self]
      exact .opened SqlEngine.put_tables_self hname hholds
    · rw [Function.update_of_ne hne]
      exact (h.has other).put hne
  rowids other mt' hmt' := by
    by_cases hne : other = name
    · rw [hne, Function.update_self] at hmt'
      rw [← Option.some.inj hmt']
      exact hrows
    · rw [Function.update_of_ne hne] at hmt'
      exact (Nat.add_le_add_left hle _).trans (h.rowids other mt' hmt')
  few := lt_of_le_of_lt hle h.few
  short other mt' hmt' := by
    by_cases hne : other = name
    · rw [hne, Function.update_self] at hmt'
      rw [← Option.some.inj hmt']
      exact h.short name mt hmt
    · rw [Function.update_of_ne hne] at hmt'
      exact h.short other mt' hmt'
  opened other schema ho := by
    by_cases hne : other = name
    · subst hne
      obtain ⟨t₁, s₁, hopen₁, hschema⟩ := h.opened other schema ho
      obtain ⟨rfl, rfl⟩ := Prod.mk.inj (Option.some.inj (hopen.symm.trans hopen₁))
      refine ⟨t', s', SqlEngine.put_tables_self, ?_⟩
      obtain ⟨mt', hmt', -, hold⟩ := h.of_open hopen
      obtain rfl := Option.some.inj (hmt.symm.trans hmt')
      exact hholds.1.trans (hold.1.symm.trans hschema)
    · obtain ⟨t₁, s₁, hopen₁, hschema⟩ := h.opened other schema ho
      exact ⟨t₁, s₁, (SqlEngine.put_tables_of_ne hne).trans hopen₁, hschema⟩

/-- A call that leaves the rows alone. -/
theorem read (h : Represents n opened e d) {s' : Store} (hopen : e.tables name = some (t, s))
    (hmt : d name = some mt) (hholds : t.Holds mt s') :
    Represents n opened (e.put name t s') (Function.update d name (some mt)) :=
  h.put hopen hmt hholds le_rfl (h.rowids name mt hmt)

/-- **A table is open.** -/
theorem know (h : Represents n opened e d) (hopen : e.tables name = some (t, s)) :
    Represents n (Function.update opened name (some t.schema)) e d where
  has := h.has
  rowids := h.rowids
  few := h.few
  short := h.short
  opened other schema ho := by
    by_cases hne : other = name
    · rw [hne, Function.update_self] at ho
      exact ⟨t, s, hne ▸ hopen, Option.some.inj ho⟩
    · rw [Function.update_of_ne hne] at ho
      exact h.opened other schema ho

/-- **A table that was not open** is opened. -/
theorem enter (h : Represents n opened e d) (hname : mt.schema.tableName = name)
    (hholds : t.Holds mt s) (hrows : mt.rows.next + n ≤ 4294967295)
    (hshort : columnWeight mt.schema.cols < 4084) :
    Represents n (Function.update opened name (some t.schema)) (e.put name t s)
      (Function.update d name (some mt)) where
  has other := by
    by_cases hne : other = name
    · rw [hne, Function.update_self]
      exact .opened SqlEngine.put_tables_self hname hholds
    · rw [Function.update_of_ne hne]
      exact (h.has other).put hne
  rowids other mt' hmt' := by
    by_cases hne : other = name
    · rw [hne, Function.update_self] at hmt'
      exact Option.some.inj hmt' ▸ hrows
    · rw [Function.update_of_ne hne] at hmt'
      exact h.rowids other mt' hmt'
  few := h.few
  short other mt' hmt' := by
    by_cases hne : other = name
    · rw [hne, Function.update_self] at hmt'
      exact Option.some.inj hmt' ▸ hshort
    · rw [Function.update_of_ne hne] at hmt'
      exact h.short other mt' hmt'
  opened other schema ho := by
    by_cases hne : other = name
    · rw [hne, Function.update_self] at ho
      exact ⟨t, s, hne ▸ SqlEngine.put_tables_self, Option.some.inj ho⟩
    · rw [Function.update_of_ne hne] at ho
      obtain ⟨t₁, s₁, hopen₁, hschema⟩ := h.opened other schema ho
      exact ⟨t₁, s₁, (SqlEngine.put_tables_of_ne hne).trans hopen₁, hschema⟩

end Represents

/-- The engine before any statement. -/
theorem represents_noTables {n : ℕ} (h : n < 4294967295) :
    Represents n (fun _ => none) noTables Database.empty where
  has _ := .closed rfl (.absent rfl)
  rowids name mt hmt := by cases hmt
  few := h
  short name mt hmt := by cases hmt
  opened name schema ho := by cases ho

end Engine

/-! ## Opening a table -/

namespace Table

variable {mt : MapTable} {t : Table} {s : Store} {f : PageFile} {name : ByteString}

/-- **A table whose pages are in a file** is built on it again. -/
theorem Holds.reopen (h : t.Holds mt s) (hname : mt.schema.tableName = name)
    (hcounts : ByteCounts mt.schema.cols) (hfile : f.Saves s) :
    (Pager.open f).numPages ≠ 0
      ∧ ∃ s', (construct ⟨name, []⟩ false false).run (poolOf f) = .ok (t, s')
        ∧ t.Holds mt s' := by
  obtain ⟨hschema, s₀, m, hlike, hstands, hstep⟩ := h
  have hsaves := hfile.of_like hlike
  obtain ⟨s', hrun, hlike'⟩ := hstep.runs_construct (hschema ▸ hcounts)
  have hsame : construct ⟨name, []⟩ false false = construct t.schema false false := by
    rw [← hname, ← hschema]
    rfl
  refine ⟨fun hzero => hstep.reopened.2 ?_, s', ?_, hschema, s₀, m, hlike', hstands, hstep⟩
  · rw [← hsaves.size]
    exact hzero
  · rw [hsame, hsaves.poolOf_eq]
    exact hrun

end Table

namespace SqlEngine

variable {e : Engine} {name : ByteString} {t : Table} {s : Store} {f : Fault}

/-- **A table is built on its file.** -/
theorem openTable_stored {sc : Option Schema} (hopen : e.tables name = none)
    (hold : (Pager.open (e.files (name ++ ascii ".db"))).numPages ≠ 0)
    (hrun : (Table.construct ⟨name, []⟩ false false).run (poolOf (e.files (name ++ ascii ".db")))
      = .ok (t, s)) : openTable name sc e = .ok (.ok (), e.put name t s) := by
  unfold openTable
  rw [bind_of_ok (get_apply e), hopen]
  simp only [decide_eq_false hold, Bool.false_eq_true, false_and, if_false, file_open, hrun]
  rfl

/-- **A table is created** in an empty file, or the constructor stops. -/
theorem openTable_new {schema : Schema} (hopen : e.tables name = none)
    (hnew : (e.files (name ++ ascii ".db")).size = 0) :
    openTable name (some schema) e = if schema.Fits then
      .ok (.ok (), e.put name ⟨schema, 1, 512⟩ (Table.metaStore ⟨schema, 1, 512⟩ Table.newHeap))
    else .error (.pages .outOfBounds) := by
  unfold openTable
  rw [bind_of_ok (get_apply e), hopen]
  simp only [reduceCtorEq, and_false, if_false, decide_eq_true (numPages_open hnew), if_true,
    Option.getD_some, file_open, poolOf_of_size hnew]
  by_cases hfit : schema.Fits
  · rw [if_pos hfit, Table.construct_eq_ok.mpr ⟨hfit, rfl, rfl⟩]
    rfl
  · rw [if_neg hfit, Table.construct_of_not_fits hfit]
    rfl

/-- **A table that does not exist** is not opened. -/
theorem openTable_absent (hopen : e.tables name = none)
    (hnew : (e.files (name ++ ascii ".db")).size = 0) :
    openTable name none e = .ok (.error (.runtimeError (ascii "Table '" ++ name
      ++ ascii "' does not exist. Use CREATE TABLE first.")), e) := by
  unfold openTable
  rw [bind_of_ok (get_apply e), hopen]
  simp only [decide_eq_true (numPages_open hnew), true_and, if_true]
  rfl

end SqlEngine

/-! ## The calls -/

open Engine

variable {n : ℕ} {opened : ByteString → Option Schema} {name : ByteString}

/-- **Opening a table** of the engine and of the database. -/
theorem simulates_openTable {sc : Option Schema}
    (hsc : ∀ schema ∈ sc, schema.tableName = name ∧ columnWeight schema.cols ≤ 5 * 60000) :
    Simulates (Represents n (fun _ => none)) Table.NoRoom (Represents n opened)
      (openTable name sc) (Database.openTable name sc)
      (fun _ e d => ∃ schema, Represents n (Function.update opened name (some schema)) e d) := by
  intro e d h
  generalize ho : d name = o
  have hhas := h.has name
  rw [ho] at hhas
  cases hhas with
  | @opened mt t s hopen hname hholds =>
    rw [openTable_of_open hopen, Database.openTable_of_some ho]
    exact ⟨d, rfl, t.schema, h.know hopen⟩
  | closed hopen hhas =>
    cases hhas with
    | @stored mt t s hname hcounts hholds hfile =>
      obtain ⟨hold, s', hrun, hholds'⟩ := hholds.reopen hname hcounts hfile
      rw [openTable_stored hopen hold hrun, Database.openTable_of_some ho]
      have hsame : Function.update d name (some mt) = d := by
        rw [← ho, Function.update_eq_self]
      have h' := h.enter hname hholds' (h.rowids name mt ho) (h.short name mt ho)
      rw [hsame] at h'
      exact ⟨d, rfl, t.schema, h'⟩
    | absent hfile =>
      cases sc with
      | none =>
        rw [openTable_absent hopen hfile, Database.openTable_absent ho]
        exact Or.inr ⟨d, rfl, h.forget⟩
      | some schema =>
        rw [openTable_new hopen hfile, Database.openTable_new ho]
        by_cases hfit : schema.Fits
        · rw [if_pos hfit, if_pos hfit]
          obtain ⟨hname, hweight⟩ := hsc schema rfl
          have hholds : Table.Holds ⟨schema, .empty⟩ ⟨schema, 1, 512⟩ _ := .new hfit
          refine ⟨_, rfl, schema, h.enter hname hholds ?_ ?_⟩
          · have hfew := h.few
            show 1 + n ≤ _
            omega
          · have hlen : schema.serialize.length = columnWeight schema.cols + 1 :=
              schema.length_serialize
            unfold Schema.Fits at hfit
            rw [Nat.mod_eq_of_lt (show schema.serialize.length < 4294967296 by omega)] at hfit
            show columnWeight schema.cols < _
            omega
        · rw [if_neg hfit, if_neg hfit]
          rfl

/-- **A call that only reads** the table. -/
theorem simulates_read {α : Type} {schema : Schema} {m : EngineM α}
    {k : MapTable → Except StdException α × RowMap}
    (hopened : opened name = some schema)
    (hm : ∀ e mt t s, e.tables name = some (t, s) → t.Holds mt s → ∃ s', (k mt).2 = mt.rows
      ∧ m e = .ok ((k mt).1, e.put name t s') ∧ t.Holds mt s') :
    Simulates (Represents n (fun _ => none)) Table.NoRoom (Represents n opened) m
      (Database.onTable name k) (fun _ => Represents n opened) := by
  intro e d h
  obtain ⟨t, s, hopen, -⟩ := h.opened name schema hopened
  obtain ⟨mt, hmt, -, hholds⟩ := h.of_open hopen
  obtain ⟨s', hrows, hrun, hholds'⟩ := hm e mt t s hopen hholds
  rw [hrun, Database.onTable_of_some hmt]
  rw [hrows]
  have h' := h.read hopen hmt hholds'
  rcases (k mt).1 with x | a
  · exact Or.inr ⟨_, rfl, h'.forget⟩
  · exact ⟨_, rfl, h'⟩

/-- **An insertion** of a row read from a statement. -/
theorem simulates_insertRow {schema : Schema} {cols vals : List ByteString} {row : Row}
    (hopened : opened name = some schema) (hrow : insertedRow schema cols vals = .ok row)
    (hvals : bytesOf vals ≤ 60000) :
    Simulates (Represents n (fun _ => none)) Table.NoRoom (Represents (n + 1) opened)
      (SqlEngine.storage.insertRow name row) (Database.storage.insertRow name row)
      (fun _ => Represents n opened) := by
  intro e d h
  obtain ⟨t, s, hopen, hschema⟩ := h.opened name schema hopened
  obtain ⟨mt, hmt, -, hholds⟩ := h.of_open hopen
  obtain rfl : schema = mt.schema := hschema.symm.trans hholds.1
  have hshort := h.short name mt hmt
  have hrowids := h.rowids name mt hmt
  have hlen : (serializeRow mt.schema row).length < 65536 := by
    have htext := textBytes_insertedRow hrow
    have hcols := length_le_columnWeight mt.schema.cols
    have hser : (serializeRow mt.schema row).length ≤ _ := length_serializeRow_le mt.schema.cols row
    omega
  obtain ⟨r, t', s', hrun, hpost⟩ := hholds.insertRow (insertedRow_spec hrow).1 hlen (by omega)
  have hcall := onTable_of_run (m := fun t => t.insertRow row) hopen hrun
  show Alongside _ _ _ ((onTable name (fun t => t.insertRow row) >>= fun r => ofExcept r) e) _
  rw [bind_of_ok hcall, ofExcept_apply]
  rcases hpost with ⟨x, hx, rfl⟩ | ⟨rfl, hholds'⟩
  · exact Or.inl hx
  · refine ⟨_, Database.onTable_of_some hmt, ?_⟩
    refine h.put hopen hmt hholds' (Nat.le_succ n) ?_
    show mt.rows.next + 1 + n ≤ _
    omega

/-- **A deletion by predicate.** -/
theorem simulates_deleteWhere {schema : Schema} {pred : ℕ → Row → Except StdException Bool}
    (hopened : opened name = some schema) :
    Simulates (Represents n (fun _ => none)) Table.NoRoom (Represents n opened)
      (SqlEngine.storage.deleteWhere name pred) (Database.storage.deleteWhere name pred)
      (fun _ => Represents n opened) := by
  intro e d h
  obtain ⟨t, s, hopen, -⟩ := h.opened name schema hopened
  obtain ⟨mt, hmt, -, hholds⟩ := h.of_open hopen
  obtain ⟨r, s', hrun, hpost⟩ := hholds.deleteWhere pred
  have hcall := readTable_of_run (m := fun t => t.deleteWhere pred) hopen hrun
  show Alongside _ _ _ ((readTable name (fun t => t.deleteWhere pred) >>= fun r => ofExcept r) e)
    (Database.onTable name _ d)
  rw [bind_of_ok hcall, ofExcept_apply, Database.onTable_of_some hmt]
  rcases hpost with ⟨x, hx, rfl, hholds'⟩ | ⟨rids, hrids, rfl, hholds'⟩
  · rw [hx]
    exact Or.inr ⟨_, rfl, (h.read hopen hmt hholds').forget⟩
  · rw [hrids]
    refine ⟨_, rfl, h.put hopen hmt hholds' le_rfl ?_⟩
    rw [Table.next_deleteAll]
    exact h.rowids name mt hmt

/-- **The database of maps mimics the engine.** -/
theorem mimics_database :
    SqlEngine.storage.Mimics Database.storage Table.NoRoom 60000 (fun _ => True) Represents where
  spend := Represents.spend
  forget := Represents.forget
  openTable _ _ _ _ _ hsc := simulates_openTable hsc
  schemaOf n opened name schema hopened e d h := by
    obtain ⟨t, s, hopen, hschema⟩ := h.opened name schema hopened
    obtain ⟨mt, hmt, -, hholds⟩ := h.of_open hopen
    have hsame : Function.update d name (some mt) = d := by
      rw [← hmt, Function.update_eq_self]
    show Alongside _ _ _ (schemaOf name e) (Database.onTable name _ d)
    rw [schemaOf_of_open hopen, Database.onTable_of_some hmt, hsame]
    exact ⟨d, by rw [hholds.1], hschema, h⟩
  insertRow _ _ _ _ _ _ _ hopened hrow hvals := simulates_insertRow hopened hrow hvals
  findByRowid n opened name schema rowid hopened hrowid := by
    refine simulates_read hopened (fun e mt t s hopen hholds => ?_)
    obtain ⟨s', hrun, hholds'⟩ := hholds.findByRowid hrowid
    exact ⟨s', rfl, readTable_of_run hopen hrun, hholds'⟩
  scan n opened name schema β cb st hopened := by
    refine simulates_read hopened (fun e mt t s hopen hholds => ?_)
    obtain ⟨s', hrun, hholds'⟩ := hholds.scan cb st
    refine ⟨s', rfl, ?_, hholds'⟩
    show (readTable name (fun t => t.scan cb st) >>= fun r => ofExcept r) e = _
    rw [bind_of_ok (readTable_of_run hopen hrun), ofExcept_apply]
  deleteWhere _ _ _ _ _ hopened := simulates_deleteWhere hopened

/-! ## Statements -/

/-- **Statements executed one after the other**: their answers up to where one
stops, and the engine that is left. -/
abbrev SqlEngine.execAll : List ByteString → Engine → List ByteString × Except EngineFault Engine :=
  runAll SqlEngine.exec

/-- **Statements over the maps.** -/
abbrev Database.execAll : List ByteString → Database →
    List ByteString × Except EngineFault Database :=
  runAll Database.storage.exec

/-- **An answer for lack of room.** -/
def OutOfRoom (answer : ByteString) : Prop :=
  ∃ x, Table.NoRoom x ∧ answer = ascii "Error: " ++ what x

theorem outOfRoom_iff {answer : ByteString} : OutOfRoom answer
    ↔ answer = ascii "Error: out of heap pages" ∨ answer = ascii "Error: slot insert failed" := by
  constructor
  · rintro ⟨x, rfl | rfl, rfl⟩
    · exact Or.inl (by decide)
    · exact Or.inr (by decide)
  · rintro (rfl | rfl)
    · exact ⟨_, Or.inl rfl, by decide⟩
    · exact ⟨_, Or.inr rfl, by decide⟩

instance (answer : ByteString) : Decidable (OutOfRoom answer) :=
  decidable_of_iff _ outOfRoom_iff.symm

/-- **Statements have the answers they have on maps**, as long as no insertion
finds no room. -/
theorem execAll_eq_database {sqls : List ByteString} {e : Engine} {d : Database}
    (hlen : ∀ sql ∈ sqls, sql.length ≤ 60000) (h : e.Represents (n + sqls.length) (fun _ => none) d)
    (hroom : ∀ answer ∈ (SqlEngine.execAll sqls e).1, ¬ OutOfRoom answer) :
    (Database.execAll sqls d).1 = (SqlEngine.execAll sqls e).1
      ∧ EndAlike (Represents n (fun _ => none)) (SqlEngine.execAll sqls e).2
        (Database.execAll sqls d).2 := by
  refine runAll_eq (I := fun sql => sql.length ≤ 60000) (B := OutOfRoom)
    (R := fun n => Represents n (fun _ => none)) (fun n sql e d hok hR => ?_)
    sqls n e d hlen h hroom
  have hstep := mimics_database.stepAlike_exec hok (fun _ _ => trivial) hR
  rw [storage_exec] at hstep
  exact hstep
