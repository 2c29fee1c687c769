import SqlMini.DatabaseRefinement
import SqlMini.FileSystem

/-!
# The engine over its pools

The engine as it runs on a file system: each table has a handle with a pool on
the file that its name leads to, and the destructor of the engine destroys the
tables and flushes the pools. `PooledEngine.storageWith` makes the calls of the
executors over pools of any size, which drop pages, write them back and read
them again. The engine's own pools have 256 pages (`PooledEngine.storage`).

None of it shows where the names of the tables have files of their own
(`sessions_on_files`): statements that are given to one engine after another,
each destroyed before the next is built on the files, have the answers that they
have on a database of maps. An insertion that finds no room is the first thing
that could tell the difference, and tables with more columns or longer names
than a byte counts are not there after the engine was destroyed.
-/

open SqlEngine Routine PageProg

/-- **A handle**: a table and its pool, which has the pager. -/
structure TableHandle where
  /-- The key in `tables_`. -/
  name : ByteString
  /-- The file that the pager has open. -/
  file : ByteString
  /-- `table`. -/
  table : Table
  /-- `pool`. -/
  pool : BufferPool

/-- **The engine over its pools.** -/
structure PooledEngine where
  /-- `tables_`. -/
  tables : List TableHandle
  /-- The files, each as it was when no handle had it open. -/
  files : ByteString → PageFile

namespace PooledEngine

variable {α β : Type}

/-- The pages that a pool of the engine has room for. -/
abbrev maxPages : ℕ := 256

/-- `tables_.find`. -/
def find (p : PooledEngine) (name : ByteString) : Option TableHandle :=
  p.tables.find? (fun h => h.name = name)

/-- The engine after a call on the table of that name. -/
def put (p : PooledEngine) (name : ByteString) (t : Table) (pool : BufferPool) : PooledEngine :=
  { p with
    tables := p.tables.map
      (fun h => if h.name = name then { h with table := t, pool := pool } else h) }

/-- What `open_table` does with a file, with pools of some size. -/
def openFile (frames : ℕ) (name file : ByteString) (schemaIfCreate : Option Schema) :
    StorageM PooledEngine Unit := fun p =>
  let pager := Pager.open (p.files file)
  let pool := BufferPool.create pager frames
  let isNew : Bool := pager.numPages = 0
  if isNew ∧ schemaIfCreate = none then
    .ok (.error (.runtimeError (ascii "Table '" ++ name
      ++ ascii "' does not exist. Use CREATE TABLE first.")), p)
  else
    let schema := if isNew then schemaIfCreate.getD default else ⟨name, []⟩
    match (Table.construct schema isNew isNew).runPool pool with
    | .error f => .error (.pages f)
    | .ok (t, pool) => .ok (.ok (), { p with tables := ⟨name, file, t, pool⟩ :: p.tables })

/-- `open_table`. A path that does not open, or whose file another handle has
open, goes beyond the model. -/
def openTable (fs : FileSystem) (frames : ℕ) (name : ByteString)
    (schemaIfCreate : Option Schema) : StorageM PooledEngine Unit := fun p =>
  match p.find name with
  | some _ => .ok (.ok (), p)
  | none =>
    match fs.dbFile name with
    | none => .error .fileSystem
    | some file =>
      if p.tables.any (fun h => h.file = file) then .error .fileSystem
      else openFile frames name file schemaIfCreate p

/-- A call on the table of that name. -/
def onTable (name : ByteString) (m : Table → PageProg (α × Table)) : StorageM PooledEngine α :=
  fun p =>
    match p.find name with
    | none => .error (.pages .danglingPointer)
    | some h =>
      match (m h.table).runPool h.pool with
      | .error f => .error (.pages f)
      | .ok ((a, t), pool) => .ok (.ok a, p.put name t pool)

/-- A call that leaves the fields of the table alone. -/
def readTable (name : ByteString) (m : Table → PageProg α) : StorageM PooledEngine α :=
  onTable name (fun t => do return (← m t, t))

/-- **The engine over pools of some size as a storage.** -/
def storageWith (fs : FileSystem) (frames : ℕ) : Storage PooledEngine where
  openTable := openTable fs frames
  schemaOf name p :=
    match p.find name with
    | none => .error (.pages .danglingPointer)
    | some h => .ok (.ok h.table.schema, p)
  insertRow name row := do
    let r ← onTable name (fun t => t.insertRow row)
    ofExcept r
  findByRowid name rowid := readTable name (fun t => t.findByRowid rowid)
  scan name cb st := do
    let r ← readTable name (fun t => t.scan cb st)
    ofExcept r
  deleteWhere name pred := do
    let r ← readTable name (fun t => t.deleteWhere pred)
    ofExcept r

/-- **The engine over its pools as a storage.** -/
abbrev storage (fs : FileSystem) : Storage PooledEngine := storageWith fs maxPages

/-- **`SQLEngine::~SQLEngine`**: each table is destroyed, then its pool, then
its pager. What is left are the files. -/
def destroy : List TableHandle → (ByteString → PageFile) →
    Except EngineFault (ByteString → PageFile)
  | [], files => .ok files
  | h :: hs, files =>
    match h.table.destruct.runPool h.pool with
    | .error f => .error (.pages f)
    | .ok (_, pool) => destroy hs (Function.update files h.file pool.flushAll.pager.file)

/-- **A session**: an engine is built, given statements, and destroyed. The
answers, and the files that are left unless something stopped. -/
def session (fs : FileSystem) (sqls : List ByteString) (files : ByteString → PageFile) :
    List ByteString × Except EngineFault (ByteString → PageFile) :=
  let r := runAll (storage fs).exec sqls ⟨[], files⟩
  (r.1, match r.2 with
    | .error f => .error f
    | .ok p => destroy p.tables p.files)

/-- **Sessions**, one after the other on the same files, up to one that
stops. -/
def sessions (fs : FileSystem) : List (List ByteString) → (ByteString → PageFile) →
    List ByteString × Except EngineFault (ByteString → PageFile)
  | [], files => ([], .ok files)
  | sqls :: rest, files =>
    match session fs sqls files with
    | (answers, .error f) => (answers, .error f)
    | (answers, .ok files) => (answers ++ (sessions fs rest files).1, (sessions fs rest files).2)

end PooledEngine

/-! ## A pool and the array of its pages -/

/-- **A pool between two calls** holds an array of pages, and every page
written is marked. -/
def Rests (frames : ℕ) (s : Store) (pool : BufferPool) : Prop := ∃ h, Sim frames h ∅ s pool

section Rests

variable {α : Type} {frames : ℕ} {m : PageProg α} {s : Store} {pool : BufferPool}

theorem rests_create (f : PageFile) :
    Rests frames (poolOf f) (.create (.open f) frames) := ⟨_, sim_create f _⟩

/-- **A tidy program** does over a pool what it does over the array. -/
theorem Rests.runs (h : Rests frames s pool) (hframes : 1 ≤ frames) (hm : Tidy frames m) :
    (∃ f, m.run s = .error f ∧ m.runPool pool = .error f)
      ∨ ∃ a s' pool', m.run s = .ok (a, s') ∧ m.runPool pool = .ok (a, pool')
        ∧ Rests frames s' pool' := by
  obtain ⟨hold, hsim⟩ := h
  rcases ((hm hold).simulates hframes hsim).2 with
    hf | ⟨a, s', pool', h', U, hrun, hpool, hsim', rfl⟩
  · exact Or.inl hf
  · exact Or.inr ⟨a, s', pool', hrun, hpool, h', hsim'⟩

/-- **A pool that is flushed** leaves the array in its file. -/
theorem Rests.saves (h : Rests frames s pool) : pool.flushAll.pager.file.Saves s := by
  obtain ⟨hold, hsim⟩ := h
  exact ⟨funext fun p => hsim.holds.content_flushAll_of_not (Set.notMem_empty p), hsim.savedSize⟩

end Rests

/-! ## The two engines -/

/-- A table with the array of its pages, and a handle with a pool. -/
inductive SameTable (frames : ℕ) : Option (Table × Store) → Option TableHandle → Prop
  | none : SameTable frames none none
  | some {h : TableHandle} {s : Store} (hrests : Rests frames s h.pool) :
      SameTable frames (some (h.table, s)) (some h)

/-- **The engine over its pools mirrors the engine** over the arrays of the
pages, with the tables in `opened` open. The names of tables are in `S`. -/
structure Mirrors (fs : FileSystem) (S : ByteString → Prop) (frames : ℕ)
    (opened : ByteString → Option Schema) (e : Engine) (p : PooledEngine) : Prop where
  files : e.files = fs.view S p.files
  tables : ∀ name, SameTable frames (e.tables name) (p.find name)
  names : (p.tables.map TableHandle.name).Nodup
  /-- Each handle has the file of its name open. -/
  handles : ∀ h ∈ p.tables, S h.name ∧ fs.dbFile h.name = some h.file
  opened : ∀ name schema, opened name = some schema →
    ∃ t s, e.tables name = some (t, s) ∧ t.schema = schema

namespace PooledEngine

variable {p : PooledEngine} {name other : ByteString} {t : Table} {pool : BufferPool}
  {h : TableHandle}

theorem find_name (hfind : p.find name = some h) : h.name = name := by
  simpa using List.find?_some hfind

/-- A handle after a call keeps its name, -/
theorem name_replaced (h : TableHandle) (name : ByteString) (t : Table) (pool : BufferPool) :
    (if h.name = name then { h with table := t, pool := pool } else h).name = h.name := by
  split <;> rfl

/-- and its file. -/
theorem file_replaced (h : TableHandle) (name : ByteString) (t : Table) (pool : BufferPool) :
    (if h.name = name then { h with table := t, pool := pool } else h).file = h.file := by
  split <;> rfl

/-- The names of the handles tell them apart. -/
theorem find_of_mem (hnodup : (p.tables.map TableHandle.name).Nodup) (hmem : h ∈ p.tables) :
    p.find h.name = some h := by
  unfold find
  generalize p.tables = hs at hnodup hmem
  induction hs with
  | nil => cases hmem
  | cons h' hs ih =>
    obtain ⟨hnot, hnodup⟩ := List.nodup_cons.mp hnodup
    rcases List.mem_cons.mp hmem with rfl | hmem
    · exact List.find?_cons_of_pos (decide_eq_true rfl)
    · have hne : h'.name ≠ h.name := fun heq => hnot (heq ▸ List.mem_map_of_mem hmem)
      rw [List.find?_cons_of_neg (by simpa using hne)]
      exact ih hnodup hmem

theorem find_put (p : PooledEngine) (name other : ByteString) (t : Table) (pool : BufferPool) :
    (p.put name t pool).find other
      = (p.find other).map
        (fun h => if h.name = name then { h with table := t, pool := pool } else h) := by
  unfold find put
  rw [List.find?_map]
  congr 2
  funext h
  exact decide_eq_decide.mpr (by rw [name_replaced])

/-- The table of a call is replaced. -/
theorem find_put_self (hfind : p.find name = some h) :
    (p.put name t pool).find name = some { h with table := t, pool := pool } := by
  rw [find_put, hfind, Option.map_some, if_pos (find_name hfind)]

/-- The others stay. -/
theorem find_put_of_ne (hne : other ≠ name) : (p.put name t pool).find other = p.find other := by
  rw [find_put]
  cases hfind : p.find other with
  | none => rfl
  | some h => rw [Option.map_some, if_neg (by rw [find_name hfind]; exact hne)]

/-- A handle found after another was added. -/
theorem find_cons {h' : TableHandle}
    (hfind : find { p with tables := h' :: p.tables } other = some h) :
    h = h' ∨ p.find other = some h := by
  by_cases hname : h'.name = other
  · refine Or.inl (Option.some.inj (hfind.symm.trans ?_))
    exact List.find?_cons_of_pos (decide_eq_true hname)
  · refine Or.inr (Eq.trans ?_ hfind)
    exact (List.find?_cons_of_neg (by simpa using hname)).symm

/-- **What opening a table does**: nothing, or a handle is added with the file of
the name. -/
theorem openTable_cases {fs : FileSystem} {frames : ℕ} {sc : Option Schema}
    {r : Except StdException Unit} {p' : PooledEngine}
    (hrun : openTable fs frames name sc p = .ok (r, p')) :
    p' = p ∨ ∃ file schema, ∃ isNew : Bool, ∃ t pool, fs.dbFile name = some file
      ∧ (isNew = true ↔ (Pager.open (p.files file)).numPages = 0)
      ∧ ¬ (isNew = true ∧ sc = none)
      ∧ (Table.construct schema isNew isNew).runPool (.create (.open (p.files file)) frames)
        = .ok (t, pool)
      ∧ p' = { p with tables := ⟨name, file, t, pool⟩ :: p.tables } := by
  unfold openTable at hrun
  cases hfind : p.find name with
  | some h =>
    rw [hfind] at hrun
    exact Or.inl (Prod.mk.inj (Except.ok.inj hrun)).2.symm
  | none =>
    rw [hfind] at hrun
    cases hfile : fs.dbFile name with
    | none =>
      rw [hfile] at hrun
      cases hrun
    | some file =>
      rw [hfile] at hrun
      simp only at hrun
      split at hrun
      case isTrue => cases hrun
      case isFalse =>
        unfold openFile at hrun
        simp only at hrun
        have hnew := decide_eq_true_iff (p := (Pager.open (p.files file)).numPages = 0)
        generalize decide ((Pager.open (p.files file)).numPages = 0) = isNew at hnew hrun
        split at hrun
        case isTrue => exact Or.inl (Prod.mk.inj (Except.ok.inj hrun)).2.symm
        case isFalse hopens =>
          rcases hm : (Table.construct _ isNew isNew).runPool _ with fault | ⟨t, pool⟩
          · rw [hm] at hrun
            cases hrun
          · rw [hm] at hrun
            obtain ⟨-, rfl⟩ := Prod.mk.inj (Except.ok.inj hrun)
            exact Or.inr ⟨file, _, isNew, t, pool, rfl, hnew, hopens, hm, rfl⟩

/-- **What a call on a table does**: the handle of the name gets another table
and another pool. -/
theorem onTable_cases {m : Table → PageProg (α × Table)} {r : Except StdException α}
    {p' : PooledEngine} (hrun : onTable name m p = .ok (r, p')) :
    ∃ h a t pool, p.find name = some h ∧ (m h.table).runPool h.pool = .ok ((a, t), pool)
      ∧ p' = p.put name t pool := by
  unfold onTable at hrun
  cases hfind : p.find name with
  | none =>
    rw [hfind] at hrun
    cases hrun
  | some h =>
    rw [hfind] at hrun
    rcases hpool : (m h.table).runPool h.pool with fault | ⟨⟨a, t⟩, pool⟩
    · simp only [hpool] at hrun
      cases hrun
    · simp only [hpool] at hrun
      exact ⟨h, a, t, pool, rfl, hpool, (Prod.mk.inj (Except.ok.inj hrun)).2.symm⟩

/-- The schema is only read. -/
theorem schemaOf_unchanged {fs : FileSystem} {frames : ℕ} {r : Except StdException Schema}
    {p' : PooledEngine} (hrun : (storageWith fs frames).schemaOf name p = .ok (r, p')) :
    p = p' := by
  unfold storageWith at hrun
  cases hfind : p.find name with
  | none =>
    simp only [hfind] at hrun
    cases hrun
  | some h =>
    simp only [hfind] at hrun
    exact (Prod.mk.inj (Except.ok.inj hrun)).2

theorem names_put : (p.put name t pool).tables.map TableHandle.name
    = p.tables.map TableHandle.name := by
  unfold put
  rw [List.map_map]
  exact List.map_congr_left (fun h _ => name_replaced h name t pool)

end PooledEngine

namespace Mirrors

variable {frames : ℕ} {opened : ByteString → Option Schema} {e : Engine} {p : PooledEngine}
  {fs : FileSystem} {S : ByteString → Prop} {name file : ByteString} {t : Table} {s : Store}
  {pool : BufferPool}

theorem forget (h : Mirrors fs S frames opened e p) : Mirrors fs S frames (fun _ => none) e p :=
  ⟨h.files, h.tables, h.names, h.handles, fun _ _ ho => by cases ho⟩

/-- After a call on a table. -/
theorem put (h : Mirrors fs S frames opened e p) {t₀ : Table} {s₀ : Store}
    (hopen : e.tables name = some (t₀, s₀)) (hschema : t.schema = t₀.schema)
    (hrests : Rests frames s pool) :
    Mirrors fs S frames opened (e.put name t s) (p.put name t pool) where
  files := h.files
  tables other := by
    by_cases hne : other = name
    · subst hne
      have hsame := h.tables other
      rw [hopen] at hsame
      generalize hfind : p.find other = o at hsame
      cases hsame with
      | @some hd _ hrests₀ =>
        rw [put_tables_self, PooledEngine.find_put_self hfind]
        exact SameTable.some (h := { hd with table := t, pool := pool }) hrests
    · rw [put_tables_of_ne hne, PooledEngine.find_put_of_ne hne]
      exact h.tables other
  names := by
    rw [PooledEngine.names_put]
    exact h.names
  handles hd hmem := by
    obtain ⟨hd₀, hmem₀, rfl⟩ : ∃ hd₀ ∈ p.tables,
        (if hd₀.name = name then { hd₀ with table := t, pool := pool } else hd₀) = hd :=
      List.mem_map.mp hmem
    rw [PooledEngine.name_replaced, PooledEngine.file_replaced]
    exact h.handles hd₀ hmem₀
  opened other schema ho := by
    obtain ⟨t₁, s₁, hopen₁, hschema₁⟩ := h.opened other schema ho
    by_cases hne : other = name
    · subst hne
      obtain ⟨rfl, rfl⟩ := Prod.mk.inj (Option.some.inj (hopen.symm.trans hopen₁))
      exact ⟨t, s, put_tables_self, hschema.trans hschema₁⟩
    · exact ⟨t₁, s₁, (put_tables_of_ne hne).trans hopen₁, hschema₁⟩

/-- After a table was opened. -/
theorem enter (h : Mirrors fs S frames opened e p) (hopen : e.tables name = none) (hS : S name)
    (hfile : fs.dbFile name = some file) (hrests : Rests frames s pool) :
    Mirrors fs S frames (Function.update opened name (some t.schema)) (e.put name t s)
      { p with tables := ⟨name, file, t, pool⟩ :: p.tables } where
  files := h.files
  tables other := by
    by_cases hne : other = name
    · subst hne
      have hfind : PooledEngine.find { p with tables := ⟨other, file, t, pool⟩ :: p.tables } other
          = some ⟨other, file, t, pool⟩ := List.find?_cons_of_pos (decide_eq_true rfl)
      rw [put_tables_self, hfind]
      exact SameTable.some (h := ⟨other, file, t, pool⟩) hrests
    · have hfind : PooledEngine.find { p with tables := ⟨name, file, t, pool⟩ :: p.tables } other
          = p.find other := List.find?_cons_of_neg (by simpa using Ne.symm hne)
      rw [put_tables_of_ne hne, hfind]
      exact h.tables other
  names := by
    refine List.nodup_cons.mpr ⟨fun hmem => ?_, h.names⟩
    obtain ⟨hd, hhd, hname⟩ := List.mem_map.mp hmem
    have hsame := h.tables name
    rw [hopen] at hsame
    generalize hfind : p.find name = o at hsame
    cases hsame with
    | none => exact absurd (decide_eq_true hname) (List.find?_eq_none.mp hfind hd hhd)
  handles hd hmem := by
    rcases List.mem_cons.mp hmem with rfl | hmem
    · exact ⟨hS, hfile⟩
    · exact h.handles hd hmem
  opened other schema ho := by
    by_cases hne : other = name
    · rw [hne, Function.update_self] at ho
      exact ⟨t, s, hne ▸ put_tables_self, Option.some.inj ho⟩
    · rw [Function.update_of_ne hne] at ho
      obtain ⟨t₁, s₁, hopen₁, hschema⟩ := h.opened other schema ho
      exact ⟨t₁, s₁, (put_tables_of_ne hne).trans hopen₁, hschema⟩

/-- **A file is open once**: names that are not open have another one. -/
theorem file_ne (h : Mirrors fs S frames opened e p) (hsep : fs.Separates S) (hS : S name)
    (hfile : fs.dbFile name = some file) (hfind : p.find name = none) :
    ∀ hd ∈ p.tables, hd.file ≠ file := by
  rintro hd hmem rfl
  obtain ⟨hS', hfile'⟩ := h.handles hd hmem
  have hname : hd.name = name := hsep.apart _ _ _ hS' hS hfile' hfile
  exact List.find?_eq_none.mp hfind hd hmem (decide_eq_true hname)

end Mirrors

/-! ## The calls -/

section Calls

variable {α : Type} {frames : ℕ} {opened : ByteString → Option Schema} {name : ByteString}
  {X : StdException → Prop} {fs : FileSystem} {S : ByteString → Prop}

/-- A constructor leaves the name of the table to its argument. -/
theorem simulates_openTable_pooled {sc : Option Schema} (hframes : 1 ≤ frames)
    (hsep : fs.Separates S) (hS : S name) :
    Simulates (Mirrors fs S frames (fun _ => none)) X (Mirrors fs S frames opened)
      (openTable name sc)
      (PooledEngine.openTable fs frames name sc)
      (fun _ e p => ∃ schema,
        Mirrors fs S frames (Function.update opened name (some schema)) e p) := by
  intro e p h
  have hsame := h.tables name
  generalize hfind : p.find name = o at hsame
  generalize hopen : e.tables name = o' at hsame
  cases hsame with
  | @some hd s hrests =>
    rw [openTable_of_open hopen, PooledEngine.openTable, hfind]
    refine ⟨p, rfl, hd.table.schema, h.files, h.tables, h.names, h.handles,
      fun other schema ho => ?_⟩
    by_cases hne : other = name
    · rw [hne, Function.update_self] at ho
      exact ⟨hd.table, s, hne ▸ hopen, Option.some.inj ho⟩
    · rw [Function.update_of_ne hne] at ho
      exact h.opened other schema ho
  | none =>
    obtain ⟨file, hfile⟩ := hsep.opens name hS
    have hfiles : e.files (name ++ ascii ".db") = p.files file := by
      rw [h.files]
      exact FileSystem.view_of_mem hS hfile
    have hclosed : ¬ p.tables.any (fun h => h.file = file) = true := by
      rw [List.any_eq_true]
      rintro ⟨hd, hmem, heq⟩
      exact h.file_ne hsep hS hfile hfind hd hmem (of_decide_eq_true heq)
    unfold openTable PooledEngine.openTable
    rw [bind_of_ok (get_apply e), hopen, hfind, hfile, hfiles]
    simp only
    rw [if_neg hclosed, PooledEngine.openFile]
    simp only
    split
    case isTrue hno => exact Or.inr ⟨p, rfl, h.forget⟩
    case isFalse hyes =>
      rw [file_open]
      generalize hm : Table.construct _ _ _ = m
      have htidy : Tidy frames m := hm ▸ Table.tidy_construct _ _ _
      rcases (rests_create (p.files file)).runs hframes htidy with
        ⟨f, hrun, hpool⟩ | ⟨t, s, pool, hrun, hpool, hrests⟩
      · rw [hrun, hpool]
        rfl
      · rw [hrun, hpool]
        exact ⟨_, rfl, t.schema, h.enter hopen hS hfile hrests⟩

/-- **A call** on the table of a name. -/
theorem simulates_onTable_pooled {m : Table → PageProg (α × Table)} (hframes : 1 ≤ frames)
    (hm : ∀ t, Tidy frames (m t))
    (hschema : ∀ t s, Always (m t) s (fun r _ => r.2.schema = t.schema)) :
    Simulates (Mirrors fs S frames (fun _ => none)) X (Mirrors fs S frames opened) (onTable name m)
      (PooledEngine.onTable name m) (fun _ => Mirrors fs S frames opened) := by
  intro e p h
  have hsame := h.tables name
  generalize hfind : p.find name = o at hsame
  generalize hopen : e.tables name = o' at hsame
  cases hsame with
  | none =>
    unfold onTable PooledEngine.onTable
    rw [hopen, hfind]
    rfl
  | @some hd s hrests =>
    unfold PooledEngine.onTable
    rw [hfind]
    rcases hrests.runs hframes (hm hd.table) with
      ⟨f, hrun, hpool⟩ | ⟨⟨a, t⟩, s', pool, hrun, hpool, hrests'⟩
    · rw [onTable_of_fault hopen hrun]
      simp only [hpool]
      rfl
    · rw [onTable_of_run hopen hrun]
      simp only [hpool]
      exact ⟨_, rfl, h.put hopen (hschema _ _ _ _ hrun) hrests'⟩

/-- A call that leaves the fields of the table alone. -/
theorem simulates_readTable_pooled {m : Table → PageProg α} (hframes : 1 ≤ frames)
    (hm : ∀ t, Tidy frames (m t)) :
    Simulates (Mirrors fs S frames (fun _ => none)) X (Mirrors fs S frames opened)
      (readTable name m)
      (PooledEngine.readTable name m) (fun _ => Mirrors fs S frames opened) :=
  simulates_onTable_pooled hframes (fun t => (hm t).bind (fun _ => tidy_pure _))
    (fun t _ => Always.bind (fun a _ _ => ((runs_pure (a, t)).mpr rfl).always))

/-- A call that returns an exception, and throws it. -/
theorem Routine.Simulates.thrown {m : EngineM (Except StdException α)}
    {m' : StorageM PooledEngine (Except StdException α)}
    (h : Simulates (Mirrors fs S frames (fun _ => none)) X (Mirrors fs S frames opened) m m'
      (fun _ => Mirrors fs S frames opened)) :
    Simulates (Mirrors fs S frames (fun _ => none)) X (Mirrors fs S frames opened)
      (do let r ← m; ofExcept r)
      (do let r ← m'; ofExcept r) (fun _ => Mirrors fs S frames opened) :=
  h.bind (fun _ => simulates_ofExcept (fun _ _ => Mirrors.forget) (fun _ _ _ _ => id))

/-- **The engine over its pools mimics the engine.** An insertion needs three
pages in memory at once. -/
theorem mimics_pooled (hframes : 3 ≤ frames) (hsep : fs.Separates S) (L : ℕ) :
    SqlEngine.storage.Mimics (PooledEngine.storageWith fs frames) X L S
      (fun _ => Mirrors fs S frames) where
  spend := id
  forget := Mirrors.forget
  openTable _ _ _ _ hS _ := simulates_openTable_pooled (by omega : 1 ≤ frames) hsep hS
  schemaOf _ opened name schema hopened e p h := by
    obtain ⟨t, s, hopen, hschema⟩ := h.opened name schema hopened
    have hsame := h.tables name
    rw [hopen] at hsame
    show Alongside _ _ _ (schemaOf name e) (match p.find name with
      | none => .error (.pages .danglingPointer)
      | some h => .ok (.ok h.table.schema, p))
    rw [schemaOf_of_open hopen]
    generalize hfind : p.find name = o at hsame ⊢
    cases hsame with
    | some hrests => exact ⟨p, rfl, hschema, h⟩
  insertRow _ _ _ _ _ _ _ _ _ _ := (simulates_onTable_pooled (by omega : 1 ≤ frames)
    (fun _ => Table.tidy_insertRow _ hframes)
    (fun _ _ => Table.always_insertRow_stored.mono (fun _ _ h => h.1))).thrown
  findByRowid _ _ _ _ _ _ _ := simulates_readTable_pooled (by omega : 1 ≤ frames)
    (fun _ => Table.tidy_findByRowid _)
  scan _ _ _ _ _ _ _ _ := (simulates_readTable_pooled (by omega : 1 ≤ frames)
    (fun _ => Table.tidy_scan _ _)).thrown
  deleteWhere _ _ _ _ _ _ := (simulates_readTable_pooled (by omega : 1 ≤ frames)
    (fun _ => Table.tidy_deleteWhere _)).thrown

end Calls

/-! ## Statements -/

section Statements

variable {fs : FileSystem} {S : ByteString → Prop} {frames : ℕ} {sqls : List ByteString}
  {e : Engine} {p : PooledEngine}

/-- **Statements of tables in `S`**, over a storage that mimics the engine on
these without exception. -/
theorem execAll_eq_of_mimics {τ : Type} {b : Storage τ}
    {R : (ByteString → Option Schema) → Engine → τ → Prop}
    (hmimics : ∀ L, SqlEngine.storage.Mimics b (fun _ => False) L S (fun _ => R))
    (hconcerns : ∀ sql ∈ sqls, Concerns S sql) {s : τ} (h : R (fun _ => none) e s) :
    (runAll b.exec sqls s).1 = (SqlEngine.execAll sqls e).1
      ∧ EndAlike (R (fun _ => none)) (SqlEngine.execAll sqls e).2 (runAll b.exec sqls s).2 := by
  refine runAll_eq (I := Concerns S) (B := fun _ => False) (R := fun _ => R (fun _ => none))
    (fun n sql e s hS hR => ?_) sqls 0 e s hconcerns h (fun _ _ => id)
  have hstep := (hmimics sql.length).stepAlike_exec (n := n) le_rfl hS hR
  rw [storage_exec] at hstep
  rcases hexec : SqlEngine.exec sql e with f | ⟨text, e'⟩
  · rw [hexec] at hstep
    exact hstep
  · rw [hexec] at hstep
    rcases hstep with ⟨x, hx, -⟩ | hok
    · exact hx.elim
    · exact Or.inr hok

/-- **The pools do not show**: any statements have the same answers over the
pools as over the arrays of the pages, and stop with the same fault. -/
theorem execAll_eq_pooled (hframes : 3 ≤ frames) (hsep : fs.Separates S)
    (hconcerns : ∀ sql ∈ sqls, Concerns S sql) (h : Mirrors fs S frames (fun _ => none) e p) :
    (runAll (PooledEngine.storageWith fs frames).exec sqls p).1 = (SqlEngine.execAll sqls e).1
      ∧ EndAlike (Mirrors fs S frames (fun _ => none)) (SqlEngine.execAll sqls e).2
        (runAll (PooledEngine.storageWith fs frames).exec sqls p).2 :=
  execAll_eq_of_mimics (mimics_pooled hframes hsep) hconcerns h

theorem mirrors_new (fs : FileSystem) (S : ByteString → Prop) (frames : ℕ)
    (files : ByteString → PageFile) :
    Mirrors fs S frames (fun _ => none) ⟨fun _ => none, fs.view S files⟩ ⟨[], files⟩ :=
  ⟨rfl, fun _ => .none, List.nodup_nil, nofun, fun _ _ ho => by cases ho⟩

end Statements

/-! ## The destructor -/

/-- **A database whose tables survive**: their counts of columns and of bytes
of names are bytes. -/
def Database.Storable (d : Database) : Prop :=
  ∀ name mt, d name = some mt → Table.ByteCounts mt.schema.cols

/-- **Files that have the tables of a database.** -/
def Stores (files : ByteString → PageFile) (d : Database) : Prop :=
  ∀ name, (files (name ++ ascii ".db")).HasTable name (d name)

theorem stores_empty : Stores (fun _ => .empty) Database.empty := fun _ => .absent rfl

section Destroy

variable {fs : FileSystem} {S : ByteString → Prop} {frames : ℕ} {d : Database} {mt : MapTable}
  {h : TableHandle} {s : Store}

/-- **A table and its pool destroyed** leave the pages in the file. -/
theorem exists_destruct (hframes : 1 ≤ frames) (hrests : Rests frames s h.pool)
    (hname : mt.schema.tableName = h.name) (hcounts : Table.ByteCounts mt.schema.cols)
    (hholds : h.table.Holds mt s) :
    ∃ pool, h.table.destruct.runPool h.pool = .ok ((), pool)
      ∧ pool.flushAll.pager.file.HasTable h.name (some mt) := by
  obtain ⟨hschema, s₀, m, hlike, hstands, hstep⟩ := hholds
  obtain ⟨s₁, hrun₀, hlike₀⟩ := hstep.runs_destruct
  obtain ⟨s₂, hrun, hlike₁⟩ := (Table.blind_destruct h.table).run_like hlike hrun₀
  have htidy : Tidy frames h.table.destruct :=
    Table.tidy_writeMeta.bind (fun _ _ => safe_flushAll rfl)
  rcases hrests.runs hframes htidy with ⟨f, hf, -⟩ | ⟨a, s', pool, hrun', hpool, hrests'⟩
  · cases hrun.symm.trans hf
  · obtain ⟨-, rfl⟩ := Prod.mk.inj (Except.ok.inj (hrun.symm.trans hrun'))
    have hholds' : h.table.Holds mt s₂ :=
      ⟨hschema, s₀, m, hlike₀.trans hlike₁, hstands, hstep⟩
    exact ⟨pool, hpool, .stored hname hcounts hholds' hrests'.saves⟩

/-- **The destructor** leaves the tables of the database in the files, in
whatever order it takes them. -/
theorem exists_destroy_tables (hframes : 1 ≤ frames) (hsep : fs.Separates S)
    (hstore : d.Storable) :
    ∀ (hs : List TableHandle) (files : ByteString → PageFile), (hs.map TableHandle.name).Nodup →
    (∀ h ∈ hs, S h.name ∧ fs.dbFile h.name = some h.file) →
    (∀ h ∈ hs, ∃ mt s, d h.name = some mt ∧ mt.schema.tableName = h.name ∧ h.table.Holds mt s
      ∧ Rests frames s h.pool) →
    (∀ name, (∀ h ∈ hs, h.name ≠ name) →
      (fs.view S files (name ++ ascii ".db")).HasTable name (d name)) →
    ∃ files', PooledEngine.destroy hs files = .ok files' ∧ Stores (fs.view S files') d
  | [], files, _, _, _, hrest => ⟨files, rfl, fun name => hrest name nofun⟩
  | h :: hs, files, hnodup, hhandles, hopen, hrest => by
    obtain ⟨hnot, hnodup⟩ := List.nodup_cons.mp hnodup
    obtain ⟨hS, hfile⟩ := hhandles h List.mem_cons_self
    obtain ⟨mt, s, hmt, hname, hholds, hrests⟩ := hopen h List.mem_cons_self
    obtain ⟨pool, hrun, hhas⟩ := exists_destruct hframes hrests hname (hstore _ _ hmt) hholds
    rw [PooledEngine.destroy, hrun]
    refine exists_destroy_tables hframes hsep hstore hs _ hnodup
      (fun h' hmem => hhandles h' (List.mem_cons_of_mem h hmem))
      (fun h' hmem => hopen h' (List.mem_cons_of_mem h hmem)) (fun name hother => ?_)
    by_cases hne : name = h.name
    · rw [hne, FileSystem.view_update_self hS hfile, hmt]
      exact hhas
    · rw [FileSystem.view_update_of_ne hsep hS hfile hne]
      refine hrest name (fun h' hmem => ?_)
      rcases List.mem_cons.mp hmem with rfl | hmem
      · exact Ne.symm hne
      · exact hother h' hmem

end Destroy

/-- **An engine destroyed** leaves its database in the files. -/
theorem Mirrors.exists_destroy {fs : FileSystem} {S : ByteString → Prop} {frames n : ℕ}
    {e : Engine} {p : PooledEngine} {d : Database} (h : Mirrors fs S frames (fun _ => none) e p)
    (hframes : 1 ≤ frames) (hsep : fs.Separates S) (hrep : e.Represents n (fun _ => none) d)
    (hstore : d.Storable) : ∃ files, PooledEngine.destroy p.tables p.files = .ok files
      ∧ Stores (fs.view S files) d := by
  have hfound : ∀ hd ∈ p.tables,
      ∃ s, e.tables hd.name = some (hd.table, s) ∧ Rests frames s hd.pool := by
    intro hd hmem
    have hsame := h.tables hd.name
    rw [PooledEngine.find_of_mem h.names hmem] at hsame
    generalize hopen : e.tables hd.name = o at hsame
    cases hsame with
    | @some _ s hrests => exact ⟨s, rfl, hrests⟩
  refine exists_destroy_tables hframes hsep hstore p.tables p.files h.names h.handles
    (fun hd hmem => ?_) (fun name hother => ?_)
  · obtain ⟨s, hopen, hrests⟩ := hfound hd hmem
    obtain ⟨mt, hmt, hname, hholds⟩ := hrep.of_open hopen
    exact ⟨mt, s, hmt, hname, hholds, hrests⟩
  · have hsame := h.tables name
    have hfind : p.find name = none :=
      List.find?_eq_none.mpr (fun hd hmem => by simpa using hother hd hmem)
    rw [hfind] at hsame
    generalize hopen : e.tables name = o at hsame
    cases hsame with
    | none =>
      rw [← h.files]
      exact (hrep.has name).of_none hopen

/-! ## Sessions -/

/-- **A database in files** is represented by an engine just built on them. -/
theorem Engine.Represents.closed {n : ℕ} {opened : ByteString → Option Schema} {e : Engine}
    {d : Database} {files : ByteString → PageFile} (h : e.Represents n opened d)
    (hstores : Stores files d) : Represents n (fun _ => none) ⟨fun _ => none, files⟩ d where
  has name := .closed rfl (hstores name)
  rowids := h.rowids
  few := h.few
  short := h.short
  opened _ _ ho := by cases ho

theorem PooledEngine.session_snd (fs : FileSystem) (sqls : List ByteString)
    (files : ByteString → PageFile) :
    (session fs sqls files).2 = match (runAll (storage fs).exec sqls ⟨[], files⟩).2 with
      | .error f => .error f
      | .ok p => destroy p.tables p.files := rfl

section Sessions

variable {fs : FileSystem} {S : ByteString → Prop} {n : ℕ} {files : ByteString → PageFile}
  {d : Database}

/-- **A session on the files of a database**, before the engine is destroyed. -/
theorem exec_on_files {sqls : List ByteString} (hsep : fs.Separates S)
    (hrep : Engine.Represents (n + sqls.length) (fun _ => none)
      ⟨fun _ => none, fs.view S files⟩ d)
    (hconcerns : ∀ sql ∈ sqls, Concerns S sql) (hlen : ∀ sql ∈ sqls, sql.length ≤ 60000)
    (hroom : ∀ answer ∈ (runAll (PooledEngine.storage fs).exec sqls ⟨[], files⟩).1,
      ¬ OutOfRoom answer) :
    (Database.execAll sqls d).1 = (runAll (PooledEngine.storage fs).exec sqls ⟨[], files⟩).1
      ∧ EndAlike (fun p d' => ∃ e, Mirrors fs S PooledEngine.maxPages (fun _ => none) e p
          ∧ e.Represents n (fun _ => none) d')
        (runAll (PooledEngine.storage fs).exec sqls ⟨[], files⟩).2 (Database.execAll sqls d).2 := by
  have hframes : 3 ≤ PooledEngine.maxPages := by decide
  obtain ⟨hpooled, hend⟩ := execAll_eq_pooled hframes hsep hconcerns (mirrors_new fs S _ files)
  obtain ⟨hanswers, hend'⟩ := execAll_eq_database hlen hrep
    (fun answer hmem => hroom answer (hpooled ▸ hmem))
  refine ⟨hanswers.trans hpooled.symm, ?_⟩
  rcases hengine : (SqlEngine.execAll sqls ⟨fun _ => none, fs.view S files⟩).2 with f | e
  · rw [hengine] at hend hend'
    rw [show (runAll (PooledEngine.storage fs).exec sqls ⟨[], files⟩).2 = .error f from hend]
    exact hend'
  · rw [hengine] at hend hend'
    obtain ⟨p, hp, hmirrors⟩ := hend
    obtain ⟨d', hd', hrep'⟩ := hend'
    rw [hp]
    exact ⟨d', hd', e, hmirrors, hrep'⟩

/-- **A session on the files of a database.** -/
theorem session_on_files {sqls : List ByteString} (hsep : fs.Separates S)
    (hrep : Engine.Represents (n + sqls.length) (fun _ => none)
      ⟨fun _ => none, fs.view S files⟩ d)
    (hconcerns : ∀ sql ∈ sqls, Concerns S sql) (hlen : ∀ sql ∈ sqls, sql.length ≤ 60000)
    (hstorable : ∀ d', (Database.execAll sqls d).2 = .ok d' → d'.Storable)
    (hroom : ∀ answer ∈ (PooledEngine.session fs sqls files).1, ¬ OutOfRoom answer) :
    (Database.execAll sqls d).1 = (PooledEngine.session fs sqls files).1
      ∧ EndAlike (fun files' d' => Stores (fs.view S files') d'
          ∧ Engine.Represents n (fun _ => none) ⟨fun _ => none, fs.view S files'⟩ d')
        (PooledEngine.session fs sqls files).2 (Database.execAll sqls d).2 := by
  obtain ⟨hanswers, hend⟩ := exec_on_files hsep hrep hconcerns hlen hroom
  refine ⟨hanswers, ?_⟩
  rw [PooledEngine.session_snd]
  rcases hrun : (runAll (PooledEngine.storage fs).exec sqls ⟨[], files⟩).2 with f | p
  · rw [hrun] at hend
    exact hend
  · rw [hrun] at hend
    obtain ⟨d', hd', e, hmirrors, hrep'⟩ := hend
    obtain ⟨files', hdestroy, hstores⟩ :=
      hmirrors.exists_destroy (by decide) hsep hrep' (hstorable d' hd')
    simp only [hdestroy]
    exact ⟨d', hd', hstores, hrep'.closed hstores⟩

end Sessions

namespace PooledEngine

variable {fs : FileSystem} {sqls : List ByteString} {rest : List (List ByteString)}
  {files : ByteString → PageFile}

/-- A session that stops is the last one. -/
theorem sessions_of_stop {f : EngineFault} (h : (session fs sqls files).2 = .error f) :
    sessions fs (sqls :: rest) files = ((session fs sqls files).1, .error f) := by
  rw [sessions]
  rcases hs : session fs sqls files with ⟨answers, r⟩
  rw [hs] at h
  simp only [show r = .error f from h]

/-- A session, and the others on the files that it leaves. -/
theorem sessions_of_ok {files' : ByteString → PageFile}
    (h : (session fs sqls files).2 = .ok files') :
    sessions fs (sqls :: rest) files
      = ((session fs sqls files).1 ++ (sessions fs rest files').1,
        (sessions fs rest files').2) := by
  rw [sessions]
  rcases hs : session fs sqls files with ⟨answers, r⟩
  rw [hs] at h
  simp only [show r = .ok files' from h]

/-- The answers of the first session are among them. -/
theorem mem_sessions {answer : ByteString} (h : answer ∈ (session fs sqls files).1) :
    answer ∈ (sessions fs (sqls :: rest) files).1 := by
  rcases hs : (session fs sqls files).2 with f | files'
  · rw [sessions_of_stop hs]
    exact h
  · rw [sessions_of_ok hs]
    exact List.mem_append_left _ h

end PooledEngine

/-- **Sessions on the files of a database.** -/
theorem sessions_on_files {fs : FileSystem} {S : ByteString → Prop} {n : ℕ}
    (hsep : fs.Separates S) : ∀ (sqlss : List (List ByteString))
    (files : ByteString → PageFile) (d : Database),
    Engine.Represents (n + sqlss.flatten.length) (fun _ => none)
      ⟨fun _ => none, fs.view S files⟩ d →
    Stores (fs.view S files) d → (∀ sql ∈ sqlss.flatten, Concerns S sql) →
    (∀ sql ∈ sqlss.flatten, sql.length ≤ 60000) →
    (∀ k d', (Database.execAll (sqlss.take k).flatten d).2 = .ok d' → d'.Storable) →
    (∀ answer ∈ (PooledEngine.sessions fs sqlss files).1, ¬ OutOfRoom answer) →
    (Database.execAll sqlss.flatten d).1 = (PooledEngine.sessions fs sqlss files).1
      ∧ EndAlike (fun files' => Stores (fs.view S files')) (PooledEngine.sessions fs sqlss files).2
        (Database.execAll sqlss.flatten d).2
  | [], files, d, _, hstores, _, _, _, _ => ⟨rfl, d, rfl, hstores⟩
  | sqls :: rest, files, d, hrep, hstores, hconcerns, hlen, hstorable, hroom => by
    rw [List.flatten_cons] at hrep hconcerns hlen
    rw [List.length_append, Nat.add_comm sqls.length, ← Nat.add_assoc] at hrep
    obtain ⟨hanswers, hend⟩ := session_on_files hsep hrep
      (fun sql hmem => hconcerns sql (List.mem_append_left _ hmem))
      (fun sql hmem => hlen sql (List.mem_append_left _ hmem))
      (fun d' hd' => hstorable 1 d' (by simpa using hd'))
      (fun answer hmem => hroom answer (PooledEngine.mem_sessions hmem))
    have hsplit : Database.execAll (sqls ++ rest.flatten) d = _ := runAll_append sqls rest.flatten d
    rw [List.flatten_cons, hsplit]
    rcases hs : (PooledEngine.session fs sqls files).2 with f | files'
    · rw [hs] at hend
      rw [PooledEngine.sessions_of_stop hs, show (Database.execAll sqls d).2 = .error f from hend]
      exact ⟨hanswers, rfl⟩
    · rw [hs] at hend
      obtain ⟨d', hd', hstores', hrep'⟩ := hend
      rw [PooledEngine.sessions_of_ok hs] at hroom ⊢
      rw [hd']
      have hstorable' : ∀ k d'', (Database.execAll (rest.take k).flatten d').2 = .ok d'' →
          d''.Storable := by
        intro k d'' hk
        refine hstorable (k + 1) d'' ?_
        rw [List.take_succ_cons, List.flatten_cons, Database.execAll, runAll_append, hd']
        exact hk
      obtain ⟨hrest, hends⟩ := sessions_on_files hsep rest files' d' hrep' hstores'
        (fun sql hmem => hconcerns sql (List.mem_append_right _ hmem))
        (fun sql hmem => hlen sql (List.mem_append_right _ hmem)) hstorable'
        (fun answer hmem => hroom answer (List.mem_append_right _ hmem))
      refine ⟨?_, hends⟩
      show (Database.execAll sqls d).1 ++ (Database.execAll rest.flatten d').1 = _ ++ _
      rw [hanswers, hrest]

section Empty

variable {fs : FileSystem} {S : ByteString → Prop}

/-- The files of a directory that was empty at first. -/
theorem stores_view_empty : Stores (fs.view S (fun _ => .empty)) Database.empty := by
  rw [FileSystem.view_empty]
  exact stores_empty

theorem represents_view_empty {n : ℕ} (h : n < 4294967295) :
    Engine.Represents n (fun _ => none) ⟨fun _ => none, fs.view S (fun _ => .empty)⟩ .empty := by
  rw [FileSystem.view_empty]
  exact Engine.represents_noTables h

end Empty
