import SqlMini.KilledSessions
import SqlMini.Replay

/-!
# Files that a session does not touch

A full pool writes the pages that it drops, so that the file of a table which is
being changed may hold pages of before and pages of after together, until the
engine is destroyed. This does not go beyond the tables that are changed: while
an engine runs, the file of a table which no `CREATE`, `INSERT` or `DELETE` names
is as it was when the engine was built, byte for byte
(`PooledEngine.onDisk_eq_of_not_writing`). Queries of the table make no page
dirty, and statements about other tables go to other files.

Nothing is asked of the files. The pools may be small, and full.
-/

open SqlEngine Routine PageProg BufferPool

/-! ## Calls that keep a property -/

section Keeping

variable {φ ε σ τ α : Type} {E P : σ → τ → Prop} {X : ε → Prop} {Q : α → σ → τ → Prop}
  {m : Routine φ ε σ α} {m' : Routine φ ε τ α} {I : τ → Prop} {C D : Prop}

/-- Under an assumption, beside what the second routine keeps. -/
theorem Routine.Simulates.preserving (h : C → Simulates E X P m m' Q) (hI : C → Preserves I m')
    (hD : D) : Simulates (fun s t => D ∧ E s t ∧ I t) X (fun s t => C ∧ P s t ∧ I t) m m'
      (fun a s t => C ∧ Q a s t ∧ I t) :=
  Simulates.assuming (fun hC => ((h hC).keeping
    (fun _ t r t' _ hi hrun => hI hC t r t' hi hrun)).mono (fun _ _ => id)
      (fun _ _ he => ⟨hD, he⟩) (fun _ _ _ hq => ⟨hC, hq⟩))

end Keeping

namespace Storage

variable {σ τ : Type} {b : Storage σ} {b' : Storage τ} {X : StdException → Prop} {L : ℕ}
  {N N' : ByteString → Prop} {R : ℕ → (ByteString → Option Schema) → σ → τ → Prop} {I : τ → Prop}

/-- **A storage whose calls on the tables in `N` keep** what holds of its state. -/
structure CallsKeep (b : Storage σ) (N : ByteString → Prop) (P : σ → Prop) : Prop where
  openTable : ∀ name sc, N name → Preserves P (b.openTable name sc)
  schemaOf : ∀ name, N name → Preserves P (b.schemaOf name)
  insertRow : ∀ name row, N name → Preserves P (b.insertRow name row)
  findByRowid : ∀ name rowid, N name → Preserves P (b.findByRowid name rowid)
  scan : ∀ {β : Type} name (cb : Table.Callback β) (st : β), N name →
    Preserves P (b.scan name cb st)
  deleteWhere : ∀ name pred, N name → Preserves P (b.deleteWhere name pred)

/-- **Storages side by side**, and what the second one keeps for the tables in
`N'`. -/
theorem Mimics.keeping (h : b.Mimics b' X L N R) (hkeep : b'.CallsKeep N' I) :
    b.Mimics b' X L (fun name => N name ∧ N' name) (fun n opened s t =>
      (∀ name schema, opened name = some schema → N' name) ∧ R n opened s t ∧ I t) where
  spend hr := ⟨hr.1, h.spend hr.2.1, hr.2.2⟩
  forget hr := ⟨nofun, h.forget hr.2.1, hr.2.2⟩
  openTable n opened name sc hname hsc := by
    refine (Simulates.preserving (fun _ => h.openTable n opened name sc hname.1 hsc)
      (fun _ => hkeep.openTable name sc hname.2) nofun).mono (fun _ _ => id) (fun _ _ => id) ?_
    rintro _ s t ⟨hopened, ⟨schema, hr⟩, hi⟩
    refine ⟨schema, fun other schema' ho => ?_, hr, hi⟩
    by_cases hne : other = name
    · exact hne ▸ hname.2
    · rw [Function.update_of_ne hne] at ho
      exact hopened other schema' ho
  schemaOf n opened name schema ho := by
    refine (Simulates.preserving (fun _ => h.schemaOf n opened name schema ho)
      (fun hopened => hkeep.schemaOf name (hopened name schema ho)) nofun).mono (fun _ _ => id)
      (fun _ _ => id) ?_
    rintro a s t ⟨hopened, ⟨ha, hr⟩, hi⟩
    exact ⟨ha, hopened, hr, hi⟩
  insertRow n opened name schema cols vals row ho hrow hbytes :=
    Simulates.preserving (fun _ => h.insertRow n opened name schema cols vals row ho hrow hbytes)
      (fun hopened => hkeep.insertRow name row (hopened name schema ho)) nofun
  findByRowid n opened name schema rowid ho hrowid :=
    Simulates.preserving (fun _ => h.findByRowid n opened name schema rowid ho hrowid)
      (fun hopened => hkeep.findByRowid name rowid (hopened name schema ho)) nofun
  scan n opened name schema _ cb st ho :=
    Simulates.preserving (fun _ => h.scan n opened name schema cb st ho)
      (fun hopened => hkeep.scan name cb st (hopened name schema ho)) nofun
  deleteWhere n opened name schema pred ho :=
    Simulates.preserving (fun _ => h.deleteWhere n opened name schema pred ho)
      (fun hopened => hkeep.deleteWhere name pred (hopened name schema ho)) nofun

end Storage

/-! ## Tables with nothing to write -/

namespace PooledEngine

/-- **An engine that was built on these files** has nothing to write to those of
the tables in `T`. -/
structure Untouched (T : ByteString → Prop) (files : ByteString → PageFile) (p : PooledEngine) :
    Prop where
  same : p.files = files
  handles : ∀ name h, p.find name = some h → T name → h.pool.Clean (files h.file)

variable {α : Type} {fs : FileSystem} {S T : ByteString → Prop} {frames : ℕ}
  {files : ByteString → PageFile} {p p' : PooledEngine} {name : ByteString}

/-- **A table is opened**, not created if it is in `T`. -/
theorem Untouched.openTable {sc : Option Schema} {r : Except StdException Unit}
    (hp : p.Untouched T files) (hname : T name → sc = none)
    (hrun : PooledEngine.openTable fs frames name sc p = .ok (r, p')) : p'.Untouched T files := by
  rcases openTable_cases hrun with rfl | ⟨file, schema, isNew, t, pool, -, -, hopens, hm, rfl⟩
  · exact hp
  · refine ⟨hp.same, fun other h hfind hT => ?_⟩
    rw [hp.same] at hm
    rcases find_cons hfind with rfl | hfind'
    · -- the file has pages, as nothing is created
      rw [← find_name hfind] at hT
      cases isNew with
      | true => exact absurd ⟨rfl, hname hT⟩ hopens
      | false => exact (Table.readsOnly_construct_stored _).clean (clean_create _ frames) hm
    · exact hp.handles other h hfind' hT

/-- **A call on a table**, which only reads if the table is in `T`. -/
theorem Untouched.onTable {m : Table → PageProg (α × Table)} {r : Except StdException α}
    (hp : p.Untouched T files) (hm : T name → ∀ t, ReadsOnly (m t))
    (hrun : PooledEngine.onTable name m p = .ok (r, p')) : p'.Untouched T files := by
  obtain ⟨h, a, t, pool, hfind, hpool, rfl⟩ := onTable_cases hrun
  refine ⟨hp.same, fun other h' hfind' hT => ?_⟩
  by_cases hne : other = name
  · subst hne
    rw [find_put_self hfind] at hfind'
    rw [← Option.some.inj hfind']
    exact (hm hT h.table).clean (hp.handles other h hfind hT) hpool
  · rw [find_put_of_ne hne] at hfind'
    exact hp.handles other h' hfind' hT

theorem Untouched.schemaOf {r : Except StdException Schema} (hp : p.Untouched T files)
    (hrun : (storageWith fs frames).schemaOf name p = .ok (r, p')) : p'.Untouched T files :=
  schemaOf_unchanged hrun ▸ hp

/-- A call that leaves the fields of the table alone. -/
theorem preserves_readTable {m : Table → PageProg α} (hm : T name → ∀ t, ReadsOnly (m t)) :
    Preserves (Untouched T files) (readTable name m) :=
  fun _ _ _ hp hrun =>
    hp.onTable (fun hT t => (hm hT t).bind (fun _ => readsOnly_pure _)) hrun

/-- A call that returns an exception, and throws it. -/
theorem preserves_thrown {P : PooledEngine → Prop}
    {m : StorageM PooledEngine (Except StdException α)} (hm : Preserves P m) :
    Preserves P (do let r ← m; ofExcept r) :=
  hm.bind (fun _ => preserves_ofExcept _)

/-- **What queries call** gives the pools nothing to write. -/
theorem readsKeep_untouched : (storageWith fs frames).ReadsKeep (Untouched T files) where
  openTable _ _ _ _ hp hrun := hp.openTable (fun _ => rfl) hrun
  schemaOf _ _ _ _ hp hrun := hp.schemaOf hrun
  findByRowid _ rowid := preserves_readTable (m := fun t => t.findByRowid rowid)
    (fun _ _ => Table.readsOnly_findByRowid _ _)
  scan _ cb st := preserves_thrown (preserves_readTable (m := fun t => t.scan cb st)
    (fun _ _ => Table.readsOnly_scan _ _ _))

/-- **Calls on other tables** do not touch those in `T`. -/
theorem callsKeep_untouched :
    (storageWith fs frames).CallsKeep (fun name => ¬ T name) (Untouched T files) where
  openTable _ _ hname _ _ _ hp hrun := hp.openTable (fun hT => absurd hT hname) hrun
  schemaOf _ _ _ _ _ hp hrun := hp.schemaOf hrun
  insertRow _ row hname := preserves_thrown (m := onTable _ (fun t => t.insertRow row))
    (fun _ _ _ hp hrun => hp.onTable (fun hT => absurd hT hname) hrun)
  findByRowid _ rowid hname := preserves_readTable (m := fun t => t.findByRowid rowid)
    (fun hT => absurd hT hname)
  scan _ cb st hname := preserves_thrown (preserves_readTable (m := fun t => t.scan cb st)
    (fun hT => absurd hT hname))
  deleteWhere _ pred hname := preserves_thrown
    (preserves_readTable (m := fun t => t.deleteWhere pred) (fun hT => absurd hT hname))

/-! ## While an engine runs -/

/-- **One statement** that does not write to the tables in `T`. -/
theorem exec_untouched (hframes : 3 ≤ frames) (hsep : fs.Separates S) {sql text : ByteString}
    {e : Engine} (hconcerns : Concerns S sql)
    (hsql : Writing sql → ∀ name ∈ tablesOf sql, ¬ T name)
    (hmirrors : Mirrors fs S frames (fun _ => none) e p) (hp : p.Untouched T files)
    (hexec : (storageWith fs frames).exec sql p = .ok (text, p')) :
    (∃ e', Mirrors fs S frames (fun _ => none) e' p') ∧ p'.Untouched T files := by
  have hmimics : SqlEngine.storage.Mimics (storageWith fs frames) (fun _ => False) sql.length
      S (fun _ => Mirrors fs S frames) := mimics_pooled hframes hsep _
  by_cases hwriting : Writing sql
  case pos =>
    have hstep := (hmimics.keeping callsKeep_untouched).stepAlike_exec (n := 0) le_rfl
      (fun name hname => ⟨hconcerns name hname, hsql hwriting name hname⟩) (s := e) (t := p)
      ⟨nofun, hmirrors, hp⟩
    rw [hexec] at hstep
    obtain ⟨e', -, -, hmirrors', hp'⟩ := hstep.exists_of_ok (fun _ ⟨_, hx, _⟩ => hx)
    exact ⟨⟨e', hmirrors'⟩, hp'⟩
  case neg =>
    have hstep := hmimics.stepAlike_exec (n := 0) le_rfl hconcerns hmirrors
    rw [hexec] at hstep
    obtain ⟨e', -, hmirrors'⟩ := hstep.exists_of_ok (fun _ ⟨_, hx, _⟩ => hx)
    exact ⟨⟨e', hmirrors'⟩, readsKeep_untouched.exec hwriting hexec hp⟩

/-- **The file of a table that no statement writes to** is as it was when the
engine was built, whatever happened to other tables, however few pages the pools
have, and whatever the files are. The names of the tables have files of their
own. -/
theorem onDisk_eq_of_not_writing (hframes : 3 ≤ frames) (hsep : fs.Separates S)
    {sqls : List ByteString} {table file : ByteString}
    (hconcerns : ∀ sql ∈ sqls, Concerns S sql) (htable : S table)
    (hfile : fs.dbFile table = some file)
    (hsqls : ∀ sql ∈ sqls, Writing sql → table ∉ tablesOf sql)
    (hrun : (runAll (storageWith fs frames).exec sqls ⟨[], files⟩).2 = .ok p) :
    p.onDisk file = files file := by
  obtain ⟨⟨e, hmirrors⟩, hp⟩ : (∃ e, Mirrors fs S frames (fun _ => none) e p)
      ∧ p.Untouched (· = table) files :=
    runAll_keeps (P := fun p => (∃ e, Mirrors fs S frames (fun _ => none) e p)
        ∧ p.Untouched (· = table) files) sqls
      (fun sql hsql _ _ _ hp hexec => hp.1.elim (fun _ hmirrors => exec_untouched hframes hsep
        (hconcerns sql hsql) (fun hw name hname heq => hsqls sql hsql hw (heq ▸ hname)) hmirrors
        hp.2 hexec))
      ⟨⟨_, mirrors_new fs S frames files⟩, rfl, nofun⟩ hrun
  rcases p.onDisk_cases file with ⟨h, hmem, rfl, hdisk⟩ | hdisk
  · -- the file is open for the table, as it is that of no other name
    obtain ⟨hS, hopen⟩ := hmirrors.handles h hmem
    have hname : h.name = table := hsep.apart _ _ _ hS htable hopen hfile
    rw [hdisk]
    exact (hp.handles h.name h (find_of_mem hmirrors.names hmem) hname).file
  · rw [hdisk, hp.same]

/-- The files that a session leaves which made a table with a row. -/
def leftFiles : ByteString → PageFile :=
  match (session .oneDirectory [createText, insertText] (fun _ => .empty)).2 with
  | .ok files => files
  | .error _ => fun _ => .empty

/-- A session that reads the table and writes to another one. -/
def besideTexts : List ByteString :=
  [selectText, ascii "CREATE TABLE u (b INT)", ascii "INSERT INTO u VALUES (1)", selectText]

/-- Pools of three pages are full in this session. -/
theorem onDisk_eq_of_not_writing_beside : ∃ p,
    (runAll (storageWith .oneDirectory 3).exec besideTexts ⟨[], leftFiles⟩).2 = .ok p
      ∧ p.onDisk (ascii "t.db") = leftFiles (ascii "t.db") := by
  have hdone : (runAll (storageWith .oneDirectory 3).exec besideTexts ⟨[], leftFiles⟩).2.isOk
      = true := by decide +kernel
  rcases hrun : (runAll (storageWith .oneDirectory 3).exec besideTexts ⟨[], leftFiles⟩).2 with f | p
  · rw [hrun] at hdone
    cases hdone
  · exact ⟨p, rfl, onDisk_eq_of_not_writing le_rfl FileSystem.separates_oneDirectory
      (by decide +kernel) (show (ascii "t").contains 47 = false by decide) (by decide)
      (by decide +kernel) hrun⟩

end PooledEngine
