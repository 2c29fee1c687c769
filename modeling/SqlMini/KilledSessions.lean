import SqlMini.Sessions
import SqlMini.Unsaved

/-!
# Sessions that are killed

A process may be killed before it destroys its engine. Its streams may then have
something to themselves that was written to them, so that only those sessions
leave files that can be told of which wrote nothing. That are the most of them:
`CREATE TABLE` and the destructors write, and a pool that is full, but nothing
else that is done to a table reaches its file (`PooledEngine.Unsaved`).

So a session that is killed leaves the tables that it found as it found them, if
it created none and no pool is full. Programs whose sessions end either way
answer as on a database of maps that forgets the sessions that were killed
(`endedSessions_eq_database`).
-/

open SqlEngine Routine PageProg BufferPool

/-! ## What is in the files -/

/-- **A handle of an engine** that was built on a file, which has been left
alone if it had pages and the pool is not full. -/
structure TableHandle.Unsaved (frames : ℕ) (f : PageFile) (h : TableHandle) : Prop where
  indexed : Indexed h.pool
  maxPages : h.pool.maxPages = frames
  file : (Pager.open f).numPages ≠ 0 → h.pool.lru.length < frames → h.pool.pager.file = f

/-- **A table is opened** on a file. -/
theorem TableHandle.unsaved_construct {frames : ℕ} {f : PageFile} {schema : Schema} {isNew : Bool}
    {name file : ByteString} {t : Table} {pool : BufferPool} (hframes : 1 ≤ frames)
    (hnew : isNew = true → (Pager.open f).numPages = 0)
    (hrun : (Table.construct schema isNew isNew).runPool (.create (.open f) frames)
      = .ok (t, pool)) : Unsaved frames f ⟨name, file, t, pool⟩ := by
  cases isNew with
  | true =>
    rcases (rests_create f).runs hframes (Table.tidy_construct schema true true) with
      ⟨fault, -, hfault⟩ | ⟨t', s, pool', -, hpool, hold, hsim⟩
    · cases hrun.symm.trans hfault
    · obtain ⟨rfl, rfl⟩ := Prod.mk.inj (Except.ok.inj (hpool.symm.trans hrun))
      exact ⟨hsim.holds.toIndexed, hsim.maxPages, fun hpages => absurd (hnew rfl) hpages⟩
  | false =>
    have hspares := (Table.readsOnly_construct_stored schema).quiet.spares
      (holds_create (Pager.open f) frames).toIndexed hframes hrun
    exact ⟨hspares.indexed, hspares.maxPages, fun _ hroom => hspares.file hroom⟩

namespace PooledEngine

/-- **An engine that was built on these files** has not written to those that
had pages, unless a pool is full. -/
structure Unsaved (frames : ℕ) (files : ByteString → PageFile) (p : PooledEngine) : Prop where
  same : p.files = files
  handles : ∀ name h, p.find name = some h → h.Unsaved frames (files h.file)

variable {α : Type} {fs : FileSystem} {frames : ℕ} {files : ByteString → PageFile}
  {p p' : PooledEngine} {name : ByteString}

/-- **Opening a table** writes to its file only if there was none. -/
theorem Unsaved.openTable {sc : Option Schema} {r : Except StdException Unit}
    (hp : p.Unsaved frames files) (hframes : 1 ≤ frames)
    (hrun : PooledEngine.openTable fs frames name sc p = .ok (r, p')) :
    p'.Unsaved frames files := by
  rcases openTable_cases hrun with rfl | ⟨file, schema, isNew, t, pool, -, hnew, -, hm, rfl⟩
  · exact hp
  · refine ⟨hp.same, fun other h hfind => ?_⟩
    rw [hp.same] at hnew hm
    rcases find_cons hfind with rfl | hfind
    · exact TableHandle.unsaved_construct hframes hnew.mp hm
    · exact hp.handles other h hfind

/-- **A call on a table** that does not flush leaves the file alone. -/
theorem Unsaved.onTable {m : Table → PageProg (α × Table)} {r : Except StdException α}
    (hp : p.Unsaved frames files) (hframes : 1 ≤ frames) (hquiet : ∀ t, Quiet (m t))
    (hrun : PooledEngine.onTable name m p = .ok (r, p')) : p'.Unsaved frames files := by
  obtain ⟨h, a, t, pool, hfind, hpool, rfl⟩ := onTable_cases hrun
  have hold := hp.handles name h hfind
  have hspares := (hquiet h.table).spares hold.indexed (hold.maxPages.symm ▸ hframes) hpool
  refine ⟨hp.same, fun other h' hfind' => ?_⟩
  by_cases hne : other = name
  · rw [hne, find_put_self hfind] at hfind'
    rw [← Option.some.inj hfind']
    refine ⟨hspares.indexed, hspares.maxPages.trans hold.maxPages, fun hpages hroom => ?_⟩
    exact (hspares.file (hold.maxPages.symm ▸ hroom)).trans
      (hold.file hpages (lt_of_le_of_lt hspares.grows hroom))
  · rw [find_put_of_ne hne] at hfind'
    exact hp.handles other h' hfind'

theorem Unsaved.schemaOf {r : Except StdException Schema} (hp : p.Unsaved frames files)
    (hrun : (storageWith fs frames).schemaOf name p = .ok (r, p')) : p'.Unsaved frames files :=
  schemaOf_unchanged hrun ▸ hp

end PooledEngine

/-! ## The calls -/

section Calls

variable {α : Type} {fs : FileSystem} {S : ByteString → Prop} {frames : ℕ}
  {files : ByteString → PageFile} {X : StdException → Prop}
  {opened : ByteString → Option Schema} {name : ByteString}

/-- The engine over its pools beside the engine over the arrays of the pages,
with its files as they were. -/
def MirrorsUnsaved (fs : FileSystem) (S : ByteString → Prop) (frames : ℕ)
    (files : ByteString → PageFile) (opened : ByteString → Option Schema) (e : Engine)
    (p : PooledEngine) : Prop :=
  Mirrors fs S frames opened e p ∧ p.Unsaved frames files

/-- A call that does not flush. -/
theorem simulates_onTable_unsaved {m : Table → PageProg (α × Table)} (hframes : 1 ≤ frames)
    (hm : ∀ t, Tidy frames (m t)) (hquiet : ∀ t, Quiet (m t))
    (hschema : ∀ t s, Always (m t) s (fun r _ => r.2.schema = t.schema)) :
    Simulates (MirrorsUnsaved fs S frames files (fun _ => none)) X
      (MirrorsUnsaved fs S frames files opened) (SqlEngine.onTable name m)
      (PooledEngine.onTable name m) (fun _ => MirrorsUnsaved fs S frames files opened) :=
  (simulates_onTable_pooled hframes hm hschema).keeping
    (fun _ _ _ _ _ hp hrun => hp.onTable hframes hquiet hrun)

theorem simulates_readTable_unsaved {m : Table → PageProg α} (hframes : 1 ≤ frames)
    (hm : ∀ t, Tidy frames (m t)) (hquiet : ∀ t, Quiet (m t)) :
    Simulates (MirrorsUnsaved fs S frames files (fun _ => none)) X
      (MirrorsUnsaved fs S frames files opened) (SqlEngine.readTable name m)
      (PooledEngine.readTable name m) (fun _ => MirrorsUnsaved fs S frames files opened) :=
  simulates_onTable_unsaved hframes (fun t => (hm t).bind (fun _ => tidy_pure _))
    (fun t => (hquiet t).bind (fun _ => quiet_pure _))
    (fun t _ => Always.bind (fun a _ _ => ((runs_pure (a, t)).mpr rfl).always))

/-- A call that returns an exception, and throws it. -/
theorem Routine.Simulates.thrownUnsaved {m : EngineM (Except StdException α)}
    {m' : StorageM PooledEngine (Except StdException α)}
    (h : Simulates (MirrorsUnsaved fs S frames files (fun _ => none)) X
      (MirrorsUnsaved fs S frames files opened) m m'
      (fun _ => MirrorsUnsaved fs S frames files opened)) :
    Simulates (MirrorsUnsaved fs S frames files (fun _ => none)) X
      (MirrorsUnsaved fs S frames files opened) (do let r ← m; ofExcept r)
      (do let r ← m'; ofExcept r) (fun _ => MirrorsUnsaved fs S frames files opened) :=
  h.bind (fun _ => simulates_ofExcept (fun _ _ hst => ⟨hst.1.forget, hst.2⟩) (fun _ _ _ _ => id))

/-- **The engine over its pools** keeps its files as they were. -/
theorem mimics_unsaved (hframes : 3 ≤ frames) (hsep : fs.Separates S) (L : ℕ) :
    SqlEngine.storage.Mimics (PooledEngine.storageWith fs frames) X L S
      (fun _ => MirrorsUnsaved fs S frames files) where
  spend := id
  forget h := ⟨h.1.forget, h.2⟩
  openTable n opened name sc hname hsc := by
    have hone : 1 ≤ frames := by omega
    refine ((simulates_openTable_pooled hone hsep hname).keeping
      (fun _ _ _ _ _ hp hrun => hp.openTable hone hrun)).mono (fun _ _ => id)
      (fun _ _ => id) ?_
    rintro _ e p ⟨⟨schema, hmirrors⟩, hp⟩
    exact ⟨schema, hmirrors, hp⟩
  schemaOf n opened name schema hopened := by
    have hmimics : SqlEngine.storage.Mimics (PooledEngine.storageWith fs frames) X L S
      (fun _ => Mirrors fs S frames) := mimics_pooled hframes hsep L
    refine ((hmimics.schemaOf n opened name schema hopened).keeping ?_).mono (fun _ _ => id)
      (fun _ _ => id) ?_
    · exact fun e p r p' _ hp hrun => hp.schemaOf hrun
    · rintro a e p ⟨⟨ha, hmirrors⟩, hp⟩
      exact ⟨ha, hmirrors, hp⟩
  insertRow _ _ _ _ _ _ _ _ _ _ := (simulates_onTable_unsaved (by omega : 1 ≤ frames)
    (fun _ => Table.tidy_insertRow _ hframes) (fun _ => Table.quiet_insertRow _ _)
    (fun _ _ => Table.always_insertRow_stored.mono (fun _ _ h => h.1))).thrownUnsaved
  findByRowid _ _ _ _ _ _ _ := simulates_readTable_unsaved (by omega : 1 ≤ frames)
    (fun _ => Table.tidy_findByRowid _) (fun _ => (Table.readsOnly_findByRowid _ _).quiet)
  scan _ _ _ _ _ _ _ _ := (simulates_readTable_unsaved (by omega : 1 ≤ frames)
    (fun _ => Table.tidy_scan _ _) (fun _ => (Table.readsOnly_scan _ _ _).quiet)).thrownUnsaved
  deleteWhere _ _ _ _ _ _ := (simulates_readTable_unsaved (by omega : 1 ≤ frames)
    (fun _ => Table.tidy_deleteWhere _) (fun _ => Table.quiet_deleteWhere _ _)).thrownUnsaved

end Calls

/-! ## What is left of a session -/

/-- **The files while the engine runs**, with what its pagers have written: what
a process leaves that is killed, if nothing was written, as a stream may keep
what it was given. -/
def PooledEngine.onDisk (p : PooledEngine) (file : ByteString) : PageFile :=
  match p.tables.find? (fun h => h.file = file) with
  | some h => h.pool.pager.file
  | none => p.files file

/-- A handle whose file is open, or none. -/
theorem PooledEngine.onDisk_cases (p : PooledEngine) (file : ByteString) :
    (∃ h ∈ p.tables, h.file = file ∧ p.onDisk file = h.pool.pager.file)
      ∨ p.onDisk file = p.files file := by
  unfold onDisk
  cases hfind : p.tables.find? (fun h => h.file = file) with
  | none => exact Or.inr rfl
  | some h =>
    exact Or.inl ⟨h, List.mem_of_find?_eq_some hfind, by simpa using List.find?_some hfind, rfl⟩

/-- **Nothing was written** if no table was created and no pool is full. -/
theorem onDisk_eq_files {fs : FileSystem} {S : ByteString → Prop} {frames : ℕ}
    {files : ByteString → PageFile} {e : Engine} {p : PooledEngine}
    (h : MirrorsUnsaved fs S frames files (fun _ => none) e p)
    (hwritten : ∀ h ∈ p.tables, (Pager.open (files h.file)).numPages ≠ 0
      ∧ h.pool.lru.length < frames) : p.onDisk = files := by
  obtain ⟨hmirrors, hunsaved⟩ := h
  funext file
  rcases p.onDisk_cases file with ⟨h, hmem, rfl, hdisk⟩ | hdisk
  · obtain ⟨hpages, hroom⟩ := hwritten h hmem
    rw [hdisk]
    exact (hunsaved.handles h.name h (PooledEngine.find_of_mem hmirrors.names hmem)).file
      hpages hroom
  · rw [hdisk, hunsaved.same]

/-! ## Sessions that end either way -/

/-- **How a session ends.** -/
inductive Ending where
  /-- The engine is destroyed. -/
  | destroyed
  /-- The process is killed. -/
  | killed
  deriving DecidableEq

/-- **A session that is killed** after its statements, with what its pagers have
written by then. -/
def PooledEngine.killed (fs : FileSystem) (sqls : List ByteString)
    (files : ByteString → PageFile) :
    List ByteString × Except EngineFault (ByteString → PageFile) :=
  ((runAll (storage fs).exec sqls ⟨[], files⟩).1,
    (runAll (storage fs).exec sqls ⟨[], files⟩).2.map onDisk)

/-- **A session** and its end. -/
def PooledEngine.endedSession (fs : FileSystem) :
    Ending × List ByteString → (ByteString → PageFile) →
      List ByteString × Except EngineFault (ByteString → PageFile)
  | (.destroyed, sqls) => session fs sqls
  | (.killed, sqls) => killed fs sqls

/-- **What a session leaves** of a database `d` that it made `d'`. -/
def Database.left (d d' : Database) : Ending → Database
  | .destroyed => d'
  | .killed => d

/-- **A session over the maps** and its end. -/
def Database.endedSession (s : Ending × List ByteString) (d : Database) :
    List ByteString × Except EngineFault Database :=
  ((execAll s.2 d).1, (execAll s.2 d).2.map (fun d' => d.left d' s.1))

/-- **A session that is killed has written nothing**: each table that it opened
was there, and no pool is full. -/
def PooledEngine.Unwritten (fs : FileSystem) (s : Ending × List ByteString)
    (files : ByteString → PageFile) : Prop :=
  s.1 = .killed → ∀ p, (runAll (storage fs).exec s.2 ⟨[], files⟩).2 = .ok p →
    ∀ h ∈ p.tables, (Pager.open (files h.file)).numPages ≠ 0 ∧ h.pool.lru.length < maxPages

/-- **Files that have the tables of a database**, with room for `n` rowids more
in each. -/
def Keeps (fs : FileSystem) (S : ByteString → Prop) (n : ℕ) (files : ByteString → PageFile)
    (d : Database) : Prop :=
  Stores (fs.view S files) d
    ∧ Engine.Represents n (fun _ => none) ⟨fun _ => none, fs.view S files⟩ d

/-- Insertions need not be made. -/
theorem Engine.Represents.le {n m : ℕ} {opened : ByteString → Option Schema} {e : Engine}
    {d : Database} (h : e.Represents m opened d) (hle : n ≤ m) : e.Represents n opened d := by
  induction hle with
  | refl => exact h
  | step _ ih => exact ih h.spend

section Sessions

variable {fs : FileSystem} {S : ByteString → Prop} {n : ℕ} {files : ByteString → PageFile}
  {d : Database} {sqls : List ByteString}

/-- **A session that is killed** on the files of a database. -/
theorem killed_on_files (hsep : fs.Separates S) (hkeeps : Keeps fs S (n + sqls.length) files d)
    (hconcerns : ∀ sql ∈ sqls, Concerns S sql) (hlen : ∀ sql ∈ sqls, sql.length ≤ 60000)
    (hroom : ∀ answer ∈ (PooledEngine.killed fs sqls files).1, ¬ OutOfRoom answer)
    (hwritten : PooledEngine.Unwritten fs (.killed, sqls) files) :
    (Database.execAll sqls d).1 = (PooledEngine.killed fs sqls files).1
      ∧ EndAlike (Keeps fs S n) (PooledEngine.killed fs sqls files).2
        ((Database.execAll sqls d).2.map (fun _ => d)) := by
  have hframes : 3 ≤ PooledEngine.maxPages := by decide
  obtain ⟨hstores, hrep⟩ := hkeeps
  have hnew : MirrorsUnsaved fs S PooledEngine.maxPages files (fun _ => none)
      ⟨fun _ => none, fs.view S files⟩ ⟨[], files⟩ := ⟨mirrors_new fs S _ files, rfl, nofun⟩
  obtain ⟨-, hend⟩ := execAll_eq_of_mimics (mimics_unsaved hframes hsep) hconcerns hnew
  obtain ⟨hanswers, hend'⟩ := exec_on_files hsep hrep hconcerns hlen hroom
  refine ⟨hanswers, ?_⟩
  unfold PooledEngine.killed
  rcases hrun : (runAll (PooledEngine.storage fs).exec sqls ⟨[], files⟩).2 with f | p
  · rw [hrun] at hend'
    rw [show (Database.execAll sqls d).2 = .error f from hend']
    rfl
  · rw [hrun] at hend hend'
    obtain ⟨d', hd', -⟩ := hend'
    rw [hd']
    rcases hengine : (SqlEngine.execAll sqls ⟨fun _ => none, fs.view S files⟩).2 with f | e
    · rw [hengine] at hend
      cases hend
    · rw [hengine] at hend
      obtain ⟨p', hp', hunsaved⟩ := hend
      obtain rfl := Except.ok.inj hp'
      have hdisk := onDisk_eq_files hunsaved (hwritten rfl p hrun)
      refine ⟨d, rfl, ?_⟩
      rw [hdisk]
      exact ⟨hstores, hrep.le (Nat.le_add_right _ _)⟩

/-- **A session that ends either way** on the files of a database. -/
theorem endedSession_on_files (hsep : fs.Separates S) (s : Ending × List ByteString)
    (hkeeps : Keeps fs S (n + s.2.length) files d) (hconcerns : ∀ sql ∈ s.2, Concerns S sql)
    (hlen : ∀ sql ∈ s.2, sql.length ≤ 60000)
    (hstorable : ∀ d', (Database.endedSession s d).2 = .ok d' → d'.Storable)
    (hroom : ∀ answer ∈ (PooledEngine.endedSession fs s files).1, ¬ OutOfRoom answer)
    (hwritten : PooledEngine.Unwritten fs s files) :
    (Database.endedSession s d).1 = (PooledEngine.endedSession fs s files).1
      ∧ EndAlike (Keeps fs S n) (PooledEngine.endedSession fs s files).2
        (Database.endedSession s d).2 := by
  obtain ⟨ending, sqls⟩ := s
  cases ending with
  | killed => exact killed_on_files hsep hkeeps hconcerns hlen hroom hwritten
  | destroyed =>
    have hsame : (Database.endedSession (.destroyed, sqls) d).2 = (Database.execAll sqls d).2 :=
      congrFun Except.map_id _
    rw [hsame] at hstorable ⊢
    exact session_on_files hsep hkeeps.2 hconcerns hlen hstorable hroom

end Sessions

/-- **Programs whose sessions are destroyed or killed**, in a directory that was
empty at first, have the answers that they have on maps which forget the
sessions that were killed, if these had written nothing, the names of the tables
have files of their own, the tables survive each destructor, and no answer says
that there was no room. -/
theorem endedSessions_eq_database {fs : FileSystem} {S : ByteString → Prop}
    {ss : List (Ending × List ByteString)} (hsep : fs.Separates S)
    (hconcerns : ∀ s ∈ ss, ∀ sql ∈ s.2, Concerns S sql)
    (hlen : ∀ s ∈ ss, ∀ sql ∈ s.2, sql.length ≤ 60000)
    (hfew : (ss.map (fun s => s.2.length)).sum < 4294967295)
    (hstorable : ∀ k d, (chain Database.endedSession (ss.take k) .empty).2 = .ok d → d.Storable)
    (hroom : ∀ answer ∈ (chain (PooledEngine.endedSession fs) ss (fun _ => .empty)).1,
      ¬ OutOfRoom answer)
    (hwritten : Along (PooledEngine.endedSession fs) (PooledEngine.Unwritten fs) ss
      (fun _ => .empty)) :
    (chain Database.endedSession ss .empty).1
        = (chain (PooledEngine.endedSession fs) ss (fun _ => .empty)).1
      ∧ EndAlike (fun files => Stores (fs.view S files))
        (chain (PooledEngine.endedSession fs) ss (fun _ => .empty)).2
        (chain Database.endedSession ss .empty).2 := by
  have hkeeps : Keeps fs S (0 + (ss.map (fun s => s.2.length)).sum) (fun _ => .empty) .empty :=
    ⟨stores_view_empty, represents_view_empty (by rwa [Nat.zero_add])⟩
  have hsession : ∀ (n : ℕ) (s : Ending × List ByteString) (files : ByteString → PageFile)
      (d : Database), ((((∀ sql ∈ s.2, Concerns S sql) ∧ ∀ sql ∈ s.2, sql.length ≤ 60000)
          ∧ ∀ answer ∈ (PooledEngine.endedSession fs s files).1, ¬ OutOfRoom answer)
        ∧ PooledEngine.Unwritten fs s files) →
      (∀ d', (Database.endedSession s d).2 = .ok d' → d'.Storable) →
      Keeps fs S (n + s.2.length) files d → _ := fun n s files d hP hP' hR =>
    endedSession_on_files hsep s hR hP.1.1.1 hP.1.1.2 hP' hP.1.2 hP.2
  obtain ⟨hanswers, hend⟩ := chain_eq hsession ss 0 _ _
    ((((along_of_forall ss _ hconcerns).and (along_of_forall ss _ hlen)).and
      (along_of_answers ss _ hroom)).and hwritten)
    (along_of_ends ss _ hstorable) hkeeps
  exact ⟨hanswers, hend.mono (fun _ _ h => h.1)⟩

/-! ## A session killed after an insertion -/

section Lost

variable {d d' : Database}

open Semantics in
/-- Sessions of statements leave tables that survive, whichever way they end. -/
theorem storable_endedSession {s : Ending × List ByteString} {stmts : List Stmt}
    (hw : List.Forall₂ Writes stmts s.2) (hall : ∀ st ∈ stmts, st.Storable)
    (hd : d.Proper ∧ d.Storable) (h : (Database.endedSession s d).2 = .ok d') :
    d'.Proper ∧ d'.Storable := by
  obtain ⟨ending, sqls⟩ := s
  unfold Database.endedSession at h
  rw [execAll_eq_meanings hd.1 hw] at h
  rcases hrun : (runAll meaning stmts d).2 with f | d₁
  · rw [hrun] at h
    cases h
  · rw [hrun] at h
    rw [← Except.ok.inj h]
    cases ending with
    | killed => exact hd
    | destroyed =>
      exact ⟨runAll_keeps stmts (fun st _ _ _ _ hd hst => proper_meaning hd hst) hd.1 hrun,
        storable_runAll hd.2 hall hrun⟩

/-- A session that makes a table, one that is killed after an insertion, and one
that finds what is left. -/
def lostInsert : List (Ending × List ByteString) :=
  [(.destroyed, [createText, insertText]), (.killed, [insertText, selectText]),
    (.destroyed, [selectText])]

/-- **The second insertion is lost** with the session that made it. -/
theorem endedSessions_eq_database_lost :
    (chain Database.endedSession lostInsert .empty).1
        = (chain (PooledEngine.endedSession .oneDirectory) lostInsert (fun _ => .empty)).1
      ∧ EndAlike (fun files =>
          Stores (FileSystem.oneDirectory.view (fun name => name.contains 47 = false) files))
        (chain (PooledEngine.endedSession .oneDirectory) lostInsert (fun _ => .empty)).2
        (chain Database.endedSession lostInsert .empty).2 := by
  have hempty : Database.empty.Proper ∧ Database.empty.Storable :=
    ⟨Semantics.proper_empty, fun _ _ hname => by cases hname⟩
  have hsession : ∀ s ∈ lostInsert, ∀ d d' : Database, d.Proper ∧ d.Storable →
      (Database.endedSession s d).2 = .ok d' → d'.Proper ∧ d'.Storable := by
    intro s hs d d' hd h
    simp only [lostInsert, List.mem_cons, List.not_mem_nil, or_false] at hs
    rcases hs with rfl | rfl | rfl
    · exact storable_endedSession (.cons writes_createText (.cons writes_insertText .nil))
        (by decide) hd h
    · exact storable_endedSession (.cons writes_insertText (.cons writes_selectText .nil))
        (by decide) hd h
    · exact storable_endedSession (.cons writes_selectText .nil) (by decide) hd h
  have hsound : ∀ k d, (chain Database.endedSession (lostInsert.take k) .empty).2 = .ok d →
      d.Proper ∧ d.Storable := fun k d hd =>
    chain_keeps (P := fun d : Database => d.Proper ∧ d.Storable) _
      (fun s hs => hsession s (List.mem_of_mem_take hs)) hempty hd
  refine endedSessions_eq_database FileSystem.separates_oneDirectory (by decide +kernel)
    (by decide +kernel) (by decide) (fun k d hd => (hsound k d hd).2) (by decide +kernel) ?_
  -- the table was there when the second session found it, and its pool is not full
  have hkilled : (PooledEngine.session .oneDirectory [createText, insertText]
      (fun _ => .empty)).2.map (fun files => (runAll (PooledEngine.storage .oneDirectory).exec
        [insertText, selectText] ⟨[], files⟩).2.map (fun p => p.tables.all (fun h =>
          (Pager.open (files h.file)).numPages ≠ 0
            ∧ h.pool.lru.length < PooledEngine.maxPages))) = .ok (.ok true) := by decide +kernel
  refine ⟨nofun, fun files hfiles => ⟨fun _ p hp h hmem => ?_,
    fun _ _ => ⟨nofun, fun _ _ => trivial⟩⟩⟩
  rw [show (PooledEngine.session .oneDirectory [createText, insertText] (fun _ => .empty)).2
    = .ok files from hfiles] at hkilled
  have hall := Except.ok.inj hkilled
  simp only [show (runAll (PooledEngine.storage .oneDirectory).exec [insertText, selectText]
    ⟨[], files⟩).2 = .ok p from hp] at hall
  exact of_decide_eq_true (List.all_eq_true.mp (Except.ok.inj hall) h hmem)

/-- The table that is found has one row. -/
example : (chain (PooledEngine.endedSession .oneDirectory) lostInsert (fun _ => .empty)).1.getLast?
    = some (ascii "a\n-\n7\n(1 row(s), scanned 1)\n") := by decide +kernel

end Lost
