import SqlMini.Transaction
import SqlMini.Isolation
import SqlMini.Sessions

/-!
# A log of the changes is enough

A statement that fails changes nothing, and a query changes nothing: over the
maps this is an equation of databases (`Database.exec_unchanged`). The executors
do their reading first and write in one call, which does all it does or throws.

So the statements that failed or only read may be taken out of a session that
begins in an empty directory. What is left is a log: a new engine that is given
the log answers what was answered, and goes on like the engine that was given
everything (`replay_log`), unless an insertion finds no room. The names of the
tables have files of their own, and these open however many statements failed
before.
-/

open SqlEngine Routine

/-! ## The calls -/

section Calls

variable {σ α : Type} {m : StorageM Database α}

/-- A parser does not touch the storage. -/
theorem preserves_reads {P : σ → Prop} (m : ExecM α) :
    Preserves (fun st => P st.2) (reads m : CursorM σ α) := by
  intro st r st' hs h
  unfold reads at h
  rcases hm : m ⟨st.1, noTables⟩ with f | ⟨r', st₁⟩
  · rw [hm] at h
    cases h
  · rw [hm] at h
    obtain ⟨-, rfl⟩ := Prod.mk.inj (Except.ok.inj h)
    exact hs

theorem preserves_onStorage {P : σ → Prop} {m : StorageM σ α} (h : Preserves P m) :
    Preserves (fun st => P st.2) (onStorage m : CursorM σ α) := by
  intro st r st' hs hrun
  unfold onStorage at hrun
  rcases hm : m st.2 with f | ⟨r', s⟩
  · rw [hm] at hrun
    cases hrun
  · rw [hm] at hrun
    obtain ⟨-, rfl⟩ := Prod.mk.inj (Except.ok.inj hrun)
    exact h _ _ _ hs hm

theorem leaves_reads (m : ExecM α) : Leaves Prod.snd (reads m : CursorM σ α) :=
  leaves_iff.mpr (fun c => preserves_reads (P := (· = c)) m)

theorem leaves_onStorage {m : StorageM σ α} (h : Leaves id m) :
    Leaves Prod.snd (onStorage m : CursorM σ α) :=
  leaves_iff.mpr (fun c => preserves_onStorage (leaves_iff.mp h c))

theorem atomic_onStorage {m : StorageM σ α} {Q : α → Prop} (h : Atomic id m Q) :
    Atomic Prod.snd (onStorage m : CursorM σ α) Q := by
  intro st r st' hrun
  unfold onStorage at hrun
  rcases hm : m st.2 with f | ⟨r', s⟩
  · rw [hm] at hrun
    cases hrun
  · rw [hm] at hrun
    obtain ⟨rfl, rfl⟩ := Prod.mk.inj (Except.ok.inj hrun)
    exact h _ _ _ hm

end Calls

/-! ## Queries -/

/-- **The word a statement begins with** is that of an executor that writes. -/
def Writing (sql : ByteString) : Prop :=
  toUpper ((statement sql).take 6) ∈ [ascii "CREATE", ascii "INSERT", ascii "DELETE"]

instance (sql : ByteString) : Decidable (Writing sql) := inferInstanceAs (Decidable (_ ∈ _))

namespace Storage

variable {σ : Type} {b : Storage σ} {P : σ → Prop} {sql text : ByteString} {s s' : σ}

/-- **A storage whose reading calls keep** what holds of its state. -/
structure ReadsKeep (b : Storage σ) (P : σ → Prop) : Prop where
  openTable : ∀ name, Preserves P (b.openTable name none)
  schemaOf : ∀ name, Preserves P (b.schemaOf name)
  findByRowid : ∀ name rowid, Preserves P (b.findByRowid name rowid)
  scan : ∀ {β : Type} name (cb : Table.Callback β) (st : β), Preserves P (b.scan name cb st)

/-- A look-up or a scan, and what comes of it. -/
theorem ReadsKeep.runSelect (h : b.ReadsKeep P) (tname : ByteString) (schema : Schema)
    (selCols : Option (List ByteString)) (wh : WhereClause) (limit : ℤ) :
    Preserves P (b.runSelect tname schema selCols wh limit) := by
  unfold Storage.runSelect
  simp only
  split
  case h_1 => exact preserves_pure _
  case h_2 outIdx _ =>
    refine preserves_ite (fun _ => ?_) (fun _ => ?_)
    · refine Preserves.bind ((preserves_ofExcept _).bind (fun target =>
        (h.findByRowid _ _).bind (fun row => ?_))) (fun _ => preserves_pure _)
      cases row with
      | none => exact preserves_pure _
      | some row => exact preserves_pure _
    · exact Preserves.bind ((h.scan _ _ _).bind (fun _ => preserves_pure _))
        (fun _ => preserves_pure _)

/-- A join scans both tables. -/
theorem ReadsKeep.joinTables (h : b.ReadsKeep P) (q : JoinStmt) : Preserves P (b.joinTables q) := by
  refine (h.openTable _).bind (fun _ => (h.openTable _).bind (fun _ =>
    (h.schemaOf _).bind (fun ls => (h.schemaOf _).bind (fun rs => ?_))))
  unfold Storage.runJoin
  refine preserves_ite (fun _ => preserves_pure _) (fun _ =>
    preserves_ite (fun _ => preserves_pure _) (fun _ => ?_))
  split
  case h_1 => exact preserves_pure _
  case h_2 =>
    exact Preserves.bind ((h.scan _ _ _).bind (fun _ =>
      (h.scan _ _ _).bind (fun _ => preserves_pure _))) (fun _ => preserves_pure _)

theorem ReadsKeep.execQuery (h : b.ReadsKeep P) : Preserves (fun st => P st.2) b.execQuery := by
  refine preserves_get.bind (fun st => preserves_ite (fun _ => ?_) (fun _ => ?_))
  · exact (preserves_reads _).bind (fun q => preserves_onStorage (h.joinTables q))
  · refine (preserves_reads _).bind (fun _ => (preserves_reads _).bind (fun selCols =>
      (preserves_reads _).bind (fun _ => (preserves_reads _).bind (fun tname =>
        (preserves_onStorage (h.openTable tname)).bind (fun _ =>
          (preserves_onStorage (h.schemaOf tname)).bind (fun schema =>
            (preserves_reads _).bind (fun wh => (preserves_reads _).bind (fun limit => ?_))))))))
    exact preserves_onStorage (h.runSelect tname schema selCols wh limit)

/-- What an executor did for an answer. -/
theorem exec_cases (hexec : b.exec sql s = .ok (text, s')) : (statement sql = [] ∧ s' = s)
      ∨ ∃ r st, b.dispatch (toUpper ((statement sql).take 6)) (tokenize (statement sql), s)
        = .ok (r, st) ∧ st.2 = s' ∧ ∀ a, r = .ok a → a = text := by
  unfold Storage.exec at hexec
  by_cases hnil : statement sql = []
  · simp only [if_pos hnil] at hexec
    exact Or.inl ⟨hnil, (Prod.mk.inj (Except.ok.inj hexec)).2.symm⟩
  simp only [if_neg hnil] at hexec
  refine Or.inr ?_
  rcases hs : b.dispatch (toUpper ((statement sql).take 6)) (tokenize (statement sql), s)
    with f | ⟨x | a, st⟩
  · rw [hs] at hexec
    cases hexec
  · rw [hs] at hexec
    exact ⟨_, st, rfl, (Prod.mk.inj (Except.ok.inj hexec)).2, nofun⟩
  · rw [hs] at hexec
    obtain ⟨rfl, hst⟩ := Prod.mk.inj (Except.ok.inj hexec)
    exact ⟨_, st, rfl, hst, fun a ha => (Except.ok.inj ha).symm⟩

/-- **A statement that does not write** keeps what the reading calls keep. -/
theorem ReadsKeep.exec (h : b.ReadsKeep P) (hsql : ¬ Writing sql)
    (hexec : b.exec sql s = .ok (text, s')) (hs : P s) : P s' := by
  rcases exec_cases hexec with ⟨-, hsame⟩ | ⟨r, st, hrun, rfl, -⟩
  · exact hsame ▸ hs
  unfold Writing at hsql
  generalize toUpper ((statement sql).take 6) = keyword at hrun hsql
  simp only [List.mem_cons, List.not_mem_nil, or_false, not_or] at hsql
  obtain ⟨hcreate, hinsert, hdelete⟩ := hsql
  unfold Storage.dispatch at hrun
  simp only [if_neg hcreate, if_neg hinsert, if_neg hdelete] at hrun
  refine preserves_ite (P := fun st => P st.2) (fun _ => ?_) (fun _ => preserves_pure _) _ r st hs
    hrun
  exact h.execQuery.bind (fun res => preserves_ite (fun _ => preserves_pure _)
    (fun _ => preserves_pure _))

end Storage

/-! ## The calls over the maps -/

section Calls

variable {α : Type}

namespace Database

variable {name : ByteString} {schema : Schema}

/-- A table that is not created. -/
theorem leaves_openTable (name : ByteString) : Leaves id (openTable name none) := by
  intro d r d' h
  cases hd : d name with
  | none =>
    rw [openTable_absent hd] at h
    rw [← (Prod.mk.inj (Except.ok.inj h)).2]
  | some mt =>
    rw [openTable_of_some hd] at h
    rw [← (Prod.mk.inj (Except.ok.inj h)).2]

/-- A table that is created, if need be. -/
theorem atomic_openTable (name : ByteString) (schema : Schema) :
    Atomic id (openTable name (some schema)) (fun _ => True) := by
  intro d r d' h
  cases hd : d name with
  | none =>
    rw [openTable_new hd] at h
    split at h
    · exact Or.inr ⟨(), (Prod.mk.inj (Except.ok.inj h)).1.symm, trivial⟩
    · cases h
  | some mt =>
    rw [openTable_of_some hd] at h
    exact Or.inr ⟨(), (Prod.mk.inj (Except.ok.inj h)).1.symm, trivial⟩

/-- A call that leaves the rows alone. -/
theorem leaves_onTable {m : MapTable → Except StdException α × RowMap}
    (hm : ∀ mt, (m mt).2 = mt.rows) : Leaves id (onTable name m) := by
  intro d r d' h
  cases hd : d name with
  | none =>
    simp only [onTable, hd] at h
    cases h
  | some mt =>
    rw [onTable_of_some hd, hm] at h
    rw [← (Prod.mk.inj (Except.ok.inj h)).2, ← hd]
    exact Function.update_eq_self name d

/-- A call that leaves them alone if it throws. -/
theorem atomic_onTable {m : MapTable → Except StdException α × RowMap}
    (hm : ∀ mt x, (m mt).1 = .error x → (m mt).2 = mt.rows) :
    Atomic id (onTable name m) (fun _ => True) := by
  intro d r d' h
  cases hd : d name with
  | none =>
    simp only [onTable, hd] at h
    cases h
  | some mt =>
    rw [onTable_of_some hd] at h
    obtain ⟨rfl, rfl⟩ := Prod.mk.inj (Except.ok.inj h)
    cases hr : (m mt).1 with
    | error x =>
      refine Or.inl ⟨x, rfl, ?_⟩
      rw [hm mt x hr, ← hd]
      exact Function.update_eq_self name d
    | ok a => exact Or.inr ⟨a, rfl, trivial⟩

theorem atomic_insertRow (name : ByteString) (row : Row) :
    Atomic id (storage.insertRow name row) (fun _ => True) :=
  atomic_onTable (fun _ _ h => by cases h)

theorem atomic_deleteWhere (name : ByteString) (pred : ℕ → Row → Except StdException Bool) :
    Atomic id (storage.deleteWhere name pred) (fun _ => True) := by
  refine atomic_onTable (fun mt x h => ?_)
  rcases hm : RowMap.matching pred mt.rows.all with e | rids
  · rfl
  · simp only [hm] at h
    cases h

/-! ## The executors -/

/-- **An answer that reports a failure.** -/
def Failed (answer : ByteString) : Prop := answer.take 7 = ascii "Error: "

instance (answer : ByteString) : Decidable (Failed answer) := inferInstanceAs (Decidable (_ = _))

/-- A report of what was done. -/
theorem not_failed {text rest : ByteString} {c : UInt8} (htext : text = c :: rest) (hc : c ≠ 69) :
    ¬ Failed text := by
  rintro h
  rw [Failed, htext] at h
  exact hc (List.cons.inj h).1

/-- `exec_create` opens the table when all has been read. -/
theorem atomic_execCreate : Atomic Prod.snd storage.execCreate (fun text => ¬ Failed text) := by
  refine (leaves_reads _).bind_atomic (fun _ => (leaves_reads _).bind_atomic
    (fun _ => (leaves_reads _).bind_atomic (fun more => atomic_ite (fun _ => ?_) (fun _ => ?_))))
  · exact atomic_throw (leaves_reads _) (fun st a st' h => by cases h)
  · refine (leaves_reads _).bind_atomic (fun tname => (leaves_reads _).bind_atomic (fun _ => ?_))
    refine leaves_get.bind_atomic (fun st => (leaves_reads _).bind_atomic (fun cols =>
      (atomic_onStorage (atomic_openTable tname ⟨tname, cols⟩)).answer (fun _ => ?_)))
    exact not_failed rfl (by decide)

/-- `exec_insert` inserts when all has been read. -/
theorem atomic_execInsert : Atomic Prod.snd storage.execInsert (fun text => ¬ Failed text) := by
  refine (leaves_reads _).bind_atomic (fun _ => (leaves_reads _).bind_atomic (fun _ =>
    (leaves_reads _).bind_atomic (fun tname =>
      (leaves_onStorage (leaves_openTable tname)).bind_atomic (fun _ => ?_))))
  refine (leaves_onStorage (leaves_onTable (fun _ => rfl))).bind_atomic (fun schema =>
    (leaves_reads _).bind_atomic (fun colOrder => (leaves_reads _).bind_atomic (fun _ =>
      (leaves_reads _).bind_atomic (fun _ => (leaves_reads _).bind_atomic (fun vals =>
        (leaves_ofExcept _).bind_atomic (fun row => ?_))))))
  exact (atomic_onStorage (atomic_insertRow tname row)).answer
    (fun rowid => not_failed rfl (by decide))

/-- `exec_delete` deletes when all has been read. -/
theorem atomic_execDelete : Atomic Prod.snd storage.execDelete (fun text => ¬ Failed text) := by
  refine (leaves_reads _).bind_atomic (fun _ => (leaves_reads _).bind_atomic
    (fun _ => (leaves_reads _).bind_atomic (fun more => atomic_ite (fun _ => ?_) (fun _ => ?_))))
  · exact atomic_throw (leaves_reads _) (fun st a st' h => by cases h)
  · refine (leaves_reads _).bind_atomic (fun tname =>
      (leaves_onStorage (leaves_openTable tname)).bind_atomic (fun _ =>
        (leaves_onStorage (leaves_onTable (fun _ => rfl))).bind_atomic (fun schema =>
          (leaves_reads _).bind_atomic (fun wh => ?_))))
    exact (atomic_onStorage (atomic_deleteWhere tname _)).answer
      (fun deleted => not_failed rfl (by decide))

/-- **A query** changes nothing. -/
theorem readsKeep (d : Database) : storage.ReadsKeep (· = d) where
  openTable name := leaves_iff.mp (leaves_openTable name) d
  schemaOf _ := leaves_iff.mp (leaves_onTable (fun _ => rfl)) d
  findByRowid _ _ := leaves_iff.mp (leaves_onTable (fun _ => rfl)) d
  scan _ _ _ := leaves_iff.mp (leaves_onTable (fun _ => rfl)) d

/-- **A statement that may change something**: it begins with the word for it,
and it did not fail. -/
def changes (sql answer : ByteString) : Bool :=
  ¬ Failed answer
    ∧ toUpper ((statement sql).take 6) ∈ [ascii "CREATE", ascii "INSERT", ascii "DELETE"]

/-- **A statement that fails or reads** leaves the database as it is. -/
theorem exec_unchanged {sql text : ByteString} {d d' : Database}
    (hexec : storage.exec sql d = .ok (text, d')) (h : ¬ changes sql text = true) : d' = d := by
  by_cases hwriting : Writing sql
  case neg => exact (readsKeep d).exec hwriting hexec rfl
  rcases Storage.exec_cases hexec with ⟨-, hsame⟩ | ⟨r, st, hrun, rfl, htext⟩
  · exact hsame
  -- an executor that writes did not, as its answer says that it failed
  have hfailed : Failed text := by
    by_contra hnot
    exact h (decide_eq_true ⟨hnot, hwriting⟩)
  have hwrote : ∀ m : CursorM Database ByteString, Atomic Prod.snd m (fun text => ¬ Failed text) →
      m (tokenize (statement sql), d) = .ok (r, st) → st.2 = d := by
    intro m hm hrun
    rcases hm _ r st hrun with ⟨x, -, hst⟩ | ⟨a, hr, ha⟩
    · exact hst
    · exact absurd (htext a hr ▸ hfailed) ha
  unfold Writing at hwriting
  generalize toUpper ((statement sql).take 6) = keyword at hrun hwriting
  simp only [List.mem_cons, List.not_mem_nil, or_false] at hwriting
  rcases hwriting with rfl | rfl | rfl
  · exact hwrote _ atomic_execCreate hrun
  · exact hwrote _ atomic_execInsert hrun
  · exact hwrote _ atomic_execDelete hrun

/-- **The log of a session**: what may have changed something, with its
answers. -/
def log (sqls answers : List ByteString) : List (ByteString × ByteString) :=
  kept changes sqls answers

/-- **The log has the effect** of everything. -/
theorem execAll_log (sqls : List ByteString) (d : Database) :
    ∃ d', execAll ((log sqls (execAll sqls d).1).map Prod.fst) d
        = ((log sqls (execAll sqls d).1).map Prod.snd, .ok d')
      ∧ ∀ d₁, (execAll sqls d).2 = .ok d₁ → d₁ = d' := by
  refine runAll_kept (I := fun _ => True) (R := Eq) (fun sql text d d₁ d' _ h hexec _ => ?_)
    (fun sql text d d₁ d' _ h hexec hkeep => ?_) sqls d d (fun _ _ => trivial) rfl
  · subst h
    exact ⟨d₁, hexec, rfl⟩
  · exact (exec_unchanged hexec hkeep).trans h

theorem mem_log {sqls answers : List ByteString} {sql : ByteString}
    (h : sql ∈ (log sqls answers).map Prod.fst) : sql ∈ sqls := by
  obtain ⟨⟨q, answer⟩, hmem, rfl⟩ := List.mem_map.mp h
  exact (List.of_mem_zip (List.mem_filter.mp hmem).1).1

theorem length_log_le (sqls answers : List ByteString) :
    ((log sqls answers).map Prod.fst).length ≤ sqls.length := by
  rw [List.length_map]
  refine (List.length_filter_le _ _).trans ?_
  rw [List.length_zip]
  exact min_le_left _ _

end Database

end Calls

/-! ## The engine -/

/-- **A log is enough** over the arrays of the pages. -/
theorem execAll_replayed {sqls more : List ByteString} {e : Engine}
    (hlen : ∀ sql ∈ sqls ++ more, sql.length ≤ 60000) (hfew : (sqls ++ more).length < 4294967295)
    (hend : (SqlEngine.execAll sqls noTables).2 = .ok e)
    (hroom : ∀ answer ∈ (SqlEngine.execAll (sqls ++ more) noTables).1, ¬ OutOfRoom answer)
    (hroom' : ∀ answer ∈ (SqlEngine.execAll
      ((Database.log sqls (SqlEngine.execAll sqls noTables).1).map Prod.fst ++ more) noTables).1,
        ¬ OutOfRoom answer) :
    (SqlEngine.execAll
        ((Database.log sqls (SqlEngine.execAll sqls noTables).1).map Prod.fst ++ more) noTables).1
      = (Database.log sqls (SqlEngine.execAll sqls noTables).1).map Prod.snd
        ++ (SqlEngine.execAll more e).1 := by
  rw [List.length_append] at hfew
  have hall : (SqlEngine.execAll (sqls ++ more) noTables).1
      = (SqlEngine.execAll sqls noTables).1 ++ (SqlEngine.execAll more e).1 := by
    rw [SqlEngine.execAll, runAll_append, hend]
  rw [hall] at hroom
  -- the session, over the maps
  have hrep : Engine.Represents (more.length + sqls.length) (fun _ => none) noTables .empty :=
    Engine.represents_noTables (by omega)
  obtain ⟨hanswers, hdone⟩ := execAll_eq_database
    (fun sql hmem => hlen sql (List.mem_append_left _ hmem)) hrep
    (fun answer hmem => hroom answer (List.mem_append_left _ hmem))
  rw [hend] at hdone
  obtain ⟨d, hd, hrep'⟩ := hdone
  -- what comes after it
  obtain ⟨hmore, -⟩ := execAll_eq_database (n := 0)
    (fun sql hmem => hlen sql (List.mem_append_right _ hmem)) (by rwa [Nat.zero_add])
    (fun answer hmem => hroom answer (List.mem_append_right _ hmem))
  -- the log
  obtain ⟨d', hlog, hsame⟩ := Database.execAll_log sqls .empty
  obtain rfl := hsame d hd
  rw [hanswers] at hlog
  have hfst := Database.length_log_le sqls (SqlEngine.execAll sqls noTables).1
  have hlen' : ∀ sql ∈ (Database.log sqls (SqlEngine.execAll sqls noTables).1).map Prod.fst ++ more,
      sql.length ≤ 60000 := by
    intro sql hmem
    rcases List.mem_append.mp hmem with hmem | hmem
    · exact hlen sql (List.mem_append_left _ (Database.mem_log hmem))
    · exact hlen sql (List.mem_append_right _ hmem)
  obtain ⟨hreplay, -⟩ := execAll_eq_database (n := 0) hlen'
    (Engine.represents_noTables (by rw [List.length_append]; omega)) hroom'
  rw [← hreplay, Database.execAll, runAll_append]
  rw [Database.execAll] at hlog hmore
  simp only [hlog, hmore]

/-- **A log is enough.** Of a session in an empty directory that did not stop,
the statements that failed or only read may be taken out: the others have the
same answers, and so has whatever comes afterwards. -/
theorem replay_log {fs : FileSystem} {S : ByteString → Prop} {sqls more : List ByteString}
    {p : PooledEngine} (hsep : fs.Separates S) (hconcerns : ∀ sql ∈ sqls ++ more, Concerns S sql)
    (hlen : ∀ sql ∈ sqls ++ more, sql.length ≤ 60000) (hfew : (sqls ++ more).length < 4294967295)
    (hend : (runAll (PooledEngine.storage fs).exec sqls ⟨[], fun _ => .empty⟩).2 = .ok p)
    (hroom : ∀ answer ∈ (runAll (PooledEngine.storage fs).exec (sqls ++ more)
      ⟨[], fun _ => .empty⟩).1, ¬ OutOfRoom answer)
    (hroom' : ∀ answer ∈ (runAll (PooledEngine.storage fs).exec
      ((Database.log sqls (runAll (PooledEngine.storage fs).exec sqls
        ⟨[], fun _ => .empty⟩).1).map Prod.fst ++ more) ⟨[], fun _ => .empty⟩).1,
        ¬ OutOfRoom answer) :
    (runAll (PooledEngine.storage fs).exec
        ((Database.log sqls (runAll (PooledEngine.storage fs).exec sqls
          ⟨[], fun _ => .empty⟩).1).map Prod.fst ++ more) ⟨[], fun _ => .empty⟩).1
      = (Database.log sqls (runAll (PooledEngine.storage fs).exec sqls
          ⟨[], fun _ => .empty⟩).1).map Prod.snd
        ++ (runAll (PooledEngine.storage fs).exec more p).1 := by
  have hframes : 3 ≤ PooledEngine.maxPages := by decide
  -- the same over the arrays of the pages
  have hpools : ∀ qs : List ByteString, (∀ sql ∈ qs, Concerns S sql) →
      (runAll (PooledEngine.storage fs).exec qs ⟨[], fun _ => .empty⟩).1
          = (SqlEngine.execAll qs noTables).1
        ∧ EndAlike (Mirrors fs S PooledEngine.maxPages (fun _ => none))
          (SqlEngine.execAll qs noTables).2
          (runAll (PooledEngine.storage fs).exec qs ⟨[], fun _ => .empty⟩).2 := by
    intro qs hqs
    have hnew := mirrors_new fs S PooledEngine.maxPages (fun _ => .empty)
    rw [FileSystem.view_empty] at hnew
    exact execAll_eq_pooled hframes hsep hqs hnew
  have hsqls : ∀ sql ∈ sqls, Concerns S sql :=
    fun sql hmem => hconcerns sql (List.mem_append_left _ hmem)
  have hmore : ∀ sql ∈ more, Concerns S sql :=
    fun sql hmem => hconcerns sql (List.mem_append_right _ hmem)
  obtain ⟨hanswers, hpool⟩ := hpools sqls hsqls
  have hlog : ∀ sql ∈ (Database.log sqls (SqlEngine.execAll sqls noTables).1).map Prod.fst ++ more,
      Concerns S sql := by
    intro sql hmem
    rcases List.mem_append.mp hmem with hmem | hmem
    · exact hsqls sql (mem_of_kept hmem)
    · exact hmore sql hmem
  rw [hanswers] at hroom' ⊢
  rw [(hpools _ hconcerns).1] at hroom
  rw [(hpools _ hlog).1] at hroom' ⊢
  rcases he : (SqlEngine.execAll sqls noTables).2 with f | e
  · rw [he] at hpool
    cases hend.symm.trans hpool
  · rw [he] at hpool
    obtain ⟨p', hp', hmirrors⟩ := hpool
    obtain rfl := Except.ok.inj (hend.symm.trans hp')
    rw [(execAll_eq_pooled hframes hsep hmore hmirrors).1]
    exact execAll_replayed hlen hfew he hroom hroom'

/-- A session with a row that is inserted, one with a bad value, and a query. -/
def loggedTexts : List ByteString :=
  [createText, insertText, ascii "INSERT INTO t VALUES ('seven')", selectText]

/-- The statement in vain and the query are taken out. -/
theorem replay_log_row : ∃ p,
    (runAll (PooledEngine.storage .oneDirectory).exec loggedTexts ⟨[], fun _ => .empty⟩).2 = .ok p
      ∧ (runAll (PooledEngine.storage .oneDirectory).exec
          ((Database.log loggedTexts (runAll (PooledEngine.storage .oneDirectory).exec loggedTexts
            ⟨[], fun _ => .empty⟩).1).map Prod.fst ++ [selectText]) ⟨[], fun _ => .empty⟩).1
        = (Database.log loggedTexts (runAll (PooledEngine.storage .oneDirectory).exec loggedTexts
            ⟨[], fun _ => .empty⟩).1).map Prod.snd
          ++ (runAll (PooledEngine.storage .oneDirectory).exec [selectText] p).1 := by
  have hdone : (runAll (PooledEngine.storage .oneDirectory).exec loggedTexts
      ⟨[], fun _ => .empty⟩).2.isOk = true := by decide +kernel
  rcases hend : (runAll (PooledEngine.storage .oneDirectory).exec loggedTexts
      ⟨[], fun _ => .empty⟩).2 with f | p
  · rw [hend] at hdone
    cases hdone
  · exact ⟨p, rfl, replay_log FileSystem.separates_oneDirectory (by decide +kernel)
      (by decide +kernel) (by decide) hend (by decide +kernel) (by decide +kernel)⟩
