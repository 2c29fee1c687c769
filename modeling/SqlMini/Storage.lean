import SqlMini.Simulation
import SqlMini.Creation
import SqlMini.Statements

/-!
# The executors over any storage

The executors call their tables in six ways: they open one by its name, take
its schema, insert a row, look a rowid up, scan, and delete by predicate.
`Storage σ` is a supplier of these calls over states `σ`, and the executors are
repeated over it, with the same parsers, which never look at the engine
(`Parses`). The engine itself is the storage `SqlEngine.storage`.

A storage mimics the engine if each of the calls does what the call of the
engine does, under a relation of the states (`Storage.Mimics`). Then every
statement does the same over the storage as in the engine
(`Storage.Mimics.stepAlike_exec`).

A relation may allow for a number of insertions: it is indexed by how many are
still to come, and an insertion takes one.
-/

open SqlEngine Routine

/-- A step on a storage. -/
abbrev StorageM (σ : Type) := Routine EngineFault StdException σ

/-- A step of an executor over a storage, behind a list of tokens. -/
abbrev CursorM (σ : Type) := Routine EngineFault StdException (List ByteString × σ)

/-- **A storage**: the calls that the executors make. -/
structure Storage (σ : Type) where
  /-- `open_table`. -/
  openTable : ByteString → Option Schema → StorageM σ Unit
  /-- `table->schema()`. -/
  schemaOf : ByteString → StorageM σ Schema
  /-- `table->insert_row`. -/
  insertRow : ByteString → Row → StorageM σ ℕ
  /-- `table->find_by_rowid`. -/
  findByRowid : ByteString → ℕ → StorageM σ (Option Row)
  /-- `table->scan`. -/
  scan : {β : Type} → ByteString → Table.Callback β → β → StorageM σ (ℕ × β)
  /-- `table->delete_where`. -/
  deleteWhere : ByteString → (ℕ → Row → Except StdException Bool) → StorageM σ ℕ

variable {σ α β : Type}

/-- A parser reads the tokens behind the cursor. -/
def reads (m : ExecM α) : CursorM σ α := fun st =>
  (m ⟨st.1, noTables⟩).map (fun r => (r.1, (r.2.toks, st.2)))

/-- A step on the storage leaves the cursor where it is. -/
def onStorage (m : StorageM σ α) : CursorM σ α := fun st =>
  (m st.2).map (fun r => (r.1, (st.1, r.2)))

namespace Storage

variable (b : Storage σ)

/-- `exec_create`. -/
def execCreate : CursorM σ ByteString := do
  reads (expectNamed "CREATE")
  reads (expectNamed "TABLE")
  if !(← reads (ahead (fun _ => true))) then reads (fail (ascii "Expected table name"))
  else
    let tname ← reads next
    reads (expectNamed "(")
    let st ← get
    let cols ← reads (columnDefs st.1.length)
    onStorage (b.openTable tname (some ⟨tname, cols⟩))
    return ascii "Table '" ++ tname ++ ascii "' created with " ++ CppString.digitsOf cols.length
      ++ ascii " column(s)."

/-- `exec_insert`. -/
def execInsert : CursorM σ ByteString := do
  reads (expectPlain "INSERT")
  reads (expectPlain "INTO")
  let tname ← reads next
  onStorage (b.openTable tname none)
  let schema ← onStorage (b.schemaOf tname)
  let colOrder ← reads columnList
  reads (expectPlain "VALUES")
  reads (expectPlain "(")
  let vals ← reads (list closes)
  let row ← ofExcept (insertedRow schema colOrder vals)
  let rowid ← onStorage (b.insertRow tname row)
  return ascii "Inserted 1 row (rowid=" ++ CppString.digitsOf rowid ++ ascii ")."

/-- The look-up of `exec_select` by rowid. -/
def selectByRowid (tname : ByteString) (wh : WhereClause) (outIdx : List ℕ) : StorageM σ Found := do
  let target ← ofExcept (CppString.stoi wh.val)
  let row ← b.findByRowid tname target.toUInt
  match row with
  | some row => return (Found.none.scanned).add (outIdx.map (field row))
  | none => return Found.none

/-- The scan of `exec_select`. -/
def selectByScan (tname : ByteString) (schema : Schema) (wh : WhereClause) (limit : ℤ)
    (outIdx : List ℕ) : StorageM σ Found := do
  let r ← b.scan tname (selectCallback schema wh limit outIdx) Found.none
  return r.2

/-- What `exec_select` does with a statement it has parsed. -/
def runSelect (tname : ByteString) (schema : Schema) (selCols : Option (List ByteString))
    (wh : WhereClause) (limit : ℤ) : StorageM σ SelectResult := do
  let cols := selCols.getD (schema.cols.map Column.name)
  match (match selCols with
    | none => .ok (List.range schema.cols.length)
    | some refs => resolveList schema refs : Except ByteString (List ℕ)) with
  | .error c =>
    return ⟨cols.takeWhile (fun c => 0 ≤ schema.findCol c), [], ascii "Unknown column: " ++ c, 0⟩
  | .ok outIdx =>
    let f ← if fastPath schema wh then b.selectByRowid tname wh outIdx
      else b.selectByScan tname schema wh limit outIdx
    return ⟨cols, f.rows, [], f.rowsScanned⟩

/-- `exec_select`. -/
def execSelect : CursorM σ SelectResult := do
  reads (expectPlain "SELECT")
  let selCols ← reads selectList
  reads (expectPlain "FROM")
  let tname ← reads next
  onStorage (b.openTable tname none)
  let schema ← onStorage (b.schemaOf tname)
  let wh ← reads whereClause
  let limit ← reads limitClause
  onStorage (b.runSelect tname schema selCols wh limit)

/-- `exec_delete`. -/
def execDelete : CursorM σ ByteString := do
  reads (expectNamed "DELETE")
  reads (expectNamed "FROM")
  if !(← reads (ahead (fun _ => true))) then reads (fail (ascii "Expected table name"))
  else
    let tname ← reads next
    onStorage (b.openTable tname none)
    let schema ← onStorage (b.schemaOf tname)
    let wh ← reads whereClause
    let deleted ← onStorage (b.deleteWhere tname (fun _ row => matchWhere row schema wh))
    return ascii "Deleted " ++ CppString.digitsOf deleted ++ ascii " row(s)."

/-- The two scans of a join. -/
def joinScans (q : JoinStmt) (names : List ByteString) (outIdx : List ℕ) (onLi onRi : ℕ) :
    StorageM σ Found := do
  let right ← b.scan q.rightName (rightCallback onRi) []
  let left ← b.scan q.leftName (leftCallback names q.wh q.limit outIdx onLi right.2) Found.none
  return left.2

/-- What `exec_join` does with a statement whose tables it has opened. -/
def runJoin (q : JoinStmt) (ls rs : Schema) : StorageM σ SelectResult := do
  let names := combinedCols q.leftName ls ++ combinedCols q.rightName rs
  let on := onColumns q
  let onLi := ls.findCol on.1
  let onRi := rs.findCol on.2
  if onLi < 0 then
    return ⟨[], [], ascii "ON: unknown column '" ++ on.1 ++ ascii "' in " ++ q.leftName, 0⟩
  else if onRi < 0 then
    return ⟨[], [], ascii "ON: unknown column '" ++ on.2 ++ ascii "' in " ++ q.rightName, 0⟩
  else
    match (match q.selRefs with
      | none => .ok (List.range names.length)
      | some refs => resolveRefs names refs : Except ByteString (List ℕ)) with
    | .error message =>
      let known := (q.selRefs.getD []).takeWhile (fun ref => 0 ≤ resolveCol ref names)
      return ⟨known.map (fun ref => names.getD (resolveCol ref names).toNat []), [], message, 0⟩
    | .ok outIdx =>
      let f ← b.joinScans q names outIdx onLi.toNat onRi.toNat
      return ⟨outIdx.map (fun ci => names.getD ci []), f.rows, [], f.rowsScanned⟩

/-- What `exec_join` does with a statement it has parsed. -/
def joinTables (q : JoinStmt) : StorageM σ SelectResult := do
  b.openTable q.leftName none
  b.openTable q.rightName none
  let ls ← b.schemaOf q.leftName
  let rs ← b.schemaOf q.rightName
  b.runJoin q ls rs

/-- `exec_join`. -/
def execJoin : CursorM σ SelectResult := do
  let q ← reads parseJoin
  onStorage (b.joinTables q)

/-- The query of a `SELECT` given to `exec`. -/
def execQuery : CursorM σ SelectResult := do
  let st ← get
  if hasJoin st.1 then b.execJoin else b.execSelect

/-- The executor that the first six characters choose. -/
def dispatch (keyword : ByteString) : CursorM σ ByteString :=
  if keyword = ascii "CREATE" then b.execCreate
  else if keyword = ascii "INSERT" then b.execInsert
  else if keyword = ascii "DELETE" then b.execDelete
  else if keyword = ascii "SELECT" then do
    let res ← b.execQuery
    if res.error ≠ [] then return ascii "Error: " ++ res.error
    else return prettyPrint res
  else
    return ascii
      "Error: Unknown statement. Supported: CREATE TABLE, INSERT INTO, SELECT, DELETE FROM."

/-- `SQLEngine::exec`. -/
def exec (rawSql : ByteString) (s : σ) : Except EngineFault (ByteString × σ) :=
  let sql := statement rawSql
  if sql = [] then .ok ([], s)
  else
    match b.dispatch (toUpper (sql.take 6)) (tokenize sql, s) with
    | .error f => .error f
    | .ok (.ok text, st) => .ok (text, st.2)
    | .ok (.error x, st) => .ok (ascii "Error: " ++ what x, st.2)

/-- **The same statement**, for the executors: the first six characters and the
tokens are all they see. -/
def SameStatement (sql sql' : ByteString) : Prop :=
  (statement sql = [] ↔ statement sql' = [])
    ∧ toUpper ((statement sql).take 6) = toUpper ((statement sql').take 6)
    ∧ tokenize (statement sql) = tokenize (statement sql')

instance (sql sql' : ByteString) : Decidable (SameStatement sql sql') :=
  inferInstanceAs (Decidable (_ ∧ _ ∧ _))

theorem exec_congr {sql sql' : ByteString} (h : SameStatement sql sql') (s : σ) :
    b.exec sql s = b.exec sql' s := by
  obtain ⟨hnil, hkeyword, htoks⟩ := h
  unfold exec
  simp only [hnil, hkeyword, htoks]

end Storage

/-! ## Parsers do not look at the engine -/

/-- What a parser does with the tokens: its outcome and the tokens it leaves. -/
abbrev Reading (α : Type) :=
  List ByteString → Except EngineFault (Except StdException α × List ByteString)

/-- **A parser**: what it does is decided by the tokens, and it leaves the end
of them. -/
def Parses (m : ExecM α) : Prop :=
  ∃ f : Reading α, (∀ ts e, m ⟨ts, e⟩ = (f ts).map (fun r => (r.1, ⟨r.2, e⟩)))
    ∧ ∀ ts r rest, f ts = .ok (r, rest) → rest <:+ ts

theorem parses_pure (a : α) : Parses (pure a : ExecM α) :=
  ⟨fun ts => .ok (.ok a, ts), fun _ _ => rfl, fun ts r rest h => by
    rw [← (Prod.mk.inj (Except.ok.inj h)).2]⟩

theorem parses_fail (message : ByteString) : Parses (fail message : ExecM α) :=
  ⟨fun ts => .ok (.error (.runtimeError message), ts), fun _ _ => rfl, fun ts r rest h => by
    rw [← (Prod.mk.inj (Except.ok.inj h)).2]⟩

theorem parses_ofExcept (r : Except StdException α) : Parses (ofExcept r : ExecM α) := by
  refine ⟨fun ts => .ok (r, ts), fun ts e => ofExcept_apply _ _, fun ts r' rest h => ?_⟩
  rw [← (Prod.mk.inj (Except.ok.inj h)).2]

/-- What `next` does. -/
def nextReading : Reading ByteString
  | [] => .error .pastEnd
  | t :: ts => .ok (.ok t, ts)

theorem parses_next : Parses next := by
  refine ⟨nextReading, fun ts e => ?_, fun ts r rest h => ?_⟩
  · cases ts with
    | nil => rfl
    | cons t ts => rfl
  · cases ts with
    | nil => cases h
    | cons t ts =>
      rw [← (Prod.mk.inj (Except.ok.inj h)).2]
      exact List.suffix_cons t ts

/-- What `ahead` does. -/
def aheadReading (p : ByteString → Bool) : Reading Bool
  | [] => .ok (.ok false, [])
  | t :: ts => .ok (.ok (p t), t :: ts)

theorem parses_ahead (p : ByteString → Bool) : Parses (ahead p) := by
  refine ⟨aheadReading p, fun ts e => ?_, fun ts r rest h => ?_⟩
  · cases ts with
    | nil => rfl
    | cons t ts => rfl
  · cases ts with
    | nil => rw [← (Prod.mk.inj (Except.ok.inj h)).2]
    | cons t ts => rw [← (Prod.mk.inj (Except.ok.inj h)).2]

theorem parses_skip : Parses skip :=
  ⟨fun ts => .ok (.ok (), ts.tail), fun _ _ => rfl, fun ts r rest h => by
    rw [← (Prod.mk.inj (Except.ok.inj h)).2]
    exact List.tail_suffix ts⟩

theorem commaList_suffix (stops : ByteString → Bool) : ∀ ts : List ByteString,
    (commaList stops ts).2 <:+ ts
  | [] => List.suffix_refl []
  | [t] => by
    rw [commaList]
    split
    · exact List.suffix_refl [t]
    · exact List.nil_suffix
  | t :: u :: ts => by
    rw [commaList]
    split
    · exact List.suffix_refl _
    · split
      · exact (commaList_suffix stops ts).trans
          ((List.suffix_cons u ts).trans (List.suffix_cons t _))
      · exact (commaList_suffix stops (u :: ts)).trans (List.suffix_cons t _)

theorem parses_list (stops : ByteString → Bool) : Parses (list stops) :=
  ⟨fun ts => .ok (.ok (commaList stops ts).1, (commaList stops ts).2), fun _ _ => rfl,
    fun ts r rest h => by
      rw [← (Prod.mk.inj (Except.ok.inj h)).2]
      exact commaList_suffix stops ts⟩

/-- **One parser after another.** -/
theorem Parses.bind {m : ExecM α} {k : α → ExecM β} (hm : Parses m) (hk : ∀ a, Parses (k a)) :
    Parses (m >>= k) := by
  obtain ⟨f, hf, hsuffix⟩ := hm
  choose g hg hrest using hk
  refine ⟨fun ts => match f ts with
    | .error x => .error x
    | .ok (.error x, rest) => .ok (.error x, rest)
    | .ok (.ok a, rest) => g a rest, fun ts e => ?_, fun ts r rest h => ?_⟩
  · rw [bind_apply, Routine.bind, hf ts e]
    rcases hts : f ts with x | ⟨x | a, rest⟩
    · simp only [hts]
      rfl
    · simp only [hts]
      rfl
    · simp only [hts]
      exact hg a rest e
  · rcases hts : f ts with x | ⟨x | a, rest₁⟩
    · simp only [hts] at h
      cases h
    · simp only [hts] at h
      rw [← (Prod.mk.inj (Except.ok.inj h)).2]
      exact hsuffix ts _ _ hts
    · simp only [hts] at h
      exact (hrest a rest₁ r rest h).trans (hsuffix ts _ _ hts)

theorem parses_ite {p : Prop} [Decidable p] {m m' : ExecM α} (hm : Parses m) (hm' : Parses m') :
    Parses (if p then m else m') := by
  split
  · exact hm
  · exact hm'

/-- What `expectToken` does. -/
def tokenReading (ending s : ByteString) : Reading Unit
  | [] => .ok (.error (.runtimeError (ascii "Syntax error near '" ++ ascii "EOF" ++ ascii "'"
      ++ ending)), [])
  | t :: ts => if spells s t then .ok (.ok (), ts)
      else .ok (.error (.runtimeError (ascii "Syntax error near '" ++ t ++ ascii "'" ++ ending)),
        t :: ts)

theorem parses_expectToken (ending s : ByteString) : Parses (expectToken ending s) := by
  refine ⟨tokenReading ending s, fun ts e => ?_, fun ts r rest h => ?_⟩
  · unfold expectToken
    cases ts with
    | nil => rfl
    | cons t ts =>
      rw [bind_of_ok ahead_cons]
      by_cases hs : spells s t = true
      · simp only [tokenReading, hs, if_true]
        rfl
      · simp only [tokenReading, hs, if_neg Bool.false_ne_true]
        rfl
  · cases ts with
    | nil =>
      rw [← (Prod.mk.inj (Except.ok.inj h)).2]
    | cons t ts =>
      rw [tokenReading] at h
      split at h
      · rw [← (Prod.mk.inj (Except.ok.inj h)).2]
        exact List.suffix_cons t ts
      · rw [← (Prod.mk.inj (Except.ok.inj h)).2]

theorem parses_expectPlain (s : String) : Parses (expectPlain s) := parses_expectToken _ _

theorem parses_expectNamed (s : String) : Parses (expectNamed s) := parses_expectToken _ _

theorem parses_selectList : Parses selectList :=
  (parses_ahead _).bind (fun _ => parses_ite (parses_skip.bind (fun _ => parses_pure _))
    ((parses_list _).bind (fun _ => parses_pure _)))

theorem parses_whereClause : Parses whereClause :=
  (parses_ahead _).bind (fun _ => parses_ite (parses_skip.bind (fun _ => parses_next.bind (fun _ =>
    parses_next.bind (fun _ => parses_next.bind (fun _ => parses_pure _))))) (parses_pure _))

theorem parses_limitClause : Parses limitClause :=
  (parses_ahead _).bind (fun _ => parses_ite (parses_skip.bind (fun _ => parses_next.bind (fun _ =>
    (parses_ofExcept _).bind (fun _ => parses_pure _)))) (parses_pure _))

theorem parses_columnList : Parses columnList :=
  (parses_ahead _).bind (fun _ => parses_ite (parses_skip.bind (fun _ => (parses_list _).bind
    (fun _ => parses_skip.bind (fun _ => parses_pure _)))) (parses_pure _))

theorem parses_columnDef : Parses columnDef := by
  refine parses_next.bind (fun cname => (parses_ahead _).bind (fun _ => parses_ite (parses_fail _)
    (parses_next.bind (fun ctype => parses_ite (parses_pure _) (parses_ite ?_ (parses_fail _))))))
  refine (parses_ahead _).bind (fun _ =>
    parses_ite (parses_skip.bind (fun _ => ?_)) (parses_pure _))
  refine Parses.bind ?_ (fun maxLen => (parses_ahead _).bind (fun _ =>
    parses_ite (parses_skip.bind (fun _ => parses_pure _)) (parses_pure _)))
  exact (parses_ahead _).bind (fun _ => parses_ite (parses_next.bind (fun n =>
    (parses_ofExcept _).bind (fun _ => parses_pure _))) (parses_pure _))

theorem parses_columnDefs : ∀ n, Parses (columnDefs n)
  | 0 => parses_pure []
  | n + 1 => (parses_ahead _).bind (fun _ => parses_ite (parses_columnDef.bind (fun _ =>
      (parses_ahead _).bind (fun _ => parses_ite
        (parses_skip.bind (fun _ => (parses_columnDefs n).bind (fun _ => parses_pure _)))
        ((parses_columnDefs n).bind (fun _ => parses_pure _))))) (parses_pure _))

theorem parses_parseJoin : Parses parseJoin := by
  have hon : ∀ selRefs leftName, Parses (do
      expectNamed "JOIN"
      let rightName ← next
      expectNamed "ON"
      let onLeft ← next
      expectNamed "="
      let onRight ← next
      let wh ← whereClause
      let limit ← limitClause
      return (⟨selRefs, leftName, rightName, onLeft, onRight, wh, limit⟩ : JoinStmt)) :=
    fun selRefs leftName => (parses_expectNamed _).bind (fun _ => parses_next.bind (fun _ =>
      (parses_expectNamed _).bind (fun _ => parses_next.bind (fun _ => (parses_expectNamed _).bind
        (fun _ => parses_next.bind (fun _ => parses_whereClause.bind (fun _ =>
          parses_limitClause.bind (fun _ => parses_pure _))))))))
  exact (parses_expectNamed _).bind (fun _ => parses_selectList.bind (fun _ =>
    (parses_expectNamed _).bind (fun _ => parses_next.bind (fun _ => (parses_ahead _).bind
      (fun _ => parses_ite (parses_skip.bind (fun _ => hon _ _)) (hon _ _))))))

/-! ## The engine as a storage -/

/-- **The engine as a storage.** -/
def SqlEngine.storage : Storage Engine where
  openTable := openTable
  schemaOf := schemaOf
  insertRow name row := do
    let r ← onTable name (fun t => t.insertRow row)
    ofExcept r
  findByRowid name rowid := readTable name (fun t => t.findByRowid rowid)
  scan name cb st := do
    let r ← readTable name (fun t => t.scan cb st)
    ofExcept r
  deleteWhere name pred := do
    let r ← readTable name (fun t => t.deleteWhere pred)
    ofExcept r

/-- The state of an executor, as a list of tokens beside an engine. -/
def ExecState.parts (st : ExecState) : List ByteString × Engine := (st.toks, st.engine)

/-- **The same routine**, with tokens and engine side by side. -/
def Carries (m : ExecM α) (m' : CursorM Engine α) : Prop :=
  ∀ ts e, m' (ts, e) = (m ⟨ts, e⟩).map (fun r => (r.1, r.2.parts))

theorem carries_pure (a : α) : Carries (pure a) (pure a) := fun _ _ => rfl

theorem carries_ofExcept (r : Except StdException α) : Carries (ofExcept r) (ofExcept r) := by
  intro ts e
  rw [ofExcept_apply, ofExcept_apply]
  rfl

theorem Parses.carries {m : ExecM α} (h : Parses m) : Carries m (reads m) := by
  obtain ⟨f, hf, -⟩ := h
  intro ts e
  rw [reads, hf ts noTables, hf ts e]
  rcases f ts with x | r
  · rfl
  · rfl

theorem carries_onEngine (m : EngineM α) : Carries (onEngine m) (onStorage m) := by
  intro ts e
  rw [onStorage, onEngine]
  rcases m e with x | r
  · rfl
  · rfl

theorem Carries.bind {m : ExecM α} {m' : CursorM Engine α} {k : α → ExecM β}
    {k' : α → CursorM Engine β} (hm : Carries m m') (hk : ∀ a, Carries (k a) (k' a)) :
    Carries (m >>= k) (m' >>= k') := by
  intro ts e
  have h := hm ts e
  rcases hs : m ⟨ts, e⟩ with f | ⟨x | a, st⟩
  · rw [hs] at h
    rw [bind_of_stop hs, bind_of_stop h]
    rfl
  · rw [hs] at h
    rw [bind_of_throw hs, bind_of_throw h]
    rfl
  · rw [hs] at h
    rw [bind_of_ok hs, bind_of_ok h]
    exact hk a st.toks st.engine

/-- A call that returns an exception, and throws it. -/
theorem carries_onEngine_bind {m : EngineM (Except StdException α)} {k : α → ExecM β}
    {k' : α → CursorM Engine β} (hk : ∀ a, Carries (k a) (k' a)) :
    Carries (do let r ← onEngine m; let a ← ofExcept r; k a)
      (do let a ← onStorage (do let r ← m; ofExcept r); k' a) := by
  intro ts e
  rcases hm : m e with f | ⟨x | r, e'⟩
  · rw [bind_of_stop (show onEngine m ⟨ts, e⟩ = .error f by rw [onEngine, hm]; rfl),
      bind_of_stop (show onStorage _ (ts, e) = .error f by rw [onStorage, bind_of_stop hm]; rfl)]
    rfl
  · rw [bind_of_throw (show onEngine m ⟨ts, e⟩ = .ok (.error x, ⟨ts, e'⟩) by
        rw [onEngine, hm]; rfl),
      bind_of_throw (show onStorage _ (ts, e) = .ok (.error x, (ts, e')) by
        rw [onStorage, bind_of_throw hm]; rfl)]
    rfl
  · rw [bind_of_ok (show onEngine m ⟨ts, e⟩ = .ok (.ok r, ⟨ts, e'⟩) by rw [onEngine, hm]; rfl)]
    have hs : onStorage (do let r ← m; ofExcept r) (ts, e) = .ok (r, (ts, e')) := by
      rw [onStorage, bind_of_ok hm, ofExcept_apply]
      rfl
    cases r with
    | error x =>
      rw [bind_of_throw (ofExcept_apply _ _), bind_of_throw hs]
      rfl
    | ok a =>
      rw [bind_of_ok (ofExcept_apply _ _), bind_of_ok hs]
      exact hk a ts e'

theorem carries_ite {p : Prop} [Decidable p] {m n : ExecM α} {m' n' : CursorM Engine α}
    (hm : Carries m m') (hn : Carries n n') :
    Carries (if p then m else n) (if p then m' else n') := by
  split
  · exact hm
  · exact hn

/-- A look at the tokens. -/
theorem carries_get_bind {k : ExecState → ExecM α}
    {k' : List ByteString × Engine → CursorM Engine α}
    (h : ∀ st, Carries (k st) (k' st.parts)) : Carries (get >>= k) (get >>= k') := by
  intro ts e
  rw [bind_of_ok (get_apply _), bind_of_ok (get_apply _)]
  exact h ⟨ts, e⟩ ts e

theorem carries_execCreate : Carries execCreate storage.execCreate := by
  refine (parses_expectNamed _).carries.bind (fun _ => (parses_expectNamed _).carries.bind
    (fun _ => (parses_ahead _).carries.bind (fun _ => carries_ite (parses_fail _).carries ?_)))
  refine parses_next.carries.bind (fun tname => (parses_expectNamed _).carries.bind (fun _ => ?_))
  refine carries_get_bind (fun st => (parses_columnDefs _).carries.bind (fun cols => ?_))
  exact (carries_onEngine _).bind (fun _ => carries_pure _)

theorem carries_execInsert : Carries execInsert storage.execInsert := by
  refine (parses_expectPlain _).carries.bind (fun _ => (parses_expectPlain _).carries.bind
    (fun _ => parses_next.carries.bind (fun tname => (carries_onEngine _).bind (fun _ =>
      (carries_onEngine _).bind (fun schema => ?_)))))
  refine parses_columnList.carries.bind (fun colOrder => (parses_expectPlain _).carries.bind
    (fun _ => (parses_expectPlain _).carries.bind (fun _ => (parses_list _).carries.bind
      (fun vals => (carries_ofExcept _).bind (fun row => ?_)))))
  exact carries_onEngine_bind (fun _ => carries_pure _)

theorem storage_selectByScan (tname : ByteString) (schema : Schema) (wh : WhereClause) (limit : ℤ)
    (outIdx : List ℕ) : storage.selectByScan tname schema wh limit outIdx
      = selectByScan tname schema wh limit outIdx := bind_assoc _ _ _

theorem storage_runSelect (tname : ByteString) (schema : Schema)
    (selCols : Option (List ByteString)) (wh : WhereClause) (limit : ℤ) :
    storage.runSelect tname schema selCols wh limit = runSelect tname schema selCols wh limit := by
  unfold Storage.runSelect runSelect
  simp only [storage_selectByScan]
  rfl

theorem storage_joinScans (q : JoinStmt) (names : List ByteString) (outIdx : List ℕ)
    (onLi onRi : ℕ) : storage.joinScans q names outIdx onLi onRi
      = joinScans q names outIdx onLi onRi := by
  refine (bind_assoc _ _ _).trans (congrArg (_ >>= ·) (funext fun r => ?_))
  exact congrArg (ofExcept r >>= ·) (funext fun right => bind_assoc _ _ _)

theorem storage_joinTables (q : JoinStmt) : storage.joinTables q = joinTables q := by
  unfold Storage.joinTables joinTables Storage.runJoin runJoin
  simp only [storage_joinScans]
  rfl

theorem carries_execSelect : Carries execSelect storage.execSelect := by
  refine (parses_expectPlain _).carries.bind (fun _ => parses_selectList.carries.bind
    (fun selCols => (parses_expectPlain _).carries.bind (fun _ => parses_next.carries.bind
      (fun tname => (carries_onEngine _).bind (fun _ =>
        (carries_onEngine _).bind (fun schema => ?_))))))
  refine parses_whereClause.carries.bind (fun _ => parses_limitClause.carries.bind (fun _ => ?_))
  rw [storage_runSelect]
  exact carries_onEngine _

theorem carries_execDelete : Carries execDelete storage.execDelete := by
  refine (parses_expectNamed _).carries.bind (fun _ => (parses_expectNamed _).carries.bind
    (fun _ => (parses_ahead _).carries.bind (fun _ => carries_ite (parses_fail _).carries ?_)))
  refine parses_next.carries.bind (fun tname => (carries_onEngine _).bind (fun _ =>
    (carries_onEngine _).bind (fun schema => parses_whereClause.carries.bind (fun wh => ?_))))
  exact carries_onEngine_bind (fun _ => carries_pure _)

theorem carries_execQuery : Carries execQuery storage.execQuery := by
  refine carries_get_bind (fun _ => carries_ite (parses_parseJoin.carries.bind (fun q => ?_))
    carries_execSelect)
  rw [storage_joinTables]
  exact carries_onEngine _

theorem carries_dispatch (keyword : ByteString) :
    Carries (SqlEngine.dispatch keyword) (storage.dispatch keyword) :=
  carries_ite carries_execCreate (carries_ite carries_execInsert (carries_ite carries_execDelete
    (carries_ite (carries_execQuery.bind (fun _ => carries_ite (carries_pure _) (carries_pure _)))
      (carries_pure _))))

/-- **The executors over the engine as a storage** are those of the engine. -/
theorem storage_exec (rawSql : ByteString) (e : Engine) :
    storage.exec rawSql e = SqlEngine.exec rawSql e := by
  unfold Storage.exec SqlEngine.exec
  refine if_congr Iff.rfl rfl ?_
  rw [carries_dispatch]
  rcases SqlEngine.dispatch _ ⟨_, e⟩ with f | ⟨x | text, st⟩
  · rfl
  · rfl
  · rfl
