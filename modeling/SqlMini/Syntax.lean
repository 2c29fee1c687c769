import SqlMini.Storage

/-!
# The syntax of the language

The four statements that the header of the engine documents as syntax trees
(`Stmt`), and the texts that write them (`Writes`): the first six characters are
the keyword, and the tokens are those of the grammar.

Over every storage, a text is executed as the statement that it writes
(`Storage.exec_of_writes`). What is left of an executor behind its parser are
the calls of `Storage.perform`.
-/

namespace SqlEngine

/-- **A statement of the language.** -/
inductive Stmt where
  | create (table : ByteString) (decls : List ColumnDecl)
  | insert (st : InsertStmt)
  | delete (table : ByteString) (wh : Option Predicate)
  | select (q : SelectStmt)

/-- The keyword that a statement begins with. -/
def Stmt.keyword : Stmt → String
  | .create _ _ => "CREATE"
  | .insert _ => "INSERT"
  | .delete _ _ => "DELETE"
  | .select _ => "SELECT"

/-- **The tokens of a statement.** The values of an insertion end at the first
literal `)`, and a query must not have a `JOIN` among its tokens but for its
own. -/
inductive Spells : Stmt → List ByteString → Prop
  | create {table : ByteString} {decls : List ColumnDecl} {toks rest : List ByteString}
      (h : Declares table decls toks rest) : Spells (.create table decls) toks
  | insert {st : InsertStmt} {toks : List ByteString} (h : InsertTokens st toks) :
      Spells (.insert { st with vals := st.vals.takeWhile (fun v => !closes v) }) toks
  | delete {table : ByteString} {wh : Option Predicate} {toks : List ByteString}
      (h : DeleteTokens table wh toks) : Spells (.delete table wh) toks
  | select {q : SelectStmt} {toks : List ByteString} (h : SelectTokens q toks)
      (hjoin : hasJoin toks = q.join.isSome) : Spells (.select q) toks

/-- **A text of a statement.** -/
structure Writes (st : Stmt) (sql : ByteString) : Prop where
  /-- The first six characters choose the executor. -/
  keyword : toUpper ((statement sql).take 6) = ascii st.keyword
  /-- The tokens are those of the statement. -/
  tokens : Spells st (tokenize (statement sql))

/-- The columns of a declaration are read. -/
theorem columnDefs_of_declared {decls : List ColumnDecl} {ts rest : List ByteString} {e : Engine}
    {n : ℕ} (h : DeclaredColumns decls ts rest) (hn : ts.length ≤ n) :
    columnDefs n ⟨ts, e⟩ = .ok (.ok (decls.map ColumnDecl.column), ⟨rest, e⟩) := by
  have hread : ReadColumns (decls.map ColumnDecl.column) ts rest :=
    readColumns_iff.mpr ⟨decls, h, rfl⟩
  obtain ⟨cols, st, hrun, rfl, rfl⟩ := (returns_columnDefs (Q := fun cols st =>
    cols = decls.map ColumnDecl.column ∧ st = ⟨rest, e⟩) n ts hn).mpr ⟨_, rest, hread, rfl, rfl⟩
  exact hrun

end SqlEngine

open SqlEngine Routine

namespace Storage

variable {σ α β : Type} (b : Storage σ) {st : Stmt} {q : SelectStmt} {toks ts ts' : List ByteString}
  {s : σ} {t : ByteString}

/-! ## Executors behind their parsers -/

/-- **What a step does to the storage**, wherever it leaves the cursor. -/
def outcome (m : CursorM σ α) (ts : List ByteString) (s : σ) :
    Except EngineFault (Except StdException α × σ) :=
  (m (ts, s)).map (fun r => (r.1, r.2.2))

section Outcome

variable {m : ExecM α} {k : α → CursorM σ β} {a : α} {x : StdException}

theorem outcome_reads_of_ok (h : m ⟨ts, noTables⟩ = .ok (.ok a, ⟨ts', noTables⟩)) :
    outcome (reads m >>= k) ts s = outcome (k a) ts' s := by
  have hreads : reads m (ts, s) = .ok (.ok a, (ts', s)) := by
    rw [reads, h]
    rfl
  unfold outcome
  rw [bind_of_ok hreads]

theorem outcome_reads_of_throw (h : m ⟨ts, noTables⟩ = .ok (.error x, ⟨ts', noTables⟩)) :
    outcome (reads m >>= k) ts s = .ok (.error x, s) := by
  have hreads : reads m (ts, s) = .ok (.error x, (ts', s)) := by
    rw [reads, h]
    rfl
  unfold outcome
  rw [bind_of_throw hreads]
  rfl

theorem outcome_onStorage (n : StorageM σ α) (ts : List ByteString) (s : σ) :
    outcome (onStorage n) ts s = n s := by
  unfold outcome onStorage
  rcases n s with f | ⟨r, s'⟩
  · rfl
  · rfl

/-- **A call of the storage** comes before a rest that starts from the same
tokens. -/
theorem outcome_onStorage_bind (n : StorageM σ α) (k : α → CursorM σ β) (ts : List ByteString)
    (s : σ) : outcome (onStorage n >>= k) ts s
      = Routine.bind n (fun a s => outcome (k a) ts s) s := by
  unfold Routine.bind
  rcases hn : n s with f | ⟨x | a, s'⟩
  · have h : onStorage n (ts, s) = .error f := by
      rw [onStorage, hn]
      rfl
    rw [outcome, bind_of_stop h]
    rfl
  · have h : onStorage n (ts, s) = .ok (.error x, (ts, s')) := by
      rw [onStorage, hn]
      rfl
    rw [outcome, bind_of_throw h]
    rfl
  · have h : onStorage n (ts, s) = .ok (.ok a, (ts, s')) := by
      rw [onStorage, hn]
      rfl
    rw [outcome, bind_of_ok h]
    rfl

theorem outcome_ofExcept_bind (r : Except StdException α) (k : α → CursorM σ β)
    (ts : List ByteString) (s : σ) : outcome (ofExcept r >>= k) ts s
      = Routine.bind (ofExcept r) (fun a s => outcome (k a) ts s) s := by
  cases r with
  | ok a => rfl
  | error x => rfl

end Outcome

/-! ## Statements -/

/-- **The execution of a query.** -/
def runQuery (q : SelectStmt) : StorageM σ SelectResult :=
  match q.join with
  | none => do
    b.openTable q.table none
    let schema ← b.schemaOf q.table
    let limit ← ofExcept (limitOf q.limit)
    b.runSelect q.table schema q.items (clauseOf q.wh) limit
  | some j => do
    let limit ← ofExcept (limitOf q.limit)
    b.joinTables ⟨q.items, q.table, j.right, j.onLeft, j.onRight, clauseOf q.wh, limit⟩

/-- **The execution of a statement.** -/
def perform : Stmt → StorageM σ ByteString
  | .create table decls => do
    b.openTable table (some ⟨table, decls.map ColumnDecl.column⟩)
    return created table (decls.map ColumnDecl.column)
  | .insert st => do
    b.openTable st.table none
    let schema ← b.schemaOf st.table
    let row ← ofExcept (insertedRow schema st.cols st.vals)
    let rowid ← b.insertRow st.table row
    return ascii "Inserted 1 row (rowid=" ++ CppString.digitsOf rowid ++ ascii ")."
  | .delete table wh => do
    b.openTable table none
    let schema ← b.schemaOf table
    let deleted ← b.deleteWhere table (fun _ row => matchWhere row schema (clauseOf wh))
    return ascii "Deleted " ++ CppString.digitsOf deleted ++ ascii " row(s)."
  | .select q => do
    let res ← b.runQuery q
    if res.error ≠ [] then return ascii "Error: " ++ res.error
    else return prettyPrint res

/-- `exec_create` on a declaration. -/
theorem outcome_execCreate {table : ByteString} {decls : List ColumnDecl} {rest : List ByteString}
    (h : Declares table decls toks rest) (s : σ) :
    outcome b.execCreate toks s = b.perform (.create table decls) s := by
  cases h with
  | @mk create kw paren _ ts _ hcreate htable _ hparen hcols =>
  unfold execCreate perform
  rw [outcome_reads_of_ok (expectNamed_of_keyword hcreate),
    outcome_reads_of_ok (expectNamed_of_keyword htable), outcome_reads_of_ok ahead_cons]
  simp only [Bool.not_true, if_neg Bool.false_ne_true]
  rw [outcome_reads_of_ok next_cons, outcome_reads_of_ok (expectNamed_of_keyword hparen)]
  have hget : ∀ k : List ByteString × σ → CursorM σ ByteString,
      outcome (get >>= k) ts s = outcome (k (ts, s)) ts s := fun _ => rfl
  rw [hget, outcome_reads_of_ok (columnDefs_of_declared hcols le_rfl), outcome_onStorage_bind]
  rfl

/-- `exec_insert` on an insertion. -/
theorem outcome_execInsert {st : InsertStmt} (h : InsertTokens st toks) (s : σ) :
    outcome b.execInsert toks s
      = b.perform (.insert { st with vals := st.vals.takeWhile (fun v => !closes v) }) s := by
  cases h with
  | mk hinsert hinto hcols hvalues hvals =>
  unfold execInsert perform
  rw [outcome_reads_of_ok (expectPlain_of_keyword hinsert),
    outcome_reads_of_ok (expectPlain_of_keyword hinto), outcome_reads_of_ok next_cons,
    outcome_onStorage_bind]
  refine congrFun (congrArg (Routine.bind _) ?_) s
  funext _ s
  rw [outcome_onStorage_bind]
  refine congrFun (congrArg (Routine.bind _) ?_) s
  funext schema s
  rw [outcome_reads_of_ok (columnList_tokens hcols hvalues),
    outcome_reads_of_ok (expectPlain_of_keyword hvalues),
    outcome_reads_of_ok (expectPlain_of_keyword (show Keyword "(" (ascii "(") from rfl)),
    outcome_reads_of_ok list_apply, commaList_closes, outcome_ofExcept_bind]
  refine congrFun (congrArg (Routine.bind _) ?_) s
  funext row s
  rw [outcome_onStorage_bind]
  rfl

/-- `exec_delete` on a deletion. -/
theorem outcome_execDelete {table : ByteString} {wh : Option Predicate}
    (h : DeleteTokens table wh toks) (s : σ) :
    outcome b.execDelete toks s = b.perform (.delete table wh) s := by
  cases h with
  | @mk delete frm wheres hdelete hfrom hwhere =>
  have hclause : whereClause ⟨wheres ++ [], noTables⟩ = .ok (.ok (clauseOf wh), ⟨[], noTables⟩) :=
    whereClause_tokens hwhere no_keyword_nil
  rw [List.append_nil] at hclause
  unfold execDelete perform
  rw [outcome_reads_of_ok (expectNamed_of_keyword hdelete),
    outcome_reads_of_ok (expectNamed_of_keyword hfrom), outcome_reads_of_ok ahead_cons]
  simp only [Bool.not_true, if_neg Bool.false_ne_true]
  rw [outcome_reads_of_ok next_cons, outcome_onStorage_bind]
  refine congrFun (congrArg (Routine.bind _) ?_) s
  funext _ s
  rw [outcome_onStorage_bind]
  refine congrFun (congrArg (Routine.bind _) ?_) s
  funext schema s
  rw [outcome_reads_of_ok hclause, outcome_onStorage_bind]
  rfl

/-- `exec_select` on a query without a join. -/
theorem outcome_execSelect (h : SelectTokens q toks) (hj : q.join = none) (s : σ) :
    outcome b.execSelect toks s = b.runQuery q s := by
  cases h with
  | @mk select frm items joins wheres limits hselect hitems hfrom hjoin hwhere hlimit =>
  rw [hj] at hjoin
  cases hjoin
  unfold execSelect runQuery
  simp only [hj, List.nil_append]
  rw [outcome_reads_of_ok (expectPlain_of_keyword hselect),
    outcome_reads_of_ok (selectList_tokens hitems hfrom),
    outcome_reads_of_ok (expectPlain_of_keyword hfrom), outcome_reads_of_ok next_cons,
    outcome_onStorage_bind]
  refine congrFun (congrArg (Routine.bind _) ?_) s
  funext _ s
  rw [outcome_onStorage_bind]
  refine congrFun (congrArg (Routine.bind _) ?_) s
  funext schema s
  rw [outcome_reads_of_ok (whereClause_tokens hwhere hlimit.head_ne_where)]
  have hnumber := limitClause_tokens (e := noTables) hlimit
  rw [bind_apply, Routine.bind, ofExcept_apply]
  cases hn : limitOf q.limit with
  | ok n =>
    rw [hn] at hnumber
    rw [outcome_reads_of_ok hnumber, outcome_onStorage]
  | error x =>
    rw [hn] at hnumber
    exact outcome_reads_of_throw hnumber

/-- `exec_join` on a query with a join. -/
theorem outcome_execJoin {j : JoinPart} (h : SelectTokens q toks) (hj : q.join = some j) (s : σ) :
    outcome b.execJoin toks s = b.runQuery q s := by
  have hparse := parseJoin_tokens (e := noTables) h hj
  unfold execJoin runQuery
  simp only [hj]
  rw [bind_apply, Routine.bind, ofExcept_apply]
  cases hn : limitOf q.limit with
  | ok n =>
    rw [hn] at hparse
    rw [outcome_reads_of_ok hparse, outcome_onStorage]
  | error x =>
    rw [hn] at hparse
    exact outcome_reads_of_throw hparse

/-- A query goes to the executor of its form. -/
theorem outcome_execQuery (h : SelectTokens q toks) (hjoin : hasJoin toks = q.join.isSome) (s : σ) :
    outcome b.execQuery toks s = b.runQuery q s := by
  have hget : outcome b.execQuery toks s
      = outcome (if hasJoin toks then b.execJoin else b.execSelect) toks s := rfl
  rw [hget, hjoin]
  rcases hj : q.join with - | j
  · exact b.outcome_execSelect h hj s
  · exact b.outcome_execJoin h hj s

/-- The print of a query. -/
def execPrinted : CursorM σ ByteString := do
  let res ← b.execQuery
  if res.error ≠ [] then return ascii "Error: " ++ res.error
  else return prettyPrint res

/-- The executor of a keyword. -/
theorem dispatch_keyword (st : Stmt) : b.dispatch (ascii st.keyword) = match st with
    | .create _ _ => b.execCreate
    | .insert _ => b.execInsert
    | .delete _ _ => b.execDelete
    | .select _ => b.execPrinted := by
  have hic : ascii "INSERT" ≠ ascii "CREATE" := by decide
  have hdc : ascii "DELETE" ≠ ascii "CREATE" := by decide
  have hdi : ascii "DELETE" ≠ ascii "INSERT" := by decide
  have hsc : ascii "SELECT" ≠ ascii "CREATE" := by decide
  have hsi : ascii "SELECT" ≠ ascii "INSERT" := by decide
  have hsd : ascii "SELECT" ≠ ascii "DELETE" := by decide
  unfold dispatch
  cases st with
  | create => exact if_pos rfl
  | insert => exact (if_neg hic).trans (if_pos rfl)
  | delete => exact (if_neg hdc).trans ((if_neg hdi).trans (if_pos rfl))
  | select => exact (if_neg hsc).trans ((if_neg hsi).trans ((if_neg hsd).trans (if_pos rfl)))

/-- The print of a query is that of its result. -/
theorem outcome_execPrinted (h : SelectTokens q toks) (hjoin : hasJoin toks = q.join.isSome)
    (s : σ) : outcome b.execPrinted toks s = b.perform (.select q) s := by
  have hperform : b.perform (.select q) s = Routine.bind (b.runQuery q) (fun res => do
      if res.error ≠ [] then return ascii "Error: " ++ res.error
      else return prettyPrint res) s := rfl
  rw [hperform, Routine.bind, ← b.outcome_execQuery h hjoin s]
  unfold outcome execPrinted
  rw [bind_apply, Routine.bind]
  rcases b.execQuery (toks, s) with x | ⟨x | res, st⟩
  · rfl
  · rfl
  · show Except.map (fun r => (r.1, r.2.2)) ((if res.error ≠ [] then
        pure (ascii "Error: " ++ res.error) else pure (prettyPrint res) : CursorM σ ByteString) st)
      = (if res.error ≠ [] then pure (ascii "Error: " ++ res.error)
        else pure (prettyPrint res) : StorageM σ ByteString) st.2
    by_cases herr : res.error ≠ []
    · rw [if_pos herr, if_pos herr]
      rfl
    · rw [if_neg herr, if_neg herr]
      rfl

/-- **The executor of the keyword** executes the statement. -/
theorem outcome_dispatch (h : Spells st toks) (s : σ) :
    outcome (b.dispatch (ascii st.keyword)) toks s = b.perform st s := by
  rw [dispatch_keyword]
  cases h with
  | create h => exact b.outcome_execCreate h s
  | insert h => exact b.outcome_execInsert h s
  | delete h => exact b.outcome_execDelete h s
  | select h hjoin => exact b.outcome_execPrinted h hjoin s

/-- The answer to a statement that may have thrown. -/
def answered : Except EngineFault (Except StdException ByteString × σ) →
    Except EngineFault (ByteString × σ)
  | .error f => .error f
  | .ok (.ok text, s) => .ok (text, s)
  | .ok (.error x, s) => .ok (ascii "Error: " ++ what x, s)

/-- **A text is executed as the statement it writes**, over every storage. -/
theorem exec_of_writes {sql : ByteString} (h : Writes st sql) (s : σ) :
    b.exec sql s = answered (b.perform st s) := by
  have hne : statement sql ≠ [] := by
    intro hnil
    have hkeyword := h.keyword
    rw [hnil] at hkeyword
    cases st with
    | create _ _ => exact absurd hkeyword (show ¬ [] = ascii "CREATE" by decide)
    | insert _ => exact absurd hkeyword (show ¬ [] = ascii "INSERT" by decide)
    | delete _ _ => exact absurd hkeyword (show ¬ [] = ascii "DELETE" by decide)
    | select _ => exact absurd hkeyword (show ¬ [] = ascii "SELECT" by decide)
  refine (if_neg hne).trans ?_
  rw [h.keyword, ← b.outcome_dispatch h.tokens s]
  unfold outcome
  rcases b.dispatch (ascii st.keyword) (tokenize (statement sql), s) with f | ⟨x | text, st⟩
  · rfl
  · rfl
  · rfl

end Storage
