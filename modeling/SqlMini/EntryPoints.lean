import SqlMini.Statements
import SqlMini.QueryOn

/-!
# The two entry points for a query

`exec` looks at the tokens to tell a join from a query of one table, and
`select` does not: it takes every query for one of one table. The parser of
such a query leaves what it does not read alone, so a join is not turned down
either: it is answered with the rows of its left table.

The two agree exactly on the statements in which no token spells `JOIN`
(`entriesAgree_iff`). Where one does, two tables without columns tell them
apart.
-/

namespace SqlEngine

open Routine Table

variable {q : SelectStmt} {toks : List ByteString} {sql name : ByteString} {e e' : Engine}

/-- **The text of a query** of the grammar. -/
structure QueryText (q : SelectStmt) (sql : ByteString) : Prop where
  /-- It begins with the keyword. -/
  keyword : toUpper ((statement sql).take 6) = ascii "SELECT"
  closed : Closed (statement sql)
  tokens : SelectTokens q (tokenize (statement sql))

/-! ## What a caller sees -/

/-- **The columns, the rows and the error** of a query. An exception is its
message. -/
def seen (r : Except EngineFault (Except StdException SelectResult × Engine)) :
    Except EngineFault (List ByteString × List (List ByteString) × ByteString) :=
  r.map (fun p =>
    match p.1 with
    | .ok res => (res.cols, res.rows, res.error)
    | .error x => ([], [], what x))

/-- The query of `exec`, as `exec` computes it. -/
def computed (sql : ByteString) :
    Engine → Except EngineFault (Except StdException SelectResult × Engine) :=
  effect execQuery (tokenize (statement sql))

/-- What `exec` prints of it. -/
def printed : Except StdException SelectResult → ByteString
  | .ok res => if res.error ≠ [] then ascii "Error: " ++ res.error else prettyPrint res
  | .error x => ascii "Error: " ++ what x

/-- **`exec` prints the query it computes.** -/
theorem exec_of_select (hkeyword : toUpper ((statement sql).take 6) = ascii "SELECT") (e : Engine) :
    exec sql e = (computed sql e).map (fun r => (printed r.1, r.2)) := by
  have hne : statement sql ≠ [] := by
    intro hnil
    rw [hnil] at hkeyword
    cases hkeyword
  have hcreate : ¬ ascii "SELECT" = ascii "CREATE" := by decide
  have hinsert : ¬ ascii "SELECT" = ascii "INSERT" := by decide
  have hdelete : ¬ ascii "SELECT" = ascii "DELETE" := by decide
  unfold exec computed effect
  simp only [if_neg hne, hkeyword, dispatch, if_neg hcreate, if_neg hinsert, if_neg hdelete,
    if_true,
    bind_apply, Routine.bind]
  rcases execQuery ⟨tokenize (statement sql), e⟩ with f | ⟨x | res, st⟩
  · rfl
  · rfl
  · by_cases herr : res.error = []
    · simp only [if_neg (not_not.mpr herr), Except.map, printed]
      rfl
    · simp only [if_pos herr, Except.map, printed]
      rfl

/-- **The two entry points agree** on a statement, whatever the tables
hold. -/
def EntriesAgree (sql : ByteString) : Prop :=
  ∀ e, (select sql e).map (fun r => (r.1.cols, r.1.rows, r.1.error)) = seen (computed sql e)

theorem select_eq (sql : ByteString) (e : Engine) :
    (select sql e).map (fun r => (r.1.cols, r.1.rows, r.1.error))
      = seen (effect execSelect (tokenize sql) e) := by
  unfold select effect seen
  rcases execSelect ⟨tokenize sql, e⟩ with f | ⟨x | res, st⟩
  · rfl
  · rfl
  · rfl

/-! ## Without a join -/

/-- What `exec` leaves off a statement begins no clause. -/
theorem semicolon_head {semi : List ByteString} (h : semi = [] ∨ semi = [ascii ";"]) {s : String}
    (hs : ascii s ≠ ascii ";") : ∀ t ∈ semi.head?, ¬ Keyword s t := by
  intro t ht
  rcases h with rfl | rfl
  · cases ht
  · rw [← Option.some.inj ht]
    exact fun hkw => hs (hkw.symm.trans rfl)

theorem entriesAgree_of_not_join (h : QueryText q sql)
    (hjoin : hasJoin (tokenize (statement sql)) = false) : EntriesAgree sql := by
  intro e
  have hj : q.join = none := by
    rcases hj : q.join with - | j
    · rfl
    · rw [hasJoin_of_join h.tokens hj] at hjoin
      cases hjoin
  obtain ⟨semi, htokens, hsemi⟩ := tokenize_statement h.closed
  rw [select_eq, htokens, effect_execSelect_append h.tokens hj (semicolon_head hsemi (by decide))
    (semicolon_head hsemi (by decide)), computed, effect_execQuery, hjoin,
    if_neg Bool.false_ne_true,
    effect_execSelect h.tokens hj]

/-! ## Two tables without columns -/

/-- A new table without columns. -/
def blank : Table := ⟨⟨[], []⟩, 1, 512⟩

def blankStore : Store := metaStore blank newHeap

/-- Two of them, open. -/
def blanks (left right : ByteString) : Engine :=
  (Engine.single left blank blankStore).put right blank blankStore

theorem blanks_left (left right : ByteString) :
    (blanks left right).tables left = some (blank, blankStore) := by
  by_cases h : left = right
  · rw [h]
    exact put_tables_self
  · exact (put_tables_of_ne h).trans single_tables_self

theorem blanks_right (left right : ByteString) :
    (blanks left right).tables right = some (blank, blankStore) := put_tables_self

/-- **A query of a table without columns** returns no rows, or does not know a
column. -/
theorem runSelect_blank (h : e.tables name = some (blank, blankStore))
    (items : Option (List ByteString)) (wh : WhereClause) (limit : ℤ) :
    ∃ res e', runSelect name blank.schema items wh limit e = .ok (.ok res, e')
      ∧ (res.error = [] ∨ res.error.head? = some 85) := by
  have hfit : blank.schema.Fits := by decide
  have hscan : ∀ outIdx, ∃ f e', selectByScan name blank.schema wh limit outIdx e
      = .ok (.ok f, e') := by
    intro outIdx
    obtain ⟨s', hread, -⟩ := readTable_scan h (Stands.new hfit)
      (selectCallback blank.schema wh limit outIdx) Found.none
    exact ⟨_, _, (bind_of_ok hread).trans rfl⟩
  have hfast : fastPath blank.schema wh = false := by
    unfold fastPath
    simp [blank]
  cases items with
  | none =>
    obtain ⟨f, e', hf⟩ := hscan []
    refine ⟨⟨[], f.rows, [], f.rowsScanned⟩, e', ?_, Or.inl rfl⟩
    unfold runSelect
    simp only [hfast]
    exact bind_of_ok hf
  | some refs =>
    cases refs with
    | nil =>
      obtain ⟨f, e', hf⟩ := hscan []
      refine ⟨⟨[], f.rows, [], f.rowsScanned⟩, e', ?_, Or.inl rfl⟩
      unfold runSelect
      simp only [resolveList, hfast]
      exact bind_of_ok hf
    | cons c cs => exact ⟨⟨_, [], ascii "Unknown column: " ++ c, 0⟩, e, rfl, Or.inr rfl⟩

/-! ## With a join -/

/-- `exec_select` on a table without columns. -/
theorem seen_execSelect_blank {ts : List ByteString} (h : SelectTokens q toks) (hj : q.join = none)
    (hwts : ∀ t ∈ ts.head?, ¬ Keyword "WHERE" t) (hlts : ∀ t ∈ ts.head?, ¬ Keyword "LIMIT" t)
    (he : e.tables q.table = some (blank, blankStore)) :
    ∃ out, seen (effect execSelect (toks ++ ts) e) = .ok out
      ∧ (out.2.2 = [] ∨ out.2.2.head? = some 85 ∨ q.limit ≠ none ∧ out.2.2 = ascii "stoi") := by
  rw [effect_execSelect_append h hj hwts hlts, bind_of_ok (openTable_of_open he),
    bind_of_ok (schemaOf_of_open he)]
  rcases hn : limitOf q.limit with x | n
  · rw [bind_of_throw (ofExcept_apply _ _)]
    refine ⟨([], [], what x), rfl, Or.inr (Or.inr ⟨?_, what_of_limitOf hn⟩)⟩
    intro hnone
    rw [hnone] at hn
    cases hn
  · rw [bind_of_ok (ofExcept_apply _ _)]
    obtain ⟨res, e', hrun, herr⟩ := runSelect_blank he q.items (clauseOf q.wh) n
    rw [hrun]
    exact ⟨(res.cols, res.rows, res.error), rfl, herr.imp_right Or.inl⟩

/-- `exec_join` on two tables without columns. -/
theorem seen_execJoin_blanks {j : JoinPart} (h : SelectTokens q toks) (hj : q.join = some j) :
    ∃ out, seen (effect execJoin toks (blanks q.table j.right)) = .ok out
      ∧ (out.2.2.head? = some 79 ∨ out.2.2 = ascii "stoi") := by
  have hl := blanks_left q.table j.right
  have hr := blanks_right q.table j.right
  rw [effect_execJoin h hj]
  rcases hn : limitOf q.limit with x | n
  · rw [bind_of_throw (ofExcept_apply _ _)]
    exact ⟨_, rfl, Or.inr (what_of_limitOf hn)⟩
  · have hopen : (do openTable q.table none; openTable j.right none : EngineM Unit)
        (blanks q.table j.right) = .ok (.ok (), blanks q.table j.right) :=
      (bind_of_ok (openTable_of_open hl)).trans (openTable_of_open hr)
    let stmt : JoinStmt := ⟨q.items, q.table, j.right, j.onLeft, j.onRight, clauseOf q.wh, n⟩
    have hunknown : blank.schema.findCol (onColumns stmt).1 < 0 := by
      show (-1 : ℤ) < 0
      decide
    rw [bind_of_ok (ofExcept_apply _ _), joinTables_of_open (q := stmt) hopen hl hr,
      runJoin_of_left_unknown hunknown]
    exact ⟨_, rfl, Or.inl rfl⟩

/-- **What `exec_select` reads of a join** is the query of its left table. -/
theorem SelectTokens.front {j : JoinPart} (h : SelectTokens q toks) (hj : q.join = some j) :
    ∃ front t rest, toks = front ++ t :: rest
      ∧ SelectTokens ⟨q.items, q.table, none, none, none⟩ front
      ∧ ∀ s ∈ ["WHERE", "LIMIT"], ¬ Keyword s t := by
  cases h with
  | @mk select frm items joins wheres limits hselect hitems hfrom hjoin hwhere hlimit =>
  rw [hj] at hjoin
  have hfront : SelectTokens ⟨q.items, q.table, none, none, none⟩
      (select :: (items ++ frm :: q.table :: ([] ++ ([] ++ [])))) :=
    .mk (q := ⟨q.items, q.table, none, none, none⟩) hselect hitems hfrom .absent .absent .absent
  have hsplit : ∀ t rest, select :: (items ++ frm :: q.table :: (t :: rest))
      = select :: (items ++ frm :: q.table :: ([] ++ ([] ++ []))) ++ t :: rest := by
    intro t rest
    simp only [List.nil_append, List.cons_append, List.append_assoc]
  have hclause : ∀ {kw : String} {t : ByteString}, Keyword kw t → ascii kw ≠ ascii "WHERE" →
      ascii kw ≠ ascii "LIMIT" → ∀ s ∈ ["WHERE", "LIMIT"], ¬ Keyword s t := by
    intro kw t hkw hw hl s hs
    rcases List.mem_cons.mp hs with rfl | hs
    · exact hkw.ne hw
    · obtain rfl := List.mem_singleton.mp hs
      exact hkw.ne hl
  cases hjoin with
  | join hjoin hon j =>
    exact ⟨_, _, _, hsplit _ _, hfront, hclause hjoin (by decide) (by decide)⟩
  | innerJoin hinner hjoin hon j =>
    exact ⟨_, _, _, hsplit _ _, hfront, hclause hinner (by decide) (by decide)⟩

/-- **Where a token spells `JOIN`** the two entry points differ on tables
without columns. -/
theorem not_entriesAgree_of_join (h : QueryText q sql)
    (hjoin : hasJoin (tokenize (statement sql)) = true) : ¬ EntriesAgree sql := by
  intro hagree
  obtain ⟨semi, htokens, hsemi⟩ := tokenize_statement h.closed
  have hdiff : ∀ {e} {out out' : List ByteString × List (List ByteString) × ByteString},
      seen (effect execSelect (tokenize sql) e) = .ok out →
      seen (effect execJoin (tokenize (statement sql)) e) = .ok out' → out.2.2 = out'.2.2 := by
    intro e out out' hsel hexec
    have he := hagree e
    rw [select_eq, hsel, computed, effect_execQuery, hjoin, if_pos rfl, hexec] at he
    rw [Except.ok.inj he]
  rcases hj : q.join with - | j
  · -- the join's parser turns the statement down
    obtain ⟨out, hsel, herr⟩ := seen_execSelect_blank h.tokens hj
      (semicolon_head hsemi (by decide)) (semicolon_head hsemi (by decide))
      (blanks_left q.table q.table)
    rw [← htokens] at hsel
    obtain ⟨m, hm⟩ := effect_execJoin_of_none h.tokens hj (blanks q.table q.table)
    have hexec : seen (effect execJoin (tokenize (statement sql)) (blanks q.table q.table))
        = .ok ([], [], ascii "Syntax error near '" ++ m) := by
      rw [hm]
      rfl
    have heq := hdiff hsel hexec
    rw [heq] at herr
    rcases herr with herr | herr | ⟨-, herr⟩
    · cases herr
    · cases herr
    · cases herr
  · obtain ⟨out', hexec, herr'⟩ := seen_execJoin_blanks h.tokens hj
    obtain ⟨front, t, rest, htoks, hfront, hclause⟩ := h.tokens.front hj
    have hhead : ∀ s ∈ ["WHERE", "LIMIT"], ∀ u ∈ (t :: (rest ++ semi)).head?, ¬ Keyword s u := by
      intro s hs u hu
      rw [← Option.some.inj hu]
      exact hclause s hs
    obtain ⟨out, hsel, herr⟩ := seen_execSelect_blank hfront rfl (hhead _ (by simp))
      (hhead _ (by simp)) (blanks_left q.table j.right)
    have hall : tokenize sql = front ++ t :: (rest ++ semi) := by
      rw [htokens, htoks, List.append_assoc, List.cons_append]
    rw [← hall] at hsel
    have heq := hdiff hsel hexec
    rw [heq] at herr
    rcases herr with herr | herr | ⟨hlimit, -⟩
    · rw [herr] at herr'
      rcases herr' with h' | h'
      · cases h'
      · cases h'
    · rcases herr' with h' | h'
      · rw [h'] at herr
        cases herr
      · rw [h'] at herr
        cases herr
    · exact hlimit rfl

/-- **The two entry points agree** on a query exactly if no token of it spells
`JOIN`: it has no join, and no name or literal is the word. -/
theorem entriesAgree_iff (h : QueryText q sql) :
    (∀ e, exec sql e = (computed sql e).map (fun r => (printed r.1, r.2)))
      ∧ (EntriesAgree sql ↔ hasJoin (tokenize (statement sql)) = false) := by
  refine ⟨exec_of_select h.keyword, fun hagree => ?_, entriesAgree_of_not_join h⟩
  by_contra hno
  rw [Bool.not_eq_false] at hno
  exact not_entriesAgree_of_join h hno hagree

/-- `SELECT * FROM a WHERE x = 1`. -/
def whereQuery : SelectStmt := ⟨none, ascii "a", none, some ⟨ascii "x", ascii "=", ascii "1"⟩, none⟩

theorem whereQuery_tokens : SelectTokens whereQuery [ascii "SELECT", ascii "*", ascii "FROM",
    ascii "a", ascii "WHERE", ascii "x", ascii "=", ascii "1"] :=
  .mk (q := whereQuery) (show Keyword "SELECT" (ascii "SELECT") from rfl) .star
    (show Keyword "FROM" (ascii "FROM") from rfl) .absent
    (.clause (show Keyword "WHERE" (ascii "WHERE") from rfl) _) .absent

theorem entriesAgree_iff_whereQuery :
    (∀ e, exec (ascii "SELECT * FROM a WHERE x = 1;") e
        = (computed (ascii "SELECT * FROM a WHERE x = 1;") e).map (fun r => (printed r.1, r.2)))
      ∧ (EntriesAgree (ascii "SELECT * FROM a WHERE x = 1;")
        ↔ hasJoin (tokenize (statement (ascii "SELECT * FROM a WHERE x = 1;"))) = false) :=
  entriesAgree_iff (q := whereQuery)
    ⟨by decide, closed_of_not_quote _ _ le_rfl (List.forall_iff_forall_mem.mp (by decide)),
      whereQuery_tokens⟩

/-- **On a join of two empty tables** `select` returns the columns of the left
one. -/
theorem not_entriesAgree : ¬ EntriesAgree (ascii "SELECT * FROM a JOIN b ON a.x = b.y")
    ∧ (select (ascii "SELECT * FROM a JOIN b ON a.x = b.y") emptyPair).map
        (fun r => (r.1.cols, r.1.rows, r.1.error)) = .ok ([ascii "x"], [], [])
    ∧ seen (computed (ascii "SELECT * FROM a JOIN b ON a.x = b.y") emptyPair)
      = .ok ([ascii "a.x", ascii "b.y"], [], []) := by
  have hselect : (select (ascii "SELECT * FROM a JOIN b ON a.x = b.y") emptyPair).map
      (fun r => (r.1.cols, r.1.rows, r.1.error)) = .ok ([ascii "x"], [], []) := rfl
  have hexec : seen (computed (ascii "SELECT * FROM a JOIN b ON a.x = b.y") emptyPair)
      = .ok ([ascii "a.x", ascii "b.y"], [], []) := rfl
  refine ⟨fun hagree => ?_, hselect, hexec⟩
  have h := hagree emptyPair
  rw [hselect, hexec] at h
  exact absurd (Prod.mk.inj (Except.ok.inj h)).1 (by decide)

end SqlEngine
