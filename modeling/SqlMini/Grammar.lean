import SqlMini.Cursor

/-!
# The documented statements

The grammar the header of the engine documents, as the token lists of each
statement: keywords in any case, names and literals as the tokens they are.
A query is one form, with a join, a `WHERE` and a `LIMIT` each there or not.

On such a token list each executor is the execution of the statement: what the
parser reads is what the grammar says, and the rest works on the engine alone
(`execSelect_eq`, `execJoin_eq`).
-/

namespace SqlEngine

open Routine

/-! ## Queries -/

/-- The predicate of a `WHERE`. -/
structure Predicate where
  col : ByteString
  op : ByteString
  val : ByteString

/-- The join of a query. -/
structure JoinPart where
  right : ByteString
  onLeft : ByteString
  onRight : ByteString

/-- **A query.** -/
structure SelectStmt where
  /-- The select list, `none` for `*`. -/
  items : Option (List ByteString)
  table : ByteString
  join : Option JoinPart
  wh : Option Predicate
  limit : Option ByteString

/-- The tokens of a select list: a star, or references with commas between
them. -/
inductive ItemTokens : Option (List ByteString) → List ByteString → Prop
  | star : ItemTokens none [ascii "*"]
  | refs (c : ByteString) (cs : List ByteString) (hstar : c ≠ ascii "*")
      (hfrom : ∀ x ∈ c :: cs, ¬ Keyword "FROM" x) :
      ItemTokens (some (c :: cs)) (separated (c :: cs))

/-- The tokens of a join. -/
inductive JoinTokens : Option JoinPart → List ByteString → Prop
  | absent : JoinTokens none []
  | join {join on : ByteString} (hjoin : Keyword "JOIN" join) (hon : Keyword "ON" on)
      (j : JoinPart) :
      JoinTokens (some j) [join, j.right, on, j.onLeft, ascii "=", j.onRight]
  | innerJoin {inner join on : ByteString} (hinner : Keyword "INNER" inner)
      (hjoin : Keyword "JOIN" join) (hon : Keyword "ON" on) (j : JoinPart) :
      JoinTokens (some j) [inner, join, j.right, on, j.onLeft, ascii "=", j.onRight]

/-- The tokens of a `WHERE`. -/
inductive WhereTokens : Option Predicate → List ByteString → Prop
  | absent : WhereTokens none []
  | clause {kw : ByteString} (hkw : Keyword "WHERE" kw) (p : Predicate) :
      WhereTokens (some p) [kw, p.col, p.op, p.val]

/-- The tokens of a `LIMIT`. -/
inductive LimitTokens : Option ByteString → List ByteString → Prop
  | absent : LimitTokens none []
  | clause {kw : ByteString} (hkw : Keyword "LIMIT" kw) (n : ByteString) :
      LimitTokens (some n) [kw, n]

/-- **The tokens of a query.** -/
inductive SelectTokens (q : SelectStmt) : List ByteString → Prop
  | mk {select frm : ByteString} {items joins wheres limits : List ByteString}
      (hselect : Keyword "SELECT" select) (hitems : ItemTokens q.items items)
      (hfrom : Keyword "FROM" frm) (hjoin : JoinTokens q.join joins)
      (hwhere : WhereTokens q.wh wheres) (hlimit : LimitTokens q.limit limits) :
      SelectTokens q (select :: (items ++ frm :: q.table :: (joins ++ (wheres ++ limits))))

/-! ## What the clauses say -/

/-- The clause of a predicate. -/
def clauseOf : Option Predicate → WhereClause
  | none => ⟨false, [], [], []⟩
  | some p => ⟨true, p.col, p.op, p.val⟩

/-- The number of a limit. -/
def limitOf : Option ByteString → Except StdException ℤ
  | none => .ok (-1)
  | some n => (CppString.stoi n).map Subtype.val

/-- What `std::stoi` throws carries its name. -/
theorem what_of_stoi {s : ByteString} {x : StdException} (h : CppString.stoi s = .error x) :
    what x = ascii "stoi" := by
  unfold CppString.stoi at h
  generalize CppString.splitSign (s.dropWhile CppString.isSpace) = r at h
  obtain ⟨neg, rest⟩ := r
  simp only at h
  by_cases hdigits : rest.takeWhile CppString.isDigit = []
  · rw [if_pos hdigits] at h
    rw [← Except.error.inj h]
    rfl
  · rw [if_neg hdigits] at h
    generalize (if neg = true then _ else _ : ℤ) = v at h
    by_cases hv : -2147483648 ≤ v ∧ v ≤ 2147483647
    · rw [dif_pos hv] at h
      cases h
    · rw [dif_neg hv] at h
      rw [← Except.error.inj h]
      rfl

theorem what_of_limitOf {l : Option ByteString} {x : StdException} (h : limitOf l = .error x) :
    what x = ascii "stoi" := by
  cases l with
  | none => cases h
  | some n =>
    rcases hn : CppString.stoi n with y | z
    · simp only [limitOf, hn] at h
      rw [← Except.error.inj h]
      exact what_of_stoi hn
    · simp only [limitOf, hn] at h
      cases h

variable {q : SelectStmt} {toks ts : List ByteString} {e : Engine} {t : ByteString}

theorem spells_from_comma : spells (ascii "FROM") (ascii ",") = false := by decide

/-- **The select list** is read up to `FROM`. -/
theorem selectList_tokens {items : Option (List ByteString)} (h : ItemTokens items toks)
    (ht : Keyword "FROM" t) : selectList ⟨toks ++ t :: ts, e⟩ = .ok (.ok items, ⟨t :: ts, e⟩) := by
  cases h with
  | star => exact selectList_star
  | refs c cs hstar hfrom =>
    have hhead : ∀ x ∈ (separated (c :: cs) ++ t :: ts).head?, x ≠ ascii "*" := by
      intro x hx
      have hxc : x = c := by
        cases cs with
        | nil => exact (Option.some.inj hx).symm
        | cons d cs => exact (Option.some.inj hx).symm
      rw [hxc]
      exact hstar
    have hlist := commaList_separated spells_from_comma (c :: cs) (t :: ts)
      (fun x hx => spells_eq_false.mpr (hfrom x hx))
      (fun x hx => by rw [← Option.some.inj hx]; exact spells_eq_true.mpr ht)
    rw [selectList_of_ne hhead, hlist]

theorem whereClause_tokens {w : Option Predicate} (h : WhereTokens w toks)
    (hts : ∀ t ∈ ts.head?, ¬ Keyword "WHERE" t) :
    whereClause ⟨toks ++ ts, e⟩ = .ok (.ok (clauseOf w), ⟨ts, e⟩) := by
  cases h with
  | absent => exact whereClause_of_not hts
  | clause hkw p => exact whereClause_of_keyword hkw p.col p.op p.val

/-- There is no keyword at the end. -/
theorem no_keyword_nil {s : String} : ∀ t ∈ ([] : List ByteString).head?, ¬ Keyword s t := by simp

theorem limitClause_append {l : Option ByteString} (h : LimitTokens l toks)
    (hts : ∀ t ∈ ts.head?, ¬ Keyword "LIMIT" t) :
    limitClause ⟨toks ++ ts, e⟩ = .ok (limitOf l, ⟨ts, e⟩) := by
  cases h with
  | absent => exact limitClause_of_not hts
  | clause hkw n => exact limitClause_of_keyword hkw n

theorem limitClause_tokens {l : Option ByteString} (h : LimitTokens l toks) :
    limitClause ⟨toks, e⟩ = .ok (limitOf l, ⟨[], e⟩) := by
  have hlimit := limitClause_append (e := e) h no_keyword_nil
  rwa [List.append_nil] at hlimit

/-- No `LIMIT` is a `WHERE`. -/
theorem LimitTokens.head_ne_where {l : Option ByteString} (h : LimitTokens l toks) :
    ∀ t ∈ toks.head?, ¬ Keyword "WHERE" t := by
  cases h with
  | absent => simp
  | clause hkw n =>
    intro t ht
    rw [← Option.some.inj ht]
    exact hkw.ne (by decide)

/-- No `WHERE` or `LIMIT` is an `INNER` or a `JOIN`. -/
theorem clauses_head {w : Option Predicate} {l : Option ByteString}
    {wheres limits : List ByteString}
    (hw : WhereTokens w wheres) (hl : LimitTokens l limits) {s : String}
    (h1 : ascii "WHERE" ≠ ascii s) (h2 : ascii "LIMIT" ≠ ascii s) :
    ∀ t ∈ (wheres ++ limits).head?, ¬ Keyword s t := by
  intro t ht
  cases hw with
  | absent =>
    cases hl with
    | absent => cases ht
    | clause hkw n =>
      rw [← Option.some.inj ht]
      exact hkw.ne h2
  | clause hkw p =>
    rw [← Option.some.inj ht]
    exact hkw.ne h1

/-- **The clauses** of a query, before what is done with them: what follows them
is left alone, if it does not begin a clause. -/
theorem effect_clauses {w : Option Predicate} {l : Option ByteString}
    {wheres limits : List ByteString} (hw : WhereTokens w wheres) (hl : LimitTokens l limits)
    (hwts : ∀ t ∈ ts.head?, ¬ Keyword "WHERE" t) (hlts : ∀ t ∈ ts.head?, ¬ Keyword "LIMIT" t)
    {α : Type} (k : WhereClause → ℤ → ExecM α) :
    effect (do let wh ← whereClause; let limit ← limitClause; k wh limit)
        (wheres ++ (limits ++ ts)) e
      = Routine.bind (ofExcept (limitOf l) : EngineM ℤ)
        (fun n e => effect (k (clauseOf w) n) ts e) e := by
  have hhead : ∀ t ∈ (limits ++ ts).head?, ¬ Keyword "WHERE" t := by
    cases hl with
    | absent => exact hwts
    | clause hkw n => exact fun t ht => Option.some.inj ht ▸ hkw.ne (by decide)
  rw [effect_bind_of_ok (whereClause_tokens hw hhead)]
  have hlimit := limitClause_append (e := e) hl hlts
  unfold Routine.bind
  rw [ofExcept_apply]
  cases hn : limitOf l with
  | ok n =>
    rw [hn] at hlimit
    exact effect_bind_of_ok hlimit
  | error x =>
    rw [hn] at hlimit
    exact effect_bind_of_throw hlimit

/-! ## What the executors do -/

/-- **`exec_select`** on a query without a join, and whatever follows it. -/
theorem effect_execSelect_append (h : SelectTokens q toks) (hj : q.join = none)
    (hwts : ∀ t ∈ ts.head?, ¬ Keyword "WHERE" t) (hlts : ∀ t ∈ ts.head?, ¬ Keyword "LIMIT" t)
    (e : Engine) :
    effect execSelect (toks ++ ts) e = (do
      openTable q.table none
      let schema ← schemaOf q.table
      let limit ← ofExcept (limitOf q.limit)
      runSelect q.table schema q.items (clauseOf q.wh) limit : EngineM SelectResult) e := by
  cases h with
  | @mk select frm items joins wheres limits hselect hitems hfrom hjoin hwhere hlimit =>
  rw [hj] at hjoin
  cases hjoin
  have htoks : select :: (items ++ frm :: q.table :: ([] ++ (wheres ++ limits))) ++ ts
      = select :: (items ++ frm :: q.table :: (wheres ++ (limits ++ ts))) := by
    simp only [List.nil_append, List.cons_append, List.append_assoc]
  rw [htoks]
  unfold execSelect
  rw [effect_bind_of_ok (expectPlain_of_keyword hselect),
    effect_bind_of_ok (selectList_tokens hitems hfrom),
    effect_bind_of_ok (expectPlain_of_keyword hfrom), effect_bind_of_ok next_cons,
    effect_onEngine_bind]
  refine congrFun (congrArg (Routine.bind _) ?_) e
  funext _ e
  rw [effect_onEngine_bind]
  refine congrFun (congrArg (Routine.bind _) ?_) e
  funext schema e
  rw [effect_clauses hwhere hlimit hwts hlts]
  refine congrFun (congrArg (Routine.bind _) ?_) e
  funext limit e
  exact effect_onEngine _ _ _

/-- **`exec_select`** on a query without a join. -/
theorem effect_execSelect (h : SelectTokens q toks) (hj : q.join = none) (e : Engine) :
    effect execSelect toks e = (do
      openTable q.table none
      let schema ← schemaOf q.table
      let limit ← ofExcept (limitOf q.limit)
      runSelect q.table schema q.items (clauseOf q.wh) limit : EngineM SelectResult) e := by
  have happend : effect execSelect (toks ++ []) e = _ :=
    effect_execSelect_append h hj no_keyword_nil no_keyword_nil e
  rwa [List.append_nil] at happend

/-- The end of a join's parser, behind the `JOIN`. -/
theorem joinTail_tokens (items : Option (List ByteString)) (left : ByteString) (j : JoinPart)
    {on : ByteString} {w : Option Predicate} {l : Option ByteString}
    {wheres limits : List ByteString}
    (hon : Keyword "ON" on) (hw : WhereTokens w wheres) (hl : LimitTokens l limits) :
    (do
      let rightName ← next
      expectNamed "ON"
      let onLeft ← next
      expectNamed "="
      let onRight ← next
      let wh ← whereClause
      let limit ← limitClause
      return ⟨items, left, rightName, onLeft, onRight, wh, limit⟩ : ExecM JoinStmt)
        ⟨j.right :: on :: j.onLeft :: ascii "=" :: j.onRight :: (wheres ++ limits), e⟩
      = .ok ((limitOf l).map (fun n => ⟨items, left, j.right, j.onLeft, j.onRight, clauseOf w, n⟩),
          ⟨[], e⟩) := by
  rw [bind_of_ok next_cons, bind_of_ok (expectNamed_of_keyword hon), bind_of_ok next_cons,
    bind_of_ok (expectNamed_of_keyword (show Keyword "=" (ascii "=") from rfl)),
    bind_of_ok next_cons,
    bind_of_ok (whereClause_tokens hw hl.head_ne_where)]
  have hlimit := limitClause_tokens (e := e) hl
  cases hn : limitOf l with
  | ok n =>
    rw [hn] at hlimit
    exact bind_of_ok hlimit
  | error x =>
    rw [hn] at hlimit
    exact bind_of_throw hlimit

/-- **A join** is parsed. -/
theorem parseJoin_tokens {j : JoinPart} (h : SelectTokens q toks) (hj : q.join = some j) :
    parseJoin ⟨toks, e⟩ = .ok ((limitOf q.limit).map (fun n =>
      ⟨q.items, q.table, j.right, j.onLeft, j.onRight, clauseOf q.wh, n⟩), ⟨[], e⟩) := by
  cases h with
  | mk hselect hitems hfrom hjoin hwhere hlimit =>
  rw [hj] at hjoin
  unfold parseJoin
  rw [bind_of_ok (expectNamed_of_keyword hselect), bind_of_ok (selectList_tokens hitems hfrom),
    bind_of_ok (expectNamed_of_keyword hfrom), bind_of_ok next_cons]
  cases hjoin with
  | join hjoin hon j =>
    rw [List.cons_append, bind_ahead_false (fun t ht => by
      rw [← Option.some.inj ht]
      exact spells_eq_false.mpr (hjoin.ne (by decide))), if_neg Bool.false_ne_true]
    have htail := joinTail_tokens (e := e) q.items q.table j hon hwhere hlimit
    exact (bind_of_ok (expectNamed_of_keyword hjoin)).trans htail
  | innerJoin hinner hjoin hon j =>
    rw [List.cons_append, bind_ahead_true (spells_eq_true.mpr hinner), if_pos rfl,
      bind_of_ok skip_cons]
    have htail := joinTail_tokens (e := e) q.items q.table j hon hwhere hlimit
    exact (bind_of_ok (expectNamed_of_keyword hjoin)).trans htail

/-- **`exec_join`** on a query with a join. -/
theorem effect_execJoin {j : JoinPart} (h : SelectTokens q toks) (hj : q.join = some j)
    (e : Engine) :
    effect execJoin toks e = (do
      let limit ← ofExcept (limitOf q.limit)
      joinTables ⟨q.items, q.table, j.right, j.onLeft, j.onRight, clauseOf q.wh, limit⟩
        : EngineM SelectResult) e := by
  have hparse := parseJoin_tokens (e := e) h hj
  unfold execJoin
  rw [bind_apply, Routine.bind, ofExcept_apply]
  cases hn : limitOf q.limit with
  | ok n =>
    rw [hn] at hparse
    rw [effect_bind_of_ok hparse, effect_onEngine]
  | error x =>
    rw [hn] at hparse
    rw [effect_bind_of_throw hparse]

/-! ## Routing -/

theorem hasJoin_append (a b : List ByteString) : hasJoin (a ++ b) = (hasJoin a || hasJoin b) :=
  List.any_append

/-- **Where `exec` takes a query.** -/
theorem effect_execQuery (toks : List ByteString) (e : Engine) :
    effect execQuery toks e
      = if hasJoin toks then effect execJoin toks e else effect execSelect toks e := by
  unfold effect execQuery
  rw [bind_of_ok (get_apply _)]
  split
  · rfl
  · rfl

/-- A query without a join is turned down by the join's parser. -/
theorem effect_execJoin_of_none (h : SelectTokens q toks) (hj : q.join = none) (e : Engine) :
    ∃ m, effect execJoin toks e
      = .ok (.error (.runtimeError (ascii "Syntax error near '" ++ m)), e) := by
  cases h with
  | @mk select frm items joins wheres limits hselect hitems hfrom hjoin hwhere hlimit =>
  rw [hj] at hjoin
  cases hjoin
  obtain ⟨m, hm⟩ := expectNamed_of_not (e := e)
    (clauses_head hwhere hlimit (s := "JOIN") (by decide) (by decide))
  have hinner := clauses_head hwhere hlimit (s := "INNER") (by decide) (by decide)
  have hparse : parseJoin ⟨select :: (items ++ frm :: q.table :: (wheres ++ limits)), e⟩
      = .ok (.error (.runtimeError (ascii "Syntax error near '" ++ m)), ⟨wheres ++ limits, e⟩) := by
    unfold parseJoin
    rw [bind_of_ok (expectNamed_of_keyword hselect), bind_of_ok (selectList_tokens hitems hfrom),
      bind_of_ok (expectNamed_of_keyword hfrom), bind_of_ok next_cons,
      bind_ahead_false (fun t ht => spells_eq_false.mpr (hinner t ht)), if_neg Bool.false_ne_true]
    exact bind_of_throw hm
  exact ⟨m, effect_bind_of_throw hparse⟩

theorem hasJoin_of_join {j : JoinPart} (h : SelectTokens q toks) (hj : q.join = some j) :
    hasJoin toks = true := by
  have htrue : ∀ {t : ByteString}, Keyword "JOIN" t → t ∈ toks → hasJoin toks = true :=
    fun ht hmem => List.any_eq_true.mpr ⟨_, hmem, spells_eq_true.mpr ht⟩
  cases h with
  | mk hselect hitems hfrom hjoin hwhere hlimit =>
  rw [hj] at hjoin
  cases hjoin with
  | join hjoin hon j => exact htrue hjoin (by simp)
  | innerJoin hinner hjoin hon j => exact htrue hjoin (by simp)

/-- **The execution of a query**, with its limit read. -/
def runQuery (q : SelectStmt) (limit : Except StdException ℤ) : EngineM SelectResult :=
  match q.join with
  | none => do
    openTable q.table none
    let schema ← schemaOf q.table
    let limit ← ofExcept limit
    runSelect q.table schema q.items (clauseOf q.wh) limit
  | some j => do
    let limit ← ofExcept limit
    joinTables ⟨q.items, q.table, j.right, j.onLeft, j.onRight, clauseOf q.wh, limit⟩

end SqlEngine
