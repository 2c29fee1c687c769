import SqlMini.LooseGrammar
import SqlMini.RowRoom
import SqlMini.InnerJoin
import SqlMini.EntryPoints

/-!
# What takes effect

A statement that some engine executes without an error is not always one of the
documented forms. `Accepted` says which statements these are: the tokens are a
form of the loose grammar, and there can be tables with the columns they refer
to and room for the row they insert.

For each of these there is an engine on which it takes effect
(`exists_accepts_iff`). So exactly the statements that are documented or not
accepted are those of which `exec` can be trusted to answer with an error where
they are not of the documented grammar (`onlyGrammatical_iff`).

A statement that ends too early is the beginning of a documented one. Where its
parser looks for the next token it is turned down; where it does not, it reads
past the end, or takes the end for the end of a list (`keepsToTokens_iff`).
-/

namespace SqlEngine

open Routine Table

variable {toks ts : List ByteString} {e e' : Engine} {name : ByteString} {t : Table} {s : Store}

/-! ## The documented grammar -/

/-- The tokens of a column. -/
inductive ColumnDefTokens : List ByteString → Prop
  | int {type : ByteString} (h : Keyword "INT" type ∨ Keyword "INTEGER" type) (name : ByteString) :
      ColumnDefTokens [name, type]
  | text {type : ByteString} (h : Keyword "TEXT" type ∨ Keyword "VARCHAR" type)
      (name : ByteString) :
      ColumnDefTokens [name, type]
  | sized {type : ByteString} (h : Keyword "TEXT" type ∨ Keyword "VARCHAR" type)
      (name n : ByteString) : ColumnDefTokens [name, type, ascii "(", n, ascii ")"]

/-- The tokens of the columns of a table, with commas between them. -/
inductive ColumnDefsTokens : List ByteString → Prop
  | one {col : List ByteString} (h : ColumnDefTokens col) : ColumnDefsTokens col
  | more {col cols : List ByteString} (h : ColumnDefTokens col) (hcols : ColumnDefsTokens cols) :
      ColumnDefsTokens (col ++ ascii "," :: cols)

/-- **The tokens of a creation.** -/
inductive CreateTokens (table : ByteString) : List ByteString → Prop
  | mk {create kw : ByteString} {cols : List ByteString} (hcreate : Keyword "CREATE" create)
      (htable : Keyword "TABLE" kw) (hcols : ColumnDefsTokens cols) :
      CreateTokens table (create :: kw :: table :: ascii "(" :: (cols ++ [ascii ")"]))

/-- **The documented statements**, with one of the six operators in the
`WHERE`. -/
inductive Documented : List ByteString → Prop
  | create {table : ByteString} {toks : List ByteString} (h : CreateTokens table toks) :
      Documented toks
  | insert {st : InsertStmt} {toks : List ByteString} (h : InsertTokens st toks) : Documented toks
  | delete {table : ByteString} {wh : Option Predicate} {toks : List ByteString}
      (h : DeleteTokens table wh toks) (hop : ∀ p ∈ wh, p.op ∈ comparisons) : Documented toks
  | select {q : SelectStmt} {toks : List ByteString} (h : SelectTokens q toks)
      (hop : ∀ p ∈ q.wh, p.op ∈ comparisons) : Documented toks

/-! ## Results -/

/-- **An error**, as `exec` reports it. -/
def ErrorText (text : ByteString) : Prop := ascii "Error:" <+: text

theorem errorText_append (text : ByteString) : ErrorText (ascii "Error: " ++ text) :=
  ⟨ascii " " ++ text, rfl⟩

/-- A text that begins with another letter is no error. -/
theorem not_errorText_of_head {c : UInt8} {text : ByteString} (hc : c ≠ 69) :
    ¬ ErrorText (c :: text) := by
  rintro ⟨rest, hrest⟩
  exact hc (List.cons.inj hrest).1.symm

/-- A prefix without a separator lies before the first one. -/
theorem errorText_append_cons {a b : ByteString} {c : UInt8} (hc : c ∉ ascii "Error:") :
    ErrorText (a ++ c :: b) ↔ ErrorText a := by
  refine ⟨fun h => ?_, fun h => h.trans (List.prefix_append _ _)⟩
  rcases List.prefix_or_prefix_of_prefix h (List.prefix_append a (c :: b)) with h' | ⟨d, hd⟩
  · exact h'
  · unfold ErrorText at h
    rw [← hd] at h
    cases d with
    | nil =>
      rw [List.append_nil] at hd
      rw [hd]
      exact List.prefix_refl _
    | cons x d =>
      obtain ⟨rest, hrest⟩ := h
      rw [List.append_assoc] at hrest
      have hx : x = c := (List.cons.inj (List.append_cancel_left hrest)).1
      exact absurd (hd ▸ hx ▸ List.mem_append_right a List.mem_cons_self) hc

/-- **A table printed** begins with its first column. -/
theorem errorText_prettyPrint (res : SelectResult) :
    ErrorText (prettyPrint res) ↔ ∃ c ∈ res.cols.head?, ErrorText c := by
  unfold prettyPrint
  generalize joined (ascii "-+-") _ = line
  generalize res.rows.flatMap _ = rows
  obtain - | ⟨c, - | ⟨d, cs⟩⟩ := res.cols
  · refine iff_of_false ?_ (by simp)
    exact not_errorText_of_head (c := 10) (by decide)
  · have hfirst : ∀ rest : ByteString, ErrorText (c ++ ascii "\n" ++ rest) ↔ ErrorText c := by
      intro rest
      rw [List.append_assoc]
      exact errorText_append_cons (c := 10) (by decide)
    simp only [joined, List.append_assoc, List.head?_cons, Option.mem_some_iff, exists_eq_left']
    rw [← List.append_assoc]
    exact hfirst _
  · have hfirst : ∀ rest : ByteString, ErrorText (c ++ ascii " | " ++ rest) ↔ ErrorText c := by
      intro rest
      rw [List.append_assoc]
      exact errorText_append_cons (c := 32) (by decide)
    simp only [joined, List.append_assoc, List.head?_cons, Option.mem_some_iff, exists_eq_left']
    rw [← List.append_assoc]
    exact hfirst _

/-- **A statement takes effect** on an engine: it returns without an error. -/
def Accepts (rawSql : ByteString) (e : Engine) : Prop :=
  ∃ text e', exec rawSql e = .ok (text, e') ∧ ¬ ErrorText text

theorem accepts_iff {rawSql : ByteString} (h : statement rawSql ≠ []) : Accepts rawSql e
    ↔ Returns (dispatch (toUpper ((statement rawSql).take 6))) ⟨tokenize (statement rawSql), e⟩
      (fun text _ => ¬ ErrorText text) := by
  unfold Accepts exec Returns
  simp only [if_neg h]
  rcases dispatch (toUpper ((statement rawSql).take 6)) ⟨tokenize (statement rawSql), e⟩
    with f | ⟨x | text, st⟩
  · simp
  · refine iff_of_false ?_ (by simp)
    rintro ⟨text, e', heq, htext⟩
    obtain ⟨rfl, -⟩ := Prod.mk.inj (Except.ok.inj heq)
    exact htext (errorText_append _)
  · simp

/-- **A query takes effect** where it reports no error, and its first column
does not look like one. -/
theorem returns_select :
    Returns (dispatch (ascii "SELECT")) ⟨toks, e⟩ (fun text _ => ¬ ErrorText text)
      ↔ Returns execQuery ⟨toks, e⟩
      (fun res _ => res.error = [] ∧ ∀ c ∈ res.cols.head?, ¬ ErrorText c) := by
  have hprinted : ∀ (res : SelectResult) (st : ExecState), Returns (do
      if res.error ≠ [] then return ascii "Error: " ++ res.error
      else return prettyPrint res : ExecM ByteString) st (fun text _ => ¬ ErrorText text)
        ↔ res.error = [] ∧ ∀ c ∈ res.cols.head?, ¬ ErrorText c := by
    intro res st
    by_cases herr : res.error = []
    · rw [if_neg (not_not.mpr herr), returns_pure, errorText_prettyPrint]
      simp [herr]
    · rw [if_pos herr, returns_pure]
      exact iff_of_false (not_not.mpr (errorText_append _)) (fun h => herr h.1)
  have hdispatch : dispatch (ascii "SELECT") = (do
      let res ← execQuery
      if res.error ≠ [] then return ascii "Error: " ++ res.error
      else return prettyPrint res) := by
    unfold dispatch
    rw [if_neg (by decide), if_neg (by decide), if_neg (by decide), if_pos rfl]
  rw [hdispatch, returns_bind]
  simp only [hprinted]

theorem returns_execQuery {Q : SelectResult → ExecState → Prop} : Returns execQuery ⟨toks, e⟩ Q
    ↔ Returns (if hasJoin toks then execJoin else execSelect) ⟨toks, e⟩ Q := by
  unfold execQuery
  rw [returns_bind, returns_of_ok (get_apply _)]

/-! ## Tables without rows -/

/-- A scan of a table that never had a row. -/
theorem run_scan_of_next {σ : Type} (ht : t.nextRowid = 1) (cb : Callback σ) (st : σ) :
    (scan t cb st).run s = .ok (.ok (0, st), s) := by
  unfold scan
  rw [ht]
  rfl

theorem put_self (h : e.tables name = some (t, s)) : e.put name t s = e := by
  unfold Engine.put
  rw [← h, Function.update_eq_self]

theorem readTable_scan_of_next {σ : Type} (h : e.tables name = some (t, s)) (ht : t.nextRowid = 1)
    (cb : Callback σ) (st : σ) :
    readTable name (fun t => t.scan cb st) e = .ok (.ok (.ok (0, st)), e) := by
  rw [readTable_of_run h (run_scan_of_next ht cb st), put_self h]

/-- **A deletion** from a table without rows. -/
theorem returns_runDelete (h : e.tables name = some (t, s)) (ht : t.nextRowid = 1)
    (wh : WhereClause) : Returns (runDelete name wh) e (fun text _ => ¬ ErrorText text) := by
  have hrun : (deleteWhere t (fun _ row => matchWhere row t.schema wh)).run s = .ok (.ok 0, s) := by
    unfold deleteWhere
    rw [PageProg.run_bind, run_scan_of_next ht]
    rfl
  unfold runDelete
  rw [returns_bind, returns_of_ok (openTable_of_open h), returns_bind,
    returns_of_ok (schemaOf_of_open h), returns_bind, returns_of_ok (readTable_of_run h hrun),
    returns_bind, returns_ofExcept]
  exact ⟨0, rfl, returns_pure.mpr (not_errorText_of_head (c := 68) (by decide))⟩

/-! ## Statements accepted -/

/-- **A row that can be stored**: some schema that fits the metadata page has
the columns, and a page holds what is left of the length of the row. -/
def Insertable (st : InsertStmt) : Prop :=
  ∃ (schema : Schema) (row : Row), schema.Fits ∧ insertedRow schema st.cols st.vals = .ok row
    ∧ (serializeRow schema row).length % uint16Size ≤ pageSize

/-- **A join that can be made**: some tables have the columns that it compares
and selects, and the first of these does not look like an error. -/
def Joinable (q : JoinStmt) : Prop :=
  ∃ ls rs : Schema, (q.leftName = q.rightName → ls = rs) ∧ 0 ≤ ls.findCol (onColumns q).1
    ∧ 0 ≤ rs.findCol (onColumns q).2
    ∧ ∃ outIdx, selectedColumns (joinNames q ls rs) q.selRefs = .ok outIdx
      ∧ ∀ ci ∈ outIdx.head?, ¬ ErrorText ((joinNames q ls rs).getD ci [])

/-- **The statements accepted**, by the executor the keyword chooses. -/
inductive Accepted (keyword : ByteString) (toks : List ByteString) : Prop
  | create (hkeyword : keyword = ascii "CREATE") {table : ByteString} {cols : List Column}
      {rest : List ByteString} (h : ReadCreate table cols toks rest)
  | insert (hkeyword : keyword = ascii "INSERT") {st : InsertStmt} (h : ReadInsert st toks)
      (hrow : Insertable st)
  | delete (hkeyword : keyword = ascii "DELETE") {table : ByteString} {wh : WhereClause}
      (h : ReadDelete table wh toks)
  | select (hkeyword : keyword = ascii "SELECT") (hjoin : hasJoin toks = false)
      {items : Option (List ByteString)} {table : ByteString} {wh : WhereClause} {n : ℤ}
      (h : ReadSelect items table wh n toks) (hfirst : ∀ c ∈ (items.getD []).head?, ¬ ErrorText c)
  | join (hkeyword : keyword = ascii "SELECT") (hjoin : hasJoin toks = true) {q : JoinStmt}
      (h : ReadJoin q toks) (hcols : Joinable q)

/-- A schema read is the schema of an open table. -/
theorem schemaOf_eq_ok {schema : Schema} (h : schemaOf name e = .ok (.ok schema, e')) :
    e' = e ∧ ∃ t s, e.tables name = some (t, s) ∧ t.schema = schema := by
  unfold schemaOf at h
  split at h
  case h_1 => cases h
  case h_2 t s ht =>
    obtain ⟨hschema, rfl⟩ := Prod.mk.inj (Except.ok.inj h)
    exact ⟨rfl, t, s, ht, Except.ok.inj hschema⟩

theorem exists_returns_execCreate :
    (∃ e, Returns execCreate ⟨toks, e⟩ (fun text _ => ¬ ErrorText text))
    ↔ ∃ table cols rest, ReadCreate table cols toks rest := by
  constructor
  · rintro ⟨e, h⟩
    obtain ⟨table, cols, rest, hread, -⟩ := returns_execCreate.mp h
    exact ⟨table, cols, rest, hread⟩
  · rintro ⟨table, cols, rest, hread⟩
    refine ⟨Engine.single table blank blankStore,
      returns_execCreate.mpr ⟨table, cols, rest, hread, ?_⟩⟩
    rw [returns_of_ok (openTable_of_open single_tables_self)]
    exact not_errorText_of_head (c := 84) (by decide)

theorem exists_returns_execInsert :
    (∃ e, Returns execInsert ⟨toks, e⟩ (fun text _ => ¬ ErrorText text))
    ↔ ∃ st, ReadInsert st toks ∧ Insertable st := by
  constructor
  · rintro ⟨e, h⟩
    obtain ⟨st, hread, h⟩ := returns_execInsert.mp h
    unfold runInsert at h
    simp only [returns_bind, returns_ofExcept] at h
    obtain ⟨_, e₁, -, schema, e₂, hschema, row, hrow, r, e₃, hinsert, rowid, rfl, -⟩ := h
    obtain ⟨t, s, t', s', ht, hrun, -⟩ := onTable_eq_ok hinsert
    obtain ⟨rfl, t₀, s₀, ht₀, rfl⟩ := schemaOf_eq_ok hschema
    rw [ht] at ht₀
    obtain ⟨rfl, rfl⟩ := Prod.mk.inj (Option.some.inj ht₀)
    have htakes : Takes t s row := ⟨_, s', hrun, rowid, rfl⟩
    obtain ⟨hfit, hlen⟩ := htakes.fits
    exact ⟨st, hread, t.schema, row, hfit, hrow, hlen⟩
  · rintro ⟨st, hread, schema, row, hfit, hrow, hlen⟩
    obtain ⟨t, s, rfl, hrow'⟩ := exists_takes_iff.mpr ⟨hfit, hlen⟩
    obtain ⟨⟨r, t'⟩, s', hrun, rowid, rfl⟩ := hrow'
    refine ⟨Engine.single st.table t s, returns_execInsert.mpr ⟨st, hread, ?_⟩⟩
    unfold runInsert
    rw [returns_bind, returns_of_ok (openTable_of_open single_tables_self), returns_bind,
      returns_of_ok (schemaOf_of_open single_tables_self), returns_bind, returns_ofExcept]
    refine ⟨row, hrow, ?_⟩
    rw [returns_bind, returns_of_ok (onTable_of_run single_tables_self hrun), returns_bind,
      returns_ofExcept]
    exact ⟨rowid, rfl, returns_pure.mpr (not_errorText_of_head (c := 73) (by decide))⟩

theorem exists_returns_execDelete :
    (∃ e, Returns execDelete ⟨toks, e⟩ (fun text _ => ¬ ErrorText text))
    ↔ ∃ table wh, ReadDelete table wh toks := by
  constructor
  · rintro ⟨e, h⟩
    obtain ⟨table, wh, hread, -⟩ := returns_execDelete.mp h
    exact ⟨table, wh, hread⟩
  · rintro ⟨table, wh, hread⟩
    exact ⟨Engine.single table blank blankStore,
      returns_execDelete.mpr ⟨table, wh, hread, returns_runDelete single_tables_self rfl wh⟩⟩

/-! ### Queries -/

/-- The columns of a query that found its columns. -/
theorem cols_of_runSelect {refs : List ByteString} {schema : Schema} {wh : WhereClause} {n : ℤ}
    {res : SelectResult} (h : runSelect name schema (some refs) wh n e = .ok (.ok res, e'))
    (herr : res.error = []) : res.cols = refs := by
  unfold runSelect at h
  rcases hr : resolveList schema refs with c | outIdx
  · simp only [hr] at h
    obtain ⟨hres, -⟩ := Prod.mk.inj (Except.ok.inj h)
    rw [← Except.ok.inj hres] at herr
    exact absurd (List.append_eq_nil_iff.mp herr).1 (by decide)
  · have hcols : ∀ m : EngineM Found, (do
        let f ← m
        return ⟨refs, f.rows, [], f.rowsScanned⟩ : EngineM SelectResult) e = .ok (.ok res, e') →
          res.cols = refs := by
      intro m hm
      obtain ⟨f, e₁, -, hf⟩ := bind_eq_ok.mp hm
      obtain ⟨hres, -⟩ := Prod.mk.inj (Except.ok.inj hf)
      rw [← Except.ok.inj hres]
    simp only [hr] at h
    split at h
    case isTrue => exact hcols _ h
    case isFalse => exact hcols _ h

/-- A table without rows that has the columns, all of them texts. -/
def columnsOnly (names : List ByteString) : Table :=
  ⟨⟨[], names.map (fun c => ⟨c, .text, 255⟩)⟩, 1, 512⟩

theorem fastPath_columnsOnly (names : List ByteString) (wh : WhereClause) :
    fastPath (columnsOnly names).schema wh = false := by
  unfold fastPath columnsOnly
  cases names with
  | nil => simp
  | cons c cs => simp

theorem resolveList_columnsOnly {names : List ByteString} : ∀ refs : List ByteString,
    (∀ c ∈ refs, c ∈ names) → ∃ outIdx, resolveList (columnsOnly names).schema refs = .ok outIdx
  | [], _ => ⟨[], rfl⟩
  | c :: cs, h => by
    obtain ⟨outIdx, hcs⟩ := resolveList_columnsOnly cs (fun d hd => h d (List.mem_cons_of_mem c hd))
    have hc : ¬ (columnsOnly names).schema.findCol c < 0 := by
      unfold Schema.findCol
      split
      case h_1 => omega
      case h_2 hnone =>
        rw [List.findIdx?_eq_none_iff] at hnone
        have hmem : (⟨c, .text, 255⟩ : Column) ∈ (columnsOnly names).schema.cols :=
          List.mem_map_of_mem (h c List.mem_cons_self)
        simpa using hnone _ hmem
    exact ⟨_, by rw [resolveList, if_neg hc, hcs]; rfl⟩

/-- **A query of a table without rows** that has its columns. -/
theorem runSelect_columnsOnly {names : List ByteString} {items : Option (List ByteString)}
    (h : e.tables name = some (columnsOnly names, s)) (hnames : ∀ c ∈ items.getD [], c ∈ names)
    (wh : WhereClause) (n : ℤ) : runSelect name (columnsOnly names).schema items wh n e
      = .ok (.ok ⟨items.getD names, [], [], 0⟩, e) := by
  have hscan : ∀ outIdx, selectByScan name (columnsOnly names).schema wh n outIdx e
      = .ok (.ok Found.none, e) := fun outIdx =>
    (bind_of_ok (readTable_scan_of_next h rfl _ _)).trans rfl
  have hcols : (columnsOnly names).schema.cols.map Column.name = names := by
    unfold columnsOnly
    rw [List.map_map]
    exact List.map_id names
  unfold runSelect
  cases items with
  | none =>
    simp only [fastPath_columnsOnly, hcols]
    exact bind_of_ok (hscan _)
  | some refs =>
    obtain ⟨outIdx, hr⟩ := resolveList_columnsOnly refs hnames
    simp only [hr, fastPath_columnsOnly]
    exact bind_of_ok (hscan _)

theorem exists_returns_execSelect : (∃ e, Returns execSelect ⟨toks, e⟩
      (fun res _ => res.error = [] ∧ ∀ c ∈ res.cols.head?, ¬ ErrorText c))
    ↔ ∃ items table wh n, ReadSelect items table wh n toks
      ∧ ∀ c ∈ (items.getD []).head?, ¬ ErrorText c := by
  constructor
  · rintro ⟨e, h⟩
    obtain ⟨items, table, wh, n, hread, h⟩ := returns_execSelect.mp h
    simp only [returns_bind] at h
    obtain ⟨_, e₁, -, schema, e₂, -, res, e₃, hres, herr, hfirst⟩ := h
    refine ⟨items, table, wh, n, hread, ?_⟩
    cases items with
    | none => simp
    | some refs => rwa [cols_of_runSelect hres herr] at hfirst
  · rintro ⟨items, table, wh, n, hread, hfirst⟩
    refine ⟨Engine.single table (columnsOnly (items.getD [])) blankStore,
      returns_execSelect.mpr ⟨items, table, wh, n, hread, ?_⟩⟩
    rw [returns_bind, returns_of_ok (openTable_of_open single_tables_self), returns_bind,
      returns_of_ok (schemaOf_of_open single_tables_self),
      returns_of_ok (runSelect_columnsOnly single_tables_self (fun c hc => hc) wh n)]
    refine ⟨rfl, ?_⟩
    cases items with
    | none => exact hfirst
    | some refs => exact hfirst

/-- **A join of tables without rows.** -/
theorem joinScans_of_next {q : JoinStmt} {lt rt : Table} {s' : Store}
    (hl : e.tables q.leftName = some (lt, s)) (hr : e.tables q.rightName = some (rt, s'))
    (hlt : lt.nextRowid = 1) (hrt : rt.nextRowid = 1) (names : List ByteString) (outIdx : List ℕ)
    (onLi onRi : ℕ) : joinScans q names outIdx onLi onRi e = .ok (.ok Found.none, e) := by
  unfold joinScans
  rw [bind_of_ok (readTable_scan_of_next hr hrt _ _), bind_of_ok (ofExcept_apply _ _),
    bind_of_ok (readTable_scan_of_next hl hlt _ _), bind_of_ok (ofExcept_apply _ _)]
  rfl

/-- What a join that reports no error says of the columns. -/
theorem cols_of_runJoin {q : JoinStmt} {ls rs : Schema} {res : SelectResult}
    (h : runJoin q ls rs e = .ok (.ok res, e')) (herr : res.error = [])
    (hfirst : ∀ c ∈ res.cols.head?, ¬ ErrorText c) : 0 ≤ ls.findCol (onColumns q).1
      ∧ 0 ≤ rs.findCol (onColumns q).2 ∧ ∃ outIdx,
        selectedColumns (joinNames q ls rs) q.selRefs = .ok outIdx
          ∧ ∀ ci ∈ outIdx.head?, ¬ ErrorText ((joinNames q ls rs).getD ci []) := by
  -- each of the three errors has a text
  have hnil : ∀ {cols : List ByteString} {c : UInt8} {text : ByteString}, runJoin q ls rs e
      ≠ .ok (.ok ⟨cols, [], c :: text, 0⟩, e) := by
    intro cols c text heq
    rw [heq] at h
    obtain ⟨hres, -⟩ := Prod.mk.inj (Except.ok.inj h)
    rw [← Except.ok.inj hres] at herr
    cases herr
  have hl : 0 ≤ ls.findCol (onColumns q).1 :=
    not_lt.mp (fun hneg => hnil (runJoin_of_left_unknown hneg e))
  have hr : 0 ≤ rs.findCol (onColumns q).2 :=
    not_lt.mp (fun hneg => hnil (runJoin_of_right_unknown (not_lt.mpr hl) hneg e))
  refine ⟨hl, hr, ?_⟩
  rcases hsel : selectedColumns (joinNames q ls rs) q.selRefs with message | outIdx
  · have hrun := runJoin_of_unresolved (not_lt.mpr hl) (not_lt.mpr hr) hsel e
    rcases selectedColumns_error hsel with hhead | hhead
    · obtain ⟨text, rfl⟩ := List.head?_eq_some_iff.mp hhead
      exact absurd hrun hnil
    · obtain ⟨text, rfl⟩ := List.head?_eq_some_iff.mp hhead
      exact absurd hrun hnil
  · refine ⟨outIdx, rfl, ?_⟩
    rw [runJoin_of_columns (Int.toNat_of_nonneg hl).symm (Int.toNat_of_nonneg hr).symm hsel] at h
    obtain ⟨f, e₁, -, hf⟩ := bind_eq_ok.mp h
    obtain ⟨hres, -⟩ := Prod.mk.inj (Except.ok.inj hf)
    rw [← Except.ok.inj hres] at hfirst
    intro ci hci
    refine hfirst _ ?_
    rw [List.head?_map, Option.mem_def.mp hci]
    rfl

/-- Two tables without rows, or one, are open. -/
theorem exists_tables {left right : ByteString} {ls rs : Schema} (h : left = right → ls = rs) :
    ∃ e : Engine, e.tables left = some (⟨ls, 1, 512⟩, blankStore)
      ∧ e.tables right = some (⟨rs, 1, 512⟩, blankStore) := by
  refine ⟨(Engine.single left ⟨ls, 1, 512⟩ blankStore).put right ⟨rs, 1, 512⟩ blankStore, ?_,
    put_tables_self⟩
  by_cases hname : left = right
  · rw [h hname, hname]
    exact put_tables_self
  · exact (put_tables_of_ne hname).trans single_tables_self

theorem exists_returns_execJoin : (∃ e, Returns execJoin ⟨toks, e⟩
      (fun res _ => res.error = [] ∧ ∀ c ∈ res.cols.head?, ¬ ErrorText c))
    ↔ ∃ q, ReadJoin q toks ∧ Joinable q := by
  constructor
  · rintro ⟨e, h⟩
    obtain ⟨q, hread, h⟩ := returns_execJoin.mp h
    refine ⟨q, hread, ?_⟩
    unfold joinTables at h
    simp only [returns_bind] at h
    obtain ⟨_, e₁, -, _, e₂, -, ls, e₃, hls, rs, e₄, hrs, res, e₅, hres, herr, hfirst⟩ := h
    obtain ⟨rfl, lt, s, hlt, rfl⟩ := schemaOf_eq_ok hls
    obtain ⟨rfl, rt, s', hrt, rfl⟩ := schemaOf_eq_ok hrs
    refine ⟨lt.schema, rt.schema, fun hname => ?_, cols_of_runJoin hres herr hfirst⟩
    rw [hname, hrt] at hlt
    obtain ⟨rfl, rfl⟩ := Prod.mk.inj (Option.some.inj hlt)
    rfl
  · rintro ⟨q, hread, ls, rs, hself, hl, hr, outIdx, hsel, hfirst⟩
    obtain ⟨e, hopenl, hopenr⟩ := exists_tables hself
    refine ⟨e, returns_execJoin.mpr ⟨q, hread, ?_⟩⟩
    unfold joinTables
    rw [returns_bind, returns_of_ok (openTable_of_open hopenl), returns_bind,
      returns_of_ok (openTable_of_open hopenr), returns_bind,
      returns_of_ok (schemaOf_of_open hopenl),
      returns_bind, returns_of_ok (schemaOf_of_open hopenr),
      runJoin_of_columns (Int.toNat_of_nonneg hl).symm (Int.toNat_of_nonneg hr).symm hsel,
      returns_bind, returns_of_ok (joinScans_of_next hopenl hopenr rfl rfl _ _ _ _), returns_pure]
    refine ⟨rfl, ?_⟩
    cases outIdx with
    | nil => simp
    | cons ci cis =>
      intro c hc
      rw [← Option.some.inj hc]
      exact hfirst ci rfl

/-! ## Grammatical statements -/

/-- **Some engine takes a statement** exactly if it is accepted. -/
theorem exists_accepts_iff {rawSql : ByteString} (h : statement rawSql ≠ []) :
    (∃ e, Accepts rawSql e)
      ↔ Accepted (toUpper ((statement rawSql).take 6)) (tokenize (statement rawSql)) := by
  simp only [accepts_iff h]
  generalize toUpper ((statement rawSql).take 6) = keyword
  generalize tokenize (statement rawSql) = toks
  constructor
  · rintro ⟨e, h⟩
    by_cases hcreate : keyword = ascii "CREATE"
    · rw [hcreate] at h
      obtain ⟨table, cols, rest, hread⟩ := exists_returns_execCreate.mp ⟨e, h⟩
      exact .create hcreate hread
    by_cases hinsert : keyword = ascii "INSERT"
    · rw [hinsert] at h
      obtain ⟨st, hread, hrow⟩ := exists_returns_execInsert.mp ⟨e, h⟩
      exact .insert hinsert hread hrow
    by_cases hdelete : keyword = ascii "DELETE"
    · rw [hdelete] at h
      obtain ⟨table, wh, hread⟩ := exists_returns_execDelete.mp ⟨e, h⟩
      exact .delete hdelete hread
    by_cases hselect : keyword = ascii "SELECT"
    · rw [hselect, returns_select, returns_execQuery] at h
      cases hjoin : hasJoin toks with
      | false =>
        rw [hjoin, if_neg Bool.false_ne_true] at h
        obtain ⟨items, table, wh, n, hread, hfirst⟩ := exists_returns_execSelect.mp ⟨e, h⟩
        exact .select hselect hjoin hread hfirst
      | true =>
        rw [hjoin, if_pos rfl] at h
        obtain ⟨q, hread, hcols⟩ := exists_returns_execJoin.mp ⟨e, h⟩
        exact .join hselect hjoin hread hcols
    · unfold dispatch at h
      rw [if_neg hcreate, if_neg hinsert, if_neg hdelete, if_neg hselect, returns_pure] at h
      exact absurd ⟨_, rfl⟩ h
  · intro h
    cases h with
    | create hkeyword h =>
      rw [hkeyword]
      exact exists_returns_execCreate.mpr ⟨_, _, _, h⟩
    | insert hkeyword h hrow =>
      rw [hkeyword]
      exact exists_returns_execInsert.mpr ⟨_, h, hrow⟩
    | delete hkeyword h =>
      rw [hkeyword]
      exact exists_returns_execDelete.mpr ⟨_, _, h⟩
    | select hkeyword hjoin h hfirst =>
      simp only [hkeyword, returns_select, returns_execQuery, hjoin, if_neg Bool.false_ne_true]
      exact exists_returns_execSelect.mpr ⟨_, _, _, _, h, hfirst⟩
    | join hkeyword hjoin h hcols =>
      simp only [hkeyword, returns_select, returns_execQuery, hjoin, if_true]
      exact exists_returns_execJoin.mpr ⟨_, h, hcols⟩

/-- A statement without tokens is not accepted. -/
theorem Accepted.statement_ne_nil {rawSql : ByteString} (h : Accepted
    (toUpper ((statement rawSql).take 6)) (tokenize (statement rawSql))) :
    statement rawSql ≠ [] := by
  intro hnil
  rw [hnil] at h
  rcases h with ⟨hkw, -⟩ | ⟨hkw, -, -⟩ | ⟨hkw, -⟩ | ⟨hkw, -, -, -⟩ | ⟨hkw, -, -, -⟩
  all_goals cases hkw

/-- **Only grammatical statements take effect**, on any engine. -/
def OnlyGrammatical (rawSql : ByteString) : Prop :=
  statement rawSql ≠ [] → ∀ e, Accepts rawSql e → Documented (tokenize (statement rawSql))

/-- **Only grammatical statements take effect** exactly where the statement is
of the documented grammar, or is not accepted. -/
theorem onlyGrammatical_iff (rawSql : ByteString) : OnlyGrammatical rawSql
    ↔ Documented (tokenize (statement rawSql))
      ∨ ¬ Accepted (toUpper ((statement rawSql).take 6)) (tokenize (statement rawSql)) := by
  by_cases hne : statement rawSql = []
  · exact iff_of_true (fun h => absurd hne h) (Or.inr (fun h => h.statement_ne_nil hne))
  · rw [← exists_accepts_iff hne, ← imp_iff_or_not]
    constructor
    · rintro h ⟨e, he⟩
      exact h hne e he
    · exact fun h _ e he => h ⟨e, he⟩

/-! ### Statements that end too early -/

/-- **A statement that ends too early**: the beginning of a documented
statement, and none itself. -/
def EndsEarly (toks : List ByteString) : Prop :=
  ¬ Documented toks ∧ ∃ more, Documented (toks ++ more)

/-- **The parsers keep to the tokens** of a statement, on every engine: none is
read past the end, and a statement that ends too early is answered with an
error. -/
def KeepsToTokens (rawSql : ByteString) : Prop :=
  ∀ e, exec rawSql e ≠ .error .pastEnd ∧ (statement rawSql ≠ [] →
    EndsEarly (tokenize (statement rawSql)) →
      ∀ text e', exec rawSql e = .ok (text, e') → ErrorText text)

/-- **Every engine that answers** answers with an error exactly where the
parsers do not accept the statement. -/
theorem errorText_iff_not_accepted {rawSql : ByteString} (hne : statement rawSql ≠ []) :
    (∀ e text e', exec rawSql e = .ok (text, e') → ErrorText text)
      ↔ ¬ Accepted (toUpper ((statement rawSql).take 6)) (tokenize (statement rawSql)) := by
  rw [← exists_accepts_iff hne]
  constructor
  · rintro h ⟨e, text, e', hexec, htext⟩
    exact htext (h e text e' hexec)
  · intro h e text e' hexec
    by_contra htext
    exact h ⟨e, text, e', hexec, htext⟩

/-- **The parsers keep to the tokens** exactly where no engine makes them run
off, and the statement, if it ends too early, is not accepted. No read is past
the end but in the statements cut off there, whatever the engine. -/
theorem keepsToTokens_iff (rawSql : ByteString) :
    (∀ e, exec rawSql e ≠ .error .pastEnd ↔ ¬ RunsOff rawSql e)
    ∧ (KeepsToTokens rawSql ↔ (∀ e, ¬ RunsOff rawSql e)
      ∧ ¬ (EndsEarly (tokenize (statement rawSql))
        ∧ Accepted (toUpper ((statement rawSql).take 6)) (tokenize (statement rawSql)))) := by
  refine ⟨exec_inRange_iff rawSql, ?_⟩
  constructor
  · intro h
    refine ⟨fun e => (exec_inRange_iff rawSql e).mp (h e).1, ?_⟩
    rintro ⟨hearly, haccepted⟩
    have hne := haccepted.statement_ne_nil
    exact (errorText_iff_not_accepted hne).mp (fun e => (h e).2 hne hearly) haccepted
  · rintro ⟨hoff, hearly⟩ e
    refine ⟨(exec_inRange_iff rawSql e).mpr (hoff e), fun hne hends => ?_⟩
    exact (errorText_iff_not_accepted hne).mpr (fun hacc => hearly ⟨hends, hacc⟩) e

/-- **A documented statement** is the form its first token says. -/
theorem Documented.cases_keyword {kw : ByteString} (h : Documented (kw :: ts)) :
    (Keyword "CREATE" kw ∧ ∃ table, CreateTokens table (kw :: ts))
    ∨ (Keyword "INSERT" kw ∧ ∃ st, InsertTokens st (kw :: ts))
    ∨ (Keyword "DELETE" kw ∧ ∃ table wh, DeleteTokens table wh (kw :: ts))
    ∨ (Keyword "SELECT" kw ∧ ∃ q, SelectTokens q (kw :: ts)) := by
  generalize htoks : kw :: ts = toks at h
  cases h with
  | create h =>
    refine Or.inl ⟨?_, _, h⟩
    cases h with
    | mk hcreate => exact (List.cons.inj htoks).1 ▸ hcreate
  | insert h =>
    refine Or.inr (Or.inl ⟨?_, _, h⟩)
    cases h with
    | mk hinsert => exact (List.cons.inj htoks).1 ▸ hinsert
  | delete h =>
    refine Or.inr (Or.inr (Or.inl ⟨?_, _, _, h⟩))
    cases h with
    | mk hdelete => exact (List.cons.inj htoks).1 ▸ hdelete
  | select h =>
    refine Or.inr (Or.inr (Or.inr ⟨?_, _, h⟩))
    cases h with
    | mk hselect => exact (List.cons.inj htoks).1 ▸ hselect

/-- A creation names a column. -/
theorem CreateTokens.seven_le {table : ByteString} (h : CreateTokens table toks) :
    7 ≤ toks.length := by
  have hcol : ∀ {col}, ColumnDefTokens col → 2 ≤ col.length := by
    intro col hcol
    cases hcol with
    | int => exact le_rfl
    | text => exact le_rfl
    | sized => exact Nat.le_add_left 2 3
  cases h with
  | @mk create kw cols hcreate htable hcols =>
    have hlen : 2 ≤ cols.length := by
      cases hcols with
      | one h => exact hcol h
      | more h hcols => exact (hcol h).trans (by simp)
    simp only [List.length_cons, List.length_append, List.length_nil]
    omega

/-- **`INSERT INTO` is read past its end**, and a creation cut off behind its
opening bracket takes effect. -/
theorem not_keepsToTokens :
    (exec (ascii "INSERT INTO") ⟨fun _ => none, fun _ => .empty⟩ = .error .pastEnd
      ∧ ¬ KeepsToTokens (ascii "INSERT INTO"))
    ∧ EndsEarly (tokenize (ascii "CREATE TABLE u ("))
    ∧ (∃ e, Accepts (ascii "CREATE TABLE u (") e)
    ∧ ¬ KeepsToTokens (ascii "CREATE TABLE u (") := by
  have hoff : exec (ascii "INSERT INTO") ⟨fun _ => none, fun _ => .empty⟩ = .error .pastEnd := rfl
  have hearly : EndsEarly (tokenize (ascii "CREATE TABLE u (")) := by
    constructor
    · intro h
      have htoks : Documented (ascii "CREATE" :: [ascii "TABLE", ascii "u", ascii "("]) := h
      rcases htoks.cases_keyword with
        ⟨-, table, hcreate⟩ | ⟨hkw, -⟩ | ⟨hkw, -⟩ | ⟨hkw, -⟩
      · exact absurd hcreate.seven_le (by decide)
      all_goals exact absurd hkw (by decide)
    · exact ⟨[ascii "a", ascii "INT", ascii ")"], .create (.mk (by decide) (by decide)
        (.one (.int (Or.inl (show Keyword "INT" (ascii "INT") from rfl)) (ascii "a"))))⟩
  have haccepted : ∃ e, Accepts (ascii "CREATE TABLE u (") e := by
    have hread : ReadCreate (ascii "u") []
      [ascii "CREATE", ascii "TABLE", ascii "u", ascii "("] [] :=
      .mk (by decide) (by decide) (ascii "u") (by decide) (.done (by simp))
    have htoks : tokenize (statement (ascii "CREATE TABLE u ("))
        = [ascii "CREATE", ascii "TABLE", ascii "u", ascii "("] := by decide
    exact (exists_accepts_iff (by decide)).mpr (.create (by decide) (htoks ▸ hread))
  refine ⟨⟨hoff, fun h => (h _).1 hoff⟩, hearly, haccepted, fun h => ?_⟩
  obtain ⟨e, text, e', hexec, htext⟩ := haccepted
  exact htext ((h e).2 (by decide) hearly _ _ hexec)

/-! ### A misspelt clause -/

/-- A documented statement that begins with `DELETE` is a deletion. -/
theorem Documented.of_delete {delete : ByteString} (h : Documented (delete :: ts))
    (hdelete : Keyword "DELETE" delete) : ∃ table wh, DeleteTokens table wh (delete :: ts) := by
  rcases h.cases_keyword with ⟨hkw, -⟩ | ⟨hkw, -⟩ | ⟨-, h⟩ | ⟨hkw, -⟩
  · exact absurd hdelete (hkw.ne (by decide))
  · exact absurd hdelete (hkw.ne (by decide))
  · exact h
  · exact absurd hdelete (hkw.ne (by decide))

/-- What follows the table of a deletion is a `WHERE`. -/
theorem DeleteTokens.keyword_where {table delete frm name kw : ByteString} {wh : Option Predicate}
    (h : DeleteTokens table wh (delete :: frm :: name :: kw :: ts)) : Keyword "WHERE" kw := by
  generalize htoks : delete :: frm :: name :: kw :: ts = toks at h
  cases h with
  | mk hdelete hfrom hwhere =>
    cases hwhere with
    | absent => simp at htoks
    | clause hkw p =>
      simp only [List.cons.injEq] at htoks
      rwa [htoks.2.2.2.1]

/-- `exec` returns what its executor returns. -/
theorem exec_of_effect {rawSql text : ByteString} (hne : statement rawSql ≠ [])
    (h : effect (dispatch (toUpper ((statement rawSql).take 6))) (tokenize (statement rawSql)) e
      = .ok (.ok text, e')) : exec rawSql e = .ok (text, e') := by
  unfold effect at h
  unfold exec
  simp only [if_neg hne]
  rcases hrun : dispatch (toUpper ((statement rawSql).take 6)) ⟨tokenize (statement rawSql), e⟩
    with f | ⟨x | text', st⟩
  · rw [hrun] at h
    cases h
  · rw [hrun] at h
    cases h
  · rw [hrun] at h
    obtain ⟨htext, rfl⟩ := Prod.mk.inj (Except.ok.inj h)
    rw [Except.ok.inj htext]

/-- **A deletion whose `WHERE` is misspelt** removes a row that the condition does
not hold of. -/
theorem not_onlyGrammatical : ¬ OnlyGrammatical (ascii "DELETE FROM notes WHRE body = 'b'")
    ∧ ∃ t s m, Stands (RowMap.empty.insert [.makeText (ascii "a")]) m t s ∧ ∃ s' m',
      exec (ascii "DELETE FROM notes WHRE body = 'b'") (Engine.single (ascii "notes") t s)
        = .ok (ascii "Deleted 1 row(s).",
          (Engine.single (ascii "notes") t s).put (ascii "notes") t s')
      ∧ Stands ((RowMap.empty.insert [.makeText (ascii "a")]).delete 1) m' t s' := by
  have htoks : tokenize (statement (ascii "DELETE FROM notes WHRE body = 'b'"))
      = [ascii "DELETE", ascii "FROM", ascii "notes"]
        ++ [ascii "WHRE", ascii "body", ascii "=", ascii "b"] := rfl
  have hdelete : DeleteTokens (ascii "notes") none [ascii "DELETE", ascii "FROM", ascii "notes"] :=
    .mk (show Keyword "DELETE" (ascii "DELETE") from rfl)
      (show Keyword "FROM" (ascii "FROM") from rfl) .absent
  obtain ⟨m, t, s, h, hschema⟩ := Stands.exists_of_row notes_fits
    (show [Value.makeText (ascii "a")].length = 1 from rfl) (by decide)
  obtain ⟨r, s', hrun, ⟨x, hx, -⟩ | ⟨rids, hrids, hr, m', hm'⟩⟩ :=
    h.runs_deleteWhere (fun _ row => matchWhere row t.schema ⟨false, [], [], []⟩)
  · cases hx
  obtain rfl : [1] = rids := Except.ok.inj hrids
  have hexec : exec (ascii "DELETE FROM notes WHRE body = 'b'") (Engine.single (ascii "notes") t s)
      = .ok (ascii "Deleted 1 row(s).",
        (Engine.single (ascii "notes") t s).put (ascii "notes") t s') := by
    refine exec_of_effect (by decide) ?_
    rw [htoks]
    refine (effect_execDelete hdelete (by decide) _).trans ?_
    unfold runDelete
    rw [bind_of_ok (openTable_of_open single_tables_self),
      bind_of_ok (schemaOf_of_open single_tables_self),
      bind_of_ok (readTable_of_run single_tables_self hrun), hr, bind_of_ok (ofExcept_apply _ _)]
    rfl
  refine ⟨fun hall => ?_, t, s, m, h, s', m', hexec, hm'⟩
  have hdoc := hall (by decide) _ ⟨_, _, hexec, not_errorText_of_head (c := 68) (by decide)⟩
  rw [htoks] at hdoc
  obtain ⟨table, wh, hdel⟩ := hdoc.of_delete (show Keyword "DELETE" (ascii "DELETE") from rfl)
  exact absurd hdel.keyword_where (by decide)

end SqlEngine
