import SqlMini.Tokenizer
import SqlMini.Table
import SqlMini.Routine
import Mathlib.Data.List.DropRight

/-!
# The SQL engine

Each statement has its executor, which parses the token list and acts on the
tables as it goes. A parser is a cursor into the token list, and the list
behind the cursor is the state it is kept in here. Some reads of the list are
guarded, others are plain `toks[i++]`: past the end of the list these are
undefined behaviour, which is `EngineFault.pastEnd`, apart from the faults of
the page layer.

The engine holds one table object for each name it has opened. Here the files
are those of names, each one opens, and what is written is in it. Which names
lead to one file, and which to none, is for `FileSystem` to say: the engine over
its pools goes by it, and refines this one where names have files of their own.
-/

/-- **Why a statement stops** without returning or throwing. -/
inductive EngineFault where
  /-- `toks[i]` with `i >= toks.size()`. -/
  | pastEnd
  /-- A fault of the page layer. -/
  | pages (f : Fault)
  /-- A stream that did not open, or a file that two handles have open: what a
  table then reads is up to the system. -/
  | fileSystem
  deriving DecidableEq

/-- **The engine**: the tables it has opened, and the files. -/
structure Engine where
  /-- `tables_`, a table with the pages of its pool. -/
  tables : ByteString → Option (Table × Store)
  /-- The file of each name, which opens whenever it is asked for. Another
  name has another file. -/
  files : ByteString → PageFile

/-- **What an executor works on**: the tokens from the cursor on, and the
engine. -/
structure ExecState where
  /-- `toks`, from `i` on. -/
  toks : List ByteString
  /-- The engine. -/
  engine : Engine

/-- A step on the engine. -/
abbrev EngineM := Routine EngineFault StdException Engine

/-- A step of an executor. -/
abbrev ExecM := Routine EngineFault StdException ExecState

/-- **The result of a query.** -/
structure SelectResult where
  /-- The names of the columns selected. -/
  cols : List ByteString
  /-- The rows. -/
  rows : List (List ByteString)
  /-- The error, empty where there is none. -/
  error : ByteString
  /-- How many rows were looked at. -/
  rowsScanned : ℕ
  deriving DecidableEq

instance : Inhabited SelectResult := ⟨⟨[], [], [], 0⟩⟩

namespace SqlEngine

open Routine

/-! ## Strings -/

/-- The characters `trim` removes. -/
def isBlank (c : UInt8) : Bool := c == 32 || c == 9 || c == 13 || c == 10

/-- `trim`. -/
def trim (s : ByteString) : ByteString := List.rdropWhile isBlank (s.dropWhile isBlank)

/-- `std::toupper` in the C locale. -/
def toUpperByte (c : UInt8) : UInt8 := if 97 ≤ c ∧ c ≤ 122 then c - 32 else c

/-- `to_upper`. -/
def toUpper (s : ByteString) : ByteString := s.map toUpperByte

/-- `e.what()`. The exceptions of `std::stoi` carry its name. -/
def what : StdException → ByteString
  | .runtimeError message => message
  | .invalidArgument => ascii "stoi"
  | .outOfRange => ascii "stoi"

/-- A `std::runtime_error`. -/
def fail {σ α : Type} (message : ByteString) : Routine EngineFault StdException σ α :=
  throw (.runtimeError message)

/-- A step on the engine leaves the cursor where it is. -/
def onEngine {α : Type} (m : EngineM α) : ExecM α := fun st =>
  (m st.engine).map (fun r => (r.1, { st with engine := r.2 }))

/-! ## The cursor -/

/-- `toks[i++]`. -/
def next : ExecM ByteString := fun st =>
  match st.toks with
  | [] => .error .pastEnd
  | t :: ts => .ok (.ok t, { st with toks := ts })

/-- Whether there is a token and the test holds of it. -/
def ahead (p : ByteString → Bool) : ExecM Bool := fun st =>
  .ok (.ok (match st.toks with
    | [] => false
    | t :: _ => p t), st)

/-- `++i;`. -/
def skip : ExecM Unit := modify (fun st => { st with toks := st.toks.tail })

/-- Whether a token spells a keyword. -/
def spells (s t : ByteString) : Bool := toUpper t = s

/-- The lambda `expect`: the next token has to spell `s`. The executors differ
in how their message ends. -/
def expectToken (ending s : ByteString) : ExecM Unit := do
  if ← ahead (spells s) then skip
  else
    let st ← get
    fail (ascii "Syntax error near '" ++ st.toks.headD (ascii "EOF") ++ ascii "'" ++ ending)

/-- `expect` in `exec_insert` and `exec_select`. -/
def expectPlain (s : String) : ExecM Unit := expectToken [] (ascii s)

/-- `expect` in `exec_create`, `exec_delete` and `exec_join`. -/
def expectNamed (s : String) : ExecM Unit :=
  expectToken (ascii ", expected '" ++ ascii s ++ ascii "'") (ascii s)

/-- The loop over a list: up to the end or to a token at which it stops, with
a comma skipped after each item. -/
def commaList (stops : ByteString → Bool) : List ByteString → List ByteString × List ByteString
  | [] => ([], [])
  | [t] => if stops t then ([], [t]) else ([t], [])
  | t :: u :: ts =>
    if stops t then ([], t :: u :: ts)
    else if u = ascii "," then
      let r := commaList stops ts
      (t :: r.1, r.2)
    else
      let r := commaList stops (u :: ts)
      (t :: r.1, r.2)

/-- The list from the cursor on. -/
def list (stops : ByteString → Bool) : ExecM (List ByteString) := fun st =>
  .ok (.ok (commaList stops st.toks).1, { st with toks := (commaList stops st.toks).2 })

/-- A token in parentheses is closed by `)`. -/
def closes (t : ByteString) : Bool := t = ascii ")"

/-! ## Clauses -/

/-- **The select list**, from `SELECT` to `FROM`: `none` for `*`. -/
def selectList : ExecM (Option (List ByteString)) := do
  if ← ahead (· = ascii "*") then
    skip
    return none
  else
    let refs ← list (spells (ascii "FROM"))
    return some refs

/-- The clause `WHERE col op val`, where there is one. -/
def whereClause : ExecM WhereClause := do
  if ← ahead (spells (ascii "WHERE")) then
    skip
    let col ← next
    let op ← next
    let val ← next
    return ⟨true, col, op, val⟩
  else return ⟨false, [], [], []⟩

/-- The clause `LIMIT n`, where there is one, and `-1` otherwise. -/
def limitClause : ExecM ℤ := do
  if ← ahead (spells (ascii "LIMIT")) then
    skip
    let n ← next
    let limit ← ofExcept (CppString.stoi n)
    return limit.val
  else return -1

/-! ## Tables -/

/-- The pages of the pool over a file just opened. -/
def poolOf (f : PageFile) : Store := ⟨f.content, f.size % uint32Size, 0, f.size, []⟩

/-- `open_table`. -/
def openTable (name : ByteString) (schemaIfCreate : Option Schema) : EngineM Unit := do
  let e ← get
  match e.tables name with
  | some _ => return ()
  | none =>
    let pager := Pager.open (e.files (name ++ ascii ".db"))
    let isNew : Bool := pager.numPages = 0
    if isNew ∧ schemaIfCreate = none then
      fail (ascii "Table '" ++ name ++ ascii "' does not exist. Use CREATE TABLE first.")
    else
      let schema := if isNew then schemaIfCreate.getD default else ⟨name, []⟩
      match (Table.construct schema isNew isNew).run (poolOf pager.file) with
      | .error f => stop (.pages f)
      | .ok h => modify (fun e => { e with tables := Function.update e.tables name (some h) })

/-- A call on the table of that name. -/
def onTable {α : Type} (name : ByteString)
    (m : Table → PageProg (α × Table)) : EngineM α := fun e =>
  match e.tables name with
  | none => .error (.pages .danglingPointer)
  | some (t, s) =>
    match (m t).run s with
    | .error f => .error (.pages f)
    | .ok ((a, t'), s') =>
      .ok (.ok a, { e with tables := Function.update e.tables name (some (t', s')) })

/-- A call that leaves the fields of the table alone. -/
def readTable {α : Type} (name : ByteString) (m : Table → PageProg α) : EngineM α :=
  onTable name (fun t => do return (← m t, t))

/-- `table->schema()`. -/
def schemaOf (name : ByteString) : EngineM Schema := fun e =>
  match e.tables name with
  | none => .error (.pages .danglingPointer)
  | some (t, _) => .ok (.ok t.schema, e)

/-! ## CREATE TABLE -/

/-- One round of the loop of `exec_create`: a column. -/
def columnDef : ExecM Column := do
  let cname ← next
  if !(← ahead (fun _ => true)) then fail (ascii "Expected column type")
  else
    let ctype := toUpper (← next)
    if ctype = ascii "INT" ∨ ctype = ascii "INTEGER" then return ⟨cname, .int, 4⟩
    else if ctype = ascii "TEXT" ∨ ctype = ascii "VARCHAR" then
      if ← ahead (· = ascii "(") then
        skip
        let maxLen ← (do
          if ← ahead (fun t => !closes t) then
            let n ← ofExcept (CppString.stoi (← next))
            return UInt16.ofNat n.toUInt
          else return 255 : ExecM UInt16)
        if ← ahead closes then skip
        return ⟨cname, .text, maxLen⟩
      else return ⟨cname, .text, 255⟩
    else fail (ascii "Unknown type: " ++ ctype)

/-- The loop of `exec_create`, for at most `n` columns. -/
def columnDefs : (n : ℕ) → ExecM (List Column)
  | 0 => return []
  | n + 1 => do
    if ← ahead (fun t => !closes t) then
      let col ← columnDef
      if ← ahead (· = ascii ",") then skip
      let cols ← columnDefs n
      return col :: cols
    else return []

/-- `exec_create`. Every round of its loop consumes a token. -/
def execCreate : ExecM ByteString := do
  expectNamed "CREATE"
  expectNamed "TABLE"
  if !(← ahead (fun _ => true)) then fail (ascii "Expected table name")
  else
    let tname ← next
    expectNamed "("
    let st ← get
    let cols ← columnDefs st.toks.length
    onEngine (openTable tname (some ⟨tname, cols⟩))
    return ascii "Table '" ++ tname ++ ascii "' created with " ++ CppString.digitsOf cols.length
      ++ ascii " column(s)."

/-! ## INSERT INTO -/

/-- The value of a literal in a column. -/
def literal (type : ColType) (val : ByteString) : Except StdException Value :=
  if type = .int then (CppString.stoi val).map Value.makeInt else .ok (Value.makeText val)

/-- The row of `exec_insert` without a column list. -/
def positionalRow : List Column → List ByteString → Except StdException Row
  | c :: cols, v :: vals => do
    let x ← literal c.type v
    let row ← positionalRow cols vals
    return x :: row
  | cols, _ => .ok (List.replicate cols.length default)

/-- The row of `exec_insert` with a column list, starting from `row`. -/
def namedRow (schema : Schema) : List ByteString → List ByteString → Row → Except StdException Row
  | c :: colOrder, v :: vals, row => do
    let ci := schema.findCol c
    if ci < 0 then .error (.runtimeError (ascii "Unknown column: " ++ c))
    else
      let x ← literal (schema.cols.getD ci.toNat default).type v
      namedRow schema colOrder vals (row.set ci.toNat x)
  | _, _, row => .ok row

/-- The row of `exec_insert`. -/
def insertedRow (schema : Schema) (colOrder vals : List ByteString) : Except StdException Row :=
  if colOrder = [] then positionalRow schema.cols vals
  else namedRow schema colOrder vals (List.replicate schema.cols.length default)

/-- The column list of `exec_insert`, where there is one. -/
def columnList : ExecM (List ByteString) := do
  if ← ahead (· = ascii "(") then
    skip
    let colOrder ← list closes
    skip
    return colOrder
  else return []

/-- `exec_insert`. -/
def execInsert : ExecM ByteString := do
  expectPlain "INSERT"
  expectPlain "INTO"
  let tname ← next
  onEngine (openTable tname none)
  let schema ← onEngine (schemaOf tname)
  let colOrder ← columnList
  expectPlain "VALUES"
  expectPlain "("
  let vals ← list closes
  let row ← ofExcept (insertedRow schema colOrder vals)
  let r ← onEngine (onTable tname (fun t => t.insertRow row))
  let rowid ← ofExcept r
  return ascii "Inserted 1 row (rowid=" ++ CppString.digitsOf rowid ++ ascii ")."

/-! ## SELECT -/

/-- A field of a row as it is printed. -/
def field (row : Row) (ci : ℕ) : ByteString :=
  if ci < row.length then (row.getD ci default).toString else ascii "NULL"

/-- What the callbacks of `exec_select` and `exec_join` write to. -/
structure Found where
  /-- `res.rows`. -/
  rows : List (List ByteString)
  /-- `res.rows_scanned`. -/
  rowsScanned : ℕ
  /-- `returned`. -/
  returned : ℕ
  deriving DecidableEq

/-- Nothing found yet. -/
def Found.none : Found := ⟨[], 0, 0⟩

/-- A row was looked at. -/
def Found.scanned (f : Found) : Found := { f with rowsScanned := (f.rowsScanned + 1) % uint32Size }

/-- A row was found. -/
def Found.add (f : Found) (row : List ByteString) : Found :=
  { f with rows := f.rows ++ [row], returned := f.returned + 1 }

/-- `limit > 0 && returned >= limit`. -/
def Found.full (f : Found) (limit : ℤ) : Bool := 0 < limit ∧ limit ≤ f.returned

/-- The columns `exec_select` selects: their positions and their names, or
the name of one that does not exist. -/
def resolveList (schema : Schema) : List ByteString → Except ByteString (List ℕ)
  | [] => .ok []
  | c :: cs =>
    let ci := schema.findCol c
    if ci < 0 then .error c
    else do
      let rest ← resolveList schema cs
      return ci.toNat :: rest

/-- The callback of `exec_select`. -/
def selectCallback (schema : Schema) (wh : WhereClause) (limit : ℤ) (outIdx : List ℕ) :
    Table.Callback Found := fun _ row f => do
  let f := f.scanned
  if ← matchWhere row schema wh then
    let f := f.add (outIdx.map (field row))
    return (!f.full limit, f)
  else return (true, f)

/-- Whether `exec_select` looks the row up by its rowid. -/
def fastPath (schema : Schema) (wh : WhereClause) : Bool :=
  wh.active ∧ wh.op = ascii "=" ∧ schema.cols ≠ [] ∧ (schema.cols.getD 0 default).type = .int
    ∧ schema.findCol wh.col = 0

/-- The look-up of `exec_select` by rowid. -/
def selectByRowid (tname : ByteString) (wh : WhereClause) (outIdx : List ℕ) : EngineM Found := do
  let target ← ofExcept (CppString.stoi wh.val)
  let row ← readTable tname (fun t => t.findByRowid target.toUInt)
  match row with
  | some row => return (Found.none.scanned).add (outIdx.map (field row))
  | none => return Found.none

/-- The scan of `exec_select`. -/
def selectByScan (tname : ByteString) (schema : Schema) (wh : WhereClause) (limit : ℤ)
    (outIdx : List ℕ) : EngineM Found := do
  let r ← readTable tname (fun t => t.scan (selectCallback schema wh limit outIdx) Found.none)
  let r ← ofExcept r
  return r.2

/-- What `exec_select` does with a statement it has parsed. -/
def runSelect (tname : ByteString) (schema : Schema) (selCols : Option (List ByteString))
    (wh : WhereClause) (limit : ℤ) : EngineM SelectResult := do
  let cols := selCols.getD (schema.cols.map Column.name)
  match (match selCols with
    | none => .ok (List.range schema.cols.length)
    | some refs => resolveList schema refs : Except ByteString (List ℕ)) with
  | .error c =>
    -- the columns before the unknown one have been entered
    return ⟨cols.takeWhile (fun c => 0 ≤ schema.findCol c), [], ascii "Unknown column: " ++ c, 0⟩
  | .ok outIdx =>
    let f ← if fastPath schema wh then selectByRowid tname wh outIdx
      else selectByScan tname schema wh limit outIdx
    return ⟨cols, f.rows, [], f.rowsScanned⟩

/-- `exec_select`. -/
def execSelect : ExecM SelectResult := do
  expectPlain "SELECT"
  let selCols ← selectList
  expectPlain "FROM"
  let tname ← next
  onEngine (openTable tname none)
  let schema ← onEngine (schemaOf tname)
  let wh ← whereClause
  let limit ← limitClause
  onEngine (runSelect tname schema selCols wh limit)

/-! ## DELETE FROM -/

/-- `exec_delete`. -/
def execDelete : ExecM ByteString := do
  expectNamed "DELETE"
  expectNamed "FROM"
  if !(← ahead (fun _ => true)) then fail (ascii "Expected table name")
  else
    let tname ← next
    onEngine (openTable tname none)
    let schema ← onEngine (schemaOf tname)
    let wh ← whereClause
    let r ← onEngine
      (readTable tname (fun t => t.deleteWhere (fun _ row => matchWhere row schema wh)))
    let deleted ← ofExcept r
    return ascii "Deleted " ++ CppString.digitsOf deleted ++ ascii " row(s)."

/-! ## SELECT ... JOIN -/

/-- The lambda `split_ref`: the table and the column of a reference, the table
empty where the reference is bare. -/
def splitRef (ref : ByteString) : ByteString × ByteString :=
  if dot ∈ ref then (ref.takeWhile (· ≠ dot), (ref.dropWhile (· ≠ dot)).tail) else ([], ref)

/-- A row of the right table, kept in memory. -/
structure RightRow where
  /-- `join_key`. -/
  joinKey : ByteString
  /-- The printed values. -/
  vals : List ByteString

/-- The printed value of a row at an index, empty past the end. -/
def joinKey (row : Row) (ci : ℕ) : ByteString :=
  if ci < row.length then (row.getD ci default).toString else []

/-- The callback that materialises the right table. -/
def rightCallback (onRi : ℕ) : Table.Callback (List RightRow) := fun _ row rows =>
  .ok (true, rows ++ [⟨joinKey row onRi, row.map Value.toString⟩])

/-- A field of a combined row. -/
def combinedField (combined : List ByteString) (ci : ℕ) : ByteString :=
  if ci < combined.length then combined.getD ci [] else ascii "NULL"

/-- The inner loop of the join, for one left row. -/
def joinLoop (names : List ByteString) (wh : WhereClause) (limit : ℤ) (outIdx : List ℕ)
    (lkey : ByteString) (lvals : List ByteString) : List RightRow → Found → Bool × Found
  | [], f => (true, f)
  | rr :: rrs, f =>
    let f := f.scanned
    if lkey ≠ rr.joinKey then joinLoop names wh limit outIdx lkey lvals rrs f
    else
      let combined := lvals ++ rr.vals
      if !matchWhereCombined combined names wh then
        joinLoop names wh limit outIdx lkey lvals rrs f
      else
        let f := f.add (outIdx.map (combinedField combined))
        if f.full limit then (false, f)
        else joinLoop names wh limit outIdx lkey lvals rrs f

/-- The callback over the left table. -/
def leftCallback (names : List ByteString) (wh : WhereClause) (limit : ℤ) (outIdx : List ℕ)
    (onLi : ℕ) (rightRows : List RightRow) : Table.Callback Found := fun _ lrow f =>
  .ok (joinLoop names wh limit outIdx (joinKey lrow onLi) (lrow.map Value.toString) rightRows f)

/-- The columns a join selects: their positions, or the error for the first
that cannot be resolved. -/
def resolveRefs (names : List ByteString) : List ByteString → Except ByteString (List ℕ)
  | [] => .ok []
  | ref :: refs =>
    let ci := resolveCol ref names
    if ci = -2 then
      .error (ascii "Ambiguous column '" ++ ref ++ ascii "': qualify with table name")
    else if ci < 0 then .error (ascii "Unknown column '" ++ ref ++ ascii "'")
    else do
      let rest ← resolveRefs names refs
      return ci.toNat :: rest

/-- **A parsed join.** -/
structure JoinStmt where
  /-- The select list, `none` for `*`. -/
  selRefs : Option (List ByteString)
  leftName : ByteString
  rightName : ByteString
  /-- `on_left_raw` and `on_right_raw`. -/
  onLeft : ByteString
  onRight : ByteString
  wh : WhereClause
  limit : ℤ

/-- The parser of `exec_join`. -/
def parseJoin : ExecM JoinStmt := do
  expectNamed "SELECT"
  let selRefs ← selectList
  expectNamed "FROM"
  let leftName ← next
  if ← ahead (spells (ascii "INNER")) then skip
  expectNamed "JOIN"
  let rightName ← next
  expectNamed "ON"
  let onLeft ← next
  expectNamed "="
  let onRight ← next
  let wh ← whereClause
  let limit ← limitClause
  return ⟨selRefs, leftName, rightName, onLeft, onRight, wh, limit⟩

/-- The two columns of the `ON` clause, the left table's first: the references
are swapped where the first one is qualified with the right table. -/
def onColumns (q : JoinStmt) : ByteString × ByteString :=
  let l := splitRef q.onLeft
  let r := splitRef q.onRight
  if l.1 ≠ [] ∧ l.1 = q.rightName then (r.2, l.2) else (l.2, r.2)

/-- The two scans of a join. -/
def joinScans (q : JoinStmt) (names : List ByteString) (outIdx : List ℕ) (onLi onRi : ℕ) :
    EngineM Found := do
  let r ← readTable q.rightName (fun t => t.scan (rightCallback onRi) [])
  let right ← ofExcept r
  let r ← readTable q.leftName
    (fun t => t.scan (leftCallback names q.wh q.limit outIdx onLi right.2) Found.none)
  let left ← ofExcept r
  return left.2

/-- What `exec_join` does with a statement whose tables it has opened. -/
def runJoin (q : JoinStmt) (ls rs : Schema) : EngineM SelectResult := do
  let names := combinedCols q.leftName ls ++ combinedCols q.rightName rs
  let on := onColumns q
  let onLi := ls.findCol on.1
  let onRi := rs.findCol on.2
  if onLi < 0 then
    return ⟨[], [], ascii "ON: unknown column '" ++ on.1 ++ ascii "' in " ++ q.leftName, 0⟩
  else if onRi < 0 then
    return ⟨[], [], ascii "ON: unknown column '" ++ on.2 ++ ascii "' in " ++ q.rightName, 0⟩
  else
    match (match q.selRefs with
      | none => .ok (List.range names.length)
      | some refs => resolveRefs names refs : Except ByteString (List ℕ)) with
    | .error message =>
      -- the columns before the one in error have been entered
      let known := (q.selRefs.getD []).takeWhile (fun ref => 0 ≤ resolveCol ref names)
      return ⟨known.map (fun ref => names.getD (resolveCol ref names).toNat []), [], message, 0⟩
    | .ok outIdx =>
      let f ← joinScans q names outIdx onLi.toNat onRi.toNat
      return ⟨outIdx.map (fun ci => names.getD ci []), f.rows, [], f.rowsScanned⟩

/-- What `exec_join` does with a statement it has parsed. -/
def joinTables (q : JoinStmt) : EngineM SelectResult := do
  openTable q.leftName none
  openTable q.rightName none
  let ls ← schemaOf q.leftName
  let rs ← schemaOf q.rightName
  runJoin q ls rs

/-- `exec_join`. -/
def execJoin : ExecM SelectResult := do
  let q ← parseJoin
  onEngine (joinTables q)

/-! ## Public functions -/

/-- Whether `exec` takes a `SELECT` for a join: some token spells `JOIN`. -/
def hasJoin (toks : List ByteString) : Bool := toks.any (spells (ascii "JOIN"))

/-- The query of a `SELECT` given to `exec`. -/
def execQuery : ExecM SelectResult := do
  let st ← get
  if hasJoin st.toks then execJoin else execSelect

/-- The strings with `separator` between them. -/
def joined (separator : ByteString) : List ByteString → ByteString
  | [] => []
  | [s] => s
  | s :: rest => s ++ separator ++ joined separator rest

/-- The table that `exec` prints. -/
def prettyPrint (res : SelectResult) : ByteString :=
  joined (ascii " | ") res.cols ++ ascii "\n"
    ++ joined (ascii "-+-") (res.cols.map (fun c => List.replicate c.length 45)) ++ ascii "\n"
    ++ res.rows.flatMap (fun row => joined (ascii " | ") row ++ ascii "\n")
    ++ ascii "(" ++ CppString.digitsOf res.rows.length ++ ascii " row(s), scanned "
    ++ CppString.digitsOf res.rowsScanned ++ ascii ")\n"

/-- The statement in the argument of `exec`: trimmed, without one trailing
semicolon. -/
def statement (rawSql : ByteString) : ByteString :=
  let sql := trim rawSql
  if sql.getLast? = some 59 then sql.dropLast else sql

/-- The executor that the first six characters choose. -/
def dispatch (keyword : ByteString) : ExecM ByteString :=
  if keyword = ascii "CREATE" then execCreate
  else if keyword = ascii "INSERT" then execInsert
  else if keyword = ascii "DELETE" then execDelete
  else if keyword = ascii "SELECT" then do
    let res ← execQuery
    if res.error ≠ [] then return ascii "Error: " ++ res.error
    else return prettyPrint res
  else
    return ascii
      "Error: Unknown statement. Supported: CREATE TABLE, INSERT INTO, SELECT, DELETE FROM."

/-- **`SQLEngine::exec`.** -/
def exec (rawSql : ByteString) (e : Engine) : Except EngineFault (ByteString × Engine) :=
  let sql := statement rawSql
  if sql = [] then .ok ([], e)
  else
    match dispatch (toUpper (sql.take 6)) ⟨tokenize sql, e⟩ with
    | .error f => .error f
    | .ok (.ok text, st) => .ok (text, st.engine)
    | .ok (.error x, st) => .ok (ascii "Error: " ++ what x, st.engine)

/-- **`SQLEngine::select`.** -/
def select (sql : ByteString) (e : Engine) : Except EngineFault (SelectResult × Engine) :=
  match execSelect ⟨tokenize sql, e⟩ with
  | .error f => .error f
  | .ok (.ok res, st) => .ok (res, st.engine)
  | .ok (.error x, st) => .ok (⟨[], [], what x, 0⟩, st.engine)

end SqlEngine
