import SqlMini.Syntax
import SqlMini.Database
import SqlMini.Windows

/-!
# What statements mean

The meaning of the language as the engine speaks it, on a database of finite
maps and in the terms of relations: a query is a filter on the rows of a table,
or on the pairs of rows of two, and a projection; a deletion is a filter on a
table; a predicate is a test of a row, or an error. Nothing is said of
callbacks, loops, pages or the order of checks within an executor.

It is a dialect, and where it is not SQL the meaning is not either. A comparison
of the first column, where it is an integer, with `=` is taken for a rowid, and
the row found is not tested (`keyed`, `candidates`); everywhere else, and where
the rows carry their rowids, a query is a filter (`rows_scanQuery`). `LIMIT`
takes a positive number or is ignored (`cap`). The values of an insertion end at
the first literal `)` (`Spells`). The predicate of a join compares numbers where
both sides begin with one, whatever their types (`comparesTexts`). A literal of
a predicate that ought to be a number and is none is an error, unless the table
has no rows (`testOf`).
-/

open SqlEngine Search

/-- The rows of a table, in the order of their rowids. -/
def MapTable.list (t : MapTable) : List Row := t.rows.all.map Prod.snd

namespace Semantics

/-! ## Names, numbers, predicates -/

/-- The table of a name. -/
def tableOf (d : Database) (name : ByteString) : Except ByteString MapTable :=
  match d name with
  | some t => .ok t
  | none => .error (ascii "Table '" ++ name ++ ascii "' does not exist. Use CREATE TABLE first.")

/-- The number that a literal begins with. -/
def number (s : ByteString) : Except ByteString CInt := (CppString.stoi s).mapError what

/-- How many rows a query may return. A number below one is no cap. -/
def cap : Option ByteString → Except ByteString (Option ℕ)
  | none => .ok none
  | some n => do
    let z ← number n
    return if 0 < z.val then some z.val.toNat else none

/-- The first column of that name. -/
def position (schema : Schema) (name : ByteString) : Option ℕ :=
  schema.cols.findIdx? (fun c => c.name = name)

/-- A comparison. Nothing compares under another operator. -/
def compares {α : Type} [DecidableEq α] [LT α] [LE α] [DecidableLT α] [DecidableLE α]
    (op : ByteString) (a b : α) : Bool := (applyOp op a b).getD false

/-- **The test of a predicate** on rows with the columns of a schema. -/
def test (schema : Schema) : Option Predicate → Except ByteString (Row → Bool)
  | none => .ok (fun _ => true)
  | some p =>
    match position schema p.col with
    | none => .ok (fun _ => false)
    | some i =>
      if (schema.cols.getD i default).type = .int then do
        let c ← number p.val
        return fun row => compares p.op (row.getD i default).intVal.val c.val
      else return fun row => compares p.op (row.getD i default).strVal p.val

/-- The test of a predicate on the rows of a table: where there are none, it is
not made. -/
def testOf (t : MapTable) (wh : Option Predicate) : Except ByteString (Row → Bool) :=
  if t.list = [] then .ok (fun _ => false) else test t.schema wh

/-! ## Queries of one table -/

/-- The literal that is taken for a rowid. -/
def keyed (schema : Schema) : Option Predicate → Option ByteString
  | none => none
  | some p =>
    if p.op = ascii "=" ∧ position schema p.col = some 0 ∧ (schema.cols.getD 0 default).type = .int
    then some p.val else none

/-- **The rows a query looks at**, and the test they have to pass. The row of a
rowid has none to pass, whatever its first column is. -/
def candidates (t : MapTable) (wh : Option Predicate) :
    Except ByteString (List Row × (Row → Bool)) :=
  match keyed t.schema wh with
  | some val => do
    let z ← number val
    return ((t.rows.rows z.toUInt).toList, fun _ => true)
  | none => do
    let holds ← testOf t wh
    return (t.list, holds)

/-- The columns that a query selects, with their names. -/
def columnsOf (schema : Schema) : Option (List ByteString) →
    Except ByteString (List ByteString × List ℕ)
  | none => .ok (schema.cols.map Column.name, List.range schema.cols.length)
  | some refs => do
    let idx ← refs.mapM (fun c => match position schema c with
      | none => .error (ascii "Unknown column: " ++ c)
      | some i => .ok i)
    return (refs, idx)

/-- **The result of a query**: of what passes the test the first rows, printed.
The rows counted are those up to the last one returned. -/
def listing {α : Type} (cols : List ByteString) (cap : Option ℕ) (holds : α → Bool)
    (print : α → List ByteString) (l : List α) : SelectResult :=
  ⟨cols, (first cap (l.filter holds)).map print, [], (upTo holds cap l).length % uint32Size⟩

/-- **A query of one table.** -/
def scanQuery (q : SelectStmt) (d : Database) : Except ByteString SelectResult := do
  let t ← tableOf d q.table
  let n ← cap q.limit
  let cols ← columnsOf t.schema q.items
  let rows ← candidates t q.wh
  return listing cols.1 n rows.2 (fun row => cols.2.map (fun i => (row.getD i default).toString))
    rows.1

/-! ## Joins -/

/-- The columns of two tables, by their qualified names. -/
def joinedCols (left right : ByteString) (l r : Schema) : List ByteString :=
  combinedCols left l ++ combinedCols right r

/-- **The column a reference names**: qualified, the first of that name; bare,
the only one of that name in either table. -/
def resolve (names : List ByteString) (ref : ByteString) : Except ByteString ℕ :=
  if dot ∈ ref then
    match names.findIdx? (fun c => c = ref) with
    | some i => .ok i
    | none => .error (ascii "Unknown column '" ++ ref ++ ascii "'")
  else
    match names.findIdxs (fun c => bareName c = ref) with
    | [i] => .ok i
    | [] => .error (ascii "Unknown column '" ++ ref ++ ascii "'")
    | _ => .error (ascii "Ambiguous column '" ++ ref ++ ascii "': qualify with table name")

/-- A comparison of printed values: of numbers where both begin with one. -/
def comparesTexts (op a b : ByteString) : Bool :=
  match CppString.stoi a, CppString.stoi b with
  | .ok m, .ok n => compares op m.val n.val
  | _, _ => compares op a b

/-- The test of a predicate on the printed rows of a join. -/
def joinTest (names : List ByteString) : Option Predicate → List ByteString → Bool
  | none => fun _ => true
  | some p =>
    match resolve names p.col with
    | .ok i => fun row => comparesTexts p.op (row.getD i []) p.val
    | .error _ => fun _ => false

/-- The columns of an `ON`, the left table's first. -/
def onNames (j : JoinPart) : ByteString × ByteString :=
  let l := splitRef j.onLeft
  let r := splitRef j.onRight
  if l.1 ≠ [] ∧ l.1 = j.right then (r.2, l.2) else (l.2, r.2)

/-- The column of an `ON` in a table. -/
def onColumn (schema : Schema) (table col : ByteString) : Except ByteString ℕ :=
  match position schema col with
  | some i => .ok i
  | none => .error (ascii "ON: unknown column '" ++ col ++ ascii "' in " ++ table)

/-- A pair of rows as it is printed. -/
def printed (p : Row × Row) : List ByteString := (p.1 ++ p.2).map Value.toString

/-- The columns that a join selects, with their names. -/
def joinColumnsOf (names : List ByteString) : Option (List ByteString) →
    Except ByteString (List ℕ)
  | none => .ok (List.range names.length)
  | some refs => refs.mapM (resolve names)

/-- The columns of a join: those of its `ON`, and those it selects. -/
structure JoinColumns where
  left : ℕ
  right : ℕ
  selected : List ℕ

/-- The columns that a join names, in tables with these columns. -/
def joinColumns (q : SelectStmt) (j : JoinPart) (l r : Schema) : Except ByteString JoinColumns := do
  let li ← onColumn l q.table (onNames j).1
  let ri ← onColumn r j.right (onNames j).2
  let idx ← joinColumnsOf (joinedCols q.table j.right l r) q.items
  return ⟨li, ri, idx⟩

/-- **The test of a join** on a pair of rows: the values of the `ON` print
alike, and the predicate holds. -/
def joinHolds (names : List ByteString) (c : JoinColumns) (wh : Option Predicate) (p : Row × Row) :
    Bool :=
  (p.1.getD c.left default).toString = (p.2.getD c.right default).toString
    && joinTest names wh (printed p)

/-- **A join**: a query of the pairs of rows, by the left and then the right
row. -/
def joinQuery (q : SelectStmt) (j : JoinPart) (d : Database) : Except ByteString SelectResult := do
  let n ← cap q.limit
  let l ← tableOf d q.table
  let r ← tableOf d j.right
  let c ← joinColumns q j l.schema r.schema
  let names := joinedCols q.table j.right l.schema r.schema
  return listing (c.selected.map (fun i => names.getD i [])) n (joinHolds names c q.wh)
    (fun p => c.selected.map (fun i => (printed p).getD i [])) (l.list ×ˢ r.list)

/-- **The meaning of a query.** -/
def query (q : SelectStmt) (d : Database) : Except ByteString SelectResult :=
  match q.join with
  | none => scanQuery q d
  | some j => joinQuery q j d

/-! ## Statements -/

/-- A new table, if its metadata fits a page. -/
def create (table : ByteString) (cols : List Column) (d : Database) : Except EngineFault Database :=
  match d table with
  | some _ => .ok d
  | none =>
    if Schema.Fits ⟨table, cols⟩ then .ok (Function.update d table (some ⟨⟨table, cols⟩, .empty⟩))
    else .error (.pages .outOfBounds)

/-- The row of an insertion gets the next rowid. -/
def insert (st : InsertStmt) (d : Database) : Except ByteString (ℕ × Database) := do
  let t ← tableOf d st.table
  let row ← (insertedRow t.schema st.cols st.vals).mapError what
  return (t.rows.next, Function.update d st.table
    (some { t with rows := t.rows.insert (t.schema.columnValues row) }))

/-- The rows that pass the test are deleted, the others keep their rowids. -/
def delete (table : ByteString) (wh : Option Predicate) (d : Database) :
    Except ByteString (ℕ × Database) := do
  let t ← tableOf d table
  let holds ← testOf t wh
  let rest : RowMap := ⟨t.rows.next, fun k => (t.rows.rows k).filter (fun row => !holds row)⟩
  return (t.list.countP holds, Function.update d table (some { t with rows := rest }))

/-- The answer of a statement that may fail, which then leaves the database as
it was. -/
def orError {α : Type} (r : Except ByteString α) (d : Database) (text : α → ByteString)
    (next : α → Database) : ByteString × Database :=
  match r with
  | .ok a => (text a, next a)
  | .error message => (ascii "Error: " ++ message, d)

/-- **The meaning of a statement**: its answer, and the database it leaves. A
table that does not fit its page is undefined behaviour. -/
def meaning : Stmt → Database → Except EngineFault (ByteString × Database)
  | .create table decls, d => do
    let d' ← create table (decls.map ColumnDecl.column) d
    return (created table (decls.map ColumnDecl.column), d')
  | .insert st, d => .ok (orError (insert st d) d
      (fun r => ascii "Inserted 1 row (rowid=" ++ CppString.digitsOf r.1 ++ ascii ").") Prod.snd)
  | .delete table wh, d => .ok (orError (delete table wh d) d
      (fun r => ascii "Deleted " ++ CppString.digitsOf r.1 ++ ascii " row(s).") Prod.snd)
  | .select q, d => .ok (orError (query q d) d prettyPrint (fun _ => d))

end Semantics
