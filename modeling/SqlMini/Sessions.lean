import SqlMini.Adequacy

/-!
# The program is a database

What the engine does over its pools, on a file system where the names of the
tables have files of their own, and in as many sessions as one likes. The pools
do not show (`answers_eq_pooled`), statements have the answers they have on a
database of maps (`answers_eq_database`), whether or not the engine is destroyed
and built again between them (`sessions_eq_database`), and documented statements
the answers that they mean (`sessions_eq_meanings`).
-/

open SqlEngine Routine FileSystem

section Texts

/-- A table with one column. -/
def createText : ByteString := ascii "CREATE TABLE t (a INT)"

/-- A row for the table of `createText`. -/
def insertText : ByteString := ascii "INSERT INTO t VALUES (7)"

/-- A query of it. -/
def selectText : ByteString := ascii "SELECT a FROM t WHERE a > 3 LIMIT 2"

/-- The statements that they write. -/
def createStmt : Stmt := .create (ascii "t") [.int (ascii "a")]

def insertStmt : Stmt := .insert ⟨ascii "t", [], [ascii "7"]⟩

def selectStmt : Stmt := .select ⟨some [ascii "a"], ascii "t", none,
  some ⟨ascii "a", ascii ">", ascii "3"⟩, some (ascii "2")⟩

theorem writes_createText : Writes createStmt createText where
  keyword := by decide +kernel
  tokens := by
    have htoks : tokenize (statement createText) = named (ascii "a") := by decide +kernel
    rw [htoks]
    exact .create (declares_named (show closes (ascii "a") = false by decide))

theorem writes_insertText : Writes insertStmt insertText where
  keyword := by decide +kernel
  tokens := by
    have htoks : tokenize (statement insertText) = [ascii "INSERT", ascii "INTO", ascii "t",
      ascii "VALUES", ascii "(", ascii "7", ascii ")"] := by decide +kernel
    have hinsert : Keyword "INSERT" (ascii "INSERT") := rfl
    have hinto : Keyword "INTO" (ascii "INTO") := rfl
    have hvalues : Keyword "VALUES" (ascii "VALUES") := rfl
    rw [htoks]
    exact .insert (@InsertTokens.mk ⟨ascii "t", [], [ascii "7"]⟩ _ _ _ [] hinsert hinto .absent
      hvalues (List.cons_ne_nil _ _))

theorem writes_selectText : Writes selectStmt selectText where
  keyword := by decide +kernel
  tokens := by
    have htoks : tokenize (statement selectText) = [ascii "SELECT", ascii "a", ascii "FROM",
      ascii "t", ascii "WHERE", ascii "a", ascii ">", ascii "3", ascii "LIMIT", ascii "2"] := by
      decide +kernel
    have hselect : Keyword "SELECT" (ascii "SELECT") := rfl
    have hitems : ItemTokens (some [ascii "a"]) [ascii "a"] := .refs _ [] (by decide) (by decide)
    have hfrom : Keyword "FROM" (ascii "FROM") := rfl
    have hwhere : WhereTokens (some ⟨ascii "a", ascii ">", ascii "3"⟩)
        [ascii "WHERE", ascii "a", ascii ">", ascii "3"] :=
      .clause (show Keyword "WHERE" (ascii "WHERE") from rfl) _
    have hlimit : LimitTokens (some (ascii "2")) [ascii "LIMIT", ascii "2"] :=
      .clause (show Keyword "LIMIT" (ascii "LIMIT") from rfl) _
    rw [htoks]
    exact .select (@SelectTokens.mk ⟨_, ascii "t", none, _, _⟩ _ _ _ [] _ _ hselect hitems hfrom
      .absent hwhere hlimit) (by decide)

/-- A table of texts. -/
def notesText : ByteString := ascii "CREATE TABLE notes (body TEXT)"

/-- A row that fills more than half of a page. -/
def longText (c : UInt8) : ByteString :=
  ascii "INSERT INTO notes VALUES ('" ++ (List.replicate 2100 c ++ ascii "')")

/-- Another text of the same statement. -/
theorem SqlEngine.Writes.congr {st : Stmt} {sql sql' : ByteString} (h : Writes st sql)
    (hsame : Storage.SameStatement sql' sql) : Writes st sql' where
  keyword := hsame.2.1.trans h.keyword
  tokens := hsame.2.2.symm ▸ h.tokens

end Texts

section Engines

variable {fs : FileSystem} {S : ByteString → Prop} {frames : ℕ} {sqls : List ByteString}

/-- **The pools do not show**: an engine just built over pools of any size from
three pages on, on any files, answers like the engine over the arrays of pages,
if the names of the tables have files of their own. -/
theorem answers_eq_pooled (hframes : 3 ≤ frames) (hsep : fs.Separates S)
    (hconcerns : ∀ sql ∈ sqls, Concerns S sql) (files : ByteString → PageFile) :
    (runAll (PooledEngine.storageWith fs frames).exec sqls ⟨[], files⟩).1
        = (SqlEngine.execAll sqls ⟨fun _ => none, fs.view S files⟩).1
      ∧ EndAlike (Mirrors fs S frames (fun _ => none))
        (SqlEngine.execAll sqls ⟨fun _ => none, fs.view S files⟩).2
        (runAll (PooledEngine.storageWith fs frames).exec sqls ⟨[], files⟩).2 :=
  execAll_eq_pooled hframes hsep hconcerns (mirrors_new fs S frames files)

/-- Two long rows need four pages, of which a pool of three drops one. -/
theorem answers_eq_pooled_notes :
    (runAll (PooledEngine.storageWith oneDirectory 3).exec
        [notesText, longText 120, longText 121, ascii "SELECT * FROM notes LIMIT 2"]
        ⟨[], fun _ => .empty⟩).1
      = (SqlEngine.execAll
          [notesText, longText 120, longText 121, ascii "SELECT * FROM notes LIMIT 2"]
          ⟨fun _ => none, oneDirectory.view (· = ascii "notes") (fun _ => .empty)⟩).1 :=
  (answers_eq_pooled le_rfl (separates_oneDirectory.mono (by rintro _ rfl; decide))
    (by decide +kernel) (fun _ => .empty)).1

/-- **The engine is a database of maps**: an engine built in an empty directory
gives to any statements the answers they have on maps, and stops where these
stop, if the names of the tables have files of their own and no answer says that
there was no room. -/
theorem answers_eq_database {sqls : List ByteString} (hsep : fs.Separates S)
    (hconcerns : ∀ sql ∈ sqls, Concerns S sql) (hlen : ∀ sql ∈ sqls, sql.length ≤ 60000)
    (hfew : sqls.length < 4294967295)
    (hroom : ∀ answer ∈ (runAll (PooledEngine.storage fs).exec sqls ⟨[], fun _ => .empty⟩).1,
      ¬ OutOfRoom answer) :
    (Database.execAll sqls .empty).1
        = (runAll (PooledEngine.storage fs).exec sqls ⟨[], fun _ => .empty⟩).1
      ∧ EndAlike (fun p d => ∃ e, Mirrors fs S PooledEngine.maxPages (fun _ => none) e p
          ∧ e.Represents 0 (fun _ => none) d)
        (runAll (PooledEngine.storage fs).exec sqls ⟨[], fun _ => .empty⟩).2
        (Database.execAll sqls .empty).2 :=
  exec_on_files hsep (represents_view_empty (by rwa [Nat.zero_add])) hconcerns hlen hroom

/-- A row is inserted, found and deleted. -/
theorem answers_eq_database_row : (Database.execAll
      [createText, insertText, selectText, ascii "DELETE FROM t WHERE a = 7", selectText] .empty).1
    = (runAll (PooledEngine.storage oneDirectory).exec
        [createText, insertText, selectText, ascii "DELETE FROM t WHERE a = 7", selectText]
        ⟨[], fun _ => .empty⟩).1 :=
  (answers_eq_database separates_oneDirectory (by decide +kernel) (by decide +kernel) (by decide)
    (by decide +kernel)).1

end Engines

/-! ## Sessions -/

section Sessions

open Semantics

variable {fs : FileSystem} {S : ByteString → Prop} {stmtss : List (List Stmt)}
  {sqlss : List (List ByteString)}

/-- The tables of statements that are written survive each session. -/
theorem storable_of_writes (hwrites : List.Forall₂ (List.Forall₂ Writes) stmtss sqlss)
    (hstorable : ∀ st ∈ stmtss.flatten, st.Storable) (k : ℕ) (d : Database)
    (hd : (Database.execAll (sqlss.take k).flatten .empty).2 = .ok d) : d.Storable := by
  rw [execAll_eq_meanings proper_empty (List.rel_flatten (List.forall₂_take k hwrites))] at hd
  refine storable_runAll (fun _ _ hname => by cases hname) (fun st hst => ?_) hd
  obtain ⟨stmts, hstmts, hmem⟩ := List.mem_flatten.mp hst
  exact hstorable st (List.mem_flatten.mpr ⟨stmts, List.mem_of_mem_take hstmts, hmem⟩)

/-- A row is inserted in one session, and looked for in the next. -/
def foundStmts : List (List Stmt) := [[createStmt, insertStmt], [selectStmt]]

/-- Their texts. -/
def foundTexts : List (List ByteString) := [[createText, insertText], [selectText]]

theorem writes_foundTexts : List.Forall₂ (List.Forall₂ Writes) foundStmts foundTexts :=
  .cons (.cons writes_createText (.cons writes_insertText .nil))
    (.cons (.cons writes_selectText .nil) .nil)

theorem storable_foundStmts : ∀ st ∈ foundStmts.flatten, st.Storable := by decide

/-- **The program is a database of maps**: statements given to one engine after
another, over pools and in a directory that was empty at first, have the answers
they have on maps, if the names of the tables have files of their own, the
tables survive each destructor, and no answer says that there was no room. -/
theorem sessions_eq_database {sqlss : List (List ByteString)} (hsep : fs.Separates S)
    (hconcerns : ∀ sql ∈ sqlss.flatten, Concerns S sql)
    (hlen : ∀ sql ∈ sqlss.flatten, sql.length ≤ 60000) (hfew : sqlss.flatten.length < 4294967295)
    (hstorable : ∀ k d, (Database.execAll (sqlss.take k).flatten .empty).2 = .ok d → d.Storable)
    (hroom : ∀ answer ∈ (PooledEngine.sessions fs sqlss (fun _ => .empty)).1,
      ¬ OutOfRoom answer) :
    (Database.execAll sqlss.flatten .empty).1
        = (PooledEngine.sessions fs sqlss (fun _ => .empty)).1
      ∧ EndAlike (fun files => Stores (fs.view S files))
        (PooledEngine.sessions fs sqlss (fun _ => .empty)).2
        (Database.execAll sqlss.flatten .empty).2 :=
  sessions_on_files (n := 0) hsep sqlss _ _ (represents_view_empty (by rwa [Nat.zero_add]))
    stores_view_empty hconcerns hlen hstorable hroom

/-- The row is found. -/
theorem sessions_eq_database_found :
    (Database.execAll foundTexts.flatten .empty).1
        = (PooledEngine.sessions oneDirectory foundTexts (fun _ => .empty)).1
      ∧ EndAlike (fun files =>
          Stores (oneDirectory.view (fun name => name.contains 47 = false) files))
        (PooledEngine.sessions oneDirectory foundTexts (fun _ => .empty)).2
        (Database.execAll foundTexts.flatten .empty).2 :=
  sessions_eq_database separates_oneDirectory (by decide +kernel) (by decide +kernel) (by decide)
    (storable_of_writes writes_foundTexts storable_foundStmts) (by decide +kernel)

end Sessions
