import SqlMini.LooseGrammar
import SqlMini.TableMeta
import SqlMini.EngineTables

/-!
# What `CREATE TABLE` creates

A declaration gives each column a name, a type and, for a text, possibly a
length. `exec_create` turns it into a column, the length cut to 16 bits, and
asks `open_table` for a table of these columns. That looks at them only
where the name is new. A table that is open, or whose file has pages, stays
what it is, and the message counts the columns declared all the same.

So the table has the columns declared exactly where it had them before, or
where it is new and every length is a `uint16_t` (`SqlEngine.creates_iff`).
-/

/-- **A column as it is declared.** -/
inductive ColumnDecl where
  /-- `INT`. -/
  | int (name : ByteString)
  /-- `TEXT`, with the length in brackets, if there is one. -/
  | text (name : ByteString) (length : Option CInt)
  deriving DecidableEq

namespace ColumnDecl

/-- The column `exec_create` makes of a declaration. -/
def column : ColumnDecl → Column
  | int name => ⟨name, .int, 4⟩
  | text name none => ⟨name, .text, 255⟩
  | text name (some n) => ⟨name, .text, UInt16.ofNat n.toUInt⟩

/-- **A column is as declared**: it has the name, the type and the length, if
one was given. -/
def Meets : ColumnDecl → Column → Prop
  | int name, c => c.name = name ∧ c.type = .int
  | text name length, c => c.name = name ∧ c.type = .text
    ∧ ∀ n ∈ length, (c.maxLen.toNat : ℤ) = n.val

/-- The length declared, if there is one, is a `uint16_t`. -/
def LengthFits : ColumnDecl → Prop
  | int _ => True
  | text _ length => ∀ n ∈ length, 0 ≤ n.val ∧ n.val ≤ 65535

/-- A length is kept exactly if it is a `uint16_t`. -/
theorem toNat_ofNat_toUInt {n : CInt} :
    ((UInt16.ofNat n.toUInt).toNat : ℤ) = n.val ↔ 0 ≤ n.val ∧ n.val ≤ 65535 := by
  have hn := n.property
  rw [UInt16.toNat_ofNat', CInt.toUInt]
  omega

theorem meets_column (d : ColumnDecl) : d.Meets d.column ↔ d.LengthFits := by
  cases d with
  | int name => exact iff_of_true ⟨rfl, rfl⟩ trivial
  | text name length =>
    cases length with
    | none => simp [Meets, column, LengthFits]
    | some n => simp only [Meets, column, LengthFits, Option.mem_some_iff, forall_eq',
        toNat_ofNat_toUInt, true_and]

/-- The columns made of a declaration are as declared exactly if the lengths
fit. -/
theorem forall₂_meets_column (decls : List ColumnDecl) :
    List.Forall₂ Meets decls (decls.map column) ↔ ∀ d ∈ decls, d.LengthFits := by
  rw [List.forall₂_map_right_iff, List.forall₂_same]
  exact forall₂_congr (fun d _ => meets_column d)

end ColumnDecl

namespace SqlEngine

open Routine PageProg Table

variable {ts rest rest' toks : List ByteString} {e e' : Engine} {table : ByteString}

/-! ## Declarations -/

/-- The length of a declaration, behind a text type. -/
inductive DeclaredLength : Option CInt → (ts rest : List ByteString) → Prop
  | absent {ts : List ByteString} (h : ∀ t ∈ ts.head?, t ≠ ascii "(") : DeclaredLength none ts ts
  | number {n : ByteString} {z : CInt} {ts rest : List ByteString} (hclose : closes n = false)
      (hn : CppString.stoi n = .ok z) (hread : ReadIf closes ts rest) :
      DeclaredLength (some z) (ascii "(" :: n :: ts) rest
  | empty {ts rest : List ByteString} (hclose : ∀ t ∈ ts.head?, closes t = true)
      (hread : ReadIf closes ts rest) : DeclaredLength none (ascii "(" :: ts) rest

/-- **The declaration of a column.** -/
inductive DeclaredColumn : ColumnDecl → (ts rest : List ByteString) → Prop
  | int {type : ByteString} (h : Keyword "INT" type ∨ Keyword "INTEGER" type) (name : ByteString)
      (rest : List ByteString) : DeclaredColumn (.int name) (name :: type :: rest) rest
  | text {type : ByteString} {n : Option CInt} {ts rest : List ByteString}
      (h : Keyword "TEXT" type ∨ Keyword "VARCHAR" type) (name : ByteString)
      (hlength : DeclaredLength n ts rest) :
      DeclaredColumn (.text name n) (name :: type :: ts) rest

/-- The declarations of columns, up to a `)` or the end. -/
inductive DeclaredColumns : List ColumnDecl → (ts rest : List ByteString) → Prop
  | done {ts : List ByteString} (h : ∀ t ∈ ts.head?, closes t = true) : DeclaredColumns [] ts ts
  | column {d : ColumnDecl} {decls : List ColumnDecl} {ts ts₁ ts₂ rest : List ByteString}
      (hopen : ∃ t ∈ ts.head?, closes t = false) (hcol : DeclaredColumn d ts ts₁)
      (hcomma : ReadIf (· = ascii ",") ts₁ ts₂) (hcols : DeclaredColumns decls ts₂ rest) :
      DeclaredColumns (d :: decls) ts rest

/-- **A `CREATE TABLE` statement** and what it declares. -/
inductive Declares : (table : ByteString) → List ColumnDecl → (toks rest : List ByteString) → Prop
  | mk {create kw paren : ByteString} {decls : List ColumnDecl} {ts rest : List ByteString}
      (hcreate : Keyword "CREATE" create) (htable : Keyword "TABLE" kw) (table : ByteString)
      (hparen : Keyword "(" paren) (hcols : DeclaredColumns decls ts rest) :
      Declares table decls (create :: kw :: table :: paren :: ts) rest

/-- A length read is the length declared. -/
theorem readLength_iff {n : UInt16} : ReadLength n ts rest
    ↔ ∃ z, DeclaredLength z ts rest
      ∧ ∀ name, (ColumnDecl.text name z).column = ⟨name, .text, n⟩ := by
  constructor
  · intro h
    cases h with
    | absent h => exact ⟨none, .absent h, fun _ => rfl⟩
    | number hclose hn hread => exact ⟨_, .number hclose hn hread, fun _ => rfl⟩
    | empty hclose hread => exact ⟨none, .empty hclose hread, fun _ => rfl⟩
  · rintro ⟨z, h, hz⟩
    cases h with
    | absent h =>
      obtain rfl : (255 : UInt16) = n := (Column.mk.inj (hz [])).2.2
      exact .absent h
    | number hclose hn hread =>
      obtain rfl : UInt16.ofNat _ = n := (Column.mk.inj (hz [])).2.2
      exact .number hclose hn hread
    | empty hclose hread =>
      obtain rfl : (255 : UInt16) = n := (Column.mk.inj (hz [])).2.2
      exact .empty hclose hread

theorem readColumn_iff {c : Column} : ReadColumn c ts rest
    ↔ ∃ d, DeclaredColumn d ts rest ∧ d.column = c := by
  constructor
  · intro h
    cases h with
    | int h name rest => exact ⟨.int name, .int h name rest, rfl⟩
    | text h name hlength =>
      obtain ⟨z, hz, hcol⟩ := readLength_iff.mp hlength
      exact ⟨.text name z, .text h name hz, hcol name⟩
  · rintro ⟨d, h, rfl⟩
    cases h with
    | int h name rest => exact .int h name rest
    | text h name hlength =>
      cases hlength with
      | absent hno => exact .text h name (.absent hno)
      | number hclose hn hread => exact .text h name (.number hclose hn hread)
      | empty hclose hread => exact .text h name (.empty hclose hread)

theorem readColumns_iff {cols : List Column} : ReadColumns cols ts rest
    ↔ ∃ decls, DeclaredColumns decls ts rest ∧ decls.map ColumnDecl.column = cols := by
  constructor
  · intro h
    induction h with
    | done h => exact ⟨[], .done h, rfl⟩
    | column hopen hcol hcomma _ ih =>
      obtain ⟨d, hd, rfl⟩ := readColumn_iff.mp hcol
      obtain ⟨decls, hdecls, rfl⟩ := ih
      exact ⟨d :: decls, .column hopen hd hcomma hdecls, rfl⟩
  · rintro ⟨decls, h, rfl⟩
    induction h with
    | done h => exact .done h
    | column hopen hcol hcomma _ ih =>
      exact .column hopen (readColumn_iff.mpr ⟨_, hcol, rfl⟩) hcomma ih

/-- **What is read is what is declared**, with the columns made of it. -/
theorem readCreate_iff {cols : List Column} : ReadCreate table cols toks rest
    ↔ ∃ decls, Declares table decls toks rest ∧ decls.map ColumnDecl.column = cols := by
  constructor
  · intro h
    cases h with
    | mk hcreate htable table hparen hcols =>
      obtain ⟨decls, hdecls, hmap⟩ := readColumns_iff.mp hcols
      exact ⟨decls, .mk hcreate htable table hparen hdecls, hmap⟩
  · rintro ⟨decls, h, hmap⟩
    cases h with
    | mk hcreate htable table hparen hcols =>
      exact .mk hcreate htable table hparen (readColumns_iff.mpr ⟨decls, hcols, hmap⟩)

/-! ### One reading -/

theorem ReadIf.unique {p : ByteString → Bool} (h : ReadIf p ts rest) (h' : ReadIf p ts rest') :
    rest = rest' := by
  cases h with
  | read h =>
    cases h' with
    | read h' => rfl
    | absent h' => exact absurd (h.symm.trans (h' _ rfl)) Bool.noConfusion
  | absent h =>
    cases h' with
    | read h' => exact absurd (h'.symm.trans (h _ rfl)) Bool.noConfusion
    | absent h' => rfl

theorem DeclaredLength.unique {n n' : Option CInt} (h : DeclaredLength n ts rest)
    (h' : DeclaredLength n' ts rest') : n = n' ∧ rest = rest' := by
  cases h with
  | absent h =>
    cases h' with
    | absent h' => exact ⟨rfl, rfl⟩
    | number => exact absurd rfl (h _ rfl)
    | empty => exact absurd rfl (h _ rfl)
  | number hclose hn hread =>
    cases h' with
    | absent h' => exact absurd rfl (h' _ rfl)
    | number hclose' hn' hread' =>
      exact ⟨congrArg some (Except.ok.inj (hn.symm.trans hn')), hread.unique hread'⟩
    | empty hclose' => exact absurd (hclose.symm.trans (hclose' _ rfl)) Bool.noConfusion
  | empty hclose hread =>
    cases h' with
    | absent h' => exact absurd rfl (h' _ rfl)
    | number hclose' => exact absurd (hclose'.symm.trans (hclose _ rfl)) Bool.noConfusion
    | empty hclose' hread' => exact ⟨rfl, hread.unique hread'⟩

/-- The keywords of the two types differ. -/
theorem not_keyword_int_text {t : ByteString} (h : Keyword "INT" t ∨ Keyword "INTEGER" t)
    (h' : Keyword "TEXT" t ∨ Keyword "VARCHAR" t) : False := by
  unfold Keyword at h h'
  rcases h with h | h <;> rcases h' with h' | h' <;> exact absurd (h.symm.trans h') (by decide)

theorem DeclaredColumn.unique {d d' : ColumnDecl} (h : DeclaredColumn d ts rest)
    (h' : DeclaredColumn d' ts rest') : d = d' ∧ rest = rest' := by
  cases h with
  | int h name =>
    cases h' with
    | int h' => exact ⟨rfl, rfl⟩
    | text h' => exact (not_keyword_int_text h h').elim
  | text h name hlength =>
    cases h' with
    | int h' => exact (not_keyword_int_text h' h).elim
    | text h' name hlength' =>
      obtain ⟨rfl, rfl⟩ := hlength.unique hlength'
      exact ⟨rfl, rfl⟩

theorem DeclaredColumns.unique {decls decls' : List ColumnDecl} (h : DeclaredColumns decls ts rest)
    (h' : DeclaredColumns decls' ts rest') : decls = decls' ∧ rest = rest' := by
  induction h generalizing decls' with
  | done h =>
    cases h' with
    | done h' => exact ⟨rfl, rfl⟩
    | column hopen =>
      obtain ⟨t, ht, hclose⟩ := hopen
      exact absurd (hclose.symm.trans (h t ht)) Bool.noConfusion
  | column hopen hcol hcomma _ ih =>
    cases h' with
    | done h' =>
      obtain ⟨t, ht, hclose⟩ := hopen
      exact absurd (hclose.symm.trans (h' t ht)) Bool.noConfusion
    | column hopen' hcol' hcomma' hcols' =>
      obtain ⟨rfl, rfl⟩ := hcol.unique hcol'
      obtain rfl := hcomma.unique hcomma'
      obtain ⟨rfl, rfl⟩ := ih hcols'
      exact ⟨rfl, rfl⟩

/-- **A statement declares one thing.** -/
theorem Declares.unique {table' : ByteString} {decls decls' : List ColumnDecl}
    (h : Declares table decls toks rest) (h' : Declares table' decls' toks rest') :
    table = table' ∧ decls = decls' ∧ rest = rest' := by
  cases h with
  | mk hcreate htable table hparen hcols =>
    cases h' with
    | mk hcreate' htable' table' hparen' hcols' => exact ⟨rfl, hcols.unique hcols'⟩

/-- **`exec_create`** opens the table declared. -/
theorem returns_execCreate_of_declares {decls : List ColumnDecl} {Q : ByteString → ExecState → Prop}
    (h : Declares table decls toks rest) :
    Returns execCreate ⟨toks, e⟩ Q
      ↔ Returns (openTable table (some ⟨table, decls.map ColumnDecl.column⟩)) e
        (fun _ e' => Q (created table (decls.map ColumnDecl.column)) ⟨rest, e'⟩) := by
  rw [returns_execCreate]
  constructor
  · rintro ⟨table', cols, rest', hread, hrun⟩
    obtain ⟨decls', h', rfl⟩ := readCreate_iff.mp hread
    obtain ⟨rfl, rfl, rfl⟩ := h.unique h'
    exact hrun
  · exact fun hrun => ⟨table, _, rest, readCreate_iff.mpr ⟨decls, h, rfl⟩, hrun⟩

/-! ## The table opened -/

/-- The file of a table has pages. -/
def HasPages (e : Engine) (table : ByteString) : Prop :=
  (Pager.open (e.files (table ++ ascii ".db"))).numPages ≠ 0

instance (e : Engine) (table : ByteString) : Decidable (HasPages e table) :=
  inferInstanceAs (Decidable (_ ≠ _))

/-- **The columns a table has before** it is opened: those of the open table,
or those stored in its file. -/
def columnsBefore (e : Engine) (table : ByteString) : Option (List Column) :=
  match e.tables table with
  | some (t, _) => some t.schema.cols
  | none =>
    if HasPages e table then
      match storedSchema ((e.files (table ++ ascii ".db")).content schemaPageId) with
      | .ok schema => some schema.cols
      | .error _ => none
    else none

/-- `Table::Table` over a file without pages keeps the schema it is given. -/
theorem schema_of_construct_new {schema : Schema} {t : Table} {s s' : Store}
    (h : (construct schema true true).run s = .ok (t, s')) : t.schema = schema := by
  rw [run_eq_ok] at h
  unfold construct BTree.construct BTree.modify at h
  simp only [if_true, runs_bind, runs_getPage, runs_load, runs_store, runs_markDirty,
    runs_writeMeta,
    runs_flushAll, runs_pure] at h
  exact congrArg Table.schema h.2.1.symm

/-- `Table::Table` over a file with pages takes the columns stored there. -/
theorem cols_of_construct {schema : Schema} {t : Table} {s s' : Store}
    (h : (construct schema false false).run s = .ok (t, s')) :
    ∃ stored, storedSchema (s.pages schemaPageId) = .ok stored ∧ t.schema.cols = stored.cols := by
  rw [run_eq_ok] at h
  unfold construct BTree.construct readMeta at h
  simp only [if_neg Bool.false_ne_true, runs_bind, runs_getPage, runs_load, runs_lift,
    runs_pure] at h
  obtain ⟨stored, hstored, ht, -⟩ := h
  exact ⟨stored, hstored, by rw [← ht]⟩

theorem file_open (f : PageFile) : (Pager.open f).file = f := rfl

/-- **Opening a table** keeps the columns it had, or gives it those asked
for. -/
theorem cols_of_openTable {cols : List Column}
    (h : openTable table (some ⟨table, cols⟩) e = .ok (.ok (), e')) :
    ∃ t s, e'.tables table = some (t, s) ∧ t.schema.cols = (columnsBefore e table).getD cols := by
  unfold openTable at h
  rw [bind_of_ok (get_apply e)] at h
  rcases hts : e.tables table with - | ⟨t, s⟩
  · rw [hts] at h
    simp only [reduceCtorEq, and_false, if_false] at h
    by_cases hp : HasPages e table
    · simp only [decide_eq_false hp, if_neg Bool.false_ne_true] at h
      rcases hrun : (construct ⟨table, []⟩ false false).run
        (poolOf (e.files (table ++ ascii ".db"))) with f | ⟨t, s⟩
      · rw [file_open, hrun] at h
        cases h
      · rw [file_open, hrun] at h
        obtain ⟨-, rfl⟩ := Prod.mk.inj (Except.ok.inj h)
        obtain ⟨stored, hstored, hcols⟩ := cols_of_construct hrun
        refine ⟨t, s, Function.update_self _ _ _, ?_⟩
        rw [columnsBefore, hts]
        simp only [if_pos hp]
        rw [show storedSchema ((e.files (table ++ ascii ".db")).content schemaPageId)
          = .ok stored from hstored, hcols]
        rfl
    · have hzero : (Pager.open (e.files (table ++ ascii ".db"))).numPages = 0 := not_not.mp hp
      simp only [decide_eq_true hzero, if_true, Option.getD_some] at h
      rcases hrun : (construct ⟨table, cols⟩ true true).run
        (poolOf (e.files (table ++ ascii ".db"))) with f | ⟨t, s⟩
      · rw [file_open, hrun] at h
        cases h
      · rw [file_open, hrun] at h
        obtain ⟨-, rfl⟩ := Prod.mk.inj (Except.ok.inj h)
        refine ⟨t, s, Function.update_self _ _ _, ?_⟩
        rw [columnsBefore, hts, schema_of_construct_new hrun]
        simp only [if_neg hp]
        rfl
  · rw [hts] at h
    obtain ⟨-, rfl⟩ := Prod.mk.inj (Except.ok.inj h)
    refine ⟨t, s, hts, ?_⟩
    rw [columnsBefore, hts]
    rfl

/-! ## What is created -/

/-- **A statement creates what it declares**: the table then has the columns
declared, and the message counts them. -/
def Created (table : ByteString) (decls : List ColumnDecl) (message : ByteString) (e : Engine) :
    Prop :=
  ∃ t s, e.tables table = some (t, s) ∧ List.Forall₂ ColumnDecl.Meets decls t.schema.cols
    ∧ message = created table t.schema.cols

/-- **The table is not in the way**: it is new and the lengths declared fit,
or it had the columns declared before. -/
def Creatable (e : Engine) (table : ByteString) (decls : List ColumnDecl) : Prop :=
  match columnsBefore e table with
  | some cols => List.Forall₂ ColumnDecl.Meets decls cols
  | none => ∀ d ∈ decls, d.LengthFits

/-- **`exec_create` creates what is declared** exactly if nothing is in the
way. -/
theorem creates_iff {decls : List ColumnDecl} {message : ByteString} {st : ExecState}
    (hdecl : Declares table decls toks rest)
    (hrun : execCreate ⟨toks, e⟩ = .ok (.ok message, st)) :
    Created table decls message st.engine ↔ Creatable e table decls := by
  have hret : Returns execCreate ⟨toks, e⟩ (fun m st' => m = message ∧ st' = st) :=
    ⟨message, st, hrun, rfl, rfl⟩
  obtain ⟨_, e', hopen, hmsg, rfl⟩ := (returns_execCreate_of_declares hdecl).mp hret
  obtain ⟨t, s, hts, hcols⟩ := cols_of_openTable hopen
  have hmeets : Created table decls message e'
      ↔ List.Forall₂ ColumnDecl.Meets decls t.schema.cols := by
    constructor
    · rintro ⟨t', s', hts', h, -⟩
      obtain ⟨rfl, -⟩ := Prod.mk.inj (Option.some.inj (hts.symm.trans hts'))
      exact h
    · intro h
      refine ⟨t, s, hts, h, ?_⟩
      rw [← hmsg, created, created, List.length_map, h.length_eq]
  rw [hmeets, hcols, Creatable]
  cases columnsBefore e table with
  | some cols => exact Iff.rfl
  | none => exact ColumnDecl.forall₂_meets_column decls

/-- A new table of one integer. -/
def integers : Table := ⟨⟨ascii "t", [⟨ascii "a", .int, 4⟩]⟩, 1, 512⟩

/-- The engine that created it. -/
def integersOnly : Engine := Engine.single (ascii "t") integers (metaStore integers newHeap)

/-- The declaration of one column of a given type name. -/
theorem declares_column {name type : ByteString} {d : ColumnDecl}
    (hname : closes name = false) (h : DeclaredColumn d [name, type, ascii ")"] [ascii ")"]) :
    Declares (ascii "t") [d] [ascii "CREATE", ascii "TABLE", ascii "t", ascii "(", name, type,
      ascii ")"] [ascii ")"] :=
  .mk (by decide) (by decide) _ (by decide) (.column ⟨name, rfl, hname⟩ h
    (.absent (fun t ht => by rw [← Option.some.inj ht]; decide))
    (.done (fun t ht => by rw [← Option.some.inj ht]; decide)))

/-- The table created once more, as it is. -/
theorem creates_integers :
    Created (ascii "t") [.int (ascii "a")] (created (ascii "t") integers.schema.cols) integersOnly
      ↔ Creatable integersOnly (ascii "t") [.int (ascii "a")] :=
  have hint : Keyword "INT" (ascii "INT") := by decide
  creates_iff (declares_column (by decide) (.int (.inl hint) _ _)) (show
    execCreate ⟨[ascii "CREATE", ascii "TABLE", ascii "t", ascii "(", ascii "a", ascii "INT",
      ascii ")"], integersOnly⟩ = .ok (.ok _, ⟨[ascii ")"], integersOnly⟩) from rfl)

/-- **A table that exists is not created**: the statement reports a text, and
the table keeps its integer. -/
theorem not_created : ∃ message st,
    execCreate ⟨[ascii "CREATE", ascii "TABLE", ascii "t", ascii "(", ascii "b", ascii "TEXT",
        ascii ")"], integersOnly⟩ = .ok (.ok message, st)
      ∧ Declares (ascii "t") [.text (ascii "b") none] [ascii "CREATE", ascii "TABLE", ascii "t",
        ascii "(", ascii "b", ascii "TEXT", ascii ")"] [ascii ")"]
      ∧ ¬ Created (ascii "t") [.text (ascii "b") none] message st.engine := by
  refine ⟨_, ⟨_, integersOnly⟩, rfl, declares_column (by decide) (.text (.inl (by decide)) _
    (.absent (fun t ht => by rw [← Option.some.inj ht]; decide))), ?_⟩
  rintro ⟨t, s, hts, h, -⟩
  obtain ⟨rfl, -⟩ := Prod.mk.inj (Option.some.inj (single_tables_self.symm.trans hts))
  exact absurd (List.forall₂_cons.mp h).1.1 (by decide)

/-! ## What is stored -/

/-- A file without pages is an array of zero pages. -/
theorem poolOf_of_size {f : PageFile} (h : f.size = 0) : poolOf f = .empty := by
  have hzero : f.content = fun _ => Buffer.zero pageSize :=
    funext (fun p => f.zero_past_end p (h ▸ Nat.zero_le p))
  rw [poolOf, h, hzero]
  rfl

/-- A file of size `0` has no pages. -/
theorem numPages_open {f : PageFile} (h : f.size = 0) : (Pager.open f).numPages = 0 := by
  show f.size % uint32Size = 0
  rw [h]
  rfl

/-- **A new table is opened** if its schema fits the metadata page. -/
theorem returns_openTable_new {schema : Schema} {Q : Unit → Engine → Prop}
    (hnew : e.tables table = none) (hfile : (e.files (table ++ ascii ".db")).size = 0) :
    Returns (openTable table (some schema)) e Q ↔ schema.Fits
      ∧ Q () (e.put table ⟨schema, 1, 512⟩ (metaStore ⟨schema, 1, 512⟩ newHeap)) := by
  have hzero := decide_eq_true (numPages_open hfile)
  rcases hrun : (construct schema true true).run .empty with f | ⟨t, s⟩
  · have hopen : openTable table (some schema) e = .error (.pages f) := by
      unfold openTable
      rw [bind_of_ok (get_apply e), hnew]
      simp only [reduceCtorEq, and_false, if_false, hzero, if_true, Option.getD_some, file_open,
        poolOf_of_size hfile, hrun]
      rfl
    refine iff_of_false (not_returns_of_stop hopen) (fun h => ?_)
    rw [construct_eq_ok.mpr ⟨h.1, rfl, rfl⟩] at hrun
    cases hrun
  · have hopen : openTable table (some schema) e = .ok (.ok (), e.put table t s) := by
      unfold openTable
      rw [bind_of_ok (get_apply e), hnew]
      simp only [reduceCtorEq, and_false, if_false, hzero, if_true, Option.getD_some, file_open,
        poolOf_of_size hfile, hrun]
      rfl
    obtain ⟨hfit, rfl, rfl⟩ := construct_eq_ok.mp hrun
    rw [returns_of_ok hopen, and_iff_right hfit]

/-- **The columns of a table survive**: `read_meta` takes them from its
metadata page. -/
def Survives (table : ByteString) (e : Engine) : Prop :=
  ∃ t s, e.tables table = some (t, s)
    ∧ Runs readMeta s (fun stored _ => stored.schema.cols = t.schema.cols)

/-- The columns of a new table survive exactly if their counts are bytes. -/
theorem survives_new {schema : Schema} (hfit : schema.Fits) :
    Survives table (e.put table ⟨schema, 1, 512⟩ (metaStore ⟨schema, 1, 512⟩ newHeap))
      ↔ ByteCounts schema.cols := by
  have hpage : (metaStore ⟨schema, 1, 512⟩ newHeap).pages schemaPageId
      = metaPage ⟨schema, 1, 512⟩ (newHeap.pages schemaPageId) := by
    rw [metaStore, Store.pages_mark, Store.pages_put, Function.update_self]
  constructor
  · rintro ⟨t, s, hts, hread⟩
    obtain ⟨rfl, rfl⟩ := Prod.mk.inj (Option.some.inj (put_tables_self.symm.trans hts))
    obtain ⟨stored, hstored, hcols⟩ := runs_readMeta.mp hread
    rw [← show stored.cols = schema.cols from hcols]
    exact byteCounts_of_storedSchema hstored
  · intro hcounts
    refine ⟨_, _, put_tables_self, runs_readMeta.mpr ⟨⟨[], schema.cols⟩, ?_, rfl⟩⟩
    rw [hpage]
    exact storedSchema_metaPage (t := ⟨schema, 1, 512⟩) hfit hcounts

/-- **`CREATE TABLE` makes a schema that survives** exactly if its counts are
bytes and its encoding fits the page. -/
theorem survives_iff {decls : List ColumnDecl} (hdecl : Declares table decls toks rest)
    (hnew : e.tables table = none) (hfile : (e.files (table ++ ascii ".db")).size = 0) :
    Returns execCreate ⟨toks, e⟩ (fun _ st => Survives table st.engine)
      ↔ ByteCounts (decls.map ColumnDecl.column)
        ∧ (Schema.serialize ⟨table, decls.map ColumnDecl.column⟩).length ≤ 4084 := by
  rw [returns_execCreate_of_declares hdecl, returns_openTable_new hnew hfile]
  constructor
  · rintro ⟨hfit, hsurvives⟩
    have hcounts := (survives_new hfit).mp hsurvives
    exact ⟨hcounts, hcounts.fits_iff.mp hfit⟩
  · rintro ⟨hcounts, hlen⟩
    have hfit := hcounts.fits_iff.mpr hlen
    exact ⟨hfit, (survives_new hfit).mpr hcounts⟩

/-- A new table of one column with a given name. -/
def named (name : ByteString) : List ByteString :=
  [ascii "CREATE", ascii "TABLE", ascii "t", ascii "(", name, ascii "INT", ascii ")"]

theorem declares_named {name : ByteString} (h : closes name = false) :
    Declares (ascii "t") [.int name] (named name) [ascii ")"] :=
  declares_column h (.int (.inl (by decide)) _ _)

/-- The engine before any statement. -/
def noTables : Engine := ⟨fun _ => none, fun _ => PageFile.empty⟩

/-- A name of one byte survives. -/
theorem survives_short :
    Returns execCreate ⟨named (ascii "a"), noTables⟩ (fun _ st => Survives (ascii "t") st.engine)
      ↔ ByteCounts ([.int (ascii "a")].map ColumnDecl.column)
        ∧ (Schema.serialize ⟨ascii "t", [.int (ascii "a")].map ColumnDecl.column⟩).length ≤ 4084 :=
  survives_iff (declares_named (by decide)) rfl rfl

/-- **A name of 256 bytes is lost**: the statement succeeds, and what is read
back is another table. -/
theorem not_survives :
    Returns execCreate ⟨named (List.replicate 256 97), noTables⟩ (fun _ _ => True)
      ∧ ¬ Returns execCreate ⟨named (List.replicate 256 97), noTables⟩
        (fun _ st => Survives (ascii "t") st.engine) := by
  have hclose : closes (List.replicate 256 97) = false := by
    refine decide_eq_false (fun h => ?_)
    have hlen := congrArg List.length h
    rw [List.length_replicate] at hlen
    exact absurd hlen (by decide)
  have hdecl := declares_named hclose
  have hfit : Schema.Fits ⟨ascii "t", [⟨List.replicate 256 97, .int, 4⟩]⟩ := by
    rw [Schema.Fits, Schema.length_serialize, List.map_singleton, List.sum_singleton,
      List.length_replicate]
    decide
  refine ⟨(returns_execCreate_of_declares hdecl).mpr
    ((returns_openTable_new rfl rfl).mpr ⟨hfit, trivial⟩), fun h => ?_⟩
  have hsurvives := ((returns_openTable_new rfl rfl).mp
    ((returns_execCreate_of_declares hdecl).mp h)).2
  have hname := ((survives_new hfit).mp hsurvives).2 _ List.mem_cons_self
  rw [List.length_replicate] at hname
  exact absurd hname (by decide)

end SqlEngine
