import SqlMini.TableReach
import SqlMini.EngineTables
import SqlMini.Grammar

/-!
# The two sides of an `ON`

A join compares a column of its left table with a column of its right table,
and the statement may name them in either order. The executor puts them in
order by looking at the first reference: where it is qualified with the right
table the two are swapped. A bare reference is taken for the side it stands on.

So the order does not matter exactly where the reference to the right table is
qualified (`onSymmetric_iff`). A bare reference to it that comes first is looked
for in the left table, and the statement fails.
-/

namespace SqlEngine

open Routine Table

variable {left right onL onR cl cr : ByteString} {ls rs own other : Schema} {e e' : Engine}

/-- **A reference to a column** of a table that stands next to another table:
the name of the table and the column, or the column alone where only this table
has it. -/
inductive Denotes (table : ByteString) (own other : Schema) : (ref col : ByteString) → Prop
  | qualified (col : ByteString) (h : 0 ≤ own.findCol col) :
      Denotes table own other (table ++ dot :: col) col
  | bare (col : ByteString) (hdot : dot ∉ col) (h : 0 ≤ own.findCol col)
      (hother : other.findCol col < 0) : Denotes table own other col col

theorem splitRef_qualified {table : ByteString} (h : dot ∉ table) (col : ByteString) :
    splitRef (table ++ dot :: col) = (table, col) := by
  have hne : ∀ b ∈ table, decide (b ≠ dot) = true := by
    intro b hb
    exact decide_eq_true (fun he => h (he ▸ hb))
  unfold splitRef
  rw [if_pos (by simp), List.takeWhile_append_of_pos hne, List.dropWhile_append_of_pos hne]
  simp

theorem splitRef_bare {col : ByteString} (h : dot ∉ col) : splitRef col = ([], col) := if_neg h

theorem Denotes.findCol_nonneg {table ref col : ByteString} (h : Denotes table own other ref col) :
    0 ≤ own.findCol col := by
  cases h with
  | qualified _ h => exact h
  | bare _ hdot h hother => exact h

/-- The column of a reference is what follows the dot, or all of it. -/
theorem Denotes.splitRef_eq {table ref col : ByteString} (hdot : dot ∉ table)
    (h : Denotes table own other ref col) :
    splitRef ref = (table, col) ∨ splitRef ref = ([], col) ∧ ref = col ∧ other.findCol col < 0 := by
  cases h with
  | qualified _ h => exact Or.inl (splitRef_qualified hdot col)
  | bare _ hdot h hother => exact Or.inr ⟨splitRef_bare hdot, rfl, hother⟩

/-! ## The columns of an `ON` -/

variable {q : JoinStmt}

/-- The left table named first: the columns are as they stand. -/
theorem onColumns_left (hne : left ≠ right) (hdot : dot ∉ left) (hl : Denotes left ls rs onL cl)
    (hr : (splitRef onR).2 = cr) :
    onColumns { q with rightName := right, onLeft := onL, onRight := onR } = (cl, cr) := by
  have hsplit : (splitRef onL).2 = cl ∧ ¬ ((splitRef onL).1 ≠ [] ∧ (splitRef onL).1 = right) := by
    rcases hl.splitRef_eq hdot with h | ⟨h, -, -⟩
    · rw [h]
      exact ⟨rfl, fun hand => hne hand.2⟩
    · rw [h]
      exact ⟨rfl, fun hand => hand.1 rfl⟩
  unfold onColumns
  rw [if_neg hsplit.2, hsplit.1, hr]

/-- **The right table named first**, by its name: the columns are swapped. -/
theorem onColumns_right (hl : (splitRef onL).2 = cl) (hr : splitRef onR = (right, cr))
    (hright : right ≠ []) :
    onColumns { q with rightName := right, onLeft := onR, onRight := onL } = (cl, cr) := by
  unfold onColumns
  simp only [hr, hl, ne_eq, hright, not_false_eq_true, and_self, if_true]

/-- **The right table named first**, by a bare column: it is taken for a column
of the left table. -/
theorem onColumns_bare (hl : (splitRef onL).2 = cl) (hr : splitRef onR = ([], cr)) :
    onColumns { q with rightName := right, onLeft := onR, onRight := onL } = (cr, cl) := by
  unfold onColumns
  simp only [hr, hl, ne_eq, not_true_eq_false, false_and, if_false]

/-! ## The two statements -/

/-- **What a caller sees**: the columns, the rows and the error. -/
def answer (r : Except EngineFault (Except StdException SelectResult × Engine)) :
    Except EngineFault
      (Except StdException (List ByteString × List (List ByteString) × ByteString)) :=
  r.map (fun p => p.1.map (fun res => (res.cols, res.rows, res.error)))

theorem runJoin_congr (h : onColumns { q with onLeft := onL, onRight := onR }
      = onColumns { q with onLeft := onR, onRight := onL }) :
    runJoin { q with onLeft := onL, onRight := onR } ls rs
      = runJoin { q with onLeft := onR, onRight := onL } ls rs := by
  unfold runJoin
  rw [h]
  rfl

theorem joinTables_congr (h : onColumns { q with onLeft := onL, onRight := onR }
      = onColumns { q with onLeft := onR, onRight := onL }) :
    joinTables { q with onLeft := onL, onRight := onR }
      = joinTables { q with onLeft := onR, onRight := onL } := by
  unfold joinTables
  simp only [runJoin_congr h]

/-- **A join whose `ON` columns are there** returns no error about them. -/
theorem answer_runJoin_ne (hl : 0 ≤ ls.findCol (onColumns q).1)
    (hr : 0 ≤ rs.findCol (onColumns q).2)
    {message : ByteString} (hmessage : message.head? = some 79) (e : Engine) :
    answer (runJoin q ls rs e) ≠ .ok (.ok ([], [], message)) := by
  rcases hsel : selectedColumns (joinNames q ls rs) q.selRefs with text | outIdx
  · rw [runJoin_of_unresolved (not_lt.mpr hl) (not_lt.mpr hr) hsel]
    intro h
    have htext : text = message :=
      (Prod.mk.inj (Prod.mk.inj (Except.ok.inj (Except.ok.inj h))).2).2
    rcases selectedColumns_error hsel with hhead | hhead
    · rw [htext, hmessage] at hhead
      cases hhead
    · rw [htext, hmessage] at hhead
      cases hhead
  · rw [runJoin_of_columns (Int.toNat_of_nonneg hl).symm (Int.toNat_of_nonneg hr).symm hsel,
      bind_apply, Routine.bind]
    intro h
    split at h
    · cases h
    · cases h
    · have herr := (Prod.mk.inj (Prod.mk.inj (Except.ok.inj (Except.ok.inj h))).2).2
      rw [← herr] at hmessage
      cases hmessage

/-- **An `ON` is symmetric** where the reference to the right table is
qualified, or the statement is turned down for its limit. For a right table
with a name these are the only cases. -/
theorem onSymmetric_iff {q : SelectStmt} {lt rt : Table} {s s' : Store}
    {toks toks' : List ByteString} (hne : q.table ≠ right) (hleft : dot ∉ q.table)
    (hright : dot ∉ right)
    (hopen : (do openTable q.table none; openTable right none : EngineM Unit) e = .ok (.ok (), e'))
    (hlt : e'.tables q.table = some (lt, s)) (hrt : e'.tables right = some (rt, s'))
    (hl : Denotes q.table lt.schema rt.schema onL cl)
    (hr : Denotes right rt.schema lt.schema onR cr)
    (h : SelectTokens { q with join := some ⟨right, onL, onR⟩ } toks)
    (h' : SelectTokens { q with join := some ⟨right, onR, onL⟩ } toks') :
    ((splitRef onR).1 ≠ [] ∨ (∃ x, limitOf q.limit = .error x) →
      answer (effect execJoin toks e) = answer (effect execJoin toks' e))
    ∧ (right ≠ [] → answer (effect execJoin toks e) = answer (effect execJoin toks' e) →
      (splitRef onR).1 ≠ [] ∨ ∃ x, limitOf q.limit = .error x) := by
  have hl₂ : (splitRef onL).2 = cl := by
    rcases hl.splitRef_eq hleft with hs | ⟨hs, -, -⟩
    · rw [hs]
    · rw [hs]
  have hr₂ : (splitRef onR).2 = cr := by
    rcases hr.splitRef_eq hright with hs | ⟨hs, -, -⟩
    · rw [hs]
    · rw [hs]
  rw [effect_execJoin h rfl, effect_execJoin h' rfl]
  rcases hlimit : limitOf q.limit with x | n
  · have hthrow : ∀ k : ℤ → EngineM SelectResult,
        (ofExcept (.error x : Except StdException ℤ) >>= k) e = .ok (.error x, e) :=
      fun k => bind_of_throw (ofExcept_apply _ _)
    rw [hthrow, hthrow]
    exact ⟨fun _ => rfl, fun _ _ => Or.inr ⟨x, rfl⟩⟩
  -- the two statements, parsed, with their tables still to be opened
  have hgo : ∀ a b, (do
      let limit ← ofExcept (.ok n : Except StdException ℤ)
      joinTables ⟨q.items, q.table, right, a, b, clauseOf q.wh, limit⟩ : EngineM SelectResult) e
      = joinTables ⟨q.items, q.table, right, a, b, clauseOf q.wh, n⟩ e :=
    fun a b => bind_of_ok (ofExcept_apply _ _)
  let q₀ : JoinStmt := ⟨q.items, q.table, right, onL, onR, clauseOf q.wh, n⟩
  have hon := onColumns_left (q := q₀) hne hleft hl hr₂
  refine ⟨?_, ?_⟩
  · rintro (hq | ⟨x, hx⟩)
    · rcases hr.splitRef_eq hright with hs | ⟨hs, -, -⟩
      · rw [hs] at hq
        have hswap := onColumns_right (q := q₀) hl₂ hs hq
        have hsame := joinTables_congr (q := q₀) (hon.trans hswap.symm)
        rw [hgo, hgo]
        exact congrArg answer (congrFun hsame e)
      · rw [hs] at hq
        exact absurd rfl hq
    · cases hx
  · intro hname hsame
    refine Or.inl (fun hbare => ?_)
    rcases hr.splitRef_eq hright with hs | ⟨hs, -, hother⟩
    · rw [hs] at hbare
      exact hname hbare
    · have hswap : onColumns { q₀ with rightName := right, onLeft := onR, onRight := onL }
        = (cr, cl) :=
        onColumns_bare hl₂ hs
      have hrun : ∀ a b, joinTables ⟨q.items, q.table, right, a, b, clauseOf q.wh, n⟩ e
          = runJoin ⟨q.items, q.table, right, a, b, clauseOf q.wh, n⟩ lt.schema rt.schema e' :=
        fun a b => joinTables_of_open hopen hlt hrt
      rw [hgo, hgo, hrun, hrun] at hsame
      have hunknown : lt.schema.findCol (onColumns ⟨q.items, q.table, right, onR, onL,
          clauseOf q.wh, n⟩).1 < 0 := by
        rw [show onColumns ⟨q.items, q.table, right, onR, onL, clauseOf q.wh, n⟩ = (cr, cl)
          from hswap]
        exact hother
      rw [runJoin_of_left_unknown hunknown] at hsame
      refine answer_runJoin_ne ?_ ?_ ?_ e' hsame
      · rw [show onColumns ⟨q.items, q.table, right, onL, onR, clauseOf q.wh, n⟩
          = (cl, cr) from hon]
        exact hl.findCol_nonneg
      · rw [show onColumns ⟨q.items, q.table, right, onL, onR, clauseOf q.wh, n⟩
          = (cl, cr) from hon]
        exact hr.findCol_nonneg
      · rfl

/-! ## Two tables -/

section Pair

/-- Two schemas that share no column. -/
def lefts : Schema := ⟨ascii "a", [⟨ascii "x", .int, 4⟩]⟩

def rights : Schema := ⟨ascii "b", [⟨ascii "y", .int, 4⟩]⟩

/-- Two new tables, open. -/
def emptyPair : Engine :=
  (Engine.single (ascii "a") ⟨lefts, 1, 512⟩ (Table.metaStore ⟨lefts, 1, 512⟩ Table.newHeap)).put
    (ascii "b") ⟨rights, 1, 512⟩ (Table.metaStore ⟨rights, 1, 512⟩ Table.newHeap)

/-- The query of both tables. -/
def pairQuery (onL onR : ByteString) : SelectStmt :=
  ⟨none, ascii "a", some ⟨ascii "b", onL, onR⟩, none, none⟩

theorem pairQuery_tokens (onL onR : ByteString) : SelectTokens (pairQuery onL onR)
    [ascii "SELECT", ascii "*", ascii "FROM", ascii "a", ascii "JOIN", ascii "b", ascii "ON", onL,
      ascii "=", onR] :=
  SelectTokens.mk (q := pairQuery onL onR) (show Keyword "SELECT" (ascii "SELECT") from rfl) .star
    (show Keyword "FROM" (ascii "FROM") from rfl)
    (.join (show Keyword "JOIN" (ascii "JOIN") from rfl) (show Keyword "ON" (ascii "ON") from rfl)
      ⟨ascii "b", onL, onR⟩) .absent .absent

/-- A table with one number in each row, which is given. -/
theorem exists_numbered (schema : Schema) {col : ByteString}
    (hcols : schema.cols = [⟨col, .int, 4⟩])
    (hfit : schema.Fits) (nums : List CInt) (hfew : nums.length ≤ 510) :
    ∃ m t s, Stands (rowsOf schema (nums.map (fun n => [.makeInt n]))) m t s
      ∧ t.schema = schema := by
  have hlen : ∀ n : CInt, (serializeRow schema [.makeInt n]).length = 4 := by
    intro n
    simp [serializeRow, hcols, fieldBytes, Value.makeInt]
  let ok : Row → Prop := fun row => ∃ n : CInt, row = [.makeInt n]
  have hok : ∀ row, ok row → row.length = schema.cols.length
      ∧ (serializeRow schema row).length ≤ 65535 := by
    rintro row ⟨n, rfl⟩
    rw [hcols, hlen]
    exact ⟨rfl, by omega⟩
  obtain ⟨t, s, h, -, hnext⟩ := exists_reached_rows hok hfit (nums.map (fun n => [.makeInt n])) (by
    intro row hrow
    obtain ⟨n, -, rfl⟩ := List.mem_map.mp hrow
    exact ⟨⟨n, rfl⟩, by rw [hlen]; omega⟩) (by rwa [List.length_map])
  rw [List.length_map] at hnext
  obtain ⟨⟨m, hm⟩, hschema, -⟩ := h.stands hok (by omega)
  exact ⟨m, t, s, hm, hschema⟩

/-- The rows 1 and 2 beside the rows 2 and 3, of which one pair prints alike. -/
theorem onSymmetric_iff_pair : ∃ m t s m' t' s',
    Stands (rowsOf lefts [[.makeInt ⟨1, by decide⟩], [.makeInt ⟨2, by decide⟩]]) m t s
    ∧ Stands (rowsOf rights [[.makeInt ⟨2, by decide⟩], [.makeInt ⟨3, by decide⟩]]) m' t' s'
    ∧ answer (effect execJoin [ascii "SELECT", ascii "*", ascii "FROM", ascii "a", ascii "JOIN",
          ascii "b", ascii "ON", ascii "x", ascii "=", ascii "b.y"]
        ((Engine.single (ascii "a") t s).put (ascii "b") t' s'))
      = answer (effect execJoin [ascii "SELECT", ascii "*", ascii "FROM", ascii "a", ascii "JOIN",
          ascii "b", ascii "ON", ascii "b.y", ascii "=", ascii "x"]
        ((Engine.single (ascii "a") t s).put (ascii "b") t' s')) := by
  obtain ⟨m, t, s, h, hschema⟩ := exists_numbered lefts rfl (by decide)
    [⟨1, by decide⟩, ⟨2, by decide⟩] (by decide)
  obtain ⟨m', t', s', h', hschema'⟩ := exists_numbered rights rfl (by decide)
    [⟨2, by decide⟩, ⟨3, by decide⟩] (by decide)
  refine ⟨m, t, s, m', t', s', h, h', ?_⟩
  have hleft : ((Engine.single (ascii "a") t s).put (ascii "b") t' s').tables (ascii "a")
      = some (t, s) := (put_tables_of_ne (by decide)).trans single_tables_self
  have hopen : (do openTable (ascii "a") none; openTable (ascii "b") none : EngineM Unit)
      ((Engine.single (ascii "a") t s).put (ascii "b") t' s')
        = .ok (.ok (), (Engine.single (ascii "a") t s).put (ascii "b") t' s') := by
    rw [bind_of_ok (openTable_of_open hleft), openTable_of_open put_tables_self]
  have hbare : Denotes (ascii "a") t.schema t'.schema (ascii "x") (ascii "x") := by
    rw [hschema, hschema']
    exact .bare (ascii "x") (by decide) (by decide) (by decide)
  have hqualified : Denotes (ascii "b") t'.schema t.schema (ascii "b.y") (ascii "y") := by
    rw [hschema, hschema']
    exact .qualified (ascii "y") (by decide)
  exact (onSymmetric_iff (q := ⟨none, ascii "a", none, none, none⟩) (by decide) (by decide)
    (by decide) hopen hleft put_tables_self hbare hqualified
    (pairQuery_tokens (ascii "x") (ascii "b.y"))
    (pairQuery_tokens (ascii "b.y") (ascii "x"))).1 (Or.inl (by decide))

/-- **A bare column of the right table that comes first** is not found. -/
theorem not_onSymmetric :
    answer (effect execJoin (tokenize (ascii "SELECT * FROM a JOIN b ON x = y")) emptyPair)
      = .ok (.ok ([ascii "a.x", ascii "b.y"], [], []))
    ∧ answer (effect execJoin (tokenize (ascii "SELECT * FROM a JOIN b ON y = x")) emptyPair)
      = .ok (.ok ([], [], ascii "ON: unknown column 'y' in a")) :=
  ⟨rfl, rfl⟩

end Pair

end SqlEngine
