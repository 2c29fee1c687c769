import SqlMini.TableReach
import SqlMini.TableTruncation
import SqlMini.QueryLimit
import SqlMini.QueryOn

/-!
# A join is an inner join

What a join ought to return: of all pairs of a left row and a right row, in the
order of the left rows and then of the right rows, those that agree in the two
columns of the `ON` and satisfy the `WHERE` (`innerJoin`), each projected onto
the columns selected.

The executor keeps the right table in memory as printed rows and compares
printed values. Two values of one type print alike only if they are equal
(`columnValue_eq_of_toString`), so on rows that are stored in full it computes
the inner join (`execJoin_innerJoin`).
-/

/-! ## Inner joins -/

section InnerJoin

variable {α β : Type} {on : α → β → Bool}

/-- **The inner join** of two lists: the pairs related by `on`. -/
def innerJoin (on : α → β → Bool) (l : List α) (r : List β) : List (α × β) :=
  (l ×ˢ r).filter (fun p => on p.1 p.2)

/-- The pairs of the first row come first. -/
theorem innerJoin_cons (x : α) (l : List α) (r : List β) :
    innerJoin on (x :: l) r = (r.filter (on x)).map (Prod.mk x) ++ innerJoin on l r := by
  unfold innerJoin
  rw [List.product_cons, List.filter_append, List.filter_map]
  rfl

end InnerJoin

/-! ## Printed values -/

/-- **Two values of one type that print alike** are equal. -/
theorem columnValue_eq_of_toString {c d : Column} {v w : Value} (htype : c.type = d.type)
    (h : (Schema.columnValue c v).toString = (Schema.columnValue d w).toString) :
    Schema.columnValue c v = Schema.columnValue d w := by
  unfold Schema.columnValue at h ⊢
  by_cases hc : c.type = .int
  · have hd : d.type = .int := htype ▸ hc
    simp only [if_pos hc, if_pos hd, Value.toString] at h ⊢
    have hread := congrArg CppString.stoi h
    rw [CppString.stoi_toDecimal, CppString.stoi_toDecimal] at hread
    rw [htype, Except.ok.inj hread]
  · have hd : ¬ d.type = .int := htype ▸ hc
    simp only [if_neg hc, if_neg hd, Value.toString] at h ⊢
    rw [htype, h]

namespace SqlEngine

open Routine Table

variable {names : List ByteString} {wh : WhereClause} {outIdx : List ℕ} {lkey : ByteString}
  {lvals : List ByteString} {onLi onRi : ℕ}

/-! ## The two scans -/

/-- **The inner loop** without a limit enters the right rows with the key of
the left row that satisfy the `WHERE`. -/
theorem joinLoop_rows : ∀ (rrs : List RightRow) (f : Found),
    (joinLoop names wh (-1) outIdx lkey lvals rrs f).1 = true
    ∧ (joinLoop names wh (-1) outIdx lkey lvals rrs f).2.rows = f.rows
      ++ (rrs.filter (fun rr => lkey = rr.joinKey
        ∧ matchWhereCombined (lvals ++ rr.vals) names wh)).map
        (fun rr => outIdx.map (combinedField (lvals ++ rr.vals)))
  | [], f => ⟨rfl, (List.append_nil f.rows).symm⟩
  | rr :: rrs, f => by
    have ih := joinLoop_rows rrs
    have hfree := full_of_nonpos (show (-1 : ℤ) ≤ 0 by decide)
    by_cases hhit : lkey = rr.joinKey ∧ matchWhereCombined (lvals ++ rr.vals) names wh = true
    · have hstep : joinLoop names wh (-1) outIdx lkey lvals (rr :: rrs) f
          = joinLoop names wh (-1) outIdx lkey lvals rrs
            (f.scanned.add (outIdx.map (combinedField (lvals ++ rr.vals)))) := by
        simp [joinLoop, hhit.1, hhit.2, hfree]
      obtain ⟨hgo, hrows⟩ := ih (f.scanned.add (outIdx.map (combinedField (lvals ++ rr.vals))))
      rw [hstep, List.filter_cons, if_pos (by exact decide_eq_true hhit), List.map_cons]
      refine ⟨hgo, hrows.trans ?_⟩
      exact List.append_assoc f.rows [_] _
    · have hstep : joinLoop names wh (-1) outIdx lkey lvals (rr :: rrs) f
          = joinLoop names wh (-1) outIdx lkey lvals rrs f.scanned := by
        by_cases hkey : lkey = rr.joinKey
        · have hwh : matchWhereCombined (lvals ++ rr.vals) names wh = false :=
            Bool.not_eq_true _ ▸ fun h => hhit ⟨hkey, h⟩
          simp [joinLoop, hkey, hwh]
        · simp [joinLoop, hkey]
      rw [hstep, List.filter_cons, if_neg (by rwa [decide_eq_true_eq])]
      exact ih f.scanned

/-- What the join keeps in memory of the right table. -/
def rightRow (onRi : ℕ) (row : Row) : RightRow := ⟨joinKey row onRi, row.map Value.toString⟩

/-- **The right table** is kept row by row. -/
theorem visit_rightCallback (rows : List (ℕ × Row)) :
    RowMap.visit (rightCallback onRi) rows 0 []
      = .ok (rows.length, (rows.map Prod.snd).map (rightRow onRi)) := by
  have hfold : ∀ (l : List Row) (st : List RightRow),
      l.foldl (fun st row => st ++ [rightRow onRi row]) st = st ++ l.map (rightRow onRi) := by
    intro l
    induction l with
    | nil => exact fun st => (List.append_nil st).symm
    | cons row l ih =>
      intro st
      rw [List.foldl_cons, ih, List.map_cons, List.append_assoc, List.singleton_append]
  have hgo : ∀ r row st, rightCallback onRi r row st = .ok (true, st ++ [rightRow onRi row]) :=
    fun _ _ _ => rfl
  rw [RowMap.visit_eq_foldl hgo, hfold, Nat.zero_add, List.nil_append]

/-- Whether a left row and a right row make a row of the join: they agree in
the `ON` columns and satisfy the `WHERE`. -/
def joins (names : List ByteString) (wh : WhereClause) (onLi onRi : ℕ) (l r : Row) : Bool :=
  l[onLi]? = r[onRi]? ∧ matchWhereCombined ((l ++ r).map Value.toString) names wh

/-- The row a pair of rows makes, on the columns selected. -/
def projected (outIdx : List ℕ) (p : Row × Row) : List ByteString :=
  outIdx.map (fun ci => ((p.1 ++ p.2).map Value.toString).getD ci [])

/-- The rows of a table with the columns `cols`. -/
def StoredRow (schema : Schema) (row : Row) : Prop :=
  ∃ raw : Row, raw.length = schema.cols.length ∧ schema.columnValues raw = row

variable {ls rs : Schema}

/-- A stored row has a value for each column. -/
theorem StoredRow.length_eq {row : Row} (h : StoredRow ls row) : row.length = ls.cols.length := by
  obtain ⟨raw, hraw, rfl⟩ := h
  rw [Schema.columnValues, List.length_zipWith, hraw, min_self]

theorem StoredRow.getElem?_eq {row : Row} (h : StoredRow ls row) {i : ℕ}
    (hi : i < ls.cols.length) :
    ∃ v, row[i]? = some (Schema.columnValue (ls.cols.getD i default) v) := by
  obtain ⟨raw, hraw, rfl⟩ := h
  refine ⟨raw.getD i default, ?_⟩
  have hi' : i < raw.length := hraw.symm ▸ hi
  unfold Schema.columnValues
  rw [List.getElem?_zipWith, List.getElem?_eq_getElem hi, List.getElem?_eq_getElem hi']
  simp [hi, hi']

theorem joinKey_eq {row : Row} {i : ℕ} {v : Value} (h : row[i]? = some v) :
    joinKey row i = v.toString := by
  have hi : i < row.length := (List.getElem?_eq_some_iff.mp h).1
  unfold joinKey
  rw [if_pos hi, List.getD_eq_getElem?_getD, h]
  rfl

/-- **Keys agree** exactly if the values do. -/
theorem joinKey_eq_iff {l r : Row} (hl : StoredRow ls l) (hr : StoredRow rs r)
    (hli : onLi < ls.cols.length) (hri : onRi < rs.cols.length)
    (htype : (ls.cols.getD onLi default).type = (rs.cols.getD onRi default).type) :
    joinKey l onLi = joinKey r onRi ↔ l[onLi]? = r[onRi]? := by
  obtain ⟨v, hv⟩ := hl.getElem?_eq hli
  obtain ⟨w, hw⟩ := hr.getElem?_eq hri
  rw [joinKey_eq hv, joinKey_eq hw, hv, hw]
  constructor
  · exact fun h => congrArg some (columnValue_eq_of_toString htype h)
  · exact fun h => congrArg Value.toString (Option.some.inj h)

/-- The columns selected are columns of the pair. -/
theorem projected_eq {l r : Row} (hidx : ∀ ci ∈ outIdx, ci < (l ++ r).length) :
    outIdx.map (combinedField (l.map Value.toString ++ r.map Value.toString))
      = projected outIdx (l, r) := by
  refine List.map_congr_left (fun ci hci => ?_)
  rw [← List.map_append, combinedField, if_pos (by rw [List.length_map]; exact hidx ci hci)]

variable {rrows : List Row}

/-- **What the inner loop enters** for one left row. -/
theorem joinLoop_pairs (names : List ByteString) (wh : WhereClause) {l : Row}
    (hl : StoredRow ls l) (hr : ∀ r ∈ rrows, StoredRow rs r)
    (hli : onLi < ls.cols.length) (hri : onRi < rs.cols.length)
    (htype : (ls.cols.getD onLi default).type = (rs.cols.getD onRi default).type)
    (hidx : ∀ ci ∈ outIdx, ci < ls.cols.length + rs.cols.length) (f : Found) :
    (joinLoop names wh (-1) outIdx (joinKey l onLi) (l.map Value.toString)
        (rrows.map (rightRow onRi)) f).2.rows
      = f.rows ++ ((rrows.filter (joins names wh onLi onRi l)).map (Prod.mk l)).map
        (projected outIdx) := by
  rw [(joinLoop_rows _ f).2, List.filter_map, List.map_map, List.map_map]
  have hfilter : rrows.filter ((fun rr : RightRow => decide (joinKey l onLi = rr.joinKey
        ∧ matchWhereCombined (l.map Value.toString ++ rr.vals) names wh)) ∘ rightRow onRi)
      = rrows.filter (joins names wh onLi onRi l) := by
    refine List.filter_congr (fun r hmem => ?_)
    refine decide_eq_decide.mpr (and_congr (joinKey_eq_iff hl (hr r hmem) hli hri htype) ?_)
    rw [List.map_append]
    rfl
  rw [hfilter]
  refine congrArg (f.rows ++ ·) (List.map_congr_left (fun r hmem => ?_))
  refine projected_eq (fun ci hci => ?_)
  rw [List.length_append, hl.length_eq, (hr r (List.mem_of_mem_filter hmem)).length_eq]
  exact hidx ci hci

/-- **The scan of the left table** enters the inner join. -/
theorem visit_leftCallback (names : List ByteString) (wh : WhereClause)
    (hr : ∀ r ∈ rrows, StoredRow rs r)
    (hli : onLi < ls.cols.length) (hri : onRi < rs.cols.length)
    (htype : (ls.cols.getD onLi default).type = (rs.cols.getD onRi default).type)
    (hidx : ∀ ci ∈ outIdx, ci < ls.cols.length + rs.cols.length) :
    ∀ (rows : List (ℕ × Row)) (count : ℕ) (f : Found), (∀ p ∈ rows, StoredRow ls p.2) →
      ∃ k fin, RowMap.visit (leftCallback names wh (-1) outIdx onLi (rrows.map (rightRow onRi)))
          rows count f = .ok (k, fin)
        ∧ fin.rows = f.rows ++ (innerJoin (joins names wh onLi onRi) (rows.map Prod.snd) rrows).map
          (projected outIdx)
  | [], count, f, _ => ⟨count, f, rfl, (List.append_nil f.rows).symm⟩
  | (rid, l) :: rows, count, f, hl => by
    have hloop := joinLoop_pairs names wh (hl (rid, l) List.mem_cons_self) hr hli hri htype hidx f
    have hgo : (joinLoop names wh (-1) outIdx (joinKey l onLi) (l.map Value.toString)
        (rrows.map (rightRow onRi)) f).1 = true := (joinLoop_rows _ f).1
    obtain ⟨k, fin, hvisit, hrows⟩ := visit_leftCallback names wh hr hli hri htype hidx rows
      (count + 1) _ (fun p hp => hl p (List.mem_cons_of_mem _ hp))
    refine ⟨k, fin, ?_, ?_⟩
    · rw [RowMap.visit, leftCallback, ← Prod.eta (joinLoop _ _ _ _ _ _ _ _), hgo]
      exact hvisit
    · rw [hrows, hloop, List.map_cons, innerJoin_cons, List.map_append, List.append_assoc]

/-! ## Columns -/

/-- A bare name is resolved to a column, or not at all. -/
theorem resolveBare_lt (ref : ByteString) : ∀ (cols : List ByteString) (i : ℕ) (found : ℤ),
    found < (i + cols.length : ℕ) → resolveBare ref cols i found < (i + cols.length : ℕ)
  | [], _, _, h => h
  | c :: cs, i, found, h => by
    have ih := fun found => resolveBare_lt ref cs (i + 1) found
    rw [List.length_cons] at h ⊢
    rw [show i + (cs.length + 1) = i + 1 + cs.length by omega] at h ⊢
    rw [resolveBare]
    split
    case isTrue =>
      split
      case isTrue => omega
      case isFalse => exact ih i (by omega)
    case isFalse => exact ih found h

theorem resolveCol_lt (ref : ByteString) (cols : List ByteString) :
    resolveCol ref cols < cols.length := by
  unfold resolveCol
  split
  case isTrue =>
    split
    case h_1 i hi =>
      have hlt := (List.findIdx?_eq_some_iff_getElem.mp hi).1
      exact_mod_cast hlt
    case h_2 => omega
  case isFalse =>
    have hbare := resolveBare_lt ref cols 0 (-1) (by omega)
    rwa [Nat.zero_add] at hbare

/-- **The columns selected** are columns of the join. -/
theorem resolveRefs_lt : ∀ (refs : List ByteString) (outIdx : List ℕ),
    resolveRefs names refs = .ok outIdx → ∀ ci ∈ outIdx, ci < names.length
  | [], outIdx, h => by
    obtain rfl := Except.ok.inj h
    simp
  | ref :: refs, outIdx, h => by
    unfold resolveRefs at h
    by_cases hamb : resolveCol ref names = -2
    · rw [if_pos hamb] at h
      cases h
    by_cases hneg : resolveCol ref names < 0
    · rw [if_neg hamb, if_pos hneg] at h
      cases h
    rw [if_neg hamb, if_neg hneg] at h
    obtain ⟨rest, hrest, h⟩ := Except.bind_eq_ok.mp h
    obtain rfl := Except.ok.inj h
    intro ci hci
    rcases List.mem_cons.mp hci with rfl | hci
    · have hlt := resolveCol_lt ref names
      omega
    · exact resolveRefs_lt refs rest hrest ci hci

theorem selectedColumns_lt {items : Option (List ByteString)}
    (h : selectedColumns names items = .ok outIdx) : ∀ ci ∈ outIdx, ci < names.length := by
  cases items with
  | none =>
    obtain rfl := Except.ok.inj h
    exact fun ci hci => List.mem_range.mp hci
  | some refs => exact resolveRefs_lt refs outIdx h

theorem findCol_lt {schema : Schema} {name : ByteString} {i : ℕ} (h : schema.findCol name = i) :
    i < schema.cols.length := by
  unfold Schema.findCol at h
  split at h
  case h_1 k hk =>
    have hlt := (List.findIdx?_eq_some_iff_getElem.mp hk).1
    omega
  case h_2 => omega

/-! ## Joins -/

/-- A full row whose encoding has a length of sixteen bits. -/
def Storable (schema : Schema) (row : Row) : Prop :=
  schema.FullRow row ∧ (serializeRow schema row).length ≤ 65535

theorem Storable.length_eq {schema : Schema} {row : Row} (h : Storable schema row) :
    row.length = schema.cols.length := by
  have hlen := congrArg List.length h.1
  rwa [List.length_map, List.length_map] at hlen

/-- **The rows a join ought to return**, for the rows of its tables. -/
def joinedRows (q : SelectStmt) (names : List ByteString) (onLi onRi : ℕ) (outIdx : List ℕ)
    (a b : RowMap) (n : ℤ) : List (List ByteString) :=
  let rows := (innerJoin (joins names (clauseOf q.wh) onLi onRi) (a.all.map Prod.snd)
    (b.all.map Prod.snd)).map (projected outIdx)
  if q.limit = none then rows else rows.take n.toNat

/-- **A join succeeds with these rows.** -/
def ReturnsRows (toks : List ByteString) (e : Engine) (rows : List (List ByteString)) : Prop :=
  ∃ res e', effect execJoin toks e = .ok (.ok res, e') ∧ res.error = [] ∧ res.rows = rows

/-- The rows of a map are the rows of the table. -/
theorem storedRow_of_mem {schema : Schema} {a : RowMap} {ok : Row → Prop}
    (h : RowsFrom ok schema a) (hok : ∀ row, ok row → row.length = schema.cols.length) {p : ℕ × Row}
    (hp : p ∈ a.all) : StoredRow schema p.2 := by
  obtain ⟨k, -, hk⟩ := List.mem_filterMap.mp hp
  obtain ⟨row, hrow, rfl⟩ := Option.map_eq_some_iff.mp hk
  obtain ⟨raw, hraw, hval⟩ := h k row hrow
  exact ⟨raw, hok raw hraw, hval⟩

/-- The scans of a join without a limit. -/
theorem joinScans_rows (names : List ByteString) {q : JoinStmt} {e : Engine} {lt rt : Table}
    {s s' : Store} {a b : RowMap}
    {m m' : ℕ → Option ℕ} (hne : q.leftName ≠ q.rightName)
    (hlt : e.tables q.leftName = some (lt, s)) (hrt : e.tables q.rightName = some (rt, s'))
    (hl : Stands a m lt s) (hr : Stands b m' rt s') (hla : ∀ p ∈ a.all, StoredRow ls p.2)
    (hrb : ∀ p ∈ b.all, StoredRow rs p.2) (hli : onLi < ls.cols.length)
    (hri : onRi < rs.cols.length)
    (htype : (ls.cols.getD onLi default).type = (rs.cols.getD onRi default).type)
    (hidx : ∀ ci ∈ outIdx, ci < ls.cols.length + rs.cols.length) (hq : q.limit = -1) :
    ∃ f e', joinScans q names outIdx onLi onRi e = .ok (.ok f, e')
      ∧ f.rows = (innerJoin (joins names q.wh onLi onRi) (a.all.map Prod.snd)
        (b.all.map Prod.snd)).map (projected outIdx) := by
  obtain ⟨s₁, hright, -⟩ := readTable_scan hrt hr (rightCallback onRi) []
  rw [visit_rightCallback] at hright
  have hrows' : ∀ r ∈ b.all.map Prod.snd, StoredRow rs r := by
    intro r hmem
    obtain ⟨p, hp, rfl⟩ := List.mem_map.mp hmem
    exact hrb p hp
  obtain ⟨k, fin, hvisit, hrows⟩ := visit_leftCallback names q.wh hrows' hli hri htype hidx a.all 0
    Found.none hla
  have hlt' : (e.put q.rightName rt s₁).tables q.leftName = some (lt, s) :=
    (put_tables_of_ne hne).trans hlt
  obtain ⟨s₂, hleft, -⟩ := readTable_scan hlt' hl (leftCallback names q.wh (-1) outIdx onLi
    ((b.all.map Prod.snd).map (rightRow onRi))) Found.none
  rw [hvisit] at hleft
  refine ⟨fin, (e.put q.rightName rt s₁).put q.leftName lt s₂, ?_, hrows⟩
  unfold joinScans
  rw [bind_of_ok hright, bind_of_ok (ofExcept_apply _ _), hq]
  exact bind_of_ok hleft

/-- The references of an `ON`, in either order: both are qualified, and where
the right table comes first it has a name. -/
def OnPair (left right cl cr onL onR : ByteString) : Prop :=
  onL = left ++ dot :: cl ∧ onR = right ++ dot :: cr
  ∨ onL = right ++ dot :: cr ∧ onR = left ++ dot :: cl ∧ right ≠ []

theorem OnPair.onColumns_eq {q : JoinStmt} {cl cr : ByteString}
    (h : OnPair q.leftName q.rightName cl cr q.onLeft q.onRight) (hne : q.leftName ≠ q.rightName)
    (hleft : dot ∉ q.leftName) (hright : dot ∉ q.rightName) : onColumns q = (cl, cr) := by
  have hl := splitRef_qualified hleft cl
  have hr := splitRef_qualified hright cr
  unfold onColumns
  rcases h with ⟨h₁, h₂⟩ | ⟨h₁, h₂, hname⟩
  · rw [h₁, h₂, hl, hr]
    exact if_neg (fun h => hne h.2)
  · rw [h₁, h₂, hl, hr]
    exact if_pos ⟨hname, rfl⟩

/-- **A join returns the inner join** of the rows its tables were given: on
tables filled by insertions of rows whose encodings have a length of sixteen
bits, while the counters of rowids have not wrapped. -/
theorem execJoin_innerJoin {q : SelectStmt} {right onL onR cl cr : ByteString}
    {toks : List ByteString} {e e' : Engine} {lt rt : Table} {s s' : Store} {a b : RowMap} {n : ℤ}
    (hne : q.table ≠ right) (hleft : dot ∉ q.table) (hright : dot ∉ right)
    (hopen : (do openTable q.table none; openTable right none : EngineM Unit) e = .ok (.ok (), e'))
    (hlt : e'.tables q.table = some (lt, s)) (hrt : e'.tables right = some (rt, s'))
    (hl : Reached (Storable ls) ls a lt s) (hr : Reached (Storable rs) rs b rt s')
    (ha : a.next < 4294967296) (hb : b.next < 4294967296)
    (hcl : ls.findCol cl = onLi) (hcr : rs.findCol cr = onRi)
    (htype : (ls.cols.getD onLi default).type = (rs.cols.getD onRi default).type)
    (hon : OnPair q.table right cl cr onL onR)
    (hsel : selectedColumns (combinedCols q.table ls ++ combinedCols right rs) q.items = .ok outIdx)
    (hn : limitOf q.limit = .ok n) (hlimit : q.limit = none ∨ 1 ≤ n)
    (hj : q.join = some ⟨right, onL, onR⟩) (h : SelectTokens q toks) :
    ReturnsRows toks e (joinedRows q (combinedCols q.table ls ++ combinedCols right rs) onLi onRi
      outIdx a b n) := by
  obtain ⟨⟨m, hm⟩, rfl, hfrom⟩ := hl.stands (fun row hrow => ⟨hrow.length_eq, hrow.2⟩) ha
  obtain ⟨⟨m', hm'⟩, rfl, hfrom'⟩ := hr.stands (fun row hrow => ⟨hrow.length_eq, hrow.2⟩) hb
  let q₀ : JoinStmt := ⟨q.items, q.table, right, onL, onR, clauseOf q.wh, -1⟩
  have hcols : onColumns q₀ = (cl, cr) := OnPair.onColumns_eq (q := q₀) hon hne hleft hright
  -- the join without its limit
  obtain ⟨f, e'', hscans, hrows⟩ := joinScans_rows (q := q₀)
    (combinedCols q.table lt.schema ++ combinedCols right rt.schema) hne hlt hrt hm hm'
    (fun p hp => storedRow_of_mem hfrom (fun _ h => h.length_eq) hp)
    (fun p hp => storedRow_of_mem hfrom' (fun _ h => h.length_eq) hp) (findCol_lt hcl)
    (findCol_lt hcr) htype
    (fun ci hci => by
      have hlt := selectedColumns_lt hsel ci hci
      rwa [List.length_append, combinedCols, combinedCols, List.length_map, List.length_map] at hlt)
    rfl
  have hfree : joinTables q₀ e = .ok (.ok ⟨outIdx.map (fun ci =>
      (combinedCols q.table lt.schema ++ combinedCols right rt.schema).getD ci []), f.rows, [],
      f.rowsScanned⟩, e'') := by
    have hcl' : lt.schema.findCol (onColumns q₀).1 = onLi := hcols ▸ hcl
    have hcr' : rt.schema.findCol (onColumns q₀).2 = onRi := hcols ▸ hcr
    rw [joinTables_of_open hopen hlt hrt, runJoin_of_columns (q := q₀) hcl' hcr' hsel]
    exact bind_of_ok hscans
  have hrun : ∀ k : ℤ, limitOf q.limit = .ok k →
      effect execJoin toks e = joinTables { q₀ with limit := k } e := by
    intro k hk
    rw [effect_execJoin h hj, hk]
    exact bind_of_ok (ofExcept_apply _ _)
  unfold ReturnsRows joinedRows
  rw [hrun n hn]
  by_cases hnone : q.limit = none
  · have hn1 : n = -1 := by
      rw [hnone] at hn
      exact (Except.ok.inj hn).symm
    rw [hn1]
    simp only [if_pos hnone]
    exact ⟨_, e'', hfree, rfl, hrows⟩
  · simp only [if_neg hnone]
    have hpos : 0 < n := hlimit.resolve_left hnone
    obtain ⟨res', e₁, hres, herr, -, htake⟩ := joinTables_limit (q := q₀) hpos rfl hfree
    refine ⟨res', e₁, hres, herr, ?_⟩
    rw [htake]
    exact congrArg (List.take n.toNat) hrows

/-! ## Two tables of texts -/

section Texts

/-- Tables of one text column. -/
def texts (name col : ByteString) : Schema := ⟨name, [⟨col, .text, 255⟩]⟩

/-- Two open tables, `a` and `b`. -/
def pairOf (lt : Table) (s : Store) (rt : Table) (s' : Store) : Engine :=
  (Engine.single (ascii "a") lt s).put (ascii "b") rt s'

/-- The columns of their join. -/
def pairNames : List ByteString :=
  combinedCols (ascii "a") (texts (ascii "a") (ascii "x"))
    ++ combinedCols (ascii "b") (texts (ascii "b") (ascii "y"))

theorem length_serializeRow_texts (name col body : ByteString) :
    (serializeRow (texts name col) [.makeText body]).length = 2 + body.length := by
  simp [serializeRow, texts, fieldBytes, Value.makeText]

variable {name col body : ByteString}

/-- A table with one text. -/
theorem exists_reached {ok : Row → Prop} (hfit : (texts name col).Fits)
    (hok : ok [.makeText body]) (hlen : (2 + body.length) % uint16Size ≤ 4088) :
    ∃ t s, Reached ok (texts name col) (RowMap.empty.insert [.makeText body]) t s := by
  rw [← length_serializeRow_texts name col] at hlen
  obtain ⟨t, s, -, -, -, hrun, -⟩ := exists_inserted hfit hlen
  exact ⟨t, s, .insert (.new (construct_eq_ok.mpr ⟨hfit, rfl, rfl⟩)) hok hrun⟩

theorem execJoin_innerJoin_texts : ∃ lt s rt s',
    ReturnsRows (tokenize (ascii "SELECT * FROM a JOIN b ON b.y = a.x")) (pairOf lt s rt s')
      (joinedRows (pairQuery (ascii "b.y") (ascii "a.x")) pairNames 0 0 [0, 1]
        (RowMap.empty.insert [.makeText (ascii "k")]) (RowMap.empty.insert [.makeText (ascii "k")])
        (-1)) := by
  have hok : ∀ name col : ByteString, Storable (texts name col) [.makeText (ascii "k")] :=
    fun name col => ⟨rfl, by rw [length_serializeRow_texts]; decide⟩
  obtain ⟨lt, s, hl⟩ := exists_reached (show (texts (ascii "a") (ascii "x")).Fits by decide)
    (hok _ _) (by decide)
  obtain ⟨rt, s', hr⟩ := exists_reached (show (texts (ascii "b") (ascii "y")).Fits by decide)
    (hok _ _) (by decide)
  exact ⟨lt, s, rt, s', execJoin_innerJoin (q := pairQuery (ascii "b.y") (ascii "a.x"))
    (by decide) (by decide) (by decide) rfl rfl rfl hl hr (by decide) (by decide)
    (show (texts _ _).findCol (ascii "x") = _ from rfl)
    (show (texts _ _).findCol (ascii "y") = _ from rfl) rfl (Or.inr ⟨rfl, rfl, by decide⟩) rfl rfl
    (Or.inl rfl) rfl (pairQuery_tokens _ _)⟩

/-- A scan of the left table that finds a row without values, and one empty
text on the right. -/
theorem execJoin_of_cut {lt rt : Table} {s s' : Store} {m : ℕ → Option ℕ}
    (hlt : lt.schema = texts (ascii "a") (ascii "x"))
    (hrt : rt.schema = texts (ascii "b") (ascii "y"))
    (hl : ∀ cb : Callback Found, cb 1 [] Found.none = .ok (true, ⟨[[[], ascii "NULL"]], 1, 1⟩) →
      ∃ s₁, (scan lt cb Found.none).run s = .ok (.ok (1, ⟨[[[], ascii "NULL"]], 1, 1⟩), s₁))
    (hr : Stands (RowMap.empty.insert [.makeText []]) m rt s') :
    ∃ e, effect execJoin (tokenize (ascii "SELECT * FROM a JOIN b ON a.x = b.y"))
      (pairOf lt s rt s')
      = .ok (.ok ⟨pairNames, [[[], ascii "NULL"]], [], 1⟩, e) := by
  let q : JoinStmt :=
    ⟨none, ascii "a", ascii "b", ascii "a.x", ascii "b.y", ⟨false, [], [], []⟩, -1⟩
  let cb := leftCallback pairNames q.wh (-1) [0, 1] 0 [⟨[], [[]]⟩]
  have hopen : (do openTable (ascii "a") none; openTable (ascii "b") none : EngineM Unit)
      (pairOf lt s rt s') = .ok (.ok (), pairOf lt s rt s') := rfl
  obtain ⟨s₁, hright, -⟩ := readTable_scan (e := pairOf lt s rt s') put_tables_self hr
    (rightCallback 0) []
  have hvisit : RowMap.visit (rightCallback 0) (RowMap.empty.insert [.makeText []]).all 0 []
      = .ok (1, [⟨[], [[]]⟩]) := rfl
  rw [hvisit] at hright
  obtain ⟨s₂, hrun⟩ := hl cb rfl
  have hleft : readTable (ascii "a") (fun t => t.scan cb Found.none)
      ((pairOf lt s rt s').put (ascii "b") rt s₁)
      = .ok (.ok (.ok (1, ⟨[[[], ascii "NULL"]], 1, 1⟩)),
          ((pairOf lt s rt s').put (ascii "b") rt s₁).put (ascii "a") lt s₂) :=
    readTable_of_run rfl hrun
  have hscans : joinScans q pairNames [0, 1] 0 0 (pairOf lt s rt s')
      = .ok (.ok ⟨[[[], ascii "NULL"]], 1, 1⟩,
          ((pairOf lt s rt s').put (ascii "b") rt s₁).put (ascii "a") lt s₂) := by
    unfold joinScans
    rw [bind_of_ok hright, bind_of_ok (ofExcept_apply _ _)]
    exact bind_of_ok hleft
  refine ⟨((pairOf lt s rt s').put (ascii "b") rt s₁).put (ascii "a") lt s₂, ?_⟩
  have htokens := effect_execJoin (pairQuery_tokens (ascii "a.x") (ascii "b.y")) rfl
    (pairOf lt s rt s')
  refine htokens.trans ((bind_of_ok (ofExcept_apply _ _)).trans ?_)
  refine (joinTables_of_open (q := q) hopen rfl rfl).trans ?_
  have hcl : (texts (ascii "a") (ascii "x")).findCol (onColumns q).1 = (0 : ℕ) := rfl
  have hcr : (texts (ascii "b") (ascii "y")).findCol (onColumns q).2 = (0 : ℕ) := rfl
  have hsel : selectedColumns (joinNames q (texts (ascii "a") (ascii "x"))
    (texts (ascii "b") (ascii "y"))) q.selRefs = .ok [0, 1] := rfl
  rw [hlt, hrt, runJoin_of_columns hcl hcr hsel]
  exact bind_of_ok hscans

/-- **A text of 65534 bytes**, stored as no bytes at all, is joined with the empty
text. -/
theorem not_execJoin_innerJoin : ∃ lt s rt s' a b,
    Reached (texts (ascii "a") (ascii "x")).FullRow (texts (ascii "a") (ascii "x")) a lt s
    ∧ Reached (texts (ascii "b") (ascii "y")).FullRow (texts (ascii "b") (ascii "y")) b rt s'
    ∧ ¬ ReturnsRows (tokenize (ascii "SELECT * FROM a JOIN b ON a.x = b.y")) (pairOf lt s rt s')
      (joinedRows (pairQuery (ascii "a.x") (ascii "b.y")) pairNames 0 0 [0, 1] a b (-1)) := by
  obtain ⟨body, hbody⟩ : ∃ body : ByteString, body.length = 65534 :=
    ⟨List.replicate 65534 120, List.length_replicate⟩
  have hfit : (texts (ascii "a") (ascii "x")).Fits := by decide
  have hfit' : (texts (ascii "b") (ascii "y")).Fits := by decide
  have hlen : (serializeRow (texts (ascii "a") (ascii "x")) [.makeText body]).length = 65536 := by
    rw [length_serializeRow_texts, hbody]
  have hstored : (⟨texts (ascii "a") (ascii "x"), 1, 512⟩ : Table).stored [.makeText body]
    = [] := by
    rw [stored, hlen]
    rfl
  obtain ⟨lt, s, p, slot, c, hrun, hschema, hnext, hw, hcontent, hfind⟩ :=
    exists_inserted hfit (show (serializeRow (texts (ascii "a") (ascii "x"))
      [.makeText body]).length
      % 65536 ≤ 4088 by rw [hlen]; decide)
  obtain ⟨rt, s', hr⟩ := exists_reached hfit'
    (show Storable (texts (ascii "b") (ascii "y")) [.makeText []] from ⟨rfl, by decide⟩) (by decide)
  obtain ⟨⟨m, hm⟩, hschema', -⟩ := hr.stands (fun row hrow => ⟨hrow.length_eq, hrow.2⟩) (by decide)
  -- the scan of the left table
  rw [hstored] at hcontent
  have hempty : PageProg.Runs (findByRowid lt 1) s (fun r _ => r = some []) :=
    (hfind _).mpr ⟨_, rowAt_of_empty hw hcontent, rfl⟩
  obtain ⟨e', hjoin⟩ := execJoin_of_cut hschema hschema' (fun cb hcb => by
    obtain ⟨r, s₁, hscan, rfl⟩ := runs_scan_of_findByRowid hnext hempty hcb
    exact ⟨s₁, hscan⟩) hm
  have hfull : (texts (ascii "a") (ascii "x")).FullRow [.makeText body] := rfl
  refine ⟨lt, s, rt, s', _, _, .insert (.new (construct_eq_ok.mpr ⟨hfit, rfl, rfl⟩)) hfull hrun,
    hr.mono (fun row hrow => hrow.1), ?_⟩
  rintro ⟨res, e'', hres, -, hrows⟩
  rw [hjoin] at hres
  obtain rfl := Except.ok.inj (Prod.mk.inj (Except.ok.inj hres)).1
  have hne : ¬ joins pairNames ⟨false, [], [], []⟩ 0 0 [.makeText body] [.makeText []] = true := by
    intro h
    have hval := (of_decide_eq_true h).1
    have hnil : body = [] := congrArg Value.strVal (Option.some.inj hval)
    rw [hnil] at hbody
    cases hbody
  have hnone : innerJoin (joins pairNames ⟨false, [], [], []⟩ 0 0) [[.makeText body]]
      [[.makeText []]] = [] := by
    rw [innerJoin_cons, List.filter_cons_of_neg hne]
    rfl
  have hempty' := congrArg (List.map (projected [0, 1])) hnone
  cases hrows.trans hempty'

end Texts

end SqlEngine
