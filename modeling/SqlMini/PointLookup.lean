import SqlMini.Deletion
import SqlMini.InnerJoin

/-!
# Point look-ups

`exec_select` answers `c0 = n` on a first column of integers without a scan: it
looks `n` up among the rowids. Rowids are handed out in the order of the
insertions and have nothing to do with the values, so the row found is the one
asked for only where the two happen to coincide (`SqlEngine.pointLookup_iff`).
Where the rows carry their rowids in the first column they always do
(`SqlEngine.RowidServes.of_rowids`).
-/

namespace SqlEngine

open Routine PageProg Table

variable {schema : Schema} {wh : WhereClause} {limit : ℤ} {outIdx : List ℕ} {n : CInt}

/-! ## The rows asked for -/

/-- The columns of a select list, by position. -/
def outColumns (schema : Schema) : Option (List ByteString) → List ℕ
  | none => List.range schema.cols.length
  | some refs => refs.map (fun c => (schema.findCol c).toNat)

/-- The integer in the first column of a row. -/
def firstInt (row : Row) : ℤ := (row.getD 0 default).intVal.val

/-- **The rows with `n` in the first column.** -/
def rowsWith (n : CInt) (rows : List (ℕ × Row)) : List (ℕ × Row) :=
  rows.filter (fun x => firstInt x.2 = n.val)

/-- **The rows a point query ought to return**: those with `n` in the first
column, on the columns selected, as many as the limit allows. -/
def pointRows (n : CInt) (limit : ℤ) (outIdx : List ℕ) (rows : List (ℕ × Row)) :
    List (List ByteString) :=
  let hits := (rowsWith n rows).map (fun x => outIdx.map (field x.2))
  if 0 < limit then hits.take limit.toNat else hits

/-- **A point query** `SELECT … FROM t WHERE c0 = n`. -/
structure PointQuery (schema : Schema) (q : SelectStmt) (n : CInt) (limit : ℤ) : Prop where
  join : q.join = none
  /-- The predicate compares the first column with `n`. -/
  wh : ∃ p, q.wh = some p ∧ p.op = ascii "=" ∧ schema.findCol p.col = 0
    ∧ CppString.stoi p.val = .ok n
  int : (schema.cols.getD 0 default).type = .int
  items : ∀ refs, q.items = some refs → ∀ c ∈ refs, 0 ≤ schema.findCol c
  limit_eq : limitOf q.limit = .ok limit
  limit_pos : q.limit = none ∨ 1 ≤ limit

/-- **The rowid serves as the value**: no row has `n` in its first column and no
row has the rowid `n`, or the first row with `n` looks like the row with the
rowid `n` and is the only one that is wanted. -/
def RowidServes (a : RowMap) (n : CInt) (limit : ℤ) (outIdx : List ℕ) : Prop :=
  (a.rows n.toUInt = none ∧ rowsWith n a.all = [])
    ∨ ∃ row x rest, a.rows n.toUInt = some row ∧ rowsWith n a.all = x :: rest
      ∧ (rest = [] ∨ limit = 1) ∧ outIdx.map (field row) = outIdx.map (field x.2)

/-! ## The two paths -/

/-- Known columns are resolved to their positions. -/
theorem resolveList_of_known : ∀ refs : List ByteString, (∀ c ∈ refs, 0 ≤ schema.findCol c) →
    resolveList schema refs = .ok (refs.map (fun c => (schema.findCol c).toNat))
  | [], _ => rfl
  | c :: cs, h => by
    have hrest := resolveList_of_known cs (fun d hd => h d (List.mem_cons_of_mem c hd))
    rw [resolveList, if_neg (not_lt.mpr (h c List.mem_cons_self)), hrest]
    rfl

/-- **`exec_select`** with its columns known. -/
theorem runSelect_of_known {items : Option (List ByteString)}
    (h : ∀ refs, items = some refs → ∀ c ∈ refs, 0 ≤ schema.findCol c) (tname : ByteString) :
    runSelect tname schema items wh limit
      = (if fastPath schema wh then selectByRowid tname wh (outColumns schema items)
          else selectByScan tname schema wh limit (outColumns schema items))
        >>= fun f => pure
          ⟨items.getD (schema.cols.map Column.name), f.rows, [], f.rowsScanned⟩ := by
  cases items with
  | none =>
    cases hfast : fastPath schema wh
    · simp only [runSelect, hfast]
      rfl
    · simp only [runSelect, hfast]
      rfl
  | some refs =>
    have hidx := resolveList_of_known refs (h refs rfl)
    cases hfast : fastPath schema wh
    · simp only [runSelect, hidx, hfast]
      rfl
    · simp only [runSelect, hidx, hfast]
      rfl

/-- **A clause that compares the first column** holds of the rows with `n` in
it. -/
theorem matchWhere_first {row : Row} (hactive : wh.active = true) (hop : wh.op = ascii "=")
    (hcol : schema.findCol wh.col = 0) (hint : (schema.cols.getD 0 default).type = .int)
    (hn : CppString.stoi wh.val = .ok n) (hrow : row ≠ []) :
    matchWhere row schema wh = .ok (decide (firstInt row = n.val)) := by
  have hlen : ¬ ((0 : ℤ) < 0 ∨ (row.length : ℤ) ≤ 0) := by
    have := List.length_pos_iff.mpr hrow
    omega
  have hint' : (schema.cols.getD (Int.toNat 0) default).type = .int := hint
  rw [matchWhere, hactive, hcol]
  simp only [Bool.not_true, if_neg Bool.false_ne_true, if_neg hlen, if_pos hint', hn]
  rw [hop]
  rfl

/-- **A scan** with a clause that holds or does not finds the rows it holds
of. -/
theorem visit_selectCallback (outIdx : List ℕ) : ∀ (rows : List (ℕ × Row)) (count : ℕ)
    (f : Found),
    (∀ x ∈ rows, matchWhere x.2 schema wh = .ok (RowMap.hit (clauseOn schema wh) x)) →
    ∃ fin, RowMap.visit (selectCallback schema wh (-1) outIdx) rows count f
        = .ok (count + rows.length, fin)
      ∧ fin.rows = f.rows ++ (rows.filter (RowMap.hit (clauseOn schema wh))).map
        (fun x => outIdx.map (field x.2))
  | [], count, f, _ => ⟨f, rfl, (List.append_nil f.rows).symm⟩
  | (r, row) :: rows, count, f, h => by
    have hrow := h (r, row) List.mem_cons_self
    have hrest := fun x hx => h x (List.mem_cons_of_mem (r, row) hx)
    have hcount : count + ((r, row) :: rows).length = count + 1 + rows.length := by
      rw [List.length_cons]
      omega
    rw [RowMap.visit, selectCallback, hrow, hcount, List.filter_cons]
    cases RowMap.hit (clauseOn schema wh) (r, row) with
    | false =>
      obtain ⟨fin, hvisit, hfin⟩ := visit_selectCallback outIdx rows (count + 1) f.scanned hrest
      exact ⟨fin, hvisit, hfin⟩
    | true =>
      have hfree := full_of_nonpos (show (-1 : ℤ) ≤ 0 by decide)
        (f.scanned.add (outIdx.map (field row)))
      obtain ⟨fin, hvisit, hfin⟩ := visit_selectCallback outIdx rows (count + 1)
        (f.scanned.add (outIdx.map (field row))) hrest
      refine ⟨fin, ?_, ?_⟩
      · rw [← hvisit, Except.ok_bind_eq]
        simp only [if_pos, hfree]
        rfl
      · rw [hfin]
        simp [Found.add, Found.scanned]

variable {a : RowMap} {m : ℕ → Option ℕ} {t : Table} {s : Store} {e : Engine} {q : SelectStmt}
  {tname : ByteString} {toks : List ByteString}

/-- What the predicate of a point query says. -/
theorem PointQuery.clause (h : PointQuery schema q n limit) : (clauseOf q.wh).active = true
    ∧ (clauseOf q.wh).op = ascii "=" ∧ schema.findCol (clauseOf q.wh).col = 0
    ∧ CppString.stoi (clauseOf q.wh).val = .ok n := by
  obtain ⟨p, hp, hop, hcol, hn⟩ := h.wh
  rw [hp]
  exact ⟨rfl, hop, hcol, hn⟩

/-- The first column is there. -/
theorem PointQuery.cols_ne_nil (h : PointQuery schema q n limit) : schema.cols ≠ [] := by
  obtain ⟨p, -, -, hcol, -⟩ := h.wh
  intro hnil
  rw [Schema.findCol, hnil] at hcol
  cases hcol

/-- A point query is answered by a look-up. -/
theorem PointQuery.fast (h : PointQuery schema q n limit) :
    fastPath schema (clauseOf q.wh) = true := by
  obtain ⟨hactive, hop, hcol, -⟩ := h.clause
  exact decide_eq_true ⟨hactive, hop, h.cols_ne_nil, h.int, hcol⟩

/-- **The look-up** finds the row with the rowid. -/
theorem selectByRowid_found (outIdx : List ℕ) (hts : e.tables tname = some (t, s))
    (h : t.Stands a m s) (hn : CppString.stoi wh.val = .ok n) :
    ∃ f e', selectByRowid tname wh outIdx e = .ok (.ok f, e')
      ∧ f.rows = ((a.rows n.toUInt).map (fun row => outIdx.map (field row))).toList := by
  obtain ⟨r, s', hrun, rfl, -⟩ := h.runs_findByRowid n.toUInt_lt
  have hread : readTable tname (fun t => t.findByRowid n.toUInt) e
      = .ok (.ok (a.rows n.toUInt), e.put tname t s') := readTable_of_run hts hrun
  unfold selectByRowid
  rw [hn, bind_of_ok (ofExcept_apply (.ok n) e), bind_of_ok hread]
  cases a.rows n.toUInt with
  | none => exact ⟨_, _, rfl, rfl⟩
  | some row => exact ⟨_, _, rfl, rfl⟩

/-- **The scan** finds the rows with `n` in the first column. -/
theorem PointQuery.scan_rows (hq : PointQuery schema q n limit)
    (hts : e.tables tname = some (t, s)) (h : t.Stands a m s)
    (hrows : ∀ x ∈ a.all, x.2 ≠ []) :
    ∃ f e', selectByScan tname schema (clauseOf q.wh) limit outIdx e = .ok (.ok f, e')
      ∧ f.rows = pointRows n limit outIdx a.all := by
  obtain ⟨hactive, hop, hcol, hn⟩ := hq.clause
  have hmatch : ∀ x ∈ a.all, matchWhere x.2 schema (clauseOf q.wh)
      = .ok (decide (firstInt x.2 = n.val)) :=
    fun x hx => matchWhere_first hactive hop hcol hq.int hn (hrows x hx)
  have hhit : ∀ x ∈ a.all, RowMap.hit (clauseOn schema (clauseOf q.wh)) x
      = decide (firstInt x.2 = n.val) := by
    intro x hx
    rw [RowMap.hit, clauseOn, hmatch x hx]
  obtain ⟨fin, hvisit, hfin⟩ := visit_selectCallback outIdx a.all 0 Found.none
    (fun x hx => by rw [hmatch x hx, hhit x hx])
  have hwith : a.all.filter (RowMap.hit (clauseOn schema (clauseOf q.wh))) = rowsWith n a.all :=
    List.filter_congr hhit
  rw [hwith] at hfin
  obtain ⟨s', hread, -⟩ := readTable_scan hts h (selectCallback schema (clauseOf q.wh) (-1) outIdx)
    Found.none
  rw [hvisit] at hread
  have hfree : selectByScan tname schema (clauseOf q.wh) (-1) outIdx e
      = .ok (.ok fin, e.put tname t s') := (bind_of_ok hread).trans rfl
  have hall : fin.rows = (rowsWith n a.all).map (fun x => outIdx.map (field x.2)) := hfin
  rcases hq.limit_pos with hnone | hpos
  · have hlimit := hq.limit_eq
    rw [hnone] at hlimit
    obtain rfl := Except.ok.inj hlimit
    exact ⟨fin, _, hfree, hall⟩
  · obtain ⟨f', e', hrun, hrows'⟩ := selectByScan_limit (show 0 < limit by omega) hfree
    refine ⟨f', e', hrun, ?_⟩
    rw [hrows', hall, pointRows]
    exact (if_pos (by omega)).symm

/-! ## Where they agree -/

/-- **The lists agree** exactly where the rowid serves as the value. -/
theorem toList_eq_pointRows :
    ((a.rows n.toUInt).map (fun row => outIdx.map (field row))).toList
        = pointRows n limit outIdx a.all ↔ RowidServes a n limit outIdx := by
  unfold pointRows RowidServes
  rcases hhits : rowsWith n a.all with - | ⟨x, rest⟩
  · cases a.rows n.toUInt with
    | none => simp
    | some row => simp
  · have htail : (if 0 < limit then (((x :: rest).map (fun y => outIdx.map (field y.2))).take
          limit.toNat) else (x :: rest).map (fun y => outIdx.map (field y.2)))
        = outIdx.map (field x.2) :: (if 0 < limit then
            (rest.map (fun y => outIdx.map (field y.2))).take (limit.toNat - 1)
          else rest.map (fun y => outIdx.map (field y.2))) := by
      split
      case isTrue hlimit =>
        obtain ⟨k, hk⟩ : ∃ k, limit.toNat = k + 1 := ⟨limit.toNat - 1, by omega⟩
        rw [hk, List.map_cons, List.take_succ_cons, Nat.add_sub_cancel]
      case isFalse => rfl
    have hone : (if 0 < limit then (rest.map (fun y => outIdx.map (field y.2))).take
          (limit.toNat - 1) else rest.map (fun y => outIdx.map (field y.2))) = []
        ↔ rest = [] ∨ limit = 1 := by
      split
      case isTrue hlimit =>
        rw [List.take_eq_nil_iff, List.map_eq_nil_iff]
        constructor
        · rintro (hk | hnil)
          · exact Or.inr (by omega)
          · exact Or.inl hnil
        · rintro (hnil | hk)
          · exact Or.inr hnil
          · exact Or.inl (by omega)
      case isFalse hlimit =>
        rw [List.map_eq_nil_iff]
        exact ⟨Or.inl, fun h => h.resolve_right (by omega)⟩
    simp only [htail]
    cases a.rows n.toUInt with
    | none => simp
    | some row =>
      rw [Option.map_some, Option.toList_some, List.cons.injEq, eq_comm (a := []), hone]
      constructor
      · rintro ⟨hrow, hrest⟩
        exact Or.inr ⟨row, x, rest, rfl, rfl, hrest, hrow⟩
      · rintro (⟨hnone, -⟩ | ⟨row', y, rest', hrow', hcons, hrest, hproj⟩)
        · cases hnone
        · obtain rfl := Option.some.inj hrow'
          obtain ⟨rfl, rfl⟩ := List.cons.inj hcons
          exact ⟨hproj, hrest⟩

/-- **A point query returns the rows asked for.** -/
def PointAgrees (toks : List ByteString) (e : Engine) (schema : Schema) (q : SelectStmt) (n : CInt)
    (limit : ℤ) (a : RowMap) : Prop :=
  ∃ res e', effect execSelect toks e = .ok (.ok res, e') ∧ res.error = []
    ∧ res.rows = pointRows n limit (outColumns schema q.items) a.all

theorem pointAgrees_iff_of_stands (h : t.Stands a m s) (hts : e.tables q.table = some (t, s))
    (htoks : SelectTokens q toks) (hq : PointQuery t.schema q n limit) :
    PointAgrees toks e t.schema q n limit a
      ↔ RowidServes a n limit (outColumns t.schema q.items) := by
  obtain ⟨-, -, -, hn⟩ := hq.clause
  obtain ⟨f, e', hrun, hrows⟩ := selectByRowid_found (outColumns t.schema q.items) hts h hn
  have hres : effect execSelect toks e = .ok (.ok ⟨q.items.getD (t.schema.cols.map Column.name),
      f.rows, [], f.rowsScanned⟩, e') := by
    rw [effect_execSelect htoks hq.join, bind_of_ok (openTable_of_open hts),
      bind_of_ok (schemaOf_of_open hts), hq.limit_eq, bind_of_ok (ofExcept_apply _ _),
      runSelect_of_known hq.items, hq.fast, if_pos rfl, bind_of_ok hrun]
    rfl
  rw [← toList_eq_pointRows, ← hrows]
  constructor
  · rintro ⟨res, e'', hres', -, hagree⟩
    rw [hres] at hres'
    obtain rfl := Except.ok.inj (Prod.mk.inj (Except.ok.inj hres')).1
    exact hagree
  · intro hagree
    exact ⟨_, e', hres, rfl, hagree⟩

/-- **Rows that carry their rowids** in the first column: those with a value are
the row of that rowid. -/
theorem rowsWith_of_rowids (ha : ∀ k row, a.rows k = some row → 1 ≤ k ∧ k < a.next)
    (h : ∀ k row, a.rows k = some row → firstInt row = k) :
    rowsWith n a.all = ((a.rows n.toUInt).map (fun row => (n.toUInt, row))).toList := by
  have hval : ∀ x ∈ a.all, firstInt x.2 = x.1 :=
    fun x hx => h x.1 x.2 (RowMap.mem_between.mp hx).2.2
  -- a value that is a rowid is the rowid it is looked up as
  have hkey : ∀ k : ℕ, n.val = k → n.toUInt = k := by
    intro k hk
    have hlt := n.2
    unfold CInt.toUInt
    omega
  cases hrow : a.rows n.toUInt with
  | none =>
    refine List.filter_eq_nil_iff.mpr (fun x hx hn => ?_)
    have hn' : firstInt x.2 = n.val := of_decide_eq_true hn
    rw [hkey x.1 (hn'.symm.trans (hval x hx)), (RowMap.mem_between.mp hx).2.2] at hrow
    cases hrow
  | some row =>
    have hn : n.val = n.toUInt := by
      have hfirst := h _ _ hrow
      have hlt := (row.getD 0 default).intVal.2
      have hn := n.2
      unfold firstInt at hfirst
      unfold CInt.toUInt at hfirst ⊢
      omega
    obtain ⟨h1, h2⟩ := ha _ _ hrow
    have hmem : (n.toUInt, row) ∈ a.all := RowMap.mem_between.mpr ⟨h1, by omega, hrow⟩
    have hcongr : rowsWith n a.all = a.all.filter (fun x => x = (n.toUInt, row)) := by
      refine List.filter_congr (fun x hx => ?_)
      rw [decide_eq_decide, hval x hx, hn, Nat.cast_inj]
      constructor
      · intro hx1
        have hx2 := (RowMap.mem_between.mp hx).2.2
        rw [hx1, hrow] at hx2
        exact Prod.ext hx1 (Option.some.inj hx2).symm
      · rintro rfl
        rfl
    have hnd : a.all.Nodup :=
      .of_map Prod.fst ((RowMap.pairwise_between _ _).imp (fun hlt => ne_of_lt hlt))
    rw [hcongr, List.filter_eq, List.count_eq_one_of_mem hnd hmem]
    rfl

/-- They are found by their rowids. -/
theorem RowidServes.of_rowids (ha : ∀ k row, a.rows k = some row → 1 ≤ k ∧ k < a.next)
    (h : ∀ k row, a.rows k = some row → firstInt row = k) : RowidServes a n limit outIdx := by
  have hrows := rowsWith_of_rowids (n := n) ha h
  cases hrow : a.rows n.toUInt with
  | none => exact Or.inl ⟨hrow, by rw [hrows, hrow]; rfl⟩
  | some row => exact Or.inr ⟨row, _, [], hrow, by rw [hrows, hrow]; rfl, Or.inl rfl, rfl⟩

/-- **A point query agrees with the scan** on a table into which only rows of at
most 65535 bytes were inserted, and fewer than `2 ^ 32 - 1` of them, exactly
where the rowid serves as the value. -/
theorem pointLookup_iff
    (h : Reached (fun row => InsertedRow schema row ∧ (serializeRow schema row).length ≤ 65535)
      schema a t s)
    (hnext : a.next < 4294967296) (hts : e.tables q.table = some (t, s))
    (htoks : SelectTokens q toks) (hq : PointQuery schema q n limit) :
    (∃ f e', selectByScan q.table schema (clauseOf q.wh) limit (outColumns schema q.items) e
        = .ok (.ok f, e') ∧ f.rows = pointRows n limit (outColumns schema q.items) a.all)
      ∧ (PointAgrees toks e schema q n limit a
        ↔ RowidServes a n limit (outColumns schema q.items)) := by
  obtain ⟨⟨m, hm⟩, rfl, hfrom⟩ := h.stands (fun row hrow => by
    obtain ⟨⟨cols, vals, hins⟩, hlen⟩ := hrow
    exact ⟨(insertedRow_spec hins).1, hlen⟩) hnext
  refine ⟨hq.scan_rows hts hm (fun x hx hnil => ?_), pointAgrees_iff_of_stands hm hts htoks hq⟩
  have hstored := storedRow_of_mem hfrom (fun row hrow => by
    obtain ⟨⟨cols, vals, hins⟩, -⟩ := hrow
    exact (insertedRow_spec hins).1) hx
  have hlen := hstored.length_eq
  rw [hnil] at hlen
  exact hq.cols_ne_nil (List.length_eq_zero_iff.mp hlen.symm)

/-! ## A table of numbers -/

section Numbers

/-- One column of integers. -/
def numbers : Schema := ⟨ascii "t", [⟨ascii "id", .int, 4⟩]⟩

theorem serializeRow_numbers (v : CInt) : (serializeRow numbers [.makeInt v]).length = 4 := by
  simp [serializeRow, numbers, fieldBytes]

/-- A table with one number. -/
theorem exists_reached_numbers (v : CInt) (lit : ByteString)
    (hlit : insertedRow numbers [] [lit] = .ok [.makeInt v]) :
    ∃ t s, Reached (fun row => InsertedRow numbers row ∧ (serializeRow numbers row).length ≤ 65535)
      numbers (RowMap.empty.insert [.makeInt v]) t s := by
  have hlen : (serializeRow numbers [.makeInt v]).length % uint16Size ≤ 4088 := by
    rw [serializeRow_numbers]
    decide
  have hfit : numbers.Fits := by decide
  obtain ⟨t, s, -, -, -, hrun, -⟩ := exists_inserted hfit hlen
  refine ⟨t, s, .insert (.new (construct_eq_ok.mpr ⟨hfit, rfl, rfl⟩)) ⟨⟨_, _, hlit⟩, ?_⟩ hrun⟩
  rw [serializeRow_numbers]
  decide

/-- The query for a number. -/
def numberQuery (lit : ByteString) : SelectStmt :=
  ⟨none, ascii "t", none, some ⟨ascii "id", ascii "=", lit⟩, none⟩

theorem numberQuery_tokens (lit : ByteString) : SelectTokens (numberQuery lit)
    [ascii "SELECT", ascii "*", ascii "FROM", ascii "t", ascii "WHERE",
      ascii "id", ascii "=", lit] :=
  .mk (q := numberQuery lit) (show Keyword "SELECT" (ascii "SELECT") from rfl) .star
    (show Keyword "FROM" (ascii "FROM") from rfl) .absent
    (.clause (show Keyword "WHERE" (ascii "WHERE") from rfl) _) .absent

theorem numberQuery_point {lit : ByteString} (hn : CppString.stoi lit = .ok n) :
    PointQuery numbers (numberQuery lit) n (-1) where
  join := rfl
  wh := ⟨_, rfl, rfl, rfl, hn⟩
  int := rfl
  items := nofun
  limit_eq := rfl
  limit_pos := Or.inl rfl

/-- A table with the number `1`, and the query for it. -/
theorem pointLookup_iff_one : ∃ t s,
    (∃ f e', selectByScan (ascii "t") numbers (clauseOf (numberQuery (ascii "1")).wh) (-1) [0]
        (Engine.single (ascii "t") t s) = .ok (.ok f, e')
      ∧ f.rows = pointRows ⟨1, by decide⟩ (-1) [0]
        (RowMap.empty.insert [.makeInt ⟨1, by decide⟩]).all)
    ∧ (PointAgrees [ascii "SELECT", ascii "*", ascii "FROM", ascii "t", ascii "WHERE", ascii "id",
        ascii "=", ascii "1"] (Engine.single (ascii "t") t s) numbers (numberQuery (ascii "1"))
        ⟨1, by decide⟩ (-1) (RowMap.empty.insert [.makeInt ⟨1, by decide⟩])
      ↔ RowidServes (RowMap.empty.insert [.makeInt ⟨1, by decide⟩]) ⟨1, by decide⟩ (-1) [0]) := by
  obtain ⟨t, s, h⟩ := exists_reached_numbers ⟨1, by decide⟩ (ascii "1") rfl
  exact ⟨t, s, pointLookup_iff h (by decide) single_tables_self (numberQuery_tokens _)
    (numberQuery_point rfl)⟩

/-- **The first row of a table** is not found under the number `5` it has. -/
theorem not_pointAgrees : ∃ t s,
    Reached (InsertedRow numbers) numbers (RowMap.empty.insert [.makeInt ⟨5, by decide⟩]) t s
    ∧ ¬ PointAgrees [ascii "SELECT", ascii "*", ascii "FROM", ascii "t", ascii "WHERE", ascii "id",
        ascii "=", ascii "5"] (Engine.single (ascii "t") t s) numbers (numberQuery (ascii "5"))
        ⟨5, by decide⟩ (-1) (RowMap.empty.insert [.makeInt ⟨5, by decide⟩]) := by
  obtain ⟨t, s, h⟩ := exists_reached_numbers ⟨5, by decide⟩ (ascii "5") rfl
  obtain ⟨⟨m, hm⟩, hschema, -⟩ := h.stands (fun row hrow => by
    obtain ⟨⟨cols, vals, hins⟩, hlen⟩ := hrow
    exact ⟨(insertedRow_spec hins).1, hlen⟩) (by decide)
  refine ⟨t, s, h.mono (fun _ hrow => hrow.1), ?_⟩
  have hq : PointQuery t.schema (numberQuery (ascii "5")) ⟨5, by decide⟩ (-1) := by
    rw [hschema]
    exact numberQuery_point rfl
  have hiff := pointAgrees_iff_of_stands hm single_tables_self (numberQuery_tokens (ascii "5")) hq
  rw [hschema] at hiff
  refine fun hagree => ?_
  rcases hiff.mp hagree with ⟨-, hnil⟩ | ⟨row, x, rest, hrow, -⟩
  · cases hnil
  · cases hrow

end Numbers

end SqlEngine
