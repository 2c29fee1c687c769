import SqlMini.Semantics
import SqlMini.PointLookup
import SqlMini.PooledEngine

/-!
# Statements do what they mean

The executors over the database of maps compute the meanings of statements
(`Semantics.exec_eq_meaning`), so that a run over the maps is a run of meanings
(`Semantics.execAll_eq_meanings`).

Rows are full and rowids in range in every database that statements lead to
(`Database.Proper`). So a predicate fails on every row or on none, and a
deletion by rowids is a filter.
-/

open SqlEngine Routine Search

/-- **A table whose rows are full**, with rowids that were handed out. -/
structure MapTable.Proper (t : MapTable) : Prop where
  /-- Rowids begin with one. -/
  next_pos : 1 ≤ t.rows.next
  /-- A row has a rowid that was handed out. -/
  range : ∀ k row, t.rows.rows k = some row → 1 ≤ k ∧ k < t.rows.next
  /-- A row has a value for each column. -/
  full : ∀ k row, t.rows.rows k = some row → row.length = t.schema.cols.length

/-- Every table is proper. -/
def Database.Proper (d : Database) : Prop := ∀ name t, d name = some t → t.Proper

namespace Semantics

variable {d : Database} {t : MapTable} {schema : Schema} {wh : Option Predicate} {rows : List Row}
  {names : List ByteString}

/-! ## The pieces -/

theorem findCol_eq (schema : Schema) (name : ByteString) : schema.findCol name
    = match position schema name with
      | some i => i
      | none => -1 := rfl

/-- A column found is a column of the schema. -/
theorem position_lt {name : ByteString} {i : ℕ} (h : position schema name = some i) :
    i < schema.cols.length := (List.findIdx?_eq_some_iff_getElem.mp h).1

section Test

variable {p : Predicate} {i : ℕ}

theorem test_of_absent (h : position schema p.col = none) :
    test schema (some p) = .ok (fun _ => false) := by
  unfold test
  simp only [h]

theorem test_of_position (h : position schema p.col = some i) : test schema (some p)
    = if (schema.cols.getD i default).type = .int then do
        let c ← number p.val
        return fun row => compares p.op (row.getD i default).intVal.val c.val
      else return fun row => compares p.op (row.getD i default).strVal p.val := by
  unfold test
  simp only [h]

theorem matchWhere_of_absent (h : position schema p.col = none) (row : Row) :
    matchWhere row schema (clauseOf (some p)) = .ok false := by
  have hcol := findCol_eq schema p.col
  rw [h] at hcol
  unfold matchWhere clauseOf
  simp only [Bool.not_true, if_neg Bool.false_ne_true, hcol]
  rfl

theorem matchWhere_of_position (h : position schema p.col = some i) {row : Row}
    (hrow : row.length = schema.cols.length) : matchWhere row schema (clauseOf (some p))
      = if (schema.cols.getD i default).type = .int then
          (CppString.stoi p.val).map (fun c => compares p.op (row.getD i default).intVal.val c.val)
        else .ok (compares p.op (row.getD i default).strVal p.val) := by
  have hcol := findCol_eq schema p.col
  rw [h] at hcol
  have hlt := position_lt h
  unfold matchWhere clauseOf
  simp only [Bool.not_true, if_neg Bool.false_ne_true, hcol,
    if_neg (by omega : ¬ ((i : ℤ) < 0 ∨ (row.length : ℤ) ≤ i)), Int.toNat_natCast]
  rfl

end Test

/-- **A predicate on full rows** fails on all of them, or is its test. -/
theorem matchWhere_cases (schema : Schema) (wh : Option Predicate) :
    (∃ x, test schema wh = .error (what x) ∧ ∀ row : Row, row.length = schema.cols.length →
        matchWhere row schema (clauseOf wh) = .error x)
      ∨ ∃ f, test schema wh = .ok f ∧ ∀ row : Row, row.length = schema.cols.length →
        matchWhere row schema (clauseOf wh) = .ok (f row) := by
  cases wh with
  | none => exact Or.inr ⟨fun _ => true, rfl, fun _ _ => rfl⟩
  | some p =>
    cases hpos : position schema p.col with
    | none => exact Or.inr ⟨_, test_of_absent hpos, fun row _ => matchWhere_of_absent hpos row⟩
    | some i =>
      have hmatch := fun (row : Row) => @matchWhere_of_position schema p i hpos row
      have htest := test_of_position hpos
      by_cases hint : (schema.cols.getD i default).type = .int
      · rw [if_pos hint] at htest
        simp only [if_pos hint] at hmatch
        unfold number at htest
        cases hnum : CppString.stoi p.val with
        | error x =>
          rw [hnum] at htest
          refine Or.inl ⟨x, htest, fun row hrow => ?_⟩
          rw [hmatch row hrow, hnum]
          rfl
        | ok c =>
          rw [hnum] at htest
          refine Or.inr ⟨_, htest, fun row hrow => ?_⟩
          rw [hmatch row hrow, hnum]
          rfl
      · rw [if_neg hint] at htest
        simp only [if_neg hint] at hmatch
        exact Or.inr ⟨_, htest, hmatch⟩

/-- **The look-up by rowid** is made for the predicates that `keyed` says. -/
theorem fastPath_cases (schema : Schema) (wh : Option Predicate) :
    (keyed schema wh = none ∧ fastPath schema (clauseOf wh) = false)
      ∨ keyed schema wh = some (clauseOf wh).val ∧ fastPath schema (clauseOf wh) = true := by
  cases wh with
  | none => exact Or.inl ⟨rfl, rfl⟩
  | some p =>
    have hcol := findCol_eq schema p.col
    have hzero : (schema.cols ≠ [] ∧ (schema.cols.getD 0 default).type = .int
          ∧ schema.findCol p.col = 0)
        ↔ position schema p.col = some 0 ∧ (schema.cols.getD 0 default).type = .int := by
      cases hpos : position schema p.col with
      | none =>
        rw [hpos] at hcol
        rw [hcol]
        simp
      | some i =>
        rw [hpos] at hcol
        have hlt := position_lt hpos
        have hne : schema.cols ≠ [] := List.ne_nil_of_length_pos (by omega)
        rw [hcol]
        simp [hne, and_comm]
    have hfast : fastPath schema (clauseOf (some p)) = true ↔ p.op = ascii "="
        ∧ position schema p.col = some 0 ∧ (schema.cols.getD 0 default).type = .int := by
      rw [← hzero, fastPath, decide_eq_true_iff]
      exact and_iff_right rfl
    by_cases hk : p.op = ascii "=" ∧ position schema p.col = some 0
        ∧ (schema.cols.getD 0 default).type = .int
    · exact Or.inr ⟨if_pos hk, hfast.mpr hk⟩
    · exact Or.inl ⟨if_neg hk, Bool.eq_false_iff.mpr (fun h => hk (hfast.mp h))⟩

/-- How many rows are left to a query that has returned some. -/
def left (limit : ℤ) (returned : ℕ) : Option ℕ :=
  if 0 < limit then some (limit.toNat - returned) else none

/-- **The limit** that the parser reads. -/
theorem cap_eq (l : Option ByteString) :
    (∃ x, limitOf l = .error x ∧ cap l = .error (what x))
      ∨ ∃ n, limitOf l = .ok n ∧ cap l = .ok (left n 0) := by
  cases l with
  | none => exact Or.inr ⟨-1, rfl, rfl⟩
  | some n =>
    have hcap : cap (some n) = (do
        let z ← number n
        return if 0 < z.val then some z.val.toNat else none) := rfl
    have hlimit : limitOf (some n) = (CppString.stoi n).map Subtype.val := rfl
    unfold number at hcap
    cases hn : CppString.stoi n with
    | error x =>
      rw [hn] at hcap hlimit
      exact Or.inl ⟨x, hlimit, hcap⟩
    | ok z =>
      rw [hn] at hcap hlimit
      exact Or.inr ⟨z.val, hlimit, hcap⟩

/-- The columns of a select list. -/
theorem resolveList_eq (schema : Schema) : ∀ refs : List ByteString,
    refs.mapM (fun c => match position schema c with
      | none => (.error (ascii "Unknown column: " ++ c) : Except ByteString ℕ)
      | some i => .ok i)
      = (resolveList schema refs).mapError (ascii "Unknown column: " ++ ·)
  | [] => rfl
  | c :: cs => by
    have hcol := findCol_eq schema c
    rw [List.mapM_cons, resolveList_eq schema cs, resolveList]
    cases hpos : position schema c with
    | none =>
      rw [hpos] at hcol
      simp only [hcol]
      rfl
    | some i =>
      rw [hpos] at hcol
      simp only [hcol, if_neg (by omega : ¬ (i : ℤ) < 0), Int.toNat_natCast, Except.ok_bind_eq]
      cases resolveList schema cs with
      | error e => rfl
      | ok rest => rfl

/-! ### Columns of a join -/

/-- **Bare names** are looked up among all columns. -/
theorem resolveBare_eq (ref : ByteString) : ∀ (cols : List ByteString) (i : ℕ),
    (resolveBare ref cols i (-1) = match cols.findIdxs (fun c => bareName c = ref) i with
      | [k] => (k : ℤ)
      | [] => -1
      | _ => -2)
    ∧ ∀ found : ℤ, found ≠ -1 → resolveBare ref cols i found
      = if cols.findIdxs (fun c => bareName c = ref) i = [] then found else -2
  | [], i => ⟨rfl, fun _ _ => rfl⟩
  | c :: cs, i => by
    obtain ⟨hnone, hsome⟩ := resolveBare_eq ref cs (i + 1)
    rw [List.findIdxs_cons]
    by_cases hc : bareName c = ref
    · simp only [resolveBare, hc, decide_true, if_true, ne_eq, not_true_eq_false, if_false]
      refine ⟨?_, fun found hfound => ?_⟩
      · rw [hsome i (by omega)]
        cases cs.findIdxs (fun c => bareName c = ref) (i + 1) with
        | nil => rfl
        | cons k ks => rfl
      · rw [if_pos hfound]
        rfl
    · simp only [resolveBare, hc, decide_false, if_neg Bool.false_ne_true, if_false]
      exact ⟨hnone, hsome⟩

/-- **A reference in a join** names a column, none, or several. -/
theorem resolve_cases (names : List ByteString) (ref : ByteString) :
    (∃ i : ℕ, resolve names ref = .ok i ∧ resolveCol ref names = i)
      ∨ (resolve names ref = .error (ascii "Unknown column '" ++ ref ++ ascii "'")
        ∧ resolveCol ref names = -1)
      ∨ (resolve names ref = .error (ascii "Ambiguous column '" ++ ref
          ++ ascii "': qualify with table name") ∧ resolveCol ref names = -2) := by
  unfold resolve resolveCol
  by_cases hdot : dot ∈ ref
  · rw [if_pos hdot, if_pos hdot]
    cases names.findIdx? (fun c => c = ref) with
    | none => exact Or.inr (Or.inl ⟨rfl, rfl⟩)
    | some i => exact Or.inl ⟨i, rfl, rfl⟩
  · rw [if_neg hdot, if_neg hdot, (resolveBare_eq ref names 0).1]
    rcases names.findIdxs (fun c => bareName c = ref) with - | ⟨i, - | ⟨k, ks⟩⟩
    · exact Or.inr (Or.inl ⟨rfl, rfl⟩)
    · exact Or.inl ⟨i, rfl, rfl⟩
    · exact Or.inr (Or.inr ⟨rfl, rfl⟩)

/-- The select list of a join. -/
theorem resolveRefs_eq (names : List ByteString) : ∀ refs : List ByteString,
    resolveRefs names refs = refs.mapM (resolve names)
  | [] => rfl
  | ref :: refs => by
    rw [List.mapM_cons, ← resolveRefs_eq names refs, resolveRefs]
    rcases resolve_cases names ref with ⟨i, hi, hcol⟩ | ⟨hi, hcol⟩ | ⟨hi, hcol⟩
    · simp only [hi, hcol, if_neg (by omega : ¬ (i : ℤ) = -2), if_neg (by omega : ¬ (i : ℤ) < 0)]
      rfl
    · rw [hi, hcol]
      rfl
    · rw [hi, hcol]
      rfl

theorem selectedColumns_eq (names : List ByteString) (items : Option (List ByteString)) :
    selectedColumns names items = joinColumnsOf names items := by
  cases items with
  | none => rfl
  | some refs => exact resolveRefs_eq names refs

section Operators

variable {α β : Type} [DecidableEq α] [LT α] [LE α] [DecidableLT α] [DecidableLE α]
  [DecidableEq β] [LT β] [LE β] [DecidableLT β] [DecidableLE β]

/-- Which operators compare does not depend on the type. -/
theorem applyOp_none {op : ByteString} {a b : α} (h : applyOp op a b = none) (a' b' : β) :
    applyOp op a' b' = none := by
  have hop : op ∉ comparisons := by
    intro hop
    obtain ⟨r, hr⟩ := applyOp_isSome hop a b
    rw [h] at hr
    cases hr
  simp only [comparisons, List.mem_cons, List.not_mem_nil, or_false, not_or] at hop
  obtain ⟨h1, h2, h3, h4, h5, h6⟩ := hop
  unfold applyOp
  rw [if_neg h1, if_neg h2, if_neg h3, if_neg h4, if_neg h5, if_neg h6]

end Operators

/-- **A predicate on the printed rows of a join.** -/
theorem matchWhereCombined_test (wh : Option Predicate) {row : List ByteString}
    (hrow : row.length = names.length) :
    matchWhereCombined row names (clauseOf wh) = joinTest names wh row := by
  cases wh with
  | none => rfl
  | some p =>
    unfold matchWhereCombined joinTest clauseOf
    rcases resolve_cases names p.col with ⟨i, hi, hcol⟩ | ⟨hi, hcol⟩ | ⟨hi, hcol⟩
    · have hlt : (i : ℤ) < names.length := hcol ▸ resolveCol_lt p.col names
      simp only [Bool.not_true, if_neg Bool.false_ne_true, hi, hcol,
        if_neg (by omega : ¬ ((i : ℤ) < 0 ∨ (row.length : ℤ) ≤ i)), Int.toNat_natCast]
      unfold comparesTexts compares
      cases CppString.stoi (row.getD i []) with
      | error x => rfl
      | ok m =>
        cases CppString.stoi p.val with
        | error x => rfl
        | ok n =>
          cases hop : applyOp p.op m.val n.val with
          | some c => simp only [hop, Option.getD_some]
          | none => simp only [hop, applyOp_none hop, Option.getD_none]
    · simp only [Bool.not_true, if_neg Bool.false_ne_true, hi, hcol]
      rfl
    · simp only [Bool.not_true, if_neg Bool.false_ne_true, hi, hcol]
      rfl

/-! ## Loops over rows -/

section Loops

variable {α : Type} {hit : α → Bool} {out : α → List ByteString} {limit : ℤ}

/-- A row is looked at, and entered if it is a hit. -/
def enter (hit : α → Bool) (out : α → List ByteString) (limit : ℤ) (f : Found) (a : α) :
    Bool × Found :=
  if hit a then (!(f.scanned.add (out a)).full limit, f.scanned.add (out a)) else (true, f.scanned)

/-- Only the test and the print of the element matter. -/
theorem enter_congr {β : Type} {hit' : β → Bool} {out' : β → List ByteString} {a : α} {b : β}
    (hhit : hit a = hit' b) (hout : out a = out' b) (f : Found) :
    enter hit out limit f a = enter hit' out' limit f b := by
  unfold enter
  rw [hhit, hout]

/-- **What such a loop has found** at its end. -/
theorem foldUntil_enter : ∀ (l : List α) (f : Found), f.rowsScanned < uint32Size →
    (0 < limit → (f.returned : ℤ) < limit) →
    (foldUntil (enter hit out limit) l f).2
      = ⟨f.rows ++ ((upTo hit (left limit f.returned) l).filter hit).map out,
        (f.rowsScanned + (upTo hit (left limit f.returned) l).length) % uint32Size,
        f.returned + ((upTo hit (left limit f.returned) l).filter hit).length⟩
  | [], f, hscanned, _ => by
    rw [upTo, List.filter_nil, List.map_nil, List.append_nil, List.length_nil, Nat.add_zero,
      Nat.add_zero, Nat.mod_eq_of_lt hscanned]
    rfl
  | a :: l, f, hscanned, hlimit => by
    have hlt : (f.rowsScanned + 1) % uint32Size < uint32Size := Nat.mod_lt _ (by decide)
    have hmod : ∀ n, ((f.rowsScanned + 1) % uint32Size + n) % uint32Size
        = (f.rowsScanned + (n + 1)) % uint32Size := by
      intro n
      rw [Nat.mod_add_mod]
      exact congrArg (· % uint32Size) (by omega)
    have hgo : left limit f.returned ≠ some 0 := by
      unfold left
      split
      case isTrue h =>
        have hret := hlimit h
        rw [ne_eq, Option.some.injEq]
        omega
      case isFalse => exact (Option.some_ne_none 0).symm
    rw [upTo_cons hgo, foldUntil, enter]
    cases ha : hit a with
    | false =>
      have ih := foldUntil_enter l f.scanned hlt hlimit
      simp only [if_neg Bool.false_ne_true, if_true, ih]
      rw [List.filter_cons_of_neg (by rw [ha]; exact Bool.false_ne_true), List.length_cons]
      exact congrArg (Found.mk _ · _) (hmod _)
    | true =>
      have hpred : (left limit f.returned).map Nat.pred = left limit (f.returned + 1) := by
        unfold left
        split
        case isTrue => exact congrArg some (Nat.sub_succ _ _).symm
        case isFalse => rfl
      simp only [if_true, hpred]
      rw [List.filter_cons_of_pos ha, List.map_cons, List.length_cons, List.length_cons]
      by_cases hfull : (f.scanned.add (out a)).full limit = true
      · -- the last row that is asked for
        obtain ⟨hpos, hle⟩ : 0 < limit ∧ limit ≤ (f.returned + 1 : ℕ) := of_decide_eq_true hfull
        have hend : left limit (f.returned + 1) = some 0 := by
          rw [left, if_pos hpos, Option.some.injEq]
          omega
        rw [hfull, hend, upTo_zero]
        rfl
      · have hmore : 0 < limit → ((f.scanned.add (out a)).returned : ℤ) < limit := by
          intro hpos
          by_contra hge
          exact hfull (decide_eq_true ⟨hpos, not_lt.mp hge⟩)
        have ih := foldUntil_enter l (f.scanned.add (out a)) hlt hmore
        rw [Bool.not_eq_true] at hfull
        simp only [hfull, Bool.not_false, if_true, ih]
        rw [Found.mk.injEq]
        refine ⟨?_, hmod _, ?_⟩
        · exact List.append_assoc f.rows [out a] _
        · exact (Nat.add_assoc f.returned 1 _).trans (congrArg (f.returned + ·) (Nat.add_comm 1 _))

/-- What it has found if nothing was found before. -/
theorem foldUntil_enter_none (cols : List ByteString) (l : List α) :
    (⟨cols, (foldUntil (enter hit out limit) l Found.none).2.rows, [],
      (foldUntil (enter hit out limit) l Found.none).2.rowsScanned⟩ : SelectResult)
      = listing cols (left limit 0) hit out l := by
  rw [foldUntil_enter l Found.none (by decide) (fun hpos => hpos), listing, ← filter_upTo]
  exact congrArg (SelectResult.mk cols _ []) (congrArg (· % uint32Size) (Nat.zero_add _))

/-- A query of no rows has no rows. -/
theorem listing_nil {cols : List ByteString} {cap : Option ℕ} :
    listing cols cap hit out [] = ⟨cols, [], [], 0⟩ := by
  rw [listing, ← filter_upTo]
  rfl

/-- **A scan whose callback does not throw** is such a fold. -/
theorem visit_eq_foldUntil {σ : Type} {cb : Table.Callback σ} {step : σ → Row → Bool × σ} :
    ∀ (rows : List (ℕ × Row)) (count : ℕ) (st : σ),
      (∀ x ∈ rows, ∀ st, cb x.1 x.2 st = .ok (step st x.2)) →
      ∃ k, RowMap.visit cb rows count st = .ok (k, (foldUntil step (rows.map Prod.snd) st).2)
  | [], count, st, _ => ⟨count, rfl⟩
  | (rid, row) :: rows, count, st, h => by
    have hcb := h (rid, row) List.mem_cons_self st
    have ih := fun st => visit_eq_foldUntil rows (count + 1) st
      (fun x hx => h x (List.mem_cons_of_mem _ hx))
    rw [RowMap.visit, hcb, List.map_cons, foldUntil]
    rcases hstep : step st row with ⟨go, st'⟩
    cases go with
    | true => exact ih st'
    | false => exact ⟨count + 1, rfl⟩

end Loops

/-! ## Queries -/

/-- **What an executor reports** of the meaning of a query: a result, an
exception, or a result with an error in it. The database stays what it was. -/
inductive Reports (d : Database) : Except ByteString SelectResult →
    Except EngineFault (Except StdException SelectResult × Database) → Prop
  | result (res : SelectResult) (h : res.error = []) : Reports d (.ok res) (.ok (.ok res, d))
  | thrown (x : StdException) : Reports d (.error (what x)) (.ok (.error x, d))
  | failed (res : SelectResult) (h : res.error ≠ []) :
      Reports d (.error res.error) (.ok (.ok res, d))

section Calls

variable {name : ByteString}

theorem tableOf_none (h : d name = none) : tableOf d name
    = .error (ascii "Table '" ++ name ++ ascii "' does not exist. Use CREATE TABLE first.") := by
  unfold tableOf
  rw [h]

theorem tableOf_some (h : d name = some t) : tableOf d name = .ok t := by
  unfold tableOf
  rw [h]

theorem tableOf_eq_ok : tableOf d name = .ok t ↔ d name = some t := by
  constructor
  · intro h
    cases hd : d name with
    | none =>
      rw [tableOf_none hd] at h
      cases h
    | some t' =>
      rw [tableOf_some hd] at h
      rw [Except.ok.inj h]
  · exact tableOf_some

/-- A call that changes no row changes nothing. -/
theorem onTable_read {α : Type} {f : MapTable → Except StdException α} (h : d name = some t) :
    Database.onTable name (fun t => (f t, t.rows)) d = .ok (f t, d) := by
  rw [Database.onTable_of_some h]
  refine congrArg (fun d' => Except.ok (f t, d')) ?_
  show Function.update d name (some t) = d
  rw [← h, Function.update_eq_self]

theorem schemaOf_some (h : d name = some t) :
    Database.storage.schemaOf name d = .ok (.ok t.schema, d) := onTable_read h

end Calls

/-- The columns selected are columns of the table. -/
theorem resolveList_lt : ∀ (refs : List ByteString) (outIdx : List ℕ),
    resolveList schema refs = .ok outIdx → ∀ i ∈ outIdx, i < schema.cols.length
  | [], outIdx, h => by
    rw [← Except.ok.inj h]
    exact fun i hi => absurd hi List.not_mem_nil
  | c :: cs, outIdx, h => by
    rw [resolveList] at h
    by_cases hneg : schema.findCol c < 0
    · simp only [if_pos hneg] at h
      cases h
    simp only [if_neg hneg] at h
    obtain ⟨rest, hrest, h⟩ := Except.bind_eq_ok.mp h
    rw [← Except.ok.inj h]
    intro i hi
    rcases List.mem_cons.mp hi with rfl | hi
    · exact findCol_lt (Int.toNat_of_nonneg (not_lt.mp hneg)).symm
    · exact resolveList_lt cs rest hrest i hi

/-- **What `exec_select` does**, over every storage: it gives up on an unknown
column, or looks the rows up. -/
theorem runSelect_columns {σ : Type} (b : Storage σ) (tname : ByteString) (schema : Schema)
    (items : Option (List ByteString)) (wh : WhereClause) (limit : ℤ) :
    (∃ res : SelectResult, res.error ≠ [] ∧ columnsOf schema items = .error res.error
      ∧ ∀ s, b.runSelect tname schema items wh limit s = .ok (.ok res, s))
    ∨ ∃ cols, columnsOf schema items = .ok cols ∧ (∀ i ∈ cols.2, i < schema.cols.length)
      ∧ b.runSelect tname schema items wh limit
        = (if fastPath schema wh then b.selectByRowid tname wh cols.2
            else b.selectByScan tname schema wh limit cols.2)
          >>= fun f => pure ⟨cols.1, f.rows, [], f.rowsScanned⟩ := by
  cases items with
  | none =>
    refine Or.inr ⟨(schema.cols.map Column.name, List.range schema.cols.length), rfl,
      fun i hi => List.mem_range.mp hi, ?_⟩
    cases hfast : fastPath schema wh with
    | false =>
      simp only [Storage.runSelect, hfast]
      rfl
    | true =>
      simp only [Storage.runSelect, hfast]
      rfl
  | some refs =>
    have hcols : columnsOf schema (some refs) = (do
        let idx ← (resolveList schema refs).mapError (ascii "Unknown column: " ++ ·)
        return (refs, idx)) := by
      rw [← resolveList_eq]
      rfl
    cases hidx : resolveList schema refs with
    | error c =>
      rw [hidx] at hcols
      refine Or.inl ⟨⟨refs.takeWhile (fun c => 0 ≤ schema.findCol c), [],
        ascii "Unknown column: " ++ c, 0⟩, List.append_ne_nil_of_left_ne_nil (by decide) _, hcols,
        fun s => ?_⟩
      unfold Storage.runSelect
      simp only [hidx]
      rfl
    | ok idx =>
      rw [hidx] at hcols
      refine Or.inr ⟨(refs, idx), hcols, resolveList_lt refs idx hidx, ?_⟩
      cases hfast : fastPath schema wh with
      | false =>
        simp only [Storage.runSelect, hidx, hfast]
        rfl
      | true =>
        simp only [Storage.runSelect, hidx, hfast]
        rfl

variable {n : ℤ} {idx : List ℕ}

theorem left_zero_ne (n : ℤ) : left n 0 ≠ some 0 := by
  unfold left
  split
  case isTrue h =>
    rw [ne_eq, Option.some.injEq]
    omega
  case isFalse => exact (Option.some_ne_none 0).symm

/-- A row is printed on the columns selected. -/
theorem map_field {row : Row} (hidx : ∀ i ∈ idx, i < row.length) :
    idx.map (field row) = idx.map (fun i => (row.getD i default).toString) :=
  List.map_congr_left (fun i hi => if_pos (hidx i hi))

/-- **The look-up by rowid** is a query of one row at most. -/
theorem selectByRowid_reports {name : ByteString} {wh : WhereClause} {cols : List ByteString}
    (h : d name = some t) (ht : t.Proper) (hidx : ∀ i ∈ idx, i < t.schema.cols.length) :
    Reports d (do
        let z ← number wh.val
        return listing cols (left n 0) (fun _ : Row => true)
          (fun row => idx.map (fun i => (row.getD i default).toString))
          (t.rows.rows z.toUInt).toList)
      ((Database.storage.selectByRowid name wh idx
        >>= fun f => pure ⟨cols, f.rows, [], f.rowsScanned⟩) d) := by
  unfold Storage.selectByRowid number
  cases hval : CppString.stoi wh.val with
  | error x => exact .thrown x
  | ok z =>
    have hfind : Database.storage.findByRowid name z.toUInt d
        = .ok (.ok (t.rows.rows z.toUInt), d) := onTable_read h
    rw [Routine.bind_assoc, bind_of_ok (ofExcept_apply _ _), Routine.bind_assoc, bind_of_ok hfind]
    show Reports d (.ok (listing cols (left n 0) (fun _ : Row => true)
      (fun row => idx.map (fun i => (row.getD i default).toString))
        (t.rows.rows z.toUInt).toList)) _
    cases hrow : t.rows.rows z.toUInt with
    | none =>
      rw [Option.toList_none, listing_nil]
      exact .result ⟨cols, [], [], 0⟩ rfl
    | some row =>
      have hlist : listing cols (left n 0) (fun _ : Row => true)
          (fun row => idx.map (fun i => (row.getD i default).toString)) [row]
          = ⟨cols, [idx.map (field row)], [], 1⟩ := by
        unfold listing
        rw [← filter_upTo, upTo_cons (left_zero_ne n),
          map_field (fun i hi => (ht.full _ _ hrow).symm ▸ hidx i hi)]
        rfl
      rw [Option.toList_some, hlist]
      exact .result ⟨cols, [idx.map (field row)], [], 1⟩ rfl

/-- A row of the list is a row of the table. -/
theorem full_of_mem (ht : t.Proper) {x : ℕ × Row} (hx : x ∈ t.rows.all) :
    x.2.length = t.schema.cols.length := ht.full x.1 x.2 (RowMap.mem_between.mp hx).2.2

/-- **The scan** is a query of all rows. -/
theorem selectByScan_reports {name : ByteString} {cols : List ByteString}
    (h : d name = some t) (ht : t.Proper) (hidx : ∀ i ∈ idx, i < t.schema.cols.length) :
    Reports d (do
        let holds ← testOf t wh
        return listing cols (left n 0) holds
          (fun row => idx.map (fun i => (row.getD i default).toString)) t.list)
      ((Database.storage.selectByScan name t.schema (clauseOf wh) n idx
        >>= fun f => pure ⟨cols, f.rows, [], f.rowsScanned⟩) d) := by
  have hscan : Database.storage.scan name (selectCallback t.schema (clauseOf wh) n idx) Found.none d
      = .ok (RowMap.visit (selectCallback t.schema (clauseOf wh) n idx) t.rows.all 0 Found.none,
          d) :=
    onTable_read h
  have hrun : ∀ f : Found, (∃ k, RowMap.visit (selectCallback t.schema (clauseOf wh) n idx)
      t.rows.all 0 Found.none = .ok (k, f)) → (Database.storage.selectByScan name t.schema
        (clauseOf wh) n idx >>= fun f => pure ⟨cols, f.rows, [], f.rowsScanned⟩) d
        = .ok (.ok (⟨cols, f.rows, [], f.rowsScanned⟩ : SelectResult), d) := by
    rintro f ⟨k, hk⟩
    unfold Storage.selectByScan
    rw [hk] at hscan
    rw [Routine.bind_assoc, bind_of_ok hscan]
    rfl
  unfold testOf
  by_cases hnil : t.list = []
  · have hall : t.rows.all = [] := List.map_eq_nil_iff.mp hnil
    rw [if_pos hnil, hnil, hrun Found.none ⟨0, by rw [hall]; rfl⟩, Except.ok_bind_eq, listing_nil]
    exact .result ⟨cols, [], [], 0⟩ rfl
  rw [if_neg hnil]
  rcases matchWhere_cases t.schema wh with ⟨x, htest, hthrow⟩ | ⟨holds, htest, hholds⟩
  · -- the first row throws
    obtain ⟨y, rest, hall⟩ := List.exists_cons_of_ne_nil
      (fun he => hnil (List.map_eq_nil_iff.mpr he))
    have hy := hthrow y.2 (full_of_mem ht (hall ▸ List.mem_cons_self))
    have hvisit : RowMap.visit (selectCallback t.schema (clauseOf wh) n idx) t.rows.all 0 Found.none
        = .error x := by
      rw [hall, RowMap.visit, selectCallback, hy]
      rfl
    have hstop : (Database.storage.selectByScan name t.schema (clauseOf wh) n idx
        >>= fun f => pure (⟨cols, f.rows, [], f.rowsScanned⟩ : SelectResult)) d
        = .ok (.error x, d) := by
      unfold Storage.selectByScan
      rw [hvisit] at hscan
      rw [Routine.bind_assoc, bind_of_throw hscan]
    rw [htest, hstop]
    exact .thrown x
  · have hstep : ∀ x ∈ t.rows.all, ∀ f, selectCallback t.schema (clauseOf wh) n idx x.1 x.2 f
        = .ok (enter holds (fun row => idx.map (fun i => (row.getD i default).toString))
            n f x.2) := by
      intro x hx f
      have hfull := full_of_mem ht hx
      have hprint : idx.map (field x.2) = _ := map_field (fun i hi => hfull.symm ▸ hidx i hi)
      unfold selectCallback enter
      rw [hholds x.2 hfull, hprint]
      cases holds x.2 with
      | true => rfl
      | false => rfl
    obtain ⟨k, hk⟩ := visit_eq_foldUntil t.rows.all 0 Found.none hstep
    rw [htest, hrun _ ⟨k, hk⟩, foldUntil_enter_none]
    exact .result (listing cols (left n 0) holds
      (fun row => idx.map (fun i => (row.getD i default).toString)) t.list) rfl

/-- **A query of one table** reports its meaning. -/
theorem scanQuery_reports (hd : d.Proper) {q : SelectStmt} (hj : q.join = none) :
    Reports d (scanQuery q d) (Database.storage.runQuery q d) := by
  unfold Storage.runQuery scanQuery
  simp only [hj]
  cases h : d q.table with
  | none =>
    have hopen : Database.storage.openTable q.table none d = _ := Database.openTable_absent h
    rw [bind_of_throw hopen, tableOf_none h]
    exact .thrown (.runtimeError _)
  | some t =>
    have hopen : Database.storage.openTable q.table none d = _ := Database.openTable_of_some h
    rw [bind_of_ok hopen, bind_of_ok (schemaOf_some h), tableOf_some h, Except.ok_bind_eq]
    rcases cap_eq q.limit with ⟨x, hlimit, hcap⟩ | ⟨n, hlimit, hcap⟩
    · rw [hlimit, hcap]
      exact .thrown x
    rw [hlimit, hcap, bind_of_ok (ofExcept_apply _ _), Except.ok_bind_eq]
    rcases runSelect_columns Database.storage q.table t.schema q.items (clauseOf q.wh) n with
      ⟨res, herr, hcols, hrun⟩ | ⟨cols, hcols, hidx, hrun⟩
    · rw [hcols, hrun]
      exact .failed res herr
    rw [hcols, hrun, Except.ok_bind_eq, candidates]
    rcases fastPath_cases t.schema q.wh with ⟨hkey, hfast⟩ | ⟨hkey, hfast⟩
    · rw [hkey, hfast, if_neg Bool.false_ne_true]
      rw [LawfulMonad.bind_assoc]
      exact selectByScan_reports h (hd _ _ h) hidx
    · rw [hkey, hfast, if_pos rfl]
      rw [LawfulMonad.bind_assoc]
      exact selectByRowid_reports h (hd _ _ h) hidx

/-- **Where a look-up is a filter**: what a query of a table comes to are the
rows that pass the test, if no literal is taken for a rowid or the rows carry
their rowids in the first column. -/
theorem filter_candidates (ht : t.Proper) {c : List Row × (Row → Bool)} {holds : Row → Bool}
    (hc : candidates t wh = .ok c) (htest : test t.schema wh = .ok holds)
    (hids : keyed t.schema wh = none ∨ ∀ k row, t.rows.rows k = some row → firstInt row = k) :
    c.1.filter c.2 = t.list.filter holds := by
  unfold candidates at hc
  cases hkey : keyed t.schema wh with
  | none =>
    simp only [hkey, testOf] at hc
    by_cases hempty : t.list = []
    · rw [if_pos hempty] at hc
      rw [← Except.ok.inj hc, hempty]
      rfl
    · rw [if_neg hempty, htest] at hc
      rw [← Except.ok.inj hc]
  | some val =>
    simp only [hkey] at hc
    obtain ⟨z, hz, hc⟩ := Except.bind_eq_ok.mp hc
    rw [← Except.ok.inj hc]
    cases wh with
    | none => cases hkey
    | some p =>
      obtain ⟨hp, hval⟩ := Option.ite_none_right_eq_some.mp hkey
      obtain rfl := Option.some.inj hval
      rw [test_of_position hp.2.1, if_pos hp.2.2, hz] at htest
      have hholds : t.list.filter holds = (rowsWith z t.rows.all).map Prod.snd := by
        rw [← Except.ok.inj htest, MapTable.list, List.filter_map, hp.1]
        rfl
      have hrows := rowsWith_of_rowids (n := z) ht.range (hids.resolve_left (by rw [hkey]; simp))
      rw [hholds, hrows]
      cases t.rows.rows z.toUInt with
      | none => rfl
      | some row => rfl

/-- **A query is a filter** and a projection there. -/
theorem rows_scanQuery (ht : t.Proper) {q : SelectStmt} {res : SelectResult} {holds : Row → Bool}
    (htable : d q.table = some t) (hres : scanQuery q d = .ok res)
    (htest : test t.schema q.wh = .ok holds)
    (hids : keyed t.schema q.wh = none ∨ ∀ k row, t.rows.rows k = some row → firstInt row = k) :
    ∃ n cols, cap q.limit = .ok n ∧ columnsOf t.schema q.items = .ok cols
      ∧ res.rows = (first n (t.list.filter holds)).map
          (fun row => cols.2.map (fun i => (row.getD i default).toString)) := by
  unfold scanQuery at hres
  rw [tableOf_some htable, Except.ok_bind_eq] at hres
  obtain ⟨n, hn, hres⟩ := Except.bind_eq_ok.mp hres
  obtain ⟨cols, hcols, hres⟩ := Except.bind_eq_ok.mp hres
  obtain ⟨c, hc, hres⟩ := Except.bind_eq_ok.mp hres
  refine ⟨n, cols, hn, hcols, ?_⟩
  rw [← filter_candidates ht hc htest hids, ← Except.ok.inj hres]
  rfl

/-! ## Joins -/

section Join

variable {q : SelectStmt} {j : JoinPart} {ls rs : Schema} {c : JoinColumns}

/-- The statement that the parser of joins makes of a query. -/
def joinStmt (q : SelectStmt) (j : JoinPart) (n : ℤ) : JoinStmt :=
  ⟨q.items, q.table, j.right, j.onLeft, j.onRight, clauseOf q.wh, n⟩

/-- **The columns of a join** are columns of its tables. -/
structure JoinColumns.Within (c : JoinColumns) (ls rs : Schema) : Prop where
  left : c.left < ls.cols.length
  right : c.right < rs.cols.length
  selected : ∀ i ∈ c.selected, i < ls.cols.length + rs.cols.length

theorem length_joinedCols (l r : ByteString) (ls rs : Schema) :
    (joinedCols l r ls rs).length = ls.cols.length + rs.cols.length := by
  rw [joinedCols, List.length_append, combinedCols, combinedCols, List.length_map, List.length_map]

theorem onColumn_cases (schema : Schema) (table col : ByteString) :
    (schema.findCol col < 0 ∧ onColumn schema table col
        = .error (ascii "ON: unknown column '" ++ col ++ ascii "' in " ++ table))
      ∨ ∃ i : ℕ, schema.findCol col = i ∧ i < schema.cols.length
        ∧ onColumn schema table col = .ok i := by
  have hcol := findCol_eq schema col
  unfold onColumn
  cases hpos : position schema col with
  | none =>
    rw [hpos] at hcol
    exact Or.inl ⟨hcol.symm ▸ (by decide), rfl⟩
  | some i =>
    rw [hpos] at hcol
    exact Or.inr ⟨i, hcol, position_lt hpos, rfl⟩

/-- An error of the select list is a message. -/
theorem joinColumnsOf_error {items : Option (List ByteString)} {message : ByteString}
    (h : joinColumnsOf names items = .error message) : message ≠ [] := by
  have hmessage : ∀ refs : List ByteString, refs.mapM (resolve names) = .error message →
      message ≠ [] := by
    intro refs
    induction refs with
    | nil => nofun
    | cons ref refs ih =>
      intro h
      rw [List.mapM_cons] at h
      rcases resolve_cases names ref with ⟨i, hi, -⟩ | ⟨hi, -⟩ | ⟨hi, -⟩
      · rw [hi, Except.ok_bind_eq] at h
        cases hrest : refs.mapM (resolve names) with
        | error e =>
          rw [hrest] at h
          rw [Except.error.inj h] at hrest
          exact ih hrest
        | ok rest =>
          rw [hrest] at h
          cases h
      · rw [hi] at h
        rw [← Except.error.inj h]
        exact List.append_ne_nil_of_left_ne_nil (List.append_ne_nil_of_left_ne_nil (by decide) _) _
      · rw [hi] at h
        rw [← Except.error.inj h]
        exact List.append_ne_nil_of_left_ne_nil (List.append_ne_nil_of_left_ne_nil (by decide) _) _
  cases items with
  | none => cases h
  | some refs => exact hmessage refs h

/-- **What `exec_join` does** with its tables open, over every storage: it gives
up on an unknown column, or scans. -/
theorem runJoin_columns {σ : Type} (b : Storage σ) (q : SelectStmt) (j : JoinPart) (n : ℤ)
    (ls rs : Schema) :
    (∃ res : SelectResult, res.error ≠ [] ∧ joinColumns q j ls rs = .error res.error
      ∧ ∀ s, b.runJoin (joinStmt q j n) ls rs s = .ok (.ok res, s))
    ∨ ∃ c, joinColumns q j ls rs = .ok c ∧ JoinColumns.Within c ls rs
      ∧ b.runJoin (joinStmt q j n) ls rs
        = b.joinScans (joinStmt q j n) (joinedCols q.table j.right ls rs) c.selected c.left c.right
          >>= fun f => pure ⟨c.selected.map (fun i => (joinedCols q.table j.right ls rs).getD i []),
            f.rows, [], f.rowsScanned⟩ := by
  have hmessage : ∀ a b c d : ByteString, a ≠ [] → a ++ b ++ c ++ d ≠ [] := fun a b c d ha =>
    List.append_ne_nil_of_left_ne_nil (List.append_ne_nil_of_left_ne_nil
      (List.append_ne_nil_of_left_ne_nil ha b) c) d
  unfold joinColumns
  rcases onColumn_cases ls q.table (onNames j).1 with ⟨hneg, hon⟩ | ⟨li, hli, hlt, hon⟩
  · rw [hon]
    exact Or.inl ⟨⟨[], [], _, 0⟩, hmessage _ _ _ _ (by decide), rfl,
      fun s => congrFun (if_pos hneg) s⟩
  rw [hon, Except.ok_bind_eq]
  have hnl : ¬ ls.findCol (onColumns (joinStmt q j n)).1 < 0 := by
    show ¬ ls.findCol (onNames j).1 < 0
    omega
  rcases onColumn_cases rs j.right (onNames j).2 with ⟨hneg, hon⟩ | ⟨ri, hri, hrt, hon⟩
  · rw [hon]
    exact Or.inl ⟨⟨[], [], _, 0⟩, hmessage _ _ _ _ (by decide), rfl,
      fun s => congrFun ((if_neg hnl).trans (if_pos hneg)) s⟩
  rw [hon, Except.ok_bind_eq]
  have hnr : ¬ rs.findCol (onColumns (joinStmt q j n)).2 < 0 := by
    show ¬ rs.findCol (onNames j).2 < 0
    omega
  have hrun : b.runJoin (joinStmt q j n) ls rs = _ := (if_neg hnl).trans (if_neg hnr)
  have hleft : (ls.findCol (onColumns (joinStmt q j n)).1).toNat = li := by
    rw [show ls.findCol (onColumns (joinStmt q j n)).1 = li from hli, Int.toNat_natCast]
  have hright : (rs.findCol (onColumns (joinStmt q j n)).2).toNat = ri := by
    rw [show rs.findCol (onColumns (joinStmt q j n)).2 = ri from hri, Int.toNat_natCast]
  rw [hrun, hleft, hright, ← selectedColumns_eq]
  cases hitems : q.items with
  | none =>
    refine Or.inr ⟨⟨li, ri, List.range (joinedCols q.table j.right ls rs).length⟩, rfl,
      ⟨hlt, hrt, fun i hi => ?_⟩, ?_⟩
    · rw [← length_joinedCols q.table j.right]
      exact List.mem_range.mp hi
    · simp only [joinStmt, hitems]
      rfl
  | some refs =>
    have hrefs : selectedColumns (joinedCols q.table j.right ls rs) (some refs)
        = resolveRefs (joinedCols q.table j.right ls rs) refs := rfl
    cases hidx : resolveRefs (joinedCols q.table j.right ls rs) refs with
    | error message =>
      have herr : joinColumnsOf (joinedCols q.table j.right ls rs) (some refs)
          = .error message := by
        rw [← selectedColumns_eq, hrefs, hidx]
      rw [hrefs, hidx]
      refine Or.inl ⟨⟨knownColumns (joinedCols q.table j.right ls rs) refs, [], message, 0⟩,
        joinColumnsOf_error herr, rfl, fun s => ?_⟩
      simp only [joinStmt, hitems]
      rw [show resolveRefs (combinedCols q.table ls ++ combinedCols j.right rs) refs
        = .error message from hidx]
      rfl
    | ok idx =>
      rw [hrefs, hidx]
      refine Or.inr ⟨⟨li, ri, idx⟩, rfl, ⟨hlt, hrt, fun i hi => ?_⟩, ?_⟩
      · rw [← length_joinedCols q.table j.right]
        exact resolveRefs_lt refs idx hidx i hi
      · simp only [joinStmt, hitems]
        rw [show resolveRefs (combinedCols q.table ls ++ combinedCols j.right rs) refs
          = .ok idx from hidx]
        rfl

/-- The inner loop is a fold. -/
theorem joinLoop_eq_foldUntil (names : List ByteString) (wh : WhereClause) (n : ℤ) (idx : List ℕ)
    (lkey : ByteString) (lvals : List ByteString) : ∀ (rrs : List RightRow) (f : Found),
    joinLoop names wh n idx lkey lvals rrs f = foldUntil (enter
      (fun rr => lkey = rr.joinKey && matchWhereCombined (lvals ++ rr.vals) names wh)
      (fun rr => idx.map (combinedField (lvals ++ rr.vals))) n) rrs f
  | [], _ => rfl
  | rr :: rrs, f => by
    have ih := joinLoop_eq_foldUntil names wh n idx lkey lvals rrs
    simp only [joinLoop, foldUntil, enter, ih]
    by_cases hkey : lkey = rr.joinKey
    · rw [if_neg (not_not.mpr hkey), decide_eq_true hkey, Bool.true_and]
      cases matchWhereCombined (lvals ++ rr.vals) names wh with
      | false => rfl
      | true =>
        simp only [Bool.not_true, if_neg Bool.false_ne_true, if_true]
        cases (f.scanned.add (idx.map (combinedField (lvals ++ rr.vals)))).full n with
        | false => rfl
        | true => rfl
    · rw [if_pos hkey, decide_eq_false hkey, Bool.false_and]
      rfl

/-- **On full rows** the executor tests and prints a pair as the meaning does. -/
theorem enter_pair {names : List ByteString} {n : ℤ} {p : Row × Row}
    (hnames : names.length = ls.cols.length + rs.cols.length) (hc : JoinColumns.Within c ls rs)
    (hl : p.1.length = ls.cols.length) (hr : p.2.length = rs.cols.length) (f : Found) :
    enter (fun rr => joinKey p.1 c.left = rr.joinKey
        && matchWhereCombined (p.1.map Value.toString ++ rr.vals) names (clauseOf q.wh))
      (fun rr => c.selected.map (combinedField (p.1.map Value.toString ++ rr.vals))) n f
      (rightRow c.right p.2)
    = enter (joinHolds names c q.wh) (fun p => c.selected.map (fun i => (printed p).getD i [])) n f
      p := by
  have hprinted : p.1.map Value.toString ++ p.2.map Value.toString = printed p :=
    List.map_append.symm
  have hlen : (printed p).length = names.length := by
    rw [printed, List.length_map, List.length_append, hl, hr, hnames]
  have hleft : joinKey p.1 c.left = (p.1.getD c.left default).toString := if_pos (hl ▸ hc.left)
  have hright : joinKey p.2 c.right = (p.2.getD c.right default).toString := if_pos (hr ▸ hc.right)
  have hhit : (decide (joinKey p.1 c.left = (rightRow c.right p.2).joinKey)
      && matchWhereCombined (p.1.map Value.toString ++ (rightRow c.right p.2).vals) names
        (clauseOf q.wh)) = joinHolds names c q.wh p := by
    rw [rightRow, hprinted, matchWhereCombined_test q.wh hlen, hleft, hright]
    rfl
  have hout : c.selected.map (combinedField (p.1.map Value.toString ++ (rightRow c.right p.2).vals))
      = c.selected.map (fun i => (printed p).getD i []) := by
    rw [rightRow, hprinted]
    refine List.map_congr_left (fun i hi => if_pos ?_)
    rw [hlen, hnames]
    exact hc.selected i hi
  refine enter_congr ?_ ?_ f
  · exact hhit
  · exact hout

/-- **The two scans of a join** are a loop over the pairs of rows. -/
theorem joinScans_pairs {names : List ByteString} {l r : MapTable} {n : ℤ}
    (hnames : names.length = l.schema.cols.length + r.schema.cols.length)
    (hlt : d q.table = some l) (hrt : d j.right = some r) (hl : l.Proper) (hr : r.Proper)
    (hc : JoinColumns.Within c l.schema r.schema) :
    Database.storage.joinScans (joinStmt q j n) names c.selected c.left c.right d
      = .ok (.ok (foldUntil (enter (joinHolds names c q.wh)
        (fun p => c.selected.map (fun i => (printed p).getD i [])) n) (l.list ×ˢ r.list)
          Found.none).2, d) := by
  -- the right table is kept in memory
  have hright : Database.storage.scan (joinStmt q j n).rightName (rightCallback c.right) [] d
      = .ok (.ok (r.rows.all.length, r.list.map (rightRow c.right)), d) := by
    refine (onTable_read hrt).trans ?_
    rw [visit_rightCallback]
    rfl
  -- the left table is scanned
  have hpairs : ∀ f, foldUntil (fun (f : Found) row => joinLoop names (clauseOf q.wh) n c.selected
        (joinKey row c.left) (row.map Value.toString) (r.list.map (rightRow c.right)) f) l.list f
      = foldUntil (enter (joinHolds names c q.wh)
        (fun p => c.selected.map (fun i => (printed p).getD i [])) n) (l.list ×ˢ r.list) f := by
    intro f
    simp only [joinLoop_eq_foldUntil, foldUntil_map]
    rw [← foldUntil_product]
    refine foldUntil_congr _ _ (fun lrow hlrow f => foldUntil_congr _ _ (fun rrow hrrow f => ?_))
    obtain ⟨x, hx, rfl⟩ := List.mem_map.mp hlrow
    obtain ⟨y, hy, rfl⟩ := List.mem_map.mp hrrow
    exact enter_pair (p := (x.2, y.2)) hnames hc (full_of_mem hl hx) (full_of_mem hr hy) f
  obtain ⟨k, hk⟩ : ∃ k, RowMap.visit (leftCallback names (clauseOf q.wh) n c.selected c.left
        (r.list.map (rightRow c.right))) l.rows.all 0 Found.none
      = .ok (k, (foldUntil (fun f row => joinLoop names (clauseOf q.wh) n c.selected
        (joinKey row c.left) (row.map Value.toString) (r.list.map (rightRow c.right)) f) l.list
        Found.none).2) := visit_eq_foldUntil _ _ _ (fun _ _ _ => rfl)
  rw [hpairs] at hk
  have hleft : Database.storage.scan (joinStmt q j n).leftName (leftCallback names
      (joinStmt q j n).wh (joinStmt q j n).limit c.selected c.left (r.list.map (rightRow c.right)))
      Found.none d = _ := (onTable_read hlt).trans (congrArg (fun v => Except.ok (v, d)) hk)
  rw [Storage.joinScans, bind_of_ok hright, bind_of_ok hleft]
  rfl

/-- **A join** reports its meaning. -/
theorem joinQuery_reports (hd : d.Proper) (hj : q.join = some j) :
    Reports d (joinQuery q j d) (Database.storage.runQuery q d) := by
  unfold Storage.runQuery joinQuery
  simp only [hj]
  rcases cap_eq q.limit with ⟨x, hlimit, hcap⟩ | ⟨n, hlimit, hcap⟩
  · rw [hlimit, hcap]
    exact .thrown x
  rw [hlimit, hcap, bind_of_ok (ofExcept_apply _ _), Except.ok_bind_eq, Storage.joinTables]
  cases hlt : d q.table with
  | none =>
    have hopen : Database.storage.openTable q.table none d = _ := Database.openTable_absent hlt
    rw [bind_of_throw hopen, tableOf_none hlt]
    exact .thrown (.runtimeError _)
  | some l =>
  have hopen : Database.storage.openTable q.table none d = _ := Database.openTable_of_some hlt
  rw [bind_of_ok hopen, tableOf_some hlt, Except.ok_bind_eq]
  cases hrt : d j.right with
  | none =>
    have hopen : Database.storage.openTable j.right none d = _ := Database.openTable_absent hrt
    rw [bind_of_throw hopen, tableOf_none hrt]
    exact .thrown (.runtimeError _)
  | some r =>
  have hopen : Database.storage.openTable j.right none d = _ := Database.openTable_of_some hrt
  rw [bind_of_ok hopen, tableOf_some hrt, Except.ok_bind_eq, bind_of_ok (schemaOf_some hlt),
    bind_of_ok (schemaOf_some hrt)]
  show Reports d _ (Database.storage.runJoin (joinStmt q j n) l.schema r.schema d)
  rcases runJoin_columns Database.storage q j n l.schema r.schema with
    ⟨res, herr, hcols, hrun⟩ | ⟨c, hcols, hc, hrun⟩
  · rw [hcols, hrun]
    exact .failed res herr
  have hscans := @joinScans_pairs d q j c _ l r n (length_joinedCols q.table j.right _ _)
    hlt hrt (hd _ _ hlt) (hd _ _ hrt) hc
  rw [hcols, hrun, Except.ok_bind_eq, bind_of_ok hscans, ← foldUntil_enter_none]
  exact .result _ rfl

end Join

/-! ## Statements -/

/-- A table is created in the database. -/
theorem perform_create (table : ByteString) (decls : List ColumnDecl) (d : Database) :
    Storage.answered (Database.storage.perform (.create table decls) d)
      = meaning (.create table decls) d := by
  rw [Storage.perform, meaning, create]
  cases h : d table with
  | some t =>
    have hopen : Database.storage.openTable table
      (some ⟨table, decls.map ColumnDecl.column⟩) d = _ := Database.openTable_of_some h
    rw [bind_of_ok hopen]
    rfl
  | none =>
    have hopen : Database.storage.openTable table
      (some ⟨table, decls.map ColumnDecl.column⟩) d = _ := Database.openTable_new h
    by_cases hfit : Schema.Fits ⟨table, decls.map ColumnDecl.column⟩
    · rw [if_pos hfit] at hopen
      simp only [if_pos hfit]
      rw [bind_of_ok hopen]
      rfl
    · rw [if_neg hfit] at hopen
      simp only [if_neg hfit]
      rw [bind_of_stop hopen]
      rfl

theorem perform_insert (st : InsertStmt) (d : Database) :
    Storage.answered (Database.storage.perform (.insert st) d) = meaning (.insert st) d := by
  rw [Storage.perform, meaning, insert]
  cases h : d st.table with
  | none =>
    have hopen : Database.storage.openTable st.table none d = _ := Database.openTable_absent h
    rw [bind_of_throw hopen, tableOf_none h]
    rfl
  | some t =>
    have hopen : Database.storage.openTable st.table none d = _ := Database.openTable_of_some h
    rw [bind_of_ok hopen, bind_of_ok (schemaOf_some h), tableOf_some h, Except.ok_bind_eq]
    cases insertedRow t.schema st.cols st.vals with
    | error x => rfl
    | ok row =>
      have hrow : Database.storage.insertRow st.table row d = _ := Database.onTable_of_some h
      rw [bind_of_ok (ofExcept_apply _ _), bind_of_ok hrow]
      rfl

section DeleteWhere

variable {name : ByteString} {pred : ℕ → Row → Except StdException Bool}

theorem deleteWhere_of_ok {rids : List ℕ} (h : d name = some t)
    (hm : RowMap.matching pred t.rows.all = .ok rids) : Database.storage.deleteWhere name pred d
      = .ok (.ok rids.length, Function.update d name
        (some { t with rows := rids.foldl RowMap.delete t.rows })) := by
  refine (Database.onTable_of_some h).trans ?_
  rw [hm]

/-- A predicate that throws deletes nothing. -/
theorem deleteWhere_of_error {x : StdException} (h : d name = some t)
    (hm : RowMap.matching pred t.rows.all = .error x) :
    Database.storage.deleteWhere name pred d = .ok (.error x, d) := by
  refine (Database.onTable_of_some h).trans ?_
  rw [hm]
  show Except.ok (Except.error x, Function.update d name (some t)) = _
  rw [← h, Function.update_eq_self]

end DeleteWhere

/-- **Deleting rowids** one by one. -/
theorem foldl_delete (rids : List ℕ) : ∀ a : RowMap, rids.foldl RowMap.delete a
    = ⟨a.next, fun k => if k ∈ rids then none else a.rows k⟩ := by
  induction rids with
  | nil => exact fun a => rfl
  | cons r rids ih =>
    intro a
    rw [List.foldl_cons, ih]
    refine congrArg (RowMap.mk a.next) (funext fun k => ?_)
    by_cases hr : k = r
    · subst hr
      simp [RowMap.rows_delete_self]
    · simp [RowMap.rows_delete_of_ne a hr, hr]

/-- **A deletion is a filter** on the table. -/
theorem deleted_eq_filter (ht : t.Proper) {pred : ℕ → Row → Except StdException Bool}
    {holds : Row → Bool} (hpred : ∀ x ∈ t.rows.all, pred x.1 x.2 = .ok (holds x.2)) :
    RowMap.matching pred t.rows.all
        = .ok ((t.rows.all.filter (fun x => holds x.2)).map Prod.fst)
      ∧ ((t.rows.all.filter (fun x => holds x.2)).map Prod.fst).foldl RowMap.delete t.rows
        = ⟨t.rows.next, fun k => (t.rows.rows k).filter (fun row => !holds row)⟩ := by
  have hhit : ∀ x ∈ t.rows.all, RowMap.hit pred x = holds x.2 := by
    intro x hx
    rw [RowMap.hit, hpred x hx]
  constructor
  · rcases RowMap.matching_cases pred t.rows.all with ⟨x, hx, e, he, -⟩ | ⟨-, hm⟩
    · rw [hpred x hx] at he
      cases he
    · rw [hm, List.filter_congr hhit]
  · rw [foldl_delete]
    refine congrArg (RowMap.mk t.rows.next) (funext fun k => ?_)
    cases hk : t.rows.rows k with
    | none => exact ite_self none
    | some row =>
      obtain ⟨h1, h2⟩ := ht.range k row hk
      have hmem : (k, row) ∈ t.rows.all := RowMap.mem_between.mpr ⟨h1, by omega, hk⟩
      have hiff : k ∈ (t.rows.all.filter (fun x => holds x.2)).map Prod.fst ↔ holds row = true := by
        rw [List.mem_map]
        constructor
        · rintro ⟨⟨k', row'⟩, hx, rfl⟩
          obtain ⟨hx, hrow'⟩ := List.mem_filter.mp hx
          have hsame := (RowMap.mem_between.mp hx).2.2
          rw [hk, Option.some.injEq] at hsame
          exact hsame ▸ hrow'
        · exact fun hrow => ⟨(k, row), List.mem_filter.mpr ⟨hmem, hrow⟩, rfl⟩
      cases hrow : holds row with
      | true =>
        rw [if_pos (hiff.mpr hrow), Option.filter_some, hrow]
        rfl
      | false =>
        rw [if_neg (fun h => Bool.false_ne_true (hrow.symm.trans (hiff.mp h))), Option.filter_some,
          hrow]
        rfl

/-- The rows deleted are counted. -/
theorem length_deleted (holds : Row → Bool) (t : MapTable) :
    ((t.rows.all.filter (fun x => holds x.2)).map Prod.fst).length = t.list.countP holds := by
  rw [List.length_map, ← List.countP_eq_length_filter, MapTable.list, List.countP_map]
  rfl

theorem perform_delete (hd : d.Proper) (table : ByteString) (wh : Option Predicate) :
    Storage.answered (Database.storage.perform (.delete table wh) d)
      = meaning (.delete table wh) d := by
  rw [Storage.perform, meaning, delete]
  cases h : d table with
  | none =>
    have hopen : Database.storage.openTable table none d = _ := Database.openTable_absent h
    rw [bind_of_throw hopen, tableOf_none h]
    rfl
  | some t =>
    have hopen : Database.storage.openTable table none d = _ := Database.openTable_of_some h
    rw [bind_of_ok hopen, bind_of_ok (schemaOf_some h), tableOf_some h, Except.ok_bind_eq, testOf]
    have ht := hd _ _ h
    have hfilter : ∀ holds : Row → Bool, (∀ x ∈ t.rows.all,
        matchWhere x.2 t.schema (clauseOf wh) = .ok (holds x.2)) →
        Database.storage.deleteWhere table (fun _ row => matchWhere row t.schema (clauseOf wh)) d
          = .ok (.ok (t.list.countP holds), Function.update d table (some { t with
            rows := ⟨t.rows.next, fun k => (t.rows.rows k).filter (fun row => !holds row)⟩ })) := by
      intro holds hholds
      obtain ⟨hmatch, hrows⟩ := @deleted_eq_filter t ht
        (fun _ row => matchWhere row t.schema (clauseOf wh)) holds hholds
      rw [deleteWhere_of_ok h hmatch, length_deleted, hrows]
    by_cases hnil : t.list = []
    · have hall : t.rows.all = [] := List.map_eq_nil_iff.mp hnil
      rw [if_pos hnil, bind_of_ok (hfilter (fun _ => false) (fun x hx => by
        rw [hall] at hx
        cases hx))]
      rfl
    rw [if_neg hnil]
    rcases matchWhere_cases t.schema wh with ⟨x, htest, hthrow⟩ | ⟨holds, htest, hholds⟩
    · -- the first row throws
      have hmatch : RowMap.matching (fun _ row => matchWhere row t.schema (clauseOf wh)) t.rows.all
          = .error x := by
        obtain ⟨y, rest, hall⟩ := List.exists_cons_of_ne_nil
          (fun he => hnil (List.map_eq_nil_iff.mpr he))
        rw [hall, RowMap.matching, hthrow y.2 (full_of_mem ht (hall ▸ List.mem_cons_self))]
        rfl
      rw [bind_of_throw (deleteWhere_of_error h hmatch), htest]
      rfl
    · rw [bind_of_ok (hfilter holds (fun x hx => hholds x.2 (full_of_mem ht hx))), htest]
      rfl

/-- A query changes nothing. -/
theorem perform_select (hd : d.Proper) (q : SelectStmt) :
    Storage.answered (Database.storage.perform (.select q) d) = meaning (.select q) d := by
  have hreports : Reports d (query q d) (Database.storage.runQuery q d) := by
    unfold query
    cases hj : q.join with
    | none => exact scanQuery_reports hd hj
    | some j => exact joinQuery_reports hd hj
  have hperform : Database.storage.perform (.select q) d
      = Routine.bind (Database.storage.runQuery q) (fun res => do
        if res.error ≠ [] then return ascii "Error: " ++ res.error
        else return prettyPrint res) d := rfl
  rw [hperform, Routine.bind, meaning]
  generalize query q d = m at hreports
  generalize Database.storage.runQuery q d = r at hreports
  cases hreports with
  | result res herr =>
    show Storage.answered ((if res.error ≠ [] then _ else _ : StorageM Database ByteString) d) = _
    rw [if_neg (not_not.mpr herr)]
    rfl
  | thrown x => rfl
  | failed res herr =>
    show Storage.answered ((if res.error ≠ [] then _ else _ : StorageM Database ByteString) d) = _
    rw [if_pos herr]
    rfl

/-- **A statement executed on maps** does what it means. -/
theorem perform_eq_meaning (hd : d.Proper) (st : Stmt) :
    Storage.answered (Database.storage.perform st d) = meaning st d := by
  cases st with
  | create table decls => exact perform_create table decls d
  | insert st => exact perform_insert st d
  | delete table wh => exact perform_delete hd table wh
  | select q => exact perform_select hd q

/-- A text, too. -/
theorem exec_eq_meaning (hd : d.Proper) {st : Stmt} {sql : ByteString} (h : Writes st sql) :
    Database.storage.exec sql d = meaning st d :=
  (Database.storage.exec_of_writes h d).trans (perform_eq_meaning hd st)

/-! ## Runs -/

theorem proper_empty : Database.empty.Proper := fun _ _ h => by cases h

theorem proper_update {name : ByteString} (hd : d.Proper) (ht : t.Proper) :
    Database.Proper (Function.update d name (some t)) := by
  intro other t' h
  by_cases hne : other = name
  · rw [hne, Function.update_self] at h
    exact Option.some.inj h ▸ ht
  · rw [Function.update_of_ne hne] at h
    exact hd other t' h

/-- A new row has the next rowid. -/
theorem proper_insert (ht : t.Proper) {row : Row} (hrow : row.length = t.schema.cols.length) :
    MapTable.Proper { t with rows := t.rows.insert row } := by
  have hcases : ∀ k row', (t.rows.insert row).rows k = some row' →
      k = t.rows.next ∧ row' = row ∨ t.rows.rows k = some row' := by
    intro k row' hk
    by_cases hnext : k = t.rows.next
    · rw [hnext, RowMap.rows_insert_self] at hk
      exact Or.inl ⟨hnext, (Option.some.inj hk).symm⟩
    · rw [RowMap.rows_insert_of_ne _ _ hnext] at hk
      exact Or.inr hk
  refine ⟨Nat.le_add_left 1 _, fun k row' hk => ?_, fun k row' hk => ?_⟩
  · show 1 ≤ k ∧ k < t.rows.next + 1
    rcases hcases k row' hk with ⟨rfl, -⟩ | hold
    · exact ⟨ht.next_pos, Nat.lt_succ_self _⟩
    · exact ⟨(ht.range k row' hold).1, Nat.lt_succ_of_lt (ht.range k row' hold).2⟩
  · rcases hcases k row' hk with ⟨-, rfl⟩ | hold
    · exact hrow
    · exact ht.full k row' hold

theorem proper_filter (ht : t.Proper) (keep : Row → Bool) :
    MapTable.Proper { t with rows := ⟨t.rows.next, fun k => (t.rows.rows k).filter keep⟩ } := by
  have hold : ∀ k row, (t.rows.rows k).filter keep = some row → t.rows.rows k = some row :=
    fun k row hk => (Option.filter_eq_some_iff.mp hk).1
  exact ⟨ht.next_pos, fun k row hk => ht.range k row (hold k row hk),
    fun k row hk => ht.full k row (hold k row hk)⟩

/-- **Statements keep the databases proper.** -/
theorem proper_meaning (hd : d.Proper) {st : Stmt} {answer : ByteString} {d' : Database}
    (h : meaning st d = .ok (answer, d')) : d'.Proper := by
  cases st with
  | create table decls =>
    obtain ⟨d₁, hcreate, h⟩ := Except.bind_eq_ok.mp h
    obtain ⟨-, rfl⟩ := Prod.mk.inj (Except.ok.inj h)
    unfold create at hcreate
    split at hcreate
    · exact Except.ok.inj hcreate ▸ hd
    · split at hcreate
      · rw [← Except.ok.inj hcreate]
        exact proper_update hd ⟨le_rfl, nofun, nofun⟩
      · cases hcreate
  | insert st =>
    obtain ⟨-, rfl⟩ := Prod.mk.inj (Except.ok.inj h)
    cases hins : insert st d with
    | error message => exact hd
    | ok r =>
      obtain ⟨t, ht, hins⟩ := Except.bind_eq_ok.mp hins
      obtain ⟨values, hvalues, hins⟩ := Except.bind_eq_ok.mp hins
      rw [← Except.ok.inj hins]
      rw [tableOf_eq_ok] at ht
      refine proper_update hd (proper_insert (hd _ _ ht) ?_)
      -- the row inserted has a value for each column
      cases hrow : insertedRow t.schema st.cols st.vals with
      | error x =>
        rw [hrow] at hvalues
        cases hvalues
      | ok row =>
        rw [hrow] at hvalues
        rw [← Except.ok.inj hvalues, Schema.columnValues, List.length_zipWith,
          (insertedRow_spec hrow).1, min_self]
  | delete table wh =>
    obtain ⟨-, rfl⟩ := Prod.mk.inj (Except.ok.inj h)
    cases hdel : delete table wh d with
    | error message => exact hd
    | ok r =>
      obtain ⟨t, ht, hdel⟩ := Except.bind_eq_ok.mp hdel
      obtain ⟨holds, -, hdel⟩ := Except.bind_eq_ok.mp hdel
      rw [← Except.ok.inj hdel]
      exact proper_update hd (proper_filter (hd _ _ (tableOf_eq_ok.mp ht)) _)
  | select q =>
    obtain ⟨-, rfl⟩ := Prod.mk.inj (Except.ok.inj h)
    cases query q d with
    | error message => exact hd
    | ok res => exact hd

/-- **A run of texts** is a run of the statements that they write. -/
theorem execAll_eq_meanings {stmts : List Stmt} {sqls : List ByteString} (hd : d.Proper)
    (h : List.Forall₂ Writes stmts sqls) :
    Database.execAll sqls d = runAll meaning stmts d := by
  induction h generalizing d with
  | nil => rfl
  | @cons st sql _ _ hw _ ih =>
    rw [Database.execAll, runAll_cons, runAll_cons, exec_eq_meaning hd hw]
    rcases hst : meaning st d with f | ⟨answer, d'⟩
    · rfl
    · have hrest := ih (proper_meaning hd hst)
      rw [Database.execAll] at hrest
      simp only [hrest]

end Semantics

/-! ## Sessions -/

/-- **A statement that creates no table** that a destructor loses. -/
def SqlEngine.Stmt.Storable : Stmt → Prop
  | .create _ decls => Table.ByteCounts (decls.map ColumnDecl.column)
  | .insert _ => True
  | .delete _ _ => True
  | .select _ => True

instance (st : Stmt) : Decidable st.Storable :=
  match st with
  | .create _ decls => inferInstanceAs (Decidable (Table.ByteCounts (decls.map ColumnDecl.column)))
  | .insert _ => inferInstanceAs (Decidable True)
  | .delete _ _ => inferInstanceAs (Decidable True)
  | .select _ => inferInstanceAs (Decidable True)

namespace Semantics

variable {d d' : Database}

theorem storable_update {name : ByteString} {mt : MapTable} (hd : d.Storable)
    (hmt : Table.ByteCounts mt.schema.cols) :
    Database.Storable (Function.update d name (some mt)) := by
  intro other mt' h
  by_cases hne : other = name
  · rw [hne, Function.update_self] at h
    exact Option.some.inj h ▸ hmt
  · rw [Function.update_of_ne hne] at h
    exact hd other mt' h

/-- The columns of a table are those it was created with. -/
theorem storable_meaning (hd : d.Storable) {st : Stmt} (hst : st.Storable) {answer : ByteString}
    (h : meaning st d = .ok (answer, d')) : d'.Storable := by
  cases st with
  | create table decls =>
    obtain ⟨d₁, hcreate, h⟩ := Except.bind_eq_ok.mp h
    obtain ⟨-, rfl⟩ := Prod.mk.inj (Except.ok.inj h)
    unfold create at hcreate
    split at hcreate
    · exact Except.ok.inj hcreate ▸ hd
    · split at hcreate
      · exact Except.ok.inj hcreate ▸ storable_update hd hst
      · cases hcreate
  | insert st =>
    obtain ⟨-, rfl⟩ := Prod.mk.inj (Except.ok.inj h)
    cases hins : insert st d with
    | error message => exact hd
    | ok r =>
      obtain ⟨t, ht, hins⟩ := Except.bind_eq_ok.mp hins
      obtain ⟨values, -, hins⟩ := Except.bind_eq_ok.mp hins
      rw [← Except.ok.inj hins]
      exact storable_update hd (hd st.table t (tableOf_eq_ok.mp ht))
  | delete table wh =>
    obtain ⟨-, rfl⟩ := Prod.mk.inj (Except.ok.inj h)
    cases hdel : delete table wh d with
    | error message => exact hd
    | ok r =>
      obtain ⟨t, ht, hdel⟩ := Except.bind_eq_ok.mp hdel
      obtain ⟨holds, -, hdel⟩ := Except.bind_eq_ok.mp hdel
      rw [← Except.ok.inj hdel]
      exact storable_update hd (hd table t (tableOf_eq_ok.mp ht))
  | select q =>
    obtain ⟨-, rfl⟩ := Prod.mk.inj (Except.ok.inj h)
    cases query q d with
    | error message => exact hd
    | ok res => exact hd

/-- **A run of statements** leaves tables that survive. -/
theorem storable_runAll {stmts : List Stmt} (hd : d.Storable) (hall : ∀ st ∈ stmts, st.Storable)
    (h : (runAll meaning stmts d).2 = .ok d') : d'.Storable :=
  runAll_keeps stmts (fun st hst _ _ _ hd hrun => storable_meaning hd (hall st hst) hrun) hd h

end Semantics
