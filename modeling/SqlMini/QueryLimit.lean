import SqlMini.LooseGrammar
import SqlMini.TableOwnership
import SqlMini.TableReach

/-!
# `LIMIT`

A query with `LIMIT n` is the query without it, cut after `n` rows. The limit
is tested once a row has been entered, so the callbacks of the two queries do
the same until the `n`-th row is in, and there the one with the limit stops its
scan (`Table.runs_scanFrom_cut`).

The test is `limit > 0 && returned >= limit`, and a statement without `LIMIT`
has the limit `-1`. So `LIMIT 0` is no limit at all: it returns every row. And
where the parser has left tokens behind what it took for the query, as in
`SELECT * FROM notes n`, it does not come to a `LIMIT` behind them
(`limitCuts_iff`).
-/

namespace SqlEngine

open Routine Table

/-- The state of a query that has entered less than `n` rows. -/
def Found.Short (n : ℕ) (f : Found) : Prop := f.returned = f.rows.length ∧ f.rows.length < n

/-- The state of a query cut after `n` rows, against the query that goes
on. -/
def Found.Cut (n : ℕ) (f' f : Found) : Prop := n ≤ f.rows.length ∧ f'.rows = f.rows.take n

variable {schema : Schema} {wh : WhereClause} {outIdx : List ℕ} {limit : ℤ} {f f' : Found} {n : ℕ}
  {names : List ByteString} {row : List ByteString}

/-- No limit below one stops a query. -/
theorem full_of_nonpos (h : limit ≤ 0) (f : Found) : f.full limit = false := by
  have h0 : ¬ 0 < limit := not_lt.mpr h
  simp [Found.full, h0]

theorem full_eq_true (h : 0 < limit) : f.full limit = true ↔ limit.toNat ≤ f.returned := by
  unfold Found.full
  rw [decide_eq_true_iff]
  omega

theorem Found.short_none (h : 0 < n) : Found.none.Short n := ⟨rfl, h⟩

theorem Found.Cut.add (h : Found.Cut n f' f) : Found.Cut n f' (f.add row) := by
  have hle : n ≤ f.rows.length := h.1
  refine ⟨?_, ?_⟩
  · show n ≤ (f.rows ++ [row]).length
    rw [List.length_append]
    omega
  · show f'.rows = (f.rows ++ [row]).take n
    rw [List.take_append_of_le_length hle]
    exact h.2

/-- **One more row**: the query goes on, or it is full and is cut here. -/
theorem Found.Short.add (h : f.Short limit.toNat) (row : List ByteString) (hlimit : 0 < limit) :
    (f.add row).full limit = false ∧ (f.add row).Short limit.toNat
      ∨ (f.add row).full limit = true ∧ Found.Cut limit.toNat (f.add row) (f.add row) := by
  obtain ⟨hret, hlt⟩ := h
  have hlen : (f.add row).rows.length = f.rows.length + 1 := List.length_append
  have hreturned : (f.add row).returned = f.rows.length + 1 := congrArg (· + 1) hret
  rcases Nat.lt_or_ge (f.rows.length + 1) limit.toNat with hgo | hstop
  · refine Or.inl ⟨?_, hreturned.trans hlen.symm, hlen ▸ hgo⟩
    rw [← Bool.not_eq_true, full_eq_true hlimit, hreturned]
    omega
  · refine Or.inr ⟨?_, hlen ▸ hstop, ?_⟩
    · rw [full_eq_true hlimit, hreturned]
      exact hstop
    · rw [List.take_of_length_le (by omega)]

/-- What has been entered at the end of a query with a limit. -/
theorem Found.take_of_cut (h : f.Short n ∧ f' = f ∨ Found.Cut n f' f) :
    f'.rows = f.rows.take n := by
  rcases h with ⟨hshort, rfl⟩ | hcut
  · exact (List.take_of_length_le (Nat.le_of_lt hshort.2)).symm
  · exact hcut.2

/-! ## A single table -/

/-- `LIMIT 0` is no limit. -/
theorem selectCallback_of_nonpos (h : limit ≤ 0) :
    selectCallback schema wh limit outIdx = selectCallback schema wh (-1) outIdx := by
  funext rid row f
  unfold selectCallback
  simp only [full_of_nonpos h, full_of_nonpos (show (-1 : ℤ) ≤ 0 by decide)]

/-- **The callback of `exec_select`** with a limit and without. -/
theorem selectCallback_cuts (hlimit : 0 < limit) :
    Callback.Cuts (selectCallback schema wh (-1) outIdx) (selectCallback schema wh limit outIdx)
      (Found.Short limit.toNat) (Found.Cut limit.toNat) := by
  have hfree := full_of_nonpos (show (-1 : ℤ) ≤ 0 by decide)
  refine ⟨?_, ?_⟩
  · intro rid row f b f₁ hf h
    unfold selectCallback at h ⊢
    rcases hm : matchWhere row schema wh with x | hit
    · rw [hm] at h
      cases h
    rw [hm] at h
    cases hit with
    | false =>
      obtain ⟨rfl, rfl⟩ := Prod.mk.inj (Except.ok.inj h)
      exact ⟨rfl, Or.inl ⟨rfl, hf⟩⟩
    | true =>
      obtain ⟨rfl, rfl⟩ := Prod.mk.inj (Except.ok.inj h)
      rw [hfree]
      have hscan : f.scanned.Short limit.toNat := hf
      rcases hscan.add (outIdx.map (field row)) hlimit with ⟨hgo, hshort⟩ | ⟨hstop, hcut⟩
      · refine ⟨rfl, Or.inl ⟨?_, hshort⟩⟩
        show Except.ok (!Found.full _ limit, _) = _
        rw [hgo]
        rfl
      · refine ⟨rfl, Or.inr ⟨_, ?_, hcut⟩⟩
        show Except.ok (!Found.full _ limit, _) = _
        rw [hstop]
        rfl
  · intro rid row f' f b f₁ hf h
    unfold selectCallback at h
    rcases hm : matchWhere row schema wh with x | hit
    · rw [hm] at h
      cases h
    rw [hm] at h
    cases hit with
    | false =>
      obtain ⟨rfl, rfl⟩ := Prod.mk.inj (Except.ok.inj h)
      exact ⟨rfl, hf⟩
    | true =>
      obtain ⟨rfl, rfl⟩ := Prod.mk.inj (Except.ok.inj h)
      rw [hfree]
      have hscan : Found.Cut limit.toNat f' f.scanned := hf
      exact ⟨rfl, Found.Cut.add hscan⟩

/-- A look-up by rowid finds one row at most. -/
theorem selectByRowid_rows {tname : ByteString} {e e' : Engine}
    (h : selectByRowid tname wh outIdx e = .ok (.ok f, e')) : f.rows.length ≤ 1 := by
  unfold selectByRowid at h
  obtain ⟨target, e₁, -, h⟩ := bind_eq_ok.mp h
  obtain ⟨found, e₂, -, h⟩ := bind_eq_ok.mp h
  cases found with
  | none =>
    obtain ⟨hf, -⟩ := Prod.mk.inj (Except.ok.inj h)
    rw [← Except.ok.inj hf]
    exact Nat.zero_le 1
  | some row =>
    obtain ⟨hf, -⟩ := Prod.mk.inj (Except.ok.inj h)
    rw [← Except.ok.inj hf]
    exact le_rfl

/-- **The scan of `exec_select`** with a limit. -/
theorem selectByScan_limit {tname : ByteString} {e e' : Engine} (hlimit : 0 < limit)
    (h : selectByScan tname schema wh (-1) outIdx e = .ok (.ok f, e')) :
    ∃ f' e'', selectByScan tname schema wh limit outIdx e = .ok (.ok f', e'')
      ∧ f'.rows = f.rows.take limit.toNat := by
  unfold selectByScan at h
  obtain ⟨r, e₁, hread, h⟩ := bind_eq_ok.mp h
  obtain ⟨t, s, s', hts, hrun, rfl⟩ := readTable_eq_ok hread
  obtain ⟨⟨k, fin⟩, e₂, hr, h⟩ := bind_eq_ok.mp h
  rw [ofExcept_apply] at hr
  obtain ⟨rfl, rfl⟩ := Prod.mk.inj (Except.ok.inj hr)
  obtain ⟨hf, -⟩ := Prod.mk.inj (Except.ok.inj h)
  obtain rfl := Except.ok.inj hf
  obtain ⟨r', s'', hrun', k', fin', rfl, hfin⟩ := runs_scanFrom_cut
    (selectCallback_cuts hlimit) _ 1 0 0 k Found.none fin s s' (Found.short_none (by omega)) hrun
  refine ⟨fin', e.put tname t s'', ?_, Found.take_of_cut hfin⟩
  unfold selectByScan
  rw [bind_of_ok (readTable_of_run hts hrun')]
  rfl

/-- **`exec_select`** with a limit. -/
theorem runSelect_limit {tname : ByteString} {selCols : Option (List ByteString)} {e e' : Engine}
    {res : SelectResult} (hlimit : 0 < limit) (herr : res.error = [])
    (h : runSelect tname schema selCols wh (-1) e = .ok (.ok res, e')) :
    ∃ res' e'', runSelect tname schema selCols wh limit e = .ok (.ok res', e'')
      ∧ res'.error = [] ∧ res'.cols = res.cols ∧ res'.rows = res.rows.take limit.toNat := by
  rcases runSelect_cases tname schema selCols wh with ⟨bad, hbad, hall⟩ | ⟨cols, outIdx, hall⟩
  · rw [hall] at h
    obtain ⟨hres, -⟩ := Prod.mk.inj (Except.ok.inj h)
    rw [← Except.ok.inj hres] at herr
    exact absurd herr hbad
  rw [hall] at h ⊢
  obtain ⟨f, e₁, hf, h⟩ := bind_eq_ok.mp h
  obtain ⟨hres, -⟩ := Prod.mk.inj (Except.ok.inj h)
  obtain rfl := Except.ok.inj hres
  by_cases hfast : fastPath schema wh = true
  · rw [if_pos hfast] at hf ⊢
    have hrows := selectByRowid_rows hf
    have htake : f.rows.take limit.toNat = f.rows := List.take_of_length_le (by omega)
    exact ⟨_, e₁, bind_of_ok hf, rfl, rfl, htake.symm⟩
  · rw [if_neg hfast] at hf ⊢
    obtain ⟨f', e₂, hf', htake⟩ := selectByScan_limit hlimit hf
    exact ⟨_, e₂, bind_of_ok hf', rfl, rfl, htake⟩

/-- `LIMIT 0` is no limit. -/
theorem runSelect_of_nonpos (h : limit ≤ 0) {tname : ByteString}
    {selCols : Option (List ByteString)} :
    runSelect tname schema selCols wh limit = runSelect tname schema selCols wh (-1) := by
  unfold runSelect selectByScan
  simp only [selectCallback_of_nonpos h]

/-! ## A join -/

section Join

variable {lkey : ByteString} {lvals : List ByteString} {rrs : List RightRow} {onLi : ℕ}

/-- `LIMIT 0` is no limit. -/
theorem joinLoop_of_nonpos (h : limit ≤ 0) : ∀ (rrs : List RightRow) (f : Found),
    joinLoop names wh limit outIdx lkey lvals rrs f = joinLoop names wh (-1) outIdx lkey lvals rrs f
  | [], _ => rfl
  | rr :: rrs, f => by
    have ih := joinLoop_of_nonpos h rrs
    simp only [joinLoop, full_of_nonpos h, full_of_nonpos (show (-1 : ℤ) ≤ 0 by decide), ih]

/-- **Without a limit** the inner loop runs to its end, and a query cut before
stays cut. -/
theorem joinLoop_rest : ∀ (rrs : List RightRow) (f : Found), Found.Cut n f' f →
    (joinLoop names wh (-1) outIdx lkey lvals rrs f).1 = true
      ∧ Found.Cut n f' (joinLoop names wh (-1) outIdx lkey lvals rrs f).2
  | [], _, h => ⟨rfl, h⟩
  | rr :: rrs, f, h => by
    have hscan : Found.Cut n f' f.scanned := h
    simp only [joinLoop, full_of_nonpos (show (-1 : ℤ) ≤ 0 by decide)]
    split
    case isTrue => exact joinLoop_rest rrs _ hscan
    case isFalse =>
      split
      case isTrue => exact joinLoop_rest rrs _ hscan
      case isFalse => exact joinLoop_rest rrs _ hscan.add

/-- **The inner loop** with a limit and without. -/
theorem joinLoop_cut (names : List ByteString) (wh : WhereClause) (outIdx : List ℕ)
    (lkey : ByteString) (lvals : List ByteString) (hlimit : 0 < limit) :
    ∀ (rrs : List RightRow) (f : Found),
    f.Short limit.toNat → (joinLoop names wh (-1) outIdx lkey lvals rrs f).1 = true
      ∧ (joinLoop names wh limit outIdx lkey lvals rrs f
            = joinLoop names wh (-1) outIdx lkey lvals rrs f
          ∧ (joinLoop names wh (-1) outIdx lkey lvals rrs f).2.Short limit.toNat
        ∨ ∃ f', joinLoop names wh limit outIdx lkey lvals rrs f = (false, f')
          ∧ Found.Cut limit.toNat f' (joinLoop names wh (-1) outIdx lkey lvals rrs f).2)
  | [], f, h => ⟨rfl, Or.inl ⟨rfl, h⟩⟩
  | rr :: rrs, f, h => by
    have hscan : f.scanned.Short limit.toNat := h
    simp only [joinLoop, full_of_nonpos (show (-1 : ℤ) ≤ 0 by decide)]
    split
    case isTrue => exact joinLoop_cut names wh outIdx lkey lvals hlimit rrs _ hscan
    case isFalse =>
      split
      case isTrue => exact joinLoop_cut names wh outIdx lkey lvals hlimit rrs _ hscan
      case isFalse =>
        rcases hscan.add (outIdx.map (combinedField (lvals ++ rr.vals))) hlimit with
          ⟨hgo, hshort⟩ | ⟨hstop, hcut⟩
        · rw [hgo]
          exact joinLoop_cut names wh outIdx lkey lvals hlimit rrs _ hshort
        · rw [hstop]
          exact ⟨(joinLoop_rest rrs _ hcut).1, Or.inr ⟨_, rfl, (joinLoop_rest rrs _ hcut).2⟩⟩

/-- **The callback of `exec_join`** with a limit and without. -/
theorem leftCallback_cuts (hlimit : 0 < limit) :
    Callback.Cuts (leftCallback names wh (-1) outIdx onLi rrs)
      (leftCallback names wh limit outIdx onLi rrs)
      (Found.Short limit.toNat) (Found.Cut limit.toNat) := by
  refine ⟨?_, ?_⟩
  · intro rid row f b f₁ hf h
    obtain ⟨rfl, rfl⟩ := Prod.mk.inj (Except.ok.inj h)
    obtain ⟨hgo, ⟨hsame, hshort⟩ | ⟨f', hstop, hcut⟩⟩ := joinLoop_cut names wh outIdx
      (joinKey row onLi) (row.map Value.toString) hlimit rrs f hf
    · refine ⟨hgo, Or.inl ⟨?_, hshort⟩⟩
      unfold leftCallback
      rw [hsame, ← hgo]
    · refine ⟨hgo, Or.inr ⟨f', ?_, hcut⟩⟩
      unfold leftCallback
      rw [hstop]
  · intro rid row f' f b f₁ hf h
    obtain ⟨rfl, rfl⟩ := Prod.mk.inj (Except.ok.inj h)
    exact joinLoop_rest rrs f hf

variable {q : JoinStmt} {ls rs : Schema} {onRi : ℕ} {e e' : Engine} {res : SelectResult}

/-- **The scans of a join** with a limit. -/
theorem joinScans_limit (hlimit : 0 < limit)
    (h : joinScans { q with limit := -1 } names outIdx onLi onRi e = .ok (.ok f, e')) :
    ∃ f' e'', joinScans { q with limit := limit } names outIdx onLi onRi e = .ok (.ok f', e'')
      ∧ f'.rows = f.rows.take limit.toNat := by
  unfold joinScans at h ⊢
  obtain ⟨r, e₁, hright, h⟩ := bind_eq_ok.mp h
  obtain ⟨right, e₂, hr, h⟩ := bind_eq_ok.mp h
  obtain ⟨l, e₃, hleft, h⟩ := bind_eq_ok.mp h
  obtain ⟨t, s, s', hts, hrun, rfl⟩ := readTable_eq_ok hleft
  obtain ⟨⟨k, fin⟩, e₄, hl, h⟩ := bind_eq_ok.mp h
  rw [ofExcept_apply] at hl
  obtain ⟨rfl, rfl⟩ := Prod.mk.inj (Except.ok.inj hl)
  obtain ⟨hf, -⟩ := Prod.mk.inj (Except.ok.inj h)
  obtain rfl := Except.ok.inj hf
  obtain ⟨r', s'', hrun', k', fin', rfl, hfin⟩ := runs_scanFrom_cut
    (leftCallback_cuts hlimit) _ 1 0 0 k Found.none fin s s' (Found.short_none (by omega)) hrun
  refine ⟨fin', e₂.put q.leftName t s'', ?_, Found.take_of_cut hfin⟩
  rw [bind_of_ok hright, bind_of_ok hr, bind_of_ok (readTable_of_run hts hrun')]
  rfl

/-- **`exec_join`** with a limit. -/
theorem runJoin_limit (hlimit : 0 < limit) (herr : res.error = [])
    (h : runJoin { q with limit := -1 } ls rs e = .ok (.ok res, e')) :
    ∃ res' e'', runJoin { q with limit := limit } ls rs e = .ok (.ok res', e'')
      ∧ res'.error = [] ∧ res'.cols = res.cols ∧ res'.rows = res.rows.take limit.toNat := by
  rcases runJoin_cases q ls rs with ⟨bad, hbad, hall⟩ | ⟨outIdx, onLi, onRi, hl, hr, hsel⟩
  · rw [hall] at h
    obtain ⟨hres, -⟩ := Prod.mk.inj (Except.ok.inj h)
    rw [← Except.ok.inj hres] at herr
    exact absurd herr hbad
  rw [runJoin_of_columns (q := { q with limit := -1 }) hl hr hsel] at h
  rw [runJoin_of_columns (q := { q with limit := limit }) hl hr hsel]
  obtain ⟨f, e₁, hf, h⟩ := bind_eq_ok.mp h
  obtain ⟨hres, -⟩ := Prod.mk.inj (Except.ok.inj h)
  obtain rfl := Except.ok.inj hres
  obtain ⟨f', e₂, hf', htake⟩ := joinScans_limit hlimit hf
  exact ⟨_, e₂, bind_of_ok hf', rfl, rfl, htake⟩

theorem joinTables_limit (hlimit : 0 < limit) (herr : res.error = [])
    (h : joinTables { q with limit := -1 } e = .ok (.ok res, e')) :
    ∃ res' e'', joinTables { q with limit := limit } e = .ok (.ok res', e'')
      ∧ res'.error = [] ∧ res'.cols = res.cols ∧ res'.rows = res.rows.take limit.toNat := by
  unfold joinTables at h ⊢
  obtain ⟨_, e₁, h₁, h⟩ := bind_eq_ok.mp h
  obtain ⟨_, e₂, h₂, h⟩ := bind_eq_ok.mp h
  obtain ⟨ls, e₃, h₃, h⟩ := bind_eq_ok.mp h
  obtain ⟨rs, e₄, h₄, h⟩ := bind_eq_ok.mp h
  obtain ⟨res', e'', hrun, hres⟩ := runJoin_limit hlimit herr h
  refine ⟨res', e'', ?_, hres⟩
  rw [bind_of_ok h₁, bind_of_ok h₂, bind_of_ok h₃, bind_of_ok h₄]
  exact hrun

/-- `LIMIT 0` is no limit. -/
theorem joinTables_of_nonpos (h : limit ≤ 0) (q : JoinStmt) :
    joinTables { q with limit := limit } = joinTables { q with limit := -1 } := by
  have hcb : ∀ names outIdx onLi rrs, leftCallback names q.wh limit outIdx onLi rrs
      = leftCallback names q.wh (-1) outIdx onLi rrs := by
    intro names outIdx onLi rrs
    funext rid row f
    exact congrArg Except.ok (joinLoop_of_nonpos h _ _)
  have hrun : ∀ ls rs, runJoin { q with limit := limit } ls rs
      = runJoin { q with limit := -1 } ls rs := by
    intro ls rs
    rcases runJoin_cases q ls rs with ⟨bad, -, hall⟩ | ⟨outIdx, onLi, onRi, hl, hr, hsel⟩
    · funext e
      rw [hall, hall]
    · rw [runJoin_of_columns (q := { q with limit := limit }) hl hr hsel,
        runJoin_of_columns (q := { q with limit := -1 }) hl hr hsel]
      simp only [joinScans, hcb]
      rfl
  simp only [joinTables, hrun]

end Join

/-! ## Queries -/

section Queries

variable {q : SelectStmt} {toks rest : List ByteString} {kw lit : ByteString} {m : CInt}
  {e e' : Engine} {res : SelectResult}

/-- A number does not spell `JOIN`. -/
theorem not_keyword_of_stoi (h : CppString.stoi lit = .ok m) : ¬ Keyword "JOIN" lit := by
  intro hkw
  have hj : ∀ c : UInt8, toUpperByte c = 74 → c = 74 ∨ c = 106 := by
    intro c hc
    unfold toUpperByte at hc
    split at hc
    case isTrue =>
      have h32 : c - 32 + 32 = 74 + 32 := congrArg (· + 32) hc
      exact Or.inr (by simpa using h32)
    case isFalse => exact Or.inl hc
  cases lit with
  | nil => cases hkw
  | cons c rest =>
    rcases hj c (List.cons.inj hkw).1 with rfl | rfl
    · cases h
    · cases h

/-- **The rows of `Q LIMIT n`** are a prefix of the rows `res` of `Q`: both
statements run on the same engine, and `toks` are the tokens of the second. -/
def LimitCuts (toks : List ByteString) (e : Engine) (res : SelectResult) (n : ℕ) : Prop :=
  ∃ res' e', effect execQuery toks e = .ok (.ok res', e') ∧ res'.error = [] ∧ res'.cols = res.cols
    ∧ res'.rows = res.rows.take n

theorem hasJoin_limited (hkw : Keyword "LIMIT" kw) (hlit : CppString.stoi lit = .ok m) :
    hasJoin (toks ++ [kw, lit]) = hasJoin toks := by
  have h₁ : spells (ascii "JOIN") kw = false := spells_eq_false.mpr (hkw.ne (by decide))
  have h₂ : spells (ascii "JOIN") lit = false := spells_eq_false.mpr (not_keyword_of_stoi hlit)
  rw [hasJoin_append]
  simp [hasJoin, h₁, h₂]

theorem runQuery_limit (hlimit : 0 < limit) (herr : res.error = [])
    (h : runQuery q (.ok (-1)) e = .ok (.ok res, e')) :
    ∃ res' e'', runQuery q (.ok limit) e = .ok (.ok res', e'') ∧ res'.error = []
      ∧ res'.cols = res.cols ∧ res'.rows = res.rows.take limit.toNat := by
  rcases q with ⟨items, table, join, wh, l⟩
  cases join with
  | none =>
    simp only [runQuery] at h ⊢
    obtain ⟨_, e₁, h₁, h⟩ := bind_eq_ok.mp h
    obtain ⟨schema, e₂, h₂, h⟩ := bind_eq_ok.mp h
    obtain ⟨res', e'', hrun, hres⟩ := runSelect_limit hlimit herr h
    refine ⟨res', e'', ?_, hres⟩
    rw [bind_of_ok h₁, bind_of_ok h₂]
    exact hrun
  | some j =>
    exact joinTables_limit (q := ⟨items, table, j.right, j.onLeft, j.onRight, clauseOf wh, 0⟩)
      hlimit herr h

/-- `LIMIT 0` is no limit. -/
theorem runQuery_of_nonpos (h : limit ≤ 0) : runQuery q (.ok limit) = runQuery q (.ok (-1)) := by
  rcases q with ⟨items, table, join, wh, l⟩
  cases join with
  | none =>
    have hrun : ∀ schema, runSelect table schema items (clauseOf wh) limit
        = runSelect table schema items (clauseOf wh) (-1) := fun schema => runSelect_of_nonpos h
    funext e
    simp only [runQuery]
    refine congrFun (congrArg (Routine.bind _) ?_) e
    funext _ e
    refine congrFun (congrArg (Routine.bind _) ?_) e
    funext schema e
    exact congrFun (hrun schema) e
  | some j =>
    exact joinTables_of_nonpos h ⟨items, table, j.right, j.onLeft, j.onRight, clauseOf wh, 0⟩

/-! ### What is read of a query -/

/-- **A query as it is read** up to where a `LIMIT` may stand: the tokens
`rest` are behind that place. -/
inductive ReadQuery : SelectStmt → (toks rest : List ByteString) → Prop
  | table {select frm : ByteString} {items : Option (List ByteString)} {p : Option Predicate}
      {ts ts₁ rest : List ByteString} (hjoins : hasJoin (select :: ts) = false)
      (hselect : Keyword "SELECT" select) (name : ByteString)
      (hitems : ReadItems items ts (frm :: name :: ts₁)) (hfrom : Keyword "FROM" frm)
      (hwhere : ReadWhere (clauseOf p) ts₁ rest) :
      ReadQuery ⟨items, name, none, p, none⟩ (select :: ts) rest
  | join {select frm join on eq : ByteString} {items : Option (List ByteString)}
      {p : Option Predicate} {ts ts₁ ts₂ rest : List ByteString}
      (hjoins : hasJoin (select :: ts) = true) (hselect : Keyword "SELECT" select)
      (left : ByteString)
      (hitems : ReadItems items ts (frm :: left :: ts₁)) (hfrom : Keyword "FROM" frm) (j : JoinPart)
      (hinner : ReadIf (spells (ascii "INNER")) ts₁
        (join :: j.right :: on :: j.onLeft :: eq :: j.onRight :: ts₂))
      (hjoin : Keyword "JOIN" join) (hon : Keyword "ON" on) (heq : Keyword "=" eq)
      (hwhere : ReadWhere (clauseOf p) ts₂ rest) :
      ReadQuery ⟨items, left, some j, p, none⟩ (select :: ts) rest

/-- **A query that is read** is run with the limit behind it. -/
theorem effect_execQuery_of_read {limit : ℤ} {rest' : List ByteString} (h : ReadQuery q toks rest)
    (hlimit : ReadLimit limit rest rest') (e : Engine) :
    effect execQuery toks e = runQuery q (.ok limit) e := by
  rw [effect_execQuery]
  cases h with
  | table hjoins hselect name hitems hfrom hwhere =>
    rw [hjoins]
    exact effect_execSelect_of_read (.mk hselect name hitems hfrom hwhere hlimit) e
  | join hjoins hselect left hitems hfrom j hinner hjoin hon heq hwhere =>
    rw [hjoins]
    exact effect_execJoin_of_read
      (.mk hselect left hitems hfrom _ _ _ hinner hjoin hon heq hwhere hlimit) e

theorem ReadWhere.exists_predicate {wh : WhereClause} {ts : List ByteString}
    (h : ReadWhere wh ts rest) : ∃ p, wh = clauseOf p := by
  cases h with
  | absent hno => exact ⟨none, rfl⟩
  | clause hkw col op val => exact ⟨some ⟨col, op, val⟩, rfl⟩

/-- **Every query that succeeds** is read. -/
theorem exists_readQuery (hrun : effect execQuery toks e = .ok (.ok res, e')) :
    ∃ q rest, ReadQuery q toks rest := by
  rw [effect_execQuery] at hrun
  have hreturns : ∀ {m : ExecM SelectResult}, effect m toks e = .ok (.ok res, e') →
      Returns m ⟨toks, e⟩ (fun _ _ => True) := by
    intro m hm
    unfold effect at hm
    rcases hst : m ⟨toks, e⟩ with f | ⟨r, st⟩
    · rw [hst] at hm
      cases hm
    · rw [hst] at hm
      obtain ⟨rfl, -⟩ := Prod.mk.inj (Except.ok.inj hm)
      exact ⟨res, st, hst, trivial⟩
  cases hjoins : hasJoin toks with
  | false =>
    rw [hjoins] at hrun
    obtain ⟨items, table, wh, n, hread, -⟩ := returns_execSelect.mp (hreturns hrun)
    cases hread with
    | mk hselect table hitems hfrom hwhere hlimit =>
      obtain ⟨p, rfl⟩ := hwhere.exists_predicate
      exact ⟨_, _, .table hjoins hselect table hitems hfrom hwhere⟩
  | true =>
    rw [hjoins] at hrun
    obtain ⟨q, hread, -⟩ := returns_execJoin.mp (hreturns hrun)
    cases hread with
    | mk hselect left hitems hfrom right onLeft onRight hinner hjoin hon heq hwhere hlimit =>
      obtain ⟨p, rfl⟩ := hwhere.exists_predicate
      exact ⟨_, _, .join hjoins hselect left hitems hfrom ⟨right, onLeft, onRight⟩ hinner hjoin hon
        heq hwhere⟩

/-- **More tokens behind a query** are behind what is read of it. -/
theorem ReadQuery.append {us : List ByteString} (h : ReadQuery q toks rest)
    (hjoins : hasJoin (toks ++ us) = hasJoin toks) (hus : ∀ t ∈ us.head?, ¬ Keyword "WHERE" t) :
    ReadQuery q (toks ++ us) (rest ++ us) := by
  cases h with
  | table hjoin hselect name hitems hfrom hwhere =>
    exact .table (hjoins.trans hjoin) hselect name (hitems.append us (List.cons_ne_nil _ _)) hfrom
      (hwhere.append hus)
  | join hjoin hselect left hitems hfrom j hinner hkw hon heq hwhere =>
    exact .join (hjoins.trans hjoin) hselect left (hitems.append us (List.cons_ne_nil _ _)) hfrom j
      (hinner.append us (List.cons_ne_nil _ _)) hkw hon heq (hwhere.append hus)

/-! ### The query with a limit -/

theorem Keyword.not_keyword_of_limit (hkw : Keyword "LIMIT" kw) :
    ∀ t ∈ [kw, lit].head?, ¬ Keyword "WHERE" t :=
  fun _ ht => Option.some.inj ht ▸ hkw.ne (by decide)

/-- **The limit** is read where the query left no tokens. -/
theorem effect_limited (h : ReadQuery q toks []) (hkw : Keyword "LIMIT" kw)
    (hlit : CppString.stoi lit = .ok m) (e : Engine) :
    effect execQuery (toks ++ [kw, lit]) e = runQuery q (.ok m.val) e :=
  effect_execQuery_of_read (h.append (hasJoin_limited hkw hlit) hkw.not_keyword_of_limit)
    (.clause hkw hlit []) e

/-- **No limit** is read behind tokens that are left over. -/
theorem effect_unlimited (h : ReadQuery q toks rest) (hrest : rest ≠ [])
    (hno : ∀ t ∈ rest.head?, ¬ Keyword "LIMIT" t) (hkw : Keyword "LIMIT" kw)
    (hlit : CppString.stoi lit = .ok m) (e : Engine) :
    effect execQuery (toks ++ [kw, lit]) e = effect execQuery toks e := by
  have hno' : ∀ t ∈ (rest ++ [kw, lit]).head?, ¬ Keyword "LIMIT" t := by
    rwa [List.head?_append_of_ne_nil _ hrest]
  rw [effect_execQuery_of_read h (.absent hno), effect_execQuery_of_read
    (h.append (hasJoin_limited hkw hlit) hkw.not_keyword_of_limit) (.absent hno')]

/-- The rows of a statement, cut or not. -/
theorem limitCuts_of_run {toks' : List ByteString} {res' : SelectResult} {e'' : Engine} {n : ℕ}
    (hrun : effect execQuery toks' e = .ok (.ok res', e'')) (herr : res'.error = [])
    (hcols : res'.cols = res.cols) : LimitCuts toks' e res n ↔ res'.rows = res.rows.take n := by
  constructor
  · rintro ⟨r, e₁, hr, -, -, hrows⟩
    rw [hrun] at hr
    obtain rfl := Except.ok.inj (Prod.mk.inj (Except.ok.inj hr)).1
    exact hrows
  · exact fun hrows => ⟨res', e'', hrun, herr, hcols, hrows⟩

/-- **A query read to its end** is cut by every limit but `0`, which returns
every row. -/
theorem limitCuts_of_read (h : ReadQuery q toks [])
    (hrun : effect execQuery toks e = .ok (.ok res, e')) (herr : res.error = [])
    (hkw : Keyword "LIMIT" kw) (hlit : CppString.stoi lit = .ok m) (hm : 0 ≤ m.val) :
    LimitCuts (toks ++ [kw, lit]) e res m.val.toNat ↔ m.val ≠ 0 ∨ res.rows = [] := by
  have hfree := hrun
  rw [effect_execQuery_of_read h (.absent (by simp))] at hfree
  have hlimited := effect_limited h hkw hlit e
  rcases lt_or_eq_of_le hm with hpos | hzero
  · obtain ⟨res', e'', hcut, herr', hcols, hrows⟩ := runQuery_limit hpos herr hfree
    rw [limitCuts_of_run (hlimited.trans hcut) herr' hcols]
    exact iff_of_true hrows (Or.inl (ne_of_gt hpos))
  · rw [runQuery_of_nonpos (le_of_eq hzero.symm), hfree] at hlimited
    rw [limitCuts_of_run hlimited herr rfl, ← hzero]
    exact ⟨Or.inr, fun hor => hor.resolve_left (not_not.mpr rfl)⟩

/-- **A query with tokens left over** returns every row, whatever the limit. -/
theorem limitCuts_of_rest (h : ReadQuery q toks rest) (hrest : rest ≠ [])
    (hno : ∀ t ∈ rest.head?, ¬ Keyword "LIMIT" t)
    (hrun : effect execQuery toks e = .ok (.ok res, e')) (herr : res.error = [])
    (hkw : Keyword "LIMIT" kw) (hlit : CppString.stoi lit = .ok m) {n : ℕ} :
    LimitCuts (toks ++ [kw, lit]) e res n ↔ res.rows.length ≤ n := by
  rw [limitCuts_of_run ((effect_unlimited h hrest hno hkw hlit e).trans hrun) herr rfl, eq_comm]
  exact List.take_eq_self_iff _

/-- **`LIMIT n` is a prefix** of a query without `LIMIT` that succeeds, where
the query is read to its end, for every `n` but `0`, which is no limit at all
and returns all rows. Where tokens are left over no limit is read. -/
theorem limitCuts_iff (hrun : effect execQuery toks e = .ok (.ok res, e')) (herr : res.error = [])
    (hkw : Keyword "LIMIT" kw) (hlit : CppString.stoi lit = .ok m) (hm : 0 ≤ m.val) :
    (∃ q rest, ReadQuery q toks rest) ∧ ∀ q rest, ReadQuery q toks rest →
      (∀ t ∈ rest.head?, ¬ Keyword "LIMIT" t) →
        (LimitCuts (toks ++ [kw, lit]) e res m.val.toNat
          ↔ rest = [] ∧ (m.val ≠ 0 ∨ res.rows = [])
            ∨ rest ≠ [] ∧ res.rows.length ≤ m.val.toNat) := by
  refine ⟨exists_readQuery hrun, fun q rest h hno => ?_⟩
  by_cases hrest : rest = []
  · subst hrest
    rw [limitCuts_of_read h hrun herr hkw hlit hm]
    simp
  · rw [limitCuts_of_rest h hrest hno hrun herr hkw hlit]
    simp [hrest]

end Queries

/-! ## A table of notes -/

section Notes

open Table

/-- A query for notes. -/
def noteQuery (p : Option Predicate) : SelectStmt := ⟨none, ascii "notes", none, p, none⟩

variable {p : Option Predicate} {toks rest : List ByteString}

/-- A query for notes is read, and what follows it is left. -/
theorem readQuery_notes {wheres rest : List ByteString}
    (hjoins : hasJoin (ascii "SELECT" :: ascii "*" :: ascii "FROM" :: ascii "notes" :: wheres)
      = false)
    (hwhere : ReadWhere (clauseOf p) wheres rest) : ReadQuery (noteQuery p)
      (ascii "SELECT" :: ascii "*" :: ascii "FROM" :: ascii "notes" :: wheres) rest :=
  .table hjoins (show Keyword "SELECT" (ascii "SELECT") from rfl) (ascii "notes") (.star _)
    (show Keyword "FROM" (ascii "FROM") from rfl) hwhere

/-- A query for notes, executed on a table of notes. -/
theorem effect_noteQuery {a : RowMap} {m : ℕ → Option ℕ} {t : Table} {s : Store} {e : Engine}
    (hread : ReadQuery (noteQuery p) toks rest) (hno : ∀ t ∈ rest.head?, ¬ Keyword "LIMIT" t)
    (hts : e.tables (ascii "notes") = some (t, s)) (h : Stands a m t s) (hschema : t.schema = notes)
    {k : ℕ} {f : Found} (hvisit : RowMap.visit (selectCallback notes (clauseOf p) (-1) [0])
      a.all 0 Found.none = .ok (k, f)) :
    ∃ e', effect execQuery toks e = .ok (.ok ⟨[ascii "body"], f.rows, [], f.rowsScanned⟩, e') := by
  obtain ⟨s', hscan, -⟩ := readTable_scan hts h (selectCallback notes (clauseOf p) (-1) [0])
    Found.none
  rw [hvisit] at hscan
  refine ⟨e.put (ascii "notes") t s', ?_⟩
  rw [effect_execQuery_of_read hread (.absent hno)]
  have hopen : openTable (ascii "notes") none e = .ok (.ok (), e) := openTable_of_open hts
  have hsch := schemaOf_of_open hts
  rw [hschema] at hsch
  have hfound : selectByScan (ascii "notes") notes (clauseOf p) (-1) [0] e
      = .ok (.ok f, e.put (ascii "notes") t s') := (bind_of_ok hscan).trans rfl
  have htext : (notes.cols.getD 0 default).type ≠ .int := by decide
  have hfast : fastPath notes (clauseOf p) = false :=
    decide_eq_false (fun hkey => htext hkey.2.2.2.1)
  have hrun : runSelect (ascii "notes") notes none (clauseOf p) (-1) e
      = .ok (.ok ⟨[ascii "body"], f.rows, [], f.rowsScanned⟩, e.put (ascii "notes") t s') := by
    unfold runSelect
    simp only [hfast]
    exact (bind_of_ok hfound).trans rfl
  exact (bind_of_ok hopen).trans ((bind_of_ok hsch).trans hrun)

/-- A table with the notes given. -/
theorem exists_notes (bodies : List ByteString) (hfew : bodies.length ≤ 510)
    (hshort : ∀ body ∈ bodies, body.length ≤ 4086) :
    ∃ m t s, Stands (rowsOf notes (bodies.map (fun body => [.makeText body]))) m t s
      ∧ t.schema = notes := by
  have hlen : ∀ body : ByteString,
      (serializeRow notes [.makeText body]).length = 2 + body.length := by
    intro body
    simp [serializeRow, notes, fieldBytes, Value.makeText]
  let ok : Row → Prop := fun row => ∃ body : ByteString, row = [.makeText body] ∧ body.length ≤ 4086
  have hok : ∀ row, ok row → row.length = notes.cols.length
      ∧ (serializeRow notes row).length ≤ 65535 := by
    rintro row ⟨body, rfl, hbody⟩
    exact ⟨rfl, by rw [hlen]; omega⟩
  obtain ⟨t, s, h, -, hnext⟩ := exists_reached_rows hok notes_fits
    (bodies.map (fun body => [.makeText body])) (by
      intro row hrow
      obtain ⟨body, hmem, rfl⟩ := List.mem_map.mp hrow
      have hbody := hshort body hmem
      exact ⟨⟨body, rfl, hbody⟩, by rw [hlen]; omega⟩) (by rwa [List.length_map])
  rw [List.length_map] at hnext
  obtain ⟨⟨m, hm⟩, hschema, -⟩ := h.stands hok (by omega)
  exact ⟨m, t, s, hm, hschema⟩

/-- Of the notes `b`, `a`, `b` two are `b`, and `LIMIT 1` cuts them. -/
theorem limitCuts_iff_notes : ∃ t s res e',
    effect execQuery (tokenize (ascii "SELECT * FROM notes WHERE body = 'b'"))
        (Engine.single (ascii "notes") t s) = .ok (.ok res, e')
      ∧ res.rows = [[ascii "b"], [ascii "b"]]
      ∧ LimitCuts (tokenize (ascii "SELECT * FROM notes WHERE body = 'b'")
          ++ [ascii "LIMIT", ascii "1"]) (Engine.single (ascii "notes") t s) res 1 := by
  obtain ⟨m, t, s, h, hschema⟩ := exists_notes [ascii "b", ascii "a", ascii "b"] (by decide)
    (by decide)
  have hread : ReadQuery (noteQuery (some ⟨ascii "body", ascii "=", ascii "b"⟩))
      (tokenize (ascii "SELECT * FROM notes WHERE body = 'b'")) [] :=
    readQuery_notes (by decide) (.clause (by decide) _ _ _ _)
  obtain ⟨e', hrun⟩ := effect_noteQuery (k := 3) (f := ⟨[[ascii "b"], [ascii "b"]], 3, 2⟩) hread
    (by simp) single_tables_self h hschema rfl
  refine ⟨t, s, _, e', hrun, rfl, ?_⟩
  exact ((limitCuts_iff hrun rfl (show Keyword "LIMIT" (ascii "LIMIT") from rfl)
    (show CppString.stoi (ascii "1") = .ok ⟨1, by decide⟩ from rfl) (by decide)).2 _ _ hread
      (by simp)).mpr (Or.inl ⟨rfl, Or.inl (by decide)⟩)

/-- **Of one note `LIMIT 0` returns one**, and of two notes `LIMIT 1` returns
two where a token is left over before it. -/
theorem not_limitCuts :
    (∃ t s res e', effect execQuery (tokenize (ascii "SELECT * FROM notes"))
        (Engine.single (ascii "notes") t s) = .ok (.ok res, e')
      ∧ res.error = [] ∧ ¬ LimitCuts
        (tokenize (ascii "SELECT * FROM notes") ++ tokenize (ascii "LIMIT 0"))
        (Engine.single (ascii "notes") t s) res 0)
    ∧ ∃ t s res e', effect execQuery (tokenize (ascii "SELECT * FROM notes n"))
        (Engine.single (ascii "notes") t s) = .ok (.ok res, e')
      ∧ res.error = [] ∧ ¬ LimitCuts
        (tokenize (ascii "SELECT * FROM notes n") ++ tokenize (ascii "LIMIT 1"))
        (Engine.single (ascii "notes") t s) res 1 := by
  constructor
  · obtain ⟨m, t, s, h, hschema⟩ := exists_notes [ascii "a"] (by decide) (by decide)
    have hread : ReadQuery (noteQuery none) (tokenize (ascii "SELECT * FROM notes")) [] :=
      readQuery_notes (by decide) (show ReadWhere _ [] [] from .absent no_keyword_nil)
    obtain ⟨e', hrun⟩ := effect_noteQuery (k := 1) (f := ⟨[[ascii "a"]], 1, 1⟩) hread
      (by simp) single_tables_self h hschema rfl
    refine ⟨t, s, _, e', hrun, rfl, fun hcut => ?_⟩
    rcases (limitCuts_of_read hread hrun rfl (show Keyword "LIMIT" (ascii "LIMIT") from rfl)
      (show CppString.stoi (ascii "0") = .ok ⟨0, by decide⟩ from rfl) le_rfl).mp hcut
        with hz | hrows
    · exact hz rfl
    · cases hrows
  · obtain ⟨m, t, s, h, hschema⟩ := exists_notes [ascii "a", ascii "b"] (by decide) (by decide)
    have hread : ReadQuery (noteQuery none) (tokenize (ascii "SELECT * FROM notes n"))
        [ascii "n"] := readQuery_notes (by decide) (.absent (by decide))
    have hno : ∀ t ∈ [ascii "n"].head?, ¬ Keyword "LIMIT" t := by decide
    obtain ⟨e', hrun⟩ := effect_noteQuery (k := 2) (f := ⟨[[ascii "a"], [ascii "b"]], 2, 2⟩) hread
      hno single_tables_self h hschema rfl
    refine ⟨t, s, _, e', hrun, rfl, fun hcut => ?_⟩
    have hle := (limitCuts_of_rest hread (List.cons_ne_nil _ _) hno hrun rfl
      (show Keyword "LIMIT" (ascii "LIMIT") from rfl)
      (show CppString.stoi (ascii "1") = .ok ⟨1, by decide⟩ from rfl)).mp hcut
    exact absurd hle (by decide)

end Notes

end SqlEngine
