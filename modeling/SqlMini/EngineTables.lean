import SqlMini.Engine
import SqlMini.TableMap

/-!
# Calls on the tables of the engine

An executor opens a table by its name and then calls it. Here is what such a
call does to the engine, in terms of what the table does to its pages. A table
that is open already is left as it is by opening it (`openTable_of_open`).

`Callback.Cuts` compares two scans of which the second may stop early: up to
where it stops the callbacks do the same.
-/

/-- **The engine after a call** on the table of that name. -/
def Engine.put (e : Engine) (name : ByteString) (t : Table) (s : Store) : Engine :=
  { e with tables := Function.update e.tables name (some (t, s)) }

/-- An engine with one table open, and no files. -/
def Engine.single (name : ByteString) (t : Table) (s : Store) : Engine :=
  ⟨Function.update (fun _ => none) name (some (t, s)), fun _ => PageFile.empty⟩

namespace SqlEngine

open Routine PageProg

variable {α β σ : Type} {name : ByteString} {e e' : Engine} {t t' : Table} {s s' : Store} {a : α}

@[simp] theorem put_tables_self : (e.put name t s).tables name = some (t, s) :=
  Function.update_self _ _ _

theorem put_tables_of_ne {other : ByteString} (h : other ≠ name) :
    (e.put name t s).tables other = e.tables other :=
  Function.update_of_ne h _ _

theorem single_tables_self : (Engine.single name t s).tables name = some (t, s) := by
  simp only [Engine.single, Function.update_self]

theorem openTable_of_open {sc : Option Schema} (h : e.tables name = some (t, s)) :
    openTable name sc e = .ok (.ok (), e) := by
  unfold openTable
  rw [bind_of_ok (get_apply e), h]
  rfl

/-- **Opening a table** leaves it open. -/
theorem openTable_tables {sc : Option Schema} (h : openTable name sc e = .ok (.ok (), e')) :
    ∃ t s, e'.tables name = some (t, s) := by
  unfold openTable at h
  rw [bind_of_ok (get_apply e)] at h
  rcases hts : e.tables name with - | ⟨t, s⟩
  · rw [hts] at h
    simp only at h
    split at h
    case isTrue => cases h
    case isFalse =>
      generalize PageProg.run _ _ = r at h
      rcases r with f | ⟨t, s⟩
      · cases h
      · obtain ⟨-, rfl⟩ := Prod.mk.inj (Except.ok.inj h)
        exact ⟨t, s, Function.update_self _ _ _⟩
  · rw [hts] at h
    obtain ⟨-, rfl⟩ := Prod.mk.inj (Except.ok.inj h)
    exact ⟨t, s, hts⟩

theorem schemaOf_of_open (h : e.tables name = some (t, s)) :
    schemaOf name e = .ok (.ok t.schema, e) := by
  rw [schemaOf, h]

/-- **A call** on an open table. -/
theorem onTable_of_run {m : Table → PageProg (α × Table)} (h : e.tables name = some (t, s))
    (hm : (m t).run s = .ok ((a, t'), s')) : onTable name m e = .ok (.ok a, e.put name t' s') := by
  simp only [onTable, h, hm]
  rfl

theorem readTable_of_run {m : Table → PageProg α} (h : e.tables name = some (t, s))
    (hm : (m t).run s = .ok (a, s')) : readTable name m e = .ok (.ok a, e.put name t s') := by
  refine onTable_of_run h ?_
  rw [run_bind, hm]
  rfl

/-- A call that stops. -/
theorem onTable_of_fault {m : Table → PageProg (α × Table)} {f : Fault}
    (h : e.tables name = some (t, s)) (hm : (m t).run s = .error f) :
    onTable name m e = .error (.pages f) := by
  simp only [onTable, h, hm]

theorem readTable_of_fault {m : Table → PageProg α} {f : Fault} (h : e.tables name = some (t, s))
    (hm : (m t).run s = .error f) : readTable name m e = .error (.pages f) := by
  refine onTable_of_fault h ?_
  rw [run_bind, hm]
  rfl

/-- A call that returns was made on an open table. -/
theorem onTable_eq_ok {m : Table → PageProg (α × Table)} (h : onTable name m e = .ok (.ok a, e')) :
    ∃ t s t' s', e.tables name = some (t, s) ∧ (m t).run s = .ok ((a, t'), s')
      ∧ e' = e.put name t' s' := by
  unfold onTable at h
  split at h
  case h_1 => cases h
  case h_2 t s hts =>
    split at h
    case h_1 => cases h
    case h_2 b t' s' hm =>
      obtain ⟨hb, he⟩ := Prod.mk.inj (Except.ok.inj h)
      obtain rfl := Except.ok.inj hb
      exact ⟨t, s, t', s', hts, hm, he.symm⟩

theorem readTable_eq_ok {m : Table → PageProg α} (h : readTable name m e = .ok (.ok a, e')) :
    ∃ t s s', e.tables name = some (t, s) ∧ (m t).run s = .ok (a, s') ∧ e' = e.put name t s' := by
  obtain ⟨t, s, t', s', hts, hm, he⟩ := onTable_eq_ok h
  rw [run_bind] at hm
  obtain ⟨⟨b, s₁⟩, hb, hr⟩ := Except.bind_eq_ok.mp hm
  obtain ⟨h₁, rfl⟩ := Prod.mk.inj (Except.ok.inj hr)
  obtain ⟨rfl, rfl⟩ := Prod.mk.inj h₁
  exact ⟨t, s, s₁, hts, hb, he⟩

/-- **A scan** of a table that stands for a map visits the rows of the map. -/
theorem readTable_scan {a : RowMap} {m : ℕ → Option ℕ} (hts : e.tables name = some (t, s))
    (h : t.Stands a m s) (cb : Table.Callback σ) (st : σ) :
    ∃ s', readTable name (fun t => t.scan cb st) e
        = .ok (.ok (RowMap.visit cb a.all 0 st), e.put name t s') ∧ t.Stands a m s' := by
  obtain ⟨r, s', hrun, rfl, c, rfl⟩ := h.runs_scan cb st
  exact ⟨_, readTable_of_run hts hrun, h.atClock c⟩

/-! ## Parsed queries -/

/-- **What `exec_select` does**: it gives up on an unknown column, or looks the
rows up. -/
theorem runSelect_cases (tname : ByteString) (schema : Schema)
    (selCols : Option (List ByteString)) (wh : WhereClause) :
    (∃ res : SelectResult, res.error ≠ []
      ∧ ∀ limit e, runSelect tname schema selCols wh limit e = .ok (.ok res, e))
    ∨ ∃ cols outIdx, ∀ limit, runSelect tname schema selCols wh limit
        = (if fastPath schema wh then selectByRowid tname wh outIdx
            else selectByScan tname schema wh limit outIdx)
          >>= fun f => pure ⟨cols, f.rows, [], f.rowsScanned⟩ := by
  cases selCols with
  | none =>
    refine Or.inr ⟨schema.cols.map Column.name, List.range schema.cols.length, fun limit => ?_⟩
    cases hfast : fastPath schema wh
    · simp only [runSelect, hfast]
      rfl
    · simp only [runSelect, hfast]
      rfl
  | some refs =>
    rcases hr : resolveList schema refs with c | outIdx
    · refine Or.inl ⟨⟨refs.takeWhile (fun c => 0 ≤ schema.findCol c), [],
        ascii "Unknown column: " ++ c, 0⟩, ?_, fun limit e => ?_⟩
      · exact fun hnil => absurd (List.append_eq_nil_iff.mp hnil).1 (by decide)
      · simp only [runSelect, hr]
        rfl
    · refine Or.inr ⟨refs, outIdx, fun limit => ?_⟩
      cases hfast : fastPath schema wh
      · simp only [runSelect, hr, hfast]
        rfl
      · simp only [runSelect, hr, hfast]
        rfl

/-- The columns a join selects, `none` for all of them. -/
def selectedColumns (names : List ByteString) :
    Option (List ByteString) → Except ByteString (List ℕ)
  | none => .ok (List.range names.length)
  | some refs => resolveRefs names refs

/-- The columns entered before one that cannot be resolved. -/
def knownColumns (names refs : List ByteString) : List ByteString :=
  (refs.takeWhile (fun ref => 0 ≤ resolveCol ref names)).map
    (fun ref => names.getD (resolveCol ref names).toNat [])

/-- The combined column names of a join. -/
def joinNames (q : JoinStmt) (ls rs : Schema) : List ByteString :=
  combinedCols q.leftName ls ++ combinedCols q.rightName rs

variable {q : JoinStmt} {ls rs : Schema} {names : List ByteString} {outIdx : List ℕ} {onLi onRi : ℕ}

/-- An error message of a select list begins with `Ambiguous` or `Unknown`. -/
theorem resolveRefs_error {message : ByteString} : ∀ (refs : List ByteString),
    resolveRefs names refs = .error message → message.head? = some 65 ∨ message.head? = some 85
  | [], h => by cases h
  | ref :: refs, h => by
    unfold resolveRefs at h
    by_cases hamb : resolveCol ref names = -2
    · rw [if_pos hamb] at h
      rw [← Except.error.inj h]
      exact Or.inl rfl
    · by_cases hneg : resolveCol ref names < 0
      · rw [if_neg hamb, if_pos hneg] at h
        rw [← Except.error.inj h]
        exact Or.inr rfl
      · rw [if_neg hamb, if_neg hneg] at h
        rcases hrest : resolveRefs names refs with m | rest
        · rw [hrest] at h
          rw [← Except.error.inj h]
          exact resolveRefs_error refs hrest
        · rw [hrest] at h
          cases h

theorem selectedColumns_error {selRefs : Option (List ByteString)} {message : ByteString}
    (h : selectedColumns names selRefs = .error message) :
    message.head? = some 65 ∨ message.head? = some 85 := by
  cases selRefs with
  | none => cases h
  | some refs => exact resolveRefs_error refs h

/-- **The `ON` column** of the left table is unknown. -/
theorem runJoin_of_left_unknown (h : ls.findCol (onColumns q).1 < 0) (e : Engine) :
    runJoin q ls rs e = .ok (.ok ⟨[], [], ascii "ON: unknown column '" ++ (onColumns q).1
      ++ ascii "' in " ++ q.leftName, 0⟩, e) := by
  unfold runJoin
  exact congrFun (if_pos h) e

/-- **The `ON` column** of the right table is unknown. -/
theorem runJoin_of_right_unknown (hl : ¬ ls.findCol (onColumns q).1 < 0)
    (hr : rs.findCol (onColumns q).2 < 0) (e : Engine) :
    runJoin q ls rs e = .ok (.ok ⟨[], [], ascii "ON: unknown column '" ++ (onColumns q).2
      ++ ascii "' in " ++ q.rightName, 0⟩, e) := by
  unfold runJoin
  exact congrFun ((if_neg hl).trans (if_pos hr)) e

/-- **A selected column** cannot be resolved. -/
theorem runJoin_of_unresolved {message : ByteString} (hl : ¬ ls.findCol (onColumns q).1 < 0)
    (hr : ¬ rs.findCol (onColumns q).2 < 0)
    (hsel : selectedColumns (joinNames q ls rs) q.selRefs = .error message) (e : Engine) :
    runJoin q ls rs e = .ok (.ok ⟨knownColumns (joinNames q ls rs) (q.selRefs.getD []), [],
      message, 0⟩, e) := by
  unfold runJoin
  refine (congrFun ((if_neg hl).trans (if_neg hr)) e).trans ?_
  rcases q with ⟨selRefs, leftName, rightName, onLeft, onRight, wh, l⟩
  cases selRefs with
  | none => cases hsel
  | some refs =>
    have hsel' : resolveRefs (combinedCols leftName ls ++ combinedCols rightName rs) refs
      = .error message := hsel
    simp only [hsel']
    rfl

/-- A join opens its tables and runs. -/
theorem joinTables_of_open {lt rt : Table} {s' : Store}
    (hopen : (do openTable q.leftName none; openTable q.rightName none : EngineM Unit) e
      = .ok (.ok (), e'))
    (hl : e'.tables q.leftName = some (lt, s)) (hr : e'.tables q.rightName = some (rt, s')) :
    joinTables q e = runJoin q lt.schema rt.schema e' := by
  obtain ⟨_, e₁, h₁, h₂⟩ := bind_eq_ok.mp hopen
  unfold joinTables
  rw [bind_of_ok h₁, bind_of_ok h₂, bind_of_ok (schemaOf_of_open hl),
    bind_of_ok (schemaOf_of_open hr)]

/-- **A join whose columns are all there** scans its tables. -/
theorem runJoin_of_columns (hl : ls.findCol (onColumns q).1 = onLi)
    (hr : rs.findCol (onColumns q).2 = onRi)
    (hsel : selectedColumns (joinNames q ls rs) q.selRefs = .ok outIdx) :
    runJoin q ls rs = joinScans q (joinNames q ls rs) outIdx onLi onRi
      >>= fun f => pure ⟨outIdx.map (fun ci => (joinNames q ls rs).getD ci []), f.rows, [],
        f.rowsScanned⟩ := by
  unfold runJoin
  refine (if_neg (by omega)).trans ((if_neg (by omega)).trans ?_)
  rw [hl, hr]
  rcases q with ⟨selRefs, leftName, rightName, onLeft, onRight, wh, l⟩
  cases selRefs with
  | none =>
    obtain rfl := Except.ok.inj hsel
    rfl
  | some refs =>
    have hsel' : resolveRefs (combinedCols leftName ls ++ combinedCols rightName rs) refs
      = .ok outIdx := hsel
    simp only [hsel']
    rfl

/-- **What `exec_join` does** with its tables open: it gives up on an unknown
column, whatever the limit, or all columns are there. -/
theorem runJoin_cases (q : JoinStmt) (ls rs : Schema) :
    (∃ res : SelectResult, res.error ≠ []
      ∧ ∀ limit e, runJoin { q with limit := limit } ls rs e = .ok (.ok res, e))
    ∨ ∃ (outIdx : List ℕ) (onLi onRi : ℕ), ls.findCol (onColumns q).1 = onLi
      ∧ rs.findCol (onColumns q).2 = onRi
      ∧ selectedColumns (joinNames q ls rs) q.selRefs = .ok outIdx := by
  have hmessage : ∀ (a b c d : ByteString), a ≠ [] → a ++ b ++ c ++ d ≠ [] := by
    intro a b c d ha hnil
    rw [List.append_assoc, List.append_assoc] at hnil
    exact ha (List.append_eq_nil_iff.mp hnil).1
  by_cases hl : ls.findCol (onColumns q).1 < 0
  · exact Or.inl ⟨⟨[], [], ascii "ON: unknown column '" ++ (onColumns q).1 ++ ascii "' in "
      ++ q.leftName, 0⟩, hmessage _ _ _ _ (by decide),
      fun limit e => runJoin_of_left_unknown (q := { q with limit := limit }) hl e⟩
  by_cases hr : rs.findCol (onColumns q).2 < 0
  · exact Or.inl ⟨⟨[], [], ascii "ON: unknown column '" ++ (onColumns q).2 ++ ascii "' in "
      ++ q.rightName, 0⟩, hmessage _ _ _ _ (by decide),
      fun limit e => runJoin_of_right_unknown (q := { q with limit := limit }) hl hr e⟩
  rcases hsel : selectedColumns (joinNames q ls rs) q.selRefs with message | outIdx
  · refine Or.inl ⟨⟨knownColumns (joinNames q ls rs) (q.selRefs.getD []), [], message, 0⟩, ?_,
      fun limit e => runJoin_of_unresolved (q := { q with limit := limit }) hl hr hsel e⟩
    rintro rfl
    rcases selectedColumns_error hsel with h | h
    · cases h
    · cases h
  · exact Or.inr ⟨outIdx, _, _, (Int.toNat_of_nonneg (not_lt.mp hl)).symm,
      (Int.toNat_of_nonneg (not_lt.mp hr)).symm, rfl⟩

end SqlEngine

namespace Table

open PageProg

variable {σ : Type} {t : Table} {cb cb' : Callback σ} {I : σ → Prop} {D : σ → σ → Prop}

/-- **A callback that stops a scan early.** As long as `I` holds of the state
`cb'` does what `cb` does, or stops. Where it has stopped, `D` relates its
state to what the state of `cb` goes on to be. -/
structure Callback.Cuts (cb cb' : Callback σ) (I : σ → Prop) (D : σ → σ → Prop) : Prop where
  /-- A row while both go on. -/
  step : ∀ {rid row st b st₁}, I st → cb rid row st = .ok (b, st₁) → b = true
    ∧ (cb' rid row st = .ok (true, st₁) ∧ I st₁
      ∨ ∃ st', cb' rid row st = .ok (false, st') ∧ D st' st₁)
  /-- A row after the second has stopped. -/
  rest : ∀ {rid row st' st b st₁}, D st' st → cb rid row st = .ok (b, st₁) → b = true ∧ D st' st₁

/-- What a scan returns satisfies what each call of the callback keeps. -/
theorem scanFrom_keeps {P : σ → Prop}
    (hP : ∀ rid row st b st₁, P st → cb rid row st = .ok (b, st₁) → P st₁) :
    ∀ (n rid count : ℕ) (st : σ) (s : Store), P st →
      Always (scanFrom t cb n rid count st) s (fun r _ => ∀ k fin, r = .ok (k, fin) → P fin)
  | 0, _, _, st, s, hst => ((runs_pure _).mpr (by
      rintro k fin he
      rwa [← (Prod.mk.inj (Except.ok.inj he)).2])).always
  | n + 1, rid, count, st, s, hst => by
    have ih := fun count st s => scanFrom_keeps hP n (rid + 1) count st s
    rw [scanFrom]
    refine Always.bind (fun packed s₁ _ => ?_)
    beta_reduce
    by_cases hneg : packed.val < 0
    · rw [if_pos hneg]
      exact ih count st s₁ hst
    · rw [if_neg hneg]
      refine Always.bind (fun row s₂ _ => ?_)
      cases row with
      | none => exact ih count st s₂ hst
      | some row =>
        simp only
        split
        case h_1 x hx => exact ((runs_pure _).mpr (by rintro k fin ⟨⟩)).always
        case h_2 st₁ hx => exact ih _ st₁ s₂ (hP _ _ _ _ _ hst hx)
        case h_3 st₁ hx =>
          refine ((runs_pure _).mpr ?_).always
          rintro k fin he
          rw [← (Prod.mk.inj (Except.ok.inj he)).2]
          exact hP _ _ _ _ _ hst hx

/-- **A scan that stops early**, against the scan that does not. -/
theorem runs_scanFrom_cut (hcut : Callback.Cuts cb cb' I D) :
    ∀ (n rid count count' k : ℕ) (st fin : σ) (s s' : Store), I st →
      (scanFrom t cb n rid count st).run s = .ok (.ok (k, fin), s') →
        Runs (scanFrom t cb' n rid count' st) s
          (fun r _ => ∃ k' fin', r = .ok (k', fin') ∧ (I fin ∧ fin' = fin ∨ D fin' fin))
  | 0, _, count, count', k, st, fin, s, s', hst, h => by
    obtain ⟨hr, rfl⟩ := Prod.mk.inj (Except.ok.inj h)
    obtain ⟨rfl, rfl⟩ := Prod.mk.inj (Except.ok.inj hr)
    exact (runs_pure _).mpr ⟨count', st, rfl, Or.inl ⟨hst, rfl⟩⟩
  | n + 1, rid, count, count', k, st, fin, s, s', hst, h => by
    have ih := fun count count' st s =>
      runs_scanFrom_cut hcut n (rid + 1) count count' k st fin s s'
    rw [scanFrom, run_bind] at h
    obtain ⟨⟨packed, s₁⟩, hfind, h⟩ := Except.bind_eq_ok.mp h
    rw [scanFrom, runs_bind]
    refine ⟨packed, s₁, hfind, ?_⟩
    by_cases hneg : packed.val < 0
    · simp only [if_pos hneg] at h ⊢
      exact ih count count' st s₁ hst h
    · simp only [if_neg hneg] at h ⊢
      rw [run_bind] at h
      obtain ⟨⟨row, s₂⟩, hfetch, h⟩ := Except.bind_eq_ok.mp h
      rw [runs_bind]
      refine ⟨row, s₂, hfetch, ?_⟩
      cases row with
      | none => exact ih count count' st s₂ hst h
      | some row =>
        simp only at h ⊢
        rcases hcb : cb rid row st with x | ⟨b, st₁⟩
        · rw [hcb] at h
          cases (Prod.mk.inj (Except.ok.inj h)).1
        · obtain ⟨rfl, hgo⟩ := hcut.step hst hcb
          rw [hcb] at h
          rcases hgo with ⟨hgo, hst₁⟩ | ⟨st', hstop, hD⟩
          · rw [hgo]
            exact ih (count + 1) (count' + 1) st₁ s₂ hst₁ h
          · rw [hstop]
            refine (runs_pure _).mpr ⟨count' + 1, st', rfl, Or.inr ?_⟩
            exact scanFrom_keeps (fun rid row st b st₁ hst hx => (hcut.rest hst hx).2)
              n (rid + 1) (count + 1) st₁ s₂ hD _ _ h k fin rfl

end Table
