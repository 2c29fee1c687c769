import SqlMini.TableMap

/-!
# Tables in use

A table in use is a new table after insertions and deletions, with look-ups and
scans in between; calls that throw are among them, but for an insertion that
finds the last heap page used up. `Reached ok schema a t s` says that the rows
that went in were in `ok`, and that `a` is the map of the rows inserted and not
deleted since: what the table ought to hold.

It does hold that, if the encodings of the rows inserted have a length of
sixteen bits and the counter of rowids has not wrapped (`Reached.stands`).
-/

namespace Table

open PageProg

variable {ok : Row → Prop} {schema : Schema} {a : RowMap} {t : Table} {s : Store}

/-- **The states of a table in use**, with the rows that went in and were not
deleted. -/
inductive Reached (ok : Row → Prop) (schema : Schema) : RowMap → Table → Store → Prop
  /-- The table just created. -/
  | new {t : Table} {s : Store} (hrun : (construct schema true true).run .empty = .ok (t, s)) :
      Reached ok schema .empty t s
  /-- `insert_row`, where it returns. -/
  | insert {a : RowMap} {t t' : Table} {s s' : Store} {row : Row} {rowid : ℕ}
      (h : Reached ok schema a t s) (hrow : ok row)
      (hrun : (insertRow t row).run s = .ok ((.ok rowid, t'), s')) :
      Reached ok schema (a.insert (schema.columnValues row)) t' s'
  /-- `insert_row` of any row, where it throws and the last heap page was not used up. -/
  | insertThrows {a : RowMap} {t t' : Table} {s s' : Store} {row : Row} {e : StdException}
      (h : Reached ok schema a t s) (hroom : ¬ OutOfPages t row s)
      (hrun : (insertRow t row).run s = .ok ((.error e, t'), s')) : Reached ok schema a t' s'
  /-- `delete_row`. -/
  | delete {a : RowMap} {t : Table} {s s' : Store} {rowid : ℕ} {hit : Bool}
      (h : Reached ok schema a t s) (hrowid : rowid < uint32Size)
      (hrun : (deleteRow rowid).run s = .ok (hit, s')) : Reached ok schema (a.delete rowid) t s'
  /-- `delete_where`, where it returns. -/
  | deleteWhere {a : RowMap} {t : Table} {s s' : Store}
      {pred : ℕ → Row → Except StdException Bool} {rids : List ℕ} {n : ℕ}
      (h : Reached ok schema a t s)
      (hrids : RowMap.matching pred a.all = .ok rids)
      (hrun : (deleteWhere t pred).run s = .ok (.ok n, s')) :
      Reached ok schema (rids.foldl RowMap.delete a) t s'
  /-- `delete_where`, where the predicate throws. -/
  | deleteWhereThrows {a : RowMap} {t : Table} {s s' : Store}
      {pred : ℕ → Row → Except StdException Bool} {e : StdException}
      (h : Reached ok schema a t s)
      (hrun : (deleteWhere t pred).run s = .ok (.error e, s')) : Reached ok schema a t s'
  /-- `find_by_rowid`. -/
  | find {a : RowMap} {t : Table} {s s' : Store} {rowid : ℕ} {row : Option Row}
      (h : Reached ok schema a t s) (hrowid : rowid < uint32Size)
      (hrun : (findByRowid t rowid).run s = .ok (row, s')) : Reached ok schema a t s'
  /-- `scan`. -/
  | scan {a : RowMap} {t : Table} {s s' : Store} {σ : Type} {cb : Callback σ} {st : σ}
      {r : Except StdException (ℕ × σ)}
      (h : Reached ok schema a t s) (hrun : (scan t cb st).run s = .ok (r, s')) :
      Reached ok schema a t s'

theorem Reached.mono {ok' : Row → Prop} (hok : ∀ row, ok row → ok' row)
    (h : Reached ok schema a t s) : Reached ok' schema a t s := by
  induction h with
  | new hrun => exact .new hrun
  | insert h hrow hrun ih => exact .insert ih (hok _ hrow) hrun
  | insertThrows h hroom hrun ih => exact .insertThrows ih hroom hrun
  | delete h hrowid hrun ih => exact .delete ih hrowid hrun
  | deleteWhere h hrids hrun ih => exact .deleteWhere ih hrids hrun
  | deleteWhereThrows h hrun ih => exact .deleteWhereThrows ih hrun
  | find h hrowid hrun ih => exact .find ih hrowid hrun
  | scan h hrun ih => exact .scan ih hrun

/-- The rows of a map came in as rows of `ok`. -/
def RowsFrom (ok : Row → Prop) (schema : Schema) (a : RowMap) : Prop :=
  ∀ r row, a.rows r = some row → ∃ raw, ok raw ∧ schema.columnValues raw = row

theorem RowsFrom.delete (h : RowsFrom ok schema a) (rowid : ℕ) :
    RowsFrom ok schema (a.delete rowid) := by
  intro r row hr
  by_cases hrk : r = rowid
  · rw [hrk, a.rows_delete_self] at hr
    cases hr
  · rw [a.rows_delete_of_ne hrk] at hr
    exact h r row hr

theorem RowsFrom.deleteAll : ∀ (rids : List ℕ) (a : RowMap), RowsFrom ok schema a →
    RowsFrom ok schema (rids.foldl RowMap.delete a)
  | [], _, h => h
  | rid :: rids, a, h => RowsFrom.deleteAll rids (a.delete rid) (h.delete rid)

theorem next_deleteAll : ∀ (rids : List ℕ) (a : RowMap), (rids.foldl RowMap.delete a).next = a.next
  | [], _ => rfl
  | rid :: rids, a => next_deleteAll rids (a.delete rid)

/-- **A table in use** holds the rows that went in and were not deleted, if
their encodings have a length of sixteen bits and the counter of rowids has not
wrapped. -/
theorem Reached.stands (hok : ∀ row, ok row → row.length = schema.cols.length
      ∧ (serializeRow schema row).length ≤ 65535)
    (h : Reached ok schema a t s) (hnext : a.next < 4294967296) :
    (∃ m, Stands a m t s) ∧ t.schema = schema ∧ RowsFrom ok schema a := by
  induction h with
  | new hrun =>
    obtain ⟨hfit, rfl, rfl⟩ := construct_eq_ok.mp hrun
    exact ⟨⟨_, Stands.new hfit⟩, rfl, fun r row hr => by cases hr⟩
  | @insert a t t' s s' row rowid h hrow hrun ih =>
    have hlt : a.next + 1 < 4294967296 := hnext
    obtain ⟨⟨m, hm⟩, rfl, hfrom⟩ := ih (by omega)
    obtain ⟨hlen, hser⟩ := hok row hrow
    have hpost := (hm.runs_insertRow hlen (by omega) (by omega)).always _ _ hrun
    rcases hpost with ⟨-, x, hx⟩ | ⟨-, -, hschema, m', hm'⟩
    · cases hx
    · refine ⟨⟨m', hm'⟩, hschema, fun r row' hr => ?_⟩
      by_cases hrn : r = a.next
      · rw [hrn, a.rows_insert_self] at hr
        exact ⟨row, hrow, Option.some.inj hr⟩
      · rw [a.rows_insert_of_ne _ hrn] at hr
        exact hfrom r row' hr
  | @insertThrows a t t' s s' row e h hroom hrun ih =>
    obtain ⟨⟨m, hm⟩, hschema, hfrom⟩ := ih hnext
    obtain ⟨hsame, hm'⟩ := (hm.runs_insertRow_throws row hroom).always _ _ hrun e rfl
    exact ⟨⟨m, hm'⟩, hsame.trans hschema, hfrom⟩
  | @delete a t s s' rowid hit h hrowid hrun ih =>
    obtain ⟨⟨m, hm⟩, hschema, hfrom⟩ := ih hnext
    obtain ⟨-, m', hm'⟩ := (hm.runs_deleteRow hrowid).always _ _ hrun
    exact ⟨⟨m', hm'⟩, hschema, hfrom.delete rowid⟩
  | @deleteWhere a t s s' pred rids n h hrids hrun ih =>
    rw [next_deleteAll] at hnext
    obtain ⟨⟨m, hm⟩, hschema, hfrom⟩ := ih hnext
    rcases (hm.runs_deleteWhere pred).always _ _ hrun with ⟨x, hx, -⟩ | ⟨rids', hrids', -, m', hm'⟩
    · rw [hrids] at hx
      cases hx
    · rw [hrids] at hrids'
      obtain rfl := Except.ok.inj hrids'
      exact ⟨⟨m', hm'⟩, hschema, hfrom.deleteAll rids⟩
  | @deleteWhereThrows a t s s' pred e h hrun ih =>
    obtain ⟨⟨m, hm⟩, hschema, hfrom⟩ := ih hnext
    rcases (hm.runs_deleteWhere pred).always _ _ hrun with ⟨-, -, -, m', hm'⟩ | ⟨rids', -, hr, -⟩
    · exact ⟨⟨m', hm'⟩, hschema, hfrom⟩
    · cases hr
  | @find a t s s' rowid row h hrowid hrun ih =>
    obtain ⟨⟨m, hm⟩, hschema, hfrom⟩ := ih hnext
    obtain ⟨-, c, rfl⟩ := (hm.runs_findByRowid hrowid).always _ _ hrun
    exact ⟨⟨m, hm.atClock c⟩, hschema, hfrom⟩
  | @scan a t s s' σ cb st r h hrun ih =>
    obtain ⟨⟨m, hm⟩, hschema, hfrom⟩ := ih hnext
    obtain ⟨-, c, rfl⟩ := (hm.runs_scan cb st).always _ _ hrun
    exact ⟨⟨m, hm.atClock c⟩, hschema, hfrom⟩

/-! ## Tables with given rows -/

theorem always_placeRow_cursor {hbuf : PagePtr} {data : ByteString} :
    Always (placeRow t hbuf data) s (fun r _ => r.2.curHeapPage = t.curHeapPage) := by
  unfold placeRow
  refine Always.bind (fun buf s₁ _ => Always.bind (always_lift.mpr (fun r _ => ?_)))
  split
  case isTrue => exact Runs.always ((runs_pure _).mpr (Eq.refl t.curHeapPage))
  case isFalse =>
    exact Always.bind (fun _ _ _ => Always.bind (fun _ _ _ => Always.bind (fun _ _ _ =>
      Always.bind (fun _ _ _ => Runs.always ((runs_pure _).mpr (Eq.refl t.curHeapPage))))))

/-- **The heap cursor** moves on by at most one page in a call. -/
theorem always_insertRow_cursor {row : Row} :
    Always (insertRow t row) s (fun r _ => r.2.curHeapPage ≤ t.curHeapPage + 1) := by
  unfold insertRow
  refine Always.bind (fun hbuf s₁ _ => Always.bind (Runs.always (runs_load.mpr ?_)))
  have hle : (t.curHeapPage + 1) % uint32Size ≤ t.curHeapPage + 1 := Nat.mod_le _ _
  split
  case isTrue =>
    simp only
    split
    case isTrue => exact ((runs_pure _).mpr hle).always
    case isFalse =>
      exact Always.bind (fun _ _ _ => always_placeRow_cursor.mono (fun r _ hr => hr.trans_le hle))
  case isFalse => exact always_placeRow_cursor.mono (fun r _ hr => hr.trans_le (Nat.le_succ _))

/-- **One more row** that fits a page, as long as there is a next page. -/
theorem Reached.exists_insert (hok : ∀ row, ok row → row.length = schema.cols.length
      ∧ (serializeRow schema row).length ≤ 65535)
    (h : Reached ok schema a t s) (hnext : a.next < 4294967295) (hcur : t.curHeapPage < 1022)
    {row : Row} (hrow : ok row) (hlen : (serializeRow schema row).length ≤ 4088) :
    ∃ t' s', Reached ok schema (a.insert (schema.columnValues row)) t' s'
      ∧ t'.curHeapPage ≤ t.curHeapPage + 1 := by
  obtain ⟨⟨m, hm⟩, rfl, -⟩ := h.stands hok (by omega)
  have hroom : HasRoom t row s := by
    refine Or.inr ⟨hcur, ?_⟩
    rwa [Nat.mod_eq_of_lt (show (serializeRow t.schema row).length < 65536 by omega)]
  obtain ⟨⟨r, t'⟩, s', hrun, ⟨hno, -⟩ | ⟨-, rfl, -⟩⟩ :=
    hm.runs_insertRow (hok row hrow).1 (show _ < 65536 by omega) hnext
  · exact absurd hroom hno
  · exact ⟨t', s', .insert h hrow hrun, always_insertRow_cursor _ _ hrun⟩

/-- The map of the rows of a list, under the rowids from 1 on. -/
def rowsOf (schema : Schema) (rows : List Row) : RowMap :=
  rows.foldl (fun a row => a.insert (schema.columnValues row)) .empty

/-- **Any few rows that fit a page** are the rows of some table. -/
theorem exists_reached_rows (hok : ∀ row, ok row → row.length = schema.cols.length
      ∧ (serializeRow schema row).length ≤ 65535) (hfit : schema.Fits) (rows : List Row)
    (hrows : ∀ row ∈ rows, ok row ∧ (serializeRow schema row).length ≤ 4088)
    (hfew : rows.length ≤ 510) :
    ∃ t s, Reached ok schema (rowsOf schema rows) t s ∧ t.curHeapPage ≤ 512 + rows.length
      ∧ (rowsOf schema rows).next = rows.length + 1 := by
  induction rows using List.reverseRecOn with
  | nil => exact ⟨_, _, .new (construct_eq_ok.mpr ⟨hfit, rfl, rfl⟩), le_rfl, rfl⟩
  | append_singleton rows row ih =>
    rw [List.length_append, List.length_singleton] at hfew ⊢
    obtain ⟨t, s, h, hcur, hnext⟩ := ih
      (fun row' hmem => hrows row' (List.mem_append_left _ hmem)) (by omega)
    obtain ⟨hrow, hlen⟩ := hrows row (List.mem_append_right _ List.mem_cons_self)
    obtain ⟨t', s', h', hcur'⟩ := h.exists_insert hok (by omega) (by omega) hrow hlen
    have hmap : rowsOf schema (rows ++ [row])
        = (rowsOf schema rows).insert (schema.columnValues row) := by
      rw [rowsOf, List.foldl_append]
      rfl
    rw [hmap]
    exact ⟨t', s', h', by omega, congrArg (· + 1) hnext⟩

end Table
