import SqlMini.LooseGrammar
import SqlMini.TableReach
import SqlMini.TableTruncation

/-!
# What `DELETE` deletes

`exec_delete` scans the table for the rows its clause holds of and then
deletes them one by one. A clause that throws does so during the scan, before
anything was deleted; otherwise exactly the rows the clause holds of are
gone afterwards, the others are as they were, and the statement has nothing
left to delete (`SqlEngine.execDelete_exact`).

What a table shows is what a scan visits and a look-up finds
(`Table.Shows`). A row whose encoding has more than 65535 bytes is stored cut
off, and decoding what is left of it may run past the heap page, for a
`DELETE` as for anything else that scans (`SqlEngine.not_deletesExactly`).
-/

namespace RowMap

variable {pred : ℕ → Row → Except StdException Bool} {a : RowMap} {r : ℕ}

/-- Whether a predicate holds of a row. Where it throws it does not. -/
def hit (pred : ℕ → Row → Except StdException Bool) (x : ℕ × Row) : Bool :=
  match pred x.1 x.2 with
  | .ok b => b
  | .error _ => false

/-- **The rowids collected** are those of the rows the predicate holds of. -/
theorem matching_cases (pred : ℕ → Row → Except StdException Bool) : ∀ l : List (ℕ × Row),
    (∃ x ∈ l, ∃ e, pred x.1 x.2 = .error e ∧ matching pred l = .error e)
      ∨ ((∀ x ∈ l, pred x.1 x.2 = .ok (hit pred x))
        ∧ matching pred l = .ok ((l.filter (hit pred)).map Prod.fst))
  | [] => Or.inr ⟨fun _ hx => absurd hx List.not_mem_nil, rfl⟩
  | x :: l => by
    rcases hp : pred x.1 x.2 with e | b
    · refine Or.inl ⟨x, List.mem_cons_self, e, hp, ?_⟩
      rw [matching, hp]
      rfl
    · have hx : hit pred x = b := by rw [hit, hp]
      rcases matching_cases pred l with ⟨y, hy, e, hpy, hm⟩ | ⟨hall, hm⟩
      · refine Or.inl ⟨y, List.mem_cons_of_mem _ hy, e, hpy, ?_⟩
        rw [matching, hp, Except.ok_bind_eq, hm]
        rfl
      · refine Or.inr ⟨fun y hy => ?_, ?_⟩
        · rcases List.mem_cons.mp hy with rfl | hy
          · rw [hp, hx]
          · exact hall y hy
        · rw [matching, hp, Except.ok_bind_eq, hm, List.filter_cons, hx]
          cases b <;> rfl

/-- The rows with rowids in a range. -/
theorem mem_between {n k : ℕ} {row : Row} :
    (k, row) ∈ a.between r n ↔ r ≤ k ∧ k < r + n ∧ a.rows k = some row := by
  unfold between
  rw [List.mem_filterMap]
  constructor
  · rintro ⟨j, hj, hrow⟩
    obtain ⟨row', hrow', heq⟩ := Option.map_eq_some_iff.mp hrow
    obtain ⟨rfl, rfl⟩ := Prod.mk.inj heq
    obtain ⟨h1, h2⟩ := List.mem_range'_1.mp hj
    exact ⟨h1, h2, hrow'⟩
  · rintro ⟨h1, h2, hrow⟩
    exact ⟨k, List.mem_range'_1.mpr ⟨h1, h2⟩, by rw [hrow]; rfl⟩

/-- They come in the order of their rowids. -/
theorem pairwise_between : ∀ (n r : ℕ), ((a.between r n).map Prod.fst).Pairwise (· < ·)
  | 0, _ => .nil
  | n + 1, r => by
    rw [between_succ]
    cases a.rows r with
    | none => exact pairwise_between n (r + 1)
    | some row =>
      refine List.pairwise_cons.mpr ⟨fun k hk => ?_, pairwise_between n (r + 1)⟩
      obtain ⟨⟨j, row'⟩, hj, rfl⟩ := List.mem_map.mp hk
      exact (mem_between.mp hj).1

/-- Deleting a row takes it out of the list. -/
theorem between_delete (k : ℕ) : ∀ n r : ℕ,
    (a.delete k).between r n = (a.between r n).filter (fun x => x.1 ≠ k)
  | 0, _ => rfl
  | n + 1, r => by
    rw [between_succ, between_succ, between_delete k n (r + 1)]
    by_cases hrk : r = k
    · subst hrk
      rw [rows_delete_self]
      cases a.rows r with
      | none => rfl
      | some row => simp
    · rw [rows_delete_of_ne _ hrk]
      cases a.rows r with
      | none => rfl
      | some row => simp [hrk]

/-- **Deleting rows** takes them out of the list. -/
theorem all_deleteAll : ∀ (rids : List ℕ) (a : RowMap),
    (rids.foldl delete a).all = a.all.filter (fun x => x.1 ∉ rids)
  | [], a => by simp
  | rid :: rids, a => by
    have hdelete : (a.delete rid).all = a.all.filter (fun x => x.1 ≠ rid) := between_delete rid _ _
    rw [List.foldl_cons, all_deleteAll rids, hdelete, List.filter_filter]
    refine List.filter_congr (fun x _ => ?_)
    simp [Bool.and_comm]

/-- A row is looked up in the list. -/
theorem find_all (hin : ∀ k row, a.rows k = some row → 1 ≤ k ∧ k < a.next) (k : ℕ) :
    (a.all.find? (fun x => x.1 = k)).map Prod.snd = a.rows k := by
  cases hf : a.all.find? (fun x => x.1 = k) with
  | none =>
    rcases hr : a.rows k with - | row
    · rfl
    · obtain ⟨h1, h2⟩ := hin k row hr
      have hmem : (k, row) ∈ a.all := mem_between.mpr ⟨h1, by omega, hr⟩
      simpa using List.find?_eq_none.mp hf _ hmem
  | some x =>
    obtain ⟨j, row⟩ := x
    have hj : j = k := by simpa using List.find?_some hf
    subst hj
    exact (mem_between.mp (List.mem_of_find?_eq_some hf)).2.2.symm

end RowMap

/-! ## What a table shows -/

namespace Table

open PageProg BTree

variable {a : RowMap} {m : ℕ → Option ℕ} {t : Table} {s s' : Store}
  {pred : ℕ → Row → Except StdException Bool}

/-- **A table shows rows** under rowids: a scan visits them in the order of
the rowids, and a look-up finds them and no others. -/
structure Shows (t : Table) (s : Store) (rows : List (ℕ × Row)) : Prop where
  sorted : (rows.map Prod.fst).Pairwise (· < ·)
  scan : ∀ {σ : Type} (cb : Callback σ) (st : σ),
    Runs (t.scan cb st) s (fun r _ => r = RowMap.visit cb rows 0 st)
  find : ∀ rowid, rowid < 4294967296 → Runs (t.findByRowid rowid) s
    (fun r _ => r = (rows.find? (fun x => x.1 = rowid)).map Prod.snd)

namespace Stands

/-- A rowid with a row was handed out. -/
theorem mem_range (h : Stands a m t s) {k : ℕ} {row : Row} (hrow : a.rows k = some row) :
    1 ≤ k ∧ k < a.next := by
  obtain ⟨v, -, hv, -⟩ := h.row k row hrow
  exact h.born k (by rw [hv]; exact Option.some_ne_none v)

/-- **A table that stands for a map** shows its rows. -/
theorem shows (h : Stands a m t s) : t.Shows s a.all where
  sorted := RowMap.pairwise_between _ _
  scan cb st := (h.runs_scan cb st).mono (fun _ _ hr => hr.1)
  find rowid hrowid := (h.runs_findByRowid hrowid).mono (fun _ _ hr => by
    rw [hr.1, RowMap.find_all (fun _ _ => h.mem_range)])

/-- **A predicate that throws** does so before anything is deleted. -/
theorem runs_deleteWhere_throws (h : Stands a m t s) {e : StdException}
    (hm : RowMap.matching pred a.all = .error e) :
    Runs (deleteWhere t pred) s (fun r s' => r = .error e ∧ ∃ c, s' = s.atClock c) := by
  rw [deleteWhere, runs_bind]
  refine (h.runs_scan (collect pred) []).mono ?_
  rintro r s' ⟨rfl, c, rfl⟩
  rcases RowMap.visit_collect pred a.all 0 [] with ⟨e', hv, hm'⟩ | ⟨rids, -, hm'⟩
  · rw [hm, Except.error.injEq] at hm'
    rw [hv, ← hm']
    exact (runs_pure _).mpr ⟨rfl, c, rfl⟩
  · rw [hm] at hm'
    cases hm'

/-- **A predicate that does not throw**: the rows it holds of are deleted. -/
theorem runs_deleteWhere_deletes (h : Stands a m t s)
    (hm : RowMap.matching pred a.all = .ok ((a.all.filter (RowMap.hit pred)).map Prod.fst)) :
    Runs (deleteWhere t pred) s (fun r s' => r = .ok (a.all.filter (RowMap.hit pred)).length
      ∧ ∃ a' m', Stands a' m' t s' ∧ a'.all = a.all.filter (fun x => !RowMap.hit pred x)) := by
  refine (h.runs_deleteWhere pred).mono ?_
  rintro r s' (⟨e, hm', -⟩ | ⟨rids, hm', rfl, m', h'⟩)
  · rw [hm] at hm'
    cases hm'
  · rw [hm, Except.ok.injEq] at hm'
    subst hm'
    refine ⟨by rw [List.length_map], _, m', h', ?_⟩
    rw [RowMap.all_deleteAll]
    refine List.filter_congr (fun x hx => ?_)
    -- no other row has the rowid of a row
    have hsame : ∀ y ∈ a.all, y.1 = x.1 → y = x := by
      rintro ⟨k, row⟩ hy rfl
      obtain ⟨j, row'⟩ := x
      have h1 := (RowMap.mem_between.mp hy).2.2
      have h2 := (RowMap.mem_between.mp hx).2.2
      rw [Prod.mk.injEq]
      exact ⟨rfl, Option.some.inj (h1.symm.trans h2)⟩
    rw [Bool.eq_iff_iff, decide_eq_true_iff, Bool.not_eq_true', List.mem_map]
    constructor
    · intro hno
      by_contra hhit
      exact hno ⟨x, List.mem_filter.mpr ⟨hx, by simpa using hhit⟩, rfl⟩
    · rintro hmiss ⟨y, hy, hyx⟩
      obtain ⟨hy, hhit⟩ := List.mem_filter.mp hy
      rw [hsame y hy hyx, hmiss] at hhit
      cases hhit

end Stands

end Table

/-! ## The statement -/

namespace SqlEngine

open Routine PageProg Table

variable {toks rest ts : List ByteString} {e : Engine} {table : ByteString} {wh : WhereClause}
  {t : Table} {s : Store} {a : RowMap} {m : ℕ → Option ℕ}

/-- What `exec_delete` answers. -/
def deletedMessage (n : ℕ) : ByteString :=
  ascii "Deleted " ++ CppString.digitsOf n ++ ascii " row(s)."

/-- Whether a clause holds of a row under a rowid. -/
def clauseOn (schema : Schema) (wh : WhereClause) (_rowid : ℕ) (row : Row) :
    Except StdException Bool := matchWhere row schema wh

/-- A deletion on an open table. -/
theorem runDelete_of_run {r : Except StdException ℕ} {s' : Store}
    (hts : e.tables table = some (t, s))
    (hrun : (deleteWhere t (clauseOn t.schema wh)).run s = .ok (r, s')) :
    runDelete table wh e = .ok (r.map deletedMessage, e.put table t s') := by
  unfold runDelete
  rw [bind_of_ok (openTable_of_open hts), bind_of_ok (schemaOf_of_open hts),
    bind_of_ok (readTable_of_run hts hrun)]
  cases r with
  | error x => exact bind_of_throw (ofExcept_apply _ _)
  | ok n => exact bind_of_ok (ofExcept_apply _ _)

/-- **A statement deletes exactly the rows its clause holds of**, or throws
and leaves the table alone. -/
def DeletesExactly (toks : List ByteString) (table : ByteString) (wh : WhereClause) (e : Engine)
    (t : Table) (s : Store) : Prop :=
  ∃ rows, t.Shows s rows ∧
    ((∃ x c, effect execDelete toks e = .ok (.error x, e.put table t (s.atClock c))
        ∧ t.Shows (s.atClock c) rows)
    ∨ ((∀ x ∈ rows, ∃ b, matchWhere x.2 t.schema wh = .ok b)
      ∧ ∃ s', effect execDelete toks e
          = .ok (.ok (deletedMessage (rows.filter (RowMap.hit (clauseOn t.schema wh))).length),
            e.put table t s')
        ∧ t.Shows s' (rows.filter (fun x => !RowMap.hit (clauseOn t.schema wh) x))
        ∧ ∃ e', effect execDelete toks (e.put table t s') = .ok (.ok (deletedMessage 0), e')))

/-- **A table that stands for a map** has its rows deleted exactly. -/
theorem deletesExactly_of_stands (h : Stands a m t s) (hts : e.tables table = some (t, s))
    (hread : ReadDelete table wh toks) : DeletesExactly toks table wh e t s := by
  have hrun := fun e => effect_execDelete_of_read hread e
  refine ⟨a.all, h.shows, ?_⟩
  rcases RowMap.matching_cases (clauseOn t.schema wh) a.all with
    ⟨x, hx, ex, -, hm⟩ | ⟨hall, hm⟩
  · obtain ⟨r, s', hdel, rfl, c, rfl⟩ := h.runs_deleteWhere_throws hm
    refine Or.inl ⟨ex, c, ?_, (h.atClock c).shows⟩
    rw [hrun, runDelete_of_run hts hdel]
    rfl
  · obtain ⟨r, s', hdel, rfl, a', m', h', ha'⟩ := h.runs_deleteWhere_deletes hm
    refine Or.inr ⟨fun x hx => ⟨_, hall x hx⟩, s', ?_, ?_, ?_⟩
    · rw [hrun, runDelete_of_run hts hdel]
      rfl
    · rw [← ha']
      exact h'.shows
    · -- what is left was not matched, so nothing is the second time
      have hleft : a'.all.filter (RowMap.hit (clauseOn t.schema wh)) = [] := by
        rw [ha', List.filter_filter]
        exact List.filter_eq_nil_iff.mpr (fun x _ => by simp)
      rcases RowMap.matching_cases (clauseOn t.schema wh) a'.all with
        ⟨x, hx, ex, hex, -⟩ | ⟨-, hm'⟩
      · rw [ha'] at hx
        rw [hall x (List.mem_filter.mp hx).1] at hex
        cases hex
      · obtain ⟨r, s'', hdel', rfl, -⟩ := h'.runs_deleteWhere_deletes hm'
        rw [hleft] at hdel'
        exact ⟨_, by rw [hrun, runDelete_of_run put_tables_self hdel']; rfl⟩

/-- **A row of an insertion**: one that `exec_insert` makes of its values. -/
def InsertedRow (schema : Schema) (row : Row) : Prop :=
  ∃ cols vals, insertedRow schema cols vals = .ok row

/-- **`DELETE` is exact** on every table into which only rows of at most
65535 bytes were inserted, and fewer than `2 ^ 32 - 1` of them. -/
theorem execDelete_exact {schema : Schema}
    (h : Reached (fun row => InsertedRow schema row ∧ (serializeRow schema row).length ≤ 65535)
      schema a t s)
    (hnext : a.next < 4294967296) (hts : e.tables table = some (t, s))
    (hread : ReadDelete table wh toks) : DeletesExactly toks table wh e t s := by
  obtain ⟨⟨m, hm⟩, -⟩ := h.stands (fun row hrow => by
    obtain ⟨⟨cols, vals, hins⟩, hlen⟩ := hrow
    exact ⟨(insertedRow_spec hins).1, hlen⟩) hnext
  exact deletesExactly_of_stands hm hts hread

/-- `DELETE FROM t`. -/
theorem readDelete_all : ReadDelete (ascii "t") ⟨false, [], [], []⟩
    [ascii "DELETE", ascii "FROM", ascii "t"] :=
  .mk (by decide) (by decide) _ (.absent nofun)

/-- `DELETE FROM t WHERE body = 'b'`. -/
theorem readDelete_body : ReadDelete (ascii "t") ⟨true, ascii "body", ascii "=", ascii "b"⟩
    (tokenize (ascii "DELETE FROM t WHERE body = 'b'")) :=
  .mk (by decide) (by decide) _ (.clause (by decide) _ _ _ [])

/-- A table with the rows `a` and `b`, and a deletion of the second. -/
theorem execDelete_exact_two : ∃ t s,
    DeletesExactly (tokenize (ascii "DELETE FROM t WHERE body = 'b'")) (ascii "t")
      ⟨true, ascii "body", ascii "=", ascii "b"⟩ (Engine.single (ascii "t") t s) t s
    ∧ t.Shows s [(1, [.makeText (ascii "a")]), (2, [.makeText (ascii "b")])] := by
  let rows : List Row := [[.makeText (ascii "a")], [.makeText (ascii "b")]]
  have hrows : ∀ row ∈ rows, (InsertedRow notes row ∧ (serializeRow notes row).length ≤ 65535)
      ∧ (serializeRow notes row).length ≤ 4088 := by
    intro row hrow
    rcases List.mem_pair.mp hrow with rfl | rfl
    · exact ⟨⟨⟨[], [ascii "a"], rfl⟩, by decide⟩, by decide⟩
    · exact ⟨⟨⟨[], [ascii "b"], rfl⟩, by decide⟩, by decide⟩
  have hok : ∀ row, InsertedRow notes row ∧ (serializeRow notes row).length ≤ 65535 →
      row.length = notes.cols.length ∧ (serializeRow notes row).length ≤ 65535 :=
    fun row ⟨⟨_, _, hins⟩, hlen⟩ => ⟨(insertedRow_spec hins).1, hlen⟩
  obtain ⟨t, s, h, -⟩ := exists_reached_rows hok notes_fits rows hrows (by decide)
  obtain ⟨⟨m, hm⟩, -⟩ := h.stands hok (by decide)
  exact ⟨t, s, execDelete_exact h (by decide) single_tables_self readDelete_body, hm.shows⟩

end SqlEngine

/-! ## Rows cut off -/

namespace Table

open PageProg

variable {t : Table} {s : Store} {buf : Page} {slot : ℕ} {rest : ByteString}

/-- **A record that announces a text of 65535 bytes** cannot be decoded inside
a page. -/
theorem rowAt_ne_ok {c : Column} {cs : List Column} (hw : SlottedPage.WellFormed buf)
    (hcols : t.schema.cols = c :: cs) (htext : c.type = .text)
    (hc : SlottedPage.content buf slot = some (255 :: 255 :: rest)) (o : Option Row) :
    rowAt t buf slot ≠ .ok o := by
  obtain ⟨hl, hs⟩ := SlottedPage.content_eq_some.mp hc
  have hin : SlottedPage.offsetOf buf slot + SlottedPage.lengthOf buf slot ≤ 4096 :=
    (hw.inside slot hl).2
  have hlen : SlottedPage.lengthOf buf slot = rest.length + 2 := by
    have hbytes := congrArg List.length hs
    rwa [Buffer.length_slice] at hbytes
  have hrd := reads_pageReader buf hin
  rw [hs] at hrd
  have hcount : (pageReader buf (SlottedPage.offsetOf buf slot)).bytes 0 2 = .ok [255, 255] :=
    (Reader.reads_append.mp (show Reader.Reads _ 0 ([255, 255] ++ rest) from hrd)).1.bytes_eq
  have hint : c.type ≠ .int := by
    rw [htext]
    decide
  intro h
  unfold rowAt at h
  rw [hw.get_eq, if_pos hl, Except.ok_bind_eq, hlen] at h
  obtain ⟨row, hrow, -⟩ := Except.bind_eq_ok.mp h
  rw [deserializeRow, hcols, deserializeFields, if_neg (by omega), if_neg hint, hcount,
    Except.ok_bind_eq] at hrow
  -- the bytes of the text end behind the page
  obtain ⟨text, htext, -⟩ := Except.bind_eq_ok.mp hrow
  have hend := endsBy_pageReader buf (SlottedPage.offsetOf buf slot)
  have hle := hend.le_of_bytes htext (hend.le_of_bytes hcount (Nat.zero_le _))
  have hslen : LittleEndian.decode [255, 255] = 65535 := by decide
  rw [hslen] at hle
  omega

/-- A scan of one rowid looks it up. -/
theorem runs_findByRowid_of_scan {σ : Type} {cb : Callback σ} {st : σ}
    {Q : Except StdException (ℕ × σ) → Store → Prop} (hnext : t.nextRowid = 2)
    (h : Runs (scan t cb st) s Q) : Runs (findByRowid t 1) s (fun _ _ => True) := by
  rw [scan, hnext, scanFrom, runs_bind] at h
  rw [findByRowid, runs_bind]
  refine h.mono (fun packed s' h => ?_)
  split
  case isTrue => exact (runs_pure _).mpr trivial
  case isFalse hneg =>
    rw [if_neg hneg, runs_bind] at h
    exact h.mono (fun _ _ _ => trivial)

/-- Two columns of text. -/
def pairs : Schema := ⟨ascii "t", [⟨ascii "a", .text, 255⟩, ⟨ascii "b", .text, 255⟩]⟩

/-- A text of 65535 bytes and an empty one. -/
def longPair : Row := [.makeText (120 :: List.replicate 65534 120), .makeText []]

theorem serializeRow_pairs {body : ByteString} (h : body.length = 65534) :
    serializeRow pairs [.makeText (120 :: body), .makeText []]
      = [255, 255, 120] ++ (body ++ [0, 0]) := by
  have hcount : LittleEndian.encode 2 (65534 + 1) = [255, 255] := by decide
  have hzero : LittleEndian.encode 2 0 = [0, 0] := by decide
  simp [serializeRow, pairs, fieldBytes, Value.makeText, h, hcount, hzero]

theorem serializeRow_longPair : serializeRow pairs longPair
    = [255, 255, 120] ++ (List.replicate 65534 120 ++ [0, 0]) :=
  serializeRow_pairs List.length_replicate

theorem length_serializeRow_longPair : (serializeRow pairs longPair).length = 65539 := by
  rw [serializeRow_longPair, List.length_append, List.length_append, List.length_replicate]
  rfl

theorem stored_longPair (n c : ℕ) : (⟨pairs, n, c⟩ : Table).stored longPair = [255, 255, 120] := by
  show (serializeRow pairs longPair).take ((serializeRow pairs longPair).length % 65536) = _
  rw [length_serializeRow_longPair, serializeRow_longPair]
  exact List.take_left' rfl

/-- **A table with that row** can neither be looked up nor be scanned. -/
theorem exists_unreadable : ∃ t s, Reached (SqlEngine.InsertedRow pairs) pairs
    (RowMap.empty.insert (pairs.columnValues longPair)) t s
      ∧ ∀ {σ : Type} (cb : Callback σ) (st : σ) (Q), ¬ Runs (scan t cb st) s Q := by
  have hfit : pairs.Fits := by decide
  have hlen : (serializeRow pairs longPair).length % uint16Size ≤ 4088 := by
    rw [length_serializeRow_longPair]
    decide
  obtain ⟨t, s, p, slot, c, hrun, hschema, hnext, hw, hcontent, hfind⟩ := exists_inserted hfit hlen
  refine ⟨t, s, .insert (.new (construct_eq_ok.mpr ⟨hfit, rfl, rfl⟩))
    ⟨[], [120 :: List.replicate 65534 120, []], rfl⟩ hrun, fun cb st Q h => ?_⟩
  obtain ⟨o, ho, -⟩ := (hfind _).mp (runs_findByRowid_of_scan hnext h)
  rw [stored_longPair] at hcontent
  exact rowAt_ne_ok hw (by rw [hschema]; rfl) rfl hcontent o ho

end Table

namespace SqlEngine

open Routine PageProg Table

/-- **A table with a row cut off** stops a deletion, which neither throws nor
reports anything. -/
theorem not_deletesExactly : ∃ t s, Reached (InsertedRow pairs) pairs
    (RowMap.empty.insert (pairs.columnValues longPair)) t s
      ∧ (∀ r, effect execDelete [ascii "DELETE", ascii "FROM", ascii "t"]
        (Engine.single (ascii "t") t s) ≠ .ok r)
      ∧ ¬ DeletesExactly [ascii "DELETE", ascii "FROM", ascii "t"] (ascii "t")
        ⟨false, [], [], []⟩ (Engine.single (ascii "t") t s) t s := by
  obtain ⟨t, s, hreached, hscan⟩ := exists_unreadable
  have hstop : ∀ r, effect execDelete [ascii "DELETE", ascii "FROM", ascii "t"]
      (Engine.single (ascii "t") t s) ≠ .ok r := by
    intro r hrun
    rw [effect_execDelete_of_read readDelete_all, runDelete, bind_of_ok (openTable_of_open
      single_tables_self), bind_of_ok (schemaOf_of_open single_tables_self)] at hrun
    cases hdel : (deleteWhere t (clauseOn t.schema ⟨false, [], [], []⟩)).run s with
    | error f =>
      rw [bind_of_stop (readTable_of_fault single_tables_self hdel)] at hrun
      cases hrun
    | ok r =>
      rw [deleteWhere, run_bind] at hdel
      obtain ⟨x, hx, -⟩ := Except.bind_eq_ok.mp hdel
      exact hscan _ _ (fun _ _ => True) ⟨x.1, x.2, hx, trivial⟩
  refine ⟨t, s, hreached, hstop, ?_⟩
  rintro ⟨rows, -, ⟨x, c, hrun, -⟩ | ⟨-, s', hrun, -⟩⟩
  · exact hstop _ hrun
  · exact hstop _ hrun

end SqlEngine
