import SqlMini.TableRuns

/-!
# Rows under rowids

What a table is for: a finite map from rowids to rows, handing out rowids in
increasing order. `RowMap` is that map with the calls of a table on it, and
nothing of pages, slots, pointers or nodes. A scan visits the rows in the
order of their rowids (`RowMap.visit`), and a deletion by predicate removes
the rows that the predicate holds of, or none if it throws.
-/

/-- **A finite map from rowids to rows**, with the next rowid. -/
structure RowMap where
  /-- The rowid the next row will have. -/
  next : ℕ
  /-- The rows. -/
  rows : ℕ → Option Row

namespace RowMap

variable {σ : Type} {a : RowMap} {r : ℕ}

/-- The map without rows. -/
def empty : RowMap := ⟨1, fun _ => none⟩

/-- A row enters. -/
def insert (a : RowMap) (row : Row) : RowMap :=
  ⟨a.next + 1, Function.update a.rows a.next (some row)⟩

/-- A row leaves. -/
def delete (a : RowMap) (r : ℕ) : RowMap := { a with rows := Function.update a.rows r none }

theorem rows_insert_self (a : RowMap) (row : Row) : (a.insert row).rows a.next = some row :=
  Function.update_self _ _ _

theorem rows_insert_of_ne (a : RowMap) (row : Row) (h : r ≠ a.next) :
    (a.insert row).rows r = a.rows r := Function.update_of_ne h _ _

theorem rows_delete_self (a : RowMap) (r : ℕ) : (a.delete r).rows r = none :=
  Function.update_self _ _ _

theorem rows_delete_of_ne {k : ℕ} (a : RowMap) (h : k ≠ r) : (a.delete r).rows k = a.rows k :=
  Function.update_of_ne h _ _

/-- Deleting what is not there. -/
theorem delete_eq_self (h : a.rows r = none) : a.delete r = a := by
  rw [delete, ← h, Function.update_eq_self]

/-- The rows with rowids among the `n` from `r` on, in order. -/
def between (a : RowMap) (r n : ℕ) : List (ℕ × Row) :=
  (List.range' r n).filterMap (fun k => (a.rows k).map (fun row => (k, row)))

/-- All rows, in the order of their rowids. -/
def all (a : RowMap) : List (ℕ × Row) := a.between 1 (a.next - 1)

/-- **Visiting rows** one after the other: how many were visited, and the
state of the callback. -/
def visit (cb : Table.Callback σ) : List (ℕ × Row) → ℕ → σ → Except StdException (ℕ × σ)
  | [], count, st => .ok (count, st)
  | (r, row) :: rest, count, st =>
    match cb r row st with
    | .error e => .error e
    | .ok (true, st) => visit cb rest (count + 1) st
    | .ok (false, st) => .ok (count + 1, st)

/-- The rowids of the rows a predicate holds of. -/
def matching (pred : ℕ → Row → Except StdException Bool) :
    List (ℕ × Row) → Except StdException (List ℕ)
  | [] => .ok []
  | (r, row) :: rest => do
    let hit ← pred r row
    let rids ← matching pred rest
    return if hit then r :: rids else rids

/-- **A call on the map**: its result and the map it leaves. -/
def apply (s : Schema) (a : RowMap) : TableOp σ → TableResult σ × RowMap
  | .insert row => (.inserted (.ok a.next), a.insert (s.columnValues row))
  | .delete rowid => (.deleted (a.rows rowid).isSome, a.delete rowid)
  | .deleteWhere pred =>
    match matching pred a.all with
    | .error e => (.deletedWhere (.error e), a)
    | .ok rids => (.deletedWhere (.ok rids.length), rids.foldl delete a)
  | .find rowid => (.found (a.rows rowid), a)
  | .scan cb st => (.scanned (visit cb a.all 0 st), a)

/-- How far a call moves the next rowid. -/
theorem next_apply (s : Schema) (a : RowMap) (op : TableOp σ) :
    (a.apply s op).2.next = a.next + op.inserts := by
  have hfold : ∀ rids : List ℕ, (rids.foldl delete a).next = a.next := by
    intro rids
    induction rids using List.reverseRecOn with
    | nil => rfl
    | append_singleton rids r ih => rw [List.foldl_append]; exact ih
  cases op with
  | deleteWhere pred =>
    rw [apply]
    split
    · rfl
    · exact hfold _
  | _ => rfl

/-! ## Scans -/

/-- The rows from a rowid on, by the first of them. -/
theorem between_succ (a : RowMap) (r n : ℕ) : a.between r (n + 1) = match a.rows r with
    | none => a.between (r + 1) n
    | some row => (r, row) :: a.between (r + 1) n := by
  rw [between, List.range'_succ, List.filterMap_cons]
  cases a.rows r <;> rfl

/-- **A visit that never stops** is a fold over the rows. -/
theorem visit_eq_foldl {cb : Table.Callback σ} {g : σ → Row → σ}
    (h : ∀ r row st, cb r row st = .ok (true, g st row)) : ∀ (rows : List (ℕ × Row)) (count : ℕ)
      (st : σ), visit cb rows count st = .ok (count + rows.length, (rows.map Prod.snd).foldl g st)
  | [], count, st => rfl
  | (r, row) :: rest, count, st => by
    rw [visit, h]
    refine (visit_eq_foldl h rest (count + 1) (g st row)).trans ?_
    rw [List.length_cons, List.map_cons, List.foldl_cons, Nat.add_right_comm, Nat.add_assoc]

/-- **What `delete_where` collects** while it scans. -/
theorem visit_collect (pred : ℕ → Row → Except StdException Bool) :
    ∀ (l : List (ℕ × Row)) (count : ℕ) (acc : List ℕ),
      (∃ e, visit (Table.collect pred) l count acc = .error e ∧ matching pred l = .error e)
      ∨ ∃ rids, visit (Table.collect pred) l count acc = .ok (count + l.length, acc ++ rids)
        ∧ matching pred l = .ok rids
  | [], count, acc => Or.inr ⟨[], by simp [visit], rfl⟩
  | (r, row) :: l, count, acc => by
    rw [visit, matching]
    cases hp : pred r row with
    | error e =>
      have hstep : Table.collect pred r row acc = .error e := by rw [Table.collect, hp]
      exact Or.inl ⟨e, by rw [hstep], rfl⟩
    | ok hit =>
      have hstep : Table.collect pred r row acc = .ok (true, if hit then acc ++ [r] else acc) := by
        rw [Table.collect, hp]
      rw [hstep, Except.ok_bind_eq]
      rcases visit_collect pred l (count + 1) (if hit then acc ++ [r] else acc) with
        ⟨e, hv, hm⟩ | ⟨rids, hv, hm⟩
      · exact Or.inl ⟨e, hv, by rw [hm]; rfl⟩
      · refine Or.inr ⟨if hit then r :: rids else rids, ?_, by rw [hm]; rfl⟩
        simp only [hv, List.length_cons]
        cases hit <;> simp <;> omega

/-- The rowids collected are rowids of rows, each once. -/
theorem matching_spec (pred : ℕ → Row → Except StdException Bool) (a : RowMap) :
    ∀ (n r : ℕ) (rids : List ℕ), matching pred (a.between r n) = .ok rids →
      rids.Nodup ∧ ∀ k ∈ rids, r ≤ k ∧ k < r + n ∧ (a.rows k).isSome
  | 0, r, rids, h => by
    rw [show a.between r 0 = [] from rfl] at h
    rw [← Except.ok.inj h]
    simp
  | n + 1, r, rids, h => by
    rw [between_succ] at h
    cases hr : a.rows r with
    | none =>
      rw [hr] at h
      obtain ⟨hnd, hmem⟩ := matching_spec pred a n (r + 1) rids h
      refine ⟨hnd, fun k hk => ?_⟩
      obtain ⟨h1, h2, h3⟩ := hmem k hk
      exact ⟨by omega, by omega, h3⟩
    | some row =>
      rw [hr] at h
      obtain ⟨hit, -, h⟩ := Except.bind_eq_ok.mp h
      obtain ⟨rest, hrest, h⟩ := Except.bind_eq_ok.mp h
      obtain ⟨hnd, hmem⟩ := matching_spec pred a n (r + 1) rest hrest
      have hrids : rids = if hit then r :: rest else rest := (Except.ok.inj h).symm
      have htail : ∀ k ∈ rest, r ≤ k ∧ k < r + (n + 1) ∧ (a.rows k).isSome := by
        intro k hk
        obtain ⟨h1, h2, h3⟩ := hmem k hk
        exact ⟨by omega, by omega, h3⟩
      have hnot : r ∉ rest := fun hk => by
        have := (hmem r hk).1
        omega
      rw [hrids]
      split
      case isTrue =>
        refine ⟨List.nodup_cons.mpr ⟨hnot, hnd⟩, fun k hk => ?_⟩
        rcases List.mem_cons.mp hk with rfl | hk
        · exact ⟨le_rfl, by omega, by rw [hr]; rfl⟩
        · exact htail k hk
      case isFalse => exact ⟨hnd, htail⟩

end RowMap
