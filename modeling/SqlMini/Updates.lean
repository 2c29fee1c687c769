import SqlMini.Grammar

/-!
# Insertions and deletions

The documented forms of `INSERT INTO` and `DELETE FROM` as token lists, and
what their executors do on them.

The list of values ends at the first token `)`, whether it is the bracket that
closes the list or a literal (`commaList_closes`). So an insertion is executed
with the values before such a literal (`effect_execInsert`).
-/

namespace SqlEngine

open Routine

variable {α : Type} {toks ts : List ByteString} {e : Engine} {t : ByteString}

/-! ## Lists in brackets -/

/-- **A list in brackets** is read up to the first token `)`. -/
theorem commaList_closes : ∀ vs ts : List ByteString,
    (commaList closes (separated vs ++ ascii ")" :: ts)).1 = vs.takeWhile (fun v => !closes v)
  | [], [] => rfl
  | [], _ :: _ => rfl
  | [v], ts => by
    have hend : (commaList closes (ascii ")" :: ts)).1 = [] := commaList_closes [] ts
    rw [separated, List.cons_append, List.nil_append, commaList]
    cases h : closes v with
    | true => simp [h]
    | false =>
      rw [if_neg Bool.false_ne_true, if_neg (by decide : ¬ ascii ")" = ascii ",")]
      show v :: (commaList closes (ascii ")" :: ts)).1 = _
      rw [hend]
      simp [h]
  | v :: w :: vs, ts => by
    have ih := commaList_closes (w :: vs) ts
    rw [separated, List.cons_append, List.cons_append, commaList]
    cases h : closes v with
    | true => simp [h]
    | false =>
      rw [if_neg Bool.false_ne_true, if_pos rfl]
      show v :: (commaList closes (separated (w :: vs) ++ ascii ")" :: ts)).1 = _
      rw [ih, List.takeWhile_cons (p := fun v => !closes v) (a := v), h]
      rfl

theorem closes_comma : closes (ascii ",") = false := by decide

/-! ## INSERT INTO -/

/-- **An insertion.** -/
structure InsertStmt where
  table : ByteString
  /-- The column list, empty where there is none. -/
  cols : List ByteString
  vals : List ByteString

/-- The tokens before and after an item of a list. -/
theorem separated_append (xs : List ByteString) (v : ByteString) (ys : List ByteString) :
    separated (xs ++ v :: ys)
      = xs.flatMap (fun x => [x, ascii ","]) ++ v :: ys.flatMap (fun y => [ascii ",", y]) := by
  induction xs with
  | nil =>
    induction ys generalizing v with
    | nil => rfl
    | cons y ys ih =>
      have ih' := ih y
      rw [List.nil_append, List.flatMap_nil, List.nil_append] at ih' ⊢
      rw [separated, ih']
      rfl
  | cons x xs ih =>
    obtain ⟨u, us, hu⟩ := List.exists_cons_of_ne_nil (List.append_ne_nil_of_right_ne_nil xs
      (List.cons_ne_nil v ys))
    have hx : separated (x :: (xs ++ v :: ys)) = x :: ascii "," :: separated (xs ++ v :: ys) := by
      rw [hu]
      rfl
    rw [List.cons_append, hx, ih]
    rfl

/-- The tokens of a column list. -/
inductive ColumnTokens : List ByteString → List ByteString → Prop
  | absent : ColumnTokens [] []
  | list (c : ByteString) (cs : List ByteString) (hcols : ∀ x ∈ c :: cs, closes x = false) :
      ColumnTokens (c :: cs) (ascii "(" :: (separated (c :: cs) ++ [ascii ")"]))

/-- **The tokens of an insertion.** -/
inductive InsertTokens (st : InsertStmt) : List ByteString → Prop
  | mk {insert into values : ByteString} {cols : List ByteString}
      (hinsert : Keyword "INSERT" insert)
      (hinto : Keyword "INTO" into) (hcols : ColumnTokens st.cols cols)
      (hvalues : Keyword "VALUES" values) (hvals : st.vals ≠ []) :
      InsertTokens st (insert :: into :: st.table :: (cols ++ values :: ascii "("
        :: (separated st.vals ++ [ascii ")"])))

variable {st : InsertStmt}

theorem columnList_tokens {cols : List ByteString} (h : ColumnTokens cols toks)
    (ht : Keyword "VALUES" t) : columnList ⟨toks ++ t :: ts, e⟩ = .ok (.ok cols, ⟨t :: ts, e⟩) := by
  unfold columnList
  cases h with
  | absent =>
    have hne : t ≠ ascii "(" := by
      rintro rfl
      exact absurd ht (by decide)
    exact (bind_ahead_false (fun u hu => decide_eq_false (Option.some.inj hu ▸ hne))).trans rfl
  | list c cs hcols =>
    have hlist := commaList_separated closes_comma (c :: cs) (ascii ")" :: t :: ts) hcols
      (fun x hx => by rw [← Option.some.inj hx]; rfl)
    rw [List.cons_append, List.append_assoc, List.singleton_append, bind_ahead_true rfl, if_pos rfl,
      bind_of_ok skip_cons]
    refine (bind_of_ok list_apply).trans ?_
    rw [hlist]
    exact bind_of_ok skip_cons

/-- **The execution of an insertion.** -/
def runInsert (st : InsertStmt) : EngineM ByteString := do
  openTable st.table none
  let schema ← schemaOf st.table
  let row ← ofExcept (insertedRow schema st.cols st.vals)
  let r ← onTable st.table (fun t => t.insertRow row)
  let rowid ← ofExcept r
  return ascii "Inserted 1 row (rowid=" ++ CppString.digitsOf rowid ++ ascii ")."

/-- **The row without a column list**: a value for each column, read for the
type of the column. -/
theorem positionalRow_spec : ∀ (cs : List Column) (vs : List ByteString) (row : Row),
    positionalRow cs vs = .ok row → row.length = cs.length
      ∧ ∀ (k : ℕ) (c : Column) (v : ByteString), cs[k]? = some c → vs[k]? = some v →
        ∃ x, literal c.type v = .ok x ∧ row[k]? = some x
  | [], vs, row, h => by
    have hnil : row = [] := (Except.ok.inj h).symm
    rw [hnil]
    exact ⟨rfl, by simp⟩
  | c :: cs, [], row, h => by
    rw [← Except.ok.inj h]
    exact ⟨List.length_replicate, by simp⟩
  | c :: cs, v :: vs, row, h => by
    rw [positionalRow] at h
    obtain ⟨x, hx, h⟩ := Except.bind_eq_ok.mp h
    obtain ⟨rest, hrest, h⟩ := Except.bind_eq_ok.mp h
    obtain ⟨hlen, hval⟩ := positionalRow_spec cs vs rest hrest
    rw [← Except.ok.inj h]
    refine ⟨congrArg (· + 1) hlen, fun k c' v' hc hv => ?_⟩
    cases k with
    | zero =>
      obtain rfl := Option.some.inj hc
      obtain rfl := Option.some.inj hv
      exact ⟨x, hx, rfl⟩
    | succ k => exact hval k c' v' hc hv

/-- **The row with a column list**: the last value given for a column. -/
theorem namedRow_spec {schema : Schema} : ∀ (cs vs : List ByteString) (row row' : Row),
    namedRow schema cs vs row = .ok row' → row'.length = row.length
      ∧ (∀ i : ℕ, (∀ c ∈ cs, schema.findCol c ≠ i) → row'[i]? = row[i]?)
      ∧ ∀ (k : ℕ) (front back : List ByteString) (c v : ByteString) (i : ℕ),
        cs = front ++ c :: back →
        front.length = k → vs[k]? = some v → schema.findCol c = i →
        (∀ d ∈ back, schema.findCol d ≠ i) → i < row.length →
        ∃ x, literal (schema.cols.getD i default).type v = .ok x ∧ row'[i]? = some x
  | [], vs, row, row', h => by
    have hrow : row' = row := by
      cases vs <;> exact (Except.ok.inj h).symm
    rw [hrow]
    exact ⟨rfl, fun _ _ => rfl, by simp⟩
  | c :: cs, [], row, row', h => by
    rw [← Except.ok.inj h]
    exact ⟨rfl, fun _ _ => rfl, by simp⟩
  | c :: cs, v :: vs, row, row', h => by
    rw [namedRow] at h
    by_cases hneg : schema.findCol c < 0
    · simp only [if_pos hneg] at h
      cases h
    simp only [if_neg hneg] at h
    obtain ⟨x, hx, h⟩ := Except.bind_eq_ok.mp h
    obtain ⟨hlen, hkeep, htarget⟩ := namedRow_spec cs vs _ row' h
    rw [List.length_set] at hlen htarget
    refine ⟨hlen, fun i hi => ?_, fun k front back d w i hcs hk hw hd hback hlt => ?_⟩
    · have hne : (schema.findCol c).toNat ≠ i := by
        have hci := hi c List.mem_cons_self
        omega
      rw [hkeep i (fun d hd => hi d (List.mem_cons_of_mem c hd)), List.getElem?_set_ne hne]
    · cases front with
      | nil =>
        obtain ⟨rfl, rfl⟩ := List.cons.inj hcs
        obtain rfl := hk
        obtain rfl : v = w := Option.some.inj hw
        have hi : (schema.findCol c).toNat = i := by omega
        rw [hi] at hx
        refine ⟨x, hx, ?_⟩
        rw [hkeep i hback, hi, List.getElem?_set_self hlt]
      | cons f front =>
        obtain ⟨rfl, rfl⟩ := List.cons.inj hcs
        obtain rfl := hk
        exact htarget front.length front back d w i rfl rfl hw hd hback hlt

/-- **The column** that the value at an index goes to. -/
inductive Target (schema : Schema) (cols : List ByteString) (k ci : ℕ) : Prop
  | positional (hcols : cols = []) (hci : ci = k)
  | named (front : List ByteString) (c : ByteString) (back : List ByteString)
      (hcols : cols = front ++ c :: back) (hk : front.length = k) (hlast : c ∉ back)
      (hci : schema.findCol c = ci)

/-- A name is found at its first column. -/
theorem eq_of_findCol {schema : Schema} {c d : ByteString} {i : ℕ} (hc : schema.findCol c = i)
    (hd : schema.findCol d = i) : c = d := by
  have hname : ∀ {x : ByteString}, schema.findCol x = i →
      ∃ col, schema.cols[i]? = some col ∧ col.name = x := by
    intro x hx
    unfold Schema.findCol at hx
    split at hx
    case h_1 j hj =>
      obtain ⟨hlt, hp, -⟩ := List.findIdx?_eq_some_iff_getElem.mp hj
      obtain rfl : j = i := by omega
      exact ⟨schema.cols[j], List.getElem?_eq_getElem hlt, of_decide_eq_true hp⟩
    case h_2 => omega
  obtain ⟨col, hcol, rfl⟩ := hname hc
  obtain ⟨col', hcol', rfl⟩ := hname hd
  rw [hcol] at hcol'
  rw [Option.some.inj hcol']

/-- **The value of a text column** in the row inserted is the literal. -/
theorem insertedRow_spec {schema : Schema} {cols vs : List ByteString} {row : Row}
    (h : insertedRow schema cols vs = .ok row) : row.length = schema.cols.length
      ∧ ∀ (k ci : ℕ) (v : ByteString) (col : Column), Target schema cols k ci → vs[k]? = some v →
        schema.cols[ci]? = some col → col.type = .text → row[ci]? = some (Value.makeText v) := by
  have hne : ¬ ColType.text = .int := by decide
  unfold insertedRow at h
  by_cases hcols : cols = []
  · rw [if_pos hcols] at h
    obtain ⟨hlen, hval⟩ := positionalRow_spec _ _ _ h
    refine ⟨hlen, fun k ci v col ht hv hcol htext => ?_⟩
    cases ht with
    | positional _ hci =>
      obtain rfl := hci
      obtain ⟨x, hx, hrow⟩ := hval _ _ _ hcol hv
      rw [literal, htext, if_neg hne] at hx
      rw [hrow, ← Except.ok.inj hx]
    | named front c back hcs =>
      rw [hcols] at hcs
      exact absurd hcs.symm (List.append_ne_nil_of_right_ne_nil front (List.cons_ne_nil c back))
  · rw [if_neg hcols] at h
    obtain ⟨hlen, -, hval⟩ := namedRow_spec _ _ _ _ h
    rw [List.length_replicate] at hlen hval
    refine ⟨hlen, fun k ci v col ht hv hcol htext => ?_⟩
    cases ht with
    | positional hnil => exact absurd hnil hcols
    | named front c back hcs hk hlast hci =>
      obtain ⟨x, hx, hrow⟩ := hval k front back c v ci hcs hk hv hci
        (fun d hd he => hlast (eq_of_findCol hci he ▸ hd)) (List.getElem?_eq_some_iff.mp hcol).1
      rw [List.getD_eq_getElem?_getD, hcol, Option.getD_some, literal, htext, if_neg hne] at hx
      rw [hrow, ← Except.ok.inj hx]

/-! ## DELETE FROM -/

/-- **The tokens of a deletion.** -/
inductive DeleteTokens (table : ByteString) (wh : Option Predicate) : List ByteString → Prop
  | mk {delete frm : ByteString} {wheres : List ByteString} (hdelete : Keyword "DELETE" delete)
      (hfrom : Keyword "FROM" frm) (hwhere : WhereTokens wh wheres) :
      DeleteTokens table wh (delete :: frm :: table :: wheres)

/-- **The execution of a deletion.** -/
def runDelete (table : ByteString) (wh : WhereClause) : EngineM ByteString := do
  openTable table none
  let schema ← schemaOf table
  let r ← readTable table (fun t => t.deleteWhere (fun _ row => matchWhere row schema wh))
  let deleted ← ofExcept r
  return ascii "Deleted " ++ CppString.digitsOf deleted ++ ascii " row(s)."

/-- **`exec_delete`**, once its clause is read. -/
theorem effect_execDelete_of_where {delete frm table : ByteString} {rest ts : List ByteString}
    {wh : WhereClause} (hdelete : Keyword "DELETE" delete) (hfrom : Keyword "FROM" frm)
    (hwhere : ∀ e : Engine, whereClause ⟨ts, e⟩ = .ok (.ok wh, ⟨rest, e⟩)) (e : Engine) :
    effect execDelete (delete :: frm :: table :: ts) e = runDelete table wh e := by
  unfold execDelete runDelete
  rw [effect_bind_of_ok (expectNamed_of_keyword hdelete),
    effect_bind_of_ok (expectNamed_of_keyword hfrom), effect_bind_of_ok ahead_cons]
  simp only [Bool.not_true, if_neg Bool.false_ne_true]
  rw [effect_bind_of_ok next_cons, effect_onEngine_bind]
  refine congrFun (congrArg (Routine.bind _) ?_) e
  funext _ e
  rw [effect_onEngine_bind]
  refine congrFun (congrArg (Routine.bind _) ?_) e
  funext schema e
  rw [effect_bind_of_ok (hwhere e), effect_onEngine_bind]
  refine congrFun (congrArg (Routine.bind _) ?_) e
  funext r e
  rw [effect_ofExcept_bind]
  rfl

/-- **`exec_delete`** on a deletion of the grammar, and whatever follows it. -/
theorem effect_execDelete {table : ByteString} {wh : Option Predicate}
    (h : DeleteTokens table wh toks) (hts : ∀ t ∈ ts.head?, ¬ Keyword "WHERE" t) (e : Engine) :
    effect execDelete (toks ++ ts) e = runDelete table (clauseOf wh) e := by
  cases h with
  | @mk delete frm wheres hdelete hfrom hwhere =>
  exact effect_execDelete_of_where hdelete hfrom (fun _ => whereClause_tokens hwhere hts) e

end SqlEngine
