import SqlMini.Schema

/-!
# The two readings of a `WHERE` predicate

A `WHERE` clause is one comparison of a column with a literal. A plain
`SELECT` evaluates it on the typed row (`matchWhere`), a join on the
concatenation of two printed rows (`matchWhereCombined`), where the types
are gone: there a numeric comparison is attempted first, and the strings are
compared when `std::stoi` rejects one of them.

On a column of integers the two agree. On a column of texts they agree
exactly as far as the attempt fails: when both strings start with a number
the join compares the numbers (`matchWhereCombined_eq`).
-/

/-- **A `WHERE` clause**, inactive where the statement has none. -/
structure WhereClause where
  /-- Whether the statement has a `WHERE`. -/
  active : Bool
  /-- The column reference. -/
  col : ByteString
  /-- The operator. -/
  op : ByteString
  /-- The literal. -/
  val : ByteString

namespace SqlEngine

/-! ## The evaluators -/

/-- The chain of tests `if (op == "=") return a == b; …`, nothing where the
operator is none of the six. -/
def applyOp {α : Type} [DecidableEq α] [LT α] [LE α] [DecidableLT α] [DecidableLE α]
    (op : ByteString) (a b : α) : Option Bool :=
  if op = ascii "=" then some (a = b)
  else if op = ascii "!=" then some (a ≠ b)
  else if op = ascii "<" then some (a < b)
  else if op = ascii ">" then some (a > b)
  else if op = ascii "<=" then some (a ≤ b)
  else if op = ascii ">=" then some (a ≥ b)
  else none

/-- `match_where`. -/
def matchWhere (row : Row) (schema : Schema) (wh : WhereClause) : Except StdException Bool := do
  if !wh.active then return true
  let ci := schema.findCol wh.col
  if ci < 0 ∨ row.length ≤ ci then return false
  let v := row.getD ci.toNat default
  if (schema.cols.getD ci.toNat default).type = .int then
    let cv ← CppString.stoi wh.val
    return (applyOp wh.op v.intVal.val cv.val).getD false
  else
    return (applyOp wh.op v.strVal wh.val).getD false

/-- The byte `.`. -/
abbrev dot : UInt8 := 46

/-- A combined column name without its table. -/
def bareName (col : ByteString) : ByteString :=
  if dot ∈ col then (col.dropWhile (· ≠ dot)).tail else col

/-- The loop of `resolve_col` over bare names: `found` is the match so far
and `i` the index of the next column. -/
def resolveBare (ref : ByteString) : (cols : List ByteString) → (i : ℕ) → (found : ℤ) → ℤ
  | [], _, found => found
  | c :: cs, i, found =>
    if bareName c = ref then
      if found ≠ -1 then -2 else resolveBare ref cs (i + 1) i
    else resolveBare ref cs (i + 1) found

/-- `resolve_col`: the index of the column a reference names, `-1` where it
names none and `-2` where a bare name is ambiguous. -/
def resolveCol (ref : ByteString) (combinedCols : List ByteString) : ℤ :=
  if dot ∈ ref then
    match combinedCols.findIdx? (fun c => c = ref) with
    | some i => i
    | none => -1
  else resolveBare ref combinedCols 0 (-1)

/-- `match_where_combined`. -/
def matchWhereCombined (row : List ByteString) (combinedCols : List ByteString)
    (wh : WhereClause) : Bool :=
  if !wh.active then true
  else
    let ci := resolveCol wh.col combinedCols
    if ci < 0 ∨ row.length ≤ ci then false
    else
      let rv := row.getD ci.toNat []
      let strings := (applyOp wh.op rv wh.val).getD false
      match CppString.stoi rv, CppString.stoi wh.val with
      | .ok ri, .ok ci2 => (applyOp wh.op ri.val ci2.val).getD strings
      | _, _ => strings

/-- The combined column names a join builds for the table `t`. -/
def combinedCols (t : ByteString) (schema : Schema) : List ByteString :=
  schema.cols.map (fun c => t ++ dot :: c.name)

/-! ## Resolving a column -/

/-- The six comparison operators. -/
def comparisons : List ByteString :=
  [ascii "=", ascii "!=", ascii "<", ascii ">", ascii "<=", ascii ">="]

section Operators

variable {α : Type} [DecidableEq α] [LT α] [LE α] [DecidableLT α] [DecidableLE α]

/-- The chain of tests answers for a comparison operator. -/
theorem applyOp_isSome {op : ByteString} (hop : op ∈ comparisons) (a b : α) :
    ∃ r, applyOp op a b = some r := by
  simp only [comparisons, List.mem_cons, List.not_mem_nil, or_false] at hop
  rcases hop with rfl | rfl | rfl | rfl | rfl | rfl
  · exact ⟨_, rfl⟩
  · exact ⟨_, rfl⟩
  · exact ⟨_, rfl⟩
  · exact ⟨_, rfl⟩
  · exact ⟨_, rfl⟩
  · exact ⟨_, rfl⟩

end Operators

/-- The bare name of `t.name` is `name`. -/
theorem bareName_combined {t : ByteString} (ht : dot ∉ t) (name : ByteString) :
    bareName (t ++ dot :: name) = name := by
  have hdrop : (t ++ dot :: name).dropWhile (· ≠ dot) = dot :: name := by
    rw [List.dropWhile_append_of_pos (fun b hb => by
      simpa using fun h : b = dot => ht (h ▸ hb))]
    simp
  unfold bareName
  rw [if_pos (by simp), hdrop]
  rfl

/-- No further column matches, so the match so far stands. -/
theorem resolveBare_of_forall_ne {ref : ByteString} {found : ℤ} :
    ∀ (cols : List ByteString) (i : ℕ), (∀ c ∈ cols, bareName c ≠ ref) →
      resolveBare ref cols i found = found
  | [], _, _ => rfl
  | c :: cs, i, h => by
    rw [resolveBare, if_neg (h c List.mem_cons_self)]
    exact resolveBare_of_forall_ne cs (i + 1) (fun d hd => h d (List.mem_cons_of_mem c hd))

/-- **A bare name that occurs once is resolved** to where it occurs. -/
theorem resolveBare_of_nodup {ref : ByteString} :
    ∀ (cols : List ByteString) (i k : ℕ), (cols.map bareName).Nodup →
      (cols.map bareName)[k]? = some ref → resolveBare ref cols i (-1) = (i + k : ℕ)
  | [], _, k, _, hk => by simp at hk
  | c :: cs, i, 0, hnd, hk => by
    have hc : bareName c = ref := by simpa using hk
    rw [List.map_cons, List.nodup_cons] at hnd
    rw [resolveBare, if_pos hc, if_neg (by simp)]
    refine resolveBare_of_forall_ne cs (i + 1) (fun d hd hdr => hnd.1 ?_)
    rw [hc, ← hdr]
    exact List.mem_map_of_mem hd
  | c :: cs, i, k + 1, hnd, hk => by
    rw [List.map_cons, List.nodup_cons] at hnd
    have hk' : (cs.map bareName)[k]? = some ref := by simpa using hk
    have hc : bareName c ≠ ref := by
      intro h
      exact hnd.1 (h ▸ List.mem_of_getElem? hk')
    rw [resolveBare, if_neg hc, resolveBare_of_nodup cs (i + 1) k hnd.2 hk']
    omega

variable {schema : Schema} {t : ByteString} {k : ℕ} {c : Column}

/-- **The join resolves a column of the table** to its position. -/
theorem resolveCol_combinedCols (hnd : (schema.cols.map Column.name).Nodup)
    (ht : dot ∉ t) (hdot : dot ∉ c.name) (hc : schema.cols[k]? = some c) :
    resolveCol c.name (combinedCols t schema) = (k : ℤ) := by
  have hmap : (combinedCols t schema).map bareName = schema.cols.map Column.name := by
    rw [combinedCols, List.map_map]
    exact List.map_congr_left (fun d _ => bareName_combined ht d.name)
  have hk : ((combinedCols t schema).map bareName)[k]? = some c.name := by
    rw [hmap, List.getElem?_map, hc]
    rfl
  have h := resolveBare_of_nodup (combinedCols t schema) 0 k (by rw [hmap]; exact hnd) hk
  rw [resolveCol, if_neg hdot, h, Nat.zero_add]

/-- **A plain `SELECT` resolves it to the same position.** -/
theorem findCol_of_nodup (hnd : (schema.cols.map Column.name).Nodup)
    (hc : schema.cols[k]? = some c) : schema.findCol c.name = (k : ℤ) := by
  have hk : k < schema.cols.length := (List.getElem?_eq_some_iff.mp hc).1
  have hck : schema.cols[k] = c := (List.getElem?_eq_some_iff.mp hc).2
  have hfind : schema.cols.findIdx? (fun d => d.name = c.name) = some k := by
    rw [List.findIdx?_eq_some_iff_getElem]
    refine ⟨hk, by simp [hck], fun j hj => ?_⟩
    have hne : schema.cols[j].name ≠ c.name := by
      intro he
      have h1 : (schema.cols.map Column.name)[j]? = (schema.cols.map Column.name)[k]? := by
        simp [hj.trans hk, hk, he, hck]
      have h2 := (List.getElem?_inj (by simpa using hj.trans hk) hnd).mp h1
      omega
    simpa using hne
  rw [Schema.findCol, hfind]

/-! ## Comparing the readings -/

section Compare

variable {row : Row} {v : Value} {op val : ByteString}

/-- What a plain `SELECT` computes for a comparison of column `k`. -/
theorem matchWhere_eq (hnd : (schema.cols.map Column.name).Nodup)
    (hc : schema.cols[k]? = some c) (hv : row[k]? = some v) :
    matchWhere row schema ⟨true, c.name, op, val⟩
      = if c.type = .int then do
          let cv ← CppString.stoi val
          return (applyOp op v.intVal.val cv.val).getD false
        else .ok ((applyOp op v.strVal val).getD false) := by
  have hk : k < row.length := (List.getElem?_eq_some_iff.mp hv).1
  have hcol : schema.cols.getD k default = c := by simp [hc]
  have hval : row.getD k default = v := by simp [hv]
  unfold matchWhere
  simp only [Bool.not_true, Bool.false_eq_true, if_false, findCol_of_nodup hnd hc]
  rw [if_neg (by omega), Int.toNat_natCast, hcol, hval]
  rfl

/-- What a join computes for it on the printed row. -/
theorem matchWhereCombined_eq_cases (hnd : (schema.cols.map Column.name).Nodup)
    (ht : dot ∉ t) (hdot : dot ∉ c.name) (hc : schema.cols[k]? = some c)
    (hv : row[k]? = some v) :
    matchWhereCombined (row.map Value.toString) (combinedCols t schema) ⟨true, c.name, op, val⟩
      = match CppString.stoi v.toString, CppString.stoi val with
        | .ok ri, .ok ci2 =>
          (applyOp op ri.val ci2.val).getD ((applyOp op v.toString val).getD false)
        | _, _ => (applyOp op v.toString val).getD false := by
  have hk : k < row.length := (List.getElem?_eq_some_iff.mp hv).1
  have hval : (row.map Value.toString).getD k [] = v.toString := by simp [hv]
  unfold matchWhereCombined
  simp only [Bool.not_true, Bool.false_eq_true, if_false,
    resolveCol_combinedCols hnd ht hdot hc, List.length_map]
  rw [if_neg (by omega), Int.toNat_natCast, hval]

/-- **How the two readings of a `WHERE` compare.** For a comparison a plain
`SELECT` evaluates to `b`: on a column of integers a join evaluates it to
`b`. On any other column a plain `SELECT` compares the strings, and a join
compares the numbers the two strings start with where both start with one,
and otherwise evaluates to `b`. -/
theorem matchWhereCombined_eq {b : Bool} (hnd : (schema.cols.map Column.name).Nodup)
    (hdot : ∀ d ∈ schema.cols, dot ∉ d.name) (ht : dot ∉ t) (hrow : schema.FullRow row)
    (hc : schema.cols[k]? = some c) (hv : row[k]? = some v) (hop : op ∈ comparisons)
    (hb : matchWhere row schema ⟨true, c.name, op, val⟩ = .ok b) :
    (c.type = .int →
      matchWhereCombined (row.map Value.toString) (combinedCols t schema)
        ⟨true, c.name, op, val⟩ = b) ∧
    (c.type ≠ .int →
      applyOp op v.strVal val = some b ∧
      matchWhereCombined (row.map Value.toString) (combinedCols t schema)
        ⟨true, c.name, op, val⟩
        = match CppString.stoi v.strVal, CppString.stoi val with
          | .ok x, .ok y => (applyOp op x.val y.val).getD false
          | _, _ => b) := by
  have htype : v.type = c.type := by
    have h : (row.map Value.type)[k]? = (schema.cols.map Column.type)[k]? := by rw [hrow]
    simpa [hc, hv] using h
  rw [matchWhere_eq hnd hc hv] at hb
  rw [matchWhereCombined_eq_cases hnd ht (hdot c (List.mem_of_getElem? hc)) hc hv]
  constructor
  · intro hint
    rw [if_pos hint] at hb
    obtain ⟨cv, hcv, hb⟩ := Except.bind_eq_ok.mp hb
    obtain ⟨r, hr⟩ := applyOp_isSome hop v.intVal.val cv.val
    rw [hr] at hb
    -- an integer is printed so that it is read back
    have hprint : CppString.stoi v.toString = .ok v.intVal := by
      rw [Value.toString, if_pos (htype.trans hint), CppString.stoi_toDecimal]
    simp only [hprint, hcv, hr, Option.getD_some]
    exact Except.ok.inj hb
  · intro htext
    obtain ⟨r, hr⟩ := applyOp_isSome hop v.strVal val
    rw [if_neg htext, hr] at hb
    have hrb : r = b := Except.ok.inj hb
    have hprint : v.toString = v.strVal := if_neg (fun h => htext (htype.symm.trans h))
    refine ⟨by rw [hr, hrb], ?_⟩
    rw [hprint, hr, Option.getD_some, hrb]
    cases hx : CppString.stoi v.strVal with
    | error e => rfl
    | ok x =>
      cases hy : CppString.stoi val with
      | error e => rfl
      | ok y =>
        obtain ⟨n, hn⟩ := applyOp_isSome hop x.val y.val
        simp only [hn, Option.getD_some]

/-- A schema with one column of texts. -/
def textSchema : Schema := ⟨ascii "t", [⟨ascii "s", .text, 255⟩]⟩

/-- On a column of texts that holds `abc`, compared with `abd`, both
readings agree. -/
theorem matchWhereCombined_eq_abc :
    applyOp (ascii "<") (ascii "abc") (ascii "abd") = some true ∧
    matchWhereCombined [ascii "abc"] (combinedCols (ascii "t") textSchema)
      ⟨true, ascii "s", ascii "<", ascii "abd"⟩ = true :=
  (@matchWhereCombined_eq textSchema (ascii "t") 0 _ [.makeText (ascii "abc")] _ (ascii "<")
    (ascii "abd") true (by decide) (by decide) (by decide) rfl rfl rfl (by decide)
    (by decide)).2 (by decide)

/-- **The readings differ on numeric texts**: a column of texts that holds
`01`, compared with `1`. -/
theorem matchWhereCombined_ne_numeric :
    (textSchema.cols.map Column.name).Nodup ∧ (∀ d ∈ textSchema.cols, dot ∉ d.name) ∧
    textSchema.FullRow [.makeText (ascii "01")] ∧
    matchWhere [.makeText (ascii "01")] textSchema ⟨true, ascii "s", ascii "=", ascii "1"⟩
      = .ok false ∧
    matchWhereCombined ([Value.makeText (ascii "01")].map Value.toString)
      (combinedCols (ascii "t") textSchema) ⟨true, ascii "s", ascii "=", ascii "1"⟩ = true :=
  ⟨by decide, by decide, rfl, by decide, by decide⟩

end Compare

end SqlEngine
