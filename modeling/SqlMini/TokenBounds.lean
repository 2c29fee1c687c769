import SqlMini.EngineTables
import SqlMini.Grammar

/-!
# Reading past the last token

The parsers read most tokens as `toks[i++]` without looking whether there is
one. Here is where each of them runs off the list, as the token lists on which
it does: a statement cut off behind `INTO`, behind `FROM`, behind a `WHERE` with
less than three tokens after it, behind `LIMIT`, or inside the `ON` of a join
(`InsertCut`, `SelectCut`, `DeleteCut`, `JoinCut`). The parser of `CREATE TABLE`
looks every time.

Where a table has to be opened first, the statement runs off only if that
succeeds. A join is parsed before its tables are opened.
-/

namespace SqlEngine

open Routine

variable {α β : Type} {name : ByteString} {ts rest : List ByteString} {e e' : Engine}

/-! ## The engine -/

/-- **Work on the engine** reads no tokens. -/
theorem avoids_openTable (name : ByteString) (sc : Option Schema) :
    Avoids .pastEnd (openTable name sc) := by
  unfold openTable
  refine Avoids.bind (nofun : Avoids _ get) (fun e => ?_)
  split
  case h_1 => exact avoids_pure ()
  case h_2 =>
    simp only
    split
    case isTrue => exact avoids_throw _
    case isFalse =>
      split
      case h_1 => exact nofun
      case h_2 => exact nofun

theorem avoids_schemaOf (name : ByteString) : Avoids .pastEnd (schemaOf name) := by
  intro e h
  unfold schemaOf at h
  split at h
  · cases h
  · cases h

theorem avoids_onTable (name : ByteString) (m : Table → PageProg (α × Table)) :
    Avoids .pastEnd (onTable name m) := by
  intro e h
  unfold onTable at h
  split at h
  · cases h
  · split at h
    · cases h
    · cases h

theorem avoids_readTable (name : ByteString) (m : Table → PageProg α) :
    Avoids .pastEnd (readTable name m) := avoids_onTable name _

theorem avoids_runSelect (tname : ByteString) (schema : Schema) (selCols : Option (List ByteString))
    (wh : WhereClause) (limit : ℤ) : Avoids .pastEnd (runSelect tname schema selCols wh limit) := by
  rcases runSelect_cases tname schema selCols wh with ⟨res, -, hall⟩ | ⟨cols, outIdx, hall⟩
  · intro e h
    rw [hall] at h
    cases h
  · rw [hall]
    refine Avoids.bind ?_ (fun f => avoids_pure _)
    split
    case isTrue =>
      refine Avoids.bind (avoids_ofExcept _) (fun target => Avoids.bind (avoids_readTable _ _) ?_)
      rintro (- | row)
      · exact avoids_pure _
      · exact avoids_pure _
    case isFalse =>
      exact Avoids.bind (avoids_readTable _ _)
        (fun r => Avoids.bind (avoids_ofExcept r) (fun r => avoids_pure _))

theorem avoids_joinTables (q : JoinStmt) : Avoids .pastEnd (joinTables q) := by
  refine Avoids.bind (avoids_openTable _ _) (fun _ => Avoids.bind (avoids_openTable _ _) (fun _ =>
    Avoids.bind (avoids_schemaOf _) (fun ls => Avoids.bind (avoids_schemaOf _) (fun rs => ?_))))
  rcases runJoin_cases q ls rs with ⟨res, -, hall⟩ | ⟨outIdx, onLi, onRi, hl, hr, hsel⟩
  · intro e h
    have hres := hall q.limit e
    rw [show ({ q with limit := q.limit } : JoinStmt) = q from rfl, h] at hres
    cases hres
  · rw [runJoin_of_columns hl hr hsel]
    refine Avoids.bind ?_ (fun f => avoids_pure _)
    exact Avoids.bind (avoids_readTable _ _) (fun r => Avoids.bind (avoids_ofExcept r) (fun _ =>
      Avoids.bind (avoids_readTable _ _) (fun r => Avoids.bind (avoids_ofExcept r)
        (fun r => avoids_pure _))))

/-! ## The cursor -/

/-- **A parser runs off the list.** -/
def Off (m : ExecM α) (ts : List ByteString) (e : Engine) : Prop := m ⟨ts, e⟩ = .error .pastEnd

variable {k : α → ExecM β} {m : ExecM α}

theorem off_bind_of_ok {a : α} (h : m ⟨ts, e⟩ = .ok (.ok a, ⟨rest, e'⟩)) :
    Off (m >>= k) ts e ↔ Off (k a) rest e' := by
  unfold Off
  rw [bind_of_ok h]

theorem not_off_bind_of_throw {x : StdException} (h : m ⟨ts, e⟩ = .ok (.error x, ⟨rest, e'⟩)) :
    ¬ Off (m >>= k) ts e := by
  unfold Off
  rw [bind_of_throw h]
  exact nofun

theorem off_bind_of_stop (h : m ⟨ts, e⟩ = .error .pastEnd) : Off (m >>= k) ts e :=
  bind_of_stop h

/-- `toks[i++]`, without a look at the size. -/
theorem off_next {k : ByteString → ExecM β} :
    Off (next >>= k) ts e ↔ ts = [] ∨ ∃ t rest, ts = t :: rest ∧ Off (k t) rest e := by
  cases ts with
  | nil => exact iff_of_true (off_bind_of_stop next_nil) (Or.inl rfl)
  | cons t rest =>
    rw [off_bind_of_ok next_cons]
    simp

/-- **A keyword expected** is looked for, so what matters is the rest. -/
theorem off_expectToken {ending : ByteString} {s : String} {k : Unit → ExecM β} :
    Off (expectToken ending (ascii s) >>= k) ts e
      ↔ ∃ t rest, ts = t :: rest ∧ Keyword s t ∧ Off (k ()) rest e := by
  by_cases h : ∀ t ∈ ts.head?, ¬ Keyword s t
  · refine iff_of_false (not_off_bind_of_throw (expectToken_of_not h)) ?_
    rintro ⟨t, rest, rfl, ht, -⟩
    exact h t rfl ht
  · cases ts with
    | nil => exact absurd (fun t ht => by cases ht) h
    | cons t rest =>
      have ht : Keyword s t := by
        by_contra hno
        exact h (fun u hu => by rwa [← Option.some.inj hu])
      rw [off_bind_of_ok (expectToken_of_keyword ht)]
      constructor
      · intro hk
        exact ⟨t, rest, rfl, ht, hk⟩
      · rintro ⟨t', rest', heq, -, hk⟩
        obtain ⟨rfl, rfl⟩ := List.cons.inj heq
        exact hk

theorem off_expectPlain {s : String} {k : Unit → ExecM β} : Off (expectPlain s >>= k) ts e
    ↔ ∃ t rest, ts = t :: rest ∧ Keyword s t ∧ Off (k ()) rest e := off_expectToken

theorem off_expectNamed {s : String} {k : Unit → ExecM β} : Off (expectNamed s >>= k) ts e
    ↔ ∃ t rest, ts = t :: rest ∧ Keyword s t ∧ Off (k ()) rest e := off_expectToken

/-- **Work on the engine** before the rest. -/
theorem off_onEngine {n : EngineM α} (h : Avoids .pastEnd n) :
    Off (onEngine n >>= k) ts e ↔ ∃ a e', n e = .ok (.ok a, e') ∧ Off (k a) ts e' := by
  have hn : ∀ {r}, n e = r → onEngine n ⟨ts, e⟩
      = r.map (fun r => (r.1, (⟨ts, r.2⟩ : ExecState))) := by
    rintro r rfl
    rfl
  rcases hr : n e with f | ⟨x | a, e'⟩
  · have hf : f ≠ .pastEnd := fun hf => h e (hf ▸ hr)
    refine iff_of_false ?_ (by rintro ⟨a, e', ha, -⟩; cases ha)
    unfold Off
    rw [bind_of_stop (hn hr)]
    exact fun heq => hf (Except.error.inj heq)
  · exact iff_of_false (not_off_bind_of_throw (hn hr)) (by rintro ⟨a, e', ha, -⟩; cases ha)
  · rw [off_bind_of_ok (hn hr)]
    constructor
    · intro hk
      exact ⟨a, e', rfl, hk⟩
    · rintro ⟨b, e₁, hb, hk⟩
      obtain ⟨hab, rfl⟩ := Prod.mk.inj (Except.ok.inj hb)
      obtain rfl := Except.ok.inj hab
      exact hk

theorem avoids_onEngine {n : EngineM α} (h : Avoids .pastEnd n) : Avoids .pastEnd (onEngine n) := by
  intro st hst
  unfold onEngine at hst
  rcases hn : n st.engine with f | r
  · rw [hn] at hst
    exact h _ (hn.trans (congrArg Except.error (Except.error.inj hst)))
  · rw [hn] at hst
    cases hst

theorem avoids_ahead (p : ByteString → Bool) : Avoids .pastEnd (ahead p) := nofun

theorem avoids_skip : Avoids .pastEnd skip := nofun

theorem avoids_list (p : ByteString → Bool) : Avoids .pastEnd (list p) := nofun

/-- A test of the next token before either rest. -/
theorem Avoids.ahead {p : ByteString → Bool} {m m' : ExecM α} (h : Avoids .pastEnd m)
    (h' : Avoids .pastEnd m') : Avoids .pastEnd (do if ← ahead p then m else m') := by
  refine Avoids.bind (avoids_ahead p) (fun b => ?_)
  cases b with
  | false => exact h'
  | true => exact h

theorem avoids_expectToken (ending s : ByteString) : Avoids .pastEnd (expectToken ending s) :=
  Avoids.ahead avoids_skip (Avoids.bind (nofun : Avoids _ get) (fun _ => avoids_throw _))

theorem avoids_columnList : Avoids .pastEnd columnList :=
  Avoids.ahead (Avoids.bind avoids_skip (fun _ => Avoids.bind (avoids_list _)
    (fun _ => Avoids.bind avoids_skip (fun _ => avoids_pure _)))) (avoids_pure _)

/-- A token that was looked at is there to be read. -/
theorem avoids_of_seen {p : ByteString → Bool} {m m' : ExecM α}
    (h : ∀ t ts e, m ⟨t :: ts, e⟩ ≠ .error .pastEnd) (h' : Avoids .pastEnd m') :
    Avoids .pastEnd (do if ← ahead p then m else m') := by
  rintro ⟨ts, e⟩
  cases ts with
  | nil =>
    rw [bind_of_ok ahead_nil]
    exact h' _
  | cons t ts =>
    rw [bind_of_ok ahead_cons]
    cases p t with
    | false => exact h' _
    | true => exact h t ts e

/-! ## Clauses -/

/-- **A `WHERE` cut off**: less than three tokens after it. -/
def WhereCut (ts : List ByteString) : Prop :=
  ∃ kw rest, ts = kw :: rest ∧ Keyword "WHERE" kw ∧ rest.length < 3

/-- **A `LIMIT` cut off**: nothing after it. -/
def LimitCut (ts : List ByteString) : Prop := ∃ kw, ts = [kw] ∧ Keyword "LIMIT" kw

/-- What follows the `WHERE`, where there is one. -/
def afterWhere : List ByteString → List ByteString
  | [] => []
  | t :: ts => if Keyword "WHERE" t then ts.drop 3 else t :: ts

/-- **The clauses cut off.** -/
def ClausesCut (ts : List ByteString) : Prop := WhereCut ts ∨ LimitCut (afterWhere ts)

theorem off_whereClause {k : WhereClause → ExecM β} {P : List ByteString → Prop}
    (hk : ∀ w rest, Off (k w) rest e ↔ P rest) :
    Off (whereClause >>= k) ts e ↔ WhereCut ts ∨ P (afterWhere ts) := by
  cases ts with
  | nil =>
    rw [off_bind_of_ok (whereClause_of_not (by simp)), hk]
    refine ⟨Or.inr, fun h => h.resolve_left ?_⟩
    rintro ⟨kw, rest, heq, -⟩
    cases heq
  | cons t rest =>
    rw [afterWhere]
    by_cases ht : Keyword "WHERE" t
    · rw [if_pos ht]
      rcases Nat.lt_or_ge rest.length 3 with hshort | hlong
      · exact iff_of_true (off_bind_of_stop (whereClause_of_short ht hshort))
          (Or.inl ⟨t, rest, rfl, ht, hshort⟩)
      · obtain - | ⟨a, - | ⟨b, - | ⟨c, rest⟩⟩⟩ := rest
        · simp at hlong
        · simp at hlong
        · simp at hlong
        · rw [off_bind_of_ok (whereClause_of_keyword ht a b c), hk]
          refine ⟨Or.inr, fun h => h.resolve_left ?_⟩
          rintro ⟨kw, rest', heq, -, hlt⟩
          rw [← (List.cons.inj heq).2] at hlt
          simp only [List.length_cons] at hlt
          omega
    · rw [if_neg ht, off_bind_of_ok (whereClause_of_not (fun u hu => by
        rwa [← Option.some.inj hu])), hk]
      refine ⟨Or.inr, fun h => h.resolve_left ?_⟩
      rintro ⟨kw, rest', heq, hkw, -⟩
      exact ht ((List.cons.inj heq).1 ▸ hkw)

theorem off_limitClause {k : ℤ → ExecM β} (hk : ∀ n rest, ¬ Off (k n) rest e) :
    Off (limitClause >>= k) ts e ↔ LimitCut ts := by
  cases ts with
  | nil =>
    rw [off_bind_of_ok (limitClause_of_not (by simp))]
    refine iff_of_false (hk _ _) ?_
    rintro ⟨kw, heq, -⟩
    cases heq
  | cons t rest =>
    by_cases ht : Keyword "LIMIT" t
    · cases rest with
      | nil => exact iff_of_true (off_bind_of_stop (limitClause_of_nil ht)) ⟨t, rfl, ht⟩
      | cons n rest =>
        refine iff_of_false ?_ (by rintro ⟨kw, heq, -⟩; cases heq)
        have hrun : limitClause ⟨t :: n :: rest, e⟩ = _ := limitClause_of_keyword ht n
        rcases hn : CppString.stoi n with x | z
        · rw [hn] at hrun
          exact not_off_bind_of_throw hrun
        · rw [hn] at hrun
          rw [off_bind_of_ok hrun]
          exact hk _ _
    · rw [off_bind_of_ok (limitClause_of_not (fun u hu => by rwa [← Option.some.inj hu]))]
      refine iff_of_false (hk _ _) ?_
      rintro ⟨kw, heq, hkw⟩
      exact ht ((List.cons.inj heq).1 ▸ hkw)

/-- **The clauses** at the end of a query. -/
theorem off_clauses {k : WhereClause → ℤ → ExecM β} (hk : ∀ w n rest, ¬ Off (k w n) rest e) :
    Off (do let wh ← whereClause; let limit ← limitClause; k wh limit) ts e ↔ ClausesCut ts :=
  off_whereClause (fun w _ => off_limitClause (fun n rest => hk w n rest))

/-- **A select list** as the parser reads it: a star, or whatever comes before
the first `FROM`. -/
inductive ReadList : List ByteString → Prop
  | star : ReadList [ascii "*"]
  | refs (items : List ByteString) (hstar : ∀ t ∈ items.head?, t ≠ ascii "*")
      (hfrom : ∀ t ∈ items, ¬ Keyword "FROM" t) : ReadList items

/-- **The select list and the `FROM`.** -/
theorem off_selectList {k : Option (List ByteString) → ExecM β} {x : ExecM Unit}
    {P : List ByteString → Prop}
    (hx : ∀ {ts : List ByteString} {k : Unit → ExecM β}, Off (x >>= k) ts e
      ↔ ∃ t rest, ts = t :: rest ∧ Keyword "FROM" t ∧ Off (k ()) rest e)
    (hk : ∀ c rest, Off (k c) rest e ↔ P rest) :
    Off (do let c ← selectList; x; k c) ts e
      ↔ ∃ items frm rest, ts = items ++ frm :: rest ∧ ReadList items ∧ Keyword "FROM" frm
        ∧ P rest := by
  have hkx : ∀ c ts, Off (x >>= fun _ => k c) ts e
      ↔ ∃ frm rest, ts = frm :: rest ∧ Keyword "FROM" frm ∧ P rest := by
    intro c ts
    rw [hx]
    simp only [hk]
  by_cases hstar : ∀ t ∈ ts.head?, t ≠ ascii "*"
  · rw [off_bind_of_ok (selectList_of_ne hstar), hkx, commaList_snd spells_from_comma]
    constructor
    · rintro ⟨frm, rest, hdrop, hfrm, hP⟩
      refine ⟨ts.takeWhile (fun t => !spells (ascii "FROM") t), frm, rest, ?_, .refs _ ?_ ?_,
        hfrm, hP⟩
      · rw [← hdrop, List.takeWhile_append_dropWhile]
      · intro t ht
        cases ts with
        | nil => cases ht
        | cons u us =>
          rw [List.takeWhile_cons] at ht
          split at ht
          · exact hstar t ht
          · cases ht
      · intro t ht
        have hno := List.mem_takeWhile_imp ht
        exact spells_eq_false.mp (Bool.not_eq_true' _ ▸ hno)
    · rintro ⟨items, frm, rest, rfl, hitems, hfrm, hP⟩
      refine ⟨frm, rest, ?_, hfrm, hP⟩
      cases hitems with
      | star => exact absurd rfl (hstar _ rfl)
      | refs items hhead hfrom =>
        rw [List.dropWhile_append_of_pos (fun t ht => by
          rw [spells_eq_false.mpr (hfrom t ht)]
          rfl), List.dropWhile_cons_of_neg (by rw [spells_eq_true.mpr hfrm]; simp)]
  · cases ts with
    | nil => exact absurd (fun t ht => by cases ht) hstar
    | cons t rest =>
      have ht : t = ascii "*" := by
        by_contra hno
        exact hstar (fun u hu => by rwa [← Option.some.inj hu])
      subst ht
      rw [off_bind_of_ok selectList_star, hkx]
      constructor
      · rintro ⟨frm, rest', rfl, hfrm, hP⟩
        exact ⟨[ascii "*"], frm, rest', rfl, .star, hfrm, hP⟩
      · rintro ⟨items, frm, rest', heq, hitems, hfrm, hP⟩
        cases hitems with
        | star => exact ⟨frm, rest', (List.cons.inj heq).2, hfrm, hP⟩
        | refs items hhead hfrom =>
          cases items with
          | nil =>
            rw [← (List.cons.inj heq).1] at hfrm
            exact absurd hfrm (by decide)
          | cons c cs => exact absurd (List.cons.inj heq).1.symm (hhead c rfl)

/-! ## The executors -/

/-- The table can be opened. -/
def Opens (name : ByteString) (e : Engine) : Prop := ∃ e', openTable name none e = .ok (.ok (), e')

/-- **`INSERT` cut off**: the statement ends behind `INTO`. -/
inductive InsertCut : List ByteString → Prop
  | table {insert into : ByteString} (hinsert : Keyword "INSERT" insert)
      (hinto : Keyword "INTO" into) : InsertCut [insert, into]

/-- **`DELETE` cut off**: the statement ends in its `WHERE`. -/
inductive DeleteCut (e : Engine) : List ByteString → Prop
  | clause {delete frm name : ByteString} {rest : List ByteString}
      (hdelete : Keyword "DELETE" delete) (hfrom : Keyword "FROM" frm) (hopen : Opens name e)
      (hcut : WhereCut rest) : DeleteCut e (delete :: frm :: name :: rest)

/-- **`SELECT` cut off**: the statement ends behind `FROM`, or in its
clauses. -/
inductive SelectCut (e : Engine) : List ByteString → Prop
  | table {select frm : ByteString} {items : List ByteString} (hselect : Keyword "SELECT" select)
      (hitems : ReadList items) (hfrom : Keyword "FROM" frm) :
      SelectCut e (select :: (items ++ [frm]))
  | clauses {select frm name : ByteString} {items rest : List ByteString}
      (hselect : Keyword "SELECT" select) (hitems : ReadList items) (hfrom : Keyword "FROM" frm)
      (hopen : Opens name e) (hcut : ClausesCut rest) :
      SelectCut e (select :: (items ++ frm :: name :: rest))

/-- **A join cut off** behind its left table: the statement ends behind `JOIN`,
on either side of the comparison, or in its clauses. -/
inductive OnCut : List ByteString → Prop
  | right {join : ByteString} (hjoin : Keyword "JOIN" join) : OnCut [join]
  | onLeft {join on : ByteString} (hjoin : Keyword "JOIN" join) (right : ByteString)
      (hon : Keyword "ON" on) : OnCut [join, right, on]
  | onRight {join on eq : ByteString} (hjoin : Keyword "JOIN" join) (right : ByteString)
      (hon : Keyword "ON" on) (onL : ByteString) (heq : Keyword "=" eq) :
      OnCut [join, right, on, onL, eq]
  | clauses {join on eq : ByteString} {rest : List ByteString} (hjoin : Keyword "JOIN" join)
      (right : ByteString) (hon : Keyword "ON" on) (onL : ByteString) (heq : Keyword "=" eq)
      (onR : ByteString) (hcut : ClausesCut rest) :
      OnCut (join :: right :: on :: onL :: eq :: onR :: rest)

/-- **A join cut off.** -/
inductive JoinCut : List ByteString → Prop
  | left {select frm : ByteString} {items : List ByteString} (hselect : Keyword "SELECT" select)
      (hitems : ReadList items) (hfrom : Keyword "FROM" frm) : JoinCut (select :: (items ++ [frm]))
  | join {select frm : ByteString} {items rest : List ByteString}
      (hselect : Keyword "SELECT" select) (hitems : ReadList items) (hfrom : Keyword "FROM" frm)
      (left : ByteString) (hcut : OnCut rest) : JoinCut (select :: (items ++ frm :: left :: rest))
  | innerJoin {select frm inner : ByteString} {items rest : List ByteString}
      (hselect : Keyword "SELECT" select) (hitems : ReadList items) (hfrom : Keyword "FROM" frm)
      (left : ByteString) (hinner : Keyword "INNER" inner) (hcut : OnCut rest) :
      JoinCut (select :: (items ++ frm :: left :: inner :: rest))

/-- A table opened and its schema read, before the rest. -/
theorem off_open {k : Schema → ExecM β} {P : Prop} (hk : ∀ schema e, Off (k schema) ts e ↔ P) :
    Off (do onEngine (openTable name none); let schema ← onEngine (schemaOf name); k schema) ts e
      ↔ Opens name e ∧ P := by
  rw [off_onEngine (avoids_openTable _ _)]
  constructor
  · rintro ⟨_, e', hopen, hoff⟩
    obtain ⟨schema, e₁, -, hoff⟩ := (off_onEngine (avoids_schemaOf _)).mp hoff
    exact ⟨⟨e', hopen⟩, (hk schema e₁).mp hoff⟩
  · rintro ⟨⟨e', hopen⟩, hP⟩
    obtain ⟨t, s, hts⟩ := openTable_tables hopen
    exact ⟨(), e', hopen, (off_onEngine (avoids_schemaOf _)).mpr
      ⟨t.schema, e', schemaOf_of_open hts, (hk t.schema e').mpr hP⟩⟩

/-- The next token is looked at before it is read. -/
theorem off_guarded {message : ByteString} {k : ByteString → ExecM β} :
    Off (do
      if !(← ahead (fun _ => true)) then fail message
      else
        let t ← next
        k t) ts e ↔ ∃ t rest, ts = t :: rest ∧ Off (k t) rest e := by
  cases ts with
  | nil => exact iff_of_false nofun (by rintro ⟨t, rest, heq, -⟩; cases heq)
  | cons t rest =>
    refine (off_bind_of_ok ahead_cons).trans ((off_bind_of_ok next_cons).trans ?_)
    simp

theorem off_execDelete : Off execDelete ts e ↔ DeleteCut e ts := by
  unfold execDelete
  have htail : ∀ (name : ByteString) (rest : List ByteString) (e : Engine), Off (do
      onEngine (openTable name none)
      let schema ← onEngine (schemaOf name)
      let wh ← whereClause
      let r ← onEngine (readTable name
        (fun t => t.deleteWhere (fun _ row => matchWhere row schema wh)))
      let deleted ← ofExcept r
      return ascii "Deleted " ++ CppString.digitsOf deleted ++ ascii " row(s)." : ExecM ByteString)
        rest e ↔ Opens name e ∧ WhereCut rest := by
    intro name rest e
    refine off_open (fun schema e =>
      (off_whereClause (P := fun _ => False) (fun w rest => ?_)).trans
      (iff_of_eq (or_false _)))
    refine iff_false_intro (Avoids.bind (avoids_onEngine (avoids_readTable _ _)) (fun r => ?_) _)
    exact Avoids.bind (avoids_ofExcept r) (fun _ => avoids_pure _)
  rw [off_expectNamed]
  simp only [off_expectNamed]
  constructor
  · rintro ⟨delete, rest, rfl, hdelete, frm, rest, rfl, hfrom, hoff⟩
    obtain ⟨name, rest, rfl, hoff⟩ := off_guarded.mp hoff
    obtain ⟨hopen, hcut⟩ := (htail name rest e).mp hoff
    exact .clause hdelete hfrom hopen hcut
  · rintro ⟨hdelete, hfrom, hopen, hcut⟩
    exact ⟨_, _, rfl, hdelete, _, _, rfl, hfrom,
      off_guarded.mpr ⟨_, _, rfl, (htail _ _ e).mpr ⟨hopen, hcut⟩⟩⟩

/-- What `INSERT` does behind the name of its table. -/
theorem avoids_insertTail (name : ByteString) : Avoids .pastEnd (do
    onEngine (openTable name none)
    let schema ← onEngine (schemaOf name)
    let colOrder ← columnList
    expectPlain "VALUES"
    expectPlain "("
    let vals ← list closes
    let row ← ofExcept (insertedRow schema colOrder vals)
    let r ← onEngine (onTable name (fun t => t.insertRow row))
    let rowid ← ofExcept r
    return ascii "Inserted 1 row (rowid=" ++ CppString.digitsOf rowid ++ ascii ")."
      : ExecM ByteString) := by
  refine Avoids.bind (avoids_onEngine (avoids_openTable _ _)) (fun _ => ?_)
  refine Avoids.bind (avoids_onEngine (avoids_schemaOf _)) (fun schema => ?_)
  refine Avoids.bind avoids_columnList (fun colOrder => ?_)
  refine Avoids.bind (avoids_expectToken _ _) (fun _ => ?_)
  refine Avoids.bind (avoids_expectToken _ _) (fun _ => ?_)
  refine Avoids.bind (avoids_list _) (fun vals => Avoids.bind (avoids_ofExcept _) (fun row => ?_))
  refine Avoids.bind (avoids_onEngine (avoids_onTable _ _)) (fun r => ?_)
  exact Avoids.bind (avoids_ofExcept r) (fun _ => avoids_pure _)

theorem off_execInsert : Off execInsert ts e ↔ InsertCut ts := by
  unfold execInsert
  rw [off_expectPlain]
  simp only [off_expectPlain, off_next]
  constructor
  · rintro ⟨insert, rest, rfl, hinsert, into, rest, rfl, hinto, rfl | ⟨name, rest, rfl, hoff⟩⟩
    · exact .table hinsert hinto
    · exact absurd hoff (avoids_insertTail name _)
  · rintro ⟨hinsert, hinto⟩
    exact ⟨_, _, rfl, hinsert, _, _, rfl, hinto, Or.inl rfl⟩

theorem off_execSelect : Off execSelect ts e ↔ SelectCut e ts := by
  unfold execSelect
  have htail : ∀ (c : Option (List ByteString)) (name : ByteString) (rest : List ByteString),
      Off (do
      onEngine (openTable name none)
      let schema ← onEngine (schemaOf name)
      let wh ← whereClause
      let limit ← limitClause
      onEngine (runSelect name schema c wh limit)) rest e ↔ Opens name e ∧ ClausesCut rest := by
    intro c name rest
    refine off_open (fun schema e => off_clauses (fun w n rest hoff => ?_))
    exact avoids_onEngine (avoids_runSelect _ _ _ _ _) _ hoff
  rw [off_expectPlain]
  constructor
  · rintro ⟨select, rest, rfl, hselect, hoff⟩
    obtain ⟨items, frm, rest, rfl, hitems, hfrom, hP⟩ := (off_selectList off_expectPlain
      (P := fun rest => rest = [] ∨ ∃ name r, rest = name :: r ∧ Opens name e ∧ ClausesCut r)
      (fun c rest => by simp only [off_next, htail])).mp hoff
    rcases hP with rfl | ⟨name, r, rfl, hopen, hcut⟩
    · exact .table hselect hitems hfrom
    · exact .clauses hselect hitems hfrom hopen hcut
  · intro h
    have hback : ∀ (items : List ByteString) (frm : ByteString) (rest : List ByteString),
        ReadList items → Keyword "FROM" frm →
        (rest = [] ∨ ∃ name r, rest = name :: r ∧ Opens name e ∧ ClausesCut r) → Off (do
          let selCols ← selectList
          expectPlain "FROM"
          let tname ← next
          onEngine (openTable tname none)
          let schema ← onEngine (schemaOf tname)
          let wh ← whereClause
          let limit ← limitClause
          onEngine (runSelect tname schema selCols wh limit)) (items ++ frm :: rest) e :=
      fun items frm rest hitems hfrom hP => (off_selectList off_expectPlain
        (P := fun rest => rest = [] ∨ ∃ name r, rest = name :: r ∧ Opens name e ∧ ClausesCut r)
        (fun c rest => by simp only [off_next, htail])).mpr
          ⟨items, frm, rest, rfl, hitems, hfrom, hP⟩
    cases h with
    | table hselect hitems hfrom =>
      exact ⟨_, _, rfl, hselect, hback _ _ _ hitems hfrom (Or.inl rfl)⟩
    | clauses hselect hitems hfrom hopen hcut =>
      exact ⟨_, _, rfl, hselect, hback _ _ _ hitems hfrom (Or.inr ⟨_, _, rfl, hopen, hcut⟩)⟩

/-- **A join's parser** from behind the left table and the `INNER` on. -/
theorem off_on {k : ByteString → ByteString → ByteString → WhereClause → ℤ → ExecM β}
    (hk : ∀ r a b w n rest, ¬ Off (k r a b w n) rest e) : Off (do
      expectNamed "JOIN"
      let rightName ← next
      expectNamed "ON"
      let onLeft ← next
      expectNamed "="
      let onRight ← next
      let wh ← whereClause
      let limit ← limitClause
      k rightName onLeft onRight wh limit) ts e ↔ OnCut ts := by
  have hclauses : ∀ r a b ts, Off (do
      let wh ← whereClause
      let limit ← limitClause
      k r a b wh limit) ts e ↔ ClausesCut ts := fun r a b ts => off_clauses (hk r a b)
  simp only [off_expectNamed, off_next, hclauses]
  constructor
  · rintro ⟨join, rest, rfl, hjoin, rfl | ⟨right, rest, rfl, on, rest, rfl, hon, rfl |
      ⟨onL, rest, rfl, eq, rest, rfl, heq, rfl | ⟨onR, rest, rfl, hcut⟩⟩⟩⟩
    · exact .right hjoin
    · exact .onLeft hjoin right hon
    · exact .onRight hjoin right hon onL heq
    · exact .clauses hjoin right hon onL heq onR hcut
  · intro h
    cases h with
    | right hjoin => exact ⟨_, _, rfl, hjoin, Or.inl rfl⟩
    | onLeft hjoin right hon =>
      exact ⟨_, _, rfl, hjoin, Or.inr ⟨_, _, rfl, _, _, rfl, hon, Or.inl rfl⟩⟩
    | onRight hjoin right hon onL heq =>
      exact ⟨_, _, rfl, hjoin, Or.inr ⟨_, _, rfl, _, _, rfl, hon, Or.inr ⟨_, _, rfl, _, _, rfl, heq,
        Or.inl rfl⟩⟩⟩
    | clauses hjoin right hon onL heq onR hcut =>
      exact ⟨_, _, rfl, hjoin, Or.inr ⟨_, _, rfl, _, _, rfl, hon, Or.inr ⟨_, _, rfl, _, _, rfl, heq,
        Or.inr ⟨_, _, rfl, hcut⟩⟩⟩⟩

theorem OnCut.keyword {t : ByteString} (h : OnCut (t :: ts)) : Keyword "JOIN" t := by
  cases h with
  | right hjoin => exact hjoin
  | onLeft hjoin right hon => exact hjoin
  | onRight hjoin right hon onL heq => exact hjoin
  | clauses hjoin right hon onL heq onR hcut => exact hjoin

/-- An `INNER` is skipped, where there is one. -/
theorem off_inner {k : ExecM β} (hk : ∀ ts, Off k ts e ↔ OnCut ts) : Off (do
      if ← ahead (spells (ascii "INNER")) then skip
      k) ts e ↔ OnCut ts ∨
      ∃ inner rest, ts = inner :: rest ∧ Keyword "INNER" inner ∧ OnCut rest := by
  cases ts with
  | nil =>
    refine (off_bind_of_ok ahead_nil).trans ((hk []).trans ⟨Or.inl, fun h => h.resolve_right ?_⟩)
    rintro ⟨inner, rest, heq, -⟩
    cases heq
  | cons t rest =>
    refine (off_bind_of_ok ahead_cons).trans ?_
    by_cases ht : Keyword "INNER" t
    · rw [spells_eq_true.mpr ht]
      refine (off_bind_of_ok skip_cons).trans ((hk rest).trans
        ⟨fun h => Or.inr ⟨t, rest, rfl, ht, h⟩, ?_⟩)
      rintro (h | ⟨inner, rest', heq, -, h⟩)
      · exact absurd h.keyword (ht.ne (by decide))
      · exact (List.cons.inj heq).2 ▸ h
    · rw [spells_eq_false.mpr ht]
      refine (hk (t :: rest)).trans ⟨Or.inl, fun h => h.resolve_right ?_⟩
      rintro ⟨inner, rest', heq, hinner, -⟩
      exact ht ((List.cons.inj heq).1 ▸ hinner)

/-- What a join reads behind its `FROM`, cut off. -/
def FromCut (ts : List ByteString) : Prop :=
  ts = [] ∨ ∃ left rest, ts = left :: rest
    ∧ (OnCut rest ∨ ∃ inner rest', rest = inner :: rest' ∧ Keyword "INNER" inner ∧ OnCut rest')

theorem joinCut_iff : JoinCut ts ↔ ∃ select items frm rest, ts = select :: (items ++ frm :: rest)
    ∧ Keyword "SELECT" select ∧ ReadList items ∧ Keyword "FROM" frm ∧ FromCut rest := by
  constructor
  · intro h
    cases h with
    | left hselect hitems hfrom => exact ⟨_, _, _, _, rfl, hselect, hitems, hfrom, Or.inl rfl⟩
    | join hselect hitems hfrom left hcut =>
      exact ⟨_, _, _, _, rfl, hselect, hitems, hfrom, Or.inr ⟨_, _, rfl, Or.inl hcut⟩⟩
    | innerJoin hselect hitems hfrom left hinner hcut =>
      exact ⟨_, _, _, _, rfl, hselect, hitems, hfrom,
        Or.inr ⟨_, _, rfl, Or.inr ⟨_, _, rfl, hinner, hcut⟩⟩⟩
  · rintro ⟨select, items, frm, rest, rfl, hselect, hitems, hfrom,
      rfl | ⟨left, rest, rfl, hcut | ⟨inner, rest, rfl, hinner, hcut⟩⟩⟩
    · exact .left hselect hitems hfrom
    · exact .join hselect hitems hfrom left hcut
    · exact .innerJoin hselect hitems hfrom left hinner hcut

theorem off_execJoin : Off execJoin ts e ↔ JoinCut ts := by
  have hparse : Off execJoin ts e ↔ Off parseJoin ts e :=
    bind_eq_stop_iff (fun q => avoids_onEngine (avoids_joinTables q))
  have htail : ∀ (c : Option (List ByteString)) (rest : List ByteString), Off (do
      let leftName ← next
      if ← ahead (spells (ascii "INNER")) then skip
      expectNamed "JOIN"
      let rightName ← next
      expectNamed "ON"
      let onLeft ← next
      expectNamed "="
      let onRight ← next
      let wh ← whereClause
      let limit ← limitClause
      return ⟨c, leftName, rightName, onLeft, onRight, wh, limit⟩ : ExecM JoinStmt) rest e
        ↔ FromCut rest := by
    intro c rest
    rw [off_next]
    refine or_congr Iff.rfl (exists_congr (fun left => exists_congr (fun rest =>
      and_congr Iff.rfl (off_inner (fun ts => ?_)))))
    exact off_on (k := fun r a b w n => (pure ⟨c, left, r, a, b, w, n⟩ : ExecM JoinStmt))
      (fun _ _ _ _ _ _ => nofun)
  rw [hparse, joinCut_iff]
  unfold parseJoin
  rw [off_expectNamed]
  constructor
  · rintro ⟨select, rest, rfl, hselect, hoff⟩
    obtain ⟨items, frm, rest, rfl, hitems, hfrom, hcut⟩ :=
      (off_selectList off_expectNamed htail).mp hoff
    exact ⟨_, _, _, _, rfl, hselect, hitems, hfrom, hcut⟩
  · rintro ⟨select, items, frm, rest, rfl, hselect, hitems, hfrom, hcut⟩
    exact ⟨_, _, rfl, hselect,
      (off_selectList off_expectNamed htail).mpr ⟨_, _, _, rfl, hitems, hfrom, hcut⟩⟩

theorem avoids_guarded {message : ByteString} {k : ByteString → ExecM β}
    (hk : ∀ t, Avoids .pastEnd (k t)) : Avoids .pastEnd (do
      if !(← ahead (fun _ => true)) then fail message
      else
        let t ← next
        k t) := by
  rintro ⟨ts, e⟩ h
  obtain ⟨t, rest, -, h⟩ := off_guarded.mp h
  exact hk t _ h

/-- The length of a text column. -/
theorem avoids_maxLen : Avoids .pastEnd (do
    if ← ahead (fun t => !closes t) then
      let n ← ofExcept (CppString.stoi (← next))
      return UInt16.ofNat n.toUInt
    else return 255 : ExecM UInt16) :=
  avoids_of_seen (fun t ts e h => by
    have hrest := (bind_of_ok next_cons).symm.trans h
    exact Avoids.bind (avoids_ofExcept _) (fun n => avoids_pure _) _ hrest) (avoids_pure _)

/-- **A column definition** reads the name that was looked at, and looks from
there on. -/
theorem avoids_columnDef (t : ByteString) (ts : List ByteString) (e : Engine) :
    columnDef ⟨t :: ts, e⟩ ≠ .error .pastEnd := by
  intro h
  have hrest := (bind_of_ok next_cons).symm.trans h
  refine avoids_guarded (fun u => ?_) ⟨ts, e⟩ hrest
  simp only
  split
  case isTrue => exact avoids_pure _
  case isFalse =>
    split
    case isTrue =>
      refine Avoids.ahead (Avoids.bind avoids_skip (fun _ =>
        Avoids.bind avoids_maxLen (fun n => ?_)))
        (avoids_pure _)
      exact Avoids.ahead (Avoids.bind avoids_skip (fun _ => avoids_pure _)) (avoids_pure _)
    case isFalse => exact avoids_throw _

theorem avoids_columnDefs : ∀ n, Avoids .pastEnd (columnDefs n)
  | 0 => avoids_pure _
  | n + 1 => by
    have ih : ∀ col, Avoids .pastEnd (do
        let cols ← columnDefs n
        return col :: cols : ExecM (List Column)) :=
      fun col => Avoids.bind (avoids_columnDefs n) (fun cols => avoids_pure _)
    refine avoids_of_seen (fun t ts e h => ?_) (avoids_pure _)
    rcases bind_eq_stop.mp h with h | ⟨col, s, -, h⟩
    · exact avoids_columnDef t ts e h
    · exact Avoids.ahead (Avoids.bind avoids_skip (fun _ => ih col)) (ih col) s h

/-- **`CREATE TABLE`** looks at every token before it reads it. -/
theorem avoids_execCreate : Avoids .pastEnd execCreate := by
  unfold execCreate
  refine Avoids.bind (avoids_expectToken _ _) (fun _ => Avoids.bind (avoids_expectToken _ _)
    (fun _ => avoids_guarded (fun name => ?_)))
  refine Avoids.bind (avoids_expectToken _ _) (fun _ => ?_)
  refine Avoids.bind (nofun : Avoids _ get) (fun st => Avoids.bind (avoids_columnDefs _)
    (fun cols => ?_))
  exact Avoids.bind (avoids_onEngine (avoids_openTable _ _)) (fun _ => avoids_pure _)

/-! ## Statements -/

/-- **A statement cut off** where its parser reads on without looking. -/
def RunsOff (rawSql : ByteString) (e : Engine) : Prop :=
  let sql := statement rawSql
  toUpper (sql.take 6) = ascii "INSERT" ∧ InsertCut (tokenize sql)
  ∨ toUpper (sql.take 6) = ascii "DELETE" ∧ DeleteCut e (tokenize sql)
  ∨ toUpper (sql.take 6) = ascii "SELECT"
    ∧ if hasJoin (tokenize sql) then JoinCut (tokenize sql) else SelectCut e (tokenize sql)

theorem off_execQuery : Off execQuery ts e ↔ if hasJoin ts then JoinCut ts else SelectCut e ts := by
  have hquery : execQuery ⟨ts, e⟩ = (if hasJoin ts then execJoin else execSelect) ⟨ts, e⟩ := rfl
  unfold Off
  rw [hquery]
  split
  case isTrue => exact off_execJoin
  case isFalse => exact off_execSelect

theorem off_dispatch (keyword : ByteString) : Off (dispatch keyword) ts e
    ↔ keyword = ascii "INSERT" ∧ InsertCut ts ∨ keyword = ascii "DELETE" ∧ DeleteCut e ts
      ∨ keyword = ascii "SELECT" ∧ if hasJoin ts then JoinCut ts else SelectCut e ts := by
  have hne : ∀ {a b : String} {P : Prop}, keyword = ascii a → ascii a ≠ ascii b →
      ¬ (keyword = ascii b ∧ P) := fun ha hab h => hab (ha.symm.trans h.1)
  unfold dispatch
  by_cases hcreate : keyword = ascii "CREATE"
  · rw [if_pos hcreate]
    refine iff_of_false (avoids_execCreate _) ?_
    rintro (h | h | h)
    · exact hne hcreate (by decide) h
    · exact hne hcreate (by decide) h
    · exact hne hcreate (by decide) h
  rw [if_neg hcreate]
  by_cases hinsert : keyword = ascii "INSERT"
  · rw [if_pos hinsert, off_execInsert]
    refine ⟨fun h => Or.inl ⟨hinsert, h⟩, ?_⟩
    rintro (h | h | h)
    · exact h.2
    · exact absurd h (hne hinsert (by decide))
    · exact absurd h (hne hinsert (by decide))
  rw [if_neg hinsert]
  by_cases hdelete : keyword = ascii "DELETE"
  · rw [if_pos hdelete, off_execDelete]
    refine ⟨fun h => Or.inr (Or.inl ⟨hdelete, h⟩), ?_⟩
    rintro (h | h | h)
    · exact absurd h.1 hinsert
    · exact h.2
    · exact absurd h (hne hdelete (by decide))
  rw [if_neg hdelete]
  by_cases hselect : keyword = ascii "SELECT"
  · rw [if_pos hselect]
    have hprint : ∀ res : SelectResult, Avoids .pastEnd (do
        if res.error ≠ [] then return ascii "Error: " ++ res.error
        else return prettyPrint res : ExecM ByteString) := by
      intro res
      split
      case isTrue => exact avoids_pure _
      case isFalse => exact avoids_pure _
    refine (bind_eq_stop_iff hprint).trans (off_execQuery.trans ?_)
    refine ⟨fun h => Or.inr (Or.inr ⟨hselect, h⟩), ?_⟩
    rintro (h | h | h)
    · exact absurd h.1 hinsert
    · exact absurd h.1 hdelete
    · exact h.2
  · rw [if_neg hselect]
    refine iff_of_false nofun ?_
    rintro (h | h | h)
    · exact hinsert h.1
    · exact hdelete h.1
    · exact hselect h.1

/-- **`exec` never reads past the last token** but on the statements cut off
there. -/
theorem exec_inRange_iff (rawSql : ByteString) (e : Engine) :
    exec rawSql e ≠ .error .pastEnd ↔ ¬ RunsOff rawSql e := by
  refine not_congr (Iff.trans ?_ (off_dispatch (toUpper ((statement rawSql).take 6))))
  unfold exec
  by_cases hsql : statement rawSql = []
  · simp only [hsql, if_true]
    refine iff_of_false nofun ?_
    exact nofun
  · simp only [if_neg hsql]
    unfold Off
    split
    case h_1 f hf =>
      rw [hf]
      exact ⟨fun h => congrArg Except.error (Except.error.inj h),
        fun h => congrArg Except.error (Except.error.inj h)⟩
    case h_2 text st hst =>
      rw [hst]
      exact iff_of_false nofun nofun
    case h_3 x st hst =>
      rw [hst]
      exact iff_of_false nofun nofun

end SqlEngine
