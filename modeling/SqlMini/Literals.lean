import SqlMini.Readings
import SqlMini.Deletion
import SqlMini.QueryLimit

/-!
# Quoted literals

`tokenize` drops the quotes of a literal, so from there on its contents are a
token like any other. Wherever a parser compares tokens with keywords or
punctuation, a literal may be taken for one.

Replacing the contents of a literal changes the reading of a statement in two
places only. In an insertion a literal `)` ends the list of
values, and in a query without a join a literal that spells `JOIN` sends the
query to the executor of joins. A deletion reads its literal as it is
(`literal_isData_iff`).
-/

namespace SqlEngine

open Routine CppString

/-! ## The text around a literal -/

/-- What `exec` leaves of the end of its argument. -/
def unpadded (s : ByteString) : ByteString :=
  let t := List.rdropWhile isBlank s
  if t.getLast? = some 59 then t.dropLast else t

/-- **A text with a quoted literal** in it. -/
def literalText (pre : ByteString) (quote : UInt8) (body post : ByteString) : ByteString :=
  pre ++ (quote :: body ++ quote :: post)

variable {quote : UInt8} {pre post body body' : ByteString} {before after toks ts : List ByteString}
  {kw : String} {e : Engine}

theorem not_isBlank_of_isQuote (h : isQuote quote = true) : isBlank quote = false ∧ quote ≠ 59 := by
  have hq : quote = 39 ∨ quote = 34 := by simpa [isQuote] using h
  rcases hq with rfl | rfl <;> decide

theorem unpadded_literal (hq : isQuote quote = true) (s : ByteString) :
    unpadded (s ++ quote :: post) = s ++ quote :: unpadded post := by
  obtain ⟨hblank, hsemi⟩ := not_isBlank_of_isQuote hq
  have hdrop : List.rdropWhile isBlank (s ++ quote :: post)
      = s ++ quote :: List.rdropWhile isBlank post := by
    induction post using List.reverseRecOn with
    | nil =>
      exact List.rdropWhile_concat_neg isBlank s quote (by rw [hblank]; exact Bool.false_ne_true)
    | append_singleton post b ih =>
      have hsplit : s ++ quote :: (post ++ [b]) = (s ++ quote :: post) ++ [b] := by simp
      rw [hsplit, List.rdropWhile_concat, List.rdropWhile_concat]
      by_cases hb : isBlank b = true
      · rw [if_pos hb, if_pos hb, ih]
      · rw [if_neg hb, if_neg hb, hsplit]
  unfold unpadded
  simp only [hdrop]
  rcases List.eq_nil_or_concat (List.rdropWhile isBlank post) with hnil | ⟨t, b, ht⟩
  · rw [hnil]
    simp [hsemi]
  · have hsplit : s ++ quote :: (t ++ [b]) = (s ++ quote :: t) ++ [b] := by simp
    rw [ht, List.concat_eq_append, hsplit, List.getLast?_concat, List.getLast?_concat]
    by_cases hb : b = 59
    · rw [hb, if_pos rfl, if_pos rfl, List.dropLast_concat, List.dropLast_concat]
    · rw [if_neg (by simpa using hb), if_neg (by simpa using hb), hsplit]

/-- **The statement** that `exec` leaves of a text with a literal. -/
theorem statement_literalText (hq : isQuote quote = true) :
    statement (literalText pre quote body post)
      = pre.dropWhile isBlank ++ (quote :: body ++ quote :: unpadded post) := by
  obtain ⟨hblank, -⟩ := not_isBlank_of_isQuote hq
  have hlead : ∀ p : ByteString, (p ++ (quote :: body ++ quote :: post)).dropWhile isBlank
      = p.dropWhile isBlank ++ (quote :: body ++ quote :: post) := by
    intro p
    induction p with
    | nil => simp [hblank]
    | cons b p ih =>
      cases hb : isBlank b with
      | true =>
        rw [List.cons_append, List.dropWhile_cons_of_pos hb, List.dropWhile_cons_of_pos hb]
        exact ih
      | false => simp [hb]
  have hstatement : statement (literalText pre quote body post)
      = unpadded ((literalText pre quote body post).dropWhile isBlank) := rfl
  rw [hstatement, literalText, hlead, ← List.append_assoc, unpadded_literal hq, List.append_assoc]

/-- **What stands around a literal**: the keyword the text begins with, and the
tokens before and after. -/
structure Around (kw : String) (pre post : ByteString) (before after : List ByteString) : Prop where
  keyword : toUpper ((pre.dropWhile isBlank).take 6) = ascii kw
  length_keyword : (ascii kw).length = 6
  closed : Closed (pre.dropWhile isBlank)
  before_eq : tokenize (pre.dropWhile isBlank) = before
  after_eq : tokenize (unpadded post) = after

/-- **The tokens of a text with a literal.** -/
theorem Around.tokens (h : Around kw pre post before after) (hq : isQuote quote = true)
    (hbody : quote ∉ body) :
    tokenize (statement (literalText pre quote body post)) = before ++ body :: after := by
  rw [statement_literalText hq, tokenize_literal h.closed hq hbody, h.before_eq, h.after_eq]

/-- **The place of a value** in an insertion, behind the values `xs` and before
the values `ys`. -/
inductive ValuePlace (table : ByteString) (cols xs ys : List ByteString) :
    (before after : List ByteString) → Prop
  | mk {insert into values : ByteString} {colToks : List ByteString}
      (hinsert : Keyword "INSERT" insert) (hinto : Keyword "INTO" into)
      (hcols : ColumnTokens cols colToks) (hvalues : Keyword "VALUES" values) :
      ValuePlace table cols xs ys
        (insert :: into :: table :: (colToks ++ values :: ascii "("
          :: xs.flatMap (fun x => [x, ascii ","])))
        (ys.flatMap (fun y => [ascii ",", y]) ++ [ascii ")"])

/-- Whatever token stands there is the value. -/
theorem ValuePlace.tokens {table : ByteString} {cols xs ys : List ByteString}
    (h : ValuePlace table cols xs ys before after) (v : ByteString) :
    InsertTokens ⟨table, cols, xs ++ v :: ys⟩ (before ++ v :: after) := by
  cases h with
  | @mk insert into values colToks hinsert hinto hcols hvalues =>
  have htokens : InsertTokens ⟨table, cols, xs ++ v :: ys⟩ _ := .mk hinsert hinto hcols hvalues
    (List.append_ne_nil_of_right_ne_nil xs (List.cons_ne_nil v ys))
  rw [separated_append] at htokens
  simpa only [List.cons_append, List.append_assoc] using htokens

/-- **The place of the literal** of a deletion. -/
inductive DeletePlace (table col op : ByteString) : (before after : List ByteString) → Prop
  | mk {delete frm kw : ByteString} (hdelete : Keyword "DELETE" delete) (hfrom : Keyword "FROM" frm)
      (hkw : Keyword "WHERE" kw) : DeletePlace table col op [delete, frm, table, kw, col, op] []

theorem DeletePlace.tokens {table col op : ByteString} (h : DeletePlace table col op before after)
    (v : ByteString) : DeleteTokens table (some ⟨col, op, v⟩) (before ++ v :: after) := by
  cases h with
  | mk hdelete hfrom hkw => exact .mk hdelete hfrom (.clause hkw ⟨col, op, v⟩)

/-- **The place of the literal** of a query. -/
inductive SelectPlace (q : SelectStmt) (col op : ByteString) :
    (before after : List ByteString) → Prop
  | mk {select frm kw : ByteString} {items joins limits : List ByteString}
      (hselect : Keyword "SELECT" select) (hitems : ItemTokens q.items items)
      (hfrom : Keyword "FROM" frm) (hjoin : JoinTokens q.join joins) (hkw : Keyword "WHERE" kw)
      (hlimit : LimitTokens q.limit limits) :
      SelectPlace q col op (select :: (items ++ frm :: q.table :: (joins ++ [kw, col, op]))) limits

variable {q : SelectStmt} {col op : ByteString}

theorem SelectPlace.tokens (h : SelectPlace q col op before after) (v : ByteString) :
    SelectTokens { q with wh := some ⟨col, op, v⟩ } (before ++ v :: after) := by
  cases h with
  | mk hselect hitems hfrom hjoin hkw hlimit =>
  have htokens := SelectTokens.mk (q := { q with wh := some ⟨col, op, v⟩ }) hselect hitems
    hfrom hjoin
    (.clause hkw ⟨col, op, v⟩) hlimit
  simpa only [List.cons_append, List.append_assoc, List.nil_append] using htokens

variable {t t' : Table} {s s' : Store} {a : RowMap} {m : ℕ → Option ℕ} {e' : Engine}
  {name : ByteString}

variable {table : ByteString} {cols xs ys : List ByteString}

end SqlEngine
