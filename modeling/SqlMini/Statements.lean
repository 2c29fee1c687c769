import SqlMini.Grammar

/-!
# The text of a statement

What `exec` tokenises is its argument without the white space around it and
without one semicolon at its end; `select` tokenises its argument as it stands.
Where every quote of the statement is closed this makes no difference but for
a semicolon, which is then the last token (`tokenize_statement`).

A text whose quotes are closed is tokenised apart from what follows it, if
that starts with a byte at which words end (`tokenize_append`). A quoted
literal is such a place, so the tokens before and after it do not depend on
what it contains (`tokenize_literal`).
-/

namespace SqlEngine

open CppString

/-! ## Closed quotes -/

/-- **Every quote of the text is closed**, as the loop of `tokenize` goes. -/
inductive Closed : ByteString → Prop
  | nil : Closed []
  | round {c : UInt8} {cs : ByteString} (hquote : isQuote c = true → c ∈ cs)
      (h : Closed (nextToken c cs).2) : Closed (c :: cs)

variable {c d : UInt8} {cs s t : ByteString}

/-- A text without quotes is closed. -/
theorem closed_of_not_quote : ∀ (n : ℕ) (s : ByteString), s.length ≤ n →
    (∀ c ∈ s, isQuote c = false) → Closed s
  | _, [], _, _ => .nil
  | 0, c :: cs, hn, _ => by cases hn
  | n + 1, c :: cs, hn, h => by
    refine .round (fun hq => ?_) (closed_of_not_quote n _ ?_ (fun b hb => ?_))
    · rw [h c List.mem_cons_self] at hq
      cases hq
    · exact (length_nextToken_le c cs).trans (Nat.le_of_succ_le_succ hn)
    · exact h b (List.mem_cons_of_mem c ((nextToken_suffix c cs).subset hb))

/-- No two-character operator ends in a byte that stops a word. -/
theorem twoCharOp_of_stopsWord (h : stopsWord d = true) : twoCharOp c d = none := by
  have hne : d ≠ 61 ∧ d ≠ 62 := by
    constructor
    · rintro rfl
      exact absurd h (by decide)
    · rintro rfl
      exact absurd h (by decide)
  unfold twoCharOp
  exact if_neg (by simp [ascii, hne.1, hne.2])

/-- **One round** does not look at what follows a byte that stops a word. -/
theorem nextToken_append (hquote : isQuote c = true → c ∈ cs)
    (ht : ∀ d ∈ t.head?, stopsWord d = true) :
    nextToken c (cs ++ t) = ((nextToken c cs).1, (nextToken c cs).2 ++ t) := by
  rcases hs : isSpace c with - | -
  · rcases hq : isQuote c with - | -
    · have htwo : (cs ++ t).head?.bind (twoCharOp c) = cs.head?.bind (twoCharOp c) := by
        cases cs with
        | cons b cs => rfl
        | nil =>
          cases t with
          | nil => rfl
          | cons d t => exact twoCharOp_of_stopsWord (ht d rfl)
      rcases hop : cs.head?.bind (twoCharOp c) with - | op
      · rw [hop] at htwo
        rcases hm : isMark c with - | -
        · rw [nextToken_word hs hq hop hm, nextToken_word hs hq htwo hm]
          have hstop : ∀ l : ByteString, (l ++ t).takeWhile (fun b => !stopsWord b)
                = l.takeWhile (fun b => !stopsWord b)
              ∧ (l ++ t).dropWhile (fun b => !stopsWord b)
                = l.dropWhile (fun b => !stopsWord b) ++ t := by
            intro l
            induction l with
            | nil =>
              cases t with
              | nil => exact ⟨rfl, rfl⟩
              | cons d t =>
                have hd := ht d rfl
                simp [hd]
            | cons b l ih =>
              cases hb : stopsWord b with
              | true => simp [hb]
              | false => simp [hb, ih.1, ih.2]
          rw [(hstop cs).1, (hstop cs).2]
        · rw [nextToken_mark hs hq hop hm, nextToken_mark hs hq htwo hm]
      · rw [hop] at htwo
        rw [nextToken_two hs hq hop, nextToken_two hs hq htwo]
        cases cs with
        | nil => cases hop
        | cons b cs => rfl
    · -- the quote is closed before `t` begins
      obtain ⟨u, v, rfl, hu⟩ := List.eq_append_cons_of_mem (hquote hq)
      have hin : ∀ b ∈ u, decide (b ≠ c) = true := fun b hb => decide_eq_true (fun h => hu (h ▸ hb))
      rw [nextToken_quote hs hq, nextToken_quote hs hq, List.append_assoc,
        List.takeWhile_append_of_pos hin, List.takeWhile_append_of_pos hin,
        List.dropWhile_append_of_pos hin, List.dropWhile_append_of_pos hin]
      simp
  · rw [nextToken_space hs, nextToken_space hs]

/-- **A closed text** is tokenised apart from what follows it. -/
theorem tokenize_append (h : Closed s) (ht : ∀ d ∈ t.head?, stopsWord d = true) :
    tokenize (s ++ t) = tokenize s ++ tokenize t := by
  induction h with
  | nil => rfl
  | @round c cs hquote h ih =>
    rw [List.cons_append, tokenize_cons, tokenize_cons, nextToken_append hquote ht, ih,
      List.append_assoc]

/-- **The tokens around a quoted literal** do not depend on what it contains. -/
theorem tokenize_literal {q : UInt8} (h : Closed s) (hq : isQuote q = true) {body : ByteString}
    (hbody : q ∉ body) (rest : ByteString) :
    tokenize (s ++ (q :: body ++ q :: rest)) = tokenize s ++ body :: tokenize rest := by
  rw [tokenize_append h, tokenize_quoted hq hbody]
  intro d hd
  obtain rfl : q = d := Option.some.inj hd
  have hquote : q = 39 ∨ q = 34 := by simpa [isQuote] using hq
  rcases hquote with rfl | rfl
  · decide
  · decide

/-! ## Around a statement -/

theorem isSpace_of_isBlank {b : UInt8} (h : isBlank b = true) : isSpace b = true := by
  have hb : b = 32 ∨ b = 9 ∨ b = 13 ∨ b = 10 := by simpa [isBlank, or_assoc] using h
  rcases hb with rfl | rfl | rfl | rfl <;> decide

/-- What `trim` removes is white space. -/
theorem exists_trim (s : ByteString) : ∃ lead trail, s = lead ++ (trim s ++ trail)
    ∧ (∀ b ∈ lead, isBlank b = true) ∧ ∀ b ∈ trail, isBlank b = true := by
  refine ⟨s.takeWhile isBlank, List.rtakeWhile isBlank (s.dropWhile isBlank), ?_,
    fun b hb => List.mem_takeWhile_imp hb, fun b hb => List.mem_rtakeWhile_imp hb⟩
  unfold trim
  rw [List.rdropWhile_append_rtakeWhile, List.takeWhile_append_dropWhile]

/-- What `exec` leaves of its argument is all of it but a semicolon and white
space. -/
theorem exists_statement (rawSql : ByteString) : ∃ lead semi trail,
    rawSql = lead ++ (statement rawSql ++ (semi ++ trail)) ∧ (∀ b ∈ lead, isBlank b = true)
    ∧ (semi = [] ∨ semi = [59]) ∧ ∀ b ∈ trail, isBlank b = true := by
  obtain ⟨lead, trail, heq, hlead, htrail⟩ := exists_trim rawSql
  unfold statement
  by_cases hlast : (trim rawSql).getLast? = some 59
  · refine ⟨lead, [59], trail, ?_, hlead, Or.inr rfl, htrail⟩
    simp only [if_pos hlast]
    rw [← List.append_assoc (trim rawSql).dropLast, List.dropLast_append_getLast? 59 hlast]
    exact heq
  · refine ⟨lead, [], trail, ?_, hlead, Or.inl rfl, htrail⟩
    simp only [if_neg hlast]
    exact heq

/-- **The tokens of the argument** are those of the statement and at most a
semicolon. -/
theorem tokenize_statement {rawSql : ByteString} (h : Closed (statement rawSql)) :
    ∃ semi, tokenize rawSql = tokenize (statement rawSql) ++ semi
      ∧ (semi = [] ∨ semi = [ascii ";"]) := by
  obtain ⟨lead, semi, trail, heq, hlead, hsemi, htrail⟩ := exists_statement rawSql
  have hgap : tokenize trail = [] := by
    have hg := tokenize_gap (fun b hb => isSpace_of_isBlank (htrail b hb)) []
    rwa [List.append_nil] at hg
  have htail : ∀ d ∈ (semi ++ trail).head?, stopsWord d = true := by
    intro d hd
    rcases hsemi with rfl | rfl
    · have hsp := isSpace_of_isBlank (htrail d (List.mem_of_mem_head? hd))
      unfold stopsWord
      rw [hsp]
      rfl
    · obtain rfl : 59 = d := Option.some.inj hd
      decide
  have htokens : tokenize rawSql = tokenize (statement rawSql) ++ tokenize (semi ++ trail) :=
    (congrArg tokenize heq).trans ((tokenize_gap (fun b hb => isSpace_of_isBlank (hlead b hb))
      _).trans
      (tokenize_append h htail))
  rw [htokens]
  rcases hsemi with rfl | rfl
  · exact ⟨[], by rw [List.nil_append, hgap], Or.inl rfl⟩
  · exact ⟨[ascii ";"], by
      rw [List.cons_append, List.nil_append, tokenize_punctuation (by decide), hgap]
      rfl, Or.inr rfl⟩

end SqlEngine
