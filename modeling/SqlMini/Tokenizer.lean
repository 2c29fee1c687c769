import SqlMini.Where

/-!
# Tokens

`tokenize` splits a statement at white space and punctuation and takes a
quoted string for one token, without its quotes. What it returns is a list of
strings: the quotes are gone, so a quoted word and a bare one are the same
token from here on.

The bytes that start a token of their own and the bytes that end a word are
listed in two places of the source, and the lists differ: a word does not end
at an operator or at `*`. `Rendering.tokenize_eq_iff` says what that costs: a
sequence of tokens, written with or without white space where none is needed,
is read back exactly if no word runs into an operator or a star.
-/

namespace SqlEngine

open CppString

/-! ## The class -/

/-- A quotation mark. -/
def isQuote (c : UInt8) : Bool := c == 39 || c == 34

/-- Where the loop over a word stops. -/
def stopsWord (c : UInt8) : Bool := isSpace c || (ascii ",();'\"").contains c

/-- The bytes that are tokens of their own. -/
def isMark (c : UInt8) : Bool := (ascii ",();=<>*").contains c

/-- The two-character operators. `<>` is another spelling of `!=`. -/
def twoCharOp (c d : UInt8) : Option ByteString :=
  let two := [c, d]
  if two = ascii "<=" ∨ two = ascii ">=" ∨ two = ascii "!=" ∨ two = ascii "<>" then
    some (if two = ascii "<>" then ascii "!=" else two)
  else none

/-- One round of the loop of `tokenize`, which stands at `c`: the token
pushed, if any, and what is left. -/
def nextToken (c : UInt8) (cs : ByteString) : Option ByteString × ByteString :=
  if isSpace c then (none, cs)
  else if isQuote c then (some (cs.takeWhile (· ≠ c)), (cs.dropWhile (· ≠ c)).tail)
  else
    match cs.head?.bind (twoCharOp c) with
    | some op => (some op, cs.tail)
    | none =>
      if isMark c then (some [c], cs)
      else
        let tok := (c :: cs).takeWhile (fun b => !stopsWord b)
        (if tok = [] then none else some tok, (c :: cs).dropWhile (fun b => !stopsWord b))

/-- The loop of `tokenize`, for at most `n` rounds. -/
def tokenizeFrom : (n : ℕ) → ByteString → List ByteString
  | 0, _ => []
  | _ + 1, [] => []
  | n + 1, c :: cs => (nextToken c cs).1.toList ++ tokenizeFrom n (nextToken c cs).2

/-- `tokenize`. Every round consumes a byte. -/
def tokenize (sql : ByteString) : List ByteString := tokenizeFrom sql.length sql

/-! ## One round -/

variable {c : UInt8} {cs rest w : ByteString}

/-- A word is not empty: the byte the round stands at belongs to it. -/
theorem stopsWord_eq_false (hs : isSpace c = false) (hq : isQuote c = false)
    (hm : isMark c = false) : stopsWord c = false := by
  have h : ∀ b ∈ ascii ",();'\"", isQuote b = true ∨ isMark b = true :=
    List.forall_iff_forall_mem.mp (by decide)
  unfold stopsWord
  rw [hs, Bool.false_or, ← Bool.not_eq_true, List.contains_iff_mem]
  intro hc
  rcases h c hc with h | h
  · rw [hq] at h
    cases h
  · rw [hm] at h
    cases h

theorem nextToken_space (h : isSpace c = true) : nextToken c cs = (none, cs) := if_pos h

theorem nextToken_quote (hs : isSpace c = false) (h : isQuote c = true) :
    nextToken c cs = (some (cs.takeWhile (· ≠ c)), (cs.dropWhile (· ≠ c)).tail) := by
  rw [nextToken, if_neg (by rw [hs]; exact Bool.false_ne_true), if_pos h]

theorem nextToken_two (hs : isSpace c = false) (hq : isQuote c = false) {op : ByteString}
    (h : cs.head?.bind (twoCharOp c) = some op) : nextToken c cs = (some op, cs.tail) := by
  rw [nextToken, if_neg (by rw [hs]; exact Bool.false_ne_true),
    if_neg (by rw [hq]; exact Bool.false_ne_true), h]

theorem nextToken_mark (hs : isSpace c = false) (hq : isQuote c = false)
    (h : cs.head?.bind (twoCharOp c) = none) (hm : isMark c = true) :
    nextToken c cs = (some [c], cs) := by
  rw [nextToken, if_neg (by rw [hs]; exact Bool.false_ne_true),
    if_neg (by rw [hq]; exact Bool.false_ne_true), h]
  exact if_pos hm

theorem nextToken_word (hs : isSpace c = false) (hq : isQuote c = false)
    (h : cs.head?.bind (twoCharOp c) = none) (hm : isMark c = false) :
    nextToken c cs = (some (c :: cs.takeWhile (fun b => !stopsWord b)),
      cs.dropWhile (fun b => !stopsWord b)) := by
  have hstop := stopsWord_eq_false hs hq hm
  rw [nextToken, if_neg (by rw [hs]; exact Bool.false_ne_true),
    if_neg (by rw [hq]; exact Bool.false_ne_true), h]
  simp [hm, hstop]

/-- **Every round consumes a byte**: what is left is an end of what followed
it. -/
theorem nextToken_suffix (c : UInt8) (cs : ByteString) : (nextToken c cs).2 <:+ cs := by
  rcases hs : isSpace c with - | -
  · rcases hq : isQuote c with - | -
    · rcases ht : cs.head?.bind (twoCharOp c) with - | op
      · rcases hm : isMark c with - | -
        · rw [nextToken_word hs hq ht hm]
          exact List.dropWhile_suffix _
        · rw [nextToken_mark hs hq ht hm]
      · rw [nextToken_two hs hq ht]
        exact List.tail_suffix cs
    · rw [nextToken_quote hs hq]
      exact (List.tail_suffix _).trans (List.dropWhile_suffix _)
  · rw [nextToken_space hs]

theorem length_nextToken_le (c : UInt8) (cs : ByteString) : (nextToken c cs).2.length ≤ cs.length :=
  (nextToken_suffix c cs).length_le

/-- More rounds than bytes make no difference. -/
theorem tokenizeFrom_eq : ∀ (n : ℕ) (s : ByteString), s.length ≤ n →
    tokenizeFrom n s = tokenize s := by
  have key : ∀ (m : ℕ) (s : ByteString), s.length ≤ m → ∀ n, s.length ≤ n →
      tokenizeFrom n s = tokenizeFrom m s := by
    intro m
    induction m with
    | zero =>
      intro s hs n _
      rw [List.length_eq_zero_iff.mp (Nat.le_zero.mp hs)]
      cases n <;> rfl
    | succ m ih =>
      intro s hs n hn
      cases s with
      | nil => cases n <;> rfl
      | cons c cs =>
        cases n with
        | zero => cases hn
        | succ n =>
          have hle := length_nextToken_le c cs
          rw [List.length_cons] at hs hn
          rw [tokenizeFrom, tokenizeFrom, ih _ (by omega) n (by omega)]
  exact fun n s hn => key s.length s le_rfl n hn

/-- **`tokenize`, one round at a time.** -/
theorem tokenize_cons (c : UInt8) (cs : ByteString) :
    tokenize (c :: cs) = (nextToken c cs).1.toList ++ tokenize (nextToken c cs).2 := by
  show tokenizeFrom (cs.length + 1) (c :: cs) = _
  rw [tokenizeFrom, tokenizeFrom_eq _ _ (length_nextToken_le c cs)]

/-! ## One token -/

/-- White space is skipped. -/
theorem tokenize_gap : ∀ {gap : ByteString}, (∀ b ∈ gap, isSpace b = true) → ∀ rest : ByteString,
    tokenize (gap ++ rest) = tokenize rest
  | [], _, rest => rfl
  | b :: gap, h, rest => by
    rw [List.cons_append, tokenize_cons, nextToken_space (h b List.mem_cons_self)]
    exact tokenize_gap (fun c hc => h c (List.mem_cons_of_mem b hc)) rest

/-- **A quoted string** is a token, whatever follows it. -/
theorem tokenize_quoted {q : UInt8} (hq : isQuote q = true) {s : ByteString} (hs : q ∉ s)
    (rest : ByteString) : tokenize (q :: s ++ q :: rest) = s :: tokenize rest := by
  have hsp : isSpace q = false := by
    unfold isQuote at hq
    rcases Bool.or_eq_true_iff.mp hq with h | h
    · rw [eq_of_beq h]
      decide
    · rw [eq_of_beq h]
      decide
  have hin : ∀ b ∈ s, decide (b ≠ q) = true := fun b hb => decide_eq_true (fun h => hs (h ▸ hb))
  rw [List.cons_append, tokenize_cons, nextToken_quote hsp hq, List.takeWhile_append_of_pos hin,
    List.dropWhile_append_of_pos hin]
  simp

/-- No two-character operator starts with a punctuation mark. -/
theorem twoCharOp_of_punctuation (hc : c ∈ ascii ",();*=") (d : UInt8) : twoCharOp c d = none := by
  have h : ∀ c ∈ ascii ",();*=", c ≠ 60 ∧ c ≠ 62 ∧ c ≠ 33 :=
    List.forall_iff_forall_mem.mp (by decide)
  obtain ⟨h1, h2, h3⟩ := h c hc
  unfold twoCharOp
  exact if_neg (by simp [ascii, h1, h2, h3])

/-- **A punctuation mark**, a star or an equals sign is a token. -/
theorem tokenize_punctuation (hc : c ∈ ascii ",();*=") (rest : ByteString) :
    tokenize (c :: rest) = [c] :: tokenize rest := by
  have h : ∀ c ∈ ascii ",();*=", isSpace c = false ∧ isQuote c = false ∧ isMark c = true :=
    List.forall_iff_forall_mem.mp (by decide)
  obtain ⟨hs, hq, hm⟩ := h c hc
  have ht : rest.head?.bind (twoCharOp c) = none := by
    cases rest with
    | nil => rfl
    | cons d rest => exact twoCharOp_of_punctuation hc d
  rw [tokenize_cons, nextToken_mark hs hq ht hm]
  rfl

/-- **A comparison operator** is a token, unless it runs into a byte that
would make it a longer one. -/
theorem tokenize_op {op : ByteString} (hop : op ∈ comparisons)
    (hrest : ∀ d, rest.head? = some d → d ≠ 61 ∧ d ≠ 62) :
    tokenize (op ++ rest) = op :: tokenize rest := by
  have hone : ∀ c ∈ ascii "<>", tokenize ([c] ++ rest) = [c] :: tokenize rest := by
    intro c hc
    have h : ∀ c ∈ ascii "<>", isSpace c = false ∧ isQuote c = false ∧ isMark c = true :=
      List.forall_iff_forall_mem.mp (by decide)
    obtain ⟨hs, hq, hm⟩ := h c hc
    have ht : rest.head?.bind (twoCharOp c) = none := by
      cases rest with
      | nil => rfl
      | cons d rest =>
        obtain ⟨h1, h2⟩ := hrest d rfl
        show twoCharOp c d = none
        unfold twoCharOp
        exact if_neg (by simp [ascii, h1, h2])
    rw [List.cons_append, List.nil_append, tokenize_cons, nextToken_mark hs hq ht hm]
    rfl
  have htwo : ∀ c d op, twoCharOp c d = some op → isSpace c = false → isQuote c = false →
      tokenize ([c, d] ++ rest) = op :: tokenize rest := by
    intro c d op ht hs hq
    have htoken : nextToken c ([d] ++ rest) = (some op, rest) := nextToken_two hs hq ht
    rw [List.cons_append, tokenize_cons, htoken]
    rfl
  simp only [comparisons, List.mem_cons, List.not_mem_nil, or_false] at hop
  rcases hop with rfl | rfl | rfl | rfl | rfl | rfl
  · exact tokenize_punctuation (by decide) rest
  · exact htwo 33 61 _ (by decide) (by decide) (by decide)
  · exact hone 60 (by decide)
  · exact hone 62 (by decide)
  · exact htwo 60 61 _ (by decide) (by decide) (by decide)
  · exact htwo 62 61 _ (by decide) (by decide) (by decide)

/-- A byte that may stand in a word. -/
def isWordByte (b : UInt8) : Bool :=
  !(isSpace b || isQuote b || (ascii ",();=<>!*").contains b)

/-- **A word**: not empty, without white space, quotes or any of the marks
and operators. -/
def IsWord (w : ByteString) : Prop := w ≠ [] ∧ ∀ b ∈ w, isWordByte b = true

instance : DecidablePred IsWord := fun w =>
  haveI := List.decidableBAll (fun b => isWordByte b = true) w
  inferInstanceAs (Decidable (w ≠ [] ∧ ∀ b ∈ w, isWordByte b = true))

theorem of_isWordByte {b : UInt8} (h : isWordByte b = true) :
    isSpace b = false ∧ isQuote b = false ∧ isMark b = false ∧ b ∉ ascii "<>!" := by
  simp only [isWordByte, Bool.not_eq_true', Bool.or_eq_false_iff] at h
  obtain ⟨⟨hs, hq⟩, hmem⟩ := h
  rw [← Bool.not_eq_true, List.contains_iff_mem] at hmem
  have hmark : ∀ c ∈ ascii ",();=<>*", c ∈ ascii ",();=<>!*" :=
    List.forall_iff_forall_mem.mp (by decide)
  have hop : ∀ c ∈ ascii "<>!", c ∈ ascii ",();=<>!*" :=
    List.forall_iff_forall_mem.mp (by decide)
  refine ⟨hs, hq, ?_, fun hb => hmem (hop b hb)⟩
  rw [← Bool.not_eq_true, isMark, List.contains_iff_mem]
  exact fun hb => hmem (hmark b hb)

theorem stopsWord_of_isWordByte {b : UInt8} (h : isWordByte b = true) : stopsWord b = false := by
  obtain ⟨hs, hq, hm, -⟩ := of_isWordByte h
  exact stopsWord_eq_false hs hq hm

/-- **A word takes in what follows it** up to where a word stops. -/
theorem tokenize_word (hw : IsWord w) (rest : ByteString) :
    tokenize (w ++ rest) = (w ++ rest.takeWhile (fun b => !stopsWord b))
      :: tokenize (rest.dropWhile (fun b => !stopsWord b)) := by
  obtain ⟨hne, hin⟩ := hw
  obtain ⟨c, w, rfl⟩ := List.exists_cons_of_ne_nil hne
  obtain ⟨hs, hq, hm, hop⟩ := of_isWordByte (hin c List.mem_cons_self)
  have hstop : ∀ b ∈ w, (!stopsWord b) = true := fun b hb => by
    rw [stopsWord_of_isWordByte (hin b (List.mem_cons_of_mem c hb))]
    rfl
  have ht : (w ++ rest).head?.bind (twoCharOp c) = none := by
    cases (w ++ rest).head? with
    | none => rfl
    | some d =>
      have h1 : c ≠ 60 := fun h => hop (h ▸ by decide)
      have h2 : c ≠ 62 := fun h => hop (h ▸ by decide)
      have h3 : c ≠ 33 := fun h => hop (h ▸ by decide)
      show twoCharOp c d = none
      unfold twoCharOp
      exact if_neg (by simp [ascii, h1, h2, h3])
  rw [List.cons_append, tokenize_cons, nextToken_word hs hq ht hm,
    List.takeWhile_append_of_pos hstop, List.dropWhile_append_of_pos hstop]
  rfl

/-! ## Renderings -/

/-- **A token as it is written.** -/
inductive Lexeme where
  /-- A word. -/
  | word (w : ByteString) (h : IsWord w)
  /-- A punctuation mark or a star. -/
  | mark (c : UInt8) (h : c ∈ ascii ",();*")
  /-- A comparison operator. -/
  | op (o : ByteString) (h : o ∈ comparisons)
  /-- A string in quotes of one kind, which it does not contain. -/
  | quoted (q : UInt8) (s : ByteString) (hq : isQuote q = true) (hs : q ∉ s)

namespace Lexeme

/-- The token it stands for. -/
def token : Lexeme → ByteString
  | word w _ => w
  | mark c _ => [c]
  | op o _ => o
  | quoted _ s _ _ => s

/-- What is written. -/
def text : Lexeme → ByteString
  | word w _ => w
  | mark c _ => [c]
  | op o _ => o
  | quoted q s _ _ => q :: s ++ [q]

/-- It is a word. -/
def IsWord : Lexeme → Prop
  | word _ _ => True
  | _ => False

/-- It is a comparison operator. -/
def IsOp : Lexeme → Prop
  | op _ _ => True
  | _ => False

/-- **It runs into a word** written before it: an operator or a star. -/
def Clings : Lexeme → Prop
  | op _ _ => True
  | mark c _ => c = 42
  | _ => False

/-- What it starts with. -/
theorem head_text (x : Lexeme) {d : UInt8} (h : x.text.head? = some d) :
    (stopsWord d = false ↔ x.IsWord ∨ x.Clings) ∧ (¬ x.IsOp → d ≠ 61 ∧ d ≠ 62) := by
  cases x with
  | word w hw =>
    have hd := hw.2 d (List.mem_of_mem_head? h)
    obtain ⟨-, -, -, hop⟩ := of_isWordByte hd
    refine ⟨iff_of_true (stopsWord_of_isWordByte hd) (Or.inl trivial), fun _ => ⟨?_, ?_⟩⟩
    · rintro rfl
      exact absurd hd (by decide)
    · rintro rfl
      exact absurd hd (by decide)
  | mark c hc =>
    obtain rfl : c = d := Option.some.inj h
    have hmark : ∀ c ∈ ascii ",();*", (stopsWord c = false ↔ c = 42) ∧ c ≠ 61 ∧ c ≠ 62 :=
      List.forall_iff_forall_mem.mp (by decide)
    obtain ⟨h1, h2⟩ := hmark c hc
    exact ⟨h1.trans (by simp [IsWord, Clings]), fun _ => h2⟩
  | op o ho =>
    have hop : ∀ o ∈ comparisons, o.head?.all (fun d => !stopsWord d) = true := by decide
    have hd := hop o ho
    rw [show o.head? = some d from h, Option.all_some] at hd
    exact ⟨iff_of_true ((Bool.not_eq_true' _).mp hd) (Or.inr trivial),
      fun hno => absurd trivial hno⟩
  | quoted q s hq hs =>
    obtain rfl : q = d := Option.some.inj h
    have hquote : q = 39 ∨ q = 34 := by simpa [isQuote] using hq
    rcases hquote with rfl | rfl
    · exact ⟨by simp [IsWord, Clings]; decide, fun _ => by decide⟩
    · exact ⟨by simp [IsWord, Clings]; decide, fun _ => by decide⟩

theorem text_ne_nil (x : Lexeme) : x.text ≠ [] := by
  cases x with
  | word w hw => exact hw.1
  | mark c hc => exact List.cons_ne_nil _ _
  | op o ho =>
    have hop : ∀ o ∈ comparisons, o ≠ [] := by decide
    exact hop o ho
  | quoted q s hq hs => exact List.cons_ne_nil _ _

end Lexeme

/-- Lexemes, each with what is written before it, and what is written at the
end. -/
def render (items : List (ByteString × Lexeme)) (last : ByteString) : ByteString :=
  items.flatMap (fun x => x.1 ++ x.2.text) ++ last

/-- **A rendering of a sequence of tokens**: white space between two words and
between two operators, and any or none elsewhere. -/
structure Rendering where
  /-- The lexemes, each with the gap before it. -/
  items : List (ByteString × Lexeme)
  /-- The gap at the end. -/
  last : ByteString
  blank : ∀ x ∈ items, ∀ b ∈ x.1, isSpace b = true
  blank_last : ∀ b ∈ last, isSpace b = true
  /-- Two words, and two operators, do not touch. -/
  apart : items.IsChain (fun x y =>
    x.2.IsWord ∧ y.2.IsWord ∨ x.2.IsOp ∧ y.2.IsOp → y.1 ≠ [])

namespace Rendering

/-- The statement written. -/
def text (r : Rendering) : ByteString := render r.items r.last

/-- The tokens meant. -/
def tokens (r : Rendering) : List ByteString := r.items.map (fun x => x.2.token)

/-- **No word runs on**: there is white space between a word and an operator
or a star after it. -/
def WordsEnd (items : List (ByteString × Lexeme)) : Prop :=
  items.IsChain (fun x y => x.2.IsWord → y.2.Clings → y.1 ≠ [])

end Rendering

/-- What a rendering starts with. -/
theorem head_render {items : List (ByteString × Lexeme)} {last : ByteString}
    (hblank : ∀ x ∈ items, ∀ b ∈ x.1, isSpace b = true) (hlast : ∀ b ∈ last, isSpace b = true)
    {d : UInt8} (h : (render items last).head? = some d) :
    isSpace d = true ∨ ∃ x items', items = ([], x) :: items' ∧ x.text.head? = some d := by
  cases items with
  | nil => exact Or.inl (hlast d (List.mem_of_mem_head? h))
  | cons x items =>
    obtain ⟨gap, x⟩ := x
    cases gap with
    | nil =>
      refine Or.inr ⟨x, items, rfl, ?_⟩
      obtain ⟨b, bs, hx⟩ := List.exists_cons_of_ne_nil x.text_ne_nil
      simpa [render, hx] using h
    | cons b gap =>
      have hb : b = d := by simpa [render] using h
      exact Or.inl (hb ▸ hblank _ List.mem_cons_self b List.mem_cons_self)

/-- **When a rendering is read back.** The induction is on the lexemes: each
is read off the front, unless it is a word that runs on, whose token is then
longer than the word. -/
theorem tokenize_render_iff {last : ByteString} (hlast : ∀ b ∈ last, isSpace b = true) :
    ∀ items : List (ByteString × Lexeme), (∀ x ∈ items, ∀ b ∈ x.1, isSpace b = true) →
      items.IsChain (fun x y => x.2.IsWord ∧ y.2.IsWord ∨ x.2.IsOp ∧ y.2.IsOp → y.1 ≠ []) →
      (tokenize (render items last) = items.map (fun x => x.2.token) ↔ Rendering.WordsEnd items)
  | [], _, _ => by
    refine iff_of_true ?_ List.IsChain.nil
    have hgap := tokenize_gap hlast []
    rw [List.append_nil] at hgap
    exact hgap
  | (gap, x) :: items, hblank, happart => by
    have hblank' : ∀ x ∈ items, ∀ b ∈ x.1, isSpace b = true := fun y hy =>
      hblank y (List.mem_cons_of_mem _ hy)
    have ih := tokenize_render_iff hlast items hblank' happart.tail
    have hrender : render ((gap, x) :: items) last = gap ++ (x.text ++ render items last) := by
      simp [render]
    have hhead := fun d => head_render (d := d) hblank' hlast
    rw [hrender, tokenize_gap (hblank _ List.mem_cons_self), List.map_cons]
    -- a lexeme that is read off leaves the rest
    have hpeel : tokenize (x.text ++ render items last) = x.token :: tokenize (render items last) →
        (∀ y items', items = y :: items' → x.IsWord → y.2.Clings → y.1 ≠ []) →
        (tokenize (x.text ++ render items last) = x.token :: items.map (fun x => x.2.token)
          ↔ Rendering.WordsEnd ((gap, x) :: items)) := by
      intro hx hend
      rw [hx, List.cons.injEq, ih]
      unfold Rendering.WordsEnd
      rw [List.isChain_cons]
      refine ⟨fun h => ⟨fun y hy => ?_, h.2⟩, fun h => ⟨rfl, h.2⟩⟩
      cases items with
      | nil => cases hy
      | cons z items =>
        obtain rfl : z = y := Option.some.inj hy
        exact hend z items rfl
    cases x with
    | word w hw =>
      rcases hstop : ((render items last).takeWhile (fun b => !stopsWord b)) with - | ⟨d, ds⟩
      · -- the word ends where it should
        have hdrop : (render items last).dropWhile (fun b => !stopsWord b) = render items last := by
          have happ := List.takeWhile_append_dropWhile (p := fun b => !stopsWord b)
            (l := render items last)
          rwa [hstop] at happ
        refine hpeel (by rw [Lexeme.text, tokenize_word hw, hstop, hdrop, List.append_nil]; rfl) ?_
        rintro ⟨g, y⟩ items' rfl - hcl rfl
        obtain ⟨d, ds, hd⟩ := List.exists_cons_of_ne_nil y.text_ne_nil
        have hrun := (y.head_text (d := d) (by rw [hd]; rfl)).1.mpr (Or.inr hcl)
        have hr : render (([], y) :: items') last = d :: (ds ++ render items' last) := by
          simp [render, hd]
        rw [hr, List.takeWhile_cons_of_pos (by rw [hrun]; rfl)] at hstop
        cases hstop
      · -- it runs on into the next lexeme
        have hd : (render items last).head? = some d ∧ stopsWord d = false := by
          rcases hr : render items last with - | ⟨b, bs⟩
          · rw [hr] at hstop
            cases hstop
          · rw [hr, List.takeWhile_cons] at hstop
            split at hstop
            case isTrue hb =>
              obtain ⟨rfl, -⟩ := List.cons.inj hstop
              exact ⟨rfl, by simpa using hb⟩
            case isFalse => cases hstop
        refine iff_of_false ?_ ?_
        · rw [Lexeme.text, tokenize_word hw, hstop]
          intro h
          have hlen := congrArg List.length (List.cons.inj h).1
          simp [Lexeme.token] at hlen
        · intro hend
          rcases hhead d hd.1 with hsp | ⟨y, items', rfl, hy⟩
          · have : stopsWord d = true := by
              unfold stopsWord
              rw [hsp]
              rfl
            rw [hd.2] at this
            cases this
          · rcases (y.head_text hy).1.mp hd.2 with hword | hcl
            · exact (List.isChain_cons_cons.mp happart).1 (Or.inl ⟨trivial, hword⟩) rfl
            · exact (List.isChain_cons_cons.mp hend).1 trivial hcl rfl
    | mark c hc =>
      have hc' : c ∈ ascii ",();*=" := by
        have hsub : ∀ c ∈ ascii ",();*", c ∈ ascii ",();*=" :=
          List.forall_iff_forall_mem.mp (by decide)
        exact hsub c hc
      exact hpeel (tokenize_punctuation hc' _) (fun _ _ _ hword => absurd hword id)
    | op o ho =>
      refine hpeel (tokenize_op ho (fun d hd => ?_)) (fun _ _ _ hword => absurd hword id)
      rcases hhead d hd with hsp | ⟨y, items', rfl, hy⟩
      · constructor
        · rintro rfl
          exact absurd hsp (by decide)
        · rintro rfl
          exact absurd hsp (by decide)
      · exact (y.head_text hy).2 (fun hop =>
          (List.isChain_cons_cons.mp happart).1 (Or.inr ⟨trivial, hop⟩) rfl)
    | quoted q s hq hs =>
      have hx : tokenize ((Lexeme.quoted q s hq hs).text ++ render items last)
          = s :: tokenize (render items last) := by
        have h := tokenize_quoted hq hs (render items last)
        simpa [Lexeme.text] using h
      exact hpeel hx (fun _ _ _ hword => absurd hword id)

namespace Rendering

/-- **When tokenisation does not depend on optional white space**: a rendering
is read back as the tokens it was written from exactly if it has white space
between a word and an operator or a star after it. -/
theorem tokenize_eq_iff (r : Rendering) : tokenize r.text = r.tokens ↔ WordsEnd r.items :=
  tokenize_render_iff r.blank_last r.items r.blank r.apart

/-- `a=1`. -/
def wordOpWord : Rendering where
  items := [([], .word (ascii "a") (by decide)), ([], .op (ascii "=") (by decide)),
    ([], .word (ascii "1") (by decide))]
  last := []
  blank := by simp
  blank_last := by simp
  apart := by simp [Lexeme.IsWord, Lexeme.IsOp]

/-- **`a=1` is read as one token.** -/
theorem tokenize_ne_wordOpWord : tokenize wordOpWord.text = [ascii "a=1"]
    ∧ tokenize wordOpWord.text ≠ wordOpWord.tokens := by decide

end Rendering

end SqlEngine
