import SqlMini.TokenBounds
import SqlMini.Updates

/-!
# What the parsers read

The grammar the parsers implement is looser than the documented one. They skip
a separator where there is one, stop where they have what they need, and take
a clause they do not recognise for the end of the statement. Here is that
grammar, as relations between the tokens before and behind what is read.

An executor that returns has read a statement of it, and has then run it
(`returns_execCreate`, `returns_execInsert`, `returns_execDelete`,
`returns_execSelect`, `returns_execJoin`).
-/

namespace SqlEngine

open Routine

variable {α : Type} {ts rest : List ByteString} {e : Engine} {p : ByteString → Bool}

/-! ## Single tokens -/

theorem returns_next {Q : ByteString → ExecState → Prop} :
    Returns next ⟨ts, e⟩ Q ↔ ∃ t rest, ts = t :: rest ∧ Q t ⟨rest, e⟩ := by
  cases ts with
  | nil => exact iff_of_false (not_returns_of_stop next_nil) (by simp)
  | cons t rest =>
    rw [returns_of_ok next_cons]
    simp

/-- A token skipped where the test holds of it. -/
inductive ReadIf (p : ByteString → Bool) : (ts rest : List ByteString) → Prop
  | read {t : ByteString} {rest : List ByteString} (h : p t = true) : ReadIf p (t :: rest) rest
  | absent {ts : List ByteString} (h : ∀ t ∈ ts.head?, p t = false) : ReadIf p ts ts

/-- **A test of the next token** before either rest. -/
theorem returns_ahead {m m' : ExecM α} {Q : α → ExecState → Prop} :
    Returns (do if ← ahead p then m else m') ⟨ts, e⟩ Q
      ↔ (∃ t ∈ ts.head?, p t = true) ∧ Returns m ⟨ts, e⟩ Q
        ∨ (∀ t ∈ ts.head?, p t = false) ∧ Returns m' ⟨ts, e⟩ Q := by
  unfold Returns
  cases ts with
  | nil =>
    rw [bind_of_ok ahead_nil]
    simp
  | cons t rest =>
    rw [bind_of_ok ahead_cons]
    cases h : p t with
    | false => simp [h]
    | true => simp [h]

theorem returns_skip {t : ByteString} {m : ExecM α} {Q : α → ExecState → Prop} :
    Returns (do skip; m) ⟨t :: rest, e⟩ Q ↔ Returns m ⟨rest, e⟩ Q := by
  rw [returns_bind, returns_of_ok skip_cons]

/-- A separator, skipped where there is one. -/
theorem returns_readIf {m : ExecM α} {Q : α → ExecState → Prop} :
    Returns (do
      if ← ahead p then skip
      m) ⟨ts, e⟩ Q ↔ ∃ rest, ReadIf p ts rest ∧ Returns m ⟨rest, e⟩ Q := by
  rw [returns_ahead]
  constructor
  · rintro (⟨⟨t, ht, hp⟩, hm⟩ | ⟨hno, hm⟩)
    · cases ts with
      | nil => cases ht
      | cons u rest =>
        obtain rfl := Option.some.inj ht
        exact ⟨rest, .read hp, returns_skip.mp hm⟩
    · exact ⟨ts, .absent hno, hm⟩
  · rintro ⟨rest, hread, hm⟩
    cases hread with
    | read hp => exact Or.inl ⟨⟨_, rfl, hp⟩, returns_skip.mpr hm⟩
    | absent hno => exact Or.inr ⟨hno, hm⟩

/-- A test whether there is a token. -/
theorem returns_seen {message : ByteString} {k : ByteString → ExecM α} {Q : α → ExecState → Prop} :
    Returns (do
      if !(← ahead (fun _ => true)) then fail message
      else
        let t ← next
        k t) ⟨ts, e⟩ Q ↔ Returns (do let t ← next; k t) ⟨ts, e⟩ Q := by
  cases ts with
  | nil =>
    have hfail : Returns (fail message : ExecM α) ⟨[], e⟩ Q ↔ False :=
      iff_false_intro not_returns_throw
    rw [returns_bind, returns_of_ok ahead_nil, returns_bind, returns_next]
    simp [hfail]
  | cons t rest =>
    rw [returns_bind, returns_of_ok ahead_cons]
    simp

/-- **A keyword expected** was there. -/
theorem returns_expectToken {ending : ByteString} {s : String} {Q : Unit → ExecState → Prop} :
    Returns (expectToken ending (ascii s)) ⟨ts, e⟩ Q
      ↔ ∃ t rest, ts = t :: rest ∧ Keyword s t ∧ Q () ⟨rest, e⟩ := by
  by_cases h : ∀ t ∈ ts.head?, ¬ Keyword s t
  · refine iff_of_false (not_returns_of_throw (expectToken_of_not h)) ?_
    rintro ⟨t, rest, rfl, ht, -⟩
    exact h t rfl ht
  · push Not at h
    obtain ⟨t, hhead, ht⟩ := h
    cases ts with
    | nil => cases hhead
    | cons u rest =>
      obtain rfl := Option.some.inj hhead
      rw [returns_of_ok (expectToken_of_keyword ht)]
      simp [ht]

theorem returns_expectPlain {s : String} {Q : Unit → ExecState → Prop} :
    Returns (expectPlain s) ⟨ts, e⟩ Q ↔ ∃ t rest, ts = t :: rest ∧ Keyword s t ∧ Q () ⟨rest, e⟩ :=
  returns_expectToken

theorem returns_expectNamed {s : String} {Q : Unit → ExecState → Prop} :
    Returns (expectNamed s) ⟨ts, e⟩ Q ↔ ∃ t rest, ts = t :: rest ∧ Keyword s t ∧ Q () ⟨rest, e⟩ :=
  returns_expectToken

/-- **Work on the engine** leaves the cursor. -/
theorem returns_onEngine {n : EngineM α} {Q : α → ExecState → Prop} :
    Returns (onEngine n) ⟨ts, e⟩ Q ↔ Returns n e (fun a e' => Q a ⟨ts, e'⟩) := by
  unfold Returns onEngine
  rcases n e with f | ⟨x | a, e'⟩
  · simp [Except.map]
  · simp [Except.map]
  · simp [Except.map]

theorem returns_list {Q : List ByteString → ExecState → Prop} : Returns (list p) ⟨ts, e⟩ Q
    ↔ Q (commaList p ts).1 ⟨(commaList p ts).2, e⟩ := returns_of_ok list_apply

/-! ## Clauses -/

/-- **A `WHERE` as it is read**: absent where the next token is anything else,
and otherwise the next three tokens, whatever they are. -/
inductive ReadWhere : WhereClause → (ts rest : List ByteString) → Prop
  | absent {ts : List ByteString} (h : ∀ t ∈ ts.head?, ¬ Keyword "WHERE" t) :
      ReadWhere ⟨false, [], [], []⟩ ts ts
  | clause {kw : ByteString} (hkw : Keyword "WHERE" kw) (col op val : ByteString)
      (rest : List ByteString) :
      ReadWhere ⟨true, col, op, val⟩ (kw :: col :: op :: val :: rest) rest

theorem returns_whereClause {Q : WhereClause → ExecState → Prop} :
    Returns whereClause ⟨ts, e⟩ Q ↔ ∃ wh rest, ReadWhere wh ts rest ∧ Q wh ⟨rest, e⟩ := by
  unfold whereClause
  rw [returns_ahead, returns_pure]
  constructor
  · rintro (⟨⟨t, ht, hp⟩, hm⟩ | ⟨hno, hQ⟩)
    · cases ts with
      | nil => cases ht
      | cons u rest =>
        obtain rfl := Option.some.inj ht
        rw [returns_skip] at hm
        simp only [returns_bind, returns_next, returns_pure] at hm
        obtain ⟨col, _, rfl, op, _, rfl, val, rest, rfl, hQ⟩ := hm
        exact ⟨_, rest, .clause (spells_eq_true.mp hp) col op val rest, hQ⟩
    · exact ⟨_, ts, .absent (fun t ht => spells_eq_false.mp (hno t ht)), hQ⟩
  · rintro ⟨wh, rest, hread, hQ⟩
    cases hread with
    | absent hno => exact Or.inr ⟨fun t ht => spells_eq_false.mpr (hno t ht), hQ⟩
    | clause hkw col op val =>
      refine Or.inl ⟨⟨_, rfl, spells_eq_true.mpr hkw⟩, ?_⟩
      rw [returns_skip]
      simp only [returns_bind, returns_next, returns_pure]
      exact ⟨col, _, rfl, op, _, rfl, val, _, rfl, hQ⟩

/-- **A `LIMIT` as it is read**: a number, or absent where the next token is
anything else. -/
inductive ReadLimit : ℤ → (ts rest : List ByteString) → Prop
  | absent {ts : List ByteString} (h : ∀ t ∈ ts.head?, ¬ Keyword "LIMIT" t) :
      ReadLimit (-1) ts ts
  | clause {kw n : ByteString} {z : CInt} (hkw : Keyword "LIMIT" kw)
      (hn : CppString.stoi n = .ok z) (rest : List ByteString) :
      ReadLimit z.val (kw :: n :: rest) rest

theorem returns_limitClause {Q : ℤ → ExecState → Prop} :
    Returns limitClause ⟨ts, e⟩ Q ↔ ∃ n rest, ReadLimit n ts rest ∧ Q n ⟨rest, e⟩ := by
  unfold limitClause
  rw [returns_ahead, returns_pure]
  constructor
  · rintro (⟨⟨t, ht, hp⟩, hm⟩ | ⟨hno, hQ⟩)
    · cases ts with
      | nil => cases ht
      | cons u rest =>
        obtain rfl := Option.some.inj ht
        rw [returns_skip] at hm
        simp only [returns_bind, returns_next, returns_ofExcept, returns_pure] at hm
        obtain ⟨n, rest, rfl, z, hn, hQ⟩ := hm
        exact ⟨_, rest, .clause (spells_eq_true.mp hp) hn rest, hQ⟩
    · exact ⟨_, ts, .absent (fun t ht => spells_eq_false.mp (hno t ht)), hQ⟩
  · rintro ⟨n, rest, hread, hQ⟩
    cases hread with
    | absent hno => exact Or.inr ⟨fun t ht => spells_eq_false.mpr (hno t ht), hQ⟩
    | clause hkw hn =>
      refine Or.inl ⟨⟨_, rfl, spells_eq_true.mpr hkw⟩, ?_⟩
      rw [returns_skip]
      simp only [returns_bind, returns_next, returns_ofExcept, returns_pure]
      exact ⟨_, _, rfl, _, hn, hQ⟩

/-! ## Lists -/

/-- **A select list as it is read**: a star, or the items up to the next
`FROM`, with or without commas between them. -/
inductive ReadItems : Option (List ByteString) → (ts rest : List ByteString) → Prop
  | star (rest : List ByteString) : ReadItems none (ascii "*" :: rest) rest
  | refs {ts : List ByteString} (h : ∀ t ∈ ts.head?, t ≠ ascii "*") :
      ReadItems (some (commaList (spells (ascii "FROM")) ts).1) ts
        (commaList (spells (ascii "FROM")) ts).2

theorem returns_selectList {Q : Option (List ByteString) → ExecState → Prop} :
    Returns selectList ⟨ts, e⟩ Q ↔ ∃ items rest, ReadItems items ts rest ∧ Q items ⟨rest, e⟩ := by
  by_cases h : ∀ t ∈ ts.head?, t ≠ ascii "*"
  · rw [returns_of_ok (selectList_of_ne h)]
    constructor
    · exact fun hQ => ⟨_, _, .refs h, hQ⟩
    · rintro ⟨items, rest, hread, hQ⟩
      cases hread with
      | star => exact absurd rfl (h _ rfl)
      | refs => exact hQ
  · push Not at h
    obtain ⟨t, hhead, rfl⟩ := h
    cases ts with
    | nil => cases hhead
    | cons u rest =>
      obtain rfl := Option.some.inj hhead
      rw [returns_of_ok selectList_star]
      constructor
      · exact fun hQ => ⟨_, _, .star rest, hQ⟩
      · rintro ⟨items, rest, hread, hQ⟩
        cases hread with
        | star => exact hQ
        | refs hne => exact absurd rfl (hne _ rfl)

/-- **A column list as it is read**: the items up to the next `)`, with or
without commas between them, and that bracket, where there is one. -/
inductive ReadNames : List ByteString → (ts rest : List ByteString) → Prop
  | absent {ts : List ByteString} (h : ∀ t ∈ ts.head?, t ≠ ascii "(") : ReadNames [] ts ts
  | list (ts : List ByteString) :
      ReadNames (commaList closes ts).1 (ascii "(" :: ts) (commaList closes ts).2.tail

theorem returns_columnList {Q : List ByteString → ExecState → Prop} :
    Returns columnList ⟨ts, e⟩ Q ↔ ∃ cols rest, ReadNames cols ts rest ∧ Q cols ⟨rest, e⟩ := by
  have hlist : ∀ {t : ByteString} {rest : List ByteString}, Returns (do
      skip
      let colOrder ← list closes
      skip
      return colOrder) ⟨t :: rest, e⟩ Q
        ↔ Q (commaList closes rest).1 ⟨(commaList closes rest).2.tail, e⟩ := by
    intro t rest
    rw [returns_skip, returns_bind, returns_list, returns_bind]
    exact (returns_of_ok (modify_apply _ _)).trans returns_pure
  unfold columnList
  rw [returns_ahead, returns_pure]
  constructor
  · rintro (⟨⟨t, ht, hp⟩, hm⟩ | ⟨hno, hQ⟩)
    · cases ts with
      | nil => cases ht
      | cons u rest =>
        obtain rfl := Option.some.inj ht
        obtain rfl := of_decide_eq_true hp
        exact ⟨_, _, .list rest, hlist.mp hm⟩
    · exact ⟨_, ts, .absent (fun t ht => of_decide_eq_false (hno t ht)), hQ⟩
  · rintro ⟨cols, rest, hread, hQ⟩
    cases hread with
    | absent hno => exact Or.inr ⟨fun t ht => decide_eq_false (hno t ht), hQ⟩
    | list ts => exact Or.inl ⟨⟨_, rfl, decide_eq_true rfl⟩, hlist.mpr hQ⟩

/-! ## Columns -/

/-- **A length as it is read** behind a text type: absent, or in brackets, of
which the second may be missing and the first enclose nothing. -/
inductive ReadLength : UInt16 → (ts rest : List ByteString) → Prop
  | absent {ts : List ByteString} (h : ∀ t ∈ ts.head?, t ≠ ascii "(") : ReadLength 255 ts ts
  | number {n : ByteString} {z : CInt} {ts rest : List ByteString} (hclose : closes n = false)
      (hn : CppString.stoi n = .ok z) (hread : ReadIf closes ts rest) :
      ReadLength (UInt16.ofNat z.toUInt) (ascii "(" :: n :: ts) rest
  | empty {ts rest : List ByteString} (hclose : ∀ t ∈ ts.head?, closes t = true)
      (hread : ReadIf closes ts rest) : ReadLength 255 (ascii "(" :: ts) rest

/-- **A column as it is read.** -/
inductive ReadColumn : Column → (ts rest : List ByteString) → Prop
  | int {type : ByteString} (h : Keyword "INT" type ∨ Keyword "INTEGER" type) (name : ByteString)
      (rest : List ByteString) : ReadColumn ⟨name, .int, 4⟩ (name :: type :: rest) rest
  | text {type : ByteString} {n : UInt16} {ts rest : List ByteString}
      (h : Keyword "TEXT" type ∨ Keyword "VARCHAR" type) (name : ByteString)
      (hlength : ReadLength n ts rest) : ReadColumn ⟨name, .text, n⟩ (name :: type :: ts) rest

/-- **Columns as they are read**, up to a `)` or the end. -/
inductive ReadColumns : List Column → (ts rest : List ByteString) → Prop
  | done {ts : List ByteString} (h : ∀ t ∈ ts.head?, closes t = true) : ReadColumns [] ts ts
  | column {col : Column} {cols : List Column} {ts ts₁ ts₂ rest : List ByteString}
      (hopen : ∃ t ∈ ts.head?, closes t = false) (hcol : ReadColumn col ts ts₁)
      (hcomma : ReadIf (· = ascii ",") ts₁ ts₂) (hcols : ReadColumns cols ts₂ rest) :
      ReadColumns (col :: cols) ts rest

theorem ReadIf.length_le (h : ReadIf p ts rest) : rest.length ≤ ts.length := by
  cases h with
  | read h => exact Nat.le_succ _
  | absent h => exact le_rfl

/-- A column takes a token at least. -/
theorem ReadColumn.length_lt {col : Column} (h : ReadColumn col ts rest) :
    rest.length < ts.length := by
  cases h with
  | int h name rest => exact Nat.lt_succ_of_lt (Nat.lt_succ_self _)
  | text h name hlength =>
    cases hlength with
    | absent h => exact Nat.lt_succ_of_lt (Nat.lt_succ_self _)
    | number hclose hn hread =>
      have hle := hread.length_le
      simp only [List.length_cons]
      omega
    | empty hclose hread =>
      have hle := hread.length_le
      simp only [List.length_cons]
      omega

/-- The end of a text column. -/
theorem returns_textLength {name : ByteString} {Q : Column → ExecState → Prop} :
    Returns (do
      if ← ahead (· = ascii "(") then
        skip
        let maxLen ← (do
          if ← ahead (fun t => !closes t) then
            let n ← ofExcept (CppString.stoi (← next))
            return UInt16.ofNat n.toUInt
          else return 255 : ExecM UInt16)
        if ← ahead closes then skip
        return ⟨name, .text, maxLen⟩
      else return ⟨name, .text, 255⟩) ⟨ts, e⟩ Q
      ↔ ∃ n rest, ReadLength n ts rest ∧ Q ⟨name, .text, n⟩ ⟨rest, e⟩ := by
  have htail : ∀ {n : UInt16} {ts : List ByteString}, Returns (do
      if ← ahead closes then skip
      return ⟨name, .text, n⟩) ⟨ts, e⟩ Q
        ↔ ∃ rest, ReadIf closes ts rest ∧ Q ⟨name, .text, n⟩ ⟨rest, e⟩ := by
    intro n ts
    rw [returns_readIf]
    simp only [returns_pure]
  rw [returns_ahead, returns_pure]
  constructor
  · rintro (⟨⟨t, ht, hp⟩, hm⟩ | ⟨hno, hQ⟩)
    · cases ts with
      | nil => cases ht
      | cons u rest =>
        obtain rfl := Option.some.inj ht
        obtain rfl := of_decide_eq_true hp
        rw [returns_skip, returns_bind, returns_ahead] at hm
        rcases hm with ⟨⟨n, hn, hclose⟩, hm⟩ | ⟨hclose, hm⟩
        · cases rest with
          | nil => cases hn
          | cons n' rest =>
            obtain rfl := Option.some.inj hn
            rw [returns_bind, returns_of_ok next_cons, returns_bind, returns_ofExcept] at hm
            obtain ⟨z, hz, hm⟩ := hm
            rw [returns_pure] at hm
            obtain ⟨rest', hread, hQ⟩ := htail.mp hm
            exact ⟨_, rest', .number (Bool.not_eq_true' _ ▸ hclose) hz hread, hQ⟩
        · rw [returns_pure] at hm
          obtain ⟨rest', hread, hQ⟩ := htail.mp hm
          exact ⟨_, rest', .empty (fun t ht => by simpa using hclose t ht) hread, hQ⟩
    · exact ⟨_, ts, .absent (fun t ht => of_decide_eq_false (hno t ht)), hQ⟩
  · rintro ⟨n, rest, hread, hQ⟩
    cases hread with
    | absent hno => exact Or.inr ⟨fun t ht => decide_eq_false (hno t ht), hQ⟩
    | number hclose hn hread =>
      refine Or.inl ⟨⟨_, rfl, decide_eq_true rfl⟩, ?_⟩
      rw [returns_skip, returns_bind, returns_ahead]
      refine Or.inl ⟨⟨_, rfl, by rw [hclose]; rfl⟩, ?_⟩
      rw [returns_bind, returns_of_ok next_cons, returns_bind, returns_ofExcept]
      exact ⟨_, hn, returns_pure.mpr (htail.mpr ⟨rest, hread, hQ⟩)⟩
    | empty hclose hread =>
      refine Or.inl ⟨⟨_, rfl, decide_eq_true rfl⟩, ?_⟩
      rw [returns_skip, returns_bind, returns_ahead]
      refine Or.inr ⟨fun t ht => by rw [hclose t ht]; rfl, ?_⟩
      exact returns_pure.mpr (htail.mpr ⟨rest, hread, hQ⟩)

/-- **A column** is read. -/
theorem returns_columnDef {Q : Column → ExecState → Prop} :
    Returns columnDef ⟨ts, e⟩ Q ↔ ∃ col rest, ReadColumn col ts rest ∧ Q col ⟨rest, e⟩ := by
  unfold columnDef
  rw [returns_bind, returns_next]
  constructor
  · rintro ⟨name, ts₁, rfl, h⟩
    rw [returns_bind] at h
    cases ts₁ with
    | nil =>
      rw [returns_of_ok ahead_nil] at h
      exact absurd h not_returns_throw
    | cons type ts =>
      rw [returns_of_ok ahead_cons] at h
      simp only [Bool.not_true, if_neg Bool.false_ne_true] at h
      rw [returns_bind, returns_of_ok next_cons] at h
      by_cases hint : toUpper type = ascii "INT" ∨ toUpper type = ascii "INTEGER"
      · rw [if_pos hint] at h
        exact ⟨_, ts, .int hint name ts, returns_pure.mp h⟩
      · by_cases htext : toUpper type = ascii "TEXT" ∨ toUpper type = ascii "VARCHAR"
        · rw [if_neg hint, if_pos htext] at h
          obtain ⟨n, rest, hread, hQ⟩ := returns_textLength.mp h
          exact ⟨_, rest, .text htext name hread, hQ⟩
        · rw [if_neg hint, if_neg htext] at h
          exact absurd h not_returns_throw
  · rintro ⟨col, rest, hread, hQ⟩
    have hne : ∀ {t : ByteString}, Keyword "TEXT" t ∨ Keyword "VARCHAR" t →
        ¬ (Keyword "INT" t ∨ Keyword "INTEGER" t) := by
      rintro t (ht | ht) (h | h)
      · exact ht.ne (by decide) h
      · exact ht.ne (by decide) h
      · exact ht.ne (by decide) h
      · exact ht.ne (by decide) h
    cases hread with
    | int h name rest =>
      refine ⟨name, _, rfl, ?_⟩
      rw [returns_bind, returns_of_ok ahead_cons]
      simp only [Bool.not_true, if_neg Bool.false_ne_true]
      rw [returns_bind, returns_of_ok next_cons]
      exact (congrArg (Returns · _ Q) (if_pos h)).mpr (returns_pure.mpr hQ)
    | text h name hlength =>
      refine ⟨name, _, rfl, ?_⟩
      rw [returns_bind, returns_of_ok ahead_cons]
      simp only [Bool.not_true, if_neg Bool.false_ne_true]
      rw [returns_bind, returns_of_ok next_cons]
      exact (congrArg (Returns · _ Q) ((if_neg (hne h)).trans (if_pos h))).mpr
        (returns_textLength.mpr ⟨_, rest, hlength, hQ⟩)

/-- **Columns** are read: as many rounds as there are tokens are enough. -/
theorem returns_columnDefs {Q : List Column → ExecState → Prop} :
    ∀ (n : ℕ) (ts : List ByteString), ts.length ≤ n →
      (Returns (columnDefs n) ⟨ts, e⟩ Q ↔ ∃ cols rest, ReadColumns cols ts rest ∧ Q cols ⟨rest, e⟩)
  | 0, ts, hn => by
    obtain rfl := List.eq_nil_of_length_eq_zero (Nat.le_zero.mp hn)
    rw [columnDefs, returns_pure]
    constructor
    · exact fun hQ => ⟨[], [], .done (by simp), hQ⟩
    · rintro ⟨cols, rest, hread, hQ⟩
      cases hread with
      | done => exact hQ
      | column hopen => simp at hopen
  | n + 1, ts, hn => by
    rw [columnDefs, returns_ahead, returns_pure]
    constructor
    · rintro (⟨⟨t, ht, hopen⟩, h⟩ | ⟨hdone, hQ⟩)
      · rw [returns_bind, returns_columnDef] at h
        obtain ⟨col, ts₁, hcol, h⟩ := h
        rw [returns_readIf] at h
        obtain ⟨ts₂, hcomma, h⟩ := h
        have hlt := hcol.length_lt
        have hle := hcomma.length_le
        rw [returns_bind, returns_columnDefs n ts₂ (by omega)] at h
        obtain ⟨cols, rest, hcols, h⟩ := h
        exact ⟨_, rest, .column ⟨t, ht, Bool.not_eq_true' _ ▸ hopen⟩ hcol hcomma hcols,
          returns_pure.mp h⟩
      · exact ⟨[], ts, .done (fun t ht => by simpa using hdone t ht), hQ⟩
    · rintro ⟨cols, rest, hread, hQ⟩
      cases hread with
      | done hdone => exact Or.inr ⟨fun t ht => by rw [hdone t ht]; rfl, hQ⟩
      | column hopen hcol hcomma hcols =>
        obtain ⟨t, ht, hclose⟩ := hopen
        have hlt := hcol.length_lt
        have hle := hcomma.length_le
        refine Or.inl ⟨⟨t, ht, by rw [hclose]; rfl⟩, ?_⟩
        rw [returns_bind, returns_columnDef]
        refine ⟨_, _, hcol, ?_⟩
        rw [returns_readIf]
        refine ⟨_, hcomma, ?_⟩
        rw [returns_bind, returns_columnDefs n _ (by omega)]
        exact ⟨_, rest, hcols, returns_pure.mpr hQ⟩

/-! ## Statements -/

variable {toks : List ByteString}

/-- **A creation as it is read**: nothing is asked of what follows the
columns. -/
inductive ReadCreate : (table : ByteString) → List Column → (toks rest : List ByteString) → Prop
  | mk {create kw paren : ByteString} {cols : List Column} {ts rest : List ByteString}
      (hcreate : Keyword "CREATE" create) (htable : Keyword "TABLE" kw) (table : ByteString)
      (hparen : Keyword "(" paren) (hcols : ReadColumns cols ts rest) :
      ReadCreate table cols (create :: kw :: table :: paren :: ts) rest

/-- **The message of a creation.** -/
def created (table : ByteString) (cols : List Column) : ByteString :=
  ascii "Table '" ++ table ++ ascii "' created with " ++ CppString.digitsOf cols.length
    ++ ascii " column(s)."

/-- **`exec_create`** reads a creation and opens the table. -/
theorem returns_execCreate {Q : ByteString → ExecState → Prop} :
    Returns execCreate ⟨toks, e⟩ Q ↔ ∃ table cols rest, ReadCreate table cols toks rest
      ∧ Returns (openTable table (some ⟨table, cols⟩)) e
        (fun _ e' => Q (created table cols) ⟨rest, e'⟩) := by
  unfold execCreate
  simp only [returns_bind, returns_expectNamed]
  constructor
  · rintro ⟨create, _, rfl, hcreate, kw, ts, rfl, htable, h⟩
    cases ts with
    | nil =>
      rw [returns_of_ok ahead_nil] at h
      exact absurd h not_returns_throw
    | cons table ts =>
      rw [returns_of_ok ahead_cons] at h
      simp only [Bool.not_true, if_neg Bool.false_ne_true] at h
      rw [returns_bind, returns_of_ok next_cons, returns_bind, returns_expectNamed] at h
      obtain ⟨paren, ts, rfl, hparen, h⟩ := h
      rw [returns_bind, returns_of_ok (get_apply _), returns_bind,
        returns_columnDefs _ ts le_rfl] at h
      obtain ⟨cols, rest, hcols, h⟩ := h
      rw [returns_bind, returns_onEngine] at h
      refine ⟨table, cols, rest, .mk hcreate htable table hparen hcols, h.mono ?_⟩
      exact fun _ e' hQ => returns_pure.mp hQ
  · rintro ⟨table, cols, rest, hread, h⟩
    cases hread with
    | mk hcreate htable table hparen hcols =>
      refine ⟨_, _, rfl, hcreate, _, _, rfl, htable, ?_⟩
      rw [returns_of_ok ahead_cons]
      simp only [Bool.not_true, if_neg Bool.false_ne_true]
      rw [returns_bind, returns_of_ok next_cons, returns_bind, returns_expectNamed]
      refine ⟨_, _, rfl, hparen, ?_⟩
      rw [returns_bind, returns_of_ok (get_apply _), returns_bind, returns_columnDefs _ _ le_rfl]
      refine ⟨cols, rest, hcols, ?_⟩
      rw [returns_bind, returns_onEngine]
      exact h.mono (fun _ e' hQ => returns_pure.mpr hQ)

/-- **An insertion as it is read**: the values are the items up to the next
`)` or the end, with or without commas between them. -/
inductive ReadInsert : InsertStmt → List ByteString → Prop
  | mk {insert into values paren : ByteString} {cols ts rest : List ByteString}
      (hinsert : Keyword "INSERT" insert) (hinto : Keyword "INTO" into) (table : ByteString)
      (hcols : ReadNames cols ts (values :: paren :: rest)) (hvalues : Keyword "VALUES" values)
      (hparen : Keyword "(" paren) :
      ReadInsert ⟨table, cols, (commaList closes rest).1⟩ (insert :: into :: table :: ts)

/-- **`exec_insert`** reads an insertion and runs it. -/
theorem returns_execInsert {P : ByteString → Prop} :
    Returns execInsert ⟨toks, e⟩ (fun text _ => P text)
      ↔ ∃ st, ReadInsert st toks ∧ Returns (runInsert st) e (fun text _ => P text) := by
  unfold execInsert runInsert
  simp only [returns_bind, returns_expectPlain, returns_next, returns_onEngine, returns_columnList,
    returns_list, returns_ofExcept, returns_pure]
  constructor
  · rintro ⟨insert, _, rfl, hinsert, into, _, rfl, hinto, table, ts, rfl, h⟩
    obtain ⟨_, e₁, hopen, schema, e₂, hschema, cols, _, hcols, values, _, rfl, hvalues, paren, rest,
      rfl, hparen, h⟩ := h
    exact ⟨_, .mk hinsert hinto table hcols hvalues hparen, _, e₁, hopen, schema, e₂, hschema, h⟩
  · rintro ⟨st, hread, h⟩
    cases hread with
    | mk hinsert hinto table hcols hvalues hparen =>
      refine ⟨_, _, rfl, hinsert, _, _, rfl, hinto, _, _, rfl, ?_⟩
      refine h.mono (fun _ e₁ h => h.mono (fun schema e₂ h => ?_))
      exact ⟨_, _, hcols, _, _, rfl, hvalues, _, _, rfl, hparen, h⟩

/-- **A deletion as it is read**: nothing is asked of what follows the table,
if it is no `WHERE`, or of what follows the `WHERE`. -/
inductive ReadDelete : (table : ByteString) → WhereClause → List ByteString → Prop
  | mk {delete frm : ByteString} {wh : WhereClause} {ts rest : List ByteString}
      (hdelete : Keyword "DELETE" delete) (hfrom : Keyword "FROM" frm) (table : ByteString)
      (hwhere : ReadWhere wh ts rest) : ReadDelete table wh (delete :: frm :: table :: ts)

/-- **`exec_delete`** reads a deletion and runs it. -/
theorem returns_execDelete {P : ByteString → Prop} :
    Returns execDelete ⟨toks, e⟩ (fun text _ => P text)
      ↔ ∃ table wh, ReadDelete table wh toks
        ∧ Returns (runDelete table wh) e (fun text _ => P text) := by
  unfold execDelete runDelete
  constructor
  · intro h
    rw [returns_bind, returns_expectNamed] at h
    obtain ⟨delete, _, rfl, hdelete, h⟩ := h
    rw [returns_bind, returns_expectNamed] at h
    obtain ⟨frm, _, rfl, hfrom, h⟩ := h
    rw [returns_seen] at h
    simp only [returns_bind, returns_next, returns_onEngine, returns_whereClause, returns_ofExcept,
      returns_pure] at h
    obtain ⟨table, ts, rfl, _, e₁, hopen, schema, e₂, hschema, wh, rest, hwhere, h⟩ := h
    refine ⟨table, wh, .mk hdelete hfrom table hwhere, ?_⟩
    simp only [returns_bind, returns_ofExcept, returns_pure]
    exact ⟨_, e₁, hopen, schema, e₂, hschema, h⟩
  · rintro ⟨table, wh, hread, h⟩
    simp only [returns_bind, returns_ofExcept, returns_pure] at h
    obtain ⟨_, e₁, hopen, schema, e₂, hschema, h⟩ := h
    cases hread with
    | mk hdelete hfrom table hwhere =>
      rw [returns_bind, returns_expectNamed]
      refine ⟨_, _, rfl, hdelete, ?_⟩
      rw [returns_bind, returns_expectNamed]
      refine ⟨_, _, rfl, hfrom, ?_⟩
      rw [returns_seen]
      simp only [returns_bind, returns_next, returns_onEngine, returns_whereClause,
        returns_ofExcept,
        returns_pure]
      exact ⟨table, _, rfl, _, e₁, hopen, schema, e₂, hschema, wh, _, hwhere, h⟩

/-! ### Queries -/

/-- **A query of one table as it is read**: nothing is asked of what follows
the `LIMIT`, or of what is not taken for a clause. -/
inductive ReadSelect : Option (List ByteString) → (table : ByteString) → WhereClause → ℤ →
    List ByteString → Prop
  | mk {select frm : ByteString} {items : Option (List ByteString)} {wh : WhereClause} {n : ℤ}
      {ts ts₁ ts₂ rest : List ByteString} (hselect : Keyword "SELECT" select) (table : ByteString)
      (hitems : ReadItems items ts (frm :: table :: ts₁)) (hfrom : Keyword "FROM" frm)
      (hwhere : ReadWhere wh ts₁ ts₂) (hlimit : ReadLimit n ts₂ rest) :
      ReadSelect items table wh n (select :: ts)

/-- **`exec_select`** reads a query of one table and runs it. -/
theorem returns_execSelect {P : SelectResult → Prop} :
    Returns execSelect ⟨toks, e⟩ (fun res _ => P res)
      ↔ ∃ items table wh n, ReadSelect items table wh n toks ∧ Returns (do
        openTable table none
        let schema ← schemaOf table
        runSelect table schema items wh n) e (fun res _ => P res) := by
  unfold execSelect
  simp only [returns_bind, returns_expectPlain, returns_selectList, returns_next, returns_onEngine,
    returns_whereClause, returns_limitClause]
  constructor
  · rintro ⟨select, _, rfl, hselect, items, _, hitems, frm, _, rfl, hfrom, table, ts, rfl, h⟩
    obtain ⟨_, e₁, hopen, schema, e₂, hschema, wh, _, hwhere, n, rest, hlimit, h⟩ := h
    exact ⟨items, table, wh, n, .mk hselect table hitems hfrom hwhere hlimit, _, e₁, hopen,
      schema, e₂,
      hschema, h⟩
  · rintro ⟨items, table, wh, n, hread, _, e₁, hopen, schema, e₂, hschema, h⟩
    cases hread with
    | mk hselect table hitems hfrom hwhere hlimit =>
      exact ⟨_, _, rfl, hselect, items, _, hitems, _, _, rfl, hfrom, _, _, rfl, _, e₁,
        hopen, schema,
        e₂, hschema, wh, _, hwhere, n, _, hlimit, h⟩

/-- **A join as it is read.** -/
inductive ReadJoin : JoinStmt → List ByteString → Prop
  | mk {select frm join on eq : ByteString} {items : Option (List ByteString)} {wh : WhereClause}
      {n : ℤ} {ts ts₁ ts₂ ts₃ rest : List ByteString} (hselect : Keyword "SELECT" select)
      (left : ByteString) (hitems : ReadItems items ts (frm :: left :: ts₁))
      (hfrom : Keyword "FROM" frm) (right onLeft onRight : ByteString)
      (hinner : ReadIf (spells (ascii "INNER")) ts₁
        (join :: right :: on :: onLeft :: eq :: onRight :: ts₂))
      (hjoin : Keyword "JOIN" join) (hon : Keyword "ON" on) (heq : Keyword "=" eq)
      (hwhere : ReadWhere wh ts₂ ts₃) (hlimit : ReadLimit n ts₃ rest) :
      ReadJoin ⟨items, left, right, onLeft, onRight, wh, n⟩ (select :: ts)

/-- **The parser of `exec_join`** reads a join. -/
theorem returns_parseJoin {P : JoinStmt → Engine → Prop} :
    Returns parseJoin ⟨toks, e⟩ (fun q st => P q st.engine) ↔ ∃ q, ReadJoin q toks ∧ P q e := by
  unfold parseJoin
  constructor
  · intro h
    rw [returns_bind, returns_expectNamed] at h
    obtain ⟨select, _, rfl, hselect, h⟩ := h
    rw [returns_bind, returns_selectList] at h
    obtain ⟨items, _, hitems, h⟩ := h
    rw [returns_bind, returns_expectNamed] at h
    obtain ⟨frm, _, rfl, hfrom, h⟩ := h
    rw [returns_bind, returns_next] at h
    obtain ⟨left, ts₁, rfl, h⟩ := h
    rw [returns_readIf] at h
    simp only [returns_bind, returns_expectNamed, returns_next, returns_whereClause,
      returns_limitClause, returns_pure] at h
    obtain ⟨_, hinner, join, _, rfl, hjoin, right, _, rfl, on, _, rfl, hon, onLeft, _, rfl,
      eq, _, rfl,
      heq, onRight, _, rfl, wh, _, hwhere, n, rest, hlimit, h⟩ := h
    exact ⟨_, .mk hselect left hitems hfrom right onLeft onRight hinner hjoin hon heq hwhere
      hlimit, h⟩
  · rintro ⟨q, hread, h⟩
    cases hread with
    | mk hselect left hitems hfrom right onLeft onRight hinner hjoin hon heq hwhere hlimit =>
      rw [returns_bind, returns_expectNamed]
      refine ⟨_, _, rfl, hselect, ?_⟩
      rw [returns_bind, returns_selectList]
      refine ⟨_, _, hitems, ?_⟩
      rw [returns_bind, returns_expectNamed]
      refine ⟨_, _, rfl, hfrom, ?_⟩
      rw [returns_bind, returns_next]
      refine ⟨_, _, rfl, ?_⟩
      rw [returns_readIf]
      simp only [returns_bind, returns_expectNamed, returns_next, returns_whereClause,
        returns_limitClause, returns_pure]
      exact ⟨_, hinner, _, _, rfl, hjoin, _, _, rfl, _, _, rfl, hon, _, _, rfl, _, _, rfl,
        heq, _, _,
        rfl, _, _, hwhere, _, _, hlimit, h⟩

/-- **`exec_join`** reads a join and runs it. -/
theorem returns_execJoin {P : SelectResult → Prop} :
    Returns execJoin ⟨toks, e⟩ (fun res _ => P res)
      ↔ ∃ q, ReadJoin q toks ∧ Returns (joinTables q) e (fun res _ => P res) := by
  have hrun : ∀ (q : JoinStmt) (st : ExecState), Returns (onEngine (joinTables q)) st
      (fun res _ => P res) ↔ Returns (joinTables q) st.engine (fun res _ => P res) :=
    fun q st => returns_onEngine
  unfold execJoin
  simp only [returns_bind, hrun]
  exact returns_parseJoin (P := fun q e => Returns (joinTables q) e (fun res _ => P res))

/-! ## More tokens behind

What is read stays the same where more tokens follow, if some were left. -/

theorem ReadIf.append (h : ReadIf p ts rest) (us : List ByteString) (hne : rest ≠ []) :
    ReadIf p (ts ++ us) (rest ++ us) := by
  cases h with
  | read hp => exact .read hp
  | absent hno => exact .absent (by rwa [List.head?_append_of_ne_nil _ hne])

theorem commaList_append : ∀ ts us : List ByteString, (commaList p ts).2 ≠ [] →
    commaList p (ts ++ us) = ((commaList p ts).1, (commaList p ts).2 ++ us)
  | [], _, hne => absurd rfl hne
  | [t], us, hne => by
    rw [commaList] at hne ⊢
    cases hp : p t with
    | false =>
      rw [hp] at hne
      exact absurd rfl hne
    | true =>
      cases us with
      | nil => simp [commaList, hp]
      | cons u us => simp [commaList, hp]
  | t :: u :: ts, us, hne => by
    rw [commaList] at hne ⊢
    rw [List.cons_append, List.cons_append, commaList]
    cases hp : p t with
    | true => rfl
    | false =>
      simp only [hp, if_neg Bool.false_ne_true] at hne ⊢
      by_cases hu : u = ascii ","
      · simp only [if_pos hu] at hne ⊢
        rw [commaList_append ts us hne]
      · simp only [if_neg hu] at hne ⊢
        rw [← List.cons_append, commaList_append (u :: ts) us hne]

theorem ReadItems.append {items : Option (List ByteString)} (h : ReadItems items ts rest)
    (us : List ByteString) (hne : rest ≠ []) : ReadItems items (ts ++ us) (rest ++ us) := by
  cases h with
  | star rest => exact .star _
  | refs hstar =>
    have hts : ts ≠ [] := by
      rintro rfl
      exact hne rfl
    have hhead : ∀ t ∈ (ts ++ us).head?, t ≠ ascii "*" := by
      rwa [List.head?_append_of_ne_nil _ hts]
    have hread := ReadItems.refs hhead
    rwa [commaList_append ts us hne] at hread

theorem ReadWhere.append {wh : WhereClause} {us : List ByteString} (h : ReadWhere wh ts rest)
    (hus : ∀ t ∈ us.head?, ¬ Keyword "WHERE" t) : ReadWhere wh (ts ++ us) (rest ++ us) := by
  cases h with
  | absent hno =>
    refine .absent (fun t ht => ?_)
    cases ts with
    | nil => exact hus t ht
    | cons u ts => exact hno t ht
  | clause hkw col op val rest => exact .clause hkw col op val _

/-! ## Reading, then running

What is read does not depend on the engine, so an executor on the tokens of a
statement is the execution of that statement, whether it returns or not. -/

theorem whereClause_of_read {wh : WhereClause} (h : ReadWhere wh ts rest) (e : Engine) :
    whereClause ⟨ts, e⟩ = .ok (.ok wh, ⟨rest, e⟩) := by
  cases h with
  | absent hno => exact whereClause_of_not hno
  | clause hkw col op val => exact whereClause_of_keyword hkw col op val

theorem limitClause_of_read {n : ℤ} (h : ReadLimit n ts rest) (e : Engine) :
    limitClause ⟨ts, e⟩ = .ok (.ok n, ⟨rest, e⟩) := by
  cases h with
  | absent hno => exact limitClause_of_not hno
  | clause hkw hn =>
    rw [limitClause_of_keyword hkw, hn]
    rfl

theorem selectList_of_read {items : Option (List ByteString)} (h : ReadItems items ts rest)
    (e : Engine) : selectList ⟨ts, e⟩ = .ok (.ok items, ⟨rest, e⟩) := by
  cases h with
  | star => exact selectList_star
  | refs hne => exact selectList_of_ne hne

/-- **`exec_delete`** on whatever it reads as a deletion. -/
theorem effect_execDelete_of_read {table : ByteString} {wh : WhereClause}
    (h : ReadDelete table wh toks) (e : Engine) :
    effect execDelete toks e = runDelete table wh e := by
  cases h with
  | @mk delete frm wh ts rest hdelete hfrom table hwhere =>
  exact effect_execDelete_of_where hdelete hfrom (whereClause_of_read hwhere) e

/-- **`exec_select`** on whatever it reads as a query. -/
theorem effect_execSelect_of_read {items : Option (List ByteString)} {table : ByteString}
    {wh : WhereClause} {n : ℤ} (h : ReadSelect items table wh n toks) (e : Engine) :
    effect execSelect toks e = (do
      openTable table none
      let schema ← schemaOf table
      runSelect table schema items wh n : EngineM SelectResult) e := by
  cases h with
  | mk hselect table hitems hfrom hwhere hlimit =>
  unfold execSelect
  rw [effect_bind_of_ok (expectPlain_of_keyword hselect),
    effect_bind_of_ok (selectList_of_read hitems e),
    effect_bind_of_ok (expectPlain_of_keyword hfrom), effect_bind_of_ok next_cons,
    effect_onEngine_bind]
  refine congrFun (congrArg (Routine.bind _) ?_) e
  funext _ e
  rw [effect_onEngine_bind]
  refine congrFun (congrArg (Routine.bind _) ?_) e
  funext schema e
  rw [effect_bind_of_ok (whereClause_of_read hwhere e),
    effect_bind_of_ok (limitClause_of_read hlimit e)]
  exact effect_onEngine _ _ _

/-- **`exec_join`** on whatever it reads as a join. -/
theorem effect_execJoin_of_read {q : JoinStmt} (h : ReadJoin q toks) (e : Engine) :
    effect execJoin toks e = joinTables q e := by
  cases h with
  | @mk select frm join on eq items wh n ts ts₁ ts₂ ts₃ rest hselect left hitems hfrom right onLeft
      onRight hinner hjoin hon heq hwhere hlimit =>
  have hparse : parseJoin ⟨select :: ts, e⟩
      = .ok (.ok ⟨items, left, right, onLeft, onRight, wh, n⟩, ⟨rest, e⟩) := by
    have htail : (do
        expectNamed "JOIN"
        let rightName ← next
        expectNamed "ON"
        let onLeft ← next
        expectNamed "="
        let onRight ← next
        let wh ← whereClause
        let limit ← limitClause
        return ⟨items, left, rightName, onLeft, onRight, wh, limit⟩ : ExecM JoinStmt)
          ⟨join :: right :: on :: onLeft :: eq :: onRight :: ts₂, e⟩
        = .ok (.ok ⟨items, left, right, onLeft, onRight, wh, n⟩, ⟨rest, e⟩) := by
      rw [bind_of_ok (expectNamed_of_keyword hjoin), bind_of_ok next_cons,
        bind_of_ok (expectNamed_of_keyword hon), bind_of_ok next_cons,
        bind_of_ok (expectNamed_of_keyword heq), bind_of_ok next_cons,
        bind_of_ok (whereClause_of_read hwhere e)]
      exact bind_of_ok (limitClause_of_read hlimit e)
    unfold parseJoin
    rw [bind_of_ok (expectNamed_of_keyword hselect), bind_of_ok (selectList_of_read hitems e),
      bind_of_ok (expectNamed_of_keyword hfrom), bind_of_ok next_cons]
    cases hinner with
    | read hp =>
      rw [bind_ahead_true hp, if_pos rfl, bind_of_ok skip_cons]
      exact htail
    | absent hno =>
      rw [bind_ahead_false hno, if_neg Bool.false_ne_true]
      exact htail
  unfold execJoin
  rw [effect_bind_of_ok hparse, effect_onEngine]

end SqlEngine
