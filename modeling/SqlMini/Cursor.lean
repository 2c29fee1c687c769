import SqlMini.Engine

/-!
# What the parsers read

The pieces the executors' parsers are made of, each with what it makes of the
tokens behind the cursor: a keyword is there or the statement is turned down,
a list ends at the first token that stops it (`commaList_eq`), and a clause is
read whole or runs off the end of the list.

The rest of an executor works on the engine alone. What a whole executor does
to the engine is its `effect`, in which a step on the engine is followed by a
rest that starts from the same tokens (`effect_onEngine_bind`).
-/

namespace SqlEngine

open Routine

variable {α β : Type} {t s : ByteString} {ts ts' : List ByteString} {e : Engine} {st : ExecState}
  {p : ByteString → Bool}

/-- **A keyword**, in any case. -/
def Keyword (s : String) (t : ByteString) : Prop := toUpper t = ascii s

instance (s : String) (t : ByteString) : Decidable (Keyword s t) :=
  inferInstanceAs (Decidable (toUpper t = ascii s))

theorem spells_eq_true {s : String} : spells (ascii s) t = true ↔ Keyword s t := decide_eq_true_iff

theorem spells_eq_false {s : String} : spells (ascii s) t = false ↔ ¬ Keyword s t :=
  decide_eq_false_iff_not

/-- A token spells one keyword at most. -/
theorem Keyword.ne {a b : String} (ha : Keyword a t) (h : ascii a ≠ ascii b) : ¬ Keyword b t :=
  fun hb => h (ha.symm.trans hb)

/-! ## Single tokens -/

@[simp] theorem next_cons : next ⟨t :: ts, e⟩ = .ok (.ok t, ⟨ts, e⟩) := rfl

@[simp] theorem next_nil : next ⟨[], e⟩ = .error .pastEnd := rfl

@[simp] theorem ahead_cons : ahead p ⟨t :: ts, e⟩ = .ok (.ok (p t), ⟨t :: ts, e⟩) := rfl

@[simp] theorem ahead_nil : ahead p ⟨[], e⟩ = .ok (.ok false, ⟨[], e⟩) := rfl

@[simp] theorem skip_cons : skip ⟨t :: ts, e⟩ = .ok (.ok (), ⟨ts, e⟩) := rfl

@[simp] theorem skip_nil : skip ⟨[], e⟩ = .ok (.ok (), ⟨[], e⟩) := rfl

@[simp] theorem fail_apply {m : ByteString} :
    (fail m : ExecM α) st = .ok (.error (.runtimeError m), st) := rfl

@[simp] theorem list_apply : list p ⟨ts, e⟩
    = .ok (.ok (commaList p ts).1, ⟨(commaList p ts).2, e⟩) := rfl

/-- A test of the next token, then one of two continuations. -/
theorem bind_ahead_true {k : Bool → ExecM α} (h : p t = true) :
    (ahead p >>= k) ⟨t :: ts, e⟩ = k true ⟨t :: ts, e⟩ := by
  rw [bind_of_ok ahead_cons, h]

theorem bind_ahead_false {k : Bool → ExecM α} (h : ∀ t ∈ ts.head?, p t = false) :
    (ahead p >>= k) ⟨ts, e⟩ = k false ⟨ts, e⟩ := by
  cases ts with
  | nil => exact bind_of_ok ahead_nil
  | cons t ts => rw [bind_of_ok ahead_cons, h t rfl]

/-- The keyword expected is there. -/
theorem expectToken_of_keyword {ending : ByteString} {s : String} (h : Keyword s t) :
    expectToken ending (ascii s) ⟨t :: ts, e⟩ = .ok (.ok (), ⟨ts, e⟩) := by
  unfold expectToken
  rw [bind_ahead_true (spells_eq_true.mpr h)]
  rfl

/-- **The keyword expected is not there**, and the statement is turned
down. -/
theorem expectToken_of_not {ending : ByteString} {s : String}
    (h : ∀ t ∈ ts.head?, ¬ Keyword s t) : expectToken ending (ascii s) ⟨ts, e⟩
      = .ok (.error (.runtimeError (ascii "Syntax error near '" ++ ts.headD (ascii "EOF")
          ++ ascii "'" ++ ending)), ⟨ts, e⟩) := by
  unfold expectToken
  rw [bind_ahead_false (fun t ht => spells_eq_false.mpr (h t ht))]
  rfl

theorem expectPlain_of_keyword {s : String} (h : Keyword s t) :
    expectPlain s ⟨t :: ts, e⟩ = .ok (.ok (), ⟨ts, e⟩) :=
  expectToken_of_keyword h

theorem expectNamed_of_keyword {s : String} (h : Keyword s t) :
    expectNamed s ⟨t :: ts, e⟩ = .ok (.ok (), ⟨ts, e⟩) :=
  expectToken_of_keyword h

theorem expectNamed_of_not {s : String} (h : ∀ t ∈ ts.head?, ¬ Keyword s t) :
    ∃ m, expectNamed s ⟨ts, e⟩
      = .ok (.error (.runtimeError (ascii "Syntax error near '" ++ m)), ⟨ts, e⟩) :=
  ⟨ts.headD (ascii "EOF") ++ ascii "'" ++ (ascii ", expected '" ++ ascii s ++ ascii "'"),
    (expectToken_of_not h).trans (by simp only [List.append_assoc])⟩

/-! ## Lists -/

/-- **Where a list ends**: at the first token that stops it. A comma never
does, so skipping one does not skip the end. -/
theorem commaList_snd (hp : p (ascii ",") = false) : ∀ ts : List ByteString,
    (commaList p ts).2 = ts.dropWhile (fun t => !p t)
  | [] => rfl
  | [t] => by
    rw [commaList]
    cases h : p t with
    | true => simp [h]
    | false => simp [h]
  | t :: u :: ts => by
    rw [commaList]
    cases h : p t with
    | true => simp [h]
    | false =>
      rw [if_neg Bool.false_ne_true, List.dropWhile_cons_of_pos (by rw [h]; rfl)]
      by_cases hu : u = ascii ","
      · rw [if_pos hu, List.dropWhile_cons_of_pos (by rw [hu, hp]; rfl)]
        exact commaList_snd hp ts
      · rw [if_neg hu]
        exact commaList_snd hp (u :: ts)

/-- **Items with commas between them.** -/
def separated : List ByteString → List ByteString
  | [] => []
  | [c] => [c]
  | c :: d :: cs => c :: ascii "," :: separated (d :: cs)

/-- The items of a list are read back. -/
theorem commaList_separated (hp : p (ascii ",") = false) : ∀ (cs ts : List ByteString),
    (∀ c ∈ cs, p c = false) → (∀ t ∈ ts.head?, p t = true) →
      commaList p (separated cs ++ ts) = (cs, ts)
  | [], [], _, _ => rfl
  | [], [t], _, hts => by
    have ht := hts t rfl
    simp [separated, commaList, ht]
  | [], t :: u :: ts, _, hts => by
    have ht := hts t rfl
    simp [separated, commaList, ht]
  | [c], [], hcs, _ => by
    have hc := hcs c List.mem_cons_self
    simp [separated, commaList, hc]
  | [c], t :: ts, hcs, hts => by
    have hc := hcs c List.mem_cons_self
    have hcomma : t ≠ ascii "," := by
      rintro rfl
      have ht := hts _ rfl
      rw [hp] at ht
      cases ht
    have ih := commaList_separated hp [] (t :: ts) (by simp) hts
    rw [separated, List.nil_append] at ih
    rw [separated, List.cons_append, List.nil_append, commaList, ih]
    simp [hc, hcomma]
  | c :: d :: cs, ts, hcs, hts => by
    have hc := hcs c List.mem_cons_self
    have ih := commaList_separated hp (d :: cs) ts
      (fun x hx => hcs x (List.mem_cons_of_mem c hx)) hts
    rw [separated, List.cons_append, List.cons_append, commaList, ih]
    simp [hc]

/-! ## Clauses -/

theorem selectList_star : selectList ⟨ascii "*" :: ts, e⟩ = .ok (.ok none, ⟨ts, e⟩) := by
  unfold selectList
  rw [bind_ahead_true rfl]
  rfl

/-- **The select list** runs to the first token that spells `FROM`. -/
theorem selectList_of_ne (h : ∀ t ∈ ts.head?, t ≠ ascii "*") : selectList ⟨ts, e⟩
    = .ok (.ok (some (commaList (spells (ascii "FROM")) ts).1),
      ⟨(commaList (spells (ascii "FROM")) ts).2, e⟩) := by
  unfold selectList
  rw [bind_ahead_false (fun t ht => decide_eq_false (h t ht))]
  rfl

theorem whereClause_of_not (h : ∀ t ∈ ts.head?, ¬ Keyword "WHERE" t) :
    whereClause ⟨ts, e⟩ = .ok (.ok ⟨false, [], [], []⟩, ⟨ts, e⟩) := by
  unfold whereClause
  rw [bind_ahead_false (fun t ht => spells_eq_false.mpr (h t ht))]
  rfl

theorem whereClause_of_keyword (h : Keyword "WHERE" t) (col op val : ByteString) :
    whereClause ⟨t :: col :: op :: val :: ts, e⟩ = .ok (.ok ⟨true, col, op, val⟩, ⟨ts, e⟩) := by
  unfold whereClause
  rw [bind_ahead_true (spells_eq_true.mpr h)]
  rfl

/-- **A `WHERE` with less than three tokens after it** runs off the list. -/
theorem whereClause_of_short (h : Keyword "WHERE" t) (hts : ts.length < 3) :
    whereClause ⟨t :: ts, e⟩ = .error .pastEnd := by
  unfold whereClause
  rw [bind_ahead_true (spells_eq_true.mpr h)]
  rcases ts with - | ⟨a, - | ⟨b, - | ⟨c, ts⟩⟩⟩
  · rfl
  · rfl
  · rfl
  · simp only [List.length_cons] at hts
    omega

theorem limitClause_of_not (h : ∀ t ∈ ts.head?, ¬ Keyword "LIMIT" t) :
    limitClause ⟨ts, e⟩ = .ok (.ok (-1), ⟨ts, e⟩) := by
  unfold limitClause
  rw [bind_ahead_false (fun t ht => spells_eq_false.mpr (h t ht))]
  rfl

theorem limitClause_of_keyword (h : Keyword "LIMIT" t) (n : ByteString) :
    limitClause ⟨t :: n :: ts, e⟩
      = .ok ((CppString.stoi n).map Subtype.val, ⟨ts, e⟩) := by
  unfold limitClause
  rw [bind_ahead_true (spells_eq_true.mpr h), if_pos rfl, bind_of_ok skip_cons,
    bind_of_ok next_cons]
  cases hn : CppString.stoi n with
  | ok z => exact bind_of_ok (ofExcept_apply _ _)
  | error x => exact bind_of_throw (ofExcept_apply _ _)

/-- **A `LIMIT` with nothing after it** runs off the list. -/
theorem limitClause_of_nil (h : Keyword "LIMIT" t) :
    limitClause ⟨[t], e⟩ = .error .pastEnd := by
  unfold limitClause
  rw [bind_ahead_true (spells_eq_true.mpr h)]
  rfl

/-! ## Beyond the cursor -/

/-- **What a step does to the engine**, wherever it leaves the cursor. -/
def effect (m : ExecM α) (ts : List ByteString) (e : Engine) :
    Except EngineFault (Except StdException α × Engine) :=
  (m ⟨ts, e⟩).map (fun r => (r.1, r.2.engine))

variable {m : ExecM α} {k : α → ExecM β} {n : EngineM α} {a : α} {e' : Engine}

theorem effect_bind_of_ok (h : m ⟨ts, e⟩ = .ok (.ok a, ⟨ts', e'⟩)) :
    effect (m >>= k) ts e = effect (k a) ts' e' := by
  unfold effect
  rw [bind_of_ok h]

theorem effect_bind_of_throw {x : StdException} (h : m ⟨ts, e⟩ = .ok (.error x, ⟨ts', e'⟩)) :
    effect (m >>= k) ts e = .ok (.error x, e') := by
  unfold effect
  rw [bind_of_throw h]
  rfl

theorem effect_onEngine (n : EngineM α) (ts : List ByteString) (e : Engine) :
    effect (onEngine n) ts e = n e := by
  unfold effect onEngine
  rcases n e with f | ⟨r, e'⟩
  · rfl
  · rfl

theorem effect_ofExcept_bind (r : Except StdException α) (k : α → ExecM β) (ts : List ByteString)
    (e : Engine) :
    effect (ofExcept r >>= k) ts e
      = Routine.bind (ofExcept r) (fun a e => effect (k a) ts e) e := by
  cases r with
  | ok a => exact effect_bind_of_ok (ofExcept_apply _ _)
  | error x => exact effect_bind_of_throw (ofExcept_apply _ _)

/-- **A step on the engine** comes before a rest that starts from the same
tokens. -/
theorem effect_onEngine_bind (n : EngineM α) (k : α → ExecM β) (ts : List ByteString) (e : Engine) :
    effect (onEngine n >>= k) ts e = Routine.bind n (fun a e => effect (k a) ts e) e := by
  unfold Routine.bind
  rcases hn : n e with f | ⟨x | a, e'⟩
  · have h : onEngine n ⟨ts, e⟩ = .error f := by
      rw [onEngine, hn]
      rfl
    rw [effect, bind_of_stop h]
    rfl
  · have h : onEngine n ⟨ts, e⟩ = .ok (.error x, ⟨ts, e'⟩) := by
      rw [onEngine, hn]
      rfl
    exact effect_bind_of_throw h
  · have h : onEngine n ⟨ts, e⟩ = .ok (.ok a, ⟨ts, e'⟩) := by
      rw [onEngine, hn]
      rfl
    exact effect_bind_of_ok h

end SqlEngine
