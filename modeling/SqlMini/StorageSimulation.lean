import SqlMini.Storage
import SqlMini.LooseGrammar

/-!
# Storages that do the same

A storage mimics another if each call does what the call of the other does,
under a relation `R` of the states (`Storage.Mimics`). Every statement then has
the same answer over both (`Storage.Mimics.stepAlike_exec`), and so has every
list of statements.

The relation knows the schemas of the tables that a statement has opened, and
how many insertions are still to come. A row is inserted that was read from a
statement, so that its values are together no longer than the statement is. The
tables opened are those that the statement names (`tablesOf`): they are read
before anything is done.
-/

open SqlEngine Routine CppString

/-! ## How long tokens are -/

/-- The bytes of a list of tokens. -/
def bytesOf (toks : List ByteString) : ℕ := (toks.map List.length).sum

theorem bytesOf_cons (t : ByteString) (ts : List ByteString) :
    bytesOf (t :: ts) = t.length + bytesOf ts := rfl

theorem bytesOf_append (ts us : List ByteString) :
    bytesOf (ts ++ us) = bytesOf ts + bytesOf us := by
  unfold bytesOf
  rw [List.map_append, List.sum_append]

theorem bytesOf_suffix {ts us : List ByteString} (h : ts <:+ us) : bytesOf ts ≤ bytesOf us := by
  obtain ⟨vs, rfl⟩ := h
  rw [bytesOf_append]
  exact Nat.le_add_left _ _

/-- A token is no longer than what it was read from. -/
theorem bytesOf_nextToken (c : UInt8) (cs : ByteString) :
    bytesOf (nextToken c cs).1.toList + (nextToken c cs).2.length ≤ cs.length + 1 := by
  have hcut : ∀ p : UInt8 → Bool,
      (cs.takeWhile p).length + (cs.dropWhile p).length = cs.length := by
    intro p
    rw [← List.length_append, List.takeWhile_append_dropWhile]
  rcases hs : isSpace c with - | -
  · rcases hq : isQuote c with - | -
    · rcases ht : cs.head?.bind (twoCharOp c) with - | op
      · rcases hm : isMark c with - | -
        · rw [nextToken_word hs hq ht hm]
          have h := hcut (fun b => !stopsWord b)
          show (cs.takeWhile (fun b => !stopsWord b)).length + 1 + 0
            + (cs.dropWhile (fun b => !stopsWord b)).length ≤ _
          omega
        · rw [nextToken_mark hs hq ht hm]
          show 1 + 0 + cs.length ≤ _
          omega
      · rw [nextToken_two hs hq ht]
        cases cs with
        | nil => cases ht
        | cons d cs =>
          have hop : op.length = 2 := by
            rw [List.head?_cons, Option.bind_some, twoCharOp] at ht
            split at ht
            · rw [← Option.some.inj ht]
              split <;> rfl
            · cases ht
          show op.length + 0 + cs.length ≤ cs.length + 1 + 1
          omega
    · rw [nextToken_quote hs hq]
      have h := hcut (· ≠ c)
      have htail := List.length_tail (l := cs.dropWhile (· ≠ c))
      show (cs.takeWhile (· ≠ c)).length + 0 + (cs.dropWhile (· ≠ c)).tail.length ≤ _
      omega
  · rw [nextToken_space hs]
    show 0 + cs.length ≤ _
    omega

theorem bytesOf_tokenizeFrom : ∀ (n : ℕ) (s : ByteString), bytesOf (tokenizeFrom n s) ≤ s.length
  | 0, _ => Nat.zero_le _
  | _ + 1, [] => Nat.zero_le _
  | n + 1, c :: cs => by
    have hrest := bytesOf_tokenizeFrom n (nextToken c cs).2
    have hone := bytesOf_nextToken c cs
    rw [tokenizeFrom, bytesOf_append, List.length_cons]
    omega

/-- A round gives one token at most. -/
theorem length_tokenizeFrom : ∀ (n : ℕ) (s : ByteString), (tokenizeFrom n s).length ≤ s.length
  | 0, _ => Nat.zero_le _
  | _ + 1, [] => Nat.zero_le _
  | n + 1, c :: cs => by
    have hrest := length_tokenizeFrom n (nextToken c cs).2
    have hsuffix := length_nextToken_le c cs
    have hone : (nextToken c cs).1.toList.length ≤ 1 := Option.length_toList_le
    rw [tokenizeFrom, List.length_append, List.length_cons]
    omega

/-- **Few tokens, and short ones.** -/
def Within (L : ℕ) (toks : List ByteString) : Prop := bytesOf toks ≤ L ∧ toks.length ≤ L

theorem Within.suffix {L : ℕ} {ts us : List ByteString} (h : Within L us) (hs : ts <:+ us) :
    Within L ts :=
  ⟨(bytesOf_suffix hs).trans h.1, hs.length_le.trans h.2⟩

/-- **The tokens of a statement** are no more bytes than the statement has. -/
theorem within_tokenize {rawSql : ByteString} {L : ℕ} (h : rawSql.length ≤ L) :
    Within L (tokenize (statement rawSql)) := by
  obtain ⟨lead, semi, trail, heq, -⟩ := exists_statement rawSql
  have hlen := congrArg List.length heq
  simp only [List.length_append] at hlen
  have hle : (statement rawSql).length ≤ L := by omega
  exact ⟨(bytesOf_tokenizeFrom _ _).trans hle, (length_tokenizeFrom _ _).trans hle⟩

/-- A list is no longer than what it was read from. -/
theorem bytesOf_commaList (stops : ByteString → Bool) : ∀ ts : List ByteString,
    bytesOf (commaList stops ts).1 ≤ bytesOf ts
  | [] => le_rfl
  | [t] => by
    rw [commaList]
    split
    · exact Nat.zero_le _
    · exact le_rfl
  | t :: u :: ts => by
    have h := bytesOf_commaList stops ts
    have h' := bytesOf_commaList stops (u :: ts)
    rw [commaList]
    split
    · exact Nat.zero_le _
    · split
      · simp only [bytesOf_cons]
        omega
      · rw [bytesOf_cons, bytesOf_cons t]
        omega

/-- The bytes that columns take in the encoding of a schema. -/
def columnWeight (cols : List Column) : ℕ := (cols.map (fun c => 4 + c.name.length)).sum

/-- The bytes that tokens could take in it. -/
def tokenWeight (toks : List ByteString) : ℕ := 4 * toks.length + bytesOf toks

theorem tokenWeight_cons (t : ByteString) (ts : List ByteString) :
    tokenWeight (t :: ts) = 4 + t.length + tokenWeight ts := by
  unfold tokenWeight
  rw [bytesOf_cons, List.length_cons]
  omega

theorem SqlEngine.ReadIf.tokenWeight_le {p : ByteString → Bool} {ts rest : List ByteString}
    (h : ReadIf p ts rest) : tokenWeight rest ≤ tokenWeight ts := by
  cases h with
  | read h =>
    rw [tokenWeight_cons]
    exact Nat.le_add_left _ _
  | absent h => exact le_rfl

theorem SqlEngine.ReadColumn.weight_le {col : Column} {ts rest : List ByteString}
    (h : ReadColumn col ts rest) : 4 + col.name.length + tokenWeight rest ≤ tokenWeight ts := by
  cases h with
  | int h name rest =>
    simp only [tokenWeight_cons]
    omega
  | text h name hlength =>
    simp only [tokenWeight_cons]
    cases hlength with
    | absent h => omega
    | number hclose hn hread =>
      have hle := hread.tokenWeight_le
      simp only [tokenWeight_cons]
      omega
    | empty hclose hread =>
      have hle := hread.tokenWeight_le
      simp only [tokenWeight_cons]
      omega

/-- **Columns are no longer** than what they were read from. -/
theorem SqlEngine.ReadColumns.weight_le {cols : List Column} {ts rest : List ByteString}
    (h : ReadColumns cols ts rest) : columnWeight cols + tokenWeight rest ≤ tokenWeight ts := by
  induction h with
  | done h => exact (Nat.zero_add _).le
  | column hopen hcol hcomma hcols ih =>
    have hone := hcol.weight_le
    have htwo := hcomma.tokenWeight_le
    unfold columnWeight at ih ⊢
    rw [List.map_cons, List.sum_cons]
    omega

/-! ## The tables that a statement names -/

namespace SqlEngine

/-- The table of `CREATE` and `DELETE`. -/
def headNamed (first second : String) : ExecM ByteString := do
  expectNamed first
  expectNamed second
  if !(← ahead (fun _ => true)) then fail (ascii "Expected table name") else next

/-- The table of `INSERT`. -/
def headInsert : ExecM ByteString := do
  expectPlain "INSERT"
  expectPlain "INTO"
  next

/-- The table of `SELECT`. -/
def headSelect : ExecM ByteString := do
  expectPlain "SELECT"
  let _ ← selectList
  expectPlain "FROM"
  next

/-- The tables of a statement, as its executor reads them. -/
def readTables (keyword : ByteString) (toks : List ByteString) : ExecM (List ByteString) :=
  if keyword = ascii "CREATE" then do return [← headNamed "CREATE" "TABLE"]
  else if keyword = ascii "INSERT" then do return [← headInsert]
  else if keyword = ascii "DELETE" then do return [← headNamed "DELETE" "FROM"]
  else if keyword = ascii "SELECT" then
    if hasJoin toks then do
      let q ← parseJoin
      return [q.leftName, q.rightName]
    else do return [← headSelect]
  else return []

/-- **The tables that a statement names.** -/
def tablesOf (rawSql : ByteString) : List ByteString :=
  let toks := tokenize (statement rawSql)
  match readTables (toUpper ((statement rawSql).take 6)) toks ⟨toks, noTables⟩ with
  | .ok (.ok names, _) => names
  | _ => []

/-- **A statement of the tables in `S`.** -/
def Concerns (S : ByteString → Prop) (sql : ByteString) : Prop := ∀ name ∈ tablesOf sql, S name

instance (S : ByteString → Prop) [DecidablePred S] (sql : ByteString) :
    Decidable (Concerns S sql) :=
  inferInstanceAs (Decidable (∀ _ ∈ _, _))

/-- **What a parser finds** in a list of tokens. -/
def Finds {α : Type} (N : α → Prop) (m : ExecM α) (toks : List ByteString) : Prop :=
  ∀ a st, m ⟨toks, noTables⟩ = .ok (.ok a, st) → N a

theorem Finds.bind {α β : Type} {N : β → Prop} {m : ExecM α} {k : α → ExecM β}
    {toks : List ByteString} {a : α} {st : ExecState} (h : Finds N (m >>= k) toks)
    (hm : m ⟨toks, noTables⟩ = .ok (.ok a, st)) (hengine : st.engine = noTables) :
    Finds N (k a) st.toks := by
  intro b st' hk
  refine h b st' ?_
  rw [bind_of_ok hm, ← hk, ← hengine]

/-- A table that is found alone. -/
theorem Finds.single {N : ByteString → Prop} {m : ExecM ByteString} {toks : List ByteString}
    (h : Finds (fun names => ∀ name ∈ names, N name) (do return [← m]) toks) : Finds N m toks := by
  intro a st hm
  refine h [a] st ?_ a List.mem_cons_self
  rw [bind_of_ok hm]
  rfl

end SqlEngine

/-! ## Storages that do the same -/

/-- **A storage does what another does.** `R n opened` relates their states
where `n` insertions are still to come, and the tables in `opened` are open
with these schemas. Nothing is asked after an exception in `X`, the values of a
row are together not longer than `L`, and the names of tables are in `N`. -/
structure Storage.Mimics {σ τ : Type} (b : Storage σ) (b' : Storage τ) (X : StdException → Prop)
    (L : ℕ) (N : ByteString → Prop) (R : ℕ → (ByteString → Option Schema) → σ → τ → Prop) :
    Prop where
  /-- An insertion need not be made. -/
  spend : ∀ {n opened s t}, R (n + 1) opened s t → R n opened s t
  /-- What was opened may be forgotten. -/
  forget : ∀ {n opened s t}, R n opened s t → R n (fun _ => none) s t
  openTable : ∀ n opened name (sc : Option Schema), N name → (∀ schema ∈ sc,
      schema.tableName = name ∧ columnWeight schema.cols ≤ 5 * L) →
    Simulates (R n (fun _ => none)) X (R n opened)
    (b.openTable name sc) (b'.openTable name sc)
    (fun _ s t => ∃ schema, R n (Function.update opened name (some schema)) s t)
  schemaOf : ∀ n opened name schema, opened name = some schema →
    Simulates (R n (fun _ => none)) X (R n opened) (b.schemaOf name) (b'.schemaOf name)
      (fun a s t => a = schema ∧ R n opened s t)
  insertRow : ∀ n opened name schema cols vals row, opened name = some schema →
    insertedRow schema cols vals = .ok row → bytesOf vals ≤ L →
    Simulates (R n (fun _ => none)) X (R (n + 1) opened) (b.insertRow name row)
      (b'.insertRow name row) (fun _ => R n opened)
  findByRowid : ∀ n opened name schema rowid, opened name = some schema → rowid < uint32Size →
    Simulates (R n (fun _ => none)) X (R n opened) (b.findByRowid name rowid)
      (b'.findByRowid name rowid) (fun _ => R n opened)
  scan : ∀ n opened name schema {β : Type} (cb : Table.Callback β) (st : β),
    opened name = some schema → Simulates (R n (fun _ => none)) X (R n opened) (b.scan name cb st)
      (b'.scan name cb st) (fun _ => R n opened)
  deleteWhere : ∀ n opened name schema pred, opened name = some schema →
    Simulates (R n (fun _ => none)) X (R n opened) (b.deleteWhere name pred)
      (b'.deleteWhere name pred) (fun _ => R n opened)

variable {σ τ α β : Type} {X : StdException → Prop} {L n : ℕ} {N : ByteString → Prop}
  {R : ℕ → (ByteString → Option Schema) → σ → τ → Prop} {E P : σ → τ → Prop}

/-- Two executors at the same tokens, over related storages. -/
def AtTokens (L : ℕ) (P : σ → τ → Prop) (st : List ByteString × σ) (st' : List ByteString × τ) :
    Prop :=
  st.1 = st'.1 ∧ Within L st.1 ∧ P st.2 st'.2

/-- Two executors over related storages. -/
def Beside (P : σ → τ → Prop) (st : List ByteString × σ) (st' : List ByteString × τ) : Prop :=
  P st.2 st'.2

/-- **A parser** reads the same over both, and what is known of the tokens
before says what it reads. -/
theorem simulates_reads_of {m : ExecM α} {K : List ByteString → Prop}
    {C : α → List ByteString → Prop} (hm : Parses m) (hE : ∀ s t, P s t → E s t)
    (hK : ∀ ts a rest, K ts → m ⟨ts, noTables⟩ = .ok (.ok a, ⟨rest, noTables⟩) → C a rest) :
    Simulates (Beside E) X (fun st st' => K st.1 ∧ AtTokens L P st st') (reads m) (reads m)
      (fun a st st' => C a st.1 ∧ AtTokens L P st st') := by
  obtain ⟨f, hf, hsuffix⟩ := hm
  rintro ⟨ts, s⟩ ⟨-, t⟩ ⟨hts, rfl, hL, hP⟩
  have hrun := hf ts noTables
  simp only [reads, hrun]
  rcases hs : f ts with x | ⟨x | a, rest⟩
  · rfl
  · exact Or.inr ⟨_, rfl, hE s t hP⟩
  · rw [hs] at hrun
    exact ⟨_, rfl, hK ts a rest hts hrun, rfl, hL.suffix (hsuffix ts _ _ hs), hP⟩

/-- A parser alone. -/
theorem simulates_reads {m : ExecM α} (hm : Parses m) (hE : ∀ s t, P s t → E s t) :
    Simulates (Beside E) X (AtTokens L P) (reads m) (reads m) (fun _ => AtTokens L P) :=
  (simulates_reads_of (K := fun _ => True) (C := fun _ _ => True) hm hE
    (fun _ _ _ _ _ => trivial)).mono (fun _ _ hst => ⟨trivial, hst⟩) (fun _ _ => id)
    (fun _ _ _ hst => hst.2)

/-- Two executors before they have read the names of their tables. -/
def Heading {γ : Type} (N : γ → Prop) (head : ExecM γ) (L : ℕ) (P : σ → τ → Prop)
    (st : List ByteString × σ) (st' : List ByteString × τ) : Prop :=
  Finds N head st.1 ∧ AtTokens L P st st'

/-- **A parser before the names**: what is behind it finds them. -/
theorem simulates_reads_head {γ : Type} {N : γ → Prop} {m : ExecM α} {k : α → ExecM γ}
    (hm : Parses m) (hE : ∀ s t, P s t → E s t) :
    Simulates (Beside E) X (Heading N (m >>= k) L P) (reads m) (reads m)
      (fun a => Heading N (k a) L P) :=
  simulates_reads_of hm hE (fun _ _ _ hfinds hrun => hfinds.bind hrun rfl)

/-- **The names are read.** -/
theorem simulates_reads_found {γ : Type} {N : γ → Prop} {m : ExecM γ} (hm : Parses m)
    (hE : ∀ s t, P s t → E s t) :
    Simulates (Beside E) X (Heading N m L P) (reads m) (reads m)
      (fun a st st' => N a ∧ AtTokens L P st st') :=
  simulates_reads_of (C := fun a _ => N a) hm hE (fun _ a _ hfinds hrun => hfinds a _ hrun)

/-- A statement turned down. -/
theorem simulates_reads_fail {message : ByteString} (hE : ∀ s t, P s t → E s t)
    {Q : α → List ByteString × σ → List ByteString × τ → Prop} :
    Simulates (Beside E) X (AtTokens L P) (reads (fail message)) (reads (fail message)) Q :=
  fun _ _ hst => Or.inr ⟨_, rfl, hE _ _ hst.2.2⟩

/-- A list that is read is not too long. -/
theorem simulates_reads_list (stops : ByteString → Bool) :
    Simulates (Beside E) X (AtTokens L P) (reads (list stops)) (reads (list stops))
      (fun vals st st' => bytesOf vals ≤ L ∧ AtTokens L P st st') := by
  rintro ⟨ts, s⟩ ⟨-, t⟩ ⟨rfl, hL, hP⟩
  exact ⟨_, rfl, (bytesOf_commaList stops ts).trans hL.1, rfl,
    hL.suffix (commaList_suffix stops ts), hP⟩

/-- **Columns** that are read are not too long. -/
theorem simulates_reads_columnDefs {n : ℕ} (hE : ∀ s t, P s t → E s t) :
    Simulates (Beside E) X (fun st st' => st.1.length = n ∧ AtTokens L P st st')
      (reads (columnDefs n)) (reads (columnDefs n))
      (fun cols st st' => columnWeight cols ≤ 5 * L ∧ AtTokens L P st st') := by
  refine (simulates_reads_of (K := fun ts => ts.length = n ∧ Within L ts)
    (C := fun cols _ => columnWeight cols ≤ 5 * L) (parses_columnDefs n) hE ?_).mono
    (fun _ _ hst => ⟨⟨hst.1, hst.2.2.1⟩, hst.2⟩) (fun _ _ => id) (fun _ _ _ => id)
  rintro ts cols rest ⟨rfl, hL⟩ hrun
  have hret : Returns (columnDefs ts.length) ⟨ts, noTables⟩ (fun cs _ => cs = cols) :=
    ⟨cols, _, hrun, rfl⟩
  obtain ⟨cs, rest', hread, rfl⟩ := (returns_columnDefs _ _ le_rfl).mp hret
  have hw := hread.weight_le
  have hbytes := hL.1
  have hcount := hL.2
  unfold tokenWeight at hw
  omega

/-- **A call** on both storages. -/
theorem simulates_onStorage {m : StorageM σ α} {m' : StorageM τ α} {Q : α → σ → τ → Prop}
    (h : Simulates E X P m m' Q) : Simulates (Beside E) X (AtTokens L P) (onStorage m)
      (onStorage m') (fun a => AtTokens L (Q a)) := by
  rintro ⟨ts, s⟩ ⟨-, t⟩ ⟨rfl, hL, hP⟩
  have hst := h s t hP
  rcases hs : m s with f | ⟨x | a, s'⟩
  · rw [hs] at hst
    simp only [onStorage, hs, show m' t = .error f from hst]
    rfl
  · rw [hs] at hst
    simp only [onStorage, hs]
    rcases hst with hx | ⟨t', ht, he⟩
    · exact Or.inl hx
    · rw [ht]
      exact Or.inr ⟨_, rfl, he⟩
  · rw [hs] at hst
    obtain ⟨t', ht, hq⟩ := hst
    simp only [onStorage, hs, ht]
    exact ⟨_, rfl, rfl, hL, hq⟩

namespace Storage.Mimics

variable {b : Storage σ} {b' : Storage τ} {opened : ByteString → Option Schema} {name : ByteString}
  {schema : Schema}

/-- A step before any insertion. -/
theorem early {m : StorageM σ α} {m' : StorageM τ α} {Q : α → σ → τ → Prop}
    (h : b.Mimics b' X L N R) (hm : Simulates (R (n + 1) (fun _ => none)) X P m m' Q) :
    Simulates (R n (fun _ => none)) X P m m' Q :=
  hm.mono (fun _ _ => id) (fun _ _ => h.spend) (fun _ _ _ => id)

/-- **A parser** before any insertion. -/
theorem parser (h : b.Mimics b' X L N R) {m : ExecM α} (hm : Parses m) :
    Simulates (Beside (R n (fun _ => none))) X (AtTokens L (R (n + 1) opened)) (reads m) (reads m)
      (fun _ => AtTokens L (R (n + 1) opened)) :=
  simulates_reads hm (fun _ _ hR => h.forget (h.spend hR))

/-- The end of an executor. -/
theorem finish (h : b.Mimics b' X L N R) (a : α) :
    Simulates (Beside (R n (fun _ => none))) X (AtTokens L (R n opened)) (pure a : CursorM σ α)
      (pure a : CursorM τ α) (fun _ => Beside (R n (fun _ => none))) :=
  simulates_pure (fun _ _ hst => h.forget hst.2.2)

/-- **A parser before the names.** -/
theorem heading {γ : Type} {N' : γ → Prop} (h : b.Mimics b' X L N R) {m : ExecM α} {k : α → ExecM γ}
    (hm : Parses m) : Simulates (Beside (R n (fun _ => none))) X
      (Heading N' (m >>= k) L (R (n + 1) opened)) (reads m) (reads m)
      (fun a => Heading N' (k a) L (R (n + 1) opened)) :=
  simulates_reads_head hm (fun _ _ hR => h.forget (h.spend hR))

/-- The names are read. -/
theorem found {γ : Type} {N' : γ → Prop} (h : b.Mimics b' X L N R) {m : ExecM γ} (hm : Parses m) :
    Simulates (Beside (R n (fun _ => none))) X (Heading N' m L (R (n + 1) opened)) (reads m)
      (reads m) (fun a st st' => N' a ∧ AtTokens L (R (n + 1) opened) st st') :=
  simulates_reads_found hm (fun _ _ hR => h.forget (h.spend hR))

/-- **Opening a table**, and taking its schema. -/
theorem openSchema (h : b.Mimics b' X L N R) (name : ByteString) {k : Schema → CursorM σ α}
    {k' : Schema → CursorM τ α} {Q : α → List ByteString × σ → List ByteString × τ → Prop}
    (hk : ∀ schema opened, opened name = some schema → Simulates (Beside (R n (fun _ => none))) X
      (AtTokens L (R (n + 1) opened)) (k schema) (k' schema) Q) :
    Simulates (Beside (R n (fun _ => none))) X
      (fun st st' => N name ∧ AtTokens L (R (n + 1) opened) st st')
      (do onStorage (b.openTable name none); let schema ← onStorage (b.schemaOf name); k schema)
      (do onStorage (b'.openTable name none); let schema ← onStorage (b'.schemaOf name); k' schema)
      Q := by
  refine Simulates.assuming (fun hN => ?_)
  refine (simulates_onStorage (h.early (h.openTable _ _ name none hN nofun))).bind (fun _ => ?_)
  rintro st st' ⟨htoks, hL, schema, hR⟩
  have hopen := Function.update_self name (some schema) opened
  refine ((simulates_onStorage (h.early (h.schemaOf (n + 1) _ name schema hopen))).bind
    (fun a => ?_)) st st' ⟨htoks, hL, hR⟩
  rintro st₁ st₁' ⟨htoks₁, hL₁, rfl, hR₁⟩
  exact hk _ _ hopen st₁ st₁' ⟨htoks₁, hL₁, hR₁⟩

/-- **A statement on one table**: two words, and a name that is expected. -/
theorem headNamed (h : b.Mimics b' X L N R) (first second : String) {k : ByteString → CursorM σ α}
    {k' : ByteString → CursorM τ α} {Q : α → List ByteString × σ → List ByteString × τ → Prop}
    (hk : ∀ name, Simulates (Beside (R n (fun _ => none))) X
      (fun st st' => N name ∧ AtTokens L (R (n + 1) opened) st st') (k name) (k' name) Q) :
    Simulates (Beside (R n (fun _ => none))) X
      (Heading N (headNamed first second) L (R (n + 1) opened))
      (do
        reads (expectNamed first)
        reads (expectNamed second)
        if !(← reads (ahead (fun _ => true))) then reads (fail (ascii "Expected table name"))
        else
          let name ← reads next
          k name)
      (do
        reads (expectNamed first)
        reads (expectNamed second)
        if !(← reads (ahead (fun _ => true))) then reads (fail (ascii "Expected table name"))
        else
          let name ← reads next
          k' name) Q := by
  refine (h.heading (parses_expectNamed _)).bind (fun _ => (h.heading (parses_expectNamed _)).bind
    (fun _ => (h.heading (parses_ahead _)).bind (fun more => ?_)))
  cases more with
  | false =>
    exact (simulates_reads_fail (fun _ _ hR => h.forget (h.spend hR))).mono (fun _ _ hst => hst.2)
      (fun _ _ => id) (fun _ _ _ => id)
  | true => exact (h.found parses_next).bind hk

/-! ## The executors -/

/-- `exec_create` over both storages. -/
theorem execCreate (h : b.Mimics b' X L N R) :
    Simulates (Beside (R n (fun _ => none))) X
      (Heading N (SqlEngine.headNamed "CREATE" "TABLE") L (R (n + 1) (fun _ => none)))
      b.execCreate b'.execCreate (fun _ => Beside (R n (fun _ => none))) := by
  refine h.headNamed _ _ (fun tname => Simulates.assuming (fun hN => ?_))
  refine (h.parser (parses_expectNamed _)).bind (fun _ => ?_)
  rintro st st' hst
  rw [bind_of_ok (get_apply st), bind_of_ok (get_apply st'), ← hst.1]
  refine ((simulates_reads_columnDefs (fun _ _ hR => h.forget (h.spend hR))).bind (fun cols => ?_))
    st st' ⟨rfl, hst⟩
  refine Simulates.assuming (fun hcols => ?_)
  refine (simulates_onStorage (h.early (h.openTable (n + 1) _ tname (some ⟨tname, cols⟩) hN
    (fun schema hmem => ?_)))).bind (fun _ => ?_)
  · obtain rfl := Option.some.inj hmem
    exact ⟨rfl, hcols⟩
  · exact simulates_pure (fun _ _ hst => h.spend (h.forget hst.2.2.choose_spec))

/-- `exec_insert` over both storages. The values inserted were read from the
tokens. -/
theorem execInsert (h : b.Mimics b' X L N R) :
    Simulates (Beside (R n (fun _ => none))) X
      (Heading N headInsert L (R (n + 1) (fun _ => none)))
      b.execInsert b'.execInsert (fun _ => Beside (R n (fun _ => none))) := by
  refine (h.heading (parses_expectPlain _)).bind (fun _ => (h.heading (parses_expectPlain _)).bind
    (fun _ => (h.found parses_next).bind (fun tname => h.openSchema tname
      (fun schema opened hopen => ?_))))
  refine (h.parser parses_columnList).bind (fun colOrder => (h.parser (parses_expectPlain _)).bind
    (fun _ => (h.parser (parses_expectPlain _)).bind (fun _ =>
      (simulates_reads_list closes).bind (fun vals => Simulates.assuming (fun hvals => ?_)))))
  refine (simulates_ofExcept (Q := fun row st st' => insertedRow schema colOrder vals = .ok row
    ∧ AtTokens L (R (n + 1) opened) st st') (fun _ _ hst => h.forget (h.spend hst.2.2))
    (fun row _ _ hrow hst => ⟨hrow, hst⟩)).bind (fun row => Simulates.assuming (fun hrow => ?_))
  exact (simulates_onStorage (h.insertRow n opened tname schema colOrder vals row hopen hrow
    hvals)).bind (fun rowid => h.finish _)

/-- `exec_delete` over both storages. -/
theorem execDelete (h : b.Mimics b' X L N R) :
    Simulates (Beside (R n (fun _ => none))) X
      (Heading N (SqlEngine.headNamed "DELETE" "FROM") L (R (n + 1) (fun _ => none)))
      b.execDelete b'.execDelete (fun _ => Beside (R n (fun _ => none))) := by
  refine h.headNamed _ _ (fun tname => h.openSchema tname (fun schema opened hopen => ?_))
  refine (h.parser parses_whereClause).bind (fun wh => ?_)
  refine (simulates_onStorage (h.early (h.deleteWhere (n + 1) opened tname schema _ hopen))).bind
    (fun deleted => ?_)
  exact simulates_pure (fun _ _ hst => h.spend (h.forget hst.2.2))

/-- The look-up of `exec_select` by rowid. -/
theorem selectByRowid (h : b.Mimics b' X L N R) (hopen : opened name = some schema)
    (wh : WhereClause) (outIdx : List ℕ) : Simulates (R n (fun _ => none)) X (R n opened)
      (b.selectByRowid name wh outIdx) (b'.selectByRowid name wh outIdx) (fun _ => R n opened) := by
  refine Simulates.bind (Q := fun _ => R n opened) (simulates_ofExcept (fun _ _ => h.forget)
    (fun _ _ _ _ => id)) (fun target => ?_)
  refine (h.findByRowid n opened name schema target.toUInt hopen target.toUInt_lt).bind
    (fun row => ?_)
  cases row with
  | none => exact simulates_pure (fun _ _ => id)
  | some row => exact simulates_pure (fun _ _ => id)

/-- What `exec_select` does with a parsed statement. -/
theorem runSelect (h : b.Mimics b' X L N R) (hopen : opened name = some schema)
    (selCols : Option (List ByteString)) (wh : WhereClause) (limit : ℤ) :
    Simulates (R n (fun _ => none)) X (R n opened) (b.runSelect name schema selCols wh limit)
      (b'.runSelect name schema selCols wh limit) (fun _ => R n opened) := by
  unfold Storage.runSelect
  simp only
  split
  case h_1 => exact simulates_pure (fun _ _ => id)
  case h_2 outIdx _ =>
    refine simulates_ite (fun _ => ?_) (fun _ => ?_)
    · exact (h.selectByRowid hopen wh outIdx).bind (fun f => simulates_pure (fun _ _ => id))
    · exact Simulates.bind (Q := fun _ => R n opened)
        ((h.scan n opened name schema _ _ hopen).bind (fun r => simulates_pure (fun _ _ => id)))
        (fun f => simulates_pure (fun _ _ => id))

/-- `exec_select` over both storages. -/
theorem execSelect (h : b.Mimics b' X L N R) :
    Simulates (Beside (R n (fun _ => none))) X
      (Heading N headSelect L (R (n + 1) (fun _ => none)))
      b.execSelect b'.execSelect (fun _ => Beside (R n (fun _ => none))) := by
  refine (h.heading (parses_expectPlain _)).bind (fun _ => (h.heading parses_selectList).bind
    (fun selCols => (h.heading (parses_expectPlain _)).bind (fun _ => (h.found parses_next).bind
      (fun tname => h.openSchema tname (fun schema opened hopen => ?_)))))
  refine (h.parser parses_whereClause).bind (fun wh => (h.parser parses_limitClause).bind
    (fun limit => ?_))
  exact (simulates_onStorage (h.early (h.runSelect hopen selCols wh limit))).mono (fun _ _ => id)
    (fun _ _ => id) (fun _ _ _ hst => h.spend (h.forget hst.2.2))

/-- The two scans of a join. -/
theorem joinScans (h : b.Mimics b' X L N R) {q : JoinStmt} {ls rs : Schema}
    (hl : opened q.leftName = some ls) (hr : opened q.rightName = some rs) (names : List ByteString)
    (outIdx : List ℕ) (onLi onRi : ℕ) : Simulates (R n (fun _ => none)) X (R n opened)
      (b.joinScans q names outIdx onLi onRi) (b'.joinScans q names outIdx onLi onRi)
      (fun _ => R n opened) :=
  (h.scan n opened _ rs _ _ hr).bind (fun _ => (h.scan n opened _ ls _ _ hl).bind
    (fun _ => simulates_pure (fun _ _ => id)))

/-- What `exec_join` does with its tables open. -/
theorem runJoin (h : b.Mimics b' X L N R) {q : JoinStmt} {ls rs : Schema}
    (hl : opened q.leftName = some ls) (hr : opened q.rightName = some rs) :
    Simulates (R n (fun _ => none)) X (R n opened) (b.runJoin q ls rs) (b'.runJoin q ls rs)
      (fun _ => R n opened) := by
  unfold Storage.runJoin
  refine simulates_ite (fun _ => simulates_pure (fun _ _ => id)) (fun _ => simulates_ite
    (fun _ => simulates_pure (fun _ _ => id)) (fun _ => ?_))
  split
  case h_1 => exact simulates_pure (fun _ _ => id)
  case h_2 =>
    exact (h.joinScans hl hr _ _ _ _).bind (fun f => simulates_pure (fun _ _ => id))

/-- What `exec_join` does with a parsed statement. The second table may be the
first one again. -/
theorem joinTables (h : b.Mimics b' X L N R) {q : JoinStmt} (hleft : N q.leftName)
    (hright : N q.rightName) :
    Simulates (R n (fun _ => none)) X (R n (fun _ => none)) (b.joinTables q) (b'.joinTables q)
      (fun _ => R n (fun _ => none)) := by
  refine (h.openTable n _ q.leftName none hleft nofun).bind (fun _ => ?_)
  rintro s t ⟨ls, hR⟩
  refine ((h.openTable n _ q.rightName none hright nofun).bind (fun _ => ?_)) s t hR
  rintro s₁ t₁ ⟨rs, hR₁⟩
  have hr := Function.update_self q.rightName (some rs)
    (Function.update (fun _ => none) q.leftName (some ls))
  obtain ⟨ls', hl⟩ : ∃ ls', Function.update (Function.update (fun _ => none) q.leftName (some ls))
      q.rightName (some rs) q.leftName = some ls' := by
    by_cases hne : q.leftName = q.rightName
    · exact ⟨rs, by rw [hne]; exact Function.update_self ..⟩
    · exact ⟨ls, by rw [Function.update_of_ne hne]; exact Function.update_self ..⟩
  refine ((h.schemaOf n _ _ ls' hl).bind (fun a => ?_)) s₁ t₁ hR₁
  rintro s₂ t₂ ⟨rfl, hR₂⟩
  refine ((h.schemaOf n _ _ rs hr).bind (fun a => ?_)) s₂ t₂ hR₂
  rintro s₃ t₃ ⟨rfl, hR₃⟩
  exact (h.runJoin hl hr).mono (fun _ _ => id) (fun _ _ => id) (fun _ _ _ => h.forget) s₃ t₃ hR₃

/-- `exec_join` over both storages. -/
theorem execJoin (h : b.Mimics b' X L N R) :
    Simulates (Beside (R n (fun _ => none))) X
      (Heading (fun q => N q.leftName ∧ N q.rightName) parseJoin L (R (n + 1) (fun _ => none)))
      b.execJoin b'.execJoin (fun _ => Beside (R n (fun _ => none))) := by
  refine (h.found parses_parseJoin).bind (fun q => Simulates.assuming (fun hN => ?_))
  exact (simulates_onStorage (h.early (h.joinTables hN.1 hN.2))).mono (fun _ _ => id)
    (fun _ _ => id) (fun _ _ _ hst => h.spend hst.2.2)

/-- **Every executor** over both storages, for a statement whose tables are in
`N`. -/
theorem dispatch (h : b.Mimics b' X L N R) (keyword : ByteString) {toks : List ByteString} {s : σ}
    {t : τ} (hfinds : Finds (fun names => ∀ name ∈ names, N name) (readTables keyword toks) toks)
    (hat : AtTokens L (R (n + 1) (fun _ => none)) (toks, s) (toks, t)) :
    Alongside (Beside (R n (fun _ => none))) X (fun _ => Beside (R n (fun _ => none)))
      (b.dispatch keyword (toks, s)) (b'.dispatch keyword (toks, t)) := by
  unfold readTables at hfinds
  unfold Storage.dispatch
  by_cases hcreate : keyword = ascii "CREATE"
  · simp only [if_pos hcreate] at hfinds ⊢
    exact h.execCreate _ _ ⟨hfinds.single, hat⟩
  simp only [if_neg hcreate] at hfinds ⊢
  by_cases hinsert : keyword = ascii "INSERT"
  · simp only [if_pos hinsert] at hfinds ⊢
    exact h.execInsert _ _ ⟨hfinds.single, hat⟩
  simp only [if_neg hinsert] at hfinds ⊢
  by_cases hdelete : keyword = ascii "DELETE"
  · simp only [if_pos hdelete] at hfinds ⊢
    exact h.execDelete _ _ ⟨hfinds.single, hat⟩
  simp only [if_neg hdelete] at hfinds ⊢
  by_cases hselect : keyword = ascii "SELECT"
  · simp only [if_pos hselect] at hfinds ⊢
    have hprint : ∀ res : SelectResult, Simulates (Beside (R n (fun _ => none))) X
        (Beside (R n (fun _ => none)))
        (if res.error ≠ [] then return ascii "Error: " ++ res.error else return prettyPrint res :
          CursorM σ ByteString)
        (if res.error ≠ [] then return ascii "Error: " ++ res.error else return prettyPrint res :
          CursorM τ ByteString) (fun _ => Beside (R n (fun _ => none))) :=
      fun res => simulates_ite (fun _ => simulates_pure (fun _ _ => id))
        (fun _ => simulates_pure (fun _ _ => id))
    refine (Simulates.bind (P := fun st st' => st = (toks, s) ∧ st' = (toks, t)) ?_ hprint) _ _
      ⟨rfl, rfl⟩
    rintro _ _ ⟨rfl, rfl⟩
    unfold Storage.execQuery
    rw [bind_of_ok (get_apply _), bind_of_ok (get_apply _)]
    by_cases hjoin : hasJoin toks = true
    · simp only [if_pos hjoin] at hfinds ⊢
      refine h.execJoin _ _ ⟨fun q st hq => ?_, hat⟩
      have hnames := hfinds [q.leftName, q.rightName] st (by rw [bind_of_ok hq]; rfl)
      exact ⟨hnames _ (by simp), hnames _ (by simp)⟩
    · simp only [if_neg hjoin] at hfinds ⊢
      exact h.execSelect _ _ ⟨hfinds.single, hat⟩
  · simp only [if_neg hselect]
    exact ⟨_, rfl, h.spend hat.2.2⟩

/-- **A statement** has the same answer over both storages, or one that names
an exception in `X`. -/
theorem stepAlike_exec (h : b.Mimics b' X L N R) {sql : ByteString} (hlen : sql.length ≤ L)
    (hnames : ∀ name ∈ tablesOf sql, N name) {s : σ} {t : τ} (hR : R (n + 1) (fun _ => none) s t) :
    StepAlike (fun text => ∃ x, X x ∧ text = ascii "Error: " ++ what x) (R n (fun _ => none))
      (b.exec sql s) (b'.exec sql t) := by
  unfold Storage.exec
  by_cases hnil : statement sql = []
  · simp only [if_pos hnil]
    exact Or.inr ⟨t, rfl, h.spend hR⟩
  · simp only [if_neg hnil]
    have hfinds : Finds (fun names => ∀ name ∈ names, N name)
        (readTables (toUpper ((statement sql).take 6)) (tokenize (statement sql)))
        (tokenize (statement sql)) := by
      intro names st hread
      unfold tablesOf at hnames
      simp only [hread] at hnames
      exact hnames
    have hd := h.dispatch (n := n) (toUpper ((statement sql).take 6)) hfinds
      ⟨rfl, within_tokenize hlen, hR⟩
    rcases hs : b.dispatch (toUpper ((statement sql).take 6)) (tokenize (statement sql), s) with
      f | ⟨x | text, st⟩
    · rw [hs] at hd
      rw [show b'.dispatch _ _ = .error f from hd]
      rfl
    · rw [hs] at hd
      rcases hd with hx | ⟨st', ht, hE⟩
      · exact Or.inl ⟨x, hx, rfl⟩
      · rw [ht]
        exact Or.inr ⟨st'.2, rfl, hE⟩
    · rw [hs] at hd
      obtain ⟨st', ht, hE⟩ := hd
      rw [ht]
      exact Or.inr ⟨st'.2, rfl, hE⟩

end Storage.Mimics
