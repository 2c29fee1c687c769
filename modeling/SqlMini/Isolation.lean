import SqlMini.PooledEngine

/-!
# Tables do not touch each other

A statement has to do with the tables that it names, and with no others: what
it answers depends on them only, and all other tables stay as they are
(`mimics_itself`). So clients with tables of their own do not notice each other,
in whatever order their statements come (`interleaved_eq_alone`): each has the
answers that it has alone. The names of the tables must have files of their own,
as `t` and `./t` are one table. Nothing more is asked of the tables, of the files
or of the statements. A table may be full, or its file no table at all.
-/

open SqlEngine Routine PageProg

namespace Engine

/-- **Engines that have the same tables** under the names in `S`. -/
structure AgreesOn (S : ByteString → Prop) (e e' : Engine) : Prop where
  tables : ∀ name, S name → e.tables name = e'.tables name
  files : ∀ name, S name → e.files (name ++ ascii ".db") = e'.files (name ++ ascii ".db")

/-- **Two engines after the same statement** of tables in `S`: they agree on
these, and the first one has all others from `e₀`. -/
structure Besides (S : ByteString → Prop) (e₀ : Engine) (opened : ByteString → Option Schema)
    (e e' : Engine) : Prop where
  agrees : e.AgreesOn S e'
  others : e.AgreesOn (fun name => ¬ S name) e₀
  opened : ∀ name schema, opened name = some schema →
    S name ∧ ∃ t s, e.tables name = some (t, s) ∧ t.schema = schema

variable {S : ByteString → Prop} {e₀ e e' : Engine} {opened : ByteString → Option Schema}
  {name : ByteString} {t : Table} {s : Store}

theorem AgreesOn.refl (S : ByteString → Prop) (e : Engine) : e.AgreesOn S e :=
  ⟨fun _ _ => rfl, fun _ _ => rfl⟩

theorem AgreesOn.trans {e'' : Engine} (h : e.AgreesOn S e') (h' : e'.AgreesOn S e'') :
    e.AgreesOn S e'' :=
  ⟨fun name hS => (h.tables name hS).trans (h'.tables name hS),
    fun name hS => (h.files name hS).trans (h'.files name hS)⟩

/-- The same table in both. -/
theorem AgreesOn.put (h : e.AgreesOn S e') (name : ByteString) (t : Table) (s : Store) :
    (e.put name t s).AgreesOn S (e'.put name t s) where
  tables other hS := by
    by_cases hne : other = name
    · rw [hne, put_tables_self, put_tables_self]
    · rw [put_tables_of_ne hne, put_tables_of_ne hne]
      exact h.tables other hS
  files := h.files

/-- A table under another name. -/
theorem AgreesOn.put_left (h : e.AgreesOn S e') (hS : ¬ S name) :
    (e.put name t s).AgreesOn S e' where
  tables other hother := by
    have hne : other ≠ name := by
      rintro rfl
      exact hS hother
    exact (put_tables_of_ne hne).trans (h.tables other hother)
  files := h.files

namespace Besides

theorem forget (h : Besides S e₀ opened e e') : Besides S e₀ (fun _ => none) e e' :=
  ⟨h.agrees, h.others, fun _ _ ho => by cases ho⟩

/-- After a call on a table. -/
theorem put (h : Besides S e₀ opened e e') {t₀ : Table} {s₀ : Store}
    (hopen : e.tables name = some (t₀, s₀)) (hS : S name) (hschema : t.schema = t₀.schema) :
    Besides S e₀ opened (e.put name t s) (e'.put name t s) where
  agrees := h.agrees.put name t s
  others := h.others.put_left (not_not_intro hS)
  opened other schema ho := by
    obtain ⟨hother, t₁, s₁, hopen₁, hschema₁⟩ := h.opened other schema ho
    refine ⟨hother, ?_⟩
    by_cases hne : other = name
    · subst hne
      obtain ⟨rfl, rfl⟩ := Prod.mk.inj (Option.some.inj (hopen.symm.trans hopen₁))
      exact ⟨t, s, put_tables_self, hschema.trans hschema₁⟩
    · exact ⟨t₁, s₁, (put_tables_of_ne hne).trans hopen₁, hschema₁⟩

/-- A table is open. -/
theorem know (h : Besides S e₀ opened e e') (hopen : e.tables name = some (t, s)) (hS : S name) :
    Besides S e₀ (Function.update opened name (some t.schema)) e e' where
  agrees := h.agrees
  others := h.others
  opened other schema ho := by
    by_cases hne : other = name
    · rw [hne, Function.update_self] at ho
      exact ⟨hne ▸ hS, t, s, hne ▸ hopen, Option.some.inj ho⟩
    · rw [Function.update_of_ne hne] at ho
      exact h.opened other schema ho

/-- After a table was opened. -/
theorem enter (h : Besides S e₀ opened e e') (hS : S name) :
    Besides S e₀ (Function.update opened name (some t.schema)) (e.put name t s)
      (e'.put name t s) where
  agrees := h.agrees.put name t s
  others := h.others.put_left (not_not_intro hS)
  opened other schema ho := by
    by_cases hne : other = name
    · rw [hne, Function.update_self] at ho
      exact ⟨hne ▸ hS, t, s, hne ▸ put_tables_self, Option.some.inj ho⟩
    · rw [Function.update_of_ne hne] at ho
      obtain ⟨hother, t₁, s₁, hopen₁, hschema⟩ := h.opened other schema ho
      exact ⟨hother, t₁, s₁, (put_tables_of_ne hne).trans hopen₁, hschema⟩

end Besides

end Engine

/-! ## The calls -/

section Calls

open Engine

variable {α : Type} {S : ByteString → Prop} {e₀ e e' : Engine}
  {opened : ByteString → Option Schema} {name : ByteString} {X : StdException → Prop}

theorem simulates_openTable_besides {sc : Option Schema} (hS : S name) :
    Simulates (Besides S e₀ (fun _ => none)) X (Besides S e₀ opened) (openTable name sc)
      (openTable name sc)
      (fun _ e e' => ∃ schema, Besides S e₀ (Function.update opened name (some schema)) e e') := by
  intro e e' h
  have hsame := h.agrees.tables name hS
  cases hopen : e.tables name with
  | some ts =>
    rw [openTable_of_open hopen, openTable_of_open (hsame.symm.trans hopen)]
    exact ⟨e', rfl, ts.1.schema, h.know hopen hS⟩
  | none =>
    unfold openTable
    rw [bind_of_ok (get_apply e), bind_of_ok (get_apply e'), hopen, hsame.symm.trans hopen,
      ← h.agrees.files name hS]
    simp only
    split
    case isTrue hno => exact Or.inr ⟨e', rfl, h.forget⟩
    case isFalse hyes =>
      generalize PageProg.run _ _ = r
      rcases r with f | ⟨t, s⟩
      · rfl
      · exact ⟨_, rfl, t.schema, h.enter hS⟩

/-- A call on a table that is open. -/
theorem simulates_onTable_besides {schema : Schema} {m : Table → PageProg (α × Table)}
    (hopened : opened name = some schema)
    (hschema : ∀ t s, Always (m t) s (fun r _ => r.2.schema = t.schema)) :
    Simulates (Besides S e₀ (fun _ => none)) X (Besides S e₀ opened) (onTable name m)
      (onTable name m) (fun _ => Besides S e₀ opened) := by
  intro e e' h
  obtain ⟨hS, t, s, hopen, -⟩ := h.opened name schema hopened
  have hopen' := (h.agrees.tables name hS).symm.trans hopen
  rcases hrun : (m t).run s with f | ⟨⟨a, t'⟩, s'⟩
  · rw [onTable_of_fault hopen hrun, onTable_of_fault hopen' hrun]
    rfl
  · rw [onTable_of_run hopen hrun, onTable_of_run hopen' hrun]
    exact ⟨_, rfl, h.put hopen hS (hschema _ _ _ _ hrun)⟩

/-- A call that leaves the fields of the table alone. -/
theorem simulates_readTable_besides {schema : Schema} {m : Table → PageProg α}
    (hopened : opened name = some schema) :
    Simulates (Besides S e₀ (fun _ => none)) X (Besides S e₀ opened) (readTable name m)
      (readTable name m) (fun _ => Besides S e₀ opened) :=
  simulates_onTable_besides hopened
    (fun t _ => Always.bind (fun a _ _ => ((runs_pure (a, t)).mpr rfl).always))

/-- A call that returns an exception, and throws it. -/
theorem simulates_thrown_besides {m : EngineM (Except StdException α)}
    (h : Simulates (Besides S e₀ (fun _ => none)) X (Besides S e₀ opened) m m
      (fun _ => Besides S e₀ opened)) :
    Simulates (Besides S e₀ (fun _ => none)) X (Besides S e₀ opened) (do let r ← m; ofExcept r)
      (do let r ← m; ofExcept r) (fun _ => Besides S e₀ opened) :=
  h.bind (fun _ => simulates_ofExcept (fun _ _ => Besides.forget) (fun _ _ _ _ => id))

/-- **The engine mimics itself** over other tables outside `S`, and leaves these
as they are. -/
theorem mimics_itself (L : ℕ) (S : ByteString → Prop) (e₀ : Engine) :
    SqlEngine.storage.Mimics SqlEngine.storage X L S (fun _ => Besides S e₀) where
  spend := id
  forget := Besides.forget
  openTable _ _ _ _ hS _ := simulates_openTable_besides hS
  schemaOf n opened name schema hopened e e' h := by
    obtain ⟨hS, t, s, hopen, hschema⟩ := h.opened name schema hopened
    show Alongside _ _ _ (schemaOf name e) (schemaOf name e')
    rw [schemaOf_of_open hopen, schemaOf_of_open ((h.agrees.tables name hS).symm.trans hopen)]
    exact ⟨e', rfl, hschema, h⟩
  insertRow _ _ _ _ _ _ _ hopened _ _ := simulates_thrown_besides (simulates_onTable_besides hopened
    (fun _ _ => Table.always_insertRow_stored.mono (fun _ _ h => h.1)))
  findByRowid _ _ _ _ _ hopened _ := simulates_readTable_besides hopened
  scan _ _ _ _ _ _ _ hopened := simulates_thrown_besides (simulates_readTable_besides hopened)
  deleteWhere _ _ _ _ _ hopened := simulates_thrown_besides (simulates_readTable_besides hopened)

/-! ## Statements -/

/-- **A statement** of tables in `S`, on engines that agree on these. -/
theorem exec_agreesOn {sql text : ByteString} {e₁ : Engine} (hS : Concerns S sql)
    (h : e.AgreesOn S e') (hexec : SqlEngine.exec sql e = .ok (text, e₁)) :
    ∃ e₁', SqlEngine.exec sql e' = .ok (text, e₁') ∧ e₁.AgreesOn S e₁'
      ∧ e₁.AgreesOn (fun name => ¬ S name) e := by
  have hstep := (mimics_itself (X := fun _ => False) sql.length S e).stepAlike_exec (n := 0) le_rfl
    hS (s := e) (t := e') ⟨h, .refl _ e, fun _ _ ho => by cases ho⟩
  rw [storage_exec, storage_exec, hexec] at hstep
  rcases hstep with ⟨x, hx, -⟩ | ⟨e₁', hexec', hbesides⟩
  · exact hx.elim
  · exact ⟨e₁', hexec', hbesides.agrees, hbesides.others⟩

/-- **Statements of other tables** may be left out. -/
theorem exists_runAll_mine {S : ByteString → Bool} {sqls : List ByteString}
    (hsplit : ∀ sql ∈ sqls, Concerns (fun name => S name = true) sql
      ∨ Concerns (fun name => S name = false) sql) (e : Engine) :
    ∃ e', runAll SqlEngine.exec ((kept (fun sql _ => (tablesOf sql).all S) sqls
        (SqlEngine.execAll sqls e).1).map Prod.fst) e
      = ((kept (fun sql _ => (tablesOf sql).all S) sqls (SqlEngine.execAll sqls e).1).map Prod.snd,
        .ok e') := by
  have hkeep : ∀ sql text (e₀ e₁ e' : Engine), e₀.AgreesOn (fun name => S name = true) e' →
      SqlEngine.exec sql e₀ = .ok (text, e₁) → (tablesOf sql).all S = true →
      ∃ e₁', SqlEngine.exec sql e' = .ok (text, e₁')
        ∧ e₁.AgreesOn (fun name => S name = true) e₁' := by
    intro sql text e₀ e₁ e' h hexec hmine
    obtain ⟨e₁', hexec', hagrees, -⟩ := exec_agreesOn (List.all_eq_true.mp hmine) h hexec
    exact ⟨e₁', hexec', hagrees⟩
  have hdrop : ∀ sql text (e₀ e₁ e' : Engine), (Concerns (fun name => S name = true) sql
      ∨ Concerns (fun name => S name = false) sql) → e₀.AgreesOn (fun name => S name = true) e' →
      SqlEngine.exec sql e₀ = .ok (text, e₁) → ¬ (tablesOf sql).all S = true →
      e₁.AgreesOn (fun name => S name = true) e' := by
    intro sql text e₀ e₁ e' hok h hexec hmine
    have hother : Concerns (fun name => S name = false) sql :=
      hok.resolve_left (fun hall => hmine (List.all_eq_true.mpr hall))
    obtain ⟨-, -, -, hothers⟩ := exec_agreesOn hother (.refl _ e₀) hexec
    exact AgreesOn.trans ⟨fun name hS => hothers.tables name (by simp [hS]),
      fun name hS => hothers.files name (by simp [hS])⟩ h
  obtain ⟨e', hrun, -⟩ := runAll_kept (fun sql text e₀ e₁ e' _ => hkeep sql text e₀ e₁ e') hdrop
    sqls e e hsplit (.refl _ e)
  exact ⟨e', hrun⟩

end Calls

/-- What is kept of statements are some of these. -/
theorem mem_of_kept {keep : ByteString → ByteString → Bool} {sqls answers : List ByteString}
    {sql : ByteString} (h : sql ∈ (kept keep sqls answers).map Prod.fst) : sql ∈ sqls := by
  obtain ⟨⟨q, answer⟩, hmem, rfl⟩ := List.mem_map.mp h
  exact (List.of_mem_zip (List.mem_filter.mp hmem).1).1

/-- **Clients with tables of their own do not notice each other.** If each
statement is about tables in `S` or about others, those about tables in `S` have
the answers, over the pools of an engine, that they have when no others come
between. The names of the tables have files of their own. -/
theorem interleaved_eq_alone {fs : FileSystem} {N : ByteString → Prop} {S : ByteString → Bool}
    {sqls : List ByteString} (hsep : fs.Separates N) (hconcerns : ∀ sql ∈ sqls, Concerns N sql)
    (hsplit : ∀ sql ∈ sqls, Concerns (fun name => S name = true) sql
      ∨ Concerns (fun name => S name = false) sql) (files : ByteString → PageFile) :
    ∃ p, runAll (PooledEngine.storage fs).exec
        ((kept (fun sql _ => (tablesOf sql).all S) sqls
          (runAll (PooledEngine.storage fs).exec sqls ⟨[], files⟩).1).map Prod.fst) ⟨[], files⟩
      = ((kept (fun sql _ => (tablesOf sql).all S) sqls
          (runAll (PooledEngine.storage fs).exec sqls ⟨[], files⟩).1).map Prod.snd, .ok p) := by
  obtain ⟨e', hrun⟩ := exists_runAll_mine hsplit ⟨fun _ => none, fs.view N files⟩
  have hframes : 3 ≤ PooledEngine.maxPages := by decide
  rw [(execAll_eq_pooled hframes hsep hconcerns (mirrors_new fs N _ files)).1]
  obtain ⟨hanswers, hend⟩ := execAll_eq_pooled (p := ⟨[], files⟩) hframes hsep
    (fun sql hmem => hconcerns sql (mem_of_kept hmem)) (mirrors_new fs N _ files)
  rw [SqlEngine.execAll, hrun] at hanswers hend
  obtain ⟨p, hp, -⟩ := hend
  exact ⟨p, Prod.ext hanswers hp⟩

/-- Two clients. -/
def twoClients : List ByteString :=
  [ascii "CREATE TABLE a (x INT)", ascii "CREATE TABLE b (y TEXT)",
    ascii "INSERT INTO b VALUES ('z')", ascii "INSERT INTO a VALUES (7)",
    ascii "SELECT * FROM a JOIN a ON x = x", ascii "DELETE FROM b"]

/-- The first client creates, inserts and joins as if alone. -/
theorem interleaved_eq_alone_two :
    ∃ p, runAll (PooledEngine.storage .oneDirectory).exec
        ((kept (fun sql _ => (tablesOf sql).all (· = ascii "a")) twoClients
          (runAll (PooledEngine.storage .oneDirectory).exec twoClients
            ⟨[], fun _ => .empty⟩).1).map Prod.fst) ⟨[], fun _ => .empty⟩
      = ((kept (fun sql _ => (tablesOf sql).all (· = ascii "a")) twoClients
          (runAll (PooledEngine.storage .oneDirectory).exec twoClients
            ⟨[], fun _ => .empty⟩).1).map Prod.snd, .ok p) :=
  interleaved_eq_alone FileSystem.separates_oneDirectory (by decide +kernel) (by decide +kernel)
    (fun _ => .empty)
