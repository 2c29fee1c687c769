import SqlMini.Sessions

/-!
# The interactive program

`main` reads lines and collects them, and gives what it has collected to the
engine when there is a semicolon in it or the line is empty. `loop` is that
loop over any storage, with all that is printed; over the pools it is the
program (`main`).

The loop is a run of the executors over the statements that were typed
(`loop_eq`). So the program, started any number of times on what it left behind,
prints what it would print over maps where the names of the tables have files of
their own (`programs_eq_database`), and it does not
matter at which spaces between tokens the lines of a statement are broken
(`lines_broken_anywhere`).
-/

open SqlEngine Routine

/-! ## The program -/

namespace Repl

/-- The lines that `std::getline` returns one after the other, in `n` rounds. -/
def linesFrom : ℕ → ByteString → List ByteString
  | 0, _ => []
  | _ + 1, [] => []
  | n + 1, c :: cs => (c :: cs).takeWhile (· ≠ 10)
      :: linesFrom n ((c :: cs).dropWhile (· ≠ 10)).tail

/-- **The lines of the input.** Every round reads a byte. -/
def lines (input : ByteString) : List ByteString := linesFrom input.length input

/-- The words that end the loop. -/
def ends (line : ByteString) : Bool := line = ascii "exit" ∨ line = ascii "quit"

/-- What is collected with one line more. -/
def collect (buf line : ByteString) : ByteString := buf ++ (ascii " " ++ line)

/-- A statement is complete. -/
def complete (buf line : ByteString) : Bool := buf.contains 59 ∨ (buf ≠ [] ∧ line = [])

def prompt (buf : ByteString) : ByteString := if buf = [] then ascii "sql> " else ascii "   > "

/-- **The loop of `main`**, on a storage: what is printed, and the storage it
leaves unless something stopped. -/
def loop {σ : Type} (b : Storage σ) :
    List ByteString → ByteString → σ → ByteString × Except EngineFault σ
  | [], buf, s => (prompt buf, .ok s)
  | line :: rest, buf, s =>
    if ends line then (prompt buf, .ok s)
    else
      let buf' := collect buf line
      if complete buf' line then
        match b.exec buf' s with
        | .error f => (prompt buf, .error f)
        | .ok (answer, s') =>
          let r := loop b rest [] s'
          (prompt buf ++ (answer ++ ascii "\n" ++ r.1), r.2)
      else
        let r := loop b rest buf' s
        (prompt buf ++ r.1, r.2)

/-- What is printed first. -/
def banner : ByteString :=
  ascii "TinySQL  (type 'exit' or Ctrl-D to quit)\n" ++ ascii
    "Supported: CREATE TABLE, INSERT INTO, SELECT ... FROM ... [WHERE ...] [LIMIT n]\n\n"

/-- **`main`** without arguments: what is printed, and the files it leaves. -/
def main (fs : FileSystem) (input : ByteString) (files : ByteString → PageFile) :
    ByteString × Except EngineFault (ByteString → PageFile) :=
  let r := loop (PooledEngine.storage fs) (lines input) [] ⟨[], files⟩
  (banner ++ r.1, match r.2 with
    | .error f => .error f
    | .ok p => PooledEngine.destroy p.tables p.files)

/-- **The program started again and again** on the files it leaves. -/
def programs (fs : FileSystem) : List ByteString → (ByteString → PageFile) →
    List ByteString × Except EngineFault (ByteString → PageFile)
  | [], files => ([], .ok files)
  | input :: rest, files =>
    match main fs input files with
    | (out, .error f) => ([out], .error f)
    | (out, .ok files) => (out :: (programs fs rest files).1, (programs fs rest files).2)

/-- **The program over maps**, which need not be saved. -/
def programsOnMaps : List ByteString → Database → List ByteString × Except EngineFault Database
  | [], d => ([], .ok d)
  | input :: rest, d =>
    match loop Database.storage (lines input) [] d with
    | (out, .error f) => ([banner ++ out], .error f)
    | (out, .ok d) => ((banner ++ out) :: (programsOnMaps rest d).1, (programsOnMaps rest d).2)

/-! ## What was typed -/

/-- **The statements** that are given to the engine. -/
def typed : List ByteString → ByteString → List ByteString
  | [], _ => []
  | line :: rest, buf =>
    if ends line then []
    else
      let buf' := collect buf line
      if complete buf' line then buf' :: typed rest [] else typed rest buf'

/-- **What is printed** for given answers, of which there are fewer than
statements if something stopped. -/
def transcript : List ByteString → ByteString → List ByteString → ByteString
  | [], buf, _ => prompt buf
  | line :: rest, buf, answers =>
    if ends line then prompt buf
    else
      let buf' := collect buf line
      if complete buf' line then
        match answers with
        | [] => prompt buf
        | answer :: answers => prompt buf ++ (answer ++ ascii "\n" ++ transcript rest [] answers)
      else prompt buf ++ transcript rest buf' answers

theorem transcript_cons (line : ByteString) (rest : List ByteString) (buf : ByteString)
    (answers : List ByteString) : transcript (line :: rest) buf answers
      = if ends line then prompt buf
        else if complete (collect buf line) line then
          match answers with
          | [] => prompt buf
          | answer :: answers => prompt buf ++ (answer ++ ascii "\n" ++ transcript rest [] answers)
        else prompt buf ++ transcript rest (collect buf line) answers := by
  cases answers <;> rfl

/-- **The loop is a run** over the statements that were typed. -/
theorem loop_eq {σ : Type} (b : Storage σ) : ∀ (ls : List ByteString) (buf : ByteString) (s : σ),
    loop b ls buf s
      = (transcript ls buf (runAll b.exec (typed ls buf) s).1, (runAll b.exec (typed ls buf) s).2)
  | [], _, _ => rfl
  | line :: rest, buf, s => by
    rw [loop, transcript_cons, typed]
    by_cases hends : ends line = true
    · simp only [if_pos hends]
      rfl
    simp only [if_neg hends]
    by_cases hdone : complete (collect buf line) line = true
    · simp only [if_pos hdone, runAll_cons]
      rcases b.exec (collect buf line) s with f | ⟨answer, s'⟩
      · rfl
      · simp only [loop_eq b rest [] s']
    · simp only [if_neg hdone, loop_eq b rest (collect buf line) s]

/-- The program prints the answers of a session. -/
theorem main_eq (fs : FileSystem) (input : ByteString) (files : ByteString → PageFile) :
    main fs input files = (banner ++ transcript (lines input) []
        (PooledEngine.session fs (typed (lines input) []) files).1,
      (PooledEngine.session fs (typed (lines input) []) files).2) := by
  rw [main, loop_eq]
  rfl

/-! ## The program over maps -/

/-- The statements that were typed into one program after the other. -/
def allTyped (inputs : List ByteString) : List (List ByteString) :=
  inputs.map (fun input => typed (lines input) [])

section Programs

variable {fs : FileSystem} {input : ByteString} {rest : List ByteString}

/-- A program that stops is the last one. -/
theorem programs_of_stop {files : ByteString → PageFile} {f : EngineFault}
    (h : (PooledEngine.session fs (typed (lines input) []) files).2 = .error f) :
    programs fs (input :: rest) files = ([banner ++ transcript (lines input) []
      (PooledEngine.session fs (typed (lines input) []) files).1], .error f) := by
  rw [programs, main_eq, h]

/-- A program, and the others on the files that it leaves. -/
theorem programs_of_ok {files files' : ByteString → PageFile}
    (h : (PooledEngine.session fs (typed (lines input) []) files).2 = .ok files') :
    programs fs (input :: rest) files = ((banner ++ transcript (lines input) []
      (PooledEngine.session fs (typed (lines input) []) files).1) :: (programs fs rest files').1,
        (programs fs rest files').2) := by
  rw [programs, main_eq, h]

theorem programsOnMaps_of_stop {d : Database} {f : EngineFault}
    (h : (Database.execAll (typed (lines input) []) d).2 = .error f) :
    programsOnMaps (input :: rest) d = ([banner ++ transcript (lines input) []
      (Database.execAll (typed (lines input) []) d).1], .error f) := by
  rw [programsOnMaps, loop_eq, h]

theorem programsOnMaps_of_ok {d d' : Database}
    (h : (Database.execAll (typed (lines input) []) d).2 = .ok d') :
    programsOnMaps (input :: rest) d = ((banner ++ transcript (lines input) []
      (Database.execAll (typed (lines input) []) d).1) :: (programsOnMaps rest d').1,
        (programsOnMaps rest d').2) := by
  rw [programsOnMaps, loop_eq, h]

end Programs

/-- **Programs on the files of a database.** -/
theorem programs_on_files {fs : FileSystem} {S : ByteString → Prop} {n : ℕ}
    (hsep : fs.Separates S) : ∀ (inputs : List ByteString) (files : ByteString → PageFile)
    (d : Database),
    Engine.Represents (n + (allTyped inputs).flatten.length) (fun _ => none)
      ⟨fun _ => none, fs.view S files⟩ d →
    Stores (fs.view S files) d → (∀ sql ∈ (allTyped inputs).flatten, Concerns S sql) →
    (∀ sql ∈ (allTyped inputs).flatten, sql.length ≤ 60000) →
    (∀ k d', (programsOnMaps (inputs.take k) d).2 = .ok d' → d'.Storable) →
    (∀ answer ∈ (PooledEngine.sessions fs (allTyped inputs) files).1, ¬ OutOfRoom answer) →
    (programs fs inputs files).1 = (programsOnMaps inputs d).1
      ∧ EndAlike (fun files' => Stores (fs.view S files')) (programs fs inputs files).2
        (programsOnMaps inputs d).2
  | [], files, d, _, hstores, _, _, _, _ => ⟨rfl, d, rfl, hstores⟩
  | input :: rest, files, d, hrep, hstores, hconcerns, hlen, hstorable, hroom => by
    rw [allTyped, List.map_cons, List.flatten_cons] at hrep hconcerns hlen
    rw [List.length_append, Nat.add_comm (typed _ _).length, ← Nat.add_assoc] at hrep
    rw [allTyped, List.map_cons] at hroom
    have hfirst : ∀ d', (Database.execAll (typed (lines input) []) d).2 = .ok d' → d'.Storable := by
      intro d' hd'
      refine hstorable 1 d' ?_
      rw [List.take_succ_cons, programsOnMaps_of_ok hd']
      rfl
    obtain ⟨hanswers, hend⟩ := session_on_files hsep hrep
      (fun sql hmem => hconcerns sql (List.mem_append_left _ hmem))
      (fun sql hmem => hlen sql (List.mem_append_left _ hmem)) hfirst
      (fun answer hmem => hroom answer (PooledEngine.mem_sessions hmem))
    rcases hs : (PooledEngine.session fs (typed (lines input) []) files).2 with f | files'
    · rw [hs] at hend
      rw [programs_of_stop hs, programsOnMaps_of_stop hend, hanswers]
      exact ⟨rfl, rfl⟩
    · rw [hs] at hend
      obtain ⟨d', hd', hstores', hrep'⟩ := hend
      rw [PooledEngine.sessions_of_ok hs] at hroom
      rw [programs_of_ok hs, programsOnMaps_of_ok hd', hanswers]
      have hstorable' : ∀ k d'', (programsOnMaps (rest.take k) d').2 = .ok d'' → d''.Storable := by
        intro k d'' hk
        refine hstorable (k + 1) d'' ?_
        rw [List.take_succ_cons, programsOnMaps_of_ok hd']
        exact hk
      obtain ⟨hrest, hends⟩ := programs_on_files hsep rest files' d' hrep' hstores'
        (fun sql hmem => hconcerns sql (List.mem_append_right _ hmem))
        (fun sql hmem => hlen sql (List.mem_append_right _ hmem)) hstorable'
        (fun answer hmem => hroom answer (List.mem_append_right _ hmem))
      exact ⟨congrArg (_ :: ·) hrest, hends⟩

/-- **The program prints what it would print over maps**, however often it is
started on the files that it left, in a directory that was empty at first: if
the names of the tables have files of their own, the tables survive each end,
and no answer says that there was no room. -/
theorem programs_eq_database {fs : FileSystem} {S : ByteString → Prop} {inputs : List ByteString}
    (hsep : fs.Separates S) (hconcerns : ∀ sql ∈ (allTyped inputs).flatten, Concerns S sql)
    (hlen : ∀ sql ∈ (allTyped inputs).flatten, sql.length ≤ 60000)
    (hfew : (allTyped inputs).flatten.length < 4294967295)
    (hstorable : ∀ k d, (programsOnMaps (inputs.take k) .empty).2 = .ok d → d.Storable)
    (hroom : ∀ answer ∈ (PooledEngine.sessions fs (allTyped inputs) (fun _ => .empty)).1,
      ¬ OutOfRoom answer) :
    (programs fs inputs (fun _ => .empty)).1 = (programsOnMaps inputs .empty).1
      ∧ EndAlike (fun files => Stores (fs.view S files)) (programs fs inputs (fun _ => .empty)).2
        (programsOnMaps inputs .empty).2 :=
  programs_on_files (n := 0) hsep inputs _ _ (represents_view_empty (by rwa [Nat.zero_add]))
    stores_view_empty hconcerns hlen hstorable hroom

/-- The tables of programs over maps are those of one run. -/
theorem programsOnMaps_snd : ∀ (inputs : List ByteString) (d : Database),
    (programsOnMaps inputs d).2 = (Database.execAll (allTyped inputs).flatten d).2
  | [], _ => rfl
  | input :: rest, d => by
    rw [allTyped, List.map_cons, List.flatten_cons, Database.execAll, runAll_append]
    rcases hs : (Database.execAll (typed (lines input) []) d).2 with f | d'
    · rw [programsOnMaps_of_stop hs]
    · rw [programsOnMaps_of_ok hs]
      exact programsOnMaps_snd rest d'

/-- A table is created over three lines and given a row, which another program
finds that is ended by a word, with a statement behind it that is not read. -/
def twoInputs : List ByteString :=
  [ascii "CREATE TABLE t\n( a INT\n);\nINSERT INTO t VALUES (7);",
    ascii "SELECT a FROM t\nWHERE a > 3 LIMIT 2\n\nexit\nDROP;"]

theorem programs_eq_database_two :
    (programs .oneDirectory twoInputs (fun _ => .empty)).1 = (programsOnMaps twoInputs .empty).1
      ∧ EndAlike (fun files =>
          Stores (FileSystem.oneDirectory.view (fun name => name.contains 47 = false) files))
        (programs .oneDirectory twoInputs (fun _ => .empty)).2
        (programsOnMaps twoInputs .empty).2 := by
  have hcreate : Storage.SameStatement (ascii " CREATE TABLE t ( a INT );") createText := by
    decide +kernel
  have hinsert : Storage.SameStatement (ascii " INSERT INTO t VALUES (7);") insertText := by
    decide +kernel
  have hselect : Storage.SameStatement (ascii " SELECT a FROM t WHERE a > 3 LIMIT 2 ")
    selectText := by decide +kernel
  have htyped : allTyped twoInputs = [[ascii " CREATE TABLE t ( a INT );",
      ascii " INSERT INTO t VALUES (7);"], [ascii " SELECT a FROM t WHERE a > 3 LIMIT 2 "]] := by
    decide +kernel
  have hwrites : List.Forall₂ (List.Forall₂ Writes) foundStmts (allTyped twoInputs) := by
    rw [htyped]
    exact .cons (.cons (writes_createText.congr hcreate)
      (.cons (writes_insertText.congr hinsert) .nil))
      (.cons (.cons (writes_selectText.congr hselect) .nil) .nil)
  refine programs_eq_database FileSystem.separates_oneDirectory (by decide +kernel)
    (by decide +kernel) (by decide +kernel) (fun k d hd => ?_) (by decide +kernel)
  rw [programsOnMaps_snd, allTyped, List.map_take] at hd
  exact storable_of_writes hwrites storable_foundStmts k d hd

/-! ## Broken lines -/

/-- **A statement broken into lines**, with its tokens: quotes are closed on
each line, and the last line ends in a semicolon, the first one in the text. -/
inductive Breaks : List ByteString → List ByteString → Prop
  | last {l : ByteString} (hclosed : Closed l) : Breaks (tokenize l) [l ++ [59]]
  | line {l : ByteString} {ls toks : List ByteString} (hne : l ≠ []) (hends : ends l = false)
      (hsemi : 59 ∉ l) (hclosed : Closed l) (h : Breaks toks ls) :
      Breaks (tokenize l ++ toks) (l :: ls)

/-- The lines as they are collected. -/
def joined (ls : List ByteString) : ByteString := (ls.map (ascii " " ++ ·)).flatten

theorem joined_cons (l : ByteString) (ls : List ByteString) :
    joined (l :: ls) = 32 :: (l ++ joined ls) := rfl

theorem ends_semicolon (l : ByteString) : ends (l ++ [59]) = false := by
  refine decide_eq_false ?_
  rintro (h | h)
  · have hlast := congrArg List.getLast? h
    rw [List.getLast?_concat] at hlast
    exact absurd hlast (by decide)
  · have hlast := congrArg List.getLast? h
    rw [List.getLast?_concat] at hlast
    exact absurd hlast (by decide)

/-- **The lines of a statement** are typed as one statement. -/
theorem Breaks.typed_append {toks ls : List ByteString} (h : Breaks toks ls)
    (rest : List ByteString) {buf : ByteString} (hbuf : 59 ∉ buf) :
    typed (ls ++ rest) buf = (buf ++ joined ls) :: typed rest [] := by
  induction h generalizing buf with
  | @last l hclosed =>
    have hdone : complete (collect buf (l ++ [59])) (l ++ [59]) = true :=
      decide_eq_true (Or.inl (by simp [collect]))
    rw [List.singleton_append, typed, if_neg (by rw [ends_semicolon]; exact Bool.false_ne_true)]
    simp only [if_pos hdone]
    rw [joined_cons, collect]
    simp [joined, ascii]
  | @line l ls toks hne hends hsemi hclosed h ih =>
    have hbuf' : 59 ∉ collect buf l := by
      unfold collect
      rw [List.mem_append, List.mem_append]
      rintro (hmem | hmem | hmem)
      · exact hbuf hmem
      · exact absurd hmem (by decide)
      · exact hsemi hmem
    have hmore : ¬ complete (collect buf l) l = true := by
      rw [complete, decide_eq_true_iff]
      rintro (hmem | ⟨-, hnil⟩)
      · exact hbuf' (List.contains_iff_mem.mp hmem)
      · exact hne hnil
    rw [List.cons_append, typed, if_neg (by rw [hends]; exact Bool.false_ne_true)]
    simp only [if_neg hmore]
    rw [ih hbuf', joined_cons, collect, List.append_assoc]
    rfl

/-- **Its tokens** are those of its lines. -/
theorem Breaks.tokenize_joined {toks ls : List ByteString} (h : Breaks toks ls) :
    ∃ body, joined ls = 32 :: (body ++ [59]) ∧ tokenize body = toks := by
  induction h with
  | @last l hclosed => exact ⟨l, by rw [joined_cons, joined]; simp, rfl⟩
  | @line l ls toks hne hends hsemi hclosed h ih =>
    obtain ⟨body, hbody, rfl⟩ := ih
    refine ⟨l ++ 32 :: body, ?_, ?_⟩
    · rw [joined_cons, hbody, List.append_assoc]
      rfl
    · have hspace : ∀ b ∈ ([32] : ByteString), CppString.isSpace b = true := by decide +kernel
      have hgap : tokenize (32 :: body) = tokenize body := tokenize_gap hspace body
      have hstop : ∀ d ∈ (32 :: body).head?, stopsWord d = true := by
        intro d hd
        rw [← Option.some.inj hd]
        rfl
      rw [tokenize_append hclosed hstop, hgap]

/-- What is left of the text of a statement without the white space around it
and the semicolon. -/
theorem statement_joined {c : UInt8} {body : ByteString} (hc : isBlank c = false) :
    statement (32 :: (c :: body ++ [59])) = c :: body := by
  have hlead : (32 :: (c :: body ++ [59])).dropWhile isBlank = c :: body ++ [59] := by
    rw [List.dropWhile_cons_of_pos (by decide), List.cons_append,
      List.dropWhile_cons_of_neg (by rw [hc]; exact Bool.false_ne_true)]
  have htrim : trim (32 :: (c :: body ++ [59])) = c :: body ++ [59] := by
    rw [trim, hlead]
    exact List.rdropWhile_concat_neg _ _ _ (by decide)
  unfold statement
  simp only [htrim]
  rw [if_pos List.getLast?_concat, List.dropLast_concat]

/-- **It does not matter where the lines are broken**, as long as it is between
tokens: any two ways to type a statement that begins with the same six
characters and has the same tokens have the same answer, and leave the same
storage. -/
theorem lines_broken_anywhere {σ : Type} {keyword : ByteString} {toks : List ByteString}
    {l l' : ByteString} {ls ls' : List ByteString} (hsix : keyword.length = 6)
    (hplain : ∀ c ∈ keyword, isBlank c = false ∧ c ≠ 59) (h : Breaks toks ((keyword ++ l) :: ls))
    (h' : Breaks toks ((keyword ++ l') :: ls')) (b : Storage σ) (rest : List ByteString) (s : σ) :
    runAll b.exec (typed ((keyword ++ l) :: ls ++ rest) []) s
      = runAll b.exec (typed ((keyword ++ l') :: ls' ++ rest) []) s := by
  have hstatement : ∀ {l ls}, Breaks toks ((keyword ++ l) :: ls) →
      ∃ body, statement (joined ((keyword ++ l) :: ls)) = keyword ++ body
        ∧ tokenize (keyword ++ body) = toks := by
    intro l ls h
    obtain ⟨body, hbody, htoks⟩ := h.tokenize_joined
    have hbegins : keyword <+: body := by
      rw [joined_cons, List.append_assoc] at hbody
      have happend : keyword <+: body ++ [59] := ⟨_, (List.cons.inj hbody).2⟩
      rcases List.prefix_concat_iff.mp happend with heq | hbegins
      · exact absurd rfl (hplain 59 (by simp [heq])).2
      · exact hbegins
    obtain ⟨body, rfl⟩ := hbegins
    obtain ⟨c, keyword', rfl⟩ := List.exists_cons_of_length_eq_add_one hsix
    rw [hbody]
    exact ⟨body, statement_joined (hplain c List.mem_cons_self).1, htoks⟩
  obtain ⟨body, hbody, htoks⟩ := hstatement h
  obtain ⟨body', hbody', htoks'⟩ := hstatement h'
  have hsame : Storage.SameStatement (joined ((keyword ++ l) :: ls))
      (joined ((keyword ++ l') :: ls')) := by
    have hne : ∀ body, keyword ++ body ≠ [] := by
      intro body hnil
      rw [List.append_eq_nil_iff.mp hnil |>.1] at hsix
      cases hsix
    refine ⟨?_, ?_, ?_⟩
    · rw [hbody, hbody']
      exact iff_of_false (hne body) (hne body')
    · rw [hbody, hbody', List.take_left' hsix, List.take_left' hsix]
    · rw [hbody, hbody', htoks, htoks']
  rw [h.typed_append rest (by simp), h'.typed_append rest (by simp), runAll_cons, runAll_cons]
  simp only [List.nil_append, b.exec_congr hsame]

/-- The tokens of a statement without its semicolon. -/
def createToks : List ByteString :=
  [ascii "CREATE", ascii "TABLE", ascii "t", ascii "(", ascii "a", ascii "INT", ascii ")"]

/-- A line without quotes and semicolons. -/
def plainLine (l : ByteString) : Bool :=
  !l.isEmpty && !ends l && l.all (fun c => !isQuote c && c != 59)

theorem closed_of_plain {l : ByteString} (h : plainLine l = true) : Closed l := by
  simp only [plainLine, Bool.and_eq_true, List.all_eq_true, Bool.not_eq_true'] at h
  exact closed_of_not_quote _ _ le_rfl (fun c hc => (h.2 c hc).1)

theorem Breaks.plain {l : ByteString} {ls toks : List ByteString} (h : plainLine l = true)
    (hls : Breaks toks ls) : Breaks (tokenize l ++ toks) (l :: ls) := by
  have hclosed := closed_of_plain h
  simp only [plainLine, Bool.and_eq_true, List.all_eq_true, Bool.not_eq_true', bne_iff_ne,
    List.isEmpty_eq_false_iff] at h
  exact .line h.1.1 h.1.2 (fun hmem => (h.2 59 hmem).2 rfl) hclosed hls

theorem breaks_create : Breaks createToks [ascii "CREATE TABLE t", ascii "(a INT)" ++ [59]] := by
  have h : createToks = tokenize (ascii "CREATE TABLE t") ++ tokenize (ascii "(a INT)") := by
    decide +kernel
  rw [h]
  exact .plain (by decide +kernel) (.last (closed_of_plain (by decide +kernel)))

theorem breaks_create' :
    Breaks createToks [ascii "CREATE", ascii " TABLE", ascii "t(a", ascii "INT ) " ++ [59]] := by
  have h : createToks = tokenize (ascii "CREATE") ++ (tokenize (ascii " TABLE")
      ++ (tokenize (ascii "t(a") ++ tokenize (ascii "INT ) "))) := by
    decide +kernel
  rw [h]
  exact .plain (by decide +kernel) (.plain (by decide +kernel) (.plain (by decide +kernel)
    (.last (closed_of_plain (by decide +kernel)))))

/-- Two lines, or four. -/
theorem lines_broken_anywhere_create :
    runAll Database.storage.exec (typed ((ascii "CREATE" ++ ascii " TABLE t")
        :: [ascii "(a INT)" ++ [59]] ++ [ascii "SELECT * FROM t;"]) []) .empty
      = runAll Database.storage.exec (typed ((ascii "CREATE" ++ [])
        :: [ascii " TABLE", ascii "t(a", ascii "INT ) " ++ [59]] ++ [ascii "SELECT * FROM t;"]) [])
          .empty :=
  lines_broken_anywhere rfl (by decide +kernel) breaks_create breaks_create' Database.storage _ _

end Repl
