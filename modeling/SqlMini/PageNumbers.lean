import SqlMini.BufferPool

/-!
# Fresh page numbers

`next_page_id` is raised by accesses and by the numbers handed out, and
starts from the size of the file; pages reach the file when they are dropped
or flushed, in any order and with holes. In every run of sessions on one
file the counter is past the end of the file, past every page in memory and
past every number used in the session, and a page marked dirty is in the file
or still to be written (`Numbered`) – so the next number is none of them
(`unused_fresh`), as long as the counter does not wrap.
-/

namespace BufferPool

/-- **A call** of a session, or the end of the session and the start of the
next one. -/
inductive Call where
  /-- `get_page`. -/
  | getPage (p : ℕ)
  /-- A write through a pointer. -/
  | write (ptr : PagePtr) (buf : Page)
  /-- `mark_dirty`. -/
  | markDirty (p : ℕ)
  /-- `flush_all`. -/
  | flushAll
  /-- `get_unused_page_num`. -/
  | getUnusedPageNum
  /-- `flush_all`, and a pool of `max` pages on the file opened again. -/
  | reopen (max : ℕ)

/-- **What a call returns**, and the pool after it. -/
def call (pool : BufferPool) : Call → Except Fault (Option ℕ × BufferPool)
  | .getPage p => do
    let (_, pool') ← pool.getPage p
    pure (none, pool')
  | .write ptr buf => do
    let pool' ← pool.store ptr buf
    pure (none, pool')
  | .markDirty p => do
    let pool' ← pool.markDirty p
    pure (none, pool')
  | .flushAll => pure (none, pool.flushAll)
  | .getUnusedPageNum =>
    let (n, pool') := pool.getUnusedPageNum
    pure (some n, pool')
  | .reopen max => pure (none, create (Pager.open pool.flushAll.pager.file) max)

/-- Whether a call takes the 32-bit counter past its range. -/
def Wraps (pool : BufferPool) : Call → Prop
  | .getPage p => pool.nextPageId ≤ p ∧ uint32Size ≤ p + 1
  | .getUnusedPageNum => uint32Size ≤ pool.nextPageId + 1
  | _ => False

/-- **The page numbers of a run of sessions.** -/
structure Numbers where
  /-- Those passed to `get_page` or returned in this session. -/
  used : List ℕ
  /-- Those marked dirty in this session. -/
  marked : List ℕ
  /-- Those marked dirty in an earlier session. -/
  saved : List ℕ

namespace Numbers

/-- The page numbers after a call that returned `a`. -/
def after (ns : Numbers) (a : Option ℕ) : Call → Numbers
  | .getPage p => { ns with used := p :: ns.used }
  | .getUnusedPageNum => { ns with used := a.toList ++ ns.used }
  | .markDirty p => { ns with marked := p :: ns.marked }
  | .reopen _ => ⟨[], [], ns.marked ++ ns.saved⟩
  | .write _ _ => ns
  | .flushAll => ns

end Numbers

/-- **A run of sessions** on one file, in which the counter does not wrap. -/
inductive Sessions : BufferPool → Numbers → Prop
  /-- The file is opened. -/
  | start (f : PageFile) (max : ℕ) (hsize : f.size < uint32Size) :
      Sessions (create (Pager.open f) max) ⟨[], [], []⟩
  /-- A call is made and returns. -/
  | call {pool pool' : BufferPool} {ns : Numbers} {a : Option ℕ} (c : Call)
      (hrun : Sessions pool ns) (hwrap : ¬ pool.Wraps c) (hcall : pool.call c = .ok (a, pool')) :
      Sessions pool' (ns.after a c)

/-- **The counter is past every number used.** -/
structure Numbered (pool : BufferPool) (ns : Numbers) : Prop extends Indexed pool where
  /-- It has not wrapped. -/
  small : pool.nextPageId < uint32Size
  /-- The file ends before it, -/
  file : pool.pager.file.size ≤ pool.nextPageId
  /-- the pages in memory, -/
  memory : ∀ e ∈ pool.lru, e.pageNum < pool.nextPageId
  /-- and the pages used in the session are before it, too. -/
  used : ∀ p ∈ ns.used, p < pool.nextPageId
  /-- A page marked in an earlier session is in the file, -/
  saved : ∀ p ∈ ns.saved, p < pool.pager.file.size
  /-- and one marked in this session is, or is still to be written. -/
  marked : ∀ p ∈ ns.marked, p < pool.pager.file.size
    ∨ ∃ e ∈ pool.lru, e.pageNum = p ∧ e.dirty = true

variable {pool pool' : BufferPool} {ns : Numbers} {e : PageEntry} {p : ℕ} {ptr : PagePtr}
  {buf : Page}

/-! ## The size of the file -/

/-- The size after a page was written back. -/
theorem size_flushEntry (pager : Pager) (e : PageEntry) :
    (flushEntry pager e).file.size
      = if e.dirty then max pager.file.size (e.pageNum + 1) else pager.file.size := by
  unfold flushEntry
  split <;> rfl

/-- **The size after a list of entries was written back** is bounded by what
bounds the old size and each of them. -/
theorem size_foldl_flushEntry_le {n : ℕ} : ∀ (l : List PageEntry) (pager : Pager),
    (l.foldl flushEntry pager).file.size ≤ n
      ↔ pager.file.size ≤ n ∧ ∀ e ∈ l, e.dirty = true → e.pageNum < n
  | [], pager => (and_iff_left (fun e he => absurd he List.not_mem_nil)).symm
  | e :: l, pager => by
    have hhead : (flushEntry pager e).file.size ≤ n
        ↔ pager.file.size ≤ n ∧ (e.dirty = true → e.pageNum < n) := by
      rw [size_flushEntry]
      split
      case isTrue hd => exact max_le_iff.trans (and_congr_right fun _ => by simp [hd])
      case isFalse hd => simp [hd]
    rw [List.foldl_cons, size_foldl_flushEntry_le l, hhead, List.forall_mem_cons, and_assoc]

/-- The size is past the old end and each of the pages, and no further. -/
theorem size_foldl_flushEntry (l : List PageEntry) (pager : Pager) :
    pager.file.size ≤ (l.foldl flushEntry pager).file.size
      ∧ (∀ e ∈ l, e.dirty = true → e.pageNum < (l.foldl flushEntry pager).file.size)
      ∧ ∀ n, pager.file.size ≤ n → (∀ e ∈ l, e.pageNum < n) →
        (l.foldl flushEntry pager).file.size ≤ n := by
  obtain ⟨hold, hnew⟩ := (size_foldl_flushEntry_le l pager).mp le_rfl
  exact ⟨hold, hnew, fun n hn hl =>
    (size_foldl_flushEntry_le l pager).mpr ⟨hn, fun e he _ => hl e he⟩⟩

/-- **The size of the file** once the pool is flushed. -/
def savedSize (pool : BufferPool) : ℕ := pool.flushAll.pager.file.size

theorem savedSize_le {n : ℕ} : pool.savedSize ≤ n
    ↔ pool.pager.file.size ≤ n ∧ ∀ e ∈ pool.lru, e.dirty = true → e.pageNum < n :=
  size_foldl_flushEntry_le _ _

/-- Flushing twice writes nothing more. -/
theorem savedSize_flushAll : pool.flushAll.savedSize = pool.savedSize := by
  refine eq_of_forall_ge_iff (fun n => ?_)
  rw [savedSize_le]
  exact and_iff_left_of_imp (fun hle => (savedSize_le.mp hle).2)

/-- A page found is written back as before. -/
theorem Indexed.savedSize_hit (h : Indexed pool) (he : e ∈ pool.lru) :
    (pool.hit e).savedSize = pool.savedSize := by
  refine eq_of_forall_ge_iff (fun n => ?_)
  rw [savedSize_le, savedSize_le]
  exact and_congr_right fun _ => forall_congr' fun e' => by rw [h.mem_hit_iff he]

/-- A page read is not dirty. -/
theorem savedSize_read : (pool.read p).savedSize = pool.savedSize := by
  refine eq_of_forall_ge_iff (fun n => ?_)
  rw [savedSize_le, savedSize_le]
  refine and_congr_right fun _ => List.forall_mem_cons.trans (and_iff_right ?_)
  exact fun hd => absurd hd Bool.false_ne_true

/-- A page dropped is written back where it is dropped. -/
theorem savedSize_dropped {rest : List PageEntry} (hl : pool.lru = rest ++ [e]) :
    (pool.dropped rest e).savedSize = pool.savedSize := by
  refine eq_of_forall_ge_iff (fun n => ?_)
  have hdrop : (flushEntry pool.pager e).file.size ≤ n
      ↔ pool.pager.file.size ≤ n ∧ (e.dirty = true → e.pageNum < n) :=
    (size_foldl_flushEntry_le [e] pool.pager).trans (and_congr_right fun _ => by simp)
  rw [savedSize_le, savedSize_le, hl, List.forall_mem_append, List.forall_mem_singleton]
  show (flushEntry pool.pager e).file.size ≤ n ∧ (∀ e' ∈ rest, _) ↔ _
  rw [hdrop, and_assoc]
  exact and_congr_right fun _ => and_comm

/-- **A request** leaves what is to be written back. -/
theorem Indexed.savedSize_getPage (h : Indexed pool) (hmax : 1 ≤ pool.maxPages)
    (hget : pool.getPage p = .ok (ptr, pool')) : pool'.savedSize = pool.savedSize := by
  rcases h.getPage_cases hmax p with ⟨e, he, rfl, hrun⟩ | ⟨hp, hroom, hrun⟩
    | ⟨hp, rest, e, hl, hmax, hrun⟩ <;>
    obtain ⟨-, rfl⟩ := Prod.mk.inj (Except.ok.inj (hget.symm.trans hrun))
  · exact h.savedSize_hit he
  · exact savedSize_read
  · exact savedSize_read.trans (savedSize_dropped hl)

/-- A write leaves it, too, -/
theorem savedSize_store (hstore : pool.store ptr buf = .ok pool') :
    pool'.savedSize = pool.savedSize := by
  unfold store at hstore
  split at hstore
  · cases hstore
  obtain rfl := Except.ok.inj hstore
  refine eq_of_forall_ge_iff (fun n => ?_)
  rw [savedSize_le, savedSize_le]
  refine and_congr_right fun _ => List.forall_mem_map.trans (forall₂_congr fun e _ => ?_)
  split <;> rfl

/-- and a mark adds the page. -/
theorem Indexed.savedSize_markDirty (h : Indexed pool) (hmark : pool.markDirty p = .ok pool') :
    pool'.savedSize = max pool.savedSize (p + 1) := by
  by_cases hp : p ∈ pool.resident
  · obtain ⟨e, he, rfl⟩ := mem_resident.mp hp
    obtain rfl := Except.ok.inj ((h.markDirty_eq he).symm.trans hmark)
    refine eq_of_forall_ge_iff (fun n => ?_)
    rw [max_le_iff, savedSize_le, savedSize_le, and_assoc]
    refine and_congr_right fun _ => List.forall_mem_map.trans ⟨fun hall => ⟨?_, ?_⟩, ?_⟩
    · intro e' he' hd
      have hlt := hall e' he'
      split at hlt
      · exact hlt rfl
      · exact hlt hd
    · have hlt := hall e he
      rw [if_pos rfl] at hlt
      exact hlt rfl
    · rintro ⟨hall, hlt⟩ e' he' hd
      split at hd
      case isTrue hn =>
        rw [if_pos hn, h.entry_eq_of_node he' he hn]
        exact hlt
      case isFalse hn =>
        rw [if_neg hn]
        exact hall e' he' hd
  · rw [h.markDirty_eq_error hp] at hmark
    cases hmark

/-! ## Calls -/

/-- A request returns only from a pool with room for a page. -/
theorem Indexed.one_le_maxPages (h : Indexed pool) {a : PagePtr × BufferPool}
    (hget : pool.getPage p = .ok a) : 1 ≤ pool.maxPages := by
  by_contra hmax
  have hnil : pool.lru = [] := List.length_eq_zero_iff.mp (by have := h.room; omega)
  have hnone : pool.cache p = none := h.cache_eq_none.mpr (by rw [resident, hnil]; simp)
  have hzero : pool.maxPages = 0 := by omega
  have herr : pool.getPage p = .error .emptyContainer := by
    simp only [getPage, hnone, hnil, evict, List.length_nil, hzero, List.getLast?_nil]
    rfl
  rw [herr] at hget
  cases hget

/-- The counter after an access: past the page, and no lower. -/
theorem bumpPageId_spec {next : ℕ} (hwrap : ¬ (next ≤ p ∧ uint32Size ≤ p + 1)) :
    next ≤ bumpPageId p next ∧ p < bumpPageId p next
      ∧ (next < uint32Size → bumpPageId p next < uint32Size) := by
  unfold bumpPageId
  split
  case isTrue hle =>
    have hlt : p + 1 < uint32Size := by
      by_contra hge
      exact hwrap ⟨hle, not_lt.mp hge⟩
    rw [Nat.mod_eq_of_lt hlt]
    exact ⟨by omega, by omega, fun _ => hlt⟩
  case isFalse hlt => exact ⟨le_rfl, not_le.mp hlt, id⟩

theorem Numbered.hit (h : Numbered pool ns) (he : e ∈ pool.lru)
    (hwrap : ¬ pool.Wraps (.getPage e.pageNum)) :
    Numbered (pool.hit e) (ns.after none (.getPage e.pageNum)) := by
  obtain ⟨hle, hlt, hsmall⟩ := bumpPageId_spec hwrap
  refine ⟨h.toIndexed.hit he, hsmall h.small, h.file.trans hle,
    fun e' he' => (h.memory e' (mem_hit he he')).trans_le hle, ?_,
    h.saved, fun q hq => ?_⟩
  · intro q hq
    rcases List.mem_cons.mp hq with rfl | hq
    · exact hlt
    · exact (h.used q hq).trans_le hle
  · rcases h.marked q hq with hfile | ⟨e', he', hdirty⟩
    · exact Or.inl hfile
    · exact Or.inr ⟨e', (h.mem_hit_iff he).mpr he', hdirty⟩

theorem Numbered.read (h : Numbered pool ns) (hp : p ∉ pool.resident)
    (hroom : pool.lru.length < pool.maxPages) (hwrap : ¬ pool.Wraps (.getPage p)) :
    Numbered (pool.read p) (ns.after none (.getPage p)) := by
  obtain ⟨hle, hlt, hsmall⟩ := bumpPageId_spec hwrap
  refine ⟨h.toIndexed.read hp hroom, hsmall h.small, h.file.trans hle, fun e he => ?_,
    fun q hq => ?_, h.saved, fun q hq => ?_⟩
  · rcases List.mem_cons.mp he with rfl | he
    · exact hlt
    · exact (h.memory e he).trans_le hle
  · rcases List.mem_cons.mp hq with rfl | hq
    · exact hlt
    · exact (h.used q hq).trans_le hle
  · rcases h.marked q hq with hfile | ⟨e, he, hdirty⟩
    · exact Or.inl hfile
    · exact Or.inr ⟨e, List.mem_cons_of_mem _ he, hdirty⟩

/-- **A page dropped** is in the file if it was marked. -/
theorem Numbered.dropped (h : Numbered pool ns) {rest : List PageEntry}
    (hl : pool.lru = rest ++ [e]) : Numbered (pool.dropped rest e) ns := by
  obtain ⟨hold, hnew, hmax⟩ := size_foldl_flushEntry [e] pool.pager
  have hmem : ∀ e' ∈ pool.lru, e' ∈ rest ∨ e' = e := fun e' he' => by
    rw [hl] at he'
    exact (List.mem_append.mp he').imp_right List.mem_singleton.mp
  refine ⟨h.toIndexed.dropped hl, h.small, hmax _ h.file (fun e' he' => ?_), fun e' he' => ?_,
    h.used, fun q hq => (h.saved q hq).trans_le hold, fun q hq => ?_⟩
  · rw [List.mem_singleton.mp he']
    exact h.memory e (by simp [hl])
  · exact h.memory e' (by rw [hl]; exact List.mem_append_left _ he')
  · rcases h.marked q hq with hlt | ⟨e', he', rfl, hd⟩
    · exact Or.inl (hlt.trans_le hold)
    · rcases hmem e' he' with hrest | rfl
      · exact Or.inr ⟨e', hrest, rfl, hd⟩
      · exact Or.inl (hnew e' List.mem_cons_self hd)

/-- **An access.** -/
theorem Numbered.getPage (h : Numbered pool ns) (hwrap : ¬ pool.Wraps (.getPage p))
    (hget : pool.getPage p = .ok (ptr, pool')) : Numbered pool' (ns.after none (.getPage p)) := by
  rcases h.getPage_cases (h.one_le_maxPages hget) p with ⟨e, he, rfl, hrun⟩ | ⟨hp, hroom, hrun⟩
    | ⟨hp, rest, e, hl, hmax, hrun⟩ <;>
    obtain ⟨-, rfl⟩ := Prod.mk.inj (Except.ok.inj (hget.symm.trans hrun))
  · exact h.hit he hwrap
  · exact h.read hp hroom hwrap
  · have hroom : rest.length < pool.maxPages := by omega
    refine (h.dropped hl).read (fun hmem => hp ?_) hroom hwrap
    obtain ⟨e', he', hpage⟩ := mem_resident.mp hmem
    exact mem_resident.mpr ⟨e', by rw [hl]; exact List.mem_append_left _ he', hpage⟩

/-- **A change to an entry** that keeps its mark. -/
theorem Numbered.update (h : Numbered pool ns) {n : ℕ} {f : PageEntry → PageEntry}
    (hpage : ∀ e, (f e).pageNum = e.pageNum) (hnode : ∀ e, (f e).node = e.node)
    (hdirty : ∀ e, e.dirty = true → (f e).dirty = true) : Numbered (pool.update n f) ns := by
  refine ⟨h.toIndexed.update hpage hnode, h.small, h.file, ?_, h.used, h.saved, fun q hq => ?_⟩
  · intro _ hmem
    obtain ⟨e, he, rfl⟩ := List.mem_map.mp hmem
    split
    · rw [hpage]
      exact h.memory e he
    · exact h.memory e he
  · rcases h.marked q hq with hfile | ⟨e, he, hp, hd⟩
    · exact Or.inl hfile
    · refine Or.inr ⟨_, List.mem_map_of_mem he, ?_⟩
      split
      · exact ⟨(hpage e).trans hp, hdirty e hd⟩
      · exact ⟨hp, hd⟩

/-- **A mark.** -/
theorem Numbered.markDirty (h : Numbered pool ns) (hmark : pool.markDirty p = .ok pool') :
    Numbered pool' (ns.after none (.markDirty p)) := by
  by_cases hp : p ∈ pool.resident
  · obtain ⟨e, he, rfl⟩ := mem_resident.mp hp
    obtain rfl := Except.ok.inj ((h.markDirty_eq he).symm.trans hmark)
    have hkeep : Numbered (pool.update e.node .mark) ns :=
      h.update (fun _ => rfl) (fun _ => rfl) (fun _ _ => rfl)
    refine { hkeep with marked := fun q hq => ?_ }
    rcases List.mem_cons.mp hq with rfl | hq
    · exact Or.inr ⟨_, List.mem_map_of_mem he, by rw [if_pos rfl]; exact ⟨rfl, rfl⟩⟩
    · exact hkeep.marked q hq
  · rw [h.markDirty_eq_error hp] at hmark
    cases hmark

/-- **A flush** brings the pages marked into the file. -/
theorem Numbered.flushAll (h : Numbered pool ns) : Numbered pool.flushAll ns
    ∧ ∀ p ∈ ns.marked, p < pool.flushAll.pager.file.size := by
  obtain ⟨hold, hnew, hmax⟩ := size_foldl_flushEntry pool.lru pool.pager
  have hin : ∀ p ∈ ns.marked, p < pool.flushAll.pager.file.size := by
    intro p hp
    rcases h.marked p hp with hlt | ⟨e, he, rfl, hd⟩
    · exact hlt.trans_le hold
    · exact hnew e he hd
  exact ⟨⟨⟨h.pages, h.nodes, h.cache, h.past, h.room⟩, h.small, hmax _ h.file h.memory, h.memory,
    h.used, fun p hp => (h.saved p hp).trans_le hold, fun p hp => Or.inl (hin p hp)⟩, hin⟩

/-- A pool on a file opened again, with the pages marked so far in it. -/
theorem numbered_create (f : PageFile) (max : ℕ) (hsize : f.size < uint32Size) {saved : List ℕ}
    (hsaved : ∀ p ∈ saved, p < f.size) :
    Numbered (create (Pager.open f) max) ⟨[], [], saved⟩ := by
  have hnext : f.size % uint32Size = f.size := Nat.mod_eq_of_lt hsize
  refine ⟨(holds_create (Pager.open f) max).toIndexed, ?_, ?_, ?_, ?_, hsaved, ?_⟩
  · show f.size % uint32Size < uint32Size
    rwa [hnext]
  · exact hnext.ge
  · exact fun e he => absurd he List.not_mem_nil
  · exact fun p hp => absurd hp List.not_mem_nil
  · exact fun p hp => absurd hp List.not_mem_nil

/-- **One call** keeps the counter past the numbers used. -/
theorem Numbered.call (h : Numbered pool ns) {c : Call} {a : Option ℕ} (hwrap : ¬ pool.Wraps c)
    (hcall : pool.call c = .ok (a, pool')) : Numbered pool' (ns.after a c) := by
  cases c with
  | getPage p =>
    obtain ⟨⟨ptr, pool₁⟩, hget, heq⟩ := Except.bind_eq_ok.mp hcall
    obtain ⟨rfl, rfl⟩ := Prod.mk.inj (Except.ok.inj heq)
    exact h.getPage hwrap hget
  | write ptr buf =>
    obtain ⟨pool₁, hstore, heq⟩ := Except.bind_eq_ok.mp hcall
    obtain ⟨rfl, rfl⟩ := Prod.mk.inj (Except.ok.inj heq)
    unfold store at hstore
    split at hstore
    · cases hstore
    · obtain rfl := Except.ok.inj hstore
      exact h.update (fun _ => rfl) (fun _ => rfl) (fun _ hd => hd)
  | markDirty p =>
    obtain ⟨pool₁, hmark, heq⟩ := Except.bind_eq_ok.mp hcall
    obtain ⟨rfl, rfl⟩ := Prod.mk.inj (Except.ok.inj heq)
    exact h.markDirty hmark
  | flushAll =>
    obtain ⟨rfl, rfl⟩ := Prod.mk.inj (Except.ok.inj hcall)
    exact h.flushAll.1
  | getUnusedPageNum =>
    obtain ⟨rfl, rfl⟩ := Prod.mk.inj (Except.ok.inj hcall)
    have hlt : pool.nextPageId + 1 < uint32Size := not_le.mp hwrap
    have hnext : (pool.nextPageId + 1) % uint32Size = pool.nextPageId + 1 := Nat.mod_eq_of_lt hlt
    refine ⟨⟨h.pages, h.nodes, h.cache, h.past, h.room⟩, ?_, ?_, fun e he => ?_, fun q hq => ?_,
      h.saved, h.marked⟩
    · exact hnext.trans_lt hlt
    · exact (h.file.trans (Nat.le_succ _)).trans hnext.ge
    · exact ((h.memory e he).trans (Nat.lt_succ_self _)).trans_le hnext.ge
    · refine lt_of_lt_of_le ?_ hnext.ge
      rcases List.mem_cons.mp hq with rfl | hq
      · exact Nat.lt_succ_self _
      · exact (h.used q hq).trans (Nat.lt_succ_self _)
  | reopen max =>
    obtain ⟨rfl, rfl⟩ := Prod.mk.inj (Except.ok.inj hcall)
    obtain ⟨hflushed, hin⟩ := h.flushAll
    refine numbered_create _ max (hflushed.file.trans_lt hflushed.small) (fun p hp => ?_)
    rcases List.mem_append.mp hp with hp | hp
    · exact hin p hp
    · exact hflushed.saved p hp

/-- **Runs of sessions** keep the counter past the numbers used. -/
theorem Sessions.numbered (h : Sessions pool ns) : Numbered pool ns := by
  induction h with
  | start f max hsize => exact numbered_create f max hsize (fun p hp => absurd hp List.not_mem_nil)
  | call c hrun hwrap hcall ih => exact ih.call hwrap hcall

/-- **Fresh page numbers are fresh**: in every run of sessions, the next
number was not used in the session and no page of it was marked in an earlier
one. -/
theorem unused_fresh (h : Sessions pool ns) :
    pool.getUnusedPageNum.1 ∉ ns.used ∧ pool.getUnusedPageNum.1 ∉ ns.saved := by
  have hn := h.numbered
  refine ⟨fun hmem => lt_irrefl _ (hn.used _ hmem), fun hmem => ?_⟩
  exact lt_irrefl _ ((hn.saved _ hmem).trans_le hn.file)

/-- Page `0` is handed out and marked, and the file opened again. -/
theorem unused_fresh_reopened : ∃ pool ns, Sessions pool ns ∧ ns.saved = [0]
    ∧ pool.getUnusedPageNum.1 ∉ ns.used ∧ pool.getUnusedPageNum.1 ∉ ns.saved := by
  have h₀ := Sessions.start .empty 1 (by decide)
  have h₁ := h₀.call .getUnusedPageNum (by simp [Wraps, create, Pager.open, PageFile.empty]) rfl
  have h₂ := h₁.call (.getPage 0) (by simp [Wraps]) rfl
  have h₃ := h₂.call (.markDirty 0) (by simp [Wraps]) rfl
  have h₄ := h₃.call (.reopen 1) (by simp [Wraps]) rfl
  exact ⟨_, _, h₄, rfl, unused_fresh h₄⟩

end BufferPool
