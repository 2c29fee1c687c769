import SqlMini.PageProgram
import SqlMini.Recency

/-!
# The buffer pool

The pool keeps at most `maxPages` pages in memory, in a list with the page
requested last in front, and finds them through a map from page numbers to
iterators into the list. `get_page` moves a page it has to the front; for a
page it does not have it drops the last one, writing it back if it was
marked dirty, and reads the page from the file.

A node of the list is told from the others by the request that made it, so
an iterator is the number of that request, and following an iterator to a
node that is gone is a fault. A pointer into a buffer carries the time it was
obtained at, and leads into the node of its page if the node is not younger.

`Holds` says what the pool is for: whatever the list, the map and the file
are, they stand for one array of pages. Each operation keeps it, and does to
the array what it says (`Holds.runs_getPage`, `Holds.runs_store`,
`Holds.runs_markDirty`, `Holds.flushAll`).
-/

/-- **A node of the list** of a pool. -/
structure PageEntry where
  /-- Which node it is: the request that made it. -/
  node : ℕ
  /-- `page_num`. -/
  pageNum : ℕ
  /-- `buffer`. -/
  buffer : Page
  /-- `dirty`. -/
  dirty : Bool

namespace PageEntry

/-- The entry with other bytes in its buffer. -/
def fill (buf : Page) (e : PageEntry) : PageEntry := { e with buffer := buf }

/-- The entry marked dirty. -/
def mark (e : PageEntry) : PageEntry := { e with dirty := true }

end PageEntry

/-- **A buffer pool.** -/
structure BufferPool where
  /-- `pager`. -/
  pager : Pager
  /-- `max_pages`. -/
  maxPages : ℕ
  /-- `lru`, from front to back. -/
  lru : List PageEntry
  /-- `cache`: the node the iterator for a page leads to. -/
  cache : ℕ → Option ℕ
  /-- `next_page_id`. -/
  nextPageId : ℕ
  /-- The number of requests for pages served. -/
  clock : ℕ

namespace BufferPool

/-! ## The operations -/

/-- The constructor. -/
def create (pager : Pager) (max : ℕ) : BufferPool :=
  ⟨pager, max, [], fun _ => none, pager.numPages, 0⟩

/-- `lru.splice(lru.begin(), lru, it)`: the node moves to the front. -/
def splice (pool : BufferPool) (node : ℕ) : Except Fault BufferPool :=
  match pool.lru.find? (fun e => e.node = node) with
  | none => .error .danglingPointer
  | some e => .ok { pool with lru := e :: pool.lru.filter (fun e => e.node ≠ node) }

/-- `oldest` is dropped, after it was written back if it is dirty. -/
def evict (pool : BufferPool) : Except Fault BufferPool :=
  match pool.lru.getLast? with
  | none => .error .emptyContainer
  | some oldest => .ok { pool with
      pager := if oldest.dirty then pool.pager.writePage oldest.pageNum oldest.buffer
        else pool.pager
      cache := Function.update pool.cache oldest.pageNum none
      lru := pool.lru.dropLast }

/-- A page is read into a new node in front. -/
def pushFront (pool : BufferPool) (p : ℕ) : BufferPool :=
  { pool with
    lru := ⟨pool.clock, p, pool.pager.readPage p, false⟩ :: pool.lru
    cache := Function.update pool.cache p (some pool.clock) }

/-- `get_page`. -/
def getPage (pool : BufferPool) (p : ℕ) : Except Fault (PagePtr × BufferPool) := do
  let pool := { pool with nextPageId := bumpPageId p pool.nextPageId }
  let pool ← match pool.cache p with
    | some node => pool.splice node
    | none => do
      let pool ← if pool.maxPages ≤ pool.lru.length then pool.evict else pure pool
      pure (pool.pushFront p)
  pure (⟨p, pool.clock⟩, { pool with clock := pool.clock + 1 })

/-- A change to one node. -/
def update (pool : BufferPool) (node : ℕ) (f : PageEntry → PageEntry) : BufferPool :=
  { pool with lru := pool.lru.map (fun e => if e.node = node then f e else e) }

/-- `mark_dirty`. For a page without an entry `cache[p]` is an iterator to
nowhere. -/
def markDirty (pool : BufferPool) (p : ℕ) : Except Fault BufferPool :=
  match pool.cache p with
  | none => .error .danglingPointer
  | some node =>
    match pool.lru.find? (fun e => e.node = node) with
    | none => .error .danglingPointer
    | some _ => .ok (pool.update node PageEntry.mark)

/-- One page of `flush_all`. -/
def flushEntry (pager : Pager) (e : PageEntry) : Pager :=
  if e.dirty then pager.writePage e.pageNum e.buffer else pager

/-- `flush_all`. -/
def flushAll (pool : BufferPool) : BufferPool :=
  { pool with pager := pool.lru.foldl flushEntry pool.pager }

/-- `get_unused_page_num`. -/
def getUnusedPageNum (pool : BufferPool) : ℕ × BufferPool :=
  (pool.nextPageId, { pool with nextPageId := (pool.nextPageId + 1) % uint32Size })

/-- The node a pointer leads into. -/
def target (pool : BufferPool) (ptr : PagePtr) : Option PageEntry :=
  pool.lru.find? (fun e => e.pageNum = ptr.page ∧ e.node ≤ ptr.time)

/-- Reading through a pointer. -/
def load (pool : BufferPool) (ptr : PagePtr) : Except Fault Page :=
  match pool.target ptr with
  | none => .error .danglingPointer
  | some e => .ok e.buffer

/-- Writing through a pointer. -/
def store (pool : BufferPool) (ptr : PagePtr) (buf : Page) : Except Fault BufferPool :=
  match pool.target ptr with
  | none => .error .danglingPointer
  | some e => .ok (pool.update e.node (PageEntry.fill buf))

/-- The pages in memory, the one requested last in front. -/
def resident (pool : BufferPool) : List ℕ := pool.lru.map (·.pageNum)

/-! ## What a pool stands for -/

/-- **The list and the map are one index.** -/
structure Indexed (pool : BufferPool) : Prop where
  /-- Each page is in the list once, -/
  pages : pool.resident.Nodup
  /-- in a node of its own, -/
  nodes : (pool.lru.map (·.node)).Nodup
  /-- and the map leads from the page to the node. -/
  cache : ∀ p n, pool.cache p = some n ↔ ∃ e ∈ pool.lru, e.pageNum = p ∧ e.node = n
  /-- The nodes were made by requests served. -/
  past : ∀ e ∈ pool.lru, e.node < pool.clock
  /-- There are at most `max_pages`. -/
  room : pool.lru.length ≤ pool.maxPages

/-- **A pool stands for the pages `bytes`**, with those of `unmarked` written
and not marked dirty since. -/
structure Holds (bytes : ℕ → Page) (unmarked : ℕ → Prop) (pool : BufferPool) : Prop
    extends Indexed pool where
  /-- A page in memory is what its buffer holds, -/
  buffered : ∀ e ∈ pool.lru, e.buffer = bytes e.pageNum
  /-- and another one what the file holds. -/
  absent : ∀ p, p ∉ pool.resident → pool.pager.file.content p = bytes p
  /-- A page in memory that differs from the file is dirty, or was written
  and not marked. -/
  clean : ∀ e ∈ pool.lru, e.dirty = false → ¬ unmarked e.pageNum →
    pool.pager.file.content e.pageNum = bytes e.pageNum

section Lemmas

variable {pool pool' : BufferPool} {bytes : ℕ → Page} {unmarked : ℕ → Prop} {e e' : PageEntry}
  {p n : ℕ} {ptr : PagePtr} {buf : Page}

theorem mem_resident : p ∈ pool.resident ↔ ∃ e ∈ pool.lru, e.pageNum = p := List.mem_map

/-- A new pool stands for the file. -/
theorem holds_create (pager : Pager) (max : ℕ) :
    Holds pager.file.content (fun _ => False) (create pager max) where
  pages := List.nodup_nil
  nodes := List.nodup_nil
  cache p n := by simp [create]
  past e he := absurd he List.not_mem_nil
  room := Nat.zero_le _
  buffered e he := absurd he List.not_mem_nil
  absent p _ := rfl
  clean e he := absurd he List.not_mem_nil

/-! ## Entries -/

/-- Two entries of one page are one. -/
theorem Indexed.entry_eq (h : Indexed pool) (he : e ∈ pool.lru) (he' : e' ∈ pool.lru)
    (hp : e.pageNum = e'.pageNum) : e = e' := List.inj_on_of_nodup_map h.pages he he' hp

/-- Two entries of one node are one. -/
theorem Indexed.entry_eq_of_node (h : Indexed pool) (he : e ∈ pool.lru) (he' : e' ∈ pool.lru)
    (hn : e.node = e'.node) : e = e' := List.inj_on_of_nodup_map h.nodes he he' hn

/-- The node of an entry is found. -/
theorem Indexed.find_node (h : Indexed pool) (he : e ∈ pool.lru) :
    pool.lru.find? (fun e' => e'.node = e.node) = some e := by
  cases hf : pool.lru.find? (fun e' => e'.node = e.node) with
  | none => simpa using List.find?_eq_none.mp hf e he
  | some e' =>
    have hn : e'.node = e.node := by simpa using List.find?_some hf
    rw [h.entry_eq_of_node (List.mem_of_find?_eq_some hf) he hn]

/-- **A pointer leads into the node of its page** unless the node is
younger. -/
theorem Indexed.target_eq (h : Indexed pool) (he : e ∈ pool.lru) (hp : e.pageNum = ptr.page)
    (ht : e.node ≤ ptr.time) : pool.target ptr = some e := by
  unfold target
  cases hf : pool.lru.find? (fun e => e.pageNum = ptr.page ∧ e.node ≤ ptr.time) with
  | none => simpa [hp, ht] using List.find?_eq_none.mp hf e he
  | some e' =>
    have hn : e'.pageNum = ptr.page ∧ e'.node ≤ ptr.time := by simpa using List.find?_some hf
    rw [h.entry_eq (List.mem_of_find?_eq_some hf) he (hn.1.trans hp.symm)]

/-- The map leads to the entry of a page in memory, -/
theorem Indexed.cache_eq (h : Indexed pool) (he : e ∈ pool.lru) :
    pool.cache e.pageNum = some e.node := (h.cache _ _).mpr ⟨e, he, rfl, rfl⟩

/-- and nowhere for another. -/
theorem Indexed.cache_eq_none (h : Indexed pool) : pool.cache p = none ↔ p ∉ pool.resident := by
  rw [mem_resident, ← Option.not_isSome_iff_eq_none, Option.isSome_iff_exists]
  refine not_congr ⟨?_, ?_⟩
  · rintro ⟨n, hn⟩
    obtain ⟨e, he, hp, -⟩ := (h.cache p n).mp hn
    exact ⟨e, he, hp⟩
  · rintro ⟨e, he, rfl⟩
    exact ⟨e.node, h.cache_eq he⟩

/-! ## Changing an entry -/

/-- A change that keeps a field of the entries keeps it through the list. -/
theorem map_update {f : PageEntry → PageEntry} (field : PageEntry → ℕ)
    (hf : ∀ e, field (f e) = field e) : (pool.update n f).lru.map field = pool.lru.map field := by
  rw [BufferPool.update, List.map_map]
  refine List.map_congr_left (fun e _ => ?_)
  show field (if e.node = n then f e else e) = field e
  split
  · exact hf e
  · rfl

@[simp] theorem resident_fill : (pool.update n (.fill buf)).resident = pool.resident :=
  map_update _ (fun _ => rfl)

@[simp] theorem resident_mark : (pool.update n .mark).resident = pool.resident :=
  map_update _ (fun _ => rfl)

/-- A change to one node keeps the index. -/
theorem Indexed.update (h : Indexed pool) {f : PageEntry → PageEntry}
    (hpage : ∀ e, (f e).pageNum = e.pageNum) (hnode : ∀ e, (f e).node = e.node) :
    Indexed (pool.update n f) := by
  have hkeep : ∀ e, (if e.node = n then f e else e).pageNum = e.pageNum
      ∧ (if e.node = n then f e else e).node = e.node := by
    intro e
    split
    · exact ⟨hpage e, hnode e⟩
    · exact ⟨rfl, rfl⟩
  refine ⟨?_, ?_, fun q k => ?_, ?_, ?_⟩
  · rw [resident, map_update _ hpage]
    exact h.pages
  · rw [map_update _ hnode]
    exact h.nodes
  · refine (h.cache q k).trans ⟨?_, ?_⟩
    · rintro ⟨e, he, hp, hn⟩
      exact ⟨_, List.mem_map_of_mem he, (hkeep e).1.trans hp, (hkeep e).2.trans hn⟩
    · rintro ⟨_, hmem, hp, hn⟩
      obtain ⟨e, he, rfl⟩ := List.mem_map.mp hmem
      exact ⟨e, he, (hkeep e).1.symm.trans hp, (hkeep e).2.symm.trans hn⟩
  · intro _ hmem
    obtain ⟨e, he, rfl⟩ := List.mem_map.mp hmem
    rw [(hkeep e).2]
    exact h.past e he
  · rw [BufferPool.update, List.length_map]
    exact h.room

theorem Indexed.store_eq (h : Indexed pool) (he : e ∈ pool.lru) (hp : e.pageNum = ptr.page)
    (ht : e.node ≤ ptr.time) (buf : Page) :
    pool.store ptr buf = .ok (pool.update e.node (PageEntry.fill buf)) := by
  rw [store, h.target_eq he hp ht]

/-- **A write through a pointer** changes the page. -/
theorem Holds.store (h : Holds bytes unmarked pool) (he : e ∈ pool.lru) (buf : Page) :
    Holds (Function.update bytes e.pageNum buf) (fun q => q = e.pageNum ∨ unmarked q)
      (pool.update e.node (PageEntry.fill buf)) where
  toIndexed := h.toIndexed.update (fun _ => rfl) (fun _ => rfl)
  buffered := by
    intro _ hmem
    obtain ⟨e', he', rfl⟩ := List.mem_map.mp hmem
    split
    case isTrue hn =>
      rw [h.entry_eq_of_node he' he hn]
      exact (Function.update_self e.pageNum buf bytes).symm
    case isFalse hn =>
      have hne : e'.pageNum ≠ e.pageNum := fun hp => hn (by rw [h.entry_eq he' he hp])
      rw [Function.update_of_ne hne]
      exact h.buffered e' he'
  absent := by
    intro q hq
    rw [resident_fill] at hq
    have hne : q ≠ e.pageNum := fun hqe => hq (hqe ▸ List.mem_map_of_mem he)
    rw [Function.update_of_ne hne]
    exact h.absent q hq
  clean := by
    intro _ hmem
    obtain ⟨e', he', rfl⟩ := List.mem_map.mp hmem
    split
    case isTrue hn =>
      intro _ hun
      exact absurd (Or.inl (congrArg PageEntry.pageNum (h.entry_eq_of_node he' he hn))) hun
    case isFalse hn =>
      intro hd hun
      have hne : e'.pageNum ≠ e.pageNum := fun hp => hn (by rw [h.entry_eq he' he hp])
      rw [Function.update_of_ne hne]
      exact h.clean e' he' hd (fun hu => hun (Or.inr hu))

theorem Indexed.markDirty_eq (h : Indexed pool) (he : e ∈ pool.lru) :
    pool.markDirty e.pageNum = .ok (pool.update e.node PageEntry.mark) := by
  simp only [BufferPool.markDirty, h.cache_eq he, h.find_node he]

/-- **Marking a page** in memory dirty. -/
theorem Holds.markDirty (h : Holds bytes unmarked pool) (he : e ∈ pool.lru) :
    Holds bytes (fun q => q ≠ e.pageNum ∧ unmarked q)
      (pool.update e.node PageEntry.mark) where
  toIndexed := h.toIndexed.update (fun _ => rfl) (fun _ => rfl)
  buffered := by
    intro _ hmem
    obtain ⟨e', he', rfl⟩ := List.mem_map.mp hmem
    split <;> exact h.buffered e' he'
  absent := by
    intro q hq
    rw [resident_mark] at hq
    exact h.absent q hq
  clean := by
    intro _ hmem
    obtain ⟨e', he', rfl⟩ := List.mem_map.mp hmem
    split
    case isTrue hn => exact fun hd => absurd hd Bool.true_eq_false_eq_False
    case isFalse hn =>
      intro hd hun
      have hne : e'.pageNum ≠ e.pageNum := fun hp => hn (by rw [h.entry_eq he' he hp])
      exact h.clean e' he' hd (fun hu => hun ⟨hne, hu⟩)

/-- The map and the list agree on a page that is not in memory. -/
theorem Indexed.markDirty_eq_error (h : Indexed pool) (hp : p ∉ pool.resident) :
    pool.markDirty p = .error .danglingPointer := by
  simp only [BufferPool.markDirty, h.cache_eq_none.mpr hp]

/-! ## Requests -/

/-- The pool after a page in memory was requested. -/
def hit (pool : BufferPool) (e : PageEntry) : BufferPool :=
  { pool with
    lru := e :: pool.lru.filter (fun e' => e'.node ≠ e.node)
    nextPageId := bumpPageId e.pageNum pool.nextPageId
    clock := pool.clock + 1 }

/-- The pool after a page was read into memory. -/
def read (pool : BufferPool) (p : ℕ) : BufferPool :=
  { pool.pushFront p with
    nextPageId := bumpPageId p pool.nextPageId
    clock := pool.clock + 1 }

/-- The pool after its last entry was dropped. -/
def dropped (pool : BufferPool) (rest : List PageEntry) (e : PageEntry) : BufferPool :=
  { pool with
    pager := flushEntry pool.pager e
    cache := Function.update pool.cache e.pageNum none
    lru := rest }

/-- **What a request does**: it finds the page, reads it where there is room,
or reads it after the last entry was dropped. -/
theorem Indexed.getPage_cases (h : Indexed pool) (hmax : 1 ≤ pool.maxPages) (p : ℕ) :
    (∃ e ∈ pool.lru, e.pageNum = p ∧ pool.getPage p = .ok (⟨p, pool.clock⟩, pool.hit e))
    ∨ (p ∉ pool.resident ∧ pool.lru.length < pool.maxPages
      ∧ pool.getPage p = .ok (⟨p, pool.clock⟩, pool.read p))
    ∨ (p ∉ pool.resident ∧ ∃ rest e, pool.lru = rest ++ [e] ∧ pool.maxPages = rest.length + 1
      ∧ pool.getPage p = .ok (⟨p, pool.clock⟩, (pool.dropped rest e).read p)) := by
  by_cases hp : p ∈ pool.resident
  · obtain ⟨e, he, rfl⟩ := mem_resident.mp hp
    refine Or.inl ⟨e, he, rfl, ?_⟩
    simp only [getPage, h.cache_eq he, splice, h.find_node he]
    rfl
  · have hnone := h.cache_eq_none.mpr hp
    refine Or.inr ?_
    by_cases hroom : pool.lru.length < pool.maxPages
    · refine Or.inl ⟨hp, hroom, ?_⟩
      simp only [getPage, hnone, if_neg (Nat.not_le.mpr hroom)]
      rfl
    · have hne : pool.lru ≠ [] := fun hnil => hroom (by rw [hnil]; exact hmax)
      have hsplit := (List.dropLast_append_getLast hne).symm
      refine Or.inr ⟨hp, pool.lru.dropLast, pool.lru.getLast hne, hsplit, ?_, ?_⟩
      · have hlen := congrArg List.length hsplit
        rw [List.length_append, List.length_singleton] at hlen
        have hle := h.room
        omega
      · simp only [getPage, hnone, if_pos (Nat.not_lt.mp hroom), evict,
          List.getLast?_eq_getLast_of_ne_nil hne]
        rfl

/-- A page found moves to the front. -/
theorem Indexed.resident_hit (h : Indexed pool) (he : e ∈ pool.lru) :
    (pool.hit e).resident = Recency.touch pool.maxPages e.pageNum pool.resident := by
  rw [Recency.touch, if_pos (mem_resident.mpr ⟨e, he, rfl⟩)]
  show e.pageNum :: (pool.lru.filter _).map _ = _
  rw [resident, List.filter_map]
  refine congrArg (fun l => e.pageNum :: List.map PageEntry.pageNum l)
    (List.filter_congr (fun e' he' => decide_eq_decide.mpr
      (not_congr ⟨fun hn => ?_, fun hp => ?_⟩)))
  · rw [h.entry_eq_of_node he' he hn]
  · rw [h.entry_eq he' he hp]

/-- An entry of the list is still in it. -/
theorem mem_hit (he : e ∈ pool.lru) : e' ∈ (pool.hit e).lru → e' ∈ pool.lru := by
  intro hmem
  rcases List.mem_cons.mp hmem with rfl | hmem
  · exact he
  · exact (List.mem_filter.mp hmem).1

theorem Indexed.mem_hit_iff (h : Indexed pool) (he : e ∈ pool.lru) :
    e' ∈ (pool.hit e).lru ↔ e' ∈ pool.lru := by
  refine ⟨mem_hit he, fun he' => ?_⟩
  by_cases hn : e'.node = e.node
  · rw [h.entry_eq_of_node he' he hn]
    exact List.mem_cons_self
  · exact List.mem_cons_of_mem _ (List.mem_filter.mpr ⟨he', by simpa using hn⟩)

theorem Indexed.hit (h : Indexed pool) (he : e ∈ pool.lru) : Indexed (pool.hit e) where
  pages := by
    rw [h.resident_hit he, Recency.touch, if_pos (mem_resident.mpr ⟨e, he, rfl⟩)]
    exact List.nodup_cons.mpr ⟨by simp, h.pages.filter _⟩
  nodes := by
    refine List.nodup_cons.mpr ⟨fun hmem => ?_, h.nodes.sublist
      (List.Sublist.map _ List.filter_sublist)⟩
    obtain ⟨e', he', hn⟩ := List.mem_map.mp hmem
    simpa [hn] using (List.mem_filter.mp he').2
  cache q k := by
    refine (h.cache q k).trans ⟨?_, ?_⟩
    · rintro ⟨e', he', hk⟩
      exact ⟨e', (h.mem_hit_iff he).mpr he', hk⟩
    · rintro ⟨e', he', hk⟩
      exact ⟨e', mem_hit he he', hk⟩
  past e' he' := Nat.lt_succ_of_lt (h.past e' (mem_hit he he'))
  room := by
    refine le_trans ?_ h.room
    have hcut := Recency.length_filter_ne h.nodes (List.mem_map_of_mem he)
    rw [List.filter_map, List.length_map, List.length_map] at hcut
    exact hcut.le

/-- **A page found** is what it was. -/
theorem Holds.hit (h : Holds bytes unmarked pool) (he : e ∈ pool.lru) :
    Holds bytes unmarked (pool.hit e) where
  toIndexed := h.toIndexed.hit he
  buffered e' he' := h.buffered e' (mem_hit he he')
  absent q hq := by
    refine h.absent q (fun hmem => hq ?_)
    obtain ⟨e', he', hp⟩ := mem_resident.mp hmem
    exact mem_resident.mpr ⟨e', (h.mem_hit_iff he).mpr he', hp⟩
  clean e' he' := h.clean e' (mem_hit he he')

/-- **A page read** is what the file holds. -/
theorem Indexed.read (h : Indexed pool) (hp : p ∉ pool.resident)
    (hroom : pool.lru.length < pool.maxPages) : Indexed (pool.read p) where
  pages := List.nodup_cons.mpr ⟨hp, h.pages⟩
  nodes := by
    refine List.nodup_cons.mpr ⟨fun hmem => ?_, h.nodes⟩
    obtain ⟨e, he, hn⟩ := List.mem_map.mp hmem
    exact absurd (h.past e he) (by rw [hn]; exact lt_irrefl _)
  cache q k := by
    show Function.update pool.cache p (some pool.clock) q = some k
      ↔ ∃ e ∈ PageEntry.mk pool.clock p _ false :: pool.lru, e.pageNum = q ∧ e.node = k
    rw [List.exists_mem_cons_iff]
    by_cases hq : q = p
    · subst hq
      rw [Function.update_self, Option.some_inj]
      refine ⟨fun hk => Or.inl ⟨rfl, hk⟩, ?_⟩
      rintro (⟨-, hk⟩ | ⟨e, he, hq, -⟩)
      · exact hk
      · exact absurd (mem_resident.mpr ⟨e, he, hq⟩) hp
    · rw [Function.update_of_ne hq, h.cache]
      exact (or_iff_right (fun hk => hq hk.1.symm)).symm
  past e he := by
    rcases List.mem_cons.mp he with rfl | he
    · exact Nat.lt_succ_self _
    · exact Nat.lt_succ_of_lt (h.past e he)
  room := hroom

theorem Holds.read (h : Holds bytes unmarked pool) (hp : p ∉ pool.resident)
    (hroom : pool.lru.length < pool.maxPages) : Holds bytes unmarked (pool.read p) where
  toIndexed := h.toIndexed.read hp hroom
  buffered e he := by
    rcases List.mem_cons.mp he with rfl | he
    · exact h.absent p hp
    · exact h.buffered e he
  absent q hq := h.absent q (fun hmem => hq (List.mem_cons_of_mem _ hmem))
  clean e he := by
    rcases List.mem_cons.mp he with rfl | he
    · exact fun _ _ => h.absent p hp
    · exact h.clean e he

/-! ## Writing back -/

/-- What the file holds after a page was written back. -/
theorem content_flushEntry (pager : Pager) (e : PageEntry) (q : ℕ) :
    (flushEntry pager e).file.content q
      = if e.dirty ∧ q = e.pageNum then e.buffer else pager.file.content q := by
  unfold flushEntry
  by_cases hd : e.dirty
  · rw [if_pos hd]
    by_cases hq : q = e.pageNum
    · rw [if_pos ⟨hd, hq⟩, hq]
      exact PageFile.content_write_same ..
    · rw [if_neg (fun h => hq h.2)]
      exact PageFile.content_write_of_ne _ _ hq
  · rw [if_neg hd, if_neg (fun h => hd h.1)]

theorem Indexed.dropped (h : Indexed pool) {rest : List PageEntry} (hl : pool.lru = rest ++ [e]) :
    Indexed (pool.dropped rest e) := by
  have hpages := h.pages
  have hnodes := h.nodes
  have hroom := h.room
  rw [resident, hl, List.map_append] at hpages
  rw [hl, List.map_append] at hnodes
  rw [hl, List.length_append] at hroom
  have hne : ∀ e' ∈ rest, e'.pageNum ≠ e.pageNum := fun e' he' heq =>
    (List.nodup_append.mp hpages).2.2 _ (List.mem_map_of_mem he') e.pageNum (by simp) heq
  refine ⟨(List.nodup_append.mp hpages).1, (List.nodup_append.mp hnodes).1, fun q k => ?_,
    fun e' he' => h.past e' (by rw [hl]; exact List.mem_append_left _ he'), by
      exact (Nat.le_add_right _ _).trans hroom⟩
  show Function.update pool.cache e.pageNum none q = some k ↔ ∃ e' ∈ rest, _
  by_cases hq : q = e.pageNum
  · rw [hq, Function.update_self]
    refine iff_of_false (by simp) ?_
    rintro ⟨e', he', hp, -⟩
    exact hne e' he' hp
  · rw [Function.update_of_ne hq, h.cache, hl]
    refine ⟨?_, ?_⟩
    · rintro ⟨e', he', hp, hk⟩
      rcases List.mem_append.mp he' with he' | he'
      · exact ⟨e', he', hp, hk⟩
      · rw [List.mem_singleton.mp he'] at hp
        exact absurd hp.symm hq
    · rintro ⟨e', he', hk⟩
      exact ⟨e', List.mem_append_left _ he', hk⟩

/-- **The last entry is dropped** without loss if its page was not written
since it was marked. -/
theorem Holds.dropped (h : Holds bytes unmarked pool) {rest : List PageEntry}
    (hl : pool.lru = rest ++ [e]) (hun : ¬ unmarked e.pageNum) :
    Holds bytes unmarked (pool.dropped rest e) := by
  have he : e ∈ pool.lru := by rw [hl]; exact List.mem_append_right _ List.mem_cons_self
  have hrest : ∀ e' ∈ rest, e' ∈ pool.lru := fun e' he' => by
    rw [hl]
    exact List.mem_append_left _ he'
  have hpages := h.pages
  rw [resident, hl, List.map_append] at hpages
  have hne : ∀ e' ∈ rest, e'.pageNum ≠ e.pageNum := fun e' he' heq =>
    (List.nodup_append.mp hpages).2.2 _ (List.mem_map_of_mem he') e.pageNum (by simp) heq
  refine ⟨h.toIndexed.dropped hl, fun e' he' => h.buffered e' (hrest e' he'), fun q hq => ?_,
    fun e' he' hd hu => ?_⟩
  · show (flushEntry pool.pager e).file.content q = _
    rw [content_flushEntry]
    split
    case isTrue hw => rw [hw.2, h.buffered e he]
    case isFalse hw =>
      by_cases hqe : q = e.pageNum
      · rw [hqe]
        exact h.clean e he (by simpa using fun hd => hw ⟨hd, hqe⟩) hun
      · refine h.absent q (fun hmem => ?_)
        obtain ⟨e', he', hp⟩ := mem_resident.mp hmem
        rw [hl] at he'
        rcases List.mem_append.mp he' with he' | he'
        · exact hq (mem_resident.mpr ⟨e', he', hp⟩)
        · rw [List.mem_singleton.mp he'] at hp
          exact hqe hp.symm
  · show (flushEntry pool.pager e).file.content e'.pageNum = _
    rw [content_flushEntry, if_neg (fun hw => hne e' he' hw.2)]
    exact h.clean e' (hrest e' he') hd hu

/-- **What the file holds** after a list of entries was written back. -/
theorem content_foldl_flushEntry : ∀ (l : List PageEntry) (pager : Pager),
    (∀ e ∈ l, e.buffer = bytes e.pageNum) → ∀ q,
    (l.foldl flushEntry pager).file.content q
      = if ∃ e ∈ l, e.dirty = true ∧ e.pageNum = q then bytes q else pager.file.content q
  | [], pager, _, q => by simp
  | e :: l, pager, hl, q => by
    rw [List.foldl_cons, content_foldl_flushEntry l _ (fun e' he' => hl e' (.tail _ he')),
      content_flushEntry, hl e List.mem_cons_self]
    by_cases he : e.dirty = true ∧ e.pageNum = q
    · obtain ⟨hd, rfl⟩ := he
      rw [if_pos (show e.dirty = true ∧ e.pageNum = e.pageNum from ⟨hd, rfl⟩), ite_self,
        if_pos ⟨e, List.mem_cons_self, hd, rfl⟩]
    · rw [if_neg (show ¬ (e.dirty = true ∧ q = e.pageNum) from fun hw => he ⟨hw.1, hw.2.symm⟩)]
      refine if_congr ?_ rfl rfl
      rw [List.exists_mem_cons_iff, or_iff_right he]

theorem Holds.content_flushAll (h : Holds bytes unmarked pool) (q : ℕ) :
    pool.flushAll.pager.file.content q
      = if ∃ e ∈ pool.lru, e.dirty = true ∧ e.pageNum = q then bytes q
        else pool.pager.file.content q :=
  content_foldl_flushEntry pool.lru pool.pager h.buffered q

/-- **After `flush_all` the file holds the pages**, but for those written and
not marked since. -/
theorem Holds.content_flushAll_of_not (h : Holds bytes unmarked pool) (hp : ¬ unmarked p) :
    pool.flushAll.pager.file.content p = bytes p := by
  rw [h.content_flushAll]
  split
  case isTrue => rfl
  case isFalse hd =>
    by_cases hmem : p ∈ pool.resident
    · obtain ⟨e, he, rfl⟩ := mem_resident.mp hmem
      exact h.clean e he (by simpa using fun hdirty => hd ⟨e, he, hdirty, rfl⟩) hp
    · exact h.absent p hmem

/-- `flush_all` changes nothing but the file. -/
theorem Holds.flushAll (h : Holds bytes unmarked pool) :
    Holds bytes unmarked pool.flushAll where
  pages := h.pages
  nodes := h.nodes
  cache := h.cache
  past := h.past
  room := h.room
  buffered := h.buffered
  absent q hq := by
    rw [h.content_flushAll, if_neg (fun ⟨e, he, _, hp⟩ => hq (mem_resident.mpr ⟨e, he, hp⟩))]
    exact h.absent q hq
  clean e he hd hun := h.content_flushAll_of_not hun

/-! ## Requests, as a whole -/

/-- A pointer leads into a buffer. -/
def Live (pool : BufferPool) (ptr : PagePtr) : Prop :=
  ∃ e ∈ pool.lru, e.pageNum = ptr.page ∧ e.node ≤ ptr.time

/-- **A pool after a request** for page `p`. -/
structure Served (p : ℕ) (pool pool' : BufferPool) : Prop where
  /-- The page moved to the front of the pages in memory. -/
  resident : pool'.resident = Recency.touch pool.maxPages p pool.resident
  /-- The pointer returned leads into its buffer, -/
  live : pool'.Live ⟨p, pool.clock⟩
  /-- and other pointers do while their pages stay in memory. -/
  keeps : ∀ ptr, pool.Live ptr → ptr.page ∈ pool'.resident → pool'.Live ptr
  maxPages : pool'.maxPages = pool.maxPages
  nextPageId : pool'.nextPageId = bumpPageId p pool.nextPageId
  clock : pool'.clock = pool.clock + 1

theorem Indexed.served_hit (h : Indexed pool) (he : e ∈ pool.lru) :
    Served e.pageNum pool (pool.hit e) :=
  ⟨h.resident_hit he, ⟨e, List.mem_cons_self, rfl, (h.past e he).le⟩,
    fun _ ⟨e', he', hl⟩ _ => ⟨e', (h.mem_hit_iff he).mpr he', hl⟩, rfl, rfl, rfl⟩

theorem served_read (hp : p ∉ pool.resident) (hroom : pool.lru.length < pool.maxPages) :
    Served p pool (pool.read p) := by
  refine ⟨?_, ⟨_, List.mem_cons_self, rfl, le_rfl⟩,
    fun _ ⟨e, he, hl⟩ _ => ⟨e, List.mem_cons_of_mem _ he, hl⟩, rfl, rfl, rfl⟩
  rw [Recency.touch, if_neg hp, if_neg (by rw [BufferPool.resident, List.length_map]; omega)]
  rfl

/-- The page dropped is not in memory afterwards. -/
theorem Indexed.notMem_dropped (h : Indexed pool) {rest : List PageEntry}
    (hp : p ∉ pool.resident) (hl : pool.lru = rest ++ [e]) :
    e.pageNum ∉ ((pool.dropped rest e).read p).resident := by
  have hpages := h.pages
  rw [BufferPool.resident, hl, List.map_append] at hpages
  intro hmem
  rcases List.mem_cons.mp hmem with heq | hmem
  · exact hp (mem_resident.mpr ⟨e, by simp [hl], heq⟩)
  · exact (List.nodup_append.mp hpages).2.2 _ hmem e.pageNum (by simp) rfl

theorem Indexed.served_dropped (h : Indexed pool) {rest : List PageEntry}
    (hp : p ∉ pool.resident) (hl : pool.lru = rest ++ [e])
    (hmax : pool.maxPages = rest.length + 1) :
    Served p pool ((pool.dropped rest e).read p) := by
  refine ⟨?_, ⟨_, List.mem_cons_self, rfl, le_rfl⟩, ?_, rfl, rfl, rfl⟩
  · rw [Recency.touch, if_neg hp, if_pos (by rw [BufferPool.resident, hl]; simp [hmax]),
      BufferPool.resident, BufferPool.resident, hl, List.map_append, List.map_singleton,
      List.dropLast_concat]
    rfl
  · rintro ptr ⟨e', he', hpage, htime⟩ hmem
    rw [hl] at he'
    rcases List.mem_append.mp he' with he' | he'
    · exact ⟨e', List.mem_cons_of_mem _ he', hpage, htime⟩
    · rw [List.mem_singleton.mp he'] at hpage
      exact absurd (hpage ▸ hmem) (h.notMem_dropped hp hl)

/-- **A request is served**, without loss if the page dropped for it was not
written since it was marked. -/
theorem Holds.runs_getPage (h : Holds bytes unmarked pool) (hmax : 1 ≤ pool.maxPages) (p : ℕ)
    (hsafe : ∀ q ∈ pool.resident, q ∉ Recency.touch pool.maxPages p pool.resident →
      ¬ unmarked q) :
    ∃ pool', pool.getPage p = .ok (⟨p, pool.clock⟩, pool') ∧ Holds bytes unmarked pool'
      ∧ Served p pool pool' := by
  rcases h.getPage_cases hmax p with ⟨e, he, rfl, hrun⟩ | ⟨hp, hroom, hrun⟩
    | ⟨hp, rest, e, hl, hmax', hrun⟩
  · exact ⟨_, hrun, h.hit he, h.served_hit he⟩
  · exact ⟨_, hrun, h.read hp hroom, served_read hp hroom⟩
  · have hserved := h.served_dropped hp hl hmax'
    have hlast : ¬ unmarked e.pageNum := by
      refine hsafe e.pageNum (mem_resident.mpr ⟨e, by simp [hl], rfl⟩) ?_
      rw [← hserved.resident]
      exact h.notMem_dropped hp hl
    refine ⟨_, hrun, (h.dropped hl hlast).read (fun hmem => hp ?_) ?_, hserved⟩
    · obtain ⟨e', he', hpage⟩ := mem_resident.mp hmem
      exact mem_resident.mpr ⟨e', by rw [hl]; exact List.mem_append_left _ he', hpage⟩
    · show rest.length < pool.maxPages
      omega

/-- Reading through a pointer into a buffer. -/
theorem Holds.load_of_live (h : Holds bytes unmarked pool) (hl : pool.Live ptr) :
    pool.load ptr = .ok (bytes ptr.page) := by
  obtain ⟨e, he, hp, ht⟩ := hl
  rw [load, h.target_eq he hp ht, ← hp, ← h.buffered e he]

/-- **A pool after a change to one entry.** -/
structure Changed (pool pool' : BufferPool) : Prop where
  resident : pool'.resident = pool.resident
  live : ∀ ptr, pool.Live ptr → pool'.Live ptr
  maxPages : pool'.maxPages = pool.maxPages
  nextPageId : pool'.nextPageId = pool.nextPageId
  clock : pool'.clock = pool.clock

theorem changed_update {f : PageEntry → PageEntry} (hpage : ∀ e, (f e).pageNum = e.pageNum)
    (hnode : ∀ e, (f e).node = e.node) : Changed pool (pool.update n f) := by
  refine ⟨map_update _ hpage, ?_, rfl, rfl, rfl⟩
  rintro ptr ⟨e, he, hp, ht⟩
  refine ⟨_, List.mem_map_of_mem he, ?_⟩
  split
  · rw [hpage, hnode]
    exact ⟨hp, ht⟩
  · exact ⟨hp, ht⟩

/-- **Writing through a pointer** into a buffer. -/
theorem Holds.runs_store (h : Holds bytes unmarked pool) (hl : pool.Live ptr) (buf : Page) :
    ∃ pool', pool.store ptr buf = .ok pool'
      ∧ Holds (Function.update bytes ptr.page buf) (fun q => q = ptr.page ∨ unmarked q) pool'
      ∧ Changed pool pool' := by
  obtain ⟨e, he, hp, ht⟩ := hl
  refine ⟨_, h.store_eq he hp ht buf, ?_, changed_update (fun _ => rfl) (fun _ => rfl)⟩
  rw [← hp]
  exact h.store he buf

/-- **Marking a page** in memory dirty. -/
theorem Holds.runs_markDirty (h : Holds bytes unmarked pool) (hp : p ∈ pool.resident) :
    ∃ pool', pool.markDirty p = .ok pool' ∧ Holds bytes (fun q => q ≠ p ∧ unmarked q) pool'
      ∧ Changed pool pool' := by
  obtain ⟨e, he, rfl⟩ := mem_resident.mp hp
  exact ⟨_, h.markDirty_eq he, h.markDirty he, changed_update (fun _ => rfl) (fun _ => rfl)⟩

/-- A pointer just obtained leads into the buffer of a page in memory. -/
theorem Indexed.live_of_mem (h : Indexed pool) (hp : p ∈ pool.resident) :
    pool.Live ⟨p, pool.clock⟩ := by
  obtain ⟨e, he, rfl⟩ := mem_resident.mp hp
  exact ⟨e, he, rfl, (h.past e he).le⟩

end Lemmas

end BufferPool
