import SqlMini.BufferPool

/-!
# Traces of a buffer pool

Whatever is requested of a pool, in whatever order: a page is what was last
written to it, the pages in memory are those requested last, and `flush_all`
brings the file up to date (`serveAll_caches`). What the pool may rely on is
that a write goes into the buffer of a page that is still in memory, and that
the page is marked dirty before a request drops it.

A flush between a write and its mark is within that, and does not see the
write (`not_flushed`): `flush_all` writes back what is marked, so the file is
up to date but for the pages written and not marked since.
-/

namespace BufferPool

/-- **A request of a trace.** -/
inductive Request where
  /-- `get_page`. -/
  | getPage (p : ℕ)
  /-- New bytes in the buffer of a page. -/
  | write (p : ℕ) (buf : Page)
  /-- `mark_dirty`. -/
  | markDirty (p : ℕ)
  /-- `flush_all`. -/
  | flushAll

/-- Serving a request. A write goes through a pointer just obtained. -/
def serve (pool : BufferPool) : Request → Except Fault BufferPool
  | .getPage p => do
    let (_, pool') ← pool.getPage p
    pure pool'
  | .write p buf => pool.store ⟨p, pool.clock⟩ buf
  | .markDirty p => pool.markDirty p
  | .flushAll => pure pool.flushAll

/-- Serving the requests of a trace. -/
def serveAll (pool : BufferPool) : List Request → Except Fault BufferPool
  | [] => pure pool
  | r :: tr => do
    let pool' ← pool.serve r
    pool'.serveAll tr

/-! ## What a trace says about the pages -/

/-- **What a trace says**, without any pool. -/
structure History where
  /-- The bytes last written to each page. -/
  bytes : ℕ → Page
  /-- The pages written and not marked dirty since. -/
  unmarked : ℕ → Prop
  /-- The pages requested, latest first. -/
  requested : List ℕ

namespace History

/-- Before the first request the bytes are those of the file. -/
def start (f : PageFile) : History := ⟨f.content, fun _ => False, []⟩

/-- One request more. -/
def after (hist : History) : Request → History
  | .getPage p => { hist with requested := p :: hist.requested }
  | .write p buf => { hist with
      bytes := Function.update hist.bytes p buf
      unmarked := fun q => q = p ∨ hist.unmarked q }
  | .markDirty p => { hist with unmarked := fun q => q ≠ p ∧ hist.unmarked q }
  | .flushAll => hist

/-- A trace more. -/
def afterAll (hist : History) (tr : List Request) : History := tr.foldl after hist

/-- The pages in memory: those requested last. -/
def resident (hist : History) (m : ℕ) : List ℕ := Recency.window m hist.requested

/-- **What the pool may rely on**: a page written or marked is in memory, and
a page dropped by a request was marked after it was written. -/
def Allows (m : ℕ) (hist : History) : Request → Prop
  | .getPage p => ∀ q ∈ hist.resident m, q ∉ (hist.after (.getPage p)).resident m →
      ¬ hist.unmarked q
  | .write p _ => p ∈ hist.resident m
  | .markDirty p => p ∈ hist.resident m
  | .flushAll => True

/-- Every request of a trace is one the pool may rely on. -/
def AllowsAll (m : ℕ) : History → List Request → Prop
  | _, [] => True
  | hist, r :: tr => hist.Allows m r ∧ AllowsAll m (hist.after r) tr

end History

/-! ## Running a trace -/

/-- **A pool is where a trace has brought it.** -/
structure Follows (m : ℕ) (hist : History) (pool : BufferPool) : Prop
    extends Holds hist.bytes hist.unmarked pool where
  recent : pool.resident = hist.resident m
  capacity : pool.maxPages = m

variable {m p : ℕ} {hist : History} {pool : BufferPool} {r : Request}

theorem follows_create (f : PageFile) (m : ℕ) :
    Follows m (.start f) (create (Pager.open f) m) :=
  ⟨holds_create (Pager.open f) m, List.take_nil.symm, rfl⟩

/-- What a request for a page does. -/
theorem Follows.runs_getPage (h : Follows m hist pool) (hm : 1 ≤ m)
    (hallow : hist.Allows m (.getPage p)) :
    ∃ pool', pool.getPage p = .ok (⟨p, pool.clock⟩, pool')
      ∧ Follows m (hist.after (.getPage p)) pool' ∧ Served p pool pool' := by
  have htouch : Recency.touch pool.maxPages p pool.resident
      = (hist.after (.getPage p)).resident m := by
    rw [h.capacity, h.recent]
    exact (Recency.window_cons hm p _).symm
  obtain ⟨pool', hrun, hholds, hserved⟩ := h.toHolds.runs_getPage (by rw [h.capacity]; exact hm) p
    (by rw [htouch, h.recent]; exact hallow)
  exact ⟨pool', hrun, ⟨hholds, hserved.resident.trans htouch, hserved.maxPages.trans h.capacity⟩,
    hserved⟩

/-- **One request** keeps a pool in step with its trace. -/
theorem Follows.runs_serve (h : Follows m hist pool) (hm : 1 ≤ m) (hallow : hist.Allows m r) :
    ∃ pool', pool.serve r = .ok pool' ∧ Follows m (hist.after r) pool' := by
  cases r with
  | getPage p =>
    obtain ⟨pool', hrun, hfollows, -⟩ := h.runs_getPage hm hallow
    exact ⟨pool', by rw [serve, hrun]; rfl, hfollows⟩
  | write p buf =>
    have hp : p ∈ pool.resident := by
      rw [h.recent]
      exact hallow
    obtain ⟨pool', hrun, hholds, hchanged⟩ := h.toHolds.runs_store (h.live_of_mem hp) buf
    exact ⟨pool', hrun, hholds, hchanged.resident.trans h.recent,
      hchanged.maxPages.trans h.capacity⟩
  | markDirty p =>
    have hp : p ∈ pool.resident := by
      rw [h.recent]
      exact hallow
    obtain ⟨pool', hrun, hholds, hchanged⟩ := h.toHolds.runs_markDirty hp
    exact ⟨pool', hrun, hholds, hchanged.resident.trans h.recent,
      hchanged.maxPages.trans h.capacity⟩
  | flushAll => exact ⟨pool.flushAll, rfl, h.toHolds.flushAll, h.recent, h.capacity⟩

/-- **A trace** keeps a pool in step with it. -/
theorem Follows.runs_serveAll (hm : 1 ≤ m) : ∀ (tr : List Request) (hist : History)
    (pool : BufferPool), Follows m hist pool → hist.AllowsAll m tr →
    ∃ pool', pool.serveAll tr = .ok pool' ∧ Follows m (hist.afterAll tr) pool'
  | [], _, pool, h, _ => ⟨pool, rfl, h⟩
  | r :: tr, hist, pool, h, hallow => by
    obtain ⟨pool₁, hrun, h₁⟩ := h.runs_serve hm hallow.1
    obtain ⟨pool₂, hrun', h₂⟩ := runs_serveAll hm tr _ pool₁ h₁ hallow.2
    exact ⟨pool₂, by rw [serveAll, hrun]; exact hrun', h₂⟩

/-! ## A write-back cache -/

/-- **A pool is a cache** of `m` pages for the bytes a trace leaves. -/
structure Caches (m : ℕ) (hist : History) (pool : BufferPool) : Prop where
  /-- The list has each page once, -/
  nodup : pool.resident.Nodup
  /-- at most `m` of them, -/
  bounded : pool.lru.length ≤ m
  /-- and the map leads to their nodes and nowhere else. -/
  index : ∀ p n, pool.cache p = some n ↔ ∃ e ∈ pool.lru, e.pageNum = p ∧ e.node = n
  /-- The pages in memory are those requested last. -/
  recent : pool.resident = hist.resident m
  /-- A request returns the bytes last written to the page, and drops the
  page whose last request is the oldest. -/
  get : ∀ p, hist.Allows m (.getPage p) → ∃ ptr pool', pool.getPage p = .ok (ptr, pool')
    ∧ pool'.load ptr = .ok (hist.bytes p)
    ∧ ∀ q ∈ pool.resident, q ∉ pool'.resident → ∀ q' ∈ pool.resident, q' ≠ q →
      hist.requested.idxOf q' < hist.requested.idxOf q
  /-- After `flush_all` the file holds the bytes last written, but for pages
  not marked since. -/
  flush : ∀ p, ¬ hist.unmarked p → pool.flushAll.pager.file.content p = hist.bytes p

theorem Follows.caches (h : Follows m hist pool) (hm : 1 ≤ m) : Caches m hist pool where
  nodup := h.pages
  bounded := h.room.trans h.capacity.le
  index := h.cache
  recent := h.recent
  get p hallow := by
    obtain ⟨pool', hrun, hfollows, hserved⟩ := h.runs_getPage hm hallow
    refine ⟨_, pool', hrun, hfollows.load_of_live hserved.live, fun q hq hdrop q' hq' hne => ?_⟩
    rw [hserved.resident, h.capacity, h.recent] at hdrop
    rw [h.recent] at hq hq'
    exact Recency.idxOf_lt_of_dropped hq hdrop hq' hne
  flush p hp := h.content_flushAll_of_not hp

/-- **The pool is a write-back cache** over every trace. -/
theorem serveAll_caches (f : PageFile) (hm : 1 ≤ m) {tr : List Request}
    (hallow : (History.start f).AllowsAll m tr) :
    ∃ pool, (create (Pager.open f) m).serveAll tr = .ok pool
      ∧ Caches m ((History.start f).afterAll tr) pool := by
  obtain ⟨pool, hrun, h⟩ := Follows.runs_serveAll hm tr _ _ (follows_create f m) hallow
  exact ⟨pool, hrun, h.caches hm⟩

/-- A page of ones. -/
def onesPage : Page := ⟨fun _ => 1⟩

/-- A page is written, marked, dropped for another and read again. -/
theorem serveAll_caches_reread :
    ∃ pool, (create (Pager.open .empty) 1).serveAll [.getPage 0, .write 0 onesPage,
        .markDirty 0, .getPage 1, .getPage 0] = .ok pool
      ∧ Caches 1 ((History.start .empty).afterAll [.getPage 0, .write 0 onesPage,
        .markDirty 0, .getPage 1, .getPage 0]) pool :=
  serveAll_caches .empty le_rfl (by
    simp [History.AllowsAll, History.Allows, History.resident, History.after, History.start,
      Recency.window, Recency.order])

/-- **A flush before the mark** does not see the write. -/
theorem not_flushed :
    (History.start .empty).AllowsAll 1
        [.getPage 0, .write 0 onesPage, .flushAll, .markDirty 0]
      ∧ (∀ p, ¬ ((History.start .empty).afterAll
        [.getPage 0, .write 0 onesPage, .flushAll, .markDirty 0]).unmarked p)
      ∧ ∃ pool, (create (Pager.open .empty) 1).serveAll
          [.getPage 0, .write 0 onesPage, .flushAll] = .ok pool
        ∧ pool.pager.file.content 0 ≠ ((History.start .empty).afterAll
          [.getPage 0, .write 0 onesPage, .flushAll]).bytes 0 := by
  refine ⟨?_, ?_, _, rfl, ?_⟩
  · simp [History.AllowsAll, History.Allows, History.resident, History.after, History.start,
      Recency.window, Recency.order]
  · rintro p ⟨hne, heq | hstart⟩
    · exact hne heq
    · exact hstart
  · intro heq
    have hbyte : (0 : UInt8) = 1 := congrFun (congrArg Buffer.byteAt heq) 0
    exact absurd hbyte (by decide)

end BufferPool
