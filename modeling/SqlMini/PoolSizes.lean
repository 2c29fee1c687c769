import SqlMini.PoolTraces

/-!
# Pools of different sizes

Of two pools on one file, given the same requests, the larger one has all pages
in memory that the smaller one has, and in the same places: they are the first
ones of its list. So a trace that the smaller pool may be given may be given to
the larger one, where it reads pages from the file no more often
(`moreFrames_fetch_less`). A pool that drops another page than the one requested
longest ago need not have that property.
-/

namespace Recency

variable {α : Type} [DecidableEq α] {m m' : ℕ}

/-- **The entries used last** are the first ones of more entries used last. -/
theorem window_le (hle : m ≤ m') (h : List α) : window m h <+: window m' h := by
  unfold window
  rw [← Nat.min_eq_left hle, ← List.take_take]
  exact List.take_prefix _ _

theorem window_subset (hle : m ≤ m') (h : List α) : window m h ⊆ window m' h :=
  (window_le hle h).subset

end Recency

namespace BufferPool

variable {m m' p q : ℕ} {hist : History} {pool small large : BufferPool} {r : Request}

/-- A request reads a page from the file. -/
def fetches (pool : BufferPool) : Request → ℕ
  | .getPage p => if pool.cache p = none then 1 else 0
  | _ => 0

/-- **How often a trace reads a page from the file.** -/
def fetchesAll (pool : BufferPool) : List Request → ℕ
  | [] => 0
  | r :: tr => pool.fetches r + match pool.serve r with
    | .error _ => 0
    | .ok pool' => pool'.fetchesAll tr

namespace History

/-- **The pages written and not marked** are in memory. -/
def Pinned (m : ℕ) (hist : History) : Prop := ∀ p, hist.unmarked p → p ∈ hist.resident m

theorem pinned_start (f : PageFile) : Pinned m (.start f) := fun _ h => h.elim

/-- What a pool may rely on keeps them there. -/
theorem Pinned.after (h : hist.Pinned m) (hallow : hist.Allows m r) : (hist.after r).Pinned m := by
  intro q hq
  cases r with
  | getPage p =>
    by_contra hdrop
    exact hallow q (h q hq) hdrop hq
  | write p buf =>
    rcases hq with rfl | hq
    · exact hallow
    · exact h q hq
  | markDirty p => exact h q hq.2
  | flushAll => exact h q hq

/-- **A larger pool may rely on it too.** -/
theorem Allows.larger (hle : m ≤ m') (hpin : hist.Pinned m) (hallow : hist.Allows m r) :
    hist.Allows m' r := by
  cases r with
  | getPage p =>
    intro q _ hdrop hq
    exact hdrop (Recency.window_subset hle _ (hpin.after (r := .getPage p) hallow q hq))
  | write p buf => exact Recency.window_subset hle _ hallow
  | markDirty p => exact Recency.window_subset hle _ hallow
  | flushAll => exact hallow

theorem AllowsAll.larger (hle : m ≤ m') : ∀ (tr : List Request) (hist : History), hist.Pinned m →
    hist.AllowsAll m tr → hist.AllowsAll m' tr
  | [], _, _, _ => trivial
  | _ :: tr, _, hpin, hallow =>
    ⟨hallow.1.larger hle hpin, larger hle tr _ (hpin.after hallow.1) hallow.2⟩

end History

/-- A larger pool reads a page only if the smaller one does. -/
theorem Follows.fetches_le (hle : m ≤ m') (h : Follows m hist small) (h' : Follows m' hist large)
    (r : Request) : large.fetches r ≤ small.fetches r := by
  cases r with
  | getPage p =>
    show (if large.cache p = none then 1 else 0) ≤ if small.cache p = none then 1 else 0
    by_cases hp : small.cache p = none
    · rw [if_pos hp]
      split
      · exact le_rfl
      · exact Nat.zero_le _
    · have hin : p ∈ small.resident := not_not.mp (fun hnot => hp (h.cache_eq_none.mpr hnot))
      rw [h.recent] at hin
      have hin' : p ∈ large.resident := by
        rw [h'.recent]
        exact Recency.window_subset hle _ hin
      rw [if_neg hp, if_neg (fun hnone => h'.cache_eq_none.mp hnone hin')]
  | _ => exact le_rfl

/-- **A trace** reads no more often from the file of a larger pool. -/
theorem Follows.fetchesAll_le (hm : 1 ≤ m) (hle : m ≤ m') : ∀ (tr : List Request)
    {hist : History} {small large : BufferPool}, Follows m hist small → Follows m' hist large →
    hist.AllowsAll m tr → hist.AllowsAll m' tr → large.fetchesAll tr ≤ small.fetchesAll tr
  | [], _, _, _, _, _, _, _ => le_rfl
  | r :: tr, hist, small, large, h, h', hallow, hallow' => by
    obtain ⟨small', hrun, hfollows⟩ := h.runs_serve hm hallow.1
    obtain ⟨large', hrun', hfollows'⟩ := h'.runs_serve (hm.trans hle) hallow'.1
    rw [fetchesAll, fetchesAll, hrun, hrun']
    exact Nat.add_le_add (h.fetches_le hle h' r)
      (fetchesAll_le hm hle tr hfollows hfollows' hallow.2 hallow'.2)

/-- **More frames never hurt.** On the same file, a trace that a pool may be
given may be given to a larger one. The larger one has all the pages in memory
that the smaller one has, has the same bytes for each of them, and has read no
more often from the file. -/
theorem moreFrames_fetch_less (f : PageFile) (hm : 1 ≤ m) (hle : m ≤ m') {tr : List Request}
    (hallow : (History.start f).AllowsAll m tr) :
    ∃ small large, (create (Pager.open f) m).serveAll tr = .ok small
      ∧ (create (Pager.open f) m').serveAll tr = .ok large
      ∧ small.resident <+: large.resident
      ∧ (∀ e ∈ small.lru, ∃ e' ∈ large.lru, e'.pageNum = e.pageNum ∧ e'.buffer = e.buffer)
      ∧ (create (Pager.open f) m').fetchesAll tr ≤ (create (Pager.open f) m).fetchesAll tr := by
  have hallow' := hallow.larger hle tr _ (History.pinned_start f)
  obtain ⟨small, hrun, h⟩ := Follows.runs_serveAll hm tr _ _ (follows_create f m) hallow
  obtain ⟨large, hrun', h'⟩ := Follows.runs_serveAll (hm.trans hle) tr _ _ (follows_create f m')
    hallow'
  have hfirst : small.resident <+: large.resident := by
    rw [h.recent, h'.recent]
    exact Recency.window_le hle _
  refine ⟨small, large, hrun, hrun', hfirst, fun e he => ?_,
    Follows.fetchesAll_le hm hle tr (follows_create f m) (follows_create f m') hallow hallow'⟩
  obtain ⟨e', he', hpage⟩ := mem_resident.mp (hfirst.subset (List.mem_map_of_mem he))
  exact ⟨e', he', hpage, by rw [h'.buffered e' he', h.buffered e he, hpage]⟩

/-- A page is written, marked, dropped by a pool of one frame and read again,
while a pool of two frames has kept it. -/
theorem moreFrames_fetch_less_reread :
    ∃ small large, (create (Pager.open .empty) 1).serveAll [.getPage 0, .write 0 onesPage,
        .markDirty 0, .getPage 1, .getPage 0] = .ok small
      ∧ (create (Pager.open .empty) 2).serveAll [.getPage 0, .write 0 onesPage,
        .markDirty 0, .getPage 1, .getPage 0] = .ok large
      ∧ small.resident <+: large.resident
      ∧ (∀ e ∈ small.lru, ∃ e' ∈ large.lru, e'.pageNum = e.pageNum ∧ e'.buffer = e.buffer)
      ∧ (create (Pager.open .empty) 2).fetchesAll [.getPage 0, .write 0 onesPage, .markDirty 0,
          .getPage 1, .getPage 0]
        ≤ (create (Pager.open .empty) 1).fetchesAll [.getPage 0, .write 0 onesPage, .markDirty 0,
          .getPage 1, .getPage 0] :=
  moreFrames_fetch_less .empty le_rfl (Nat.le_succ 1) (by
    simp [History.AllowsAll, History.Allows, History.resident, History.after, History.start,
      Recency.window, Recency.order])

end BufferPool
