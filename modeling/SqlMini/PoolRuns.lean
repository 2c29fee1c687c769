import SqlMini.PageNumbers
import SqlMini.PageDiscipline

/-!
# Programs over the bounded pool

`PageProg.runPool` runs a program over a buffer pool, as `PageProg.run` runs it
over an array of pages. A safe program cannot tell them apart: it returns the
same, faults where it would, and leaves a pool that stands for the array it
would have left (`Safe.simulates`). On the way it uses no pointer into a buffer
that is gone, marks no page that is not in memory, and no page it wrote is
dropped before it was marked (`PageProg.Sound`).
-/

namespace PageProg

variable {α β : Type}

/-- **Running a program over a buffer pool.** -/
def runPool : PageProg α → BufferPool → Except Fault (α × BufferPool)
  | ret a, pool => .ok (a, pool)
  | fail f, _ => .error f
  | getPage p k, pool => do
    let (ptr, pool) ← pool.getPage p
    (k ptr).runPool pool
  | load ptr k, pool => do
    let buf ← pool.load ptr
    (k buf).runPool pool
  | store _ ptr buf k, pool => do
    let pool ← pool.store ptr buf
    k.runPool pool
  | markDirty p k, pool => do
    let pool ← pool.markDirty p
    k.runPool pool
  | unusedPage k, pool => (k pool.getUnusedPageNum.1).runPool pool.getUnusedPageNum.2
  | flushAll k, pool => k.runPool pool.flushAll

/-- Running a composite over a pool is running its parts. -/
theorem runPool_bind (m : PageProg α) (f : α → PageProg β) (pool : BufferPool) :
    (m >>= f).runPool pool = (do
      let (a, pool) ← m.runPool pool
      (f a).runPool pool) := by
  show (m.bind f).runPool pool = _
  induction m generalizing pool with
  | ret a => rfl
  | fail e => rfl
  | getPage p k ih => simp only [PageProg.bind, runPool, ih, bind_assoc]
  | load ptr k ih => simp only [PageProg.bind, runPool, ih, bind_assoc]
  | store o ptr buf k ih => simp only [PageProg.bind, runPool, ih, bind_assoc]
  | markDirty p k ih => simp only [PageProg.bind, runPool, ih, bind_assoc]
  | unusedPage k ih => exact ih _ _
  | flushAll k ih => exact ih _

/-- **A run over the pool that uses only what is in memory**, with the pages of
`U` written and not marked so far. -/
def Sound : PageProg α → BufferPool → Set ℕ → Prop
  | ret _, _, _ => True
  | fail _, _, _ => True
  | getPage p k, pool, U => ∀ ptr pool', pool.getPage p = .ok (ptr, pool') →
      (∀ q ∈ U, q ∈ pool'.resident) ∧ Sound (k ptr) pool' U
  | load ptr k, pool, U => pool.Live ptr
      ∧ ∀ buf, pool.load ptr = .ok buf → Sound (k buf) pool U
  | store _ ptr buf k, pool, U => pool.Live ptr
      ∧ ∀ pool', pool.store ptr buf = .ok pool' → Sound k pool' (U ∪ {ptr.page})
  | markDirty p k, pool, U => p ∈ pool.resident
      ∧ ∀ pool', pool.markDirty p = .ok pool' → Sound k pool' (U \ {p})
  | unusedPage k, pool, U => Sound (k pool.getUnusedPageNum.1) pool.getUnusedPageNum.2 U
  | flushAll k, pool, U => Sound k pool.flushAll U

/-- **A pool and an array of pages** that a program cannot tell apart, with what
it may rely on and the pages it has written and not marked. -/
structure Sim (n : ℕ) (h : Hold) (U : Set ℕ) (s : Store) (pool : BufferPool) : Prop where
  holds : BufferPool.Holds s.pages (· ∈ U) pool
  maxPages : pool.maxPages = n
  window : pool.resident = h.window
  live : ∀ ptr, h.live ptr → pool.Live ptr
  nextPageId : pool.nextPageId = s.nextPageId
  clock : pool.clock = s.clock
  savedSize : pool.savedSize = s.extent

variable {n p : ℕ} {h : Hold} {U : Set ℕ} {s : Store} {pool pool' : BufferPool} {ptr : PagePtr}

/-- After a request. -/
theorem Sim.getPage (hsim : Sim n h U s pool) (hn : 1 ≤ n)
    (hU : ∀ q ∈ U, q ∈ Recency.touch n p h.window) :
    ∃ pool', pool.getPage p = .ok (⟨p, s.clock⟩, pool') ∧ (∀ q ∈ U, q ∈ pool'.resident)
      ∧ Sim n (h.request n ⟨p, s.clock⟩) U (s.touch p) pool' := by
  have hmax := hsim.maxPages
  obtain ⟨pool', hrun, hholds, hserved⟩ := hsim.holds.runs_getPage (hmax.symm ▸ hn) p
    (fun q _ hq hqU => hq (by
      rw [hmax, hsim.window]
      exact hU q hqU))
  have hwindow : pool'.resident = Recency.touch n p h.window := by
    rw [hserved.resident, hmax, hsim.window]
  rw [hsim.clock] at hrun
  refine ⟨pool', hrun, fun q hq => hwindow ▸ hU q hq, ?_⟩
  refine ⟨hholds, hserved.maxPages.trans hmax, hwindow, ?_, ?_, ?_, ?_⟩
  · rintro q (rfl | ⟨hq, hmem⟩)
    · rw [← hsim.clock]
      exact hserved.live
    · exact hserved.keeps q (hsim.live q hq) (hwindow ▸ hmem)
  · rw [hserved.nextPageId, hsim.nextPageId]
    rfl
  · rw [hserved.clock, hsim.clock]
    rfl
  · exact (hsim.holds.savedSize_getPage (hmax.symm ▸ hn) hrun).trans hsim.savedSize

/-- After a write. -/
theorem Sim.store (hsim : Sim n h U s pool) (hl : h.live ptr) (o : Owner) (buf : Page) :
    ∃ pool', pool.store ptr buf = .ok pool'
      ∧ Sim n h (U ∪ {ptr.page}) (s.put o ptr.page buf) pool' := by
  obtain ⟨pool', hrun, hholds, hchanged⟩ := hsim.holds.runs_store (hsim.live ptr hl) buf
  have hU : (fun q => q = ptr.page ∨ q ∈ U) = (· ∈ U ∪ {ptr.page}) :=
    funext fun q => propext or_comm
  rw [hU] at hholds
  exact ⟨pool', hrun, hholds, hchanged.maxPages.trans hsim.maxPages,
    hchanged.resident.trans hsim.window, fun q hq => hchanged.live q (hsim.live q hq),
    hchanged.nextPageId.trans hsim.nextPageId, hchanged.clock.trans hsim.clock,
    (BufferPool.savedSize_store hrun).trans hsim.savedSize⟩

/-- After a page was marked. -/
theorem Sim.markDirty (hsim : Sim n h U s pool) (hp : p ∈ h.window) :
    ∃ pool', pool.markDirty p = .ok pool' ∧ Sim n h (U \ {p}) (s.mark p) pool' := by
  obtain ⟨pool', hrun, hholds, hchanged⟩ := hsim.holds.runs_markDirty (hsim.window ▸ hp)
  have hU : (fun q => q ≠ p ∧ q ∈ U) = (· ∈ U \ {p}) := funext fun q => propext and_comm
  rw [hU] at hholds
  exact ⟨pool', hrun, hholds, hchanged.maxPages.trans hsim.maxPages,
    hchanged.resident.trans hsim.window, fun q hq => hchanged.live q (hsim.live q hq),
    hchanged.nextPageId.trans hsim.nextPageId, hchanged.clock.trans hsim.clock,
    (hsim.holds.savedSize_markDirty hrun).trans (congrArg (max · (p + 1)) hsim.savedSize)⟩

/-- After a page number was handed out. -/
theorem Sim.handOut (hsim : Sim n h U s pool) :
    Sim n h U s.handOut pool.getUnusedPageNum.2 where
  holds := { hsim.holds with }
  maxPages := hsim.maxPages
  window := hsim.window
  live := hsim.live
  nextPageId := by
    show (pool.nextPageId + 1) % uint32Size = (s.nextPageId + 1) % uint32Size
    rw [hsim.nextPageId]
  clock := hsim.clock
  savedSize := hsim.savedSize

/-- After the pool was flushed. -/
theorem Sim.flushAll (hsim : Sim n h U s pool) : Sim n h U s pool.flushAll where
  holds := hsim.holds.flushAll
  maxPages := hsim.maxPages
  window := hsim.window
  live := hsim.live
  nextPageId := hsim.nextPageId
  clock := hsim.clock
  savedSize := BufferPool.savedSize_flushAll.trans hsim.savedSize

variable {m : PageProg α} {Q : α → Hold → Set ℕ → Prop}

/-- **The two runs agree**: both stop with the same fault, or both return the
same and leave a pool and an array that cannot be told apart. -/
def Alike (n : ℕ) (m : PageProg α) (s : Store) (pool : BufferPool)
    (Q : α → Hold → Set ℕ → Prop) : Prop :=
  (∃ f, m.run s = .error f ∧ m.runPool pool = .error f)
    ∨ ∃ a s' pool' h' U', m.run s = .ok (a, s') ∧ m.runPool pool = .ok (a, pool')
      ∧ Sim n h' U' s' pool' ∧ Q a h' U'

/-- **A safe program cannot tell** a pool from the array it stands for, and uses
only what is in memory. -/
theorem Safe.simulates (hn : 1 ≤ n) (hs : Safe n m h U Q) (hsim : Sim n h U s pool) :
    m.Sound pool U ∧ Alike n m s pool Q := by
  induction m generalizing h U s pool with
  | ret a =>
    exact ⟨trivial, Or.inr ⟨a, s, pool, h, U, rfl, rfl, hsim, hs.ret⟩⟩
  | fail f => exact ⟨trivial, Or.inl ⟨f, rfl, rfl⟩⟩
  | getPage p k ih =>
    obtain ⟨hU, hk⟩ := hs.getPage
    obtain ⟨pool₁, hrun, hmem, hsim₁⟩ := hsim.getPage hn hU
    obtain ⟨hsound, halike⟩ := ih _ (hk s.clock) hsim₁
    refine ⟨fun ptr pool' hrun' => ?_, ?_⟩
    · rw [hrun] at hrun'
      obtain ⟨rfl, rfl⟩ := Prod.mk.inj (Except.ok.inj hrun')
      exact ⟨hmem, hsound⟩
    · unfold Alike
      rw [runPool, hrun]
      exact halike
  | load ptr k ih =>
    obtain ⟨hlive, hk⟩ := hs.load
    have hl := hsim.live ptr hlive
    have hrun := hsim.holds.load_of_live hl
    obtain ⟨hsound, halike⟩ := ih _ (hk (s.pages ptr.page)) hsim
    refine ⟨⟨hl, fun buf hrun' => ?_⟩, ?_⟩
    · rw [hrun] at hrun'
      obtain rfl := Except.ok.inj hrun'
      exact hsound
    · unfold Alike
      rw [runPool, hrun]
      exact halike
  | store o ptr buf k ih =>
    obtain ⟨hlive, hk⟩ := hs.store
    obtain ⟨pool₁, hrun, hsim₁⟩ := hsim.store hlive o buf
    obtain ⟨hsound, halike⟩ := ih hk hsim₁
    refine ⟨⟨hsim.live ptr hlive, fun pool' hrun' => ?_⟩, ?_⟩
    · rw [hrun] at hrun'
      obtain rfl := Except.ok.inj hrun'
      exact hsound
    · unfold Alike
      rw [runPool, hrun]
      exact halike
  | markDirty p k ih =>
    obtain ⟨hp, hk⟩ := hs.markDirty
    obtain ⟨pool₁, hrun, hsim₁⟩ := hsim.markDirty hp
    obtain ⟨hsound, halike⟩ := ih hk hsim₁
    refine ⟨⟨hsim.window ▸ hp, fun pool' hrun' => ?_⟩, ?_⟩
    · rw [hrun] at hrun'
      obtain rfl := Except.ok.inj hrun'
      exact hsound
    · unfold Alike
      rw [runPool, hrun]
      exact halike
  | unusedPage k ih =>
    obtain ⟨hsound, halike⟩ := ih _ (hs.unusedPage pool.getUnusedPageNum.1) hsim.handOut
    refine ⟨hsound, ?_⟩
    unfold Alike at halike ⊢
    rw [run, ← hsim.nextPageId]
    exact halike
  | flushAll k ih =>
    exact ih hs.flushAll hsim.flushAll

end PageProg
