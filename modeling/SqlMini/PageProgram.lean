import SqlMini.Pager

/-!
# Programs over a page pool

The B-tree and the table reach their pages through a buffer pool: they ask
it for a page, keep the raw pointer it returns, read and write through that
pointer, and tell it which pages they changed. What they compute must not
depend on how the pool keeps the pages, so an operation is first a
**program** – a `PageProg`, the tree of its requests – and is then run, here
over an unbounded array of pages (`PageProg.run`) and in
`SqlMini.BufferPool` over the bounded pool.

A pointer carries, besides the page it was obtained for, the time it was
obtained at: the array does not look at it, the pool needs it to tell a
pointer into a live buffer from one into a buffer that was dropped since.

A write carries the component that makes it. The array keeps the writes and
the page numbers handed out in a log, which nothing reads: it is there for
statements about which component writes where.

`Runs m s Q` says that `m` started in `s` returns, without a fault, in a
state satisfying `Q`; one rule per request reduces it to the rest of the
program.
-/

/-- **A pointer into a page buffer**, as `get_page` returns it. -/
structure PagePtr where
  /-- The page it was obtained for. -/
  page : ℕ
  /-- The number of requests for pages served before it. -/
  time : ℕ
  deriving DecidableEq

/-- The components that write pages. -/
inductive Owner where
  /-- The B-tree. -/
  | btree
  /-- The heap of a table. -/
  | heap
  /-- The metadata of a table. -/
  | metadata
  deriving DecidableEq

/-- **A program over a page pool.** Each request carries what to do with the
answer. -/
inductive PageProg (α : Type) where
  | ret (a : α)
  | fail (f : Fault)
  | getPage (p : ℕ) (k : PagePtr → PageProg α)
  | load (ptr : PagePtr) (k : Page → PageProg α)
  | store (o : Owner) (ptr : PagePtr) (buf : Page) (k : PageProg α)
  | markDirty (p : ℕ) (k : PageProg α)
  | unusedPage (k : ℕ → PageProg α)
  | flushAll (k : PageProg α)

namespace PageProg

variable {α β : Type}

/-- One program after another. -/
def bind : PageProg α → (α → PageProg β) → PageProg β
  | ret a, f => f a
  | fail e, _ => fail e
  | getPage p k, f => getPage p (fun ptr => (k ptr).bind f)
  | load ptr k, f => load ptr (fun buf => (k buf).bind f)
  | store o ptr buf k, f => store o ptr buf (k.bind f)
  | markDirty p k, f => markDirty p (k.bind f)
  | unusedPage k, f => unusedPage (fun p => (k p).bind f)
  | flushAll k, f => flushAll (k.bind f)

instance : Monad PageProg where
  pure := ret
  bind := bind

/-- A computation on the bytes at hand. -/
def lift : Except Fault α → PageProg α
  | .ok a => ret a
  | .error f => fail f

end PageProg

/-! ## The requests -/

namespace Pool

/-- `get_page`. -/
def getPage (p : ℕ) : PageProg PagePtr := .getPage p .ret

/-- Reading through a pointer. -/
def load (ptr : PagePtr) : PageProg Page := .load ptr .ret

/-- Writing through a pointer. -/
def store (o : Owner) (ptr : PagePtr) (buf : Page) : PageProg Unit := .store o ptr buf (.ret ())

/-- `mark_dirty`. -/
def markDirty (p : ℕ) : PageProg Unit := .markDirty p (.ret ())

/-- `get_unused_page_num`. -/
def getUnusedPageNum : PageProg ℕ := .unusedPage .ret

/-- `flush_all`. -/
def flushAll : PageProg Unit := .flushAll (.ret ())

end Pool

/-! ## The array of pages -/

/-- An entry of the log. -/
inductive Event where
  /-- A component wrote a page. -/
  | wrote (o : Owner) (p : ℕ)
  /-- A page number was handed out by `get_unused_page_num`. -/
  | handedOut (p : ℕ)
  deriving DecidableEq

/-- **An unbounded array of pages**, with the counters a pool keeps. -/
structure Store where
  /-- The pages. -/
  pages : ℕ → Page
  /-- `next_page_id`. -/
  nextPageId : ℕ
  /-- The number of requests for pages served. -/
  clock : ℕ
  /-- The number of pages a file has once every page marked dirty is in
  it. -/
  extent : ℕ
  /-- The writes made and the page numbers handed out, latest first. -/
  log : List Event

/-- `next_page_id` after an access to page `p`. -/
def bumpPageId (p next : ℕ) : ℕ := if next ≤ p then (p + 1) % uint32Size else next

namespace Store

/-- The array of zero pages behind an empty file. -/
def empty : Store := ⟨fun _ => Buffer.zero pageSize, 0, 0, 0, []⟩

/-- The array after an access to page `p`. -/
def touch (s : Store) (p : ℕ) : Store :=
  { s with nextPageId := bumpPageId p s.nextPageId, clock := s.clock + 1 }

/-- The array after a write. -/
def put (s : Store) (o : Owner) (p : ℕ) (buf : Page) : Store :=
  { s with pages := Function.update s.pages p buf, log := .wrote o p :: s.log }

/-- The array after page `p` was marked dirty. -/
def mark (s : Store) (p : ℕ) : Store := { s with extent := max s.extent (p + 1) }

/-- The array after a page number was handed out. -/
def handOut (s : Store) : Store :=
  { s with
    nextPageId := (s.nextPageId + 1) % uint32Size
    log := .handedOut s.nextPageId :: s.log }

section Fields

variable (s : Store) (p q : ℕ) (o : Owner) (buf : Page)

@[simp] theorem pages_touch : (s.touch p).pages = s.pages := rfl
@[simp] theorem extent_touch : (s.touch p).extent = s.extent := rfl
@[simp] theorem log_touch : (s.touch p).log = s.log := rfl
@[simp] theorem nextPageId_put : (s.put o p buf).nextPageId = s.nextPageId := rfl
@[simp] theorem extent_put : (s.put o p buf).extent = s.extent := rfl
@[simp] theorem pages_mark : (s.mark p).pages = s.pages := rfl
@[simp] theorem nextPageId_mark : (s.mark p).nextPageId = s.nextPageId := rfl
@[simp] theorem log_mark : (s.mark p).log = s.log := rfl
@[simp] theorem pages_handOut : s.handOut.pages = s.pages := rfl
@[simp] theorem extent_handOut : s.handOut.extent = s.extent := rfl

@[simp] theorem pages_put : (s.put o p buf).pages = Function.update s.pages p buf := rfl
@[simp] theorem extent_mark : (s.mark p).extent = max s.extent (p + 1) := rfl

/-- An access below `next_page_id` leaves it. -/
theorem nextPageId_touch_of_lt (h : p < s.nextPageId) :
    (s.touch p).nextPageId = s.nextPageId := by
  show bumpPageId p s.nextPageId = s.nextPageId
  rw [bumpPageId, if_neg (Nat.not_le.mpr h)]

/-- A page handed out and accessed: the counter is past it. -/
theorem nextPageId_fresh (h : s.nextPageId + 1 < 4294967296) :
    (s.handOut.touch s.nextPageId).nextPageId = s.nextPageId + 1 := by
  have hn : s.handOut.nextPageId = s.nextPageId + 1 := Nat.mod_eq_of_lt h
  rw [nextPageId_touch_of_lt _ _ (by rw [hn]; exact Nat.lt_succ_self _), hn]

end Fields

end Store

namespace PageProg

variable {α β : Type}

/-- **Running a program over the array of pages.** -/
def run : PageProg α → Store → Except Fault (α × Store)
  | ret a, s => .ok (a, s)
  | fail f, _ => .error f
  | getPage p k, s => (k ⟨p, s.clock⟩).run (s.touch p)
  | load ptr k, s => (k (s.pages ptr.page)).run s
  | store o ptr buf k, s => k.run (s.put o ptr.page buf)
  | markDirty p k, s => k.run (s.mark p)
  | unusedPage k, s => (k s.nextPageId).run s.handOut
  | flushAll k, s => k.run s

/-- Running a composite is running its parts. -/
theorem run_bind (m : PageProg α) (f : α → PageProg β) (s : Store) :
    (m >>= f).run s = (do let (a, s') ← m.run s; (f a).run s') := by
  show (m.bind f).run s = _
  induction m generalizing s with
  | ret a => rfl
  | fail e => rfl
  | getPage p k ih => exact ih _ _
  | load ptr k ih => exact ih _ _
  | store o ptr buf k ih => exact ih _
  | markDirty p k ih => exact ih _
  | unusedPage k ih => exact ih _ _
  | flushAll k ih => exact ih _

/-- **`m` started in `s` returns in a state satisfying `Q`.** -/
def Runs (m : PageProg α) (s : Store) (Q : α → Store → Prop) : Prop :=
  ∃ a s', m.run s = .ok (a, s') ∧ Q a s'

variable {s : Store} {Q : α → Store → Prop}

theorem Runs.mono {m : PageProg α} {Q' : α → Store → Prop} (h : Runs m s Q)
    (hQ : ∀ a s', Q a s' → Q' a s') : Runs m s Q' := by
  obtain ⟨a, s', hr, hq⟩ := h
  exact ⟨a, s', hr, hQ a s' hq⟩

/-- What a program returns, as the one thing it can return. -/
theorem run_eq_ok {m : PageProg α} {a : α} {s' : Store} :
    m.run s = .ok (a, s') ↔ Runs m s (fun b t => b = a ∧ t = s') :=
  ⟨fun h => ⟨a, s', h, rfl, rfl⟩, fun ⟨_, _, h, hb, ht⟩ => hb ▸ ht ▸ h⟩

@[simp] theorem runs_pure (a : α) : Runs (pure a) s Q ↔ Q a s := by
  constructor
  · rintro ⟨_, _, hr, hq⟩
    obtain ⟨rfl, rfl⟩ := Prod.mk.inj (Except.ok.inj hr)
    exact hq
  · intro hq
    exact ⟨a, s, rfl, hq⟩

/-- **The rule of composition.** -/
@[simp] theorem runs_bind {m : PageProg α} {f : α → PageProg β} {Q : β → Store → Prop} :
    Runs (m >>= f) s Q ↔ Runs m s (fun a s' => Runs (f a) s' Q) := by
  unfold Runs
  simp only [run_bind, Except.bind_eq_ok]
  constructor
  · rintro ⟨b, s'', ⟨⟨a, s'⟩, hm, hf⟩, hq⟩
    exact ⟨a, s', hm, b, s'', hf, hq⟩
  · rintro ⟨a, s', hm, b, s'', hf, hq⟩
    exact ⟨b, s'', ⟨⟨a, s'⟩, hm, hf⟩, hq⟩

theorem runs_lift {e : Except Fault α} : Runs (lift e) s Q ↔ ∃ a, e = .ok a ∧ Q a s := by
  cases e with
  | error f => exact iff_of_false (by rintro ⟨_, _, h, _⟩; cases h) (by simp)
  | ok a => exact (runs_pure a).trans (by simp)

/-- A computation known to return hands on what it returns. -/
theorem runs_lift_ok {e : Except Fault α} {a : α} (h : e = .ok a) :
    Runs (lift e) s Q ↔ Q a s := by
  simp [runs_lift, h]

/-- **The rule of a branch.** -/
theorem runs_ite {c : Prop} [Decidable c] {m m' : PageProg α} (h : c → Runs m s Q)
    (h' : ¬ c → Runs m' s Q) : Runs (if c then m else m') s Q := by
  split
  case isTrue hc => exact h hc
  case isFalse hc => exact h' hc

/-- **Whenever `m` started in `s` returns, it does so in a state satisfying
`Q`.** -/
def Always (m : PageProg α) (s : Store) (Q : α → Store → Prop) : Prop :=
  ∀ a s', m.run s = .ok (a, s') → Q a s'

theorem Runs.always {m : PageProg α} (h : Runs m s Q) : Always m s Q := by
  obtain ⟨a, s', hr, hq⟩ := h
  intro b t ht
  obtain ⟨rfl, rfl⟩ := Prod.mk.inj (Except.ok.inj (hr.symm.trans ht))
  exact hq

theorem Runs.and {m : PageProg α} {Q' : α → Store → Prop} (h : Runs m s Q) (h' : Always m s Q') :
    Runs m s (fun a s' => Q a s' ∧ Q' a s') := by
  obtain ⟨a, s', hr, hq⟩ := h
  exact ⟨a, s', hr, hq, h' a s' hr⟩

theorem Always.mono {m : PageProg α} {Q' : α → Store → Prop} (h : Always m s Q)
    (hQ : ∀ a s', Q a s' → Q' a s') : Always m s Q' := fun a s' hr => hQ a s' (h a s' hr)

/-- A composite, one part after the other. -/
theorem Always.bind {m : PageProg α} {f : α → PageProg β} {Q : β → Store → Prop}
    (h : Always m s (fun a s' => Always (f a) s' Q)) : Always (m >>= f) s Q := by
  intro b t ht
  rw [run_bind] at ht
  obtain ⟨⟨a, s'⟩, hm, hf⟩ := Except.bind_eq_ok.mp ht
  exact h a s' hm b t hf

theorem always_lift {e : Except Fault α} : Always (lift e) s Q ↔ ∀ a, e = .ok a → Q a s := by
  constructor
  · rintro h a rfl
    exact h a s rfl
  · intro h a s' hr
    obtain ⟨b, he, rfl, rfl⟩ := runs_lift.mp (run_eq_ok.mp hr)
    exact h b he

section Requests

variable {p : ℕ} {ptr : PagePtr} {o : Owner} {buf : Page} {U : Unit → Store → Prop}

@[simp] theorem runs_getPage {Q : PagePtr → Store → Prop} :
    Runs (Pool.getPage p) s Q ↔ Q ⟨p, s.clock⟩ (s.touch p) := runs_pure _

@[simp] theorem runs_load {Q : Page → Store → Prop} :
    Runs (Pool.load ptr) s Q ↔ Q (s.pages ptr.page) s := runs_pure _

@[simp] theorem runs_store : Runs (Pool.store o ptr buf) s U ↔ U () (s.put o ptr.page buf) :=
  runs_pure _

@[simp] theorem runs_markDirty : Runs (Pool.markDirty p) s U ↔ U () (s.mark p) := runs_pure _

@[simp] theorem runs_getUnusedPageNum {Q : ℕ → Store → Prop} :
    Runs Pool.getUnusedPageNum s Q ↔ Q s.nextPageId s.handOut := runs_pure _

@[simp] theorem runs_flushAll : Runs Pool.flushAll s U ↔ U () s := runs_pure _

end Requests

/-! ## Loops -/

/-- **The descending loop** `for (i = lo + n - 1; i >= lo; --i) body(i)`. -/
def forDown (body : ℕ → PageProg Unit) : (n lo : ℕ) → PageProg Unit
  | 0, _ => pure ()
  | n + 1, lo => do
    body (lo + n)
    forDown body n lo

/-- **Invariant rule of the descending loop.** -/
theorem runs_forDown {body : ℕ → PageProg Unit} (I : ℕ → Store → Prop) :
    ∀ (n lo : ℕ) (s : Store), I (lo + n) s →
      (∀ i s, lo ≤ i → i < lo + n → I (i + 1) s → Runs (body i) s (fun _ s' => I i s')) →
      Runs (forDown body n lo) s (fun _ s' => I lo s')
  | 0, _, s, h0, _ => (runs_pure ()).mpr h0
  | n + 1, lo, s, h0, hstep => by
    rw [forDown, runs_bind]
    refine (hstep (lo + n) s (by omega) (by omega) h0).mono (fun _ s₁ h1 => ?_)
    exact runs_forDown I n lo s₁ h1 (fun i t hi hi' => hstep i t hi (by omega))

end PageProg

/-! ## What a program leaves alone -/

/-- Whether a log entry is a write of component `o` to a page of `T`, or a
page number of `T` handed out. -/
def Event.within (o : Owner) (T : ℕ → Prop) : Event → Prop
  | .wrote o' p => o' = o ∧ T p
  | .handedOut p => o = .btree ∧ T p

namespace Store

/-- **Between `s` and `s'` only component `o` wrote, and only pages of
`T`.** -/
structure Within (o : Owner) (T : ℕ → Prop) (s s' : Store) : Prop where
  /-- The other pages are as they were. -/
  frame : ∀ p, ¬ T p → s'.pages p = s.pages p
  /-- The log says so. -/
  log : ∃ es, s'.log = es ++ s.log ∧ ∀ e ∈ es, Event.within o T e

namespace Within

variable {o : Owner} {T T' : ℕ → Prop} {s s' s'' : Store}

theorem refl (o : Owner) (T : ℕ → Prop) (s : Store) : Within o T s s :=
  ⟨fun _ _ => rfl, [], rfl, by simp⟩

theorem trans (h : Within o T s s') (h' : Within o T s' s'') : Within o T s s'' := by
  obtain ⟨es, he, hes⟩ := h.log
  obtain ⟨es', he', hes'⟩ := h'.log
  refine ⟨fun p hp => (h'.frame p hp).trans (h.frame p hp), es' ++ es, ?_, ?_⟩
  · rw [he', he, List.append_assoc]
  · intro e hmem
    rcases List.mem_append.mp hmem with hm | hm
    · exact hes' e hm
    · exact hes e hm

theorem mono (h : Within o T s s') (hT : ∀ p, T p → T' p) : Within o T' s s' := by
  obtain ⟨es, he, hes⟩ := h.log
  refine ⟨fun p hp => h.frame p (fun ht => hp (hT p ht)), es, he, fun e hmem => ?_⟩
  have hw := hes e hmem
  cases e with
  | wrote o' p => exact ⟨hw.1, hT p hw.2⟩
  | handedOut p => exact ⟨hw.1, hT p hw.2⟩

theorem touch (h : Within o T s s') (p : ℕ) : Within o T s (s'.touch p) := ⟨h.frame, h.log⟩

theorem mark (h : Within o T s s') (p : ℕ) : Within o T s (s'.mark p) := ⟨h.frame, h.log⟩

theorem put (h : Within o T s s') {p : ℕ} (buf : Page) (hp : T p) :
    Within o T s (s'.put o p buf) := by
  obtain ⟨es, he, hes⟩ := h.log
  refine ⟨fun q hq => ?_, .wrote o p :: es, ?_, ?_⟩
  · have hne : q ≠ p := fun hqp => hq (hqp ▸ hp)
    rw [pages_put, Function.update_of_ne hne, h.frame q hq]
  · show Event.wrote o p :: s'.log = _
    rw [he]
    rfl
  · intro e hmem
    rcases List.mem_cons.mp hmem with rfl | hm
    · exact ⟨rfl, hp⟩
    · exact hes e hm

theorem handOut (h : Within .btree T s s') (hp : T s'.nextPageId) :
    Within .btree T s s'.handOut := by
  obtain ⟨es, he, hes⟩ := h.log
  refine ⟨h.frame, .handedOut s'.nextPageId :: es, ?_, ?_⟩
  · show Event.handedOut s'.nextPageId :: s'.log = _
    rw [he]
    rfl
  · intro e hmem
    rcases List.mem_cons.mp hmem with rfl | hm
    · exact ⟨rfl, hp⟩
    · exact hes e hm

end Within

end Store
