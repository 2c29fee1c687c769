import SqlMini.PageProgram
import SqlMini.Recency

/-!
# What a program may rely on

A pool that keeps `n` pages drops the one requested longest ago, whether or
not a program still has a pointer into its buffer and whether or not it was
written and not yet marked dirty. A program is safe from that if it reads and
writes through a pointer only while the page was among the last `n` requested
ever since, marks a page only while it is in memory, and lets no page it wrote
be dropped before it was marked.

`Safe n m h U Q` says so of the program `m`, for a pool in the state `h` with
the pages `U` written and not marked, and that it returns in a state
satisfying `Q`. It is a property of the requests of `m` alone: what the pages
hold is not assumed, nor which numbers are handed out. One rule per request
reduces it to the rest of the program, as with `Runs`.
-/

/-- **What a program may rely on** about a pool. -/
structure Hold where
  /-- The pages in memory, the one requested last in front. -/
  window : List ℕ
  /-- The pointers that lead into the buffers of their pages. -/
  live : PagePtr → Prop

namespace Hold

/-- After a request that returned `ptr`, to a pool that keeps `n` pages. -/
def request (n : ℕ) (h : Hold) (ptr : PagePtr) : Hold where
  window := Recency.touch n ptr.page h.window
  live := fun q => q = ptr ∨ h.live q ∧ q.page ∈ Recency.touch n ptr.page h.window

/-- **A pointer that can be used**, to one of the `k` pages requested last. -/
structure At (h : Hold) (k : ℕ) (ptr : PagePtr) : Prop where
  live : h.live ptr
  recent : ptr.page ∈ h.window.take k

variable {n k : ℕ} {h : Hold} {ptr ptr' : PagePtr}

theorem At.mem_window (ht : h.At k ptr) : ptr.page ∈ h.window := List.mem_of_mem_take ht.recent

/-- The pointer just returned. -/
theorem at_request_self : (h.request n ptr).At 1 ptr := by
  refine ⟨Or.inl rfl, ?_⟩
  show ptr.page ∈ (Recency.touch n ptr.page h.window).take 1
  unfold Recency.touch
  split
  · exact List.mem_cons_self
  · split <;> exact List.mem_cons_self

/-- **A request** moves the other pointers down by one place. -/
theorem At.request (ht : h.At k ptr) (hk : k < n) : (h.request n ptr').At (k + 1) ptr :=
  have hmem := Recency.mem_take_touch ht.recent hk
  ⟨Or.inr ⟨ht.live, List.mem_of_mem_take hmem⟩, hmem⟩

/-- A request for one of the last pages keeps the others among them. -/
theorem At.request_of_mem (ht : h.At k ptr) (hp : ptr'.page ∈ h.window.take k) :
    (h.request n ptr').At k ptr :=
  have hmem := Recency.mem_take_touch_of_mem hp ht.recent
  ⟨Or.inr ⟨ht.live, List.mem_of_mem_take hmem⟩, hmem⟩

end Hold

namespace PageProg

variable {α β : Type} {n : ℕ}

/-- **A program is safe** in a pool that keeps `n` pages. -/
def Safe (n : ℕ) : PageProg α → Hold → Set ℕ → (α → Hold → Set ℕ → Prop) → Prop
  | ret a, h, U, Q => Q a h U
  | fail _, _, _, _ => True
  | getPage p k, h, U, Q => (∀ q ∈ U, q ∈ Recency.touch n p h.window)
      ∧ ∀ time, Safe n (k ⟨p, time⟩) (h.request n ⟨p, time⟩) U Q
  | load ptr k, h, U, Q => h.live ptr ∧ ∀ buf, Safe n (k buf) h U Q
  | store _ ptr _ k, h, U, Q => h.live ptr ∧ Safe n k h (U ∪ {ptr.page}) Q
  | markDirty p k, h, U, Q => p ∈ h.window ∧ Safe n k h (U \ {p}) Q
  | unusedPage k, h, U, Q => ∀ p, Safe n (k p) h U Q
  | flushAll k, h, U, Q => Safe n k h U Q

variable {h : Hold} {U : Set ℕ} {Q Q' : α → Hold → Set ℕ → Prop} {m : PageProg α}

theorem Safe.mono (hs : Safe n m h U Q) (hQ : ∀ a h' U', Q a h' U' → Q' a h' U') :
    Safe n m h U Q' := by
  induction m generalizing h U with
  | ret a => exact hQ a h U hs
  | fail f => exact trivial
  | getPage p k ih => exact ⟨hs.1, fun time => ih _ (hs.2 time)⟩
  | load ptr k ih => exact ⟨hs.1, fun buf => ih _ (hs.2 buf)⟩
  | store o ptr buf k ih => exact ⟨hs.1, ih hs.2⟩
  | markDirty p k ih => exact ⟨hs.1, ih hs.2⟩
  | unusedPage k ih => exact fun p => ih p (hs p)
  | flushAll k ih => exact ih hs

/-- **The rule of composition.** -/
theorem Safe.bind {f : α → PageProg β} {Q : β → Hold → Set ℕ → Prop}
    (hs : Safe n m h U (fun a h' U' => Safe n (f a) h' U' Q)) : Safe n (m >>= f) h U Q := by
  show Safe n (m.bind f) h U Q
  induction m generalizing h U with
  | ret a => exact hs
  | fail e => exact trivial
  | getPage p k ih => exact ⟨hs.1, fun time => ih _ (hs.2 time)⟩
  | load ptr k ih => exact ⟨hs.1, fun buf => ih _ (hs.2 buf)⟩
  | store o ptr buf k ih => exact ⟨hs.1, ih hs.2⟩
  | markDirty p k ih => exact ⟨hs.1, ih hs.2⟩
  | unusedPage k ih => exact fun p => ih p (hs p)
  | flushAll k ih => exact ih hs

/-- **Fewer unmarked pages** do no harm. -/
theorem Safe.subset {V : Set ℕ} (hs : Safe n m h V Q) (hUV : U ⊆ V)
    (hQ : ∀ a h' U' V', U' ⊆ V' → Q a h' V' → Q a h' U') : Safe n m h U Q := by
  induction m generalizing h U V with
  | ret a => exact hQ a h U V hUV hs
  | fail f => exact trivial
  | getPage p k ih => exact ⟨fun q hq => hs.1 q (hUV hq), fun time => ih _ (hs.2 time) hUV⟩
  | load ptr k ih => exact ⟨hs.1, fun buf => ih _ (hs.2 buf) hUV⟩
  | store o ptr buf k ih => exact ⟨hs.1, ih hs.2 (Set.union_subset_union_left _ hUV)⟩
  | markDirty p k ih => exact ⟨hs.1, ih hs.2 (Set.sdiff_subset_sdiff_left hUV)⟩
  | unusedPage k ih => exact fun p => ih p (hs p) hUV
  | flushAll k ih => exact ih hs hUV

theorem safe_pure {a : α} (hq : Q a h U) : Safe n (pure a) h U Q := hq

/-- A program that stops has nothing to rely on. -/
theorem safe_fail {f : Fault} : Safe n (.fail f : PageProg α) h U Q := trivial

/-- A computation on the bytes at hand. -/
theorem safe_lift {e : Except Fault α} (hq : ∀ a, e = .ok a → Q a h U) :
    Safe n (lift e) h U Q := by
  cases e with
  | error f => exact trivial
  | ok a => exact hq a rfl

/-- **The rule of a branch.** -/
theorem safe_ite {c : Prop} [Decidable c] {m' : PageProg α} (ht : c → Safe n m h U Q)
    (he : ¬ c → Safe n m' h U Q) : Safe n (if c then m else m') h U Q := by
  split
  case isTrue hc => exact ht hc
  case isFalse hc => exact he hc

section Requests

variable {p k : ℕ} {ptr : PagePtr} {o : Owner} {buf : Page} {P : PagePtr → Hold → Set ℕ → Prop}
  {R : Unit → Hold → Set ℕ → Prop}

/-- **A request for a page**, when no page is unmarked. -/
theorem safe_getPage (hq : ∀ time, P ⟨p, time⟩ (h.request n ⟨p, time⟩) ∅) :
    Safe n (Pool.getPage p) h ∅ P := ⟨fun q hq => absurd hq (Set.notMem_empty q), hq⟩

/-- **A request for a page** that leaves the one unmarked page in memory. -/
theorem safe_getPage_of_at (hat : ∀ time, (h.request n ⟨p, time⟩).At k ptr)
    (hq : ∀ time, P ⟨p, time⟩ (h.request n ⟨p, time⟩) {ptr.page}) :
    Safe n (Pool.getPage p) h {ptr.page} P := by
  refine ⟨fun q hq' => ?_, hq⟩
  rw [Set.mem_singleton_iff.mp hq']
  exact (hat 0).mem_window

theorem safe_load {Q : Page → Hold → Set ℕ → Prop} (hl : h.live ptr) (hq : ∀ buf, Q buf h U) :
    Safe n (Pool.load ptr) h U Q := ⟨hl, hq⟩

theorem safe_store (hl : h.live ptr) (hq : R () h (U ∪ {ptr.page})) :
    Safe n (Pool.store o ptr buf) h U R := ⟨hl, hq⟩

theorem safe_markDirty (hp : p ∈ h.window) (hq : R () h (U \ {p})) :
    Safe n (Pool.markDirty p) h U R := ⟨hp, hq⟩

theorem safe_getUnusedPageNum {Q : ℕ → Hold → Set ℕ → Prop} (hq : ∀ p, Q p h U) :
    Safe n Pool.getUnusedPageNum h U Q := hq

theorem safe_flushAll (hq : R () h U) : Safe n Pool.flushAll h U R := hq

end Requests

/-! ### What a safe program does next -/

section Next

variable {p : ℕ} {ptr : PagePtr} {o : Owner} {buf : Page}

theorem Safe.ret {a : α} (hs : Safe n (.ret a) h U Q) : Q a h U := hs

theorem Safe.getPage {k : PagePtr → PageProg α} (hs : Safe n (.getPage p k) h U Q) :
    (∀ q ∈ U, q ∈ Recency.touch n p h.window)
      ∧ ∀ time, Safe n (k ⟨p, time⟩) (h.request n ⟨p, time⟩) U Q := hs

theorem Safe.load {k : Page → PageProg α} (hs : Safe n (.load ptr k) h U Q) :
    h.live ptr ∧ ∀ buf, Safe n (k buf) h U Q := hs

theorem Safe.store (hs : Safe n (.store o ptr buf m) h U Q) :
    h.live ptr ∧ Safe n m h (U ∪ {ptr.page}) Q := hs

theorem Safe.markDirty (hs : Safe n (.markDirty p m) h U Q) :
    p ∈ h.window ∧ Safe n m h (U \ {p}) Q := hs

theorem Safe.unusedPage {k : ℕ → PageProg α} (hs : Safe n (.unusedPage k) h U Q) (p : ℕ) :
    Safe n (k p) h U Q := hs p

theorem Safe.flushAll (hs : Safe n (.flushAll m) h U Q) : Safe n m h U Q := hs

end Next

/-- **A descending loop** whose body keeps `I`. -/
theorem safe_forDown {body : ℕ → PageProg Unit} {I : Hold → Set ℕ → Prop}
    (hbody : ∀ i h U, I h U → Safe n (body i) h U (fun _ => I)) :
    ∀ (k lo : ℕ) (h : Hold) (U : Set ℕ), I h U → Safe n (forDown body k lo) h U (fun _ => I)
  | 0, _, _, _, hi => hi
  | k + 1, lo, h, U, hi => ((hbody (lo + k) h U hi).mono (fun _ h' U' hi' =>
      safe_forDown hbody k lo h' U' hi')).bind

-- from here on a program is taken apart by the rules alone
attribute [irreducible] Safe

/-- **A program that can be run on its own**: it is safe in every pool whose
pages written were marked, and marks the pages it writes. -/
def Tidy (n : ℕ) (m : PageProg α) : Prop := ∀ h, Safe n m h ∅ (fun _ _ U' => U' = ∅)

theorem Tidy.bind {f : α → PageProg β} (hm : Tidy n m) (hf : ∀ a, Tidy n (f a)) :
    Tidy n (m >>= f) := fun h => ((hm h).mono (fun a h' U' hU => by rw [hU]; exact hf a h')).bind

theorem tidy_pure (a : α) : Tidy n (pure a) := fun _ => safe_pure rfl

theorem tidy_ite {c : Prop} [Decidable c] {m' : PageProg α} (ht : Tidy n m) (he : Tidy n m') :
    Tidy n (if c then m else m') := fun h => safe_ite (fun _ => ht h) (fun _ => he h)

end PageProg
