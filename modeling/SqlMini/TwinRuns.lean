import SqlMini.PageProgram

/-!
# Programs and the clock

An array of pages carries two things that no operation looks at: the number of
requests served, which only tells pointers apart, and the log. `Store.Like`
relates arrays that differ in these two, and `Twin m m' R` two programs that
take such arrays to such arrays, and return results related by `R`, or stop
with the same fault. The two programs are mostly one, with other pointers to
the same pages; the rules take them apart together.
-/

/-- **Arrays of the same pages**, with the same counters. -/
structure Store.Like (s s' : Store) : Prop where
  pages : s'.pages = s.pages
  nextPageId : s'.nextPageId = s.nextPageId
  extent : s'.extent = s.extent

namespace Store.Like

variable {s s' s'' : Store}

theorem refl (s : Store) : Like s s := ⟨rfl, rfl, rfl⟩

theorem trans (h : Like s s') (h' : Like s' s'') : Like s s'' :=
  ⟨h'.pages.trans h.pages, h'.nextPageId.trans h.nextPageId, h'.extent.trans h.extent⟩

theorem touch (h : Like s s') (p : ℕ) : Like (s.touch p) (s'.touch p) :=
  ⟨h.pages, congrArg (bumpPageId p) h.nextPageId, h.extent⟩

theorem put (h : Like s s') (o : Owner) (p : ℕ) (buf : Page) :
    Like (s.put o p buf) (s'.put o p buf) :=
  ⟨congrArg (fun pages : ℕ → Page => Function.update pages p buf) h.pages, h.nextPageId, h.extent⟩

theorem mark (h : Like s s') (p : ℕ) : Like (s.mark p) (s'.mark p) :=
  ⟨h.pages, h.nextPageId, congrArg (max · (p + 1)) h.extent⟩

theorem handOut (h : Like s s') : Like s.handOut s'.handOut :=
  ⟨h.pages, congrArg (fun n => (n + 1) % uint32Size) h.nextPageId, h.extent⟩

end Store.Like

namespace PageProg

variable {α β γ δ : Type}

/-- **Two programs that do the same** on the same pages. -/
def Twin (m : PageProg α) (m' : PageProg β) (R : α → β → Prop) : Prop :=
  ∀ s s', s.Like s' → (∃ f, m.run s = .error f ∧ m'.run s' = .error f)
    ∨ ∃ a t b t', m.run s = .ok (a, t) ∧ m'.run s' = .ok (b, t') ∧ t.Like t' ∧ R a b

variable {m : PageProg α} {m' : PageProg β} {R : α → β → Prop}

/-- **The rule of composition.** -/
theorem Twin.bind {f : α → PageProg γ} {f' : β → PageProg δ} {Q : γ → δ → Prop}
    (h : Twin m m' R) (hf : ∀ a b, R a b → Twin (f a) (f' b) Q) :
    Twin (m >>= f) (m' >>= f') Q := by
  intro s s' hs
  rw [run_bind, run_bind]
  rcases h s s' hs with ⟨e, hm, hm'⟩ | ⟨a, t, b, t', hm, hm', hlike, hr⟩
  · exact Or.inl ⟨e, by rw [hm]; rfl, by rw [hm']; rfl⟩
  · rw [hm, hm']
    exact hf a b hr t t' hlike

/-- A first part that returns the same. -/
theorem Twin.bind_eq {m m' : PageProg α} {f f' : α → PageProg γ} {Q : γ → γ → Prop}
    (h : Twin m m' Eq) (hf : ∀ a, Twin (f a) (f' a) Q) : Twin (m >>= f) (m' >>= f') Q := by
  refine h.bind ?_
  rintro a _ rfl
  exact hf a

theorem twin_pure {a : α} {b : β} (hr : R a b) : Twin (pure a) (pure b) R :=
  fun s s' hs => Or.inr ⟨a, s, b, s', rfl, rfl, hs, hr⟩

theorem twin_fail (f : Fault) : Twin (.fail f : PageProg α) (.fail f : PageProg β) R :=
  fun _ _ _ => Or.inl ⟨f, rfl, rfl⟩

/-- A computation on the same bytes. -/
theorem twin_lift (e : Except Fault α) : Twin (lift e) (lift e) Eq := by
  cases e with
  | error f => exact twin_fail f
  | ok a => exact twin_pure rfl

/-- **The rule of a branch.** -/
theorem twin_ite {c : Prop} [Decidable c] {l : PageProg α} {l' : PageProg β}
    (ht : Twin m m' R) (he : Twin l l' R) :
    Twin (if c then m else l) (if c then m' else l') R := by
  split
  · exact ht
  · exact he

/-- **A program that does the same** on the same pages. -/
abbrev Blind (m : PageProg α) : Prop := Twin m m Eq

theorem blind_pure (a : α) : Blind (pure a) := twin_pure rfl

theorem Blind.bind {f : α → PageProg γ} (hm : Blind m) (hf : ∀ a, Blind (f a)) :
    Blind (m >>= f) := Twin.bind_eq hm hf

section Requests

variable {p : ℕ} {ptr ptr' : PagePtr}

/-- Pointers to the same page are returned. -/
theorem twin_getPage (p : ℕ) : Twin (Pool.getPage p) (Pool.getPage p)
    (fun ptr ptr' => ptr.page = ptr'.page) :=
  fun s s' hs => Or.inr ⟨⟨p, s.clock⟩, s.touch p, ⟨p, s'.clock⟩, s'.touch p, rfl, rfl,
    hs.touch p, rfl⟩

theorem twin_load (hp : ptr.page = ptr'.page) : Twin (Pool.load ptr) (Pool.load ptr') Eq :=
  fun s s' hs => Or.inr ⟨s.pages ptr.page, s, s'.pages ptr'.page, s', rfl, rfl, hs,
    by rw [hs.pages, hp]⟩

theorem twin_store (hp : ptr.page = ptr'.page) (o : Owner) (buf : Page) :
    Twin (Pool.store o ptr buf) (Pool.store o ptr' buf) Eq :=
  fun s s' hs => Or.inr ⟨(), s.put o ptr.page buf, (), s'.put o ptr'.page buf, rfl, rfl,
    hp ▸ hs.put o ptr.page buf, rfl⟩

theorem blind_markDirty (p : ℕ) : Blind (Pool.markDirty p) :=
  fun s s' hs => Or.inr ⟨(), s.mark p, (), s'.mark p, rfl, rfl, hs.mark p, rfl⟩

theorem blind_getUnusedPageNum : Blind Pool.getUnusedPageNum :=
  fun s s' hs => Or.inr ⟨s.nextPageId, s.handOut, s'.nextPageId, s'.handOut, rfl, rfl,
    hs.handOut, hs.nextPageId.symm⟩

theorem blind_flushAll : Blind Pool.flushAll :=
  fun s s' hs => Or.inr ⟨(), s, (), s', rfl, rfl, hs, rfl⟩

end Requests

/-- **A descending loop.** -/
theorem twin_forDown {body body' : ℕ → PageProg Unit}
    (hbody : ∀ i, Twin (body i) (body' i) Eq) :
    ∀ k lo, Twin (forDown body k lo) (forDown body' k lo) Eq
  | 0, _ => twin_pure rfl
  | k + 1, lo => (hbody (lo + k)).bind_eq (fun _ => twin_forDown hbody k lo)

/-- What a blind program does on one array it does on another. -/
theorem Blind.run_like {s s' t : Store} {a : α} (hm : Blind m) (hs : s.Like s')
    (hrun : m.run s = .ok (a, t)) : ∃ t', m.run s' = .ok (a, t') ∧ t.Like t' := by
  rcases hm s s' hs with ⟨f, hf, -⟩ | ⟨a', t₁, b, t', hm, hm', hlike, rfl⟩
  · rw [hrun] at hf
    cases hf
  · obtain ⟨rfl, rfl⟩ := Prod.mk.inj (Except.ok.inj (hrun.symm.trans hm))
    exact ⟨t', hm', hlike⟩

-- from here on two programs are taken apart by the rules alone
attribute [irreducible] Twin

end PageProg
