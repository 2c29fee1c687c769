import SqlMini.PoolRuns
import SqlMini.Table

/-!
# What does not reach the file

A pool writes to its file when it drops a page for another one, and when it is
flushed. A program that does not flush (`PageProg.Quiet`) therefore leaves the
file alone, unless the pool is full at the end (`PageProg.Quiet.spares`): a
pool that was full stays full, and one that is not full has dropped nothing.

Of what the B-tree and the table do, only the destructor of a table and the
constructor that creates one flush. Look-ups and scans do not even change a page
(`PageProg.ReadsOnly`): a pool without dirty pages has nothing to write, full or
not, and stays so (`PageProg.ReadsOnly.clean`).
-/

namespace BufferPool

/-- **The file is left alone**, unless the pool is full at the end. -/
structure Spares (pool pool' : BufferPool) : Prop where
  indexed : Indexed pool'
  maxPages : pool'.maxPages = pool.maxPages
  grows : pool.lru.length ≤ pool'.lru.length
  file : pool'.lru.length < pool.maxPages → pool'.pager.file = pool.pager.file

section Spares

variable {pool pool' pool'' : BufferPool} {p n : ℕ} {ptr : PagePtr} {buf : Page} {e : PageEntry}

theorem Indexed.spares_self (h : Indexed pool) : Spares pool pool := ⟨h, rfl, le_rfl, fun _ => rfl⟩

theorem Spares.trans (h : Spares pool pool') (h' : Spares pool' pool'') : Spares pool pool'' where
  indexed := h'.indexed
  maxPages := h'.maxPages.trans h.maxPages
  grows := h.grows.trans h'.grows
  file hroom := by
    have hroom' : pool''.lru.length < pool'.maxPages := by rwa [h.maxPages]
    exact (h'.file hroom').trans (h.file (lt_of_le_of_lt h'.grows hroom))

/-- A change to an entry is none to the file. -/
theorem Indexed.spares_update (h : Indexed pool) {f : PageEntry → PageEntry}
    (hpage : ∀ e, (f e).pageNum = e.pageNum) (hnode : ∀ e, (f e).node = e.node) :
    Spares pool (pool.update n f) where
  indexed := h.update hpage hnode
  maxPages := rfl
  grows := by rw [BufferPool.update, List.length_map]
  file _ := rfl

/-- A page found moves to the front. -/
theorem Indexed.spares_hit (h : Indexed pool) (he : e ∈ pool.lru) : Spares pool (pool.hit e) where
  indexed := h.hit he
  maxPages := rfl
  grows := by
    have hcut := Recency.length_filter_ne h.nodes (List.mem_map_of_mem he)
    rw [List.filter_map, List.length_map, List.length_map] at hcut
    exact hcut.ge
  file _ := rfl

/-- **A request** writes to the file only where the pool is full before and
after it. -/
theorem Indexed.spares_getPage (h : Indexed pool) (hmax : 1 ≤ pool.maxPages)
    (hrun : pool.getPage p = .ok (ptr, pool')) : Spares pool pool' := by
  rcases h.getPage_cases hmax p with ⟨e, he, rfl, hget⟩ | ⟨hp, hroom, hget⟩
    | ⟨hp, rest, e, hl, hfull, hget⟩
  · obtain ⟨-, rfl⟩ := Prod.mk.inj (Except.ok.inj (hget.symm.trans hrun))
    exact h.spares_hit he
  · obtain ⟨-, rfl⟩ := Prod.mk.inj (Except.ok.inj (hget.symm.trans hrun))
    exact ⟨h.read hp hroom, rfl, Nat.le_succ _, fun _ => rfl⟩
  · obtain ⟨-, rfl⟩ := Prod.mk.inj (Except.ok.inj (hget.symm.trans hrun))
    have hlen : pool.lru.length = rest.length + 1 := by rw [hl, List.length_append]; rfl
    have hnot : p ∉ (pool.dropped rest e).resident := by
      intro hmem
      rw [resident, hl, List.map_append] at hp
      exact hp (List.mem_append_left _ hmem)
    have hroom : (pool.dropped rest e).lru.length < (pool.dropped rest e).maxPages := by
      show rest.length < pool.maxPages
      omega
    refine ⟨(h.dropped hl).read hnot hroom, rfl, hlen.le, fun hfree => ?_⟩
    exact absurd (show rest.length + 1 < pool.maxPages from hfree) (by omega)

theorem Indexed.spares_store (h : Indexed pool) (hrun : pool.store ptr buf = .ok pool') :
    Spares pool pool' := by
  unfold store at hrun
  cases ht : pool.target ptr with
  | none =>
    rw [ht] at hrun
    cases hrun
  | some e =>
    rw [ht] at hrun
    rw [← Except.ok.inj hrun]
    exact h.spares_update (fun _ => rfl) (fun _ => rfl)

theorem Indexed.spares_markDirty (h : Indexed pool) (hrun : pool.markDirty p = .ok pool') :
    Spares pool pool' := by
  by_cases hp : p ∈ pool.resident
  · obtain ⟨e, he, rfl⟩ := mem_resident.mp hp
    rw [h.markDirty_eq he] at hrun
    rw [← Except.ok.inj hrun]
    exact h.spares_update (fun _ => rfl) (fun _ => rfl)
  · rw [h.markDirty_eq_error hp] at hrun
    cases hrun

end Spares

/-- **A pool on a file** that has nothing to write. -/
structure Clean (f : PageFile) (pool : BufferPool) : Prop where
  clean : ∀ e ∈ pool.lru, e.dirty = false
  file : pool.pager.file = f

section Clean

variable {f : PageFile} {pool pool' : BufferPool} {p node : ℕ} {ptr : PagePtr}

theorem clean_create (f : PageFile) (frames : ℕ) : Clean f (create (.open f) frames) := ⟨nofun, rfl⟩

theorem Clean.splice (h : Clean f pool) (hrun : pool.splice node = .ok pool') : Clean f pool' := by
  unfold BufferPool.splice at hrun
  cases hfind : pool.lru.find? (fun e => e.node = node) with
  | none =>
    rw [hfind] at hrun
    cases hrun
  | some e =>
    rw [hfind] at hrun
    rw [← Except.ok.inj hrun]
    refine ⟨fun e' he' => ?_, h.file⟩
    rcases List.mem_cons.mp he' with rfl | he'
    · exact h.clean e' (List.mem_of_find?_eq_some hfind)
    · exact h.clean e' (List.mem_filter.mp he').1

/-- The page that is dropped is not written back. -/
theorem Clean.evict (h : Clean f pool) (hrun : pool.evict = .ok pool') : Clean f pool' := by
  unfold BufferPool.evict at hrun
  cases hlast : pool.lru.getLast? with
  | none =>
    rw [hlast] at hrun
    cases hrun
  | some oldest =>
    rw [hlast] at hrun
    have hclean : oldest.dirty = false := h.clean oldest (List.mem_of_getLast? hlast)
    rw [← Except.ok.inj hrun, hclean]
    exact ⟨fun e he => h.clean e (List.mem_of_mem_dropLast he), h.file⟩

theorem Clean.pushFront (h : Clean f pool) (p : ℕ) : Clean f (pool.pushFront p) := by
  refine ⟨fun e he => ?_, h.file⟩
  rcases List.mem_cons.mp he with rfl | he
  · rfl
  · exact h.clean e he

/-- **A request** writes nothing. -/
theorem Clean.getPage (h : Clean f pool) (hrun : pool.getPage p = .ok (ptr, pool')) :
    Clean f pool' := by
  unfold BufferPool.getPage at hrun
  have hbump : Clean f { pool with nextPageId := bumpPageId p pool.nextPageId } := { h with }
  simp only at hrun
  split at hrun
  case h_1 =>
    obtain ⟨pool₁, hsplice, hrun⟩ := Except.bind_eq_ok.mp hrun
    obtain ⟨-, rfl⟩ := Prod.mk.inj (Except.ok.inj hrun)
    exact { hbump.splice hsplice with }
  case h_2 =>
    split at hrun
    case isTrue =>
      obtain ⟨pool₁, hevict, hrun⟩ := Except.bind_eq_ok.mp hrun
      obtain ⟨-, rfl⟩ := Prod.mk.inj (Except.ok.inj hrun)
      exact { (hbump.evict hevict).pushFront p with }
    case isFalse =>
      obtain ⟨-, rfl⟩ := Prod.mk.inj (Except.ok.inj hrun)
      exact { hbump.pushFront p with }

end Clean

end BufferPool

/-! ## Programs that do not flush -/

namespace PageProg

variable {α β : Type}

/-- **A program that does not flush.** -/
def Quiet : PageProg α → Prop
  | ret _ => True
  | fail _ => True
  | getPage _ k => ∀ ptr, Quiet (k ptr)
  | load _ k => ∀ buf, Quiet (k buf)
  | store _ _ _ k => Quiet k
  | markDirty _ k => Quiet k
  | unusedPage k => ∀ p, Quiet (k p)
  | flushAll _ => False

/-- **A program that only reads.** -/
def ReadsOnly : PageProg α → Prop
  | ret _ => True
  | fail _ => True
  | getPage _ k => ∀ ptr, ReadsOnly (k ptr)
  | load _ k => ∀ buf, ReadsOnly (k buf)
  | store _ _ _ _ => False
  | markDirty _ _ => False
  | unusedPage k => ∀ p, ReadsOnly (k p)
  | flushAll _ => False

section Reads

variable {m m' : PageProg α}

theorem ReadsOnly.bind {f : α → PageProg β} (hm : ReadsOnly m) (hf : ∀ a, ReadsOnly (f a)) :
    ReadsOnly (m >>= f) := by
  show ReadsOnly (m.bind f)
  induction m with
  | ret a => exact hf a
  | fail e => exact trivial
  | getPage p k ih => exact fun ptr => ih ptr (hm ptr)
  | load ptr k ih => exact fun buf => ih buf (hm buf)
  | store o ptr buf k ih => exact hm.elim
  | markDirty p k ih => exact hm.elim
  | unusedPage k ih => exact fun p => ih p (hm p)
  | flushAll k ih => exact hm.elim

theorem readsOnly_pure (a : α) : ReadsOnly (pure a) := trivial

theorem readsOnly_fail (f : Fault) : ReadsOnly (.fail f : PageProg α) := trivial

theorem readsOnly_lift (e : Except Fault α) : ReadsOnly (lift e) := by
  cases e with
  | error f => exact trivial
  | ok a => exact trivial

theorem readsOnly_ite {c : Prop} [Decidable c] (ht : ReadsOnly m) (he : ReadsOnly m') :
    ReadsOnly (if c then m else m') := by
  split
  · exact ht
  · exact he

theorem readsOnly_getPage (p : ℕ) : ReadsOnly (Pool.getPage p) := fun _ => trivial

theorem readsOnly_load (ptr : PagePtr) : ReadsOnly (Pool.load ptr) := fun _ => trivial

/-- What only reads does not flush. -/
theorem ReadsOnly.quiet (hm : ReadsOnly m) : Quiet m := by
  induction m with
  | ret a => exact trivial
  | fail e => exact trivial
  | getPage p k ih => exact fun ptr => ih ptr (hm ptr)
  | load ptr k ih => exact fun buf => ih buf (hm buf)
  | store o ptr buf k ih => exact hm.elim
  | markDirty p k ih => exact hm.elim
  | unusedPage k ih => exact fun p => ih p (hm p)
  | flushAll k ih => exact hm.elim

end Reads

section Rules

variable {m m' : PageProg α}

/-- **The rule of composition.** -/
theorem Quiet.bind {f : α → PageProg β} (hm : Quiet m) (hf : ∀ a, Quiet (f a)) :
    Quiet (m >>= f) := by
  show Quiet (m.bind f)
  induction m with
  | ret a => exact hf a
  | fail e => exact trivial
  | getPage p k ih => exact fun ptr => ih ptr (hm ptr)
  | load ptr k ih => exact fun buf => ih buf (hm buf)
  | store o ptr buf k ih => exact ih hm
  | markDirty p k ih => exact ih hm
  | unusedPage k ih => exact fun p => ih p (hm p)
  | flushAll k ih => exact hm.elim

theorem quiet_pure (a : α) : Quiet (pure a) := trivial

/-- A program that stops. -/
theorem quiet_fail (f : Fault) : Quiet (.fail f : PageProg α) := trivial

theorem quiet_lift (e : Except Fault α) : Quiet (lift e) := (readsOnly_lift e).quiet

theorem quiet_ite {c : Prop} [Decidable c] (ht : Quiet m) (he : Quiet m') :
    Quiet (if c then m else m') := by
  split
  · exact ht
  · exact he

theorem quiet_getPage (p : ℕ) : Quiet (Pool.getPage p) := fun _ => trivial

theorem quiet_load (ptr : PagePtr) : Quiet (Pool.load ptr) := fun _ => trivial

theorem quiet_store (o : Owner) (ptr : PagePtr) (buf : Page) : Quiet (Pool.store o ptr buf) :=
  trivial

theorem quiet_markDirty (p : ℕ) : Quiet (Pool.markDirty p) := trivial

theorem quiet_getUnusedPageNum : Quiet Pool.getUnusedPageNum := fun _ => trivial

/-- A descending loop. -/
theorem quiet_forDown {body : ℕ → PageProg Unit} (hbody : ∀ i, Quiet (body i)) :
    ∀ k lo, Quiet (forDown body k lo)
  | 0, _ => quiet_pure _
  | k + 1, lo => (hbody (lo + k)).bind (fun _ => quiet_forDown hbody k lo)

end Rules

open BufferPool in
/-- **A program that does not flush** leaves the file alone, unless the pool is
full at the end. -/
theorem Quiet.spares {m : PageProg α} {pool pool' : BufferPool} {a : α} (hm : Quiet m)
    (hidx : Indexed pool) (hmax : 1 ≤ pool.maxPages) (hrun : m.runPool pool = .ok (a, pool')) :
    Spares pool pool' := by
  induction m generalizing pool with
  | ret b =>
    obtain ⟨-, rfl⟩ := Prod.mk.inj (Except.ok.inj hrun)
    exact hidx.spares_self
  | fail f => cases hrun
  | getPage p k ih =>
    obtain ⟨⟨ptr, pool₁⟩, hget, hrun⟩ := Except.bind_eq_ok.mp hrun
    have h := hidx.spares_getPage hmax hget
    exact h.trans (ih ptr (hm ptr) h.indexed (h.maxPages ▸ hmax) hrun)
  | load ptr k ih =>
    obtain ⟨buf, -, hrun⟩ := Except.bind_eq_ok.mp hrun
    exact ih buf (hm buf) hidx hmax hrun
  | store o ptr buf k ih =>
    obtain ⟨pool₁, hstore, hrun⟩ := Except.bind_eq_ok.mp hrun
    have h := hidx.spares_store hstore
    exact h.trans (ih hm h.indexed (h.maxPages ▸ hmax) hrun)
  | markDirty p k ih =>
    obtain ⟨pool₁, hmark, hrun⟩ := Except.bind_eq_ok.mp hrun
    have h := hidx.spares_markDirty hmark
    exact h.trans (ih hm h.indexed (h.maxPages ▸ hmax) hrun)
  | unusedPage k ih =>
    have h : Spares pool pool.getUnusedPageNum.2 := ⟨{ hidx with }, rfl, le_rfl, fun _ => rfl⟩
    rw [runPool] at hrun
    exact h.trans (ih _ (hm _) h.indexed hmax hrun)
  | flushAll k ih => exact hm.elim

open BufferPool in
/-- **A program that only reads** gives a pool nothing to write. -/
theorem ReadsOnly.clean {m : PageProg α} {f : PageFile} {pool pool' : BufferPool} {a : α}
    (hm : ReadsOnly m) (h : Clean f pool) (hrun : m.runPool pool = .ok (a, pool')) :
    Clean f pool' := by
  induction m generalizing pool with
  | ret b =>
    obtain ⟨-, rfl⟩ := Prod.mk.inj (Except.ok.inj hrun)
    exact h
  | fail e => cases hrun
  | getPage p k ih =>
    obtain ⟨⟨ptr, pool₁⟩, hget, hrun⟩ := Except.bind_eq_ok.mp hrun
    exact ih ptr (hm ptr) (h.getPage hget) hrun
  | load ptr k ih =>
    obtain ⟨buf, -, hrun⟩ := Except.bind_eq_ok.mp hrun
    exact ih buf (hm buf) h hrun
  | store o ptr buf k ih => exact hm.elim
  | markDirty p k ih => exact hm.elim
  | unusedPage k ih =>
    have hnext : Clean f pool.getUnusedPageNum.2 := { h with }
    rw [runPool] at hrun
    exact ih _ (hm _) hnext hrun
  | flushAll k ih => exact hm.elim

-- from here on the rules are enough
attribute [irreducible] Quiet ReadsOnly

end PageProg

/-! ## The B-tree does not flush -/

namespace BTree

open PageProg

variable {ptr old new : PagePtr}

theorem quiet_modify (ptr : PagePtr) (f : Page → Page) : Quiet (modify ptr f) :=
  (quiet_load ptr).bind (fun _ => quiet_store _ _ _)

theorem quiet_modifyChecked (ptr : PagePtr) (f : Page → Except Fault Page) :
    Quiet (modifyChecked ptr f) :=
  (quiet_load ptr).bind (fun _ => (quiet_lift _).bind (fun _ => quiet_store _ _ _))

theorem readsOnly_descend (key : ℕ) : ∀ (fuel cur : ℕ) (ptr : PagePtr) (ancestors : Ancestors),
    ReadsOnly (descend key fuel cur ptr ancestors)
  | 0, _, _, _ => readsOnly_fail _
  | fuel + 1, cur, ptr, ancestors => by
    refine (readsOnly_load ptr).bind (fun buf => readsOnly_ite ?_ (readsOnly_pure _))
    refine (readsOnly_lift _).bind (fun next => (readsOnly_getPage next.1).bind (fun ptr' => ?_))
    exact readsOnly_descend key fuel next.1 ptr' _

theorem readsOnly_find (k : ℕ) : ReadsOnly (find k) := by
  refine (readsOnly_getPage _).bind (fun ptr => (readsOnly_descend k _ _ ptr _).bind ?_)
  rintro ⟨cur, node, ancestors⟩
  refine (readsOnly_load _).bind (fun buf => (readsOnly_lift _).bind (fun idx => ?_))
  refine (readsOnly_lift _).bind (fun hit => readsOnly_ite ?_ (readsOnly_pure _))
  exact (readsOnly_lift _).bind (fun _ => readsOnly_pure _)

/-- The root is requested and the tree descended. -/
theorem quiet_search {α : Type} {key : ℕ} {k : ℕ × PagePtr × Ancestors → PageProg α}
    (hk : ∀ r, Quiet (k r)) : Quiet (do
      let root ← Pool.getPage rootPageId
      let r ← descend key uint32Size rootPageId root []
      k r) :=
  (quiet_getPage _).bind (fun ptr => (readsOnly_descend key _ _ ptr _).quiet.bind hk)

theorem quiet_remove (k : ℕ) : Quiet (remove k) := by
  refine quiet_search ?_
  rintro ⟨cur, node, ancestors⟩
  refine (quiet_load _).bind (fun buf => (quiet_lift _).bind (fun idx => ?_))
  refine (quiet_lift _).bind (fun hit => quiet_ite (quiet_pure _) ?_)
  refine (quiet_lift _).bind (fun val => quiet_ite (quiet_pure _) ?_)
  exact (quiet_modifyChecked _ _).bind (fun _ => (quiet_markDirty _).bind (fun _ => quiet_pure _))

/-- The left half of a root that is split gets a page of its own. -/
theorem quiet_createNewRoot (oldId rightId : ℕ) : Quiet (createNewRoot old oldId rightId) := by
  refine quiet_getUnusedPageNum.bind (fun leftId => (quiet_getPage _).bind (fun left => ?_))
  refine (quiet_load _).bind (fun buf => (quiet_store _ _ _).bind (fun _ => ?_))
  refine (quiet_modify _ _).bind (fun _ => (quiet_markDirty _).bind (fun _ => ?_))
  refine (quiet_modify _ _).bind (fun _ => (quiet_modify _ _).bind (fun _ => ?_))
  refine (quiet_getPage _).bind (fun right => (quiet_modifyChecked _ _).bind (fun _ => ?_))
  refine (quiet_load _).bind (fun buf => (quiet_lift _).bind (fun sep => ?_))
  refine (quiet_modifyChecked _ _).bind (fun _ => (quiet_modify _ _).bind (fun _ => ?_))
  exact quiet_markDirty _

theorem quiet_internalNodeSplitAndInsert {k : ℕ → ℕ → PageProg Unit}
    (hk : ∀ pushedKey newId, Quiet (k pushedKey newId)) (nodeId sepKey rightChildId : ℕ) :
    Quiet (internalNodeSplitAndInsert nodeId sepKey rightChildId k) := by
  refine (quiet_getPage _).bind (fun node => (quiet_load _).bind (fun buf => ?_))
  dsimp only
  refine (quiet_lift _).bind (fun oldKeys => (quiet_lift _).bind (fun oldCh => ?_))
  refine (quiet_lift _).bind (fun merged => (quiet_modifyChecked _ _).bind (fun _ => ?_))
  refine quiet_getUnusedPageNum.bind (fun rightId => (quiet_getPage _).bind (fun right => ?_))
  refine (quiet_modifyChecked _ _).bind (fun _ => (quiet_markDirty _).bind (fun _ => ?_))
  refine quiet_ite ?_ ?_
  · refine quiet_getUnusedPageNum.bind (fun leftId => (quiet_getPage _).bind (fun left => ?_))
    refine (quiet_load _).bind (fun buf => (quiet_store _ _ _).bind (fun _ => ?_))
    refine (quiet_modify _ _).bind (fun _ => (quiet_markDirty _).bind (fun _ => ?_))
    refine (quiet_modify _ _).bind (fun _ => (quiet_modify _ _).bind (fun _ => ?_))
    refine (quiet_modifyChecked _ _).bind (fun _ => (quiet_modifyChecked _ _).bind (fun _ => ?_))
    exact (quiet_modify _ _).bind (fun _ => quiet_markDirty _)
  · exact (quiet_modify _ _).bind (fun _ => (quiet_markDirty _).bind (fun _ => hk _ _))

theorem quiet_insertIntoParent : ∀ (ancestors : Ancestors) (sepKey rightId : ℕ),
    Quiet (insertIntoParent sepKey rightId ancestors)
  | [], _, _ => quiet_fail _
  | (parentId, slot) :: ancestors, sepKey, rightId => by
    refine (quiet_getPage _).bind (fun parent => (quiet_load _).bind (fun buf => ?_))
    refine quiet_ite ?_ ?_
    · exact (quiet_modifyChecked _ _).bind (fun _ => quiet_markDirty _)
    · exact quiet_internalNodeSplitAndInsert
        (fun pushedKey newId => quiet_insertIntoParent ancestors pushedKey newId) _ _ _

theorem quiet_redistribute (old new : PagePtr) (k v : ℕ) (ins : ℤ) (split i : ℕ) :
    Quiet (redistribute old new k v ins split i) :=
  (quiet_load old).bind (fun _ => (quiet_lift _).bind (fun _ => quiet_modifyChecked _ _))

theorem quiet_leafNodeSplitAndInsert (oldId k v : ℕ) (ancestors : Ancestors) :
    Quiet (leafNodeSplitAndInsert old oldId k v ancestors) := by
  refine quiet_getUnusedPageNum.bind (fun newId => (quiet_getPage _).bind (fun new => ?_))
  refine (quiet_modify _ _).bind (fun _ => (quiet_load _).bind (fun buf => ?_))
  refine (quiet_modify _ _).bind (fun _ => (quiet_modify _ _).bind (fun _ => ?_))
  refine (quiet_load _).bind (fun buf => (quiet_lift _).bind (fun ins => ?_))
  refine (quiet_forDown (fun i => quiet_redistribute _ _ _ _ _ _ i) _ _).bind (fun _ => ?_)
  refine (quiet_modify _ _).bind (fun _ => (quiet_modify _ _).bind (fun _ => ?_))
  refine (quiet_markDirty _).bind (fun _ => (quiet_markDirty _).bind (fun _ => ?_))
  refine (quiet_load _).bind (fun buf => (quiet_lift _).bind (fun separator => ?_))
  refine (quiet_load _).bind (fun buf => ?_)
  exact quiet_ite (quiet_createNewRoot _ _) (quiet_insertIntoParent _ _ _)

theorem quiet_insert (key value : ℕ) : Quiet (BTree.insert key value) := by
  refine quiet_search ?_
  rintro ⟨cur, node, ancestors⟩
  refine (quiet_load _).bind (fun buf => ?_)
  refine quiet_ite (quiet_leafNodeSplitAndInsert _ _ _ _) ?_
  exact (quiet_modifyChecked _ _).bind (fun _ => quiet_markDirty _)

end BTree

/-! ## The table flushes when it is created or destroyed -/

namespace Table

open PageProg BTree

variable {t : Table} {hbuf : PagePtr}

theorem quiet_writeMeta (t : Table) : Quiet (writeMeta t) := by
  refine (quiet_getPage _).bind (fun ptr => (quiet_load _).bind (fun buf => ?_))
  refine (quiet_lift _).bind (fun buf' => (quiet_store _ _ _).bind (fun _ => ?_))
  exact quiet_markDirty _

/-- **A table that is stored** is only read. -/
theorem readsOnly_construct_stored (schema : Schema) :
    ReadsOnly (construct schema false false) := by
  refine ReadsOnly.bind ((readsOnly_getPage _).bind (fun _ => readsOnly_pure _)) (fun _ =>
    ReadsOnly.bind ?_ (fun _ => readsOnly_pure _))
  refine (readsOnly_getPage _).bind (fun ptr => (readsOnly_load _).bind (fun buf => ?_))
  exact (readsOnly_lift _).bind (fun _ => readsOnly_pure _)

theorem quiet_heapPage (pageId : ℕ) : Quiet (heapPage pageId) := by
  refine (quiet_getPage _).bind (fun ptr => (quiet_load _).bind (fun buf => ?_))
  refine quiet_ite ?_ (quiet_pure _)
  exact (quiet_store _ _ _).bind (fun _ => (quiet_markDirty _).bind (fun _ => quiet_pure _))

theorem quiet_placeRow (t : Table) (hbuf : PagePtr) (data : ByteString) :
    Quiet (placeRow t hbuf data) := by
  refine (quiet_load _).bind (fun buf => (quiet_lift _).bind (fun r => ?_))
  refine quiet_ite (quiet_pure _) ?_
  refine (quiet_store _ _ _).bind (fun _ => (quiet_markDirty _).bind (fun _ => ?_))
  exact (BTree.quiet_insert _ _).bind (fun _ => (quiet_writeMeta _).bind (fun _ => quiet_pure _))

theorem quiet_insertRow (t : Table) (row : Row) : Quiet (insertRow t row) := by
  refine (quiet_heapPage _).bind (fun hbuf => (quiet_load _).bind (fun buf => ?_))
  refine quiet_ite (quiet_ite (quiet_pure _) ?_) (quiet_placeRow _ _ _)
  exact (quiet_heapPage _).bind (fun hbuf => quiet_placeRow _ _ _)

theorem readsOnly_fetchRow (t : Table) (packed : CInt) : ReadsOnly (fetchRow t packed) := by
  refine (readsOnly_getPage _).bind (fun ptr => (readsOnly_load _).bind (fun buf => ?_))
  refine (readsOnly_lift _).bind (fun r => ?_)
  cases r with
  | none => exact readsOnly_pure _
  | some r => exact (readsOnly_lift _).bind (fun _ => readsOnly_pure _)

theorem readsOnly_findByRowid (t : Table) (rowid : ℕ) : ReadsOnly (findByRowid t rowid) :=
  (readsOnly_find rowid).bind
    (fun packed => readsOnly_ite (readsOnly_pure _) (readsOnly_fetchRow t packed))

theorem readsOnly_scanFrom {σ : Type} (t : Table) (cb : Callback σ) :
    ∀ (k rid count : ℕ) (st : σ), ReadsOnly (scanFrom t cb k rid count st)
  | 0, _, _, _ => readsOnly_pure _
  | k + 1, rid, count, st => by
    refine (readsOnly_find rid).bind
      (fun packed => readsOnly_ite (readsOnly_scanFrom t cb k _ _ _) ?_)
    refine (readsOnly_fetchRow t packed).bind (fun r => ?_)
    cases r with
    | none => exact readsOnly_scanFrom t cb k _ _ _
    | some row =>
      rcases hcb : cb rid row st with e | ⟨go, st'⟩
      · simp only [hcb]
        exact readsOnly_pure _
      · cases go with
        | false =>
          simp only [hcb]
          exact readsOnly_pure _
        | true =>
          simp only [hcb]
          exact readsOnly_scanFrom t cb k _ _ _

theorem readsOnly_scan {σ : Type} (t : Table) (cb : Callback σ) (st : σ) :
    ReadsOnly (scan t cb st) :=
  readsOnly_scanFrom t cb _ _ _ _

theorem quiet_deleteRow (rowid : ℕ) : Quiet (deleteRow rowid) := by
  refine (readsOnly_find rowid).quiet.bind (fun packed => quiet_ite (quiet_pure _) ?_)
  refine (quiet_getPage _).bind (fun ptr => (quiet_load _).bind (fun buf => ?_))
  refine (quiet_lift _).bind (fun buf' => (quiet_store _ _ _).bind (fun _ => ?_))
  refine (quiet_markDirty _).bind (fun _ => ?_)
  exact (quiet_remove rowid).bind (fun _ => quiet_pure _)

theorem quiet_deleteAll : ∀ (rids : List ℕ) (count : ℕ), Quiet (deleteAll rids count)
  | [], _ => quiet_pure _
  | rid :: rids, _ => (quiet_deleteRow rid).bind (fun _ => quiet_deleteAll rids _)

theorem quiet_deleteWhere (t : Table) (pred : ℕ → Row → Except StdException Bool) :
    Quiet (deleteWhere t pred) := by
  refine (readsOnly_scan t _ _).quiet.bind (fun r => ?_)
  rcases r with e | ⟨k, rids⟩
  · exact quiet_pure _
  · exact (quiet_deleteAll rids 0).bind (fun _ => quiet_pure _)

end Table
