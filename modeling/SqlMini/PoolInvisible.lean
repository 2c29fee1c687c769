import SqlMini.SafeOperations
import SqlMini.PoolRuns
import SqlMini.TableRuns
import SqlMini.Engine

/-!
# The pool is invisible

A tree or a table built on a pool that was opened on a file, and any calls of
them: over a pool that keeps three pages or more they return what they return
over the array of the pages of the file, and leave the same pages, in the pool
and, once it is flushed, in the file (`sessions_invisible`). The pool only
enters through the operations being `Tidy`.

`Invisible f max m` says so of a program `m`. A program that stops in a fault
stops in the same one over both.
-/

namespace BufferPool

variable {pool : BufferPool} {bytes : ℕ → Page} {unmarked : ℕ → Prop}

/-- **The page a pool has** under a number: what its buffer holds if it is in
memory, and what the file holds if not. -/
def pageAt (pool : BufferPool) (p : ℕ) : Page :=
  match pool.lru.find? (fun e => e.pageNum = p) with
  | some e => e.buffer
  | none => pool.pager.file.content p

theorem Holds.pageAt_eq (h : Holds bytes unmarked pool) : pool.pageAt = bytes := by
  funext p
  unfold BufferPool.pageAt
  cases hf : pool.lru.find? (fun e => e.pageNum = p) with
  | none =>
    refine h.absent p (fun hmem => ?_)
    obtain ⟨e, he, hp⟩ := mem_resident.mp hmem
    simpa [hp] using List.find?_eq_none.mp hf e he
  | some e =>
    have hp : e.pageNum = p := by simpa using List.find?_some hf
    exact (h.buffered e (List.mem_of_find?_eq_some hf)).trans (congrArg bytes hp)

end BufferPool

/-! ## Invisible programs -/

namespace PageProg

variable {α : Type} {m : PageProg α} {max : ℕ}

/-- **A program cannot see the pool** it runs over, opened on the file `f` and
keeping `max` pages: it uses only what is in memory, and does what it does over
the array of the pages of the file. -/
def Invisible (f : PageFile) (max : ℕ) (m : PageProg α) : Prop :=
  m.Sound (.create (.open f) max) ∅
    ∧ ((∃ fault, m.run (SqlEngine.poolOf f) = .error fault
        ∧ m.runPool (.create (.open f) max) = .error fault)
      ∨ ∃ a s pool, m.run (SqlEngine.poolOf f) = .ok (a, s)
        ∧ m.runPool (.create (.open f) max) = .ok (a, pool)
        ∧ pool.pageAt = s.pages ∧ pool.flushAll.pager.file.content = s.pages)

/-- A pool just opened. -/
theorem sim_create (f : PageFile) (max : ℕ) :
    Sim max ⟨[], fun _ => False⟩ ∅ (SqlEngine.poolOf f) (.create (.open f) max) where
  holds := BufferPool.holds_create (Pager.open f) max
  maxPages := rfl
  window := rfl
  live _ h := h.elim
  nextPageId := rfl
  clock := rfl
  savedSize := rfl

/-- **A tidy program cannot see the pool.** -/
theorem Tidy.invisible (hm : Tidy max m) (hmax : 1 ≤ max) (f : PageFile) :
    Invisible f max m := by
  obtain ⟨hsound, halike⟩ := (hm _).simulates hmax (sim_create f max)
  refine ⟨hsound, halike.imp_right ?_⟩
  rintro ⟨a, s, pool, h', U, hrun, hpool, hsim, rfl⟩
  exact ⟨a, s, pool, hrun, hpool, hsim.holds.pageAt_eq,
    funext fun p => hsim.holds.content_flushAll_of_not (Set.notMem_empty p)⟩

end PageProg

/-! ## The calls -/

/-- **The calls of a tree.** -/
inductive TreeCall where
  /-- `insert(k, v)`. -/
  | insert (k v : Fin uint32Size)
  /-- `find(k)`. -/
  | find (k : Fin uint32Size)
  /-- `remove(k)`. -/
  | remove (k : Fin uint32Size)

/-- **Their results.** -/
inductive TreeResult where
  | inserted
  | found (v : CInt)
  | removed (hit : Bool)

/-- **The calls of a table and of its tree.** -/
inductive PoolCall (σ : Type) where
  | tree (c : TreeCall)
  | table (c : TableOp σ)

/-- **Their results.** -/
inductive PoolResult (σ : Type) where
  | tree (r : TreeResult)
  | table (r : TableResult σ)

open PageProg

/-- One call of a tree. -/
def TreeCall.exec : TreeCall → PageProg TreeResult
  | insert k v => do
    BTree.insert k v
    return .inserted
  | find k => do
    let v ← BTree.find k
    return .found v
  | remove k => do
    let hit ← BTree.remove k
    return .removed hit

/-- One call of a table or of its tree. -/
def PoolCall.exec {σ : Type} (t : Table) : PoolCall σ → PageProg (PoolResult σ × Table)
  | tree c => do
    let r ← c.exec
    return (.tree r, t)
  | table c => do
    let r ← t.exec c
    return (.table r.1, r.2)

/-- **Calls of a tree**, one after the other. -/
def BTree.calls : List TreeCall → PageProg (List TreeResult)
  | [] => pure []
  | c :: cs => do
    let r ← c.exec
    let rs ← BTree.calls cs
    return r :: rs

/-- **Calls of a table and of its tree**, one after the other. -/
def Table.calls {σ : Type} (t : Table) : List (PoolCall σ) → PageProg (List (PoolResult σ) × Table)
  | [] => pure ([], t)
  | c :: cs => do
    let r ← c.exec t
    let rs ← r.2.calls cs
    return (r.1 :: rs.1, rs.2)

/-- A tree is built on a pool over `f`, and called. -/
def BTree.session (f : PageFile) (cs : List TreeCall) : PageProg (List TreeResult) := do
  BTree.construct ((Pager.open f).numPages = 0)
  BTree.calls cs

/-- A table is built on a pool over `f`, new or stored, and called. -/
def Table.session {σ : Type} (f : PageFile) (schema : Schema) (create : Bool)
    (cs : List (PoolCall σ)) : PageProg (List (PoolResult σ) × Table) := do
  let t ← Table.construct schema create ((Pager.open f).numPages = 0)
  t.calls cs

/-! ## The calls are tidy -/

variable {σ : Type} {n : ℕ} {t : Table}

theorem TreeCall.tidy_exec (hn : 3 ≤ n) : ∀ c : TreeCall, Tidy n c.exec
  | insert k v => (BTree.tidy_insert k v hn).bind (fun _ => tidy_pure _)
  | find k => (BTree.tidy_find k).bind (fun _ => tidy_pure _)
  | remove k => (BTree.tidy_remove k).bind (fun _ => tidy_pure _)

theorem Table.tidy_exec (hn : 3 ≤ n) : ∀ c : TableOp σ, Tidy n (t.exec c)
  | .insert row => (tidy_insertRow row hn).bind (fun _ => tidy_pure _)
  | .delete rowid => (tidy_deleteRow rowid).bind (fun _ => tidy_pure _)
  | .deleteWhere pred => (tidy_deleteWhere pred).bind (fun _ => tidy_pure _)
  | .find rowid => (tidy_findByRowid rowid).bind (fun _ => tidy_pure _)
  | .scan cb st => (tidy_scan cb st).bind (fun _ => tidy_pure _)

theorem PoolCall.tidy_exec (hn : 3 ≤ n) : ∀ c : PoolCall σ, Tidy n (c.exec t)
  | tree c => (c.tidy_exec hn).bind (fun _ => tidy_pure _)
  | table c => (Table.tidy_exec hn c).bind (fun _ => tidy_pure _)

theorem BTree.tidy_calls (hn : 3 ≤ n) : ∀ cs : List TreeCall, Tidy n (BTree.calls cs)
  | [] => tidy_pure _
  | c :: cs => (c.tidy_exec hn).bind (fun _ => (BTree.tidy_calls hn cs).bind (fun _ => tidy_pure _))

theorem Table.tidy_calls (hn : 3 ≤ n) : ∀ (cs : List (PoolCall σ)) (t : Table), Tidy n (t.calls cs)
  | [], _ => tidy_pure _
  | c :: cs, _ => (c.tidy_exec hn).bind (fun r =>
      (Table.tidy_calls hn cs r.2).bind (fun _ => tidy_pure _))

theorem Table.tidy_readMeta : Tidy n readMeta := by
  intro h
  refine (safe_getPage (fun time => ?_)).bind
  refine (safe_load Hold.at_request_self.live (fun buf => ?_)).bind
  exact (safe_lift (fun _ _ => safe_pure rfl)).bind

/-- A table that is created formats its heap, and one that is stored reads its
metadata. -/
theorem Table.tidy_construct (schema : Schema) (create isNew : Bool) :
    Tidy n (construct schema create isNew) := by
  refine (BTree.tidy_construct isNew).bind (fun _ => tidy_ite (fun h => ?_) ?_)
  · refine (safe_getPage (fun time => ?_)).bind
    have hat : (h.request n ⟨heapPageBase, time⟩).At 1 ⟨heapPageBase, time⟩ := Hold.at_request_self
    refine (safe_load hat.live (fun buf => ?_)).bind
    refine (safe_store hat.live ?_).bind
    rw [Set.empty_union]
    refine (BTree.safe_markDirty_self hat.mem_window ?_).bind
    exact tidy_writeMeta.bind (fun _ => Tidy.bind (fun _ => safe_flushAll rfl)
      (fun _ => tidy_pure _)) _
  · exact tidy_readMeta.bind (fun _ => tidy_pure _)

/-! ## The pool is invisible -/

/-- **Three pages are enough**: no tree and no table can tell a pool that keeps
three pages or more from the array of the pages of the file. -/
theorem sessions_invisible (f : PageFile) {max : ℕ} (hmax : 3 ≤ max) :
    (∀ cs : List TreeCall, Invisible f max (BTree.session f cs))
      ∧ ∀ (σ : Type) (schema : Schema) (create : Bool) (cs : List (PoolCall σ)),
        Invisible f max (Table.session f schema create cs) := by
  have hone : 1 ≤ max := le_trans (by decide) hmax
  refine ⟨fun cs => ?_, fun σ schema create cs => ?_⟩
  · have htidy : Tidy max (BTree.session f cs) :=
      (BTree.tidy_construct _).bind (fun _ => BTree.tidy_calls hmax cs)
    exact htidy.invisible hone f
  · have htidy : Tidy max (Table.session f schema create cs) :=
      (Table.tidy_construct schema create _).bind (fun t => Table.tidy_calls hmax cs t)
    exact htidy.invisible hone f

/-- Two calls over a pool that keeps three pages. -/
theorem sessions_invisible_three :
    3 ≤ 3 ∧ Invisible .empty 3 (BTree.session .empty [.insert 1 5, .find 1])
      ∧ Invisible .empty 3 (Table.session (σ := Unit) .empty
        ⟨ascii "t", [⟨ascii "a", .int, 4⟩]⟩ true
        [.table (.insert [.makeInt (.ofUInt 7)]), .tree (.find 1)]) := by
  have hthree : 3 ≤ 3 := le_rfl
  exact ⟨hthree, (sessions_invisible .empty hthree).1 _, (sessions_invisible .empty hthree).2 ..⟩
