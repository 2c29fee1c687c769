import SqlMini.PageDiscipline
import SqlMini.Table

/-!
# The operations need three pages

Every operation of the B-tree and of the table is safe in a pool that keeps at
least three pages. A descent holds one pointer, to the node requested last. A
leaf that is split is held beside the new one, and a new root beside its two
children: then the old root is third, and it is not dropped because the next
request is for one of the two others. An inner node that is split was written
before it is marked, while two pages are requested; it is third when it is
marked.
-/

namespace BTree

open PageProg

variable {n : ℕ} {h : Hold} {U : Set ℕ} {ptr old new node : PagePtr}

section Setters

variable {R : Unit → Hold → Set ℕ → Prop}

theorem safe_modify {f : Page → Page} (hl : h.live ptr) (hq : R () h (U ∪ {ptr.page})) :
    Safe n (modify ptr f) h U R := (safe_load hl (fun _ => safe_store hl hq)).bind

theorem safe_modifyChecked {f : Page → Except Fault Page} (hl : h.live ptr)
    (hq : R () h (U ∪ {ptr.page})) : Safe n (modifyChecked ptr f) h U R :=
  (safe_load hl (fun _ => (safe_lift (fun _ _ => safe_store hl hq)).bind)).bind

/-- A write to the one page that is unmarked. -/
theorem safe_modify_self {f : Page → Page} (hl : h.live ptr) (hq : R () h {ptr.page}) :
    Safe n (modify ptr f) h {ptr.page} R :=
  safe_modify hl (by rwa [Set.union_self])

theorem safe_modifyChecked_self {f : Page → Except Fault Page} (hl : h.live ptr)
    (hq : R () h {ptr.page}) : Safe n (modifyChecked ptr f) h {ptr.page} R :=
  safe_modifyChecked hl (by rwa [Set.union_self])

/-- The one unmarked page is marked. -/
theorem safe_markDirty_self {p : ℕ} (hp : p ∈ h.window) (hq : R () h ∅) :
    Safe n (Pool.markDirty p) h {p} R := safe_markDirty hp (by rwa [Set.sdiff_self])

end Setters

theorem tidy_construct (isNew : Bool) : Tidy n (construct isNew) := by
  intro h
  refine (safe_getPage (fun time => ?_)).bind
  refine safe_ite (fun _ => ?_) (fun _ => safe_pure rfl)
  refine (safe_modify Hold.at_request_self.live ?_).bind
  rw [Set.empty_union]
  exact safe_markDirty_self Hold.at_request_self.mem_window rfl

/-! ## Searching -/

/-- **A descent** holds the node requested last. -/
theorem safe_descend (key : ℕ) : ∀ (fuel cur : ℕ) (ptr : PagePtr) (ancestors : Ancestors)
    (h : Hold), h.At 1 ptr → ptr.page = cur → Safe n (descend key fuel cur ptr ancestors) h ∅
      (fun r h' U' => U' = ∅ ∧ h'.At 1 r.2.1 ∧ r.2.1.page = r.1)
  | 0, _, _, _, _, _, _ => safe_fail
  | fuel + 1, cur, ptr, ancestors, h, hat, hcur => by
    refine (safe_load hat.live (fun buf => ?_)).bind
    refine safe_ite (fun _ => ?_) (fun _ => safe_pure ⟨rfl, hat, hcur⟩)
    refine (safe_lift (fun next _ => ?_)).bind
    refine (safe_getPage (fun time => ?_)).bind
    exact safe_descend key fuel next.1 _ _ _ Hold.at_request_self rfl

/-- The root is requested and the tree descended. -/
theorem safe_search {α : Type} {key : ℕ} {k : ℕ × PagePtr × Ancestors → PageProg α}
    {Q : α → Hold → Set ℕ → Prop}
    (hk : ∀ r h', h'.At 1 r.2.1 → r.2.1.page = r.1 → Safe n (k r) h' ∅ Q) :
    Safe n (do
      let root ← Pool.getPage rootPageId
      let r ← descend key uint32Size rootPageId root []
      k r) h ∅ Q := by
  refine (safe_getPage (fun time => ?_)).bind
  have hdown := safe_descend (n := n) key uint32Size rootPageId ⟨rootPageId, time⟩ []
    (h.request n ⟨rootPageId, time⟩) Hold.at_request_self rfl
  refine Safe.bind (hdown.mono ?_)
  rintro r h' U' ⟨rfl, hat, hcur⟩
  exact hk r h' hat hcur

theorem tidy_find (k : ℕ) : Tidy n (find k) := by
  refine fun h => safe_search (fun r h' hat _ => ?_)
  refine (safe_load hat.live (fun buf => ?_)).bind
  refine (safe_lift (fun idx _ => ?_)).bind
  refine (safe_lift (fun hit _ => ?_)).bind
  refine safe_ite (fun _ => ?_) (fun _ => safe_pure rfl)
  exact (safe_lift (fun _ _ => safe_pure rfl)).bind

theorem tidy_remove (k : ℕ) : Tidy n (remove k) := by
  refine fun h => safe_search (fun r h' hat hcur => ?_)
  refine (safe_load hat.live (fun buf => ?_)).bind
  refine (safe_lift (fun idx _ => ?_)).bind
  refine (safe_lift (fun hit _ => ?_)).bind
  refine safe_ite (fun _ => safe_pure rfl) (fun _ => ?_)
  refine (safe_lift (fun val _ => ?_)).bind
  refine safe_ite (fun _ => safe_pure rfl) (fun _ => ?_)
  refine (safe_modifyChecked hat.live ?_).bind
  rw [Set.empty_union, hcur]
  exact (safe_markDirty_self (hcur ▸ hat.mem_window) (safe_pure rfl)).bind

/-! ## Splitting -/

/-- **A new root** holds the old one through two more requests. -/
theorem safe_createNewRoot {oldId rightId : ℕ} (hn : 3 ≤ n) (hold : h.At 2 old)
    (hpage : old.page = oldId) (hright : rightId ∈ h.window.take 2) :
    Safe n (createNewRoot old oldId rightId) h ∅ (fun _ _ U' => U' = ∅) := by
  refine (safe_getUnusedPageNum (fun leftId => ?_)).bind
  refine (safe_getPage (fun time => ?_)).bind
  have hleft : (h.request n ⟨leftId, time⟩).At 1 ⟨leftId, time⟩ := Hold.at_request_self
  have hold' : (h.request n ⟨leftId, time⟩).At 3 old := hold.request (by omega)
  have hright' : rightId ∈ (h.request n ⟨leftId, time⟩).window.take 3 :=
    Recency.mem_take_touch hright (by omega)
  refine (safe_load hold'.live (fun _ => ?_)).bind
  refine (safe_store hleft.live ?_).bind
  rw [Set.empty_union]
  refine (safe_modify_self hleft.live ?_).bind
  refine (safe_markDirty_self hleft.mem_window ?_).bind
  refine (safe_modify hold'.live ?_).bind
  rw [Set.empty_union]
  refine (safe_modify_self hold'.live ?_).bind
  -- the old root is third, and the page requested next is one of the three
  refine (safe_getPage_of_at (fun time' => hold'.request_of_mem hright') (fun time' => ?_)).bind
  have hold'' : ((h.request n ⟨leftId, time⟩).request n ⟨rightId, time'⟩).At 3 old :=
    hold'.request_of_mem hright'
  refine (safe_modifyChecked_self hold''.live ?_).bind
  refine (safe_load Hold.at_request_self.live (fun _ => ?_)).bind
  refine (safe_lift (fun sep _ => ?_)).bind
  refine (safe_modifyChecked_self hold''.live ?_).bind
  refine (safe_modify_self hold''.live ?_).bind
  rw [hpage]
  exact safe_markDirty_self (hpage ▸ hold''.mem_window) rfl

/-- **The pages written are marked.** -/
abbrev Ends (n : ℕ) (m : PageProg Unit) (h : Hold) (U : Set ℕ) : Prop :=
  Safe n m h U (fun _ _ U' => U' = ∅)

theorem Ends.subset {m : PageProg Unit} {V : Set ℕ} (hs : Ends n m h V) (hUV : U ⊆ V) :
    Ends n m h U := Safe.subset hs hUV (fun _ _ _ _ hsub hV => Set.subset_eq_empty hsub hV)

/-- **An inner node that is split** is written first and marked last. -/
theorem tidy_internalNodeSplitAndInsert {nodeId sepKey rightChildId : ℕ}
    {k : ℕ → ℕ → PageProg Unit} (hn : 3 ≤ n) (hk : ∀ pushedKey newId, Tidy n (k pushedKey newId)) :
    Tidy n (internalNodeSplitAndInsert nodeId sepKey rightChildId k) := by
  intro h
  refine (safe_getPage (fun time => ?_)).bind
  have hnode : (h.request n ⟨nodeId, time⟩).At 1 ⟨nodeId, time⟩ := Hold.at_request_self
  generalize h.request n ⟨nodeId, time⟩ = h₁ at hnode
  refine (safe_load hnode.live (fun buf => ?_)).bind
  dsimp only
  refine (safe_lift (fun oldKeys _ => ?_)).bind
  refine (safe_lift (fun oldCh _ => ?_)).bind
  refine (safe_lift (fun merged _ => ?_)).bind
  refine (safe_modifyChecked hnode.live ?_).bind
  rw [Set.empty_union]
  refine (safe_getUnusedPageNum (fun rightId => ?_)).bind
  refine (safe_getPage_of_at (fun _ => hnode.request (by omega)) (fun time' => ?_)).bind
  have hright : (h₁.request n ⟨rightId, time'⟩).At 1 ⟨rightId, time'⟩ := Hold.at_request_self
  have hnode' : (h₁.request n ⟨rightId, time'⟩).At 2 ⟨nodeId, time⟩ := hnode.request (by omega)
  generalize h₁.request n ⟨rightId, time'⟩ = h₂ at hright hnode'
  refine (safe_modifyChecked hright.live ?_).bind
  refine (safe_markDirty hright.mem_window ?_).bind
  -- whatever the new page is, at most the node is unmarked now
  refine Ends.subset (V := {nodeId}) ?_ (by simp)
  refine safe_ite (fun _ => ?_) (fun _ => ?_)
  · refine (safe_getUnusedPageNum (fun leftId => ?_)).bind
    refine (safe_getPage_of_at (fun _ => hnode'.request (by omega)) (fun time'' => ?_)).bind
    have hleft : (h₂.request n ⟨leftId, time''⟩).At 1 ⟨leftId, time''⟩ := Hold.at_request_self
    have hnode'' : (h₂.request n ⟨leftId, time''⟩).At 3 ⟨nodeId, time⟩ := hnode'.request (by omega)
    generalize h₂.request n ⟨leftId, time''⟩ = h₃ at hleft hnode''
    refine (safe_load hnode''.live (fun _ => ?_)).bind
    refine (safe_store hleft.live ?_).bind
    refine (safe_modify hleft.live ?_).bind
    refine (safe_markDirty hleft.mem_window ?_).bind
    refine Ends.subset (V := {nodeId}) ?_ (by simp)
    refine (safe_modify_self hnode''.live ?_).bind
    refine (safe_modify_self hnode''.live ?_).bind
    refine (safe_modifyChecked_self hnode''.live ?_).bind
    refine (safe_modifyChecked_self hnode''.live ?_).bind
    refine (safe_modify_self hnode''.live ?_).bind
    exact safe_markDirty_self hnode''.mem_window rfl
  · refine (safe_modify_self hnode'.live ?_).bind
    refine (safe_markDirty_self hnode'.mem_window ?_).bind
    exact hk _ _ _

/-- **The way up** holds one parent at a time. -/
theorem tidy_insertIntoParent (hn : 3 ≤ n) : ∀ (ancestors : Ancestors) (sepKey rightId : ℕ),
    Tidy n (insertIntoParent sepKey rightId ancestors)
  | [], _, _ => fun _ => safe_fail
  | (parentId, slot) :: ancestors, sepKey, rightId => by
    intro h
    refine (safe_getPage (fun time => ?_)).bind
    have hparent : (h.request n ⟨parentId, time⟩).At 1 ⟨parentId, time⟩ := Hold.at_request_self
    refine (safe_load hparent.live (fun buf => ?_)).bind
    refine safe_ite (fun _ => ?_) (fun _ => ?_)
    · refine (safe_modifyChecked hparent.live ?_).bind
      rw [Set.empty_union]
      exact safe_markDirty_self hparent.mem_window rfl
    · exact tidy_internalNodeSplitAndInsert hn
        (fun pushedKey newId => tidy_insertIntoParent hn ancestors pushedKey newId) _

/-- One step of the redistribution writes one of the halves. -/
theorem safe_redistribute {k v split i : ℕ} {ins : ℤ} (hold : h.live old) (hnew : h.live new)
    (hU : U ⊆ {old.page, new.page}) : Safe n (redistribute old new k v ins split i) h U
      (fun _ h' U' => h' = h ∧ U' ⊆ {old.page, new.page}) := by
  refine (safe_load hold (fun buf => ?_)).bind
  refine (safe_lift (fun c _ => ?_)).bind
  split
  · exact safe_modifyChecked hnew ⟨rfl, Set.union_subset hU (by simp)⟩
  · exact safe_modifyChecked hold ⟨rfl, Set.union_subset hU (by simp)⟩

/-- **A leaf that is split** is held beside the new one. -/
theorem ends_leafNodeSplitAndInsert {oldId k v : ℕ} {ancestors : Ancestors} (hn : 3 ≤ n)
    (hold : h.At 1 old) (hpage : old.page = oldId) :
    Ends n (leafNodeSplitAndInsert old oldId k v ancestors) h ∅ := by
  subst hpage
  refine (safe_getUnusedPageNum (fun newId => ?_)).bind
  refine (safe_getPage (fun time => ?_)).bind
  have hnew : (h.request n ⟨newId, time⟩).At 1 ⟨newId, time⟩ := Hold.at_request_self
  have hold' : (h.request n ⟨newId, time⟩).At 2 old := hold.request (by omega)
  have hnewId : newId ∈ (h.request n ⟨newId, time⟩).window.take 2 :=
    (List.take_subset_take_left _ (by omega)) hnew.recent
  generalize h.request n ⟨newId, time⟩ = h₁ at hnew hold' hnewId
  refine (safe_modify hnew.live ?_).bind
  refine (safe_load hold'.live (fun _ => ?_)).bind
  refine (safe_modify hnew.live ?_).bind
  refine (safe_modify hold'.live ?_).bind
  refine (safe_load hold'.live (fun _ => ?_)).bind
  refine (safe_lift (fun ins _ => ?_)).bind
  -- both pages are written until the loop is over
  refine ((safe_forDown (I := fun h' U' => h' = h₁ ∧ U' ⊆ {old.page, newId}) ?_ _ 0 h₁ _
    ⟨rfl, by simp⟩).mono ?_).bind
  · rintro i h' U' ⟨rfl, hU⟩
    exact safe_redistribute hold'.live hnew.live hU
  rintro - h' U' ⟨rfl, hU⟩
  refine (safe_modify hold'.live ?_).bind
  refine (safe_modify hnew.live ?_).bind
  refine (safe_markDirty hold'.mem_window ?_).bind
  refine (safe_markDirty hnew.mem_window ?_).bind
  refine Ends.subset (V := ∅) ?_ ?_
  · refine (safe_load hnew.live (fun _ => ?_)).bind
    refine (safe_lift (fun separator _ => ?_)).bind
    refine (safe_load hold'.live (fun _ => ?_)).bind
    refine safe_ite (fun _ => ?_) (fun _ => ?_)
    · exact safe_createNewRoot hn hold' rfl hnewId
    · exact tidy_insertIntoParent hn _ _ _ _
  · rintro q ⟨⟨(hq | hq) | hq, hne⟩, hne'⟩
    · exact (hU hq).elim hne hne'
    · exact hne hq
    · exact hne' hq

/-- **`insert`** descends and writes one leaf, or splits it. -/
theorem tidy_insert (key value : ℕ) (hn : 3 ≤ n) : Tidy n (BTree.insert key value) := by
  refine fun h => safe_search (fun r h' hat hcur => ?_)
  refine (safe_load hat.live (fun buf => ?_)).bind
  refine safe_ite (fun _ => ?_) (fun _ => ?_)
  · exact ends_leafNodeSplitAndInsert hn hat hcur
  · refine (safe_modifyChecked hat.live ?_).bind
    rw [Set.empty_union, hcur]
    exact safe_markDirty_self (hcur ▸ hat.mem_window) rfl

end BTree

namespace Table

open PageProg BTree

variable {n : ℕ} {t : Table}

theorem tidy_writeMeta : Tidy n (writeMeta t) := by
  intro h
  refine (safe_getPage (fun time => ?_)).bind
  refine (safe_load Hold.at_request_self.live (fun buf => ?_)).bind
  refine (safe_lift (fun buf _ => ?_)).bind
  refine (safe_store Hold.at_request_self.live ?_).bind
  rw [Set.empty_union]
  exact safe_markDirty_self Hold.at_request_self.mem_window rfl

/-- `heap_page` hands on a pointer to the page requested last. -/
theorem safe_heapPage {h : Hold} (pageId : ℕ) : Safe n (heapPage pageId) h ∅
    (fun ptr h' U' => U' = ∅ ∧ h'.At 1 ptr ∧ ptr.page = pageId) := by
  refine (safe_getPage (fun time => ?_)).bind
  have hat : (h.request n ⟨pageId, time⟩).At 1 ⟨pageId, time⟩ := Hold.at_request_self
  refine (safe_load hat.live (fun buf => ?_)).bind
  refine safe_ite (fun _ => ?_) (fun _ => safe_pure ⟨rfl, hat, rfl⟩)
  refine (safe_store hat.live ?_).bind
  rw [Set.empty_union]
  exact (safe_markDirty_self hat.mem_window (safe_pure ⟨rfl, hat, rfl⟩)).bind

theorem safe_placeRow {h : Hold} {hbuf : PagePtr} {data : ByteString} (hn : 3 ≤ n)
    (hat : h.At 1 hbuf) (hpage : hbuf.page = t.curHeapPage) :
    Safe n (placeRow t hbuf data) h ∅ (fun _ _ U' => U' = ∅) := by
  refine (safe_load hat.live (fun buf => ?_)).bind
  refine (safe_lift (fun r _ => ?_)).bind
  refine safe_ite (fun _ => safe_pure rfl) (fun _ => ?_)
  refine (safe_store hat.live ?_).bind
  rw [Set.empty_union, hpage]
  refine (safe_markDirty_self (hpage ▸ hat.mem_window) ?_).bind
  exact (tidy_insert _ _ hn).bind (fun _ => tidy_writeMeta.bind (fun _ => tidy_pure _)) h

theorem tidy_insertRow (row : Row) (hn : 3 ≤ n) : Tidy n (insertRow t row) := by
  intro h
  refine ((safe_heapPage t.curHeapPage).mono ?_).bind
  rintro hbuf h' U' ⟨rfl, hat, hpage⟩
  refine (safe_load hat.live (fun buf => ?_)).bind
  refine safe_ite (fun _ => safe_ite (fun _ => safe_pure rfl) (fun _ => ?_))
    (fun _ => safe_placeRow hn hat hpage)
  refine ((safe_heapPage _).mono ?_).bind
  rintro hbuf h'' U'' ⟨rfl, hat, hpage⟩
  exact safe_placeRow hn hat hpage

theorem tidy_fetchRow (packed : CInt) : Tidy n (fetchRow t packed) := by
  intro h
  refine (safe_getPage (fun time => ?_)).bind
  refine (safe_load Hold.at_request_self.live (fun buf => ?_)).bind
  refine (safe_lift (fun r _ => ?_)).bind
  cases r with
  | none => exact safe_pure rfl
  | some r => exact (safe_lift (fun _ _ => safe_pure rfl)).bind

theorem tidy_findByRowid (rowid : ℕ) : Tidy n (findByRowid t rowid) :=
  (tidy_find rowid).bind (fun packed => tidy_ite (tidy_pure _) (tidy_fetchRow packed))

theorem tidy_scanFrom {σ : Type} (cb : Callback σ) : ∀ (k rid count : ℕ) (st : σ),
    Tidy n (scanFrom t cb k rid count st)
  | 0, _, _, _ => tidy_pure _
  | k + 1, rid, count, st => by
    refine (tidy_find rid).bind (fun packed => tidy_ite (tidy_scanFrom cb k _ _ _) ?_)
    refine (tidy_fetchRow packed).bind (fun r => ?_)
    cases r with
    | none => exact tidy_scanFrom cb k _ _ _
    | some row =>
      rcases hcb : cb rid row st with e | ⟨go, st'⟩
      · simp only [hcb]
        exact tidy_pure _
      · cases go with
        | false =>
          simp only [hcb]
          exact tidy_pure _
        | true =>
          simp only [hcb]
          exact tidy_scanFrom cb k _ _ _

theorem tidy_scan {σ : Type} (cb : Callback σ) (st : σ) : Tidy n (scan t cb st) :=
  tidy_scanFrom cb _ _ _ _

theorem tidy_deleteRow (rowid : ℕ) : Tidy n (deleteRow rowid) := by
  refine (tidy_find rowid).bind (fun packed => tidy_ite (tidy_pure _) (fun h => ?_))
  refine (safe_getPage (fun time => ?_)).bind
  have hat : (h.request n ⟨ptrPage packed.toUInt, time⟩).At 1 ⟨ptrPage packed.toUInt, time⟩ :=
    Hold.at_request_self
  refine (safe_load hat.live (fun buf => ?_)).bind
  refine (safe_lift (fun buf _ => ?_)).bind
  refine (safe_store hat.live ?_).bind
  rw [Set.empty_union]
  refine (safe_markDirty_self hat.mem_window ?_).bind
  exact (tidy_remove rowid).bind (fun _ => tidy_pure _) _

theorem tidy_deleteAll : ∀ (rids : List ℕ) (count : ℕ), Tidy n (deleteAll rids count)
  | [], count => tidy_pure count
  | rid :: rids, _ => (tidy_deleteRow rid).bind (fun _ => tidy_deleteAll rids _)

theorem tidy_deleteWhere (pred : ℕ → Row → Except StdException Bool) :
    Tidy n (deleteWhere t pred) := by
  refine (tidy_scan _ _).bind (fun r => ?_)
  cases r with
  | error e => exact tidy_pure _
  | ok r => exact (tidy_deleteAll r.2 0).bind (fun _ => tidy_pure _)

end Table
