import SqlMini.TwinRuns
import SqlMini.Table

/-!
# The operations do not look at the clock

Every operation of the B-tree and of the table is `Blind`: run on two arrays of
the same pages it returns the same, and leaves the same pages. A pointer enters
an operation only as the page it was obtained for.
-/

namespace BTree

open PageProg

variable {ptr ptr' old old' new new' : PagePtr}

theorem twin_modify (hp : ptr.page = ptr'.page) (f : Page → Page) :
    Twin (modify ptr f) (modify ptr' f) Eq := by
  refine (twin_load hp).bind_eq (fun buf => ?_)
  exact twin_store hp _ _

theorem twin_modifyChecked (hp : ptr.page = ptr'.page) (f : Page → Except Fault Page) :
    Twin (modifyChecked ptr f) (modifyChecked ptr' f) Eq := by
  refine (twin_load hp).bind_eq (fun buf => ?_)
  refine (twin_lift _).bind_eq (fun buf' => ?_)
  exact twin_store hp _ _

/-! ## Searching -/

/-- **Results of a descent** that lead to the same leaf. -/
def SameLeaf (r r' : ℕ × PagePtr × Ancestors) : Prop :=
  r.1 = r'.1 ∧ r.2.1.page = r'.2.1.page ∧ r.2.2 = r'.2.2

theorem twin_descend (key : ℕ) : ∀ (fuel cur : ℕ) (ptr ptr' : PagePtr) (ancestors : Ancestors),
    ptr.page = ptr'.page →
    Twin (descend key fuel cur ptr ancestors) (descend key fuel cur ptr' ancestors) SameLeaf
  | 0, _, _, _, _, _ => twin_fail _
  | fuel + 1, cur, ptr, ptr', ancestors, hp => by
    refine (twin_load hp).bind_eq (fun buf => ?_)
    refine twin_ite ?_ (twin_pure ⟨rfl, hp, rfl⟩)
    refine (twin_lift _).bind_eq (fun next => ?_)
    refine (twin_getPage next.1).bind (fun ptr₁ ptr₂ hp' => ?_)
    exact twin_descend key fuel next.1 ptr₁ ptr₂ _ hp'

/-- The root is requested and the tree descended. -/
theorem twin_search {α : Type} {key : ℕ} {k : ℕ × PagePtr × Ancestors → PageProg α}
    (hk : ∀ r r', SameLeaf r r' → Twin (k r) (k r') Eq) :
    Blind (do
      let root ← Pool.getPage rootPageId
      let r ← descend key uint32Size rootPageId root []
      k r) := by
  refine (twin_getPage rootPageId).bind (fun ptr ptr' hp => ?_)
  exact (twin_descend key _ _ ptr ptr' [] hp).bind hk

theorem blind_find (k : ℕ) : Blind (find k) := by
  refine twin_search ?_
  rintro ⟨cur, node, ancestors⟩ ⟨_, node', _⟩ ⟨rfl, hp, rfl⟩
  refine (twin_load hp).bind_eq (fun buf => ?_)
  refine Blind.bind (twin_lift _) (fun idx => Blind.bind (twin_lift _) (fun hit => ?_))
  exact twin_ite (Blind.bind (twin_lift _) (fun _ => blind_pure _)) (blind_pure _)

theorem blind_remove (k : ℕ) : Blind (remove k) := by
  refine twin_search ?_
  rintro ⟨cur, node, ancestors⟩ ⟨_, node', _⟩ ⟨rfl, hp, rfl⟩
  refine (twin_load hp).bind_eq (fun buf => ?_)
  refine (twin_lift _).bind_eq (fun idx => ?_)
  refine (twin_lift _).bind_eq (fun hit => ?_)
  refine twin_ite (blind_pure _) ?_
  refine (twin_lift _).bind_eq (fun val => ?_)
  refine twin_ite (blind_pure _) ?_
  refine (twin_modifyChecked hp _).bind_eq (fun _ => ?_)
  exact Blind.bind (blind_markDirty _) (fun _ => blind_pure _)

/-! ## Splitting -/

theorem twin_createNewRoot (hold : old.page = old'.page) (oldId rightId : ℕ) :
    Twin (createNewRoot old oldId rightId) (createNewRoot old' oldId rightId) Eq := by
  refine Twin.bind_eq blind_getUnusedPageNum (fun leftId => ?_)
  refine (twin_getPage leftId).bind (fun left left' hleft => ?_)
  refine (twin_load hold).bind_eq (fun buf => ?_)
  refine (twin_store hleft _ _).bind_eq (fun _ => ?_)
  refine (twin_modify hleft _).bind_eq (fun _ => ?_)
  refine Twin.bind_eq (blind_markDirty leftId) (fun _ => ?_)
  refine (twin_modify hold _).bind_eq (fun _ => ?_)
  refine (twin_modify hold _).bind_eq (fun _ => ?_)
  refine (twin_getPage rightId).bind (fun right right' hright => ?_)
  refine (twin_modifyChecked hold _).bind_eq (fun _ => ?_)
  refine (twin_load hright).bind_eq (fun buf => ?_)
  refine (twin_lift _).bind_eq (fun sep => ?_)
  refine (twin_modifyChecked hold _).bind_eq (fun _ => ?_)
  refine (twin_modify hold _).bind_eq (fun _ => ?_)
  exact blind_markDirty _

theorem blind_internalNodeSplitAndInsert {k : ℕ → ℕ → PageProg Unit}
    (hk : ∀ pushedKey newId, Blind (k pushedKey newId)) (nodeId sepKey rightChildId : ℕ) :
    Blind (internalNodeSplitAndInsert nodeId sepKey rightChildId k) := by
  refine (twin_getPage nodeId).bind (fun node node' hnode => ?_)
  refine (twin_load hnode).bind_eq (fun buf => ?_)
  dsimp only
  refine (twin_lift _).bind_eq (fun oldKeys => ?_)
  refine (twin_lift _).bind_eq (fun oldCh => ?_)
  refine (twin_lift _).bind_eq (fun merged => ?_)
  refine (twin_modifyChecked hnode _).bind_eq (fun _ => ?_)
  refine Twin.bind_eq blind_getUnusedPageNum (fun rightId => ?_)
  refine (twin_getPage rightId).bind (fun right right' hright => ?_)
  refine (twin_modifyChecked hright _).bind_eq (fun _ => ?_)
  refine Twin.bind_eq (blind_markDirty rightId) (fun _ => ?_)
  refine twin_ite ?_ ?_
  · refine Twin.bind_eq blind_getUnusedPageNum (fun leftId => ?_)
    refine (twin_getPage leftId).bind (fun left left' hleft => ?_)
    refine (twin_load hnode).bind_eq (fun buf => ?_)
    refine (twin_store hleft _ _).bind_eq (fun _ => ?_)
    refine (twin_modify hleft _).bind_eq (fun _ => ?_)
    refine Twin.bind_eq (blind_markDirty leftId) (fun _ => ?_)
    refine (twin_modify hnode _).bind_eq (fun _ => ?_)
    refine (twin_modify hnode _).bind_eq (fun _ => ?_)
    refine (twin_modifyChecked hnode _).bind_eq (fun _ => ?_)
    refine (twin_modifyChecked hnode _).bind_eq (fun _ => ?_)
    refine (twin_modify hnode _).bind_eq (fun _ => ?_)
    exact blind_markDirty _
  · refine (twin_modify hnode _).bind_eq (fun _ => ?_)
    exact Twin.bind_eq (blind_markDirty nodeId) (fun _ => hk _ _)

theorem blind_insertIntoParent : ∀ (ancestors : Ancestors) (sepKey rightId : ℕ),
    Blind (insertIntoParent sepKey rightId ancestors)
  | [], _, _ => twin_fail _
  | (parentId, slot) :: ancestors, sepKey, rightId => by
    refine (twin_getPage parentId).bind (fun parent parent' hparent => ?_)
    refine (twin_load hparent).bind_eq (fun buf => ?_)
    refine twin_ite ?_ ?_
    · exact (twin_modifyChecked hparent _).bind_eq (fun _ => blind_markDirty _)
    · exact blind_internalNodeSplitAndInsert
        (fun pushedKey newId => blind_insertIntoParent ancestors pushedKey newId) _ _ _

theorem twin_redistribute (hold : old.page = old'.page) (hnew : new.page = new'.page)
    (k v : ℕ) (ins : ℤ) (split i : ℕ) :
    Twin (redistribute old new k v ins split i) (redistribute old' new' k v ins split i) Eq := by
  refine (twin_load hold).bind_eq (fun buf => ?_)
  refine (twin_lift _).bind_eq (fun c => ?_)
  split
  · exact twin_modifyChecked hnew _
  · exact twin_modifyChecked hold _

theorem twin_leafNodeSplitAndInsert (hold : old.page = old'.page) (oldId k v : ℕ)
    (ancestors : Ancestors) : Twin (leafNodeSplitAndInsert old oldId k v ancestors)
      (leafNodeSplitAndInsert old' oldId k v ancestors) Eq := by
  refine Twin.bind_eq blind_getUnusedPageNum (fun newId => ?_)
  refine (twin_getPage newId).bind (fun new new' hnew => ?_)
  refine (twin_modify hnew _).bind_eq (fun _ => ?_)
  refine (twin_load hold).bind_eq (fun buf => ?_)
  refine (twin_modify hnew _).bind_eq (fun _ => ?_)
  refine (twin_modify hold _).bind_eq (fun _ => ?_)
  refine (twin_load hold).bind_eq (fun buf => ?_)
  refine (twin_lift _).bind_eq (fun ins => ?_)
  refine (twin_forDown (fun i => twin_redistribute hold hnew _ _ _ _ i) _ _).bind_eq (fun _ => ?_)
  refine (twin_modify hold _).bind_eq (fun _ => ?_)
  refine (twin_modify hnew _).bind_eq (fun _ => ?_)
  refine Twin.bind_eq (blind_markDirty oldId) (fun _ => ?_)
  refine Twin.bind_eq (blind_markDirty newId) (fun _ => ?_)
  refine (twin_load hnew).bind_eq (fun buf => ?_)
  refine (twin_lift _).bind_eq (fun separator => ?_)
  refine (twin_load hold).bind_eq (fun buf => ?_)
  exact twin_ite (twin_createNewRoot hold _ _) (blind_insertIntoParent _ _ _)

theorem blind_insert (key value : ℕ) : Blind (BTree.insert key value) := by
  refine twin_search ?_
  rintro ⟨cur, node, ancestors⟩ ⟨_, node', _⟩ ⟨rfl, hp, rfl⟩
  refine (twin_load hp).bind_eq (fun buf => ?_)
  refine twin_ite (twin_leafNodeSplitAndInsert hp _ _ _ _) ?_
  exact (twin_modifyChecked hp _).bind_eq (fun _ => blind_markDirty _)

end BTree

namespace Table

open PageProg BTree

variable {t : Table} {hbuf hbuf' : PagePtr}

theorem blind_writeMeta (t : Table) : Blind (writeMeta t) := by
  refine (twin_getPage schemaPageId).bind (fun ptr ptr' hp => ?_)
  refine (twin_load hp).bind_eq (fun buf => ?_)
  refine (twin_lift _).bind_eq (fun buf' => ?_)
  exact (twin_store hp _ _).bind_eq (fun _ => blind_markDirty _)

theorem blind_destruct (t : Table) : Blind (destruct t) :=
  Blind.bind (blind_writeMeta t) (fun _ => blind_flushAll)

/-- `heap_page` hands on a pointer to the page. -/
theorem twin_heapPage (pageId : ℕ) : Twin (heapPage pageId) (heapPage pageId)
    (fun ptr ptr' => ptr.page = ptr'.page) := by
  refine (twin_getPage pageId).bind (fun ptr ptr' hp => ?_)
  refine (twin_load hp).bind_eq (fun buf => ?_)
  refine twin_ite ?_ (twin_pure hp)
  refine (twin_store hp _ _).bind_eq (fun _ => ?_)
  exact Twin.bind_eq (blind_markDirty pageId) (fun _ => twin_pure hp)

theorem twin_placeRow (hp : hbuf.page = hbuf'.page) (t : Table) (data : ByteString) :
    Twin (placeRow t hbuf data) (placeRow t hbuf' data) Eq := by
  refine (twin_load hp).bind_eq (fun buf => ?_)
  refine (twin_lift _).bind_eq (fun r => ?_)
  refine twin_ite (blind_pure _) ?_
  refine (twin_store hp _ _).bind_eq (fun _ => ?_)
  refine Twin.bind_eq (blind_markDirty t.curHeapPage) (fun _ => ?_)
  exact Blind.bind (blind_insert _ _) (fun _ => Blind.bind (blind_writeMeta _)
    (fun _ => blind_pure _))

theorem blind_insertRow (t : Table) (row : Row) : Blind (insertRow t row) := by
  refine (twin_heapPage t.curHeapPage).bind (fun ptr ptr' hp => ?_)
  refine (twin_load hp).bind_eq (fun buf => ?_)
  refine twin_ite (twin_ite (blind_pure _) ?_) (twin_placeRow hp _ _)
  exact (twin_heapPage _).bind (fun ptr ptr' hp => twin_placeRow hp _ _)

theorem blind_fetchRow (t : Table) (packed : CInt) : Blind (fetchRow t packed) := by
  refine (twin_getPage _).bind (fun ptr ptr' hp => ?_)
  refine (twin_load hp).bind_eq (fun buf => ?_)
  refine (twin_lift _).bind_eq (fun r => ?_)
  cases r with
  | none => exact blind_pure _
  | some r => exact Blind.bind (twin_lift _) (fun _ => blind_pure _)

theorem blind_findByRowid (t : Table) (rowid : ℕ) : Blind (findByRowid t rowid) :=
  Blind.bind (blind_find rowid) (fun packed => twin_ite (blind_pure _) (blind_fetchRow t packed))

theorem blind_scanFrom {σ : Type} (t : Table) (cb : Callback σ) :
    ∀ (k rid count : ℕ) (st : σ), Blind (scanFrom t cb k rid count st)
  | 0, _, _, _ => blind_pure _
  | k + 1, rid, count, st => by
    refine Blind.bind (blind_find rid) (fun packed => twin_ite (blind_scanFrom t cb k _ _ _) ?_)
    refine Blind.bind (blind_fetchRow t packed) (fun r => ?_)
    cases r with
    | none => exact blind_scanFrom t cb k _ _ _
    | some row =>
      rcases hcb : cb rid row st with e | ⟨go, st'⟩
      · simp only [hcb]
        exact blind_pure _
      · cases go with
        | false =>
          simp only [hcb]
          exact blind_pure _
        | true =>
          simp only [hcb]
          exact blind_scanFrom t cb k _ _ _

theorem blind_scan {σ : Type} (t : Table) (cb : Callback σ) (st : σ) : Blind (scan t cb st) :=
  blind_scanFrom t cb _ _ _ _

theorem blind_deleteRow (rowid : ℕ) : Blind (deleteRow rowid) := by
  refine Blind.bind (blind_find rowid) (fun packed => twin_ite (blind_pure _) ?_)
  refine (twin_getPage _).bind (fun ptr ptr' hp => ?_)
  refine (twin_load hp).bind_eq (fun buf => ?_)
  refine (twin_lift _).bind_eq (fun buf' => ?_)
  refine (twin_store hp _ _).bind_eq (fun _ => ?_)
  refine Blind.bind (blind_markDirty _) (fun _ => ?_)
  exact Blind.bind (blind_remove rowid) (fun _ => blind_pure _)

theorem blind_deleteAll : ∀ (rids : List ℕ) (count : ℕ), Blind (deleteAll rids count)
  | [], _ => blind_pure _
  | rid :: rids, _ => Blind.bind (blind_deleteRow rid) (fun _ => blind_deleteAll rids _)

theorem blind_deleteWhere (t : Table) (pred : ℕ → Row → Except StdException Bool) :
    Blind (deleteWhere t pred) := by
  refine Blind.bind (blind_scan t _ _) (fun r => ?_)
  rcases r with e | ⟨k, rids⟩
  · exact blind_pure _
  · exact Blind.bind (blind_deleteAll rids 0) (fun _ => blind_pure _)

end Table
