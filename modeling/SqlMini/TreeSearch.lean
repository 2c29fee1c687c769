import SqlMini.TreeSize

/-!
# Descents

On a tree a descent follows the labels: at each inner node the child it goes
to is the one whose range contains the key (`childFor_covers`), so it ends
in the leaf of the key, the path it recorded leads there, and nothing but
the clock of the pool changed, by one for each level (`runs_descend`). `find`
reads its answer off that leaf (`runs_find`).
-/

/-- The array with another clock. -/
def Store.atClock (s : Store) (c : ℕ) : Store := { s with clock := c }

namespace Store

variable (s : Store) (c : ℕ)

@[simp] theorem pages_atClock : (s.atClock c).pages = s.pages := rfl
@[simp] theorem nextPageId_atClock : (s.atClock c).nextPageId = s.nextPageId := rfl
@[simp] theorem extent_atClock : (s.atClock c).extent = s.extent := rfl
@[simp] theorem log_atClock : (s.atClock c).log = s.log := rfl

/-- An access below `next_page_id` moves the clock. -/
theorem touch_eq_atClock {s : Store} {p : ℕ} (h : p < s.nextPageId) :
    s.touch p = s.atClock (s.clock + 1) := by
  have hn := s.nextPageId_touch_of_lt p h
  show Store.mk _ (s.touch p).nextPageId _ _ _ = _
  rw [hn]
  rfl

theorem touch_atClock {s : Store} {p : ℕ} (c : ℕ) (h : p < s.nextPageId) :
    (s.atClock c).touch p = s.atClock (c + 1) :=
  touch_eq_atClock (show p < (s.atClock c).nextPageId from h)

/-- Moving the clock writes nothing. -/
theorem Within.atClock {o : Owner} {T : ℕ → Prop} {s s' : Store} (h : Within o T s s') (c : ℕ) :
    Within o T s (s'.atClock c) := ⟨h.frame, h.log⟩

end Store

namespace BTree

open PageProg

variable {Leaf : LeafSpec} {T : ℕ → Prop} {lab : ℕ → Label} {H : ℕ} {s : Store}

/-! ## Cells in a list -/

/-- **Where a key is or belongs** in a list of cells. -/
structure FoundIn (cs : List (ℕ × ℕ)) (key idx : ℕ) : Prop where
  /-- The position is one of the list or just past it. -/
  le_length : idx ≤ cs.length
  /-- The keys before are not larger. -/
  before : ∀ c ∈ cs.take idx, c.1 ≤ key
  /-- The keys from there on are not smaller. -/
  after : ∀ c ∈ cs.drop idx, key ≤ c.1
  /-- The key is at the position or nowhere. -/
  hit : (∃ v, cs[idx]? = some (key, v)) ∨ ∀ c ∈ cs, c.1 ≠ key

/-- A cell of the list is a cell of the node. -/
theorem mem_cells {v : NodeView} {c : ℕ × ℕ} : c ∈ v.cells ↔ ∃ j, j < v.num ∧ v.cell j = c := by
  simp [NodeView.cells]

/-- A position found in a node is one in its list of cells. -/
theorem FoundAt.foundIn {v : NodeView} {key idx : ℕ} (h : FoundAt v key idx) :
    FoundIn v.cells key idx := by
  refine ⟨by simpa using h.le_num, fun c hc => ?_, fun c hc => ?_, ?_⟩
  · obtain ⟨j, hj⟩ := List.mem_iff_getElem?.mp hc
    rw [List.getElem?_take, getElem?_cells_eq] at hj
    by_cases hji : j < idx
    · rw [if_pos hji] at hj
      by_cases hjn : j < v.num
      · rw [if_pos hjn, Option.some.injEq] at hj
        rw [← hj]
        exact h.before j hji
      · rw [if_neg hjn] at hj
        cases hj
    · rw [if_neg hji] at hj
      cases hj
  · obtain ⟨j, hj⟩ := List.mem_iff_getElem?.mp hc
    rw [List.getElem?_drop, getElem?_cells_eq] at hj
    by_cases hjn : idx + j < v.num
    · rw [if_pos hjn, Option.some.injEq] at hj
      rw [← hj]
      exact h.after _ (Nat.le_add_right _ _) hjn
    · rw [if_neg hjn] at hj
      cases hj
  · rcases h.hit with ⟨hlt, hkey⟩ | hno
    · refine Or.inl ⟨(v.cell idx).2, ?_⟩
      rw [v.getElem?_cells hlt, ← hkey]
    · refine Or.inr (fun c hc => ?_)
      obtain ⟨j, hj, rfl⟩ := mem_cells.mp hc
      exact hno j hj

/-- A list of cells with sorted keys is a node with sorted keys. -/
theorem sortedKeys_of_pairwise {v : NodeView} (h : v.cells.Pairwise (fun a b => a.1 ≤ b.1)) :
    SortedKeys v := by
  intro i j hij hj
  have hp := List.pairwise_iff_getElem.mp h i j (by simp; omega) (by simpa using hj) hij
  simpa [NodeView.cells] using hp

/-- The element the search returns an index to: the cell at the index, if
its key is the one searched for. -/
def cellFor (cs : List (ℕ × ℕ)) (key idx : ℕ) : Option (ℕ × ℕ) :=
  (cs[idx]?).filter (fun c => c.1 = key)

/-! ## One step down -/

/-- **The child a descent goes to covers the key.** -/
theorem childFor_covers {node : Page} {key p : ℕ} {L : Label} {l : ℕ}
    (h : NodeOk Leaf T lab p (Node.view node) L) (hl : L.lvl = l + 1) (hlo : L.lo ≤ key)
    (hhi : key < L.hi) :
    ∃ c slot, childFor node key = .ok (c, slot) ∧ (Node.view node).children[slot]? = some c
      ∧ T c ∧ (lab c).lvl = l ∧ (lab c).lo ≤ key ∧ key < (lab c).hi := by
  obtain ⟨c, slot, he, hslot, hc⟩ := childFor_spec key h.num_le
  obtain ⟨a, b, c', hc', hcov, ha, hb⟩ := (h.inner l hl).2.route hlo hhi
  rw [← hslot, hc, Option.some.injEq] at hc'
  subst hc'
  refine ⟨c, slot, he, hc, hcov.1, ?_, ?_, ?_⟩
  · rw [hcov.2]
  · rw [hcov.2]
    exact ha
  · rw [hcov.2]
    exact hb

/-! ## The whole way -/

/-- **The leaf a descent ends in.** -/
structure LeafFor (T : ℕ → Prop) (lab : ℕ → Label) (pages : ℕ → Page) (key : ℕ)
    (r : ℕ × PagePtr × Ancestors) : Prop where
  /-- The pointer is one to the page. -/
  ptr : r.2.1.page = r.1
  /-- The page is a page of the tree. -/
  mem : T r.1
  /-- It is a leaf. -/
  lvl : (lab r.1).lvl = 0
  /-- Its range contains the key. -/
  lo : (lab r.1).lo ≤ key
  hi : key < (lab r.1).hi
  /-- The path leads there. -/
  path : Path T lab pages r.2.2 r.1

/-- **A descent ends in the leaf of the key**, after one request for each level
below the page it starts at, and leaves the pages as they were. -/
theorem runs_descend {key : ℕ} (h : Tree Leaf T lab H s.pages)
    (hT : ∀ p, T p → p < s.nextPageId) : ∀ (fuel cur : ℕ) (node : PagePtr) (anc : Ancestors)
      (c : ℕ), (lab cur).lvl < fuel → node.page = cur → T cur → (lab cur).lo ≤ key →
      key < (lab cur).hi → Path T lab s.pages anc cur →
      Runs (descend key fuel cur node anc) (s.atClock c)
        (fun r s' => s' = s.atClock (c + (lab cur).lvl) ∧ LeafFor T lab s.pages key r)
  | 0, _, _, _, _, hf, _, _, _, _, _ => absurd hf (Nat.not_lt_zero _)
  | fuel + 1, cur, node, anc, c, hf, hptr, hcur, hlo, hhi, hpath => by
    have hn := h.node cur hcur
    rw [descend]
    simp only [runs_bind, runs_load, Store.pages_atClock, hptr]
    by_cases htype : Node.getNodeType (s.pages cur) = .internal
    · obtain ⟨l, hl⟩ := hn.type_eq.mp htype
      obtain ⟨d, slot, he, hd, hdT, hdl, hdlo, hdhi⟩ := childFor_covers hn hl hlo hhi
      rw [if_pos htype]
      simp only [runs_bind, runs_lift_ok he, runs_getPage]
      rw [Store.touch_atClock c (hT d hdT)]
      have hpath' : Path T lab s.pages ((cur, slot) :: anc) d := ⟨⟨hcur, by omega, hd⟩, hpath⟩
      refine (runs_descend h hT fuel d _ _ (c + 1) (by omega) rfl hdT hdlo hdhi hpath').mono ?_
      rintro r s' ⟨rfl, hr⟩
      refine ⟨?_, hr⟩
      rw [hl, hdl, Nat.add_right_comm, Nat.add_assoc]
    · have h0 : (lab cur).lvl = 0 := by
        by_contra hne
        exact htype (hn.type_eq.mpr ⟨_, (Nat.succ_pred_eq_of_ne_zero hne).symm⟩)
      rw [if_neg htype, runs_pure]
      refine ⟨?_, hptr, hcur, h0, hlo, hhi, hpath⟩
      rw [h0, Nat.add_zero]

/-! ## The state of a tree -/

/-- **A pool holds a tree** whose pages are handed out from `base` on, and
every page handed out was marked dirty. -/
structure TreeState (Leaf : LeafSpec) (base : ℕ) (lab : ℕ → Label) (H : ℕ) (s : Store) :
    Prop where
  /-- Page `0` is not handed out. -/
  base_pos : 1 ≤ base
  /-- The pages before the tree's are few. -/
  base_small : base ≤ 2147483648
  /-- The next page is one of the tree's. -/
  base_le : base ≤ s.nextPageId
  /-- A file holds exactly the pages handed out. -/
  synced : s.extent = s.nextPageId
  /-- What the pages are. -/
  tree : Tree Leaf (Owned base s.nextPageId) lab H s.pages

namespace TreeState

variable {base : ℕ}

/-- Every page of the tree was accessed before. -/
theorem lt_next (h : TreeState Leaf base lab H s) {p : ℕ} (hp : Owned base s.nextPageId p) :
    p < s.nextPageId := by
  have h1 := h.base_pos
  have h2 := h.base_le
  unfold Owned at hp
  omega

/-- **The page counter is far from wrapping.** -/
theorem next_small (hL : Leaf.Sound) (h : TreeState Leaf base lab H s) :
    s.nextPageId ≤ 2415919104 := by
  have h1 := h.tree.pages_le hL h.base_pos
  have h2 := h.base_small
  omega

/-- Moving the clock changes nothing. -/
theorem atClock (h : TreeState Leaf base lab H s) (c : ℕ) :
    TreeState Leaf base lab H (s.atClock c) :=
  ⟨h.base_pos, h.base_small, h.base_le, h.synced, h.tree⟩

/-- **A descent from the root** requests a page of each level. -/
theorem runs_search_counted {α : Type} {key : ℕ} (hL : Leaf.Sound)
    (h : TreeState Leaf base lab H s) (hkey : key < 4294967296)
    {k : ℕ × PagePtr × Ancestors → PageProg α} {Q : α → Store → Prop}
    (hk : ∀ r, LeafFor (Owned base s.nextPageId) lab s.pages key r →
      Runs (k r) (s.atClock (s.clock + (H + 1))) Q) :
    Runs (do let root ← Pool.getPage rootPageId
             let r ← descend key uint32Size rootPageId root []
             k r) s Q := by
  have hroot : Owned base s.nextPageId rootPageId := Or.inl rfl
  have hlab := h.tree.shape.root_lab
  have hH := h.tree.height_le hL
  simp only [runs_bind, runs_getPage]
  rw [Store.touch_eq_atClock (h.lt_next hroot)]
  refine (runs_descend h.tree (fun p hp => h.lt_next hp) uint32Size rootPageId _ [] _ ?_ rfl
    hroot ?_ ?_ rfl).mono ?_
  · show (lab 0).lvl < 4294967296
    rw [hlab]
    show H < 4294967296
    omega
  · show (lab 0).lo ≤ key
    rw [hlab]
    exact Nat.zero_le key
  · show key < (lab 0).hi
    rw [hlab]
    exact hkey
  · rintro r s' ⟨rfl, hr⟩
    have hlvl : (lab rootPageId).lvl = H := congrArg Label.lvl hlab
    rw [hlvl, Nat.add_assoc, Nat.add_comm 1 H]
    exact hk r hr

/-- A descent from the root. -/
theorem runs_search {α : Type} {key : ℕ} (hL : Leaf.Sound) (h : TreeState Leaf base lab H s)
    (hkey : key < 4294967296) {k : ℕ × PagePtr × Ancestors → PageProg α}
    {Q : α → Store → Prop}
    (hk : ∀ r c, LeafFor (Owned base s.nextPageId) lab s.pages key r →
      Runs (k r) (s.atClock c) Q) :
    Runs (do let root ← Pool.getPage rootPageId
             let r ← descend key uint32Size rootPageId root []
             k r) s Q :=
  h.runs_search_counted hL hkey (fun r hr => hk r _ hr)

end TreeState

/-! ## Reading the answer -/

/-- **Where a search ends**: at a position of the leaf of the key. -/
structure Reached (T : ℕ → Prop) (lab : ℕ → Label) (pages : ℕ → Page) (key p idx : ℕ) : Prop where
  /-- The page is a leaf of the tree. -/
  mem : T p
  lvl : (lab p).lvl = 0
  /-- Its range contains the key. -/
  lo : (lab p).lo ≤ key
  hi : key < (lab p).hi
  /-- The position is the one of the key. -/
  found : FoundIn (Node.view (pages p)).cells key idx

/-- **The search in the leaf** reads what is stored with the key. -/
theorem LeafFor.reached {key : ℕ} (hL : Leaf.Sound) (h : Tree Leaf T lab H s.pages)
    {r : ℕ × PagePtr × Ancestors} (hr : LeafFor T lab s.pages key r) :
    ∃ idx, leafNodeFind (s.pages r.1) key = .ok idx ∧ Reached T lab s.pages key r.1 idx
      ∧ ((holdsKey (s.pages r.1) idx key = .ok false
          ∧ cellFor (Node.view (s.pages r.1)).cells key idx = none)
        ∨ ∃ v, holdsKey (s.pages r.1) idx key = .ok true
          ∧ cellFor (Node.view (s.pages r.1)).cells key idx = some (key, v)
          ∧ idx < (Node.view (s.pages r.1)).num ∧ Node.getValue (s.pages r.1) idx = .ok v) := by
  have hn := h.node r.1 hr.mem
  have hnum := hn.num_le
  obtain ⟨idx, hidx, hat⟩ := leafNodeFind_spec key hnum
    (sortedKeys_of_pairwise (hL.sorted (hn.leaf hr.lvl).2))
  refine ⟨idx, hidx, ⟨hr.mem, hr.lvl, hr.lo, hr.hi, hat.foundIn⟩, ?_⟩
  rw [holdsKey_eq hnum]
  by_cases hhit : idx < (Node.view (s.pages r.1)).num
      ∧ ((Node.view (s.pages r.1)).cell idx).1 = key
  · have hlt := hhit.1
    refine Or.inr ⟨((Node.view (s.pages r.1)).cell idx).2, by rw [decide_eq_true hhit], ?_, hlt,
      Node.getValue_eq (by omega)⟩
    rw [cellFor, NodeView.getElem?_cells _ hlt, ← hhit.2]
    simp
  · refine Or.inl ⟨by rw [decide_eq_false hhit], ?_⟩
    rw [cellFor, getElem?_cells_eq]
    split
    case isTrue hlt =>
      have hne : ((Node.view (s.pages r.1)).cell idx).1 ≠ key := fun he => hhit ⟨hlt, he⟩
      simp [hne]
    case isFalse => rfl

/-- The answer of `find` for the value stored with a key. -/
def answer : Option ℕ → CInt
  | none => notFound
  | some v => if v = tombstone then notFound else .ofUInt v

/-- **`find` answers from the leaf of the key**, and requests a page of each
level. -/
theorem runs_find_counted {base key : ℕ} (hL : Leaf.Sound) (h : TreeState Leaf base lab H s)
    (hkey : key < 4294967296) :
    Runs (find key) s (fun r s' => s' = s.atClock (s.clock + (H + 1)) ∧
      ∃ p idx, Reached (Owned base s.nextPageId) lab s.pages key p idx
        ∧ r = answer ((cellFor (Node.view (s.pages p)).cells key idx).map Prod.snd)) := by
  unfold find
  refine h.runs_search_counted hL hkey (fun r hr => ?_)
  obtain ⟨idx, hidx, hreach, hcase⟩ := hr.reached hL h.tree
  simp only [runs_bind, runs_load, Store.pages_atClock, hr.ptr, runs_lift_ok hidx]
  rcases hcase with ⟨hhold, hcell⟩ | ⟨v, hhold, hcell, -, hval⟩
  · simp only [runs_lift_ok hhold, Bool.false_eq_true, if_false, runs_pure]
    exact ⟨trivial, r.1, idx, hreach, by rw [hcell]; rfl⟩
  · simp only [runs_lift_ok hhold, if_true, runs_bind, runs_lift_ok hval, runs_pure]
    exact ⟨trivial, r.1, idx, hreach, by rw [hcell]; rfl⟩

theorem runs_find {base key : ℕ} (hL : Leaf.Sound) (h : TreeState Leaf base lab H s)
    (hkey : key < 4294967296) :
    Runs (find key) s (fun r s' => (∃ c, s' = s.atClock c) ∧
      ∃ p idx, Reached (Owned base s.nextPageId) lab s.pages key p idx
        ∧ r = answer ((cellFor (Node.view (s.pages p)).cells key idx).map Prod.snd)) :=
  (runs_find_counted hL h hkey).mono (fun _ _ ⟨hs', hans⟩ => ⟨⟨_, hs'⟩, hans⟩)

end BTree
