import SqlMini.BTree

/-!
# What the node algorithms compute

The parts of the B-tree that work on one node, read on views. The binary
search of a leaf finds where a key is or belongs (`leafNodeFind_spec`), the
search of an inner node finds the child to descend to (`childFor_spec`), and
the writes are list operations: an insertion puts one element into the list
of cells (`leafInsert_spec`) or one key and one child into an inner node
(`parentInsert_spec`), the arrays a split merges are lists with the same put
in (`mergeArrays_spec`), and its halves are slices of them
(`fillInternal_spec`).
-/

/-! ## Inserting into a list -/

/-- The list with `a` put before position `i`. -/
def insertAt {α : Type} (l : List α) (i : ℕ) (a : α) : List α := l.take i ++ a :: l.drop i

section InsertAt

variable {α β : Type} {l : List α} {i j : ℕ} {a : α}

@[simp] theorem length_insertAt (l : List α) (i : ℕ) (a : α) :
    (insertAt l i a).length = l.length + 1 := by
  simp [insertAt]
  omega

theorem map_insertAt (f : α → β) (l : List α) (i : ℕ) (a : α) :
    (insertAt l i a).map f = insertAt (l.map f) i (f a) := by
  simp [insertAt, List.map_take, List.map_drop]

theorem getElem?_insertAt_of_lt (hi : i ≤ l.length) (hj : j < i) :
    (insertAt l i a)[j]? = l[j]? := by
  rw [insertAt, List.getElem?_append_left (by simp; omega), List.getElem?_take_of_lt hj]

theorem getElem?_insertAt_self (hi : i ≤ l.length) : (insertAt l i a)[i]? = some a := by
  rw [insertAt, List.getElem?_append_right (by simp)]
  simp [Nat.min_eq_left hi]

theorem getElem?_insertAt_of_gt (hi : i ≤ l.length) (hj : i < j) :
    (insertAt l i a)[j]? = l[j - 1]? := by
  obtain ⟨k, rfl⟩ : ∃ k, j = i + 1 + k := ⟨j - (i + 1), by omega⟩
  rw [insertAt, List.getElem?_append_right (by simp; omega), List.length_take,
    Nat.min_eq_left hi, show i + 1 + k - i = k + 1 from by omega, List.getElem?_cons_succ,
    List.getElem?_drop, show i + 1 + k - 1 = i + k from by omega]

theorem mem_insertAt {b : α} : b ∈ insertAt l i a ↔ b = a ∨ b ∈ l := by
  conv_rhs => rw [← List.take_append_drop i l]
  rw [insertAt, List.mem_append, List.mem_append, List.mem_cons]
  tauto

theorem forall_mem_insertAt {P : α → Prop} (i : ℕ) (h : ∀ b ∈ l, P b) (ha : P a) :
    ∀ b ∈ insertAt l i a, P b := by
  intro b hb
  rcases mem_insertAt.mp hb with rfl | hb
  · exact ha
  · exact h b hb

/-- A list is another with one element put in, position by position. -/
theorem eq_insertAt {l' : List α} (hi : i ≤ l.length) (hlen : l'.length = l.length + 1)
    (hlt : ∀ j, j < i → l'[j]? = l[j]?) (hself : l'[i]? = some a)
    (hgt : ∀ j, i < j → j ≤ l.length → l'[j]? = l[j - 1]?) : l' = insertAt l i a := by
  refine List.ext_getElem? (fun j => ?_)
  rcases Nat.lt_trichotomy j i with hj | rfl | hj
  · rw [getElem?_insertAt_of_lt hi hj, hlt j hj]
  · rw [getElem?_insertAt_self hi, hself]
  · rw [getElem?_insertAt_of_gt hi hj]
    by_cases hjl : j ≤ l.length
    · exact hgt j hj hjl
    · rw [List.getElem?_eq_none (by omega), List.getElem?_eq_none (by omega)]

end InsertAt

namespace BTree

variable {node : Page} {v : NodeView} {key value idx : ℕ}

/-! ## Searching a leaf -/

/-- The keys of a node do not decrease. -/
def SortedKeys (v : NodeView) : Prop :=
  ∀ i j, i < j → j < v.num → (v.cell i).1 ≤ (v.cell j).1

/-- **Where a key is or belongs**: the keys before `idx` are at most `key`,
those from `idx` on at least, and if the key is in the node it is there. -/
structure FoundAt (v : NodeView) (key idx : ℕ) : Prop where
  /-- The position is one of the node or just past it. -/
  le_num : idx ≤ v.num
  /-- The keys before are not larger. -/
  before : ∀ j, j < idx → (v.cell j).1 ≤ key
  /-- The keys from there on are not smaller. -/
  after : ∀ j, idx ≤ j → j < v.num → key ≤ (v.cell j).1
  /-- The key is at the position or nowhere. -/
  hit : (idx < v.num ∧ (v.cell idx).1 = key) ∨ ∀ j, j < v.num → (v.cell j).1 ≠ key

/-- The binary search, between bounds that bracket the key. -/
theorem leafNodeFindLoop_spec (hnum : (Node.view node).num ≤ 510)
    (hs : SortedKeys (Node.view node)) : ∀ (fuel min max : ℕ), min ≤ max →
      max ≤ (Node.view node).num → max - min < fuel →
      (∀ j, j < min → ((Node.view node).cell j).1 < key) →
      (∀ j, max ≤ j → j < (Node.view node).num → key < ((Node.view node).cell j).1) →
      ∃ idx, leafNodeFindLoop node key fuel min max = .ok idx ∧ FoundAt (Node.view node) key idx
  | 0, min, max, _, _, hf, _, _ => absurd hf (by omega)
  | fuel + 1, min, max, hmm, hmax, hf, hlo, hhi => by
    rw [leafNodeFindLoop]
    by_cases hend : min = max
    · rw [if_pos hend]
      refine ⟨min, rfl, hmm.trans hmax, fun j hj => (hlo j hj).le,
        fun j hj hj' => (hhi j (by omega) hj').le, Or.inr (fun j hj => ?_)⟩
      by_cases hjm : j < min
      · exact (hlo j hjm).ne
      · exact (hhi j (by omega) hj).ne'
    rw [if_neg hend]
    have hmid : (min + max) % uint32Size / 2 = (min + max) / 2 := by
      rw [Nat.mod_eq_of_lt (show min + max < 4294967296 from by omega)]
    have hget : Node.getKey node ((min + max) / 2)
      = .ok ((Node.view node).cell ((min + max) / 2)).1 :=
      Node.getKey_eq (show (min + max) / 2 < 510 from by omega)
    simp only [hmid, hget, Except.ok_bind_eq]
    by_cases heq : key = ((Node.view node).cell ((min + max) / 2)).1
    · rw [if_pos heq]
      refine ⟨(min + max) / 2, rfl, by omega, fun j hj => ?_, fun j hj hj' => ?_,
        Or.inl ⟨by omega, heq.symm⟩⟩
      · rw [heq]
        exact hs j _ hj (by omega)
      · rw [heq]
        rcases Nat.lt_or_eq_of_le hj with hlt | rfl
        · exact hs _ j hlt hj'
        · exact le_rfl
    rw [if_neg heq]
    by_cases hlt : key < ((Node.view node).cell ((min + max) / 2)).1
    · rw [if_pos hlt]
      refine leafNodeFindLoop_spec hnum hs fuel min ((min + max) / 2) (by omega) (by omega)
        (by omega) hlo (fun j hj hj' => ?_)
      rcases Nat.lt_or_eq_of_le hj with hlt' | rfl
      · exact hlt.trans_le (hs _ j hlt' hj')
      · exact hlt
    · rw [if_neg hlt, Nat.mod_eq_of_lt (show (min + max) / 2 + 1 < 4294967296 from by omega)]
      refine leafNodeFindLoop_spec hnum hs fuel ((min + max) / 2 + 1) max (by omega) hmax
        (by omega) (fun j hj => ?_) hhi
      have hkm : ((Node.view node).cell ((min + max) / 2)).1 < key := by omega
      rcases Nat.lt_or_eq_of_le (Nat.lt_succ_iff.mp hj) with hlt' | rfl
      · exact (hs j _ hlt' (by omega)).trans_lt hkm
      · exact hkm

/-- **`leaf_node_find` finds the key** in a sorted node. -/
theorem leafNodeFind_spec (key : ℕ) (hnum : (Node.view node).num ≤ 510)
    (hs : SortedKeys (Node.view node)) :
    ∃ idx, leafNodeFind node key = .ok idx ∧ FoundAt (Node.view node) key idx :=
  leafNodeFindLoop_spec hnum hs _ 0 _ (Nat.zero_le _) le_rfl
    (show (Node.view node).num - 0 < 4294967296 * 4294967296 from by omega)
    (fun j hj => absurd hj (Nat.not_lt_zero j))
    (fun j hj hj' => absurd (show (Node.view node).num ≤ j from hj) (by omega))

theorem holdsKey_eq (hnum : (Node.view node).num ≤ 510) :
    holdsKey node idx key
      = .ok (decide (idx < (Node.view node).num ∧ ((Node.view node).cell idx).1 = key)) := by
  have hn : Node.getNumCells node = (Node.view node).num := rfl
  unfold holdsKey
  rw [hn]
  by_cases hi : idx < (Node.view node).num
  · rw [if_pos hi, Node.getKey_eq (by omega)]
    simp [hi, pure, Except.pure]
  · rw [if_neg hi]
    simp [hi, pure, Except.pure]

/-! ## Searching an inner node -/

/-- **The child to descend to** is the one left of the first key beyond. -/
theorem childFor_spec (key : ℕ) (hnum : (Node.view node).num ≤ 510) :
    ∃ c slot, childFor node key = .ok (c, slot)
      ∧ slot = (Node.view node).keys.findIdx (fun k => decide (key < k))
      ∧ (Node.view node).children[slot]? = some c := by
  have hn : Node.getNumCells node = (Node.view node).num := rfl
  have hlen := (Node.view node).length_keys
  have htest : ∀ i, 0 ≤ i → i < 0 + (Node.view node).num →
      (do return decide (key < (← Node.getKey node i)) : Except Fault Bool)
        = .ok (decide (key < ((Node.view node).cell i).1)) := by
    intro i _ hi
    rw [Node.getKey_eq (by omega)]
    rfl
  -- the first key beyond `key`, by position
  have hfirst : ∀ j, j ≤ (Node.view node).num →
      (∀ i, i < j → ¬ key < ((Node.view node).cell i).1) →
      (j < (Node.view node).num → key < ((Node.view node).cell j).1) →
      j = (Node.view node).keys.findIdx (fun k => decide (key < k)) := by
    intro j hj hno hyes
    have hget : ∀ i (h : i < (Node.view node).keys.length),
        (Node.view node).keys[i] = ((Node.view node).cell i).1 := by
      intro i h
      have hi := (Node.view node).getElem?_keys (by omega : i < (Node.view node).num)
      rwa [List.getElem?_eq_getElem h, Option.some.injEq] at hi
    by_cases hjn : j < (Node.view node).num
    · refine ((List.findIdx_eq (by omega)).mpr ⟨?_, fun i hi => ?_⟩).symm
      · rw [hget]
        exact decide_eq_true (hyes hjn)
      · rw [hget]
        exact decide_eq_false (hno i hi)
    · rw [List.findIdx_eq_length_of_false]
      · omega
      · intro k hk
        obtain ⟨i, hi, rfl⟩ := List.getElem_of_mem hk
        rw [hget]
        exact decide_eq_false (hno i (by omega))
  unfold childFor
  rw [hn]
  rcases Loop.searchUp_spec (Node.view node).num 0 htest
    with ⟨he, hno⟩ | ⟨j, he, -, hj, hyes, hno⟩
  · refine ⟨(Node.view node).link, (Node.view node).num, ?_,
      hfirst _ le_rfl (fun i hi => hno i (Nat.zero_le i) (by omega))
        (fun h => absurd h (lt_irrefl _)), (Node.view node).getElem?_children_last⟩
    rw [he]
    rfl
  · refine ⟨((Node.view node).cell j).2, j, ?_,
      hfirst j (by omega) (fun i hi => hno i (Nat.zero_le i) hi) (fun _ => hyes),
      (Node.view node).getElem?_children (by omega)⟩
    rw [he]
    simp only [Except.ok_bind_eq]
    rw [Node.getLeftChildId, Node.getValue_eq (by omega)]
    rfl

/-! ## Opening a gap -/

/-- The body of the shifting loops copies a cell one place up. -/
theorem shiftCell_spec {i : ℕ} (h0 : 0 < i) (hi : i < 510) (node : Page) :
    ∃ node', shiftCell i node = .ok node' ∧ Node.view node' = (Node.view node).withCell
      (Function.update (Node.view node).cell i ((Node.view node).cell (i - 1))) := by
  obtain ⟨hk, hv⟩ := Node.cell_view_lt node (i - 1)
  obtain ⟨b, hb, hvb⟩ := Node.setKey_spec hi hk node
  have hval : ((Node.view b).cell (i - 1)).2 = ((Node.view node).cell (i - 1)).2 := by
    rw [hvb, NodeView.cell_withCell, Function.update_of_ne (by omega)]
  obtain ⟨b', hb', hvb'⟩ := Node.setValue_spec hi hv b
  refine ⟨b', ?_, ?_⟩
  · unfold shiftCell
    rw [Node.getKey_eq (by omega), Except.ok_bind_eq, hb, Except.ok_bind_eq,
      Node.getValue_eq (by omega), Except.ok_bind_eq, hval, hb']
  · rw [hvb', hvb, NodeView.withCell_withCell]
    refine (Node.view node).withCell_congr (fun j => ?_)
    simp

/-- The cells of a node after those at `idx` to `n - 1` moved one place
up. -/
def shifted (v : NodeView) (idx n j : ℕ) : ℕ × ℕ :=
  if idx < j ∧ j ≤ n then v.cell (j - 1) else v.cell j

/-- **The shifting loop** moves the cells from `idx` on one place up. -/
theorem shiftCells_spec {n : ℕ} (hidx : idx ≤ n) (hn : n < 510) (node : Page) :
    ∃ node', Loop.forDown shiftCell (n - idx) idx node = .ok node'
      ∧ Node.view node' = (Node.view node).withCell (shifted (Node.view node) idx n) := by
  refine Loop.forDown_invariant
    (fun i b => Node.view b = (Node.view node).withCell (shifted (Node.view node) i n))
    (n - idx) idx node ?_ ?_
  · refine (Node.view node).eq_withCell (fun j => ?_)
    exact (if_neg (by omega)).symm
  · intro i b hi hi' hb
    obtain ⟨b', hb', hv⟩ := shiftCell_spec (Nat.succ_pos i) (by omega) b
    refine ⟨b', hb', ?_⟩
    rw [hv, hb, NodeView.withCell_withCell, NodeView.cell_withCell]
    refine (Node.view node).withCell_congr (fun j => ?_)
    unfold shifted
    by_cases hj : j = i + 1
    · subst hj
      rw [Function.update_self, if_neg (by omega), if_pos (by omega)]
    · rw [Function.update_of_ne hj]
      by_cases hij : i < j ∧ j ≤ n
      · rw [if_pos hij, if_pos (by omega)]
      · rw [if_neg hij, if_neg (by omega)]

/-! ## Inserting into a node with room -/

/-- The cells in use by position. -/
theorem getElem?_cells_eq (v : NodeView) (j : ℕ) :
    v.cells[j]? = if j < v.num then some (v.cell j) else none := by
  by_cases hj : j < v.num
  · rw [if_pos hj, v.getElem?_cells hj]
  · rw [if_neg hj, List.getElem?_eq_none (by simp; omega)]

/-- The keys in use by position. -/
theorem getElem?_keys_eq (v : NodeView) (j : ℕ) :
    v.keys[j]? = if j < v.num then some (v.cell j).1 else none := by
  rw [NodeView.keys, List.getElem?_map, getElem?_cells_eq]
  split <;> rfl

/-- The children of a node by position. -/
theorem getElem?_children_eq (v : NodeView) (j : ℕ) :
    v.children[j]? = if j < v.num then some (v.cell j).2
      else if j = v.num then some v.link else none := by
  by_cases hj : j < v.num
  · rw [if_pos hj, v.getElem?_children hj]
  · rw [if_neg hj]
    by_cases hjn : j = v.num
    · rw [if_pos hjn, hjn, v.getElem?_children_last]
    · rw [if_neg hjn, List.getElem?_eq_none (by simp; omega)]

/-- Replacing a cell replaces an element of the list of cells. -/
theorem cells_update {v v' : NodeView} {c : ℕ × ℕ} (hidx : idx < v.num) (hnum : v'.num = v.num)
    (hcell : v'.cell = Function.update v.cell idx c) : v'.cells = v.cells.set idx c := by
  refine List.ext_getElem? (fun j => ?_)
  rw [List.getElem?_set, getElem?_cells_eq, getElem?_cells_eq, hnum, hcell, v.length_cells]
  by_cases hji : j = idx
  · subst hji
    rw [if_pos hidx, if_pos rfl, if_pos hidx, Function.update_self]
  · rw [if_neg (Ne.symm hji), Function.update_of_ne hji]

/-- Setting a cell in the gap puts an element into the list of cells. -/
theorem cells_insertAt {v v' : NodeView} {c : ℕ × ℕ} (hidx : idx ≤ v.num)
    (hnum : v'.num = v.num + 1)
    (hcell : v'.cell = Function.update (shifted v idx v.num) idx c) :
    v'.cells = insertAt v.cells idx c := by
  refine eq_insertAt (by simpa using hidx) (by simp [hnum]) (fun j hj => ?_) ?_
    (fun j hj hj' => ?_)
  · rw [getElem?_cells_eq, getElem?_cells_eq, hnum, hcell, if_pos (by omega), if_pos (by omega),
      Function.update_of_ne (by omega), shifted, if_neg (by omega)]
  · rw [getElem?_cells_eq, hnum, hcell, if_pos (by omega), Function.update_self]
  · rw [v.length_cells] at hj'
    rw [getElem?_cells_eq, getElem?_cells_eq, hnum, hcell, if_pos (by omega), if_pos (by omega),
      Function.update_of_ne (by omega), shifted, if_pos ⟨hj, hj'⟩]

/-- **Inserting into a leaf with room**: the value of a key in the leaf is
replaced, any other key is put where it belongs. The header is kept but for
the number of cells. -/
theorem leafInsert_spec (hnum : (Node.view node).num < 510) (hs : SortedKeys (Node.view node))
    (hkey : key < 4294967296) (hvalue : value < 4294967296) :
    ∃ idx node', leafInsert key value node = .ok node' ∧ FoundAt (Node.view node) key idx
      ∧ (Node.view node').type = (Node.view node).type
      ∧ (Node.view node').root = (Node.view node).root
      ∧ (Node.view node').link = (Node.view node).link
      ∧ (idx < (Node.view node).num → ((Node.view node).cell idx).1 = key →
          (Node.view node').cells = (Node.view node).cells.set idx (key, value))
      ∧ (¬ (idx < (Node.view node).num ∧ ((Node.view node).cell idx).1 = key) →
          (Node.view node').cells = insertAt (Node.view node).cells idx (key, value)) := by
  obtain ⟨idx, hfind, hat⟩ := leafNodeFind_spec key hnum.le hs
  have hidx := hat.le_num
  have hn : Node.getNumCells node = (Node.view node).num := rfl
  by_cases hpres : idx < (Node.view node).num ∧ ((Node.view node).cell idx).1 = key
  · obtain ⟨b, hb, hvb⟩ := Node.setValue_spec (show idx < 510 from by omega) hvalue node
    refine ⟨idx, b, ?_, hat, (congrArg NodeView.type hvb).trans rfl,
      (congrArg NodeView.root hvb).trans rfl, (congrArg NodeView.link hvb).trans rfl,
      fun _ _ => ?_, fun h => absurd hpres h⟩
    · unfold leafInsert
      rw [hfind, Except.ok_bind_eq, holdsKey_eq hnum.le, Except.ok_bind_eq,
        if_pos (decide_eq_true hpres), hb]
    · have hcell := congrArg NodeView.cell hvb
      rw [hpres.2] at hcell
      exact cells_update hpres.1 ((congrArg NodeView.num hvb).trans rfl) hcell
  · obtain ⟨b, hb, hvb⟩ := shiftCells_spec hidx hnum node
    have hc : (key, value).1 < 4294967296 ∧ (key, value).2 < 4294967296 := ⟨hkey, hvalue⟩
    obtain ⟨b', hb', hvb'⟩ := Node.setCell_spec (show idx < 510 from by omega) hc b
    have hv := Node.view_setNumCells
      (show (Node.view node).num + 1 < 4294967296 from by omega) b'
    rw [hvb', hvb] at hv
    have hinc : Node.incrementNumCells b' = Node.setNumCells ((Node.view node).num + 1) b' := by
      have hnum' : Node.getNumCells b' = (Node.view node).num := by
        show (Node.view b').num = _
        rw [hvb', hvb]
        rfl
      rw [Node.incrementNumCells, hnum',
        Nat.mod_eq_of_lt (show (Node.view node).num + 1 < 4294967296 from by omega)]
    rw [← hinc] at hv
    refine ⟨idx, Node.incrementNumCells b', ?_, hat, (congrArg NodeView.type hv).trans rfl,
      (congrArg NodeView.root hv).trans rfl, (congrArg NodeView.link hv).trans rfl,
      fun h h' => absurd ⟨h, h'⟩ hpres, fun _ => cells_insertAt hidx
        ((congrArg NodeView.num hv).trans rfl) ((congrArg NodeView.cell hv).trans rfl)⟩
    unfold leafInsert
    rw [hfind, Except.ok_bind_eq, holdsKey_eq hnum.le, Except.ok_bind_eq,
      if_neg (by simpa using hpres), hn, hb, Except.ok_bind_eq, hb']
    rfl

/-- Setting a key in the gap puts it into the list of keys. -/
theorem keys_insertAt {v v' : NodeView} {slot k : ℕ} (hslot : slot ≤ v.num)
    (hnum : v'.num = v.num + 1) (hself : (v'.cell slot).1 = k)
    (hcell : ∀ j, j ≠ slot → (v'.cell j).1 = (shifted v slot v.num j).1) :
    v'.keys = insertAt v.keys slot k := by
  refine eq_insertAt (by simpa using hslot) (by simp [hnum]) (fun j hj => ?_) ?_
    (fun j hj hj' => ?_)
  · rw [getElem?_keys_eq, getElem?_keys_eq, hnum, hcell j (by omega), if_pos (by omega),
      if_pos (by omega), shifted, if_neg (by omega)]
  · rw [getElem?_keys_eq, hnum, hself, if_pos (by omega)]
  · rw [v.length_keys] at hj'
    rw [getElem?_keys_eq, getElem?_keys_eq, hnum, hcell j (by omega), if_pos (by omega),
      if_pos (by omega), shifted, if_pos ⟨hj, hj'⟩]

/-- **Inserting into an inner node with room**: the separator is put before
the key at `slot` and the new child after the child there. -/
theorem parentInsert_spec {slot sepKey rightId : ℕ} (hnum : (Node.view node).num < 510)
    (hslot : slot ≤ (Node.view node).num) (hsep : sepKey < 4294967296)
    (hright : rightId < 4294967296) :
    ∃ node', parentInsert slot sepKey rightId node = .ok node'
      ∧ (Node.view node').type = (Node.view node).type
      ∧ (Node.view node').root = (Node.view node).root
      ∧ (Node.view node').keys = insertAt (Node.view node).keys slot sepKey
      ∧ (Node.view node').children = insertAt (Node.view node).children (slot + 1) rightId := by
  have hn : Node.getNumCells node = (Node.view node).num := rfl
  have hl : Node.getRightmostChildId node = (Node.view node).link := rfl
  obtain ⟨b₁, hb₁, hv₁⟩ := shiftCells_spec hslot hnum node
  obtain ⟨b₂, hb₂, hv₂⟩ := Node.setKey_spec (show slot < 510 from by omega) hsep b₁
  rw [hv₁] at hv₂
  have hstart : ∀ next : Page → Except Fault Page, (do
      let parent ← Loop.forDown shiftCell ((Node.view node).num - slot) slot node
      let parent ← Node.setKey slot sepKey parent
      next parent) = next b₂ := by
    intro next
    rw [hb₁, Except.ok_bind_eq, hb₂, Except.ok_bind_eq]
  by_cases hlt : slot < (Node.view node).num
  · obtain ⟨b₃, hb₃, hv₃⟩ := Node.setValue_spec (show slot + 1 < 510 from by omega) hright b₂
    have hv := Node.view_setNumCells (show (Node.view node).num + 1 < 4294967296 from by omega) b₃
    rw [hv₃, hv₂] at hv
    refine ⟨_, ?_, (congrArg NodeView.type hv).trans rfl,
      (congrArg NodeView.root hv).trans rfl, ?_, ?_⟩
    · unfold parentInsert
      simp only [hn, hl]
      rw [hstart, if_pos hlt, Node.setLeftChildId, hb₃]
      rfl
    · refine keys_insertAt hslot ((congrArg NodeView.num hv).trans rfl) ?_ (fun j hj => ?_)
      · rw [hv]
        simp
      · rw [hv]
        by_cases hjs : j = slot + 1
        · subst hjs
          simp
        · simp [Function.update_of_ne hjs, Function.update_of_ne hj]
    · refine eq_insertAt (by simp; omega) (by simp [hv]) (fun j hj => ?_) ?_ (fun j hj hj' => ?_)
      · rw [getElem?_children_eq, getElem?_children_eq, hv]
        have hne : j ≠ slot + 1 := by omega
        have hval : (Function.update (shifted (Node.view node) slot (Node.view node).num) slot
            (sepKey, (shifted (Node.view node) slot (Node.view node).num slot).2) j).2
            = ((Node.view node).cell j).2 := by
          have hsh : shifted (Node.view node) slot (Node.view node).num j
            = (Node.view node).cell j :=
            if_neg (by omega)
          by_cases hjs : j = slot
          · subst hjs
            rw [Function.update_self, hsh]
          · rw [Function.update_of_ne hjs, hsh]
        simp only [NodeView.withNum_num, NodeView.withNum_cell, NodeView.cell_withCell,
          Function.update_of_ne hne, hval]
        rw [if_pos (by omega), if_pos (by omega)]
      · rw [getElem?_children_eq, hv]
        simp only [NodeView.withNum_num, NodeView.withNum_cell, NodeView.cell_withCell,
          Function.update_self]
        rw [if_pos (by omega)]
      · rw [NodeView.length_children] at hj'
        rw [getElem?_children_eq, getElem?_children_eq, hv]
        have hne : j ≠ slot + 1 := by omega
        have hne' : j ≠ slot := by omega
        simp only [NodeView.withNum_num, NodeView.withNum_cell, NodeView.cell_withCell,
          Function.update_of_ne hne, Function.update_of_ne hne', NodeView.withNum_link,
          NodeView.withCell_link]
        by_cases hjn : j ≤ (Node.view node).num
        · rw [if_pos (by omega), if_pos (by omega), shifted, if_pos (by omega)]
        · rw [if_neg (by omega), if_pos (by omega), if_neg (by omega), if_pos (by omega)]
  · -- the last child was split: the old link moves into the new cell
    have hse : slot = (Node.view node).num := by omega
    have hlink := Node.link_view_lt node
    obtain ⟨b₃, hb₃, hv₃⟩ := Node.setValue_spec (show slot < 510 from by omega) hlink b₂
    have hv₄ := Node.view_setRightmostChildId hright b₃
    have hv := Node.view_setNumCells (show (Node.view node).num + 1 < 4294967296 from by omega)
      (Node.setRightmostChildId rightId b₃)
    rw [hv₄, hv₃, hv₂] at hv
    refine ⟨_, ?_, (congrArg NodeView.type hv).trans rfl,
      (congrArg NodeView.root hv).trans rfl, ?_, ?_⟩
    · unfold parentInsert
      simp only [hn, hl]
      rw [hstart, if_neg hlt, Node.setLeftChildId, hb₃]
      rfl
    · refine keys_insertAt hslot ((congrArg NodeView.num hv).trans rfl) ?_ (fun j hj => ?_)
      · rw [hv]
        simp
      · rw [hv]
        simp [Function.update_of_ne hj]
    · refine eq_insertAt (by simp; omega) (by simp [hv]) (fun j hj => ?_) ?_ (fun j hj hj' => ?_)
      · rw [getElem?_children_eq, getElem?_children_eq, hv]
        simp only [NodeView.withNum_num, NodeView.withNum_cell, NodeView.withLink_cell,
          NodeView.cell_withCell]
        by_cases hjs : j = slot
        · rw [hjs, Function.update_self, if_pos (by omega), if_neg (by omega), if_pos hse]
        · rw [Function.update_of_ne hjs, Function.update_of_ne hjs, if_pos (by omega),
            if_pos (by omega), shifted, if_neg (by omega)]
      · rw [getElem?_children_eq, hv]
        simp only [NodeView.withNum_num, NodeView.withNum_link, NodeView.withLink_link]
        rw [if_neg (by omega), if_pos (by omega)]
      · rw [NodeView.length_children] at hj'
        omega

/-! ## Writing a half of a split -/

/-- The cells of a node after the first `i` were filled from the lists. -/
def filled (v : NodeView) (keys children : List ℕ) (off i j : ℕ) : ℕ × ℕ :=
  if j < i then (keys.getD (off + j) 0, children.getD (off + j) 0) else v.cell j

/-- An element of a list of 32-bit numbers is one. -/
theorem getD_lt_of_forall_lt {l : List ℕ} (h : ∀ x ∈ l, x < 4294967296) (i : ℕ) :
    l.getD i 0 < 4294967296 := by
  rw [List.getD_eq_getElem?_getD]
  cases hi : l[i]? with
  | none => simp
  | some x => exact h x (List.mem_of_getElem? hi)

/-- The filling loop. -/
theorem fillCells_spec {keys children : List ℕ} (hk : ∀ x ∈ keys, x < 4294967296)
    (hc : ∀ x ∈ children, x < 4294967296) (off : ℕ) {n : ℕ} (hn : n ≤ 510) (node : Page) :
    ∃ node', Loop.forUp (fillCell keys children off) n 0 node = .ok node'
      ∧ Node.view node' = (Node.view node).withCell
        (filled (Node.view node) keys children off n) := by
  have h0 : Node.view node
      = (Node.view node).withCell (filled (Node.view node) keys children off 0) := by
    refine (Node.view node).eq_withCell (fun j => ?_)
    rw [filled, if_neg (Nat.not_lt_zero j)]
  have hstep : ∀ i b, 0 ≤ i → i < 0 + n →
      Node.view b = (Node.view node).withCell (filled (Node.view node) keys children off i) →
      ∃ b', fillCell keys children off i b = .ok b' ∧ Node.view b'
        = (Node.view node).withCell (filled (Node.view node) keys children off (i + 1)) := by
    intro i b _ hi hb
    have hval : (keys.getD (off + i) 0, children.getD (off + i) 0).1 < 4294967296
        ∧ (keys.getD (off + i) 0, children.getD (off + i) 0).2 < 4294967296 :=
      ⟨getD_lt_of_forall_lt hk _, getD_lt_of_forall_lt hc _⟩
    obtain ⟨b', hb', hv⟩ := Node.setCell_spec (show i < 510 from by omega) hval b
    refine ⟨b', hb', ?_⟩
    rw [hv, hb, NodeView.withCell_withCell, NodeView.cell_withCell]
    refine (Node.view node).withCell_congr (fun j => ?_)
    unfold filled
    by_cases hj : j = i
    · subst hj
      rw [Function.update_self, if_pos (by omega)]
    · rw [Function.update_of_ne hj]
      by_cases hji : j < i
      · rw [if_pos hji, if_pos (by omega)]
      · rw [if_neg hji, if_neg (by omega)]
  have h := Loop.forUp_invariant _ n 0 node h0 hstep
  rwa [Nat.zero_add] at h

/-- **A half of a split holds a slice** of the merged keys and children. -/
theorem fillInternal_spec {keys children : List ℕ} (hk : ∀ x ∈ keys, x < 4294967296)
    (hc : ∀ x ∈ children, x < 4294967296) (off n : ℕ) (hn : n ≤ 510)
    (hkl : off + n ≤ keys.length) (hcl : off + n < children.length) (node : Page) :
    ∃ node', fillInternal keys children off n node = .ok node'
      ∧ (Node.view node').type = .internal ∧ (Node.view node').root = false
      ∧ (Node.view node').keys = (keys.drop off).take n
      ∧ (Node.view node').children = (children.drop off).take (n + 1) := by
  have hv₁ := Node.view_setNumCells (show n < 4294967296 from by omega)
    (Node.initializeAsInternal false node)
  rw [Node.view_initializeAsInternal] at hv₁
  obtain ⟨b, hb, hvb⟩ := fillCells_spec hk hc off hn
    (Node.setNumCells n (Node.initializeAsInternal false node))
  have hv := Node.view_setRightmostChildId (getD_lt_of_forall_lt hc (off + n)) b
  rw [hvb, hv₁] at hv
  refine ⟨_, ?_, (congrArg NodeView.type hv).trans rfl, (congrArg NodeView.root hv).trans rfl,
    ?_, ?_⟩
  · unfold fillInternal
    simp only [hb]
    rfl
  · rw [hv]
    refine List.ext_getElem? (fun j => ?_)
    rw [getElem?_keys_eq, List.getElem?_take, List.getElem?_drop]
    show (if j < n then some (filled _ keys children off n j).1 else none) = _
    by_cases hj : j < n
    · rw [if_pos hj, if_pos hj, filled, if_pos hj]
      simp [show off + j < keys.length from by omega]
    · rw [if_neg hj, if_neg hj]
  · rw [hv]
    refine List.ext_getElem? (fun j => ?_)
    rw [getElem?_children_eq, List.getElem?_take, List.getElem?_drop]
    show (if j < n then some (filled _ keys children off n j).2
      else if j = n then some (children.getD (off + n) 0) else none) = _
    by_cases hj : j < n
    · rw [if_pos hj, if_pos (by omega), filled, if_pos hj]
      simp [show off + j < children.length from by omega]
    · rw [if_neg hj]
      by_cases hjn : j = n
      · rw [if_pos hjn, hjn, if_pos (by omega)]
        simp [hcl]
      · rw [if_neg hjn, if_neg (by omega)]

/-! ## Merging the arrays of a split -/

section MergeArrays

variable {keys children : List ℕ} {slot sep right i : ℕ} {new : List ℕ × List ℕ}

/-- The merged arrays, as far as they are filled in. -/
def MergedTo (keys children : List ℕ) (slot sep right i j : ℕ) (new : List ℕ × List ℕ) : Prop :=
  CppVector.FilledTo (insertAt keys slot sep) i new.1
    ∧ CppVector.FilledTo (insertAt children (slot + 1) right) j new.2

/-- A step before the slot. -/
theorem mergeBefore_spec (hlen : children.length = keys.length + 1) (hslot : slot ≤ keys.length)
    (hi : i < slot) (h : MergedTo keys children slot sep right i i new) :
    ∃ new', mergeBefore keys children i new = .ok new'
      ∧ MergedTo keys children slot sep right (i + 1) (i + 1) new' := by
  have hk : keys[i]? = some keys[i] := List.getElem?_eq_getElem (by omega)
  have hc : children[i]? = some children[i] := List.getElem?_eq_getElem (by omega)
  obtain ⟨newKeys, hnk, hk'⟩ := h.1.set ((getElem?_insertAt_of_lt hslot hi).trans hk)
  obtain ⟨newCh, hnc, hc'⟩ := h.2.set
    ((getElem?_insertAt_of_lt (by omega) (Nat.lt_succ_of_lt hi)).trans hc)
  refine ⟨(newKeys, newCh), ?_, hk', hc'⟩
  rw [mergeBefore, CppVector.get_eq_ok hk, CppVector.get_eq_ok hc]
  simp only [Except.ok_bind_eq, hnk, hnc]
  rfl

/-- A step after it. -/
theorem mergeAfter_spec (hlen : children.length = keys.length + 1) (hi : slot ≤ i)
    (hik : i < keys.length) (h : MergedTo keys children slot sep right (i + 1) (i + 2) new) :
    ∃ new', mergeAfter keys children i new = .ok new'
      ∧ MergedTo keys children slot sep right (i + 1 + 1) (i + 1 + 2) new' := by
  have hk : keys[i]? = some keys[i] := List.getElem?_eq_getElem hik
  have hc : children[i + 1]? = some children[i + 1] := List.getElem?_eq_getElem (by omega)
  obtain ⟨newKeys, hnk, hk'⟩ := h.1.set
    ((getElem?_insertAt_of_gt (by omega) (Nat.lt_succ_of_le hi)).trans hk)
  obtain ⟨newCh, hnc, hc'⟩ := h.2.set
    ((getElem?_insertAt_of_gt (by omega) (show slot + 1 < i + 2 from by omega)).trans hc)
  refine ⟨(newKeys, newCh), ?_, hk', hc'⟩
  rw [mergeAfter, CppVector.get_eq_ok hk, CppVector.get_eq_ok hc]
  simp only [Except.ok_bind_eq, hnk, hnc]
  rfl

/-- **The merged arrays** are the old ones with the separator put before the
key at the slot and the new child after the child there. -/
theorem mergeArrays_spec {n : ℕ} (hk : keys.length = n) (hc : children.length = n + 1)
    (hslot : slot ≤ n) (sep right : ℕ) : mergeArrays keys children n slot sep right
      = .ok (insertAt keys slot sep, insertAt children (slot + 1) right) := by
  subst hk
  have hstart : MergedTo keys children slot sep right 0 0
      (List.replicate (keys.length + 1) 0, List.replicate (keys.length + 2) 0) :=
    ⟨.replicate _ _ (length_insertAt ..).symm, .replicate _ _ (by rw [length_insertAt, hc])⟩
  obtain ⟨⟨ks, cs⟩, hbefore, hks, hcs⟩ := Loop.forUp_invariant
    (fun i new => MergedTo keys children slot sep right i i new) slot 0 _ hstart
    (fun i new _ hi h => mergeBefore_spec hc hslot (by omega) h)
  rw [Nat.zero_add] at hks hcs
  -- the separator, the lower half of the child that was split and the upper one
  have hchild : children[slot]? = some children[slot] := List.getElem?_eq_getElem (by omega)
  obtain ⟨ks', hks', hk'⟩ := hks.set (getElem?_insertAt_self hslot)
  obtain ⟨cs', hcs', hc'⟩ := hcs.set
    ((getElem?_insertAt_of_lt (by omega) (Nat.lt_succ_self slot)).trans hchild)
  obtain ⟨cs'', hcs'', hc''⟩ := hc'.set (getElem?_insertAt_self (by omega))
  obtain ⟨⟨ks₁, cs₁⟩, hafter, hks₁, hcs₁⟩ := Loop.forUp_invariant
    (fun i new => MergedTo keys children slot sep right (i + 1) (i + 2) new)
    (keys.length - slot) slot (ks', cs'') ⟨hk', hc''⟩
    (fun i new hi hi' h => mergeAfter_spec hc hi (by omega) h)
  rw [Nat.add_sub_of_le hslot] at hks₁ hcs₁
  have hk₁ : ks₁ = insertAt keys slot sep := by
    refine CppVector.FilledTo.eq ?_
    rwa [length_insertAt]
  have hc₁ : cs₁ = insertAt children (slot + 1) right := by
    refine CppVector.FilledTo.eq ?_
    rwa [length_insertAt, hc]
  rw [mergeArrays, hbefore]
  simp only [Except.ok_bind_eq, hks', CppVector.get_eq_ok hchild, hcs', hcs'', hafter, hk₁, hc₁]

end MergeArrays

/-- The keys of a full inner node, read into an array. -/
theorem mapM_getKey_eq (hnum : (Node.view node).num = 510) :
    (List.range Node.maxCells).mapM (Node.getKey node) = .ok (Node.view node).keys := by
  rw [NodeView.keys, NodeView.cells, hnum, List.map_map]
  exact Except.mapM_eq_ok (fun i hi => Node.getKey_eq (List.mem_range.mp hi))

/-- The left children of a full inner node, read into an array. -/
theorem mapM_getLeftChildId_eq (hnum : (Node.view node).num = 510) :
    (List.range Node.maxCells).mapM (Node.getLeftChildId node)
      = .ok ((Node.view node).cells.map Prod.snd) := by
  rw [NodeView.cells, hnum, List.map_map]
  exact Except.mapM_eq_ok (fun i hi => Node.getValue_eq (List.mem_range.mp hi))

end BTree
