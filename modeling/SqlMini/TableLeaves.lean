import SqlMini.TableOps

/-!
# The rowids in the tree

Rowids are handed out in increasing order from `1`, so that the tree of a
table meets only one pattern of insertions, and `LeafRows n` is what its
leaves owe after `n` of them. Up to the last 32-bit rowid that is a map: the
keys are exactly the rowids handed out (`RowBindings`). Then the counter wraps,
and after `0` every rowid is one that the tree holds: its leaf overwrites the
value, or is full – then its keys are all those of its range – and takes a
second cell for the key before it is cut (`Crowded`). Either way the tree
stays a tree, however many rows are inserted.
-/

namespace BTree

variable {cs : List (ℕ × ℕ)} {lo hi key value idx n : ℕ}

/-- The values of a leaf are packed pointers or tombstones. -/
def PointersIn (cs : List (ℕ × ℕ)) : Prop :=
  ∀ c ∈ cs, c.2 ≠ tombstone → c.2 < Table.packedEnd

/-- **A leaf before the counter wraps**: the cells bind the rowids handed out
that fall into the range. -/
def RowBindings (n : ℕ) : LeafSpec := fun cs lo hi =>
  ∃ m : ℕ → Option ℕ, (∀ k, m k ≠ none ↔ 1 ≤ k ∧ k ≤ n) ∧ RangeMap m lo hi cs

/-- **A leaf after the counter wrapped**: it holds every key of its range,
and when it is full no other. -/
structure Crowded (keys : List ℕ) (lo hi : ℕ) : Prop where
  /-- The keys do not decrease. -/
  sorted : keys.Pairwise (· ≤ ·)
  /-- A half full leaf has a wide range. -/
  wide : 255 ≤ keys.length → lo + 127 ≤ hi
  /-- Every key of the range is there. -/
  all : ∀ k, lo ≤ k → k < hi → k ∈ keys
  /-- A full leaf holds the keys of its range one after the other. -/
  full : keys.length = 510 → hi = lo + 510 ∧ keys = List.range' lo 510

/-- **What the leaves of a table's tree owe** after `n` insertions. -/
structure LeafRows (n : ℕ) (cs : List (ℕ × ℕ)) (lo hi : ℕ) : Prop where
  /-- The values. -/
  pointers : PointersIn cs
  /-- The range is one of 32-bit keys. -/
  hi_le : hi ≤ 4294967296
  /-- The keys. -/
  keys : (n < 4294967296 ∧ RowBindings n cs lo hi)
    ∨ (4294967296 ≤ n ∧ Crowded (cs.map Prod.fst) lo hi)

theorem leafRows_sound (n : ℕ) : LeafSpec.Sound (LeafRows n) where
  sorted h := by
    rcases h.keys with ⟨-, m, -, hm⟩ | ⟨-, hc⟩
    · exact hm.sorted.imp le_of_lt
    · exact List.pairwise_map.mp hc.sorted
  wide h hlen := by
    rcases h.keys with ⟨-, m, -, hm⟩ | ⟨-, hc⟩
    · have hle := hm.length_le
      omega
    · exact hc.wide (by rwa [List.length_map])

/-- The leaf of a new tree. -/
theorem LeafRows.new : LeafRows 0 [] 0 4294967296 := by
  refine ⟨by simp [PointersIn], le_rfl, Or.inl ⟨by decide, fun _ => none,
    fun k => ?_, RangeMap.nil⟩⟩
  simp only [ne_eq, not_true_eq_false, false_iff]
  omega

/-- A search finds a packed pointer or none. -/
theorem leafSays_rows (n key : ℕ) :
    LeafSays (LeafRows n) key (fun o => ∀ v, o = some v → v ≠ tombstone → v < Table.packedEnd) where
  val h _ _ _ v hv hne := by
    obtain ⟨c, hc, rfl⟩ := Option.map_eq_some_iff.mp hv
    exact h.pointers c (List.mem_of_getElem? (getElem?_of_cellFor hc)) hne
  small v hv hne := hv v rfl hne

/-! ## Values -/

theorem PointersIn.insert (h : PointersIn cs) (hv : value < Table.packedEnd) (idx key : ℕ) :
    PointersIn (insertAt cs idx (key, value)) := by
  intro c hc hne
  have hmem : c = (key, value) ∨ c ∈ cs := by
    rcases List.mem_append.mp hc with hc | hc
    · exact Or.inr (List.mem_of_mem_take hc)
    · exact (List.mem_cons.mp hc).imp id List.mem_of_mem_drop
  rcases hmem with rfl | hc
  · exact hv
  · exact h c hc hne

theorem PointersIn.set (h : PointersIn cs) (hv : value ≠ tombstone → value < Table.packedEnd)
    (idx key : ℕ) : PointersIn (cs.set idx (key, value)) := by
  intro c hc hne
  rcases List.mem_or_eq_of_mem_set hc with hc | rfl
  · exact h c hc hne
  · exact hv hne

theorem PointersIn.sublist {cs' : List (ℕ × ℕ)} (h : PointersIn cs) (hs : List.Sublist cs' cs) :
    PointersIn cs' := fun c hc => h c (hs.subset hc)

/-- The keys are those before. -/
theorem map_fst_set {v : ℕ} (hv : cs[idx]? = some (key, v)) (value : ℕ) :
    (cs.set idx (key, value)).map Prod.fst = cs.map Prod.fst := by
  obtain ⟨hlt, he⟩ := List.getElem?_eq_some_iff.mp hv
  have hlt' : idx < (cs.map Prod.fst).length := by rwa [List.length_map]
  have hkey : (cs.map Prod.fst)[idx] = key := by rw [List.getElem_map, he]
  rw [List.map_set, show (key, value).1 = key from rfl, ← hkey, List.set_getElem_self]

/-! ## After the counter wrapped -/

/-- A leaf that binds every key of its range. -/
theorem crowded_of_rangeMap {m : ℕ → Option ℕ} (h : RangeMap m lo hi cs)
    (hall : ∀ k, lo ≤ k → k < hi → m k ≠ none) : Crowded (cs.map Prod.fst) lo hi := by
  rw [h.keys_eq hall]
  have hsorted : (List.range' lo (hi - lo)).Pairwise (· < ·) := List.pairwise_lt_range'
  refine ⟨hsorted.imp le_of_lt, fun hlen => ?_, fun k h1 h2 => ?_,
    fun hlen => ?_⟩
  · rw [List.length_range'] at hlen
    omega
  · rw [List.mem_range'_1]
    omega
  · rw [List.length_range'] at hlen
    rw [hlen]
    exact ⟨by omega, rfl⟩

/-- The numbers from `lo` on with the one at a position doubled. -/
theorem getElem?_double (lo : ℕ) {i j : ℕ} (hj : j < 510) (hi : i < 511) :
    (insertAt (List.range' lo 510) j (lo + j))[i]?
      = some (if i ≤ j then lo + i else lo + i - 1) := by
  have hlen : j ≤ (List.range' lo 510).length := by
    rw [List.length_range']
    omega
  rcases lt_trichotomy i j with hij | rfl | hij
  · rw [getElem?_insertAt_of_lt hlen hij, List.getElem?_range' (by omega), if_pos hij.le]
    simp
  · rw [getElem?_insertAt_self hlen, if_pos le_rfl]
  · rw [getElem?_insertAt_of_gt hlen hij, List.getElem?_range' (by omega), if_neg (by omega)]
    congr 1
    omega

/-- **A full leaf** takes a second cell for a key of its range, and its
halves hold every key of theirs. -/
theorem Crowded.split (lo : ℕ) {j : ℕ} (hj : j < 510) : ∃ k,
    (insertAt (List.range' lo 510) j (lo + j))[255]? = some k ∧ lo < k ∧ k < lo + 510
      ∧ Crowded ((insertAt (List.range' lo 510) j (lo + j)).take 255) lo k
      ∧ Crowded ((insertAt (List.range' lo 510) j (lo + j)).drop 255) k (lo + 510) := by
  have hget := fun i (hi : i < 511) => getElem?_double lo hj hi
  have hlen : (insertAt (List.range' lo 510) j (lo + j)).length = 511 := by
    rw [length_insertAt, List.length_range']
  generalize insertAt (List.range' lo 510) j (lo + j) = ks at hget hlen
  have hsorted : ks.Pairwise (· ≤ ·) := by
    rw [List.pairwise_iff_getElem]
    intro a b ha hb hab
    have h1 := hget a (by omega)
    have h2 := hget b (by omega)
    rw [List.getElem?_eq_getElem ha, Option.some.injEq] at h1
    rw [List.getElem?_eq_getElem hb, Option.some.injEq] at h2
    rw [h1, h2]
    split <;> split <;> omega
  refine ⟨_, hget 255 (by omega), by split <;> omega, by split <;> omega,
    ⟨hsorted.sublist (List.take_sublist 255 ks), fun _ => by split <;> omega, fun k h1 h2 => ?_,
      fun h => ?_⟩,
    ⟨hsorted.sublist (List.drop_sublist 255 ks), fun _ => by split <;> omega, fun k h1 h2 => ?_,
      fun h => ?_⟩⟩
  · -- the key is before the double, or one further
    refine List.mem_iff_getElem?.mpr ⟨if k ≤ lo + j then k - lo else k - lo + 1, ?_⟩
    rw [List.getElem?_take_of_lt (by split at h2 <;> split <;> omega),
      hget _ (by split at h2 <;> split <;> omega)]
    congr 1
    split at h2 <;> split <;> split <;> omega
  · rw [List.length_take] at h
    omega
  · refine List.mem_iff_getElem?.mpr ⟨if k < lo + j then k - lo - 255 else k - lo + 1 - 255, ?_⟩
    rw [List.getElem?_drop, hget _ (by split at h1 <;> split <;> omega)]
    congr 1
    split at h1 <;> split <;> split <;> omega
  · rw [List.length_drop] at h
    omega

/-! ## One more row -/

/-- The key of the next insertion is new, before the counter wraps. -/
theorem rowBindings_fresh {m : ℕ → Option ℕ} (hm : ∀ k, m k ≠ none ↔ 1 ≤ k ∧ k ≤ n)
    (hn : n < 4294967296) : m ((n + 1) % 4294967296) = none := by
  by_contra hne
  have hk := (hm _).mp hne
  omega

/-- A leaf with the next rowid bound. -/
theorem LeafRows.bind {m : ℕ → Option ℕ} (hm : ∀ k, m k ≠ none ↔ 1 ≤ k ∧ k ≤ n)
    (hn : n < 4294967296) (hp : PointersIn cs) (hhi : hi ≤ 4294967296)
    (h : RangeMap (Function.update m ((n + 1) % 4294967296) (some value)) lo hi cs) :
    LeafRows (n + 1) cs lo hi := by
  refine ⟨hp, hhi, ?_⟩
  by_cases hlast : n + 1 < 4294967296
  · refine Or.inl ⟨hlast, _, fun k => ?_, h⟩
    rw [Nat.mod_eq_of_lt hlast]
    by_cases hk : k = n + 1
    · rw [hk, Function.update_self]
      simp
    · rw [Function.update_of_ne hk, hm]
      omega
  · refine Or.inr ⟨not_lt.mp hlast, crowded_of_rangeMap h (fun k h1 h2 => ?_)⟩
    by_cases hk : k = (n + 1) % 4294967296
    · rw [hk, Function.update_self]
      simp
    · rw [Function.update_of_ne hk, hm]
      omega

/-- **Inserting the next rowid**, before the counter wraps and after. -/
theorem leafStep_rows (n : ℕ) (hv : value < Table.packedEnd) :
    LeafStep (LeafRows n) (LeafRows (n + 1)) ((n + 1) % 4294967296) value where
  keep h hk := by
    rcases h.keys with ⟨hn, m, hm, hr⟩ | ⟨hn, hc⟩
    · exact LeafRows.bind hm hn h.pointers h.hi_le (hr.update_of_not_mem hk (some value))
    · exact ⟨h.pointers, h.hi_le, Or.inr ⟨hn.trans (Nat.le_succ n), hc⟩⟩
  replace {cs lo hi idx} h hlo hhi _ _ hget := by
    obtain ⟨v, hget⟩ := hget
    have hp := h.pointers.set (fun _ => hv) idx ((n + 1) % 4294967296)
    rcases h.keys with ⟨hn, m, hm, hr⟩ | ⟨hn, hc⟩
    · exact LeafRows.bind hm hn hp h.hi_le (LeafMap.set hr hget value)
    · refine ⟨hp, h.hi_le, Or.inr ⟨hn.trans (Nat.le_succ n), ?_⟩⟩
      rw [map_fst_set hget]
      exact hc
  insert {cs lo hi idx} h hlo hhi _ hf hno := by
    have hp := h.pointers.insert hv idx ((n + 1) % 4294967296)
    rcases h.keys with ⟨hn, m, hm, hr⟩ | ⟨hn, hc⟩
    · exact LeafRows.bind hm hn hp h.hi_le (LeafMap.insertAt hr hf hlo hhi hno value)
    · obtain ⟨c, hcm, hck⟩ := List.mem_map.mp (hc.all _ hlo hhi)
      exact absurd hck (hno c hcm)
  split {cs lo hi idx} h hlo hhi hlen hf := by
    have hp := h.pointers.insert hv idx ((n + 1) % 4294967296)
    have hlow := hp.sublist (List.take_sublist 255 _)
    have hup := hp.sublist (List.drop_sublist 255 _)
    rcases h.keys with ⟨hn, m, hm, hr⟩ | ⟨hn, hc⟩
    · have hno : ∀ c ∈ cs, c.1 ≠ (n + 1) % 4294967296 := by
        intro c hc hck
        exact (hr.key_mem_iff hlo hhi).mp ⟨c, hc, hck⟩ (rowBindings_fresh hm hn)
      obtain ⟨c, hget, hclo, hchi, h1, h2⟩ := LeafMap.cut
        (LeafMap.insertAt hr hf hlo hhi hno value) (i := 255) (by omega) (by
          rw [length_insertAt]
          omega)
      exact ⟨c, hget, hclo, hchi, LeafRows.bind hm hn hlow (hchi.le.trans h.hi_le) h1,
        LeafRows.bind hm hn hup h.hi_le h2⟩
    · obtain ⟨rfl, hkeys⟩ := hc.full (by rw [List.length_map, hlen])
      -- the search ends at the cell that holds the key
      obtain ⟨v, hget⟩ := hf.hit.resolve_right (fun hno => by
        obtain ⟨c, hcm, hck⟩ := List.mem_map.mp (hc.all _ hlo hhi)
        exact hno c hcm hck)
      have hlt := (List.getElem?_eq_some_iff.mp hget).1
      have hidx : (cs.map Prod.fst)[idx]? = some ((n + 1) % 4294967296) := by
        rw [List.getElem?_map, hget]
        rfl
      rw [hkeys, List.getElem?_range' (by omega), Option.some.injEq] at hidx
      have hins : (insertAt cs idx ((n + 1) % 4294967296, value)).map Prod.fst
          = insertAt (List.range' lo 510) idx (lo + idx) := by
        rw [map_insertAt, hkeys, ← hidx, one_mul]
      obtain ⟨k, hk, h1, h2, h3, h4⟩ := Crowded.split lo (j := idx) (by omega)
      rw [← hins, ← List.map_take] at h3
      rw [← hins, ← List.map_drop] at h4
      rw [← hins, List.getElem?_map] at hk
      obtain ⟨c, hc', rfl⟩ := Option.map_eq_some_iff.mp hk
      exact ⟨c, hc', h1, h2, ⟨hlow, h2.le.trans h.hi_le, Or.inr ⟨hn.trans (Nat.le_succ n), h3⟩⟩,
        ⟨hup, h.hi_le, Or.inr ⟨hn.trans (Nat.le_succ n), h4⟩⟩⟩

/-- **Burying a rowid.** -/
theorem leafBury_rows (n key : ℕ) : LeafBury (LeafRows n) (LeafRows n) key where
  keep h _ := h
  bury {cs lo hi idx v} h _ _ _ hget _ := by
    refine ⟨h.pointers.set (fun hne => absurd rfl hne) idx key, h.hi_le, ?_⟩
    rcases h.keys with ⟨hn, m, hm, hr⟩ | ⟨hn, hc⟩
    · refine Or.inl ⟨hn, _, fun k => ?_, LeafMap.set hr hget tombstone⟩
      by_cases hk : k = key
      · rw [hk, Function.update_self, ← hm, (hr.of_mem (List.mem_of_getElem? hget)).2.2]
        simp
      · rw [Function.update_of_ne hk, hm]
    · refine Or.inr ⟨hn, ?_⟩
      rw [map_fst_set hget]
      exact hc

end BTree
