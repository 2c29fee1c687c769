import SqlMini.TreeInvariant
import SqlMini.TableReach
import SqlMini.TableSessions

/-!
# How many pages are requested

The clock of the array counts the requests of `get_page`. A descent requests a
page of each level, so the height of the tree is what a look-up costs, whatever
the key; and since every node but the root is half full, the height is
logarithmic in the number of keys ever inserted (`lookup_requests`), and the
pages the tree is spread over are few (`tree_pages`).

On a table, a look-up by rowid adds the heap page of the row, while a scan
looks up every rowid ever handed out (`point_and_scan_requests`).
-/

namespace BTree

open PageProg

variable {Leaf : LeafSpec} {m : ℕ → Option ℕ} {lab : ℕ → Label} {H base : ℕ} {s : Store}

/-! ## What a tree weighs -/

/-- A half full leaf of a map holds many keys. -/
theorem LeafMap.weigh {cs : List (ℕ × ℕ)} {lo hi : ℕ} (h : LeafMap m cs lo hi)
    (hlen : 255 ≤ cs.length) : boundBelow m lo + 255 ≤ boundBelow m hi := by
  have hwide := (leafMap_sound m).wide h hlen
  have hcount := RangeMap.boundBelow_add_length_le h (by omega)
  omega

/-- **A high tree holds many keys.** -/
theorem TreeState.levels_le {n : ℕ} (h : TreeState (LeafMap m) base lab H s)
    (hn : boundBelow m 4294967296 ≤ n) :
    H + 1 ≤ 5 ∧ (H + 1 = 1 ∨ 2 ≤ H + 1 ∧ 255 * 256 ^ (H + 1 - 2) ≤ n) := by
  refine ⟨Nat.succ_le_succ (h.tree.height_le (leafMap_sound m)), ?_⟩
  cases H with
  | zero => exact Or.inl rfl
  | succ l =>
    have hlab := h.tree.shape.root_lab
    have hroot := h.tree.node 0 h.tree.shape.root
    -- the last child of the root is not the root
    have hlast := (Node.view (s.pages 0)).getElem?_children_last
    obtain ⟨hT, hlvl, -, -⟩ := hroot.child (by rw [hlab]) (List.mem_of_getElem? hlast)
    have hne : (Node.view (s.pages 0)).link ≠ 0 := by
      intro he
      rw [he, hlab] at hlvl
      exact absurd hlvl (Nat.succ_ne_self l)
    have hw := h.tree.weigh (fun _ _ _ hleaf => hleaf.weigh) l _ hT hne hlvl
    have hhi := h.tree.shape.hi_le _ hT
    have hmono : boundBelow m (lab (Node.view (s.pages 0)).link).hi ≤ boundBelow m 4294967296 :=
      Nat.count_monotone _ hhi
    refine Or.inr ⟨by omega, ?_⟩
    rw [show l + 1 + 1 - 2 = l from rfl]
    omega

/-- The pages of one level other than the root. -/
theorem TreeState.level_weigh (h : TreeState (LeafMap m) base lab H s) (l : ℕ) :
    {p ∈ Finset.Ico base s.nextPageId | (lab p).lvl = l}.card * (255 * 256 ^ l)
      ≤ boundBelow m 4294967296 := by
  have hbase := h.base_pos
  have hT : ∀ p ∈ Finset.Ico base s.nextPageId, Owned base s.nextPageId p ∧ p ≠ 0 := by
    intro p hp
    rw [Finset.mem_Ico] at hp
    exact ⟨Or.inr hp, by omega⟩
  have hfit := sum_width_le {p ∈ Finset.Ico base s.nextPageId | (lab p).lvl = l}
    (fun p => boundBelow m (lab p).lo) (fun p => boundBelow m (lab p).hi)
    (boundBelow m 4294967296) (fun p hp => ?_) (fun p hp q hq hpq => ?_)
  · refine le_trans ?_ hfit
    rw [← smul_eq_mul]
    refine Finset.card_nsmul_le_sum _ _ _ (fun p hp => ?_)
    obtain ⟨hp, hl⟩ := Finset.mem_filter.mp hp
    have hw := h.tree.weigh (fun _ _ _ hleaf => hleaf.weigh) l p (hT p hp).1 (hT p hp).2 hl
    exact Nat.le_sub_of_add_le' hw
  · exact Nat.count_monotone _ (h.tree.shape.hi_le p (hT p (Finset.mem_filter.mp hp).1).1)
  · rw [Finset.mem_filter] at hp hq
    exact (h.tree.shape.apart p q (hT p hp.1).1 (hT q hq.1).1 hpq (hp.2.trans hq.2.symm)).imp
      (Nat.count_monotone _ ·) (Nat.count_monotone _ ·)

/-- **A tree of many pages holds many keys.** -/
theorem TreeState.pages_weigh (h : TreeState (LeafMap m) base lab H s) :
    254 * (s.nextPageId - base) ≤ boundBelow m 4294967296 := by
  have hbase := h.base_pos
  have hmaps : ∀ p ∈ Finset.Ico base s.nextPageId, (lab p).lvl ∈ Finset.range 4 := by
    intro p hp
    rw [Finset.mem_Ico] at hp
    exact Finset.mem_range.mpr (Nat.lt_succ_of_le
      (h.tree.lvl_le_three (leafMap_sound m) (Or.inr hp) (by omega)))
  have hcard : s.nextPageId - base
      = ∑ l ∈ Finset.range 4, {p ∈ Finset.Ico base s.nextPageId | (lab p).lvl = l}.card := by
    rw [← Nat.card_Ico]
    exact Finset.card_eq_sum_card_fiberwise hmaps
  have h0 := h.level_weigh 0
  have h1 := h.level_weigh 1
  have h2 := h.level_weigh 2
  have h3 := h.level_weigh 3
  simp only [Finset.sum_range_succ, Finset.sum_range_zero] at hcard
  omega

/-! ## Runs -/

/-- **`remove` requests a page of each level**, like `find`. -/
theorem TreeState.remove_requests {key : ℕ} (hL : Leaf.Sound) (h : TreeState Leaf base lab H s)
    (hkey : key < 4294967296) :
    Runs (remove key) s (fun _ s' => s'.clock = s.clock + (H + 1)) := by
  unfold remove
  refine h.runs_search_counted hL hkey (fun r hr => ?_)
  obtain ⟨idx, hidx, -, hcase⟩ := hr.reached hL h.tree
  have hnum := (h.tree.node _ hr.mem).num_le
  simp only [runs_bind, runs_load, Store.pages_atClock, hr.ptr, runs_lift_ok hidx]
  rcases hcase with ⟨hhold, -⟩ | ⟨v, hhold, -, hlt, hval⟩
  · simp only [runs_lift_ok hhold, Bool.not_false, if_true]
    rw [runs_pure]
    rfl
  · simp only [runs_lift_ok hhold, Bool.not_true, Bool.false_eq_true, if_false, runs_bind,
      runs_lift_ok hval]
    refine runs_ite (fun _ => (runs_pure _).mpr rfl) (fun _ => ?_)
    obtain ⟨b, hb, -⟩ := Node.setValue_spec (show idx < 510 from by omega)
      (show tombstone < 4294967296 from by decide) (s.pages r.1)
    simp only [runs_bind, runs_modifyChecked, runs_markDirty, Store.pages_atClock, hr.ptr, hb,
      Except.ok.injEq, exists_eq_left']
    rw [runs_pure]
    rfl

/-- The keys of a run are counted by its insertions. -/
theorem boundBelow_le_inserted {ops : List MapOp}
    (h : ∀ j : Fin uint32Size, m j ≠ none → j ∈ inserted ops) :
    boundBelow m 4294967296 ≤ (inserted ops).length := by
  rw [boundBelow, Nat.count_eq_card_filter_range, ← List.length_map (f := Fin.val)]
  refine (Finset.card_le_card (fun k hk => ?_)).trans (List.toFinset_card_le _)
  obtain ⟨hlt, hm⟩ := Finset.mem_filter.mp hk
  rw [Finset.mem_range] at hlt
  have hne : m k ≠ none := by
    intro hnone
    rw [hnone] at hm
    exact Bool.false_ne_true hm
  exact List.mem_toFinset.mpr (List.mem_map.mpr ⟨⟨k, hlt⟩, h ⟨k, hlt⟩ hne, rfl⟩)

/-- The state of a run on a new tree. -/
theorem runs_state (ops : List MapOp) (hnd : (inserted ops).Nodup) :
    Runs (do construct true; execAll ops) .empty (fun _ s => ∃ m lab H,
      TreeState (LeafMap m) 1 lab H s ∧ boundBelow m 4294967296 ≤ (inserted ops).length) := by
  rw [runs_bind]
  refine ⟨(), newStore, run_construct, ?_⟩
  have hroom := roomAlong_of_nodup ops _ newStore holdsMap_newStore hnd (fun _ _ => rfl)
  refine (runs_execAll_keys ops _ newStore holdsMap_newStore hroom).mono ?_
  rintro _ s ⟨-, -, m, ⟨lab, H, h⟩, hkeys⟩
  exact ⟨m, lab, H, h, boundBelow_le_inserted (fun j hj => ((hkeys j).mp hj).resolve_left
    (fun hno => hno rfl))⟩

/-- **A look-up is logarithmic**: after every run of insertions of distinct keys
and removals on a new tree, every `find` and every `remove` requests the same
number of pages, at most five, and more than one only if that many powers of
`256` were inserted. -/
theorem lookup_requests (ops : List MapOp) (hnd : (inserted ops).Nodup) :
    Runs (do construct true; execAll ops) .empty (fun _ s => ∃ d, d ≤ 5
      ∧ (d = 1 ∨ 2 ≤ d ∧ 255 * 256 ^ (d - 2) ≤ (inserted ops).length)
      ∧ ∀ k : Fin uint32Size, Runs (find k) s (fun _ s' => s'.clock = s.clock + d)
        ∧ Runs (remove k) s (fun _ s' => s'.clock = s.clock + d)) := by
  refine (runs_state ops hnd).mono ?_
  rintro _ s ⟨m, lab, H, h, hcount⟩
  have hL := leafMap_sound m
  obtain ⟨hle, hlog⟩ := h.levels_le hcount
  refine ⟨H + 1, hle, hlog, fun k =>
    ⟨(runs_find_counted hL h k.isLt).mono ?_, h.remove_requests hL k.isLt⟩⟩
  rintro _ s' ⟨rfl, -⟩
  rfl

/-- Two keys, one of them removed. -/
theorem lookup_requests_three :
    Runs (do construct true; execAll [.insert 5 7, .remove 5, .insert 3 1]) .empty (fun _ s => ∃ d,
      d ≤ 5 ∧ (d = 1 ∨ 2 ≤ d ∧ 255 * 256 ^ (d - 2)
          ≤ (inserted [.insert 5 7, .remove 5, .insert 3 1]).length)
      ∧ ∀ k : Fin uint32Size, Runs (find k) s (fun _ s' => s'.clock = s.clock + d)
        ∧ Runs (remove k) s (fun _ s' => s'.clock = s.clock + d)) :=
  lookup_requests _ (by decide)

/-- **The tree is spread over few pages**: each page but the root stands for
`254` insertions. -/
theorem tree_pages (ops : List MapOp) (hnd : (inserted ops).Nodup) :
    Runs (do construct true; execAll ops) .empty (fun _ s =>
      s.extent = s.nextPageId ∧ 254 * (s.nextPageId - 1) ≤ (inserted ops).length) := by
  refine (runs_state ops hnd).mono ?_
  rintro _ s ⟨m, lab, H, h, hcount⟩
  exact ⟨h.synced, h.pages_weigh.trans hcount⟩

/-- More keys than a leaf has room for, of which one is removed. -/
def manyOps : List MapOp := zeroInserts 0 600 ++ [.remove ⟨5, by decide⟩]

theorem nodup_inserted_manyOps : (inserted manyOps).Nodup := by
  have hkeys : inserted manyOps = (List.range' 0 600).map (Fin.ofNat _) := by
    simp [inserted, manyOps, zeroInserts, List.filterMap_append, List.filterMap_map]
  rw [hkeys]
  refine List.Nodup.map_on (fun x hx y hy hxy => ?_) List.nodup_range'
  have hx' : x < uint32Size := by grind
  have hy' : y < uint32Size := by grind
  calc x = x % uint32Size := (Nat.mod_eq_of_lt hx').symm
    _ = y % uint32Size := congrArg Fin.val hxy
    _ = y := Nat.mod_eq_of_lt hy'

/-- They are on three pages. -/
theorem tree_pages_many :
    Runs (do construct true; execAll manyOps) .empty (fun _ s =>
      s.extent = s.nextPageId ∧ 254 * (s.nextPageId - 1) ≤ (inserted manyOps).length) :=
  tree_pages manyOps nodup_inserted_manyOps

end BTree

namespace Table

open PageProg BTree

variable {σ : Type} {a : RowMap} {m : ℕ → Option ℕ} {t : Table} {s : Store} {lab : ℕ → Label}
  {H key : ℕ} {cb : Callback σ}

/-! ## Look-ups and scans -/

/-- Following a pointer requests the heap page. -/
theorem fetchRow_requests (packed : CInt) :
    Always (fetchRow t packed) s (fun _ s' => s'.clock = s.clock + 1) := by
  unfold fetchRow
  refine Always.bind (Runs.always (runs_getPage.mpr ?_))
  refine Always.bind (Runs.always (runs_load.mpr ?_))
  refine Always.bind (always_lift.mpr (fun r _ => ?_))
  cases r with
  | none => exact Runs.always ((runs_pure _).mpr rfl)
  | some r =>
    exact Always.bind (always_lift.mpr (fun _ _ => Runs.always ((runs_pure _).mpr rfl)))

/-- A callback that never ends the scan. -/
def Patient (cb : Callback σ) : Prop := ∀ rid row st, ∃ st', cb rid row st = .ok (true, st')

namespace Stands

/-- Few keys are in the tree of a table. -/
theorem boundBelow_le (h : Stands a m t s) : boundBelow m 4294967296 ≤ a.next - 1 := by
  rw [boundBelow, Nat.count_eq_card_filter_range, ← Nat.card_Ico]
  refine Finset.card_le_card (fun k hk => Finset.mem_Ico.mpr (h.born k ?_))
  intro hnone
  have hm := (Finset.mem_filter.mp hk).2
  rw [hnone] at hm
  exact Bool.false_ne_true hm

/-- **Looking a rowid up** requests a page of each level of the tree, and
following what it finds one more. -/
theorem runs_find_counted (h : Stands a m t s) (hT : TreeState (LeafMap m) 1024 lab H s)
    (hkey : key < 4294967296) :
    Runs (BTree.find key) s (fun packed s' => s' = s.atClock (s.clock + (H + 1))
      ∧ ((packed.val < 0 ∧ a.rows key = none)
        ∨ (¬ packed.val < 0 ∧ ∃ row, a.rows key = some row
          ∧ Runs (fetchRow t packed) s' (fun r s'' => r = some row
            ∧ s'' = s.atClock (s.clock + (H + 1) + 1))))) := by
  refine ((h.runs_find hkey).and (BTree.runs_find_counted (leafMap_sound m) hT hkey).always).mono ?_
  rintro packed s' ⟨⟨-, hcase⟩, rfl, -⟩
  refine ⟨rfl, hcase.imp id (fun ⟨hnneg, row, hrow, hfetch⟩ => ⟨hnneg, row, hrow, ?_⟩)⟩
  refine (hfetch.and (fetchRow_requests packed)).mono ?_
  rintro r s'' ⟨⟨hr, c, rfl⟩, hclock⟩
  exact ⟨hr, congrArg s.atClock hclock⟩

/-- **`find_by_rowid`** requests one page more if there is a row. -/
theorem findByRowid_requests (h : Stands a m t s) (hT : TreeState (LeafMap m) 1024 lab H s)
    (hkey : key < 4294967296) :
    Runs (findByRowid t key) s (fun r s' => r = a.rows key
      ∧ s'.clock = s.clock + (H + 1) + if r.isSome then 1 else 0) := by
  rw [findByRowid, runs_bind]
  refine (h.runs_find_counted hT hkey).mono ?_
  rintro packed s' ⟨rfl, ⟨hneg, hnone⟩ | ⟨hnneg, row, hrow, hfetch⟩⟩
  · rw [if_pos hneg, runs_pure, hnone]
    exact ⟨rfl, rfl⟩
  · rw [if_neg hnneg, hrow]
    refine hfetch.mono ?_
    rintro r s'' ⟨rfl, rfl⟩
    exact ⟨rfl, rfl⟩

/-- **The loop of `scan`** looks every rowid up. -/
theorem scanFrom_requests (cb : Callback σ) : ∀ (n rid count : ℕ) (st : σ) (c : ℕ),
    Stands a m t s → TreeState (LeafMap m) 1024 lab H s → rid + n ≤ 4294967296 →
    Runs (scanFrom t cb n rid count st) (s.atClock c) (fun _ s' =>
      s'.clock ≤ c + ((H + 1) * n + (a.between rid n).length)
        ∧ (Patient cb → s'.clock = c + ((H + 1) * n + (a.between rid n).length)))
  | 0, _, _, _, c, _, _, _ => (runs_pure _).mpr ⟨Nat.le_add_right _ _, fun _ => rfl⟩
  | n + 1, rid, count, st, c, h, hT, hrid => by
    have ih := fun count st c' => scanFrom_requests cb n (rid + 1) count st c' h hT (by omega)
    have hmul : (H + 1) * (n + 1) = (H + 1) * n + (H + 1) := Nat.mul_succ _ _
    rw [scanFrom, RowMap.between_succ, runs_bind]
    refine ((h.atClock c).runs_find_counted (hT.atClock c) (show rid < 4294967296 by omega)).mono ?_
    rintro packed s' ⟨rfl, ⟨hneg, hnone⟩ | ⟨hnneg, row, hrow, hfetch⟩⟩
    · rw [if_pos hneg, hnone]
      dsimp only
      refine (ih count st (c + (H + 1))).mono ?_
      rintro _ s' ⟨hle, heq⟩
      refine ⟨?_, fun hp => ?_⟩
      · exact hle.trans (by omega)
      · exact (heq hp).trans (by omega)
    · rw [if_neg hnneg, hrow, runs_bind]
      refine hfetch.mono ?_
      rintro r s₂ ⟨rfl, rfl⟩
      have hclock : (s.atClock c).clock + (H + 1) + 1 = c + (H + 1) + 1 := rfl
      simp only [List.length_cons]
      rcases hcb : cb rid row st with e | ⟨go, st'⟩
      · refine (runs_pure _).mpr ⟨?_, fun hp => ?_⟩
        · show c + (H + 1) + 1 ≤ _
          omega
        · obtain ⟨st', hst'⟩ := hp rid row st
          cases hcb.symm.trans hst'
      · cases go with
        | true =>
          refine (ih (count + 1) st' (c + (H + 1) + 1)).mono ?_
          rintro _ s' ⟨hle, heq⟩
          refine ⟨?_, fun hp => ?_⟩
          · exact hle.trans (by omega)
          · exact (heq hp).trans (by omega)
        | false =>
          refine (runs_pure _).mpr ⟨?_, fun hp => ?_⟩
          · show c + (H + 1) + 1 ≤ _
            omega
          · obtain ⟨st'', hst''⟩ := hp rid row st
            cases hcb.symm.trans hst''

end Stands

/-- **A look-up by rowid is logarithmic, a scan linear**, in the rowids ever
handed out: on a table in use every look-up requests the same number of pages
of the tree and the heap page of the row it finds, while a scan to the end
looks up every rowid, those of deleted rows too. -/
theorem point_and_scan_requests {ok : Row → Prop} {schema : Schema}
    (hok : ∀ row, ok row → row.length = schema.cols.length
      ∧ (serializeRow schema row).length ≤ 65535)
    (h : Reached ok schema a t s) (hnext : a.next < 4294967296) :
    ∃ d, d ≤ 5 ∧ (d = 1 ∨ 2 ≤ d ∧ 255 * 256 ^ (d - 2) ≤ a.next - 1)
      ∧ (∀ rowid, rowid < 4294967296 → Runs (findByRowid t rowid) s (fun r s' =>
        r = a.rows rowid ∧ s'.clock = s.clock + d + if r.isSome then 1 else 0))
      ∧ ∀ (cb : Callback σ) (st : σ), Runs (scan t cb st) s (fun r s' =>
        r = RowMap.visit cb a.all 0 st
          ∧ s'.clock ≤ s.clock + (d * (a.next - 1) + a.all.length)
          ∧ (Patient cb → s'.clock = s.clock + (d * (a.next - 1) + a.all.length))) := by
  obtain ⟨⟨m, hm⟩, -, -⟩ := h.stands hok hnext
  obtain ⟨lab, H, hT⟩ := hm.state.tree
  obtain ⟨hle, hlog⟩ := hT.levels_le hm.boundBelow_le
  refine ⟨H + 1, hle, hlog, fun rowid hlt => hm.findByRowid_requests hT hlt, fun cb st => ?_⟩
  have hpos := hm.next_pos
  have hrun := hm.scanFrom_requests cb (a.next - 1) 1 0 st s.clock hT (by omega)
  have hscan : scan t cb st = scanFrom t cb (a.next - 1) 1 0 st := by rw [scan, hm.next_eq]
  rw [← hscan] at hrun
  refine ((hm.runs_scan cb st).and hrun.always).mono ?_
  rintro r s' ⟨⟨hr, -⟩, hcost⟩
  exact ⟨hr, hcost⟩

/-- A table of one row. -/
theorem point_and_scan_requests_one : ∃ t s d, d ≤ 5 ∧ (d = 1 ∨ 2 ≤ d ∧ 255 * 256 ^ (d - 2) ≤ 1)
    ∧ (∀ rowid, rowid < 4294967296 → Runs (findByRowid t rowid) s (fun r s' =>
      r = (RowMap.empty.insert [.makeInt (.ofUInt 7)]).rows rowid
        ∧ s'.clock = s.clock + d + if r.isSome then 1 else 0))
    ∧ ∀ (cb : Callback Unit) (st : Unit), Runs (scan t cb st) s (fun r s' =>
      r = RowMap.visit cb (RowMap.empty.insert [.makeInt (.ofUInt 7)]).all 0 st
        ∧ s'.clock ≤ s.clock + (d * 1 + 1) ∧ (Patient cb → s'.clock = s.clock + (d * 1 + 1))) := by
  have hfit : counters.Fits := by decide
  have hlen : (serializeRow counters [.makeInt (.ofUInt 7)]).length ≤ 4088 := by decide
  obtain ⟨m, t, s, hrun, -, -⟩ := Stands.exists_first hfit
    (show [Value.makeInt (.ofUInt 7)].length = counters.cols.length from rfl) hlen
  have hnew : Reached (fun row => row = [.makeInt (.ofUInt 7)]) counters .empty
      ⟨counters, 1, 512⟩ (metaStore ⟨counters, 1, 512⟩ newHeap) :=
    .new (construct_eq_ok.mpr ⟨hfit, rfl, rfl⟩)
  refine ⟨t, s, point_and_scan_requests (fun row hrow => ?_) (hnew.insert rfl hrun) (by decide)⟩
  rw [hrow]
  exact ⟨rfl, hlen.trans (by decide)⟩

end Table
