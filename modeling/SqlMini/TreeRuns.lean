import SqlMini.TreeMap

/-!
# Runs of the B-tree

A sequence of insertions and removals on a new tree is compared with the
same sequence on a finite map. Where no insertion meets its key in a full
leaf the results agree and every key is found with the value the sequence
leaves it with (`lastWriteWins_of_roomAlong`); insertions of distinct keys
are of that kind (`roomAlong_of_nodup`). In the remaining case the last write
may be lost (`not_lastWriteWins`).
-/

namespace BTree

open PageProg

variable {m : ℕ → Option ℕ} {base : ℕ} {s s' : Store} {key value idx : ℕ}

/-! ## Operations -/

/-- **The live part of a map**: a tombstone is no value. -/
def live (m : ℕ → Option ℕ) : ℕ → Option ℕ := fun k => (m k).filter (fun v => v ≠ tombstone)

section Live

theorem live_update_some (hv : value ≠ tombstone) :
    live (Function.update m key (some value)) = Function.update (live m) key (some value) := by
  funext k
  unfold live
  by_cases hk : k = key
  · subst hk
    simp [hv]
  · simp [Function.update_of_ne hk]

theorem live_update_tombstone :
    live (Function.update m key (some tombstone)) = Function.update (live m) key none := by
  funext k
  unfold live
  by_cases hk : k = key
  · subst hk
    simp
  · simp [Function.update_of_ne hk]

theorem live_eq_none (h : ∀ v, m key = some v → v = tombstone) : live m key = none := by
  rw [live, Option.filter_eq_none_iff]
  intro v hv
  simpa using h v hv

theorem live_eq_some {v : ℕ} (h : m key = some v) (hv : v ≠ tombstone) : live m key = some v := by
  simp [live, h, hv]

end Live

/-- **An operation on the map**, on 32-bit keys and values. -/
inductive MapOp where
  /-- `insert(k, v)`. -/
  | insert (k v : Fin uint32Size)
  /-- `remove(k)`. -/
  | remove (k : Fin uint32Size)
  deriving DecidableEq

namespace MapOp

/-- The operation on the tree, and the result of a removal. -/
def exec : MapOp → PageProg (Option Bool)
  | insert k v => do
    BTree.insert k v
    return none
  | remove k => do
    let r ← BTree.remove k
    return some r

/-- The operation on a finite map. -/
def apply (a : ℕ → Option ℕ) : MapOp → ℕ → Option ℕ
  | insert k v => Function.update a k (some v)
  | remove k => Function.update a k none

/-- The result of the operation on a finite map: whether the key to be
removed was bound. -/
def result (a : ℕ → Option ℕ) : MapOp → Option Bool
  | insert _ _ => none
  | remove k => some (a k).isSome

end MapOp

/-- A sequence of operations on the tree, and its results. -/
def execAll : List MapOp → PageProg (List (Option Bool))
  | [] => pure []
  | op :: ops => do
    let r ← op.exec
    let rs ← execAll ops
    return r :: rs

/-- The results of a sequence of operations on a finite map. -/
def results : (ℕ → Option ℕ) → List MapOp → List (Option Bool)
  | _, [] => []
  | a, op :: ops => op.result a :: results (op.apply a) ops

/-- The map a sequence of operations leaves. -/
def applyAll (a : ℕ → Option ℕ) (ops : List MapOp) : ℕ → Option ℕ := ops.foldl MapOp.apply a

/-- **No insertion of the run meets its key in a full leaf.** -/
def RoomAlong : List MapOp → Store → Prop
  | [], _ => True
  | op :: ops, s => (∀ k v, op = .insert k v → Room k s)
    ∧ ∀ r s', op.exec.run s = .ok (r, s') → RoomAlong ops s'

/-- The values a tree is asked to store are not negative as `int32_t`. -/
def Storable (ops : List MapOp) : Prop := ∀ k v, MapOp.insert k v ∈ ops → v.val < 2147483648

/-- **One operation** on a tree that holds a map. -/
theorem runs_exec {op : MapOp} (h : HoldsMap m base s)
    (hroom : ∀ k v, op = .insert k v → Room k s)
    (hv : ∀ k v, op = .insert k v → v.val < 2147483648) :
    Runs op.exec s (fun r s' => r = op.result (live m)
      ∧ ∃ m', HoldsMap m' base s' ∧ live m' = op.apply (live m)) := by
  cases op with
  | insert k v =>
    have hlt := hv k v rfl
    have hne : v.val ≠ tombstone := by
      unfold tombstone
      omega
    simp only [MapOp.exec, runs_bind]
    refine (h.runs_insert k.isLt v.isLt (hroom k v rfl)).mono ?_
    rintro _ s' ⟨_, hg⟩
    rw [runs_pure]
    exact ⟨rfl, _, hg.state, live_update_some hne⟩
  | remove k =>
    simp only [MapOp.exec, runs_bind]
    refine (h.runs_remove k.isLt).mono (fun r s' hr => ?_)
    rw [runs_pure]
    rcases hr with ⟨rfl, hnone, c, rfl⟩ | ⟨rfl, ⟨v, hm, hne⟩, _, hg⟩
    · have hl := live_eq_none hnone
      refine ⟨by simp [MapOp.result, hl], m, h.atClock c, ?_⟩
      exact (Function.update_eq_self_iff.mpr hl.symm).symm
    · have hl := live_eq_some hm hne
      exact ⟨by simp [MapOp.result, hl], _, hg.state, live_update_tombstone⟩

/-- **A run of operations** on a tree that holds a map. -/
theorem runs_execAll : ∀ (ops : List MapOp) (m : ℕ → Option ℕ) (s : Store), HoldsMap m base s →
    Storable ops → RoomAlong ops s →
    Runs (execAll ops) s (fun rs s' => rs = results (live m) ops
      ∧ ∃ m', HoldsMap m' base s' ∧ live m' = applyAll (live m) ops)
  | [], m, s, h, _, _ => (runs_pure _).mpr ⟨rfl, m, h, rfl⟩
  | op :: ops, m, s, h, hv, hroom => by
    obtain ⟨r, s₁, hrun, hr, m₁, h₁, hm₁⟩ := runs_exec h hroom.1
      (fun k v he => hv k v (he ▸ List.mem_cons_self))
    obtain ⟨rs, s₂, hrun', hrs, m₂, h₂, hm₂⟩ := runs_execAll ops m₁ s₁ h₁
      (fun k v hkv => hv k v (List.mem_cons_of_mem op hkv)) (hroom.2 r s₁ hrun)
    rw [execAll, runs_bind]
    refine ⟨r, s₁, hrun, runs_bind.mpr ⟨rs, s₂, hrun', (runs_pure _).mpr ⟨?_, m₂, h₂, ?_⟩⟩⟩
    · rw [hr, hrs, hm₁, results]
    · rw [hm₂, hm₁]
      rfl

/-- The keys a sequence of operations inserts. -/
def inserted (ops : List MapOp) : List (Fin uint32Size) :=
  ops.filterMap (fun op => match op with
    | .insert k _ => some k
    | .remove _ => none)

/-- **The keys of the map** after one operation: a removal leaves its key
bound, to the tombstone. -/
theorem runs_exec_keys {op : MapOp} (h : HoldsMap m base s)
    (hroom : ∀ k v, op = .insert k v → Room k s) :
    Runs op.exec s (fun _ s' => Store.Within .btree (Owned base s'.nextPageId) s s' ∧
      s.nextPageId ≤ s'.nextPageId ∧ ∃ m', HoldsMap m' base s' ∧
        ∀ j : Fin uint32Size, m' j ≠ none ↔ m j ≠ none ∨ j ∈ inserted [op]) := by
  have hupd : ∀ (k j : Fin uint32Size) (v : ℕ), Function.update m k (some v) j ≠ none
      ↔ m j ≠ none ∨ j = k := by
    intro k j v
    by_cases hj : j = k
    · subst hj
      simp
    · rw [Function.update_of_ne (fun he => hj (Fin.ext he))]
      simp [hj]
  cases op with
  | insert k v =>
    simp only [MapOp.exec, runs_bind]
    refine (h.runs_insert k.isLt v.isLt (hroom k v rfl)).mono ?_
    rintro _ s' ⟨_, hg⟩
    rw [runs_pure]
    refine ⟨hg.within, hg.next_le, _, hg.state, fun j => ?_⟩
    rw [hupd]
    simp [inserted]
  | remove k =>
    simp only [MapOp.exec, runs_bind]
    refine (h.runs_remove k.isLt).mono (fun r s' hr => ?_)
    rw [runs_pure]
    rcases hr with ⟨-, -, c, rfl⟩ | ⟨-, ⟨v, hm, -⟩, _, hg⟩
    · exact ⟨(Store.Within.refl _ _ s).atClock c, le_rfl, m, h.atClock c, by simp [inserted]⟩
    · refine ⟨hg.within, hg.next_le, _, hg.state, fun j => ?_⟩
      rw [hupd]
      simp only [inserted, List.filterMap_cons, List.filterMap_nil, List.not_mem_nil, or_false,
        or_iff_left_iff_imp]
      rintro rfl
      simp [hm]

/-- **Insertions of distinct new keys** meet the condition. -/
theorem roomAlong_of_nodup : ∀ (ops : List MapOp) (m : ℕ → Option ℕ) (s : Store),
    HoldsMap m base s → (inserted ops).Nodup → (∀ k ∈ inserted ops, m k = none) → RoomAlong ops s
  | [], _, _, _, _, _ => trivial
  | op :: ops, m, s, h, hnd, hnew => by
    have hcons : inserted (op :: ops) = inserted [op] ++ inserted ops :=
      List.filterMap_append (l := [op])
    rw [hcons] at hnd hnew
    have hroom : ∀ k v, op = .insert k v → Room k s := by
      rintro k v rfl
      exact h.room_of_none k.isLt (hnew k (by simp [inserted]))
    refine ⟨hroom, fun r s' hrun => ?_⟩
    obtain ⟨r', s'', hrun', -, -, m', h', hkeys⟩ := runs_exec_keys h hroom
    obtain ⟨rfl, rfl⟩ := Prod.mk.inj (Except.ok.inj (hrun.symm.trans hrun'))
    refine roomAlong_of_nodup ops m' s' h' (List.nodup_append.mp hnd).2.1 (fun k hk => ?_)
    by_contra hne
    rcases (hkeys k).mp hne with hm | hin
    · exact hm (hnew k (List.mem_append_right _ hk))
    · exact (List.nodup_append.mp hnd).2.2 k hin k hk rfl

/-! ## Last write wins -/

/-- What `find` is to return for a key. -/
def found : Option ℕ → ℤ
  | none => -1
  | some v => v

/-- **Last write wins** for a sequence of operations on a new tree: the
removals return whether their key was bound, and afterwards every key is
found with the value the operations leave it with. -/
def LastWriteWins (ops : List MapOp) : Prop :=
  Runs (do construct true; execAll ops) .empty (fun rs s =>
    rs = results (fun _ => none) ops
    ∧ ∀ k : Fin uint32Size, Runs (find k) s
        (fun r _ => r.val = found (applyAll (fun _ => none) ops k)))

/-- What a run leaves a key bound to was given by an insertion. -/
theorem applyAll_lt : ∀ (ops : List MapOp) (a : ℕ → Option ℕ), Storable ops →
    (∀ k v, a k = some v → v < 2147483648) → ∀ k v, applyAll a ops k = some v → v < 2147483648
  | [], _, _, ha => ha
  | op :: ops, a, hs, ha => by
    refine applyAll_lt ops (op.apply a) (fun k v hkv => hs k v (List.mem_cons_of_mem op hkv))
      (fun j w hw => ?_)
    cases op with
    | insert k v =>
      by_cases hj : j = k
      · subst hj
        rw [MapOp.apply, Function.update_self, Option.some.injEq] at hw
        rw [← hw]
        exact hs k v List.mem_cons_self
      · rw [MapOp.apply, Function.update_of_ne hj] at hw
        exact ha j w hw
    | remove k =>
      by_cases hj : j = k
      · subst hj
        rw [MapOp.apply, Function.update_self] at hw
        cases hw
      · rw [MapOp.apply, Function.update_of_ne hj] at hw
        exact ha j w hw

/-- The answer of `find` is what is to be found, for values that are not
negative. -/
theorem answer_eq_found (h : ∀ v, live m key = some v → v < 2147483648) :
    (answer (m key)).val = found (live m key) := by
  cases hm : m key with
  | none => simp [live, hm, answer, found, notFound]
  | some v =>
    by_cases hv : v = tombstone
    · rw [live_eq_none (fun w hw => (Option.some.inj (hm.symm.trans hw)).symm.trans hv), hv]
      rfl
    · have hl := live_eq_some hm hv
      rw [hl, answer, if_neg hv]
      exact CInt.val_ofUInt (h v hl)

/-- **The tree is a map with last-write-wins semantics** on every run in
which no insertion meets its key in a full leaf. -/
theorem lastWriteWins_of_roomAlong (ops : List MapOp) (hs : Storable ops)
    (hroom : RoomAlong ops newStore) : LastWriteWins ops := by
  have hlive : live (fun _ => none) = fun _ => none := rfl
  unfold LastWriteWins
  rw [runs_bind]
  refine ⟨(), newStore, run_construct, ?_⟩
  refine (runs_execAll ops _ newStore holdsMap_newStore hs hroom).mono ?_
  rintro rs s ⟨hrs, m, hm, hlm⟩
  rw [hlive] at hrs hlm
  refine ⟨hrs, fun k => (hm.runs_find k.isLt).mono ?_⟩
  rintro r s' ⟨-, rfl⟩
  have hlt := applyAll_lt ops (fun _ => none) hs (fun _ _ h => by cases h)
  rw [← hlm] at hlt ⊢
  exact answer_eq_found (hlt k)

/-- Keys inserted, removed and looked up in a new tree. -/
theorem lastWriteWins_three :
    LastWriteWins [.insert 1 2, .remove 1, .insert 3 4] := by
  have hs : Storable [.insert 1 2, .remove 1, .insert 3 4] := by
    intro k v hkv
    simp only [List.mem_cons, MapOp.insert.injEq, List.not_mem_nil, or_false, reduceCtorEq,
      false_or] at hkv
    rcases hkv with ⟨-, rfl⟩ | ⟨-, rfl⟩ <;> decide
  exact lastWriteWins_of_roomAlong _ hs
    (roomAlong_of_nodup _ _ _ holdsMap_newStore (by decide) (fun _ _ => rfl))

/-! ### A key inserted again into a full leaf

`510` insertions fill the root. Inserting the key `254` once more cuts it
between the new cell of the key and the old one, and the separator sends
`find` to the old one. -/

/-- The cells of keys from `n` on, with value `0`. -/
def zeroCells (n k : ℕ) : List (ℕ × ℕ) := (List.range' n k).map (fun i => (i, 0))

/-- The insertions of keys from `n` on, with value `0`. -/
def zeroInserts (n k : ℕ) : List MapOp :=
  (List.range' n k).map (fun i => .insert (Fin.ofNat _ i) 0)

/-- One leaf with the cells of the first `n` keys. -/
def LeafZeros (n : ℕ) : LeafSpec := fun cs lo hi =>
  lo = 0 ∧ hi = 4294967296 ∧ cs = zeroCells 0 n

/-- The halves of a full leaf after the key `254` was inserted again. -/
def LeafTwice : LeafSpec := fun cs lo hi =>
  (lo = 0 ∧ hi = 254 ∧ cs = zeroCells 0 254 ++ [(254, 1)])
    ∨ (lo = 254 ∧ hi = 4294967296 ∧ cs = zeroCells 254 256)

theorem getElem?_zeroCells {n k i : ℕ} :
    (zeroCells n k)[i]? = if i < k then some (n + i, 0) else none := by
  unfold zeroCells
  by_cases hi : i < k
  · simp [hi]
  · simp [hi]

theorem zeroCells_sorted (n k : ℕ) : (zeroCells n k).Pairwise (fun a b => a.1 < b.1) :=
  List.pairwise_map.mpr (List.pairwise_lt_range')

theorem leafZeros_sound (n : ℕ) : (LeafZeros n).Sound where
  sorted h := by
    rw [h.2.2]
    exact (zeroCells_sorted 0 n).imp le_of_lt
  wide h _ := by
    rw [h.1, h.2.1]
    omega

theorem leafTwice_sound : LeafTwice.Sound where
  sorted h := by
    rcases h with ⟨-, -, rfl⟩ | ⟨-, -, rfl⟩
    · refine List.pairwise_append.mpr ⟨(zeroCells_sorted 0 254).imp le_of_lt,
        List.pairwise_singleton _ _, fun a ha b hb => ?_⟩
      obtain ⟨i, hi⟩ := List.mem_iff_getElem?.mp ha
      rw [getElem?_zeroCells] at hi
      rw [List.mem_singleton.mp hb]
      split at hi
      · rw [← Option.some.inj hi]
        show 0 + i ≤ 254
        omega
      · cases hi
    · exact (zeroCells_sorted 254 256).imp le_of_lt
  wide h _ := by
    rcases h with ⟨rfl, rfl, -⟩ | ⟨rfl, rfl, -⟩ <;> omega

/-- Where a key is found in such a list. -/
theorem FoundIn.eq_of_zeroCells {n k : ℕ} (hf : FoundIn (zeroCells n k) key idx) (hlo : n ≤ key)
    (hhi : key < n + k) : idx = key - n ∧ (zeroCells n k)[idx]? = some (key, 0) := by
  have hmem : (zeroCells n k)[key - n]? = some (key, 0) := by
    rw [getElem?_zeroCells, if_pos (by omega), Nat.add_sub_cancel' hlo]
  rcases hf.hit with ⟨v, hv⟩ | hno
  · have hv' := hv
    rw [getElem?_zeroCells] at hv'
    split at hv'
    · obtain ⟨hk, -⟩ := Prod.mk.inj (Option.some.inj hv')
      have hidx : idx = key - n := by omega
      exact ⟨hidx, hidx ▸ hmem⟩
    · cases hv'
  · exact absurd rfl (hno _ (List.mem_of_getElem? hmem))

/-- A key past the others goes to the end. -/
theorem leafStep_zeros {n : ℕ} (hn : n < 510) : LeafStep (LeafZeros n) (LeafZeros (n + 1)) n 0 where
  keep h hk := by
    rw [h.1, h.2.1] at hk
    omega
  replace {cs lo hi idx} h _ _ _ _ hv := by
    obtain ⟨v, hv⟩ := hv
    rw [h.2.2, getElem?_zeroCells] at hv
    split at hv
    · obtain ⟨hk, -⟩ := Prod.mk.inj (Option.some.inj hv)
      omega
    · cases hv
  insert {cs lo hi idx} h _ _ _ hf _ := by
    obtain ⟨rfl, rfl, rfl⟩ := h
    refine ⟨rfl, rfl, ?_⟩
    have hlen : (zeroCells 0 n).length = n := by simp [zeroCells]
    have hidx : idx = n := by
      refine le_antisymm (hf.le_length.trans_eq hlen) (not_lt.mp (fun hlt => ?_))
      have hmem : (zeroCells 0 n)[idx]? = some (0 + idx, 0) := by
        rw [getElem?_zeroCells, if_pos hlt]
      have hdrop : (0 + idx, 0) ∈ (zeroCells 0 n).drop idx :=
        List.mem_of_getElem? (i := 0) (by rw [List.getElem?_drop]; exact hmem)
      have hge := hf.after _ hdrop
      simp only at hge
      omega
    rw [hidx, insertAt, List.take_of_length_le hlen.le, List.drop_of_length_le hlen.le]
    simp [zeroCells, List.range'_concat]
  split h _ _ hlen _ := by
    rw [h.2.2] at hlen
    simp only [zeroCells, List.length_map, List.length_range'] at hlen
    omega

/-- **The cut between two cells of one key.** -/
theorem leafStep_twice : LeafStep (LeafZeros 510) LeafTwice 254 1 where
  keep h hk := by
    rw [h.1, h.2.1] at hk
    omega
  replace h _ _ hlen _ _ := by
    rw [h.2.2] at hlen
    exact absurd hlen (by simp [zeroCells])
  insert h _ _ hlen _ _ := by
    rw [h.2.2] at hlen
    exact absurd hlen (by simp [zeroCells])
  split {cs lo hi idx} h _ _ _ hf := by
    obtain ⟨rfl, rfl, rfl⟩ := h
    obtain ⟨rfl, -⟩ := hf.eq_of_zeroCells (by omega) (by omega)
    have hcut : insertAt (zeroCells 0 510) (254 - 0) (254, 1)
        = (zeroCells 0 254 ++ [(254, 1)]) ++ zeroCells 254 256 := by
      have hlen : (zeroCells 0 254).length = 254 := by simp [zeroCells]
      have happ : zeroCells 0 510 = zeroCells 0 254 ++ zeroCells 254 256 := by
        unfold zeroCells
        rw [← List.map_append, List.range'_append_1]
      rw [happ, insertAt, List.take_left' hlen, List.drop_left' hlen, List.append_assoc]
      rfl
    have hlen : (zeroCells 0 254 ++ [(254, 1)]).length = 255 := by simp [zeroCells]
    rw [hcut]
    refine ⟨(254, 0), ?_, by omega, by omega, ?_, ?_⟩
    · rw [List.getElem?_append_right hlen.le, hlen]
      rfl
    · rw [List.take_left' hlen]
      exact Or.inl ⟨rfl, rfl, rfl⟩
    · rw [List.drop_left' hlen]
      exact Or.inr ⟨rfl, rfl, rfl⟩

/-- Filling the root, and what follows. -/
theorem runs_zeroInserts {rest : List MapOp} {Q : Store → Prop} : ∀ (k n : ℕ) (s : Store)
    (lab : ℕ → Label) (H : ℕ), n + k ≤ 510 → TreeState (LeafZeros n) 1 lab H s →
    (∀ s lab H, TreeState (LeafZeros (n + k)) 1 lab H s → Runs (execAll rest) s (fun _ => Q)) →
    Runs (execAll (zeroInserts n k ++ rest)) s (fun _ => Q)
  | 0, _, s, lab, H, _, h, hrest => hrest s lab H h
  | k + 1, n, s, lab, H, hle, h, hrest => by
    have hkey : (Fin.ofNat uint32Size n).val = n :=
      Nat.mod_eq_of_lt (show n < 4294967296 from by omega)
    have hstep := h.runs_insert (leafZeros_sound n) (leafStep_zeros (by omega))
      (show n < 4294967296 from by omega) (show 0 < 4294967296 from by omega)
    rw [← hkey] at hstep
    have hexp : execAll (zeroInserts n (k + 1) ++ rest) = (do
        let r ← (MapOp.insert (Fin.ofNat _ n) 0).exec
        let rs ← execAll (zeroInserts (n + 1) k ++ rest)
        return r :: rs) := rfl
    rw [hexp]
    simp only [MapOp.exec, runs_bind]
    refine hstep.mono (fun _ s₁ hg => ?_)
    obtain ⟨lab₁, H₁, h₁⟩ := hg.state
    rw [runs_pure]
    rw [hkey] at h₁
    refine (runs_zeroInserts k (n + 1) s₁ lab₁ H₁ (by omega) h₁ (fun t labt Ht ht => ?_)).mono
      (fun _ _ hQ => (runs_pure _).mpr hQ)
    rw [show n + 1 + k = n + (k + 1) from by omega] at ht
    exact hrest t labt Ht ht

/-- **The last write is lost** when a key is inserted again into a full leaf
at the cut: the tree answers with the value it had before. -/
theorem not_lastWriteWins : Storable (zeroInserts 0 510 ++ [.insert 254 1])
    ∧ ¬ LastWriteWins (zeroInserts 0 510 ++ [.insert 254 1]) := by
  have hs : Storable (zeroInserts 0 510 ++ [.insert 254 1]) := by
    intro k v hkv
    rcases List.mem_append.mp hkv with hkv | hkv
    · obtain ⟨i, -, hi⟩ := List.mem_map.mp hkv
      obtain ⟨-, rfl⟩ := MapOp.insert.inj hi
      decide
    · obtain ⟨-, rfl⟩ := MapOp.insert.inj (List.mem_singleton.mp hkv)
      decide
  refine ⟨hs, fun hall => ?_⟩
  have hlast : applyAll (fun _ => none) (zeroInserts 0 510 ++ [.insert 254 1]) 254 = some 1 := by
    rw [applyAll, List.foldl_append]
    exact @Function.update_self ℕ (fun _ => Option ℕ) _ 254 (some 1)
      (applyAll (fun _ => none) (zeroInserts 0 510))
  -- what the run leaves with the key is the first value
  have hrun : Runs (execAll (zeroInserts 0 510 ++ [.insert 254 1])) newStore
      (fun _ s => ∃ lab H, TreeState LeafTwice 1 lab H s) := by
    refine runs_zeroInserts 510 0 newStore rootLab 0 le_rfl (treeState_newStore ⟨rfl, rfl, rfl⟩)
      (fun s lab H h => ?_)
    simp only [execAll, MapOp.exec, runs_bind]
    exact (h.runs_insert (leafZeros_sound 510) leafStep_twice (by decide) (by decide)).mono
      (fun _ _ hg => by simpa only [runs_pure] using hg.state)
  obtain ⟨rs, s, hexec, lab, H, h⟩ := hrun
  obtain ⟨rs', s', hexec', -, hfind⟩ := hall
  rw [run_bind, run_construct, Except.ok_bind_eq] at hexec'
  obtain ⟨rfl, rfl⟩ := Prod.mk.inj (Except.ok.inj (hexec.symm.trans hexec'))
  obtain ⟨r, t, hr, hval⟩ := hfind 254
  obtain ⟨r', t', hr', -, p, idx, hreach, hans⟩ := runs_find leafTwice_sound h
    (show 254 < 4294967296 from by omega)
  obtain ⟨rfl, -⟩ := Prod.mk.inj (Except.ok.inj (hr.symm.trans hr'))
  have hlo := hreach.lo
  have hhi := hreach.hi
  rcases ((h.tree.node p hreach.mem).leaf hreach.lvl).2 with ⟨-, he, -⟩ | ⟨-, -, hcs⟩
  · omega
  · have hf := hreach.found
    rw [hcs] at hf hans
    obtain ⟨-, hcell⟩ := hf.eq_of_zeroCells le_rfl (by omega)
    have h254 : ((254 : Fin uint32Size) : ℕ) = 254 := rfl
    rw [h254, hlast, hans, cellFor, hcell] at hval
    exact absurd hval (by decide)

end BTree
