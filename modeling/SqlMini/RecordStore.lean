import SqlMini.SlottedPage

/-!
# A slotted page is a record store

What the class of `SqlMini.SlottedPage` is for is to keep a finite map from
slots to records inside one page. This module proves that it does: each
operation keeps the representation invariant and changes the map at the
slots it names and nowhere else (`insert_spec`, `deleteSlot_spec`,
`update_spec`), and so along every run from a fresh page the bytes read at a
slot are the bytes last stored there (`runOps_faithful`).

An insertion writes at four places – the free offset, the record, the slot
count when the directory grows, and the slot entry – and they lie apart
because the record is placed past the grown directory. `Placed` collects
what the resulting page holds, so that the invariant and the map are read
off it rather than off the chain of stores.
-/

namespace SlottedPage

variable {buf buf' : Page} {data : List UInt8}

/-! ## The fields of a page after a store -/

/-- The page with a directory entry set. -/
def withSlot (buf : Page) (i offset length : ℕ) : Page :=
  (buf.writeLE (slotAt i) 2 offset).writeLE (slotAt i + 2) 2 length

theorem setSlot_eq (buf : Page) {i : ℕ} (offset length : ℕ) (hi : i ≤ 1022) :
    setSlot buf i offset length = .ok (withSlot buf i offset length) := by
  unfold setSlot withSlot
  rw [buf.poke_ok offset (by rw [slotAt_eq]; omega), Except.ok_bind_eq,
    Page.poke_ok _ length (by rw [slotAt_eq]; omega)]

theorem readLE_withSlot (buf : Page) {i offset length o w : ℕ}
    (h : o + w ≤ slotAt i ∨ slotAt i + 4 ≤ o) :
    (withSlot buf i offset length).readLE o w = buf.readLE o w := by
  unfold withSlot
  rw [Buffer.readLE_writeLE_disjoint _ _ (by omega),
    Buffer.readLE_writeLE_disjoint _ _ (by omega)]

theorem slice_withSlot (buf : Page) {i offset length o len : ℕ} (h : slotAt i + 4 ≤ o) :
    (withSlot buf i offset length).slice o len = buf.slice o len := by
  unfold withSlot
  rw [Buffer.slice_writeLE_disjoint _ _ (by omega),
    Buffer.slice_writeLE_disjoint _ _ (by omega)]

@[simp] theorem numSlots_withSlot (buf : Page) (i offset length : ℕ) :
    numSlots (withSlot buf i offset length) = numSlots buf :=
  readLE_withSlot buf (by rw [slotAt_eq]; omega)

@[simp] theorem freeOffset_withSlot (buf : Page) (i offset length : ℕ) :
    freeOffset (withSlot buf i offset length) = freeOffset buf :=
  readLE_withSlot buf (by rw [slotAt_eq]; omega)

theorem offsetOf_withSlot_same (buf : Page) {i offset length : ℕ} (hi : i ≤ 1022)
    (ho : offset < 65536) : offsetOf (withSlot buf i offset length) i = offset := by
  unfold offsetOf withSlot
  rw [Buffer.readLE_writeLE_disjoint _ _ (by omega),
    Page.readLE_writeLE_two _ (by rw [slotAt_eq]; omega) ho]

theorem lengthOf_withSlot_same (buf : Page) {i offset length : ℕ} (hi : i ≤ 1022)
    (hl : length < 65536) : lengthOf (withSlot buf i offset length) i = length := by
  unfold lengthOf withSlot
  rw [Page.readLE_writeLE_two _ (by rw [slotAt_eq]; omega) hl]

theorem offsetOf_withSlot_of_ne (buf : Page) {i j : ℕ} (offset length : ℕ) (h : j ≠ i) :
    offsetOf (withSlot buf i offset length) j = offsetOf buf j :=
  readLE_withSlot buf (by simp only [slotAt_eq]; omega)

theorem lengthOf_withSlot_of_ne (buf : Page) {i j : ℕ} (offset length : ℕ) (h : j ≠ i) :
    lengthOf (withSlot buf i offset length) j = lengthOf buf j :=
  readLE_withSlot buf (by simp only [slotAt_eq]; omega)

/-! ## Insertion -/

/-- The bytes a new record needs in the directory: none when a deleted slot
can be reused. -/
def directoryGrowth (buf : Page) : ℕ :=
  if ∃ i < numSlots buf, ¬ Live buf i then 0 else slotEntrySize

theorem directoryGrowth_le (buf : Page) : directoryGrowth buf ≤ 4 := by
  unfold directoryGrowth
  split <;> decide

/-- **What the page holds after a record was placed** at `offset` and
entered in slot `i`. -/
structure Placed (buf buf' : Page) (i offset : ℕ) (data : List UInt8) : Prop where
  /-- The directory reaches the slot. -/
  num : numSlots buf' = max (numSlots buf) (i + 1)
  /-- The records start at the new one. -/
  free : freeOffset buf' = offset
  /-- The entry points at the record. -/
  offset_same : offsetOf buf' i = offset
  /-- The entry has the record's length. -/
  length_same : lengthOf buf' i = data.length
  /-- The other entries are the old ones. -/
  entry_ne : ∀ j, j ≠ i → j < numSlots buf →
    offsetOf buf' j = offsetOf buf j ∧ lengthOf buf' j = lengthOf buf j
  /-- The record is there. -/
  record : buf'.slice offset data.length = data
  /-- The old records are there. -/
  keep : ∀ o len, freeOffset buf ≤ o → buf'.slice o len = buf.slice o len

/-- The page written by an insertion is `Placed`: its stores lie apart
because the record starts past the grown directory. -/
theorem placed_of_stores {i offset n : ℕ} (hn : n = max (numSlots buf) (i + 1))
    (hi : 4 + n * 4 ≤ offset) (hfree : offset + data.length = freeOffset buf)
    (hpage : freeOffset buf ≤ 4096) {b : Page}
    (hb : numSlots b = n) (hb' : ∀ o len, 2 ≤ o →
      b.slice o len = ((buf.writeLE 2 2 offset).blit offset data).slice o len) :
    Placed buf (withSlot b i offset data.length) i offset data := by
  have hread : ∀ o w, 2 ≤ o →
      b.readLE o w = ((buf.writeLE 2 2 offset).blit offset data).readLE o w :=
    fun o w ho => congrArg LittleEndian.decode (hb' o w ho)
  have hentry : ∀ o, 4 ≤ o → o + 2 ≤ 4 + n * 4 → b.readLE o 2 = buf.readLE o 2 := by
    intro o ho ho'
    rw [hread o 2 (by omega), Buffer.readLE_blit_disjoint _ (by omega),
      Buffer.readLE_writeLE_disjoint _ _ (by omega)]
  have hi1 : i + 1 ≤ n := by omega
  refine ⟨?_, ?_, ?_, ?_, ?_, ?_, ?_⟩
  · rw [numSlots_withSlot, hb, hn]
  · rw [freeOffset_withSlot, freeOffset, hread 2 2 le_rfl,
      Buffer.readLE_blit_disjoint _ (by omega), Page.readLE_writeLE_two _ (by omega) (by omega)]
  · exact offsetOf_withSlot_same b (by omega) (by omega)
  · exact lengthOf_withSlot_same b (by omega) (by omega)
  · intro j hji hj
    rw [offsetOf_withSlot_of_ne b offset data.length hji,
      lengthOf_withSlot_of_ne b offset data.length hji]
    exact ⟨hentry _ (by rw [slotAt_eq]; omega) (by rw [slotAt_eq]; omega),
      hentry _ (by rw [slotAt_eq]; omega) (by rw [slotAt_eq]; omega)⟩
  · rw [slice_withSlot b (by rw [slotAt_eq]; omega), hb' _ _ (by omega)]
    exact Buffer.slice_blit_same _ (show offset + data.length ≤ 4096 from by omega)
  · intro o len ho
    rw [slice_withSlot b (by rw [slotAt_eq]; omega), hb' _ _ (by omega),
      Buffer.slice_blit_disjoint _ (by omega), Buffer.slice_writeLE_disjoint _ _ (by omega)]

namespace Placed

variable {i offset : ℕ}

/-- The live slots after a record was placed. -/
theorem live_iff (h : Placed buf buf' i offset data) (h0 : 0 < offset)
    (hi : i ≤ numSlots buf) (j : ℕ) : Live buf' j ↔ j = i ∨ Live buf j := by
  unfold Live
  rw [h.num]
  by_cases hji : j = i
  · subst hji
    rw [h.offset_same]
    exact iff_of_true ⟨by omega, Nat.pos_iff_ne_zero.mp h0⟩ (Or.inl rfl)
  · by_cases hj : j < numSlots buf
    · rw [(h.entry_ne j hji hj).1]
      simp only [hji, false_or]
      omega
    · simp only [hji, false_or]
      omega

/-- **Placing a record keeps the invariant**: the new record lies below the
old ones and above the directory. -/
theorem wellFormed (h : Placed buf buf' i offset data) (hw : WellFormed buf)
    (hi : i ≤ numSlots buf) (hdir : 4 + max (numSlots buf) (i + 1) * 4 ≤ offset)
    (hfree : offset + data.length = freeOffset buf) : WellFormed buf' := by
  have hlive := h.live_iff (by omega) hi
  obtain ⟨-, hfl⟩ := hw.bounds
  have hold : ∀ j, j ≠ i → Live buf j → offsetOf buf' j = offsetOf buf j
      ∧ lengthOf buf' j = lengthOf buf j := fun j hji hl => h.entry_ne j hji hl.1
  refine ⟨?_, ?_, ?_, ?_⟩
  · rw [dirEnd, slotAt_eq, h.num, h.free]
    exact hdir
  · rw [h.free]
    show offset ≤ 4096
    omega
  · intro j hj
    rw [h.free]
    by_cases hji : j = i
    · subst hji
      rw [h.offset_same, h.length_same]
      exact ⟨le_rfl, show offset + data.length ≤ 4096 from by omega⟩
    · have hl := ((hlive j).mp hj).resolve_left hji
      obtain ⟨he, hn⟩ := hold j hji hl
      obtain ⟨h1, h2⟩ := hw.inside j hl
      rw [he, hn]
      exact ⟨by omega, h2⟩
  · -- the new record ends where the old ones start
    have hnew : ∀ j, j ≠ i → Live buf j →
        offsetOf buf' i + lengthOf buf' i ≤ offsetOf buf' j := by
      intro j hji hl
      rw [h.offset_same, h.length_same, (hold j hji hl).1, hfree]
      exact (hw.inside j hl).1
    intro j k hj hk hjk
    by_cases hji : j = i
    · subst hji
      exact Or.inl (hnew k (Ne.symm hjk) (((hlive k).mp hk).resolve_left (Ne.symm hjk)))
    · have hlj := ((hlive j).mp hj).resolve_left hji
      by_cases hki : k = i
      · subst hki
        exact Or.inr (hnew j hjk hlj)
      · have hlk := ((hlive k).mp hk).resolve_left hki
        obtain ⟨hej, hnj⟩ := hold j hji hlj
        obtain ⟨hek, hnk⟩ := hold k hki hlk
        rw [hej, hnj, hek, hnk]
        exact hw.disjoint j k hlj hlk hjk

/-- The new record is read at its slot. -/
theorem content_same (h : Placed buf buf' i offset data) (h0 : 0 < offset)
    (hi : i ≤ numSlots buf) : content buf' i = some data := by
  rw [content_eq_some, h.offset_same, h.length_same]
  exact ⟨(h.live_iff h0 hi i).mpr (Or.inl rfl), h.record⟩

/-- The other slots are read as before. -/
theorem content_of_ne (h : Placed buf buf' i offset data) (hw : WellFormed buf)
    (h0 : 0 < offset) (hi : i ≤ numSlots buf) {j : ℕ} (hji : j ≠ i) :
    content buf' j = content buf j := by
  have hlive : Live buf' j ↔ Live buf j := by
    rw [h.live_iff h0 hi j]
    simp [hji]
  unfold content
  by_cases hl : Live buf j
  · obtain ⟨he, hn⟩ := h.entry_ne j hji hl.1
    rw [if_pos hl, if_pos (hlive.mpr hl), he, hn, h.keep _ _ (hw.inside j hl).1]
  · rw [if_neg hl, if_neg (fun h' => hl (hlive.mp h'))]

end Placed

/-- **What a successful insertion does to the page.** -/
structure Inserted (buf buf' : Page) (i : ℕ) (data : List UInt8) : Prop where
  /-- The invariant is kept. -/
  wellFormed : WellFormed buf'
  /-- The slot fits the twelve bits of a packed pointer. -/
  slot_le : i ≤ 1022
  /-- The slot was free. -/
  fresh : content buf i = none
  /-- The slot holds the record. -/
  stored : content buf' i = some data
  /-- No other slot changed. -/
  frame : ∀ j, j ≠ i → content buf' j = content buf j

/-- What was placed in a free slot was inserted. -/
theorem Placed.inserted {i offset : ℕ} (h : Placed buf buf' i offset data)
    (hw : WellFormed buf) (hi : i ≤ numSlots buf) (hfresh : ¬ Live buf i)
    (hdir : 4 + max (numSlots buf) (i + 1) * 4 ≤ offset)
    (hfree : offset + data.length = freeOffset buf) : Inserted buf buf' i data := by
  obtain ⟨-, hfl⟩ := hw.bounds
  have h0 : 0 < offset := by omega
  exact ⟨h.wellFormed hw hi hdir hfree, by omega, content_eq_none.mpr hfresh,
    h.content_same h0 hi, fun j hji => h.content_of_ne hw h0 hi hji⟩

/-- The page an insertion writes before it enters the slot. -/
def withRecord (buf : Page) (data : List UInt8) : Page :=
  (buf.writeLE 2 2 (freeOffset buf - data.length)).blit (freeOffset buf - data.length) data

theorem numSlots_withRecord (h : 4 + data.length ≤ freeOffset buf) :
    numSlots (withRecord buf data) = numSlots buf := by
  unfold numSlots withRecord
  rw [Buffer.readLE_blit_disjoint _ (by omega), Buffer.readLE_writeLE_disjoint _ _ (by omega)]

/-- A record entered in a reused slot is placed. -/
theorem placed_reuse (hw : WellFormed buf) {i : ℕ} (hi : i < numSlots buf)
    (hroom : dirEnd buf + data.length ≤ freeOffset buf) :
    Placed buf (withSlot (withRecord buf data) i (freeOffset buf - data.length) data.length) i
      (freeOffset buf - data.length) data := by
  obtain ⟨-, hfl⟩ := hw.bounds
  have hd : dirEnd buf = 4 + numSlots buf * 4 := rfl
  exact placed_of_stores (n := numSlots buf) (by omega) (by omega) (by omega) hfl
    (numSlots_withRecord (by omega)) (fun _ _ _ => rfl)

/-- A record entered in a new slot is placed. -/
theorem placed_grow (hw : WellFormed buf)
    (hroom : dirEnd buf + 4 + data.length ≤ freeOffset buf) :
    Placed buf (withSlot ((withRecord buf data).writeLE 0 2 (numSlots buf + 1)) (numSlots buf)
        (freeOffset buf - data.length) data.length) (numSlots buf)
      (freeOffset buf - data.length) data := by
  obtain ⟨-, hfl⟩ := hw.bounds
  have hd : dirEnd buf = 4 + numSlots buf * 4 := rfl
  refine placed_of_stores (n := numSlots buf + 1) (by omega) (by omega) (by omega) hfl
    (Page.readLE_writeLE_two _ (by omega) (by omega)) (fun o len ho => ?_)
  exact Buffer.slice_writeLE_disjoint _ _ (by omega)

/-- **Insertion**: exactly when the gap is smaller than the record plus what
the directory needs the page is full and unchanged, otherwise the record is
stored in a slot that was free. -/
theorem insert_spec (h : WellFormed buf) (data : List UInt8) :
    (freeOffset buf - dirEnd buf < data.length + directoryGrowth buf
      ∧ insert buf data = .ok (uint16Max, buf)) ∨
    (data.length + directoryGrowth buf ≤ freeOffset buf - dirEnd buf
      ∧ ∃ i buf', insert buf data = .ok (i, buf') ∧ Inserted buf buf' i data) := by
  obtain ⟨hb1, hb2⟩ := h.bounds
  have hd : dirEnd buf = 4 + numSlots buf * 4 := rfl
  rcases h.findReusable_spec with ⟨hfind, hall⟩ | ⟨i, hfind, hi, hdead⟩
  · -- every slot is live: the directory has to grow
    have hg : directoryGrowth buf = 4 := if_neg (by
      rintro ⟨j, hj, hnl⟩
      exact hnl (hall j hj))
    have hde : (headerSize + numSlots buf * slotEntrySize + slotEntrySize) % uint16Size
        = 4 + numSlots buf * 4 + 4 :=
      Nat.mod_eq_of_lt (show 4 + numSlots buf * 4 + 4 < 65536 from by omega)
    rw [hg]
    by_cases hfull : freeOffset buf < 4 + numSlots buf * 4 + 4 + data.length
    · refine Or.inl ⟨by omega, ?_⟩
      unfold insert
      rw [hfind]
      simp only [Except.ok_bind_eq, Option.isNone_none, if_true, hde, if_pos hfull]
      rfl
    · refine Or.inr ⟨by omega, numSlots buf, _, ?_,
        (placed_grow h (by omega)).inserted h le_rfl (fun hl => absurd hl.1 (lt_irrefl _))
          (by omega) (by omega)⟩
      have hcopy : (buf.writeLE 2 2 (freeOffset buf - data.length)).copyIn
          (freeOffset buf - data.length) data = .ok (withRecord buf data) :=
        Page.copyIn_ok _ (by omega)
      unfold insert
      rw [hfind]
      simp only [Except.ok_bind_eq, Option.isNone_none, if_true, hde, if_neg hfull, hcopy,
        numSlots_withRecord (show 4 + data.length ≤ freeOffset buf from by omega),
        setSlot_eq _ _ _ (show numSlots buf ≤ 1022 from by omega)]
      rfl
  · have hg : directoryGrowth buf = 0 := if_pos ⟨i, hi, hdead⟩
    have hde : (headerSize + numSlots buf * slotEntrySize + 0) % uint16Size
        = 4 + numSlots buf * 4 :=
      Nat.mod_eq_of_lt (show 4 + numSlots buf * 4 + 0 < 65536 from by omega)
    rw [hg]
    by_cases hfull : freeOffset buf < 4 + numSlots buf * 4 + data.length
    · refine Or.inl ⟨by omega, ?_⟩
      unfold insert
      rw [hfind]
      simp only [Except.ok_bind_eq, Option.isNone_some, Bool.false_eq_true, if_false, hde,
        if_pos hfull]
      rfl
    · refine Or.inr ⟨by omega, i, _, ?_,
        (placed_reuse h hi (by omega)).inserted h hi.le hdead (by omega) (by omega)⟩
      have hcopy : (buf.writeLE 2 2 (freeOffset buf - data.length)).copyIn
          (freeOffset buf - data.length) data = .ok (withRecord buf data) :=
        Page.copyIn_ok _ (by omega)
      unfold insert
      rw [hfind]
      simp only [Except.ok_bind_eq, Option.isNone_some, Bool.false_eq_true, if_false, hde,
        if_neg hfull, hcopy, setSlot_eq _ _ _ (show i ≤ 1022 from by omega)]
      rfl

/-! ## Deletion -/

/-- **Deletion** frees the slot and changes no other. -/
theorem deleteSlot_spec (h : WellFormed buf) (i : ℕ) :
    ∃ buf', deleteSlot buf i = .ok buf' ∧ WellFormed buf' ∧ content buf' i = none
      ∧ ∀ j, j ≠ i → content buf' j = content buf j := by
  obtain ⟨hb1, hb2⟩ := h.bounds
  unfold deleteSlot
  by_cases hi : i < numSlots buf
  · rw [if_neg (by omega), setSlot_eq buf _ _ (by omega)]
    have hsame : ∀ j, j ≠ i → offsetOf (withSlot buf i slotDeleted 0) j = offsetOf buf j
        ∧ lengthOf (withSlot buf i slotDeleted 0) j = lengthOf buf j := fun j hji =>
      ⟨offsetOf_withSlot_of_ne buf _ _ hji, lengthOf_withSlot_of_ne buf _ _ hji⟩
    have hdead : ¬ Live (withSlot buf i slotDeleted 0) i := fun hl =>
      hl.2 (offsetOf_withSlot_same buf (by omega) (show 0 < 65536 from by omega))
    have hlive : ∀ j, j ≠ i → (Live (withSlot buf i slotDeleted 0) j ↔ Live buf j) := by
      intro j hji
      unfold Live
      rw [numSlots_withSlot, (hsame j hji).1]
    have hne : ∀ j, Live (withSlot buf i slotDeleted 0) j → j ≠ i := by
      intro j hl hji
      exact hdead (hji ▸ hl)
    refine ⟨_, rfl, ⟨?_, ?_, ?_, ?_⟩, content_eq_none.mpr hdead, ?_⟩
    · rw [dirEnd, numSlots_withSlot, freeOffset_withSlot]
      exact h.dir_le
    · rw [freeOffset_withSlot]
      exact h.free_le
    · intro j hl
      have hji := hne j hl
      rw [freeOffset_withSlot, (hsame j hji).1, (hsame j hji).2]
      exact h.inside j ((hlive j hji).mp hl)
    · intro j k hj hk hjk
      have hji := hne j hj
      have hki := hne k hk
      rw [(hsame j hji).1, (hsame j hji).2, (hsame k hki).1, (hsame k hki).2]
      exact h.disjoint j k ((hlive j hji).mp hj) ((hlive k hki).mp hk) hjk
    · intro j hji
      unfold content
      by_cases hl : Live buf j
      · rw [if_pos hl, if_pos ((hlive j hji).mpr hl), (hsame j hji).1, (hsame j hji).2]
        have h1 := (h.inside j hl).1
        rw [slice_withSlot buf (by rw [slotAt_eq]; omega)]
      · rw [if_neg hl, if_neg (fun h' => hl ((hlive j hji).mp h'))]
  · rw [if_pos (by omega)]
    exact ⟨buf, rfl, h, content_eq_none.mpr (fun hl => hi hl.1), fun _ _ => rfl⟩

/-! ## Update -/

/-- The page after a record was overwritten in place. -/
def withOverwrite (buf : Page) (i : ℕ) (data : List UInt8) : Page :=
  (buf.blit (offsetOf buf i) data).writeLE (slotAt i + 2) 2 data.length

/-- **Overwriting in place** keeps the invariant and changes no other
slot: the new bytes lie inside the range of the old record. -/
theorem withOverwrite_spec (h : WellFormed buf) {i : ℕ} (hi : Live buf i)
    (hlen : data.length ≤ lengthOf buf i) :
    WellFormed (withOverwrite buf i data) ∧ content (withOverwrite buf i data) i = some data
      ∧ ∀ j, j ≠ i → content (withOverwrite buf i data) j = content buf j := by
  obtain ⟨hb1, hb2⟩ := h.bounds
  obtain ⟨hin1, hin2⟩ := h.inside i hi
  have hin2' : offsetOf buf i + lengthOf buf i ≤ 4096 := hin2
  have hi0 := hi.1
  have hread : ∀ o w, o + w ≤ 4 + numSlots buf * 4 →
      (o + w ≤ slotAt i + 2 ∨ slotAt i + 4 ≤ o) →
      (withOverwrite buf i data).readLE o w = buf.readLE o w := by
    intro o w ho hs
    unfold withOverwrite
    rw [Buffer.readLE_writeLE_disjoint _ _ (by omega), Buffer.readLE_blit_disjoint _ (by omega)]
  have hnum : numSlots (withOverwrite buf i data) = numSlots buf :=
    hread 0 2 (by omega) (by rw [slotAt_eq]; omega)
  have hfree : freeOffset (withOverwrite buf i data) = freeOffset buf :=
    hread 2 2 (by omega) (by rw [slotAt_eq]; omega)
  have hoff : ∀ j, j < numSlots buf → offsetOf (withOverwrite buf i data) j = offsetOf buf j :=
    fun j hj => hread _ 2 (by rw [slotAt_eq]; omega) (by simp only [slotAt_eq]; omega)
  have hlenof : ∀ j, j ≠ i → j < numSlots buf →
      lengthOf (withOverwrite buf i data) j = lengthOf buf j :=
    fun j hji hj => hread _ 2 (by rw [slotAt_eq]; omega) (by simp only [slotAt_eq]; omega)
  have hlenI : lengthOf (withOverwrite buf i data) i = data.length :=
    Page.readLE_writeLE_two _ (by rw [slotAt_eq]; omega) (by omega)
  have hlive : ∀ j, Live (withOverwrite buf i data) j ↔ Live buf j := by
    intro j
    unfold Live
    rw [hnum]
    exact and_congr_right (fun hj => by rw [hoff j hj])
  -- no record grew, so what was inside and apart still is
  have hle : ∀ j, Live buf j → lengthOf (withOverwrite buf i data) j ≤ lengthOf buf j := by
    intro j hj
    by_cases hji : j = i
    · rw [hji, hlenI]
      exact hlen
    · exact (hlenof j hji hj.1).le
  refine ⟨⟨?_, ?_, ?_, ?_⟩, ?_, ?_⟩
  · rw [dirEnd, hnum, hfree]
    exact h.dir_le
  · rw [hfree]
    exact h.free_le
  · intro j hj
    have hj' := (hlive j).mp hj
    obtain ⟨h1, h2⟩ := h.inside j hj'
    have h3 := hle j hj'
    rw [hfree, hoff j hj'.1]
    exact ⟨h1, by omega⟩
  · intro j k hj hk hjk
    have hj' := (hlive j).mp hj
    have hk' := (hlive k).mp hk
    have h1 := hle j hj'
    have h2 := hle k hk'
    rw [hoff j hj'.1, hoff k hk'.1]
    rcases h.disjoint j k hj' hk' hjk with hd | hd
    · exact Or.inl (by omega)
    · exact Or.inr (by omega)
  · rw [content_eq_some, hlenI, hoff i hi0]
    refine ⟨(hlive i).mpr hi, ?_⟩
    unfold withOverwrite
    rw [Buffer.slice_writeLE_disjoint _ _ (by rw [slotAt_eq]; omega)]
    exact Buffer.slice_blit_same _ (show offsetOf buf i + data.length ≤ 4096 from by omega)
  · intro j hji
    unfold content
    by_cases hl : Live buf j
    · have h1 := (h.inside j hl).1
      have h2 := h.disjoint i j hi hl (Ne.symm hji)
      rw [if_pos hl, if_pos ((hlive j).mpr hl), hoff j hl.1, hlenof j hji hl.1]
      unfold withOverwrite
      rw [Buffer.slice_writeLE_disjoint _ _ (by rw [slotAt_eq]; omega),
        Buffer.slice_blit_disjoint _ (by omega)]
    · rw [if_neg hl, if_neg (fun h' => hl ((hlive j).mp h'))]

/-- The map after the record in slot `slot` was replaced by `data`, which
went to slot `i`, or nowhere when the page was full. -/
def replaced (m : ℕ → Option (List UInt8)) (slot i : ℕ) (data : List UInt8) :
    ℕ → Option (List UInt8) :=
  if i = uint16Max then Function.update m slot none
  else Function.update (Function.update m slot none) i (some data)

/-- An insertion into a page whose slot `slot` is free reads as the
replacement of that slot. -/
theorem insert_replaces (h : WellFormed buf) {slot : ℕ} (hslot : content buf slot = none)
    (data : List UInt8) :
    ∃ i buf', insert buf data = .ok (i, buf') ∧ WellFormed buf'
      ∧ content buf' = replaced (content buf) slot i data := by
  have hnone : Function.update (content buf) slot none = content buf :=
    Function.update_eq_self_iff.mpr hslot.symm
  rcases insert_spec h data with ⟨-, he⟩ | ⟨-, i, buf', he, hins⟩
  · refine ⟨_, _, he, h, ?_⟩
    rw [replaced, if_pos rfl, hnone]
  · refine ⟨i, buf', he, hins.wellFormed, ?_⟩
    have hi := hins.slot_le
    rw [replaced, if_neg (show ¬ i = 65535 from by omega), hnone]
    funext j
    by_cases hji : j = i
    · rw [hji, Function.update_self, hins.stored]
    · rw [Function.update_of_ne hji, hins.frame j hji]

/-- **Update** replaces the record of one slot. -/
theorem update_spec (h : WellFormed buf) (slot : ℕ) (data : List UInt8) :
    ∃ i buf', update buf slot data = .ok (i, buf') ∧ WellFormed buf'
      ∧ content buf' = replaced (content buf) slot i data := by
  obtain ⟨hb1, hb2⟩ := h.bounds
  unfold update
  by_cases hslot : slot < numSlots buf
  · rw [if_pos hslot, h.slotOffset_eq hslot, h.slotLength_eq hslot]
    simp only [Except.ok_bind_eq]
    by_cases hfit : offsetOf buf slot ≠ slotDeleted ∧ data.length ≤ lengthOf buf slot
    · have hl : Live buf slot := ⟨hslot, hfit.1⟩
      have hin : offsetOf buf slot + lengthOf buf slot ≤ 4096 := (h.inside slot hl).2
      obtain ⟨hw, hs, hf⟩ := withOverwrite_spec h hl hfit.2
      refine ⟨slot, withOverwrite buf slot data, ?_, hw, ?_⟩
      · rw [if_pos hfit, buf.copyIn_ok (by omega), Except.ok_bind_eq,
          Page.poke_ok _ _ (by rw [slotAt_eq]; omega)]
        rfl
      · rw [replaced, if_neg (show ¬ slot = 65535 from by omega), Function.update_idem]
        funext j
        by_cases hji : j = slot
        · rw [hji, Function.update_self, hs]
        · rw [Function.update_of_ne hji, hf j hji]
    · obtain ⟨b, hdel, hwb, hnone, hframe⟩ := deleteSlot_spec h slot
      obtain ⟨i, buf', he, hw, hc⟩ := insert_replaces hwb hnone data
      refine ⟨i, buf', ?_, hw, ?_⟩
      · rw [if_neg hfit, hdel]
        exact he
      · have hcb : ∀ m : ℕ → Option (List UInt8), (∀ j, j ≠ slot → m j = content buf j) →
            Function.update m slot none = Function.update (content buf) slot none := by
          intro m hm
          funext j
          by_cases hji : j = slot
          · rw [hji, Function.update_self, Function.update_self]
          · rw [Function.update_of_ne hji, Function.update_of_ne hji, hm j hji]
        rw [hc]
        unfold replaced
        rw [hcb (content b) hframe]
  · rw [if_neg hslot]
    exact insert_replaces h (content_eq_none.mpr (fun hl => hslot hl.1)) data

/-! ## Updates that find the page full -/

/-- Deletion moves neither the directory nor the records. -/
theorem fields_of_deleteSlot {i : ℕ} (hi : i < numSlots buf) (hw : WellFormed buf)
    (h : deleteSlot buf i = .ok buf') :
    numSlots buf' = numSlots buf ∧ freeOffset buf' = freeOffset buf := by
  have hn := hw.numSlots_le
  unfold deleteSlot at h
  rw [if_neg (by omega), setSlot_eq buf _ _ (by omega)] at h
  rw [← Except.ok.inj h]
  exact ⟨numSlots_withSlot buf _ _ _, freeOffset_withSlot buf _ _ _⟩

/-- An insertion that finds the page full leaves it as it is. -/
theorem eq_of_insert_full (h : WellFormed buf) (hf : insert buf data = .ok (uint16Max, buf')) :
    buf' = buf := by
  rcases insert_spec h data with ⟨-, he⟩ | ⟨-, i, b, he, hins⟩
  · exact (congrArg Prod.snd (Except.ok.inj (he.symm.trans hf))).symm
  · have hi := hins.slot_le
    have heq : i = 65535 := congrArg Prod.fst (Except.ok.inj (he.symm.trans hf))
    omega

/-- **An update that has to move its record** deletes it first, so that an
entry is free and the page is full exactly when the gap is smaller than the
new record. -/
theorem update_full_of_outgrown (h : WellFormed buf) {slot : ℕ} (hl : Live buf slot)
    (hlen : lengthOf buf slot < data.length) :
    ∃ b, WellFormed b ∧ content b slot = none ∧ update buf slot data = insert b data
      ∧ (freeOffset buf - dirEnd buf < data.length
        ↔ ∃ buf', update buf slot data = .ok (uint16Max, buf')) := by
  obtain ⟨b, hdel, hwb, hnone, -⟩ := deleteSlot_spec h slot
  obtain ⟨hnum, hfree⟩ := fields_of_deleteSlot hl.1 h hdel
  have hup : update buf slot data = insert b data := by
    unfold update
    rw [if_pos hl.1, h.slotOffset_eq hl.1, h.slotLength_eq hl.1]
    simp only [Except.ok_bind_eq]
    rw [if_neg (fun hfit => absurd hfit.2 (by omega)), hdel]
    rfl
  have hgrow : directoryGrowth b = 0 :=
    if_pos ⟨slot, by rw [hnum]; exact hl.1, content_eq_none.mp hnone⟩
  refine ⟨b, hwb, hnone, hup, ?_⟩
  rw [hup, ← hfree, show dirEnd buf = dirEnd b from by rw [dirEnd, dirEnd, hnum]]
  rcases insert_spec hwb data with ⟨hlt, he⟩ | ⟨hge, i, buf', he, hins⟩
  · rw [hgrow] at hlt
    exact iff_of_true hlt ⟨_, he⟩
  · rw [hgrow] at hge
    refine iff_of_false (by omega) ?_
    rintro ⟨b', he'⟩
    have hi := hins.slot_le
    have heq : i = 65535 := congrArg Prod.fst (Except.ok.inj (he.symm.trans he'))
    omega

/-- Any other update that finds the page full changes no record. -/
theorem content_of_update_full (h : WellFormed buf) {slot : ℕ}
    (hfit : Live buf slot → data.length ≤ lengthOf buf slot)
    (hf : update buf slot data = .ok (uint16Max, buf')) : content buf' = content buf := by
  obtain ⟨i, b, hup, -, hc⟩ := update_spec h slot data
  obtain ⟨rfl, rfl⟩ := Prod.mk.inj (Except.ok.inj (hup.symm.trans hf))
  rw [hc, replaced, if_pos rfl]
  by_cases hl : Live buf slot
  · -- a record that fits is overwritten in its own slot
    have hn := h.numSlots_le
    have hin : offsetOf buf slot + lengthOf buf slot ≤ 4096 := (h.inside slot hl).2
    have hlen := hfit hl
    obtain ⟨hl1, hl2⟩ := hl
    unfold update at hf
    rw [if_pos hl1, h.slotOffset_eq hl1, h.slotLength_eq hl1] at hf
    simp only [Except.ok_bind_eq] at hf
    rw [if_pos ⟨hl2, hlen⟩, buf.copyIn_ok (by omega), Except.ok_bind_eq,
      Page.poke_ok _ _ (by rw [slotAt_eq]; omega)] at hf
    have heq : slot = 65535 := congrArg Prod.fst (Except.ok.inj hf)
    omega
  · exact Function.update_eq_self_iff.mpr (content_eq_none.mpr hl).symm

/-! ## Runs -/

/-- A fresh page is well formed. -/
theorem wellFormed_init (buf : Page) : WellFormed (init buf) := by
  have hnum : numSlots (init buf) = 0 := by
    unfold numSlots init
    rw [Buffer.readLE_writeLE_disjoint _ _ (by omega), Page.readLE_writeLE_two _ (by omega)
      (by omega)]
  have hfree : freeOffset (init buf) = 4096 :=
    Page.readLE_writeLE_two _ (by omega) (show 4096 < 65536 from by omega)
  have hdead : ∀ i, ¬ Live (init buf) i := fun i hl => by
    have := hl.1
    omega
  refine ⟨?_, hfree.le, fun i hl => absurd hl (hdead i), fun i j hl => absurd hl (hdead i)⟩
  rw [dirEnd, slotAt_eq, hnum, hfree]
  omega

/-- A fresh page is empty. -/
theorem content_init (buf : Page) (i : ℕ) : content (init buf) i = none := by
  refine content_eq_none.mpr (fun hl => ?_)
  have hnum : numSlots (init buf) = 0 := by
    unfold numSlots init
    rw [Buffer.readLE_writeLE_disjoint _ _ (by omega), Page.readLE_writeLE_two _ (by omega)
      (by omega)]
  have := hl.1
  omega

/-- The operations of the class. -/
inductive Op where
  /-- `insert(data, len)`. -/
  | insert (data : List UInt8)
  /-- `delete_slot(slot)`. -/
  | deleteSlot (slot : ℕ)
  /-- `update(slot, data, len)`. -/
  | update (slot : ℕ) (data : List UInt8)

/-- A page with the history of what was stored in it: the bytes last stored
in each slot, `none` where nothing is. -/
structure History where
  /-- The page. -/
  page : Page
  /-- The bytes last stored in each slot. -/
  stored : ℕ → Option (List UInt8)

/-- One operation, with the slot it returns entered in the history. -/
def Op.exec (st : History) : Op → Except Fault History
  | .insert data => do
    let (i, page) ← SlottedPage.insert st.page data
    return ⟨page, if i = uint16Max then st.stored else Function.update st.stored i (some data)⟩
  | .deleteSlot slot => do
    return ⟨← SlottedPage.deleteSlot st.page slot, Function.update st.stored slot none⟩
  | .update slot data => do
    let (i, page) ← SlottedPage.update st.page slot data
    return ⟨page, replaced st.stored slot i data⟩

/-- A sequence of operations. -/
def runOps (st : History) : List Op → Except Fault History
  | [] => .ok st
  | op :: ops => do runOps (← op.exec st) ops

/-- The page with nothing stored that `init` prepares. -/
def History.init (buf : Page) : History := ⟨SlottedPage.init buf, fun _ => none⟩

/-- The page agrees with its history. -/
structure History.Agrees (st : History) : Prop where
  /-- The page is well formed. -/
  wellFormed : WellFormed st.page
  /-- A slot holds what was last stored there. -/
  content_eq : content st.page = st.stored

/-- **One operation keeps the agreement.** -/
theorem Op.exec_agrees {st : History} (h : st.Agrees) (op : Op) :
    ∃ st', op.exec st = .ok st' ∧ st'.Agrees := by
  cases op with
  | insert data =>
    rcases insert_spec h.wellFormed data with ⟨-, he⟩ | ⟨-, i, buf', he, hins⟩
    · refine ⟨st, ?_, h⟩
      rw [Op.exec, he]
      rfl
    · have hi := hins.slot_le
      refine ⟨⟨buf', Function.update st.stored i (some data)⟩, ?_, hins.wellFormed, ?_⟩
      · rw [Op.exec, he]
        simp only [Except.ok_bind_eq]
        rw [if_neg (show ¬ i = 65535 from by omega)]
        rfl
      show content buf' = Function.update st.stored i (some data)
      rw [← h.content_eq]
      funext j
      by_cases hji : j = i
      · rw [hji, Function.update_self, hins.stored]
      · rw [Function.update_of_ne hji, hins.frame j hji]
  | deleteSlot slot =>
    obtain ⟨b, hdel, hwb, hnone, hframe⟩ := deleteSlot_spec h.wellFormed slot
    refine ⟨⟨b, Function.update st.stored slot none⟩, ?_, hwb, ?_⟩
    · rw [Op.exec, hdel]
      rfl
    show content b = Function.update st.stored slot none
    rw [← h.content_eq]
    funext j
    by_cases hj : j = slot
    · rw [hj, Function.update_self, hnone]
    · rw [Function.update_of_ne hj, hframe j hj]
  | update slot data =>
    obtain ⟨i, b, hu, hw, hc⟩ := update_spec h.wellFormed slot data
    refine ⟨⟨b, replaced st.stored slot i data⟩, ?_, hw, ?_⟩
    · rw [Op.exec, hu]
      rfl
    show content b = replaced st.stored slot i data
    rw [← h.content_eq, hc]

/-- **Every run keeps the agreement** and none stops. -/
theorem runOps_agrees : ∀ (ops : List Op) {st : History}, st.Agrees →
    ∃ st', runOps st ops = .ok st' ∧ st'.Agrees
  | [], st, h => ⟨st, rfl, h⟩
  | op :: ops, st, h => by
    obtain ⟨st₁, h₁, ha₁⟩ := op.exec_agrees h
    obtain ⟨st₂, h₂, ha₂⟩ := runOps_agrees ops ha₁
    refine ⟨st₂, ?_, ha₂⟩
    rw [runOps, h₁]
    exact h₂

theorem agrees_init (buf : Page) : (History.init buf).Agrees :=
  ⟨wellFormed_init buf, funext (content_init buf)⟩

/-- **What a record store owes its users**, read off a page and its
history. A slot is live when something is stored in it. -/
structure History.Faithful (st : History) : Prop where
  /-- The directory ends at or before the records. -/
  dir_le : dirEnd st.page ≤ freeOffset st.page
  /-- A live record lies among the records, and its offset is not `0`. -/
  inside : ∀ i, st.stored i ≠ none → offsetOf st.page i ≠ 0
    ∧ freeOffset st.page ≤ offsetOf st.page i
    ∧ offsetOf st.page i + lengthOf st.page i ≤ pageSize
  /-- The byte ranges of two live records are disjoint. -/
  disjoint : ∀ i j, st.stored i ≠ none → st.stored j ≠ none → i ≠ j →
    offsetOf st.page i + lengthOf st.page i ≤ offsetOf st.page j ∨
      offsetOf st.page j + lengthOf st.page j ≤ offsetOf st.page i
  /-- `get` returns the bytes last stored in the slot, and nothing for a slot
  that is not live. -/
  get_eq : ∀ i, getBytes st.page i = .ok (st.stored i)
  /-- An insertion finds the page full exactly when the gap is smaller than
  the record and, when no slot is deleted, a directory entry. -/
  full_iff : ∀ data : List UInt8, (∃ page', insert st.page data = .ok (uint16Max, page')) ↔
    freeOffset st.page - dirEnd st.page
      < data.length + if ∃ i < numSlots st.page, st.stored i = none then 0 else 4
  /-- An insertion that finds the page full changes nothing. -/
  full_frame : ∀ (data : List UInt8) (page' : Page),
    insert st.page data = .ok (uint16Max, page') → page' = st.page
  /-- Any other insertion returns a slot that was not live, stores the record
  there and changes no other slot. -/
  insert_frame : ∀ (data : List UInt8) (i : ℕ) (page' : Page),
    insert st.page data = .ok (i, page') → i ≠ uint16Max → st.stored i = none
      ∧ getBytes page' i = .ok (some data) ∧ ∀ j, j ≠ i → getBytes page' j = .ok (st.stored j)
  /-- An update changes no slot but the one it is given and the one it
  returns. -/
  update_frame : ∀ (slot : ℕ) (data : List UInt8) (i : ℕ) (page' : Page),
    update st.page slot data = .ok (i, page') →
      ∀ j, j ≠ slot → j ≠ i → getBytes page' j = .ok (st.stored j)

/-- A history the page agrees with is a faithful one. -/
theorem History.Agrees.faithful {st : History} (h : st.Agrees) : st.Faithful := by
  have hlive : ∀ i, st.stored i ≠ none ↔ Live st.page i := by
    intro i
    rw [← h.content_eq, Ne, content_eq_none, not_not]
  have hgrow : directoryGrowth st.page
      = if ∃ i < numSlots st.page, st.stored i = none then 0 else 4 := by
    unfold directoryGrowth
    simp only [← h.content_eq, content_eq_none]
  have hw := h.wellFormed
  refine ⟨hw.dir_le, ?_, ?_, ?_, ?_, ?_, ?_, ?_⟩
  · intro i hi
    have hl := (hlive i).mp hi
    exact ⟨hl.2, hw.inside i hl⟩
  · intro i j hi hj hij
    exact hw.disjoint i j ((hlive i).mp hi) ((hlive j).mp hj) hij
  · intro i
    rw [hw.getBytes_eq, h.content_eq]
  · intro data
    rw [← hgrow]
    rcases insert_spec hw data with ⟨hlt, he⟩ | ⟨hge, i, buf', he, hins⟩
    · exact iff_of_true ⟨_, he⟩ hlt
    · refine iff_of_false ?_ (by omega)
      rintro ⟨page', he'⟩
      have hi := hins.slot_le
      have heq : i = 65535 := congrArg Prod.fst (Except.ok.inj (he.symm.trans he'))
      omega
  · intro data page' hfull
    exact eq_of_insert_full hw hfull
  · intro data i page' he' hne
    rcases insert_spec hw data with ⟨-, he⟩ | ⟨-, k, buf', he, hins⟩
    · exact absurd (congrArg Prod.fst (Except.ok.inj (he.symm.trans he'))).symm hne
    · obtain ⟨rfl, rfl⟩ := Prod.mk.inj (Except.ok.inj (he.symm.trans he'))
      rw [← h.content_eq]
      refine ⟨hins.fresh, ?_, fun j hj => ?_⟩
      · rw [hins.wellFormed.getBytes_eq, hins.stored]
      · rw [hins.wellFormed.getBytes_eq, hins.frame j hj]
  · intro slot data i page' he' j hjs hji
    obtain ⟨k, b, he, hwb, hc⟩ := update_spec hw slot data
    obtain ⟨rfl, rfl⟩ := Prod.mk.inj (Except.ok.inj (he.symm.trans he'))
    rw [hwb.getBytes_eq, hc, ← h.content_eq]
    unfold replaced
    split
    · rw [Function.update_of_ne hjs]
    · rw [Function.update_of_ne hji, Function.update_of_ne hjs]

/-- **A slotted page is a faithful record store**: no run of its operations
from a fresh page stops, and along every run the page keeps its layout and
each slot holds exactly the bytes last stored there. -/
theorem runOps_faithful (buf : Page) (ops : List Op) :
    ∃ st, runOps (History.init buf) ops = .ok st ∧ st.Faithful := by
  obtain ⟨st, he, ha⟩ := runOps_agrees ops (agrees_init buf)
  exact ⟨st, he, ha.faithful⟩

/-- A failed update leaves every record as it was: what `get` returns on the
page it leaves is what it returned before. -/
def UpdateKeeps (buf : Page) (slot : ℕ) (data : List UInt8) : Prop :=
  ∀ buf', update buf slot data = .ok (uint16Max, buf') →
    ∀ s, getBytes buf' s = getBytes buf s

/-- On a well-formed page an update that has to move a record it then finds
no room for is the one that loses it. -/
theorem WellFormed.updateKeeps (h : WellFormed buf) (slot : ℕ) (data : List UInt8) :
    UpdateKeeps buf slot data
      ↔ ¬ (Live buf slot ∧ lengthOf buf slot < data.length
          ∧ freeOffset buf - dirEnd buf < data.length) := by
  constructor
  · rintro hk ⟨hl, hlen, hgap⟩
    obtain ⟨b, hwb, hnone, hup, hfull⟩ := update_full_of_outgrown h hl hlen
    obtain ⟨buf', hf⟩ := hfull.mp hgap
    have hsame := hk buf' hf slot
    rw [hup] at hf
    rw [eq_of_insert_full hwb hf, hwb.getBytes_eq, h.getBytes_eq, hnone] at hsame
    exact content_eq_none.mp (Except.ok.inj hsame).symm hl
  · intro hn buf' hf s
    have hw' : WellFormed buf' := by
      obtain ⟨i, b, hup, hwb, -⟩ := update_spec h slot data
      obtain ⟨-, rfl⟩ := Prod.mk.inj (Except.ok.inj (hup.symm.trans hf))
      exact hwb
    have hfit : Live buf slot → data.length ≤ lengthOf buf slot := by
      intro hl
      by_contra hlen
      obtain ⟨-, -, -, -, hfull⟩ := update_full_of_outgrown h hl (not_le.mp hlen)
      exact hn ⟨hl, not_le.mp hlen, hfull.mpr ⟨buf', hf⟩⟩
    rw [hw'.getBytes_eq, h.getBytes_eq, content_of_update_full h hfit hf]

/-- **When a failed update leaves the page unchanged**: on a page reached by
any run, exactly when it is not the case that the slot holds a record shorter
than the new one while the gap between the directory and the records is too
small for the new one. The old record is deleted before the insertion looks
for room. -/
theorem updateKeeps_iff (buf : Page) (ops : List Op) (slot : ℕ) (data : List UInt8) :
    ∃ st, runOps (History.init buf) ops = .ok st
      ∧ (UpdateKeeps st.page slot data
        ↔ ¬ ∃ old, getBytes st.page slot = .ok (some old) ∧ old.length < data.length
            ∧ freeOffset st.page - dirEnd st.page < data.length) := by
  obtain ⟨st, he, ha⟩ := runOps_agrees ops (agrees_init buf)
  have hw := ha.wellFormed
  refine ⟨st, he, (hw.updateKeeps slot data).trans (not_congr ⟨?_, ?_⟩)⟩
  · rintro ⟨hl, hlen, hgap⟩
    refine ⟨st.page.slice (offsetOf st.page slot) (lengthOf st.page slot), ?_, ?_, hgap⟩
    · rw [hw.getBytes_eq]
      exact congrArg Except.ok (content_eq_some.mpr ⟨hl, rfl⟩)
    · rwa [Buffer.length_slice]
  · rintro ⟨old, hold, hlen, hgap⟩
    rw [hw.getBytes_eq] at hold
    obtain ⟨hl, hs⟩ := content_eq_some.mp (Except.ok.inj hold)
    rw [← hs, Buffer.length_slice] at hlen
    exact ⟨hl, hlen, hgap⟩

/-- A record of one byte, updated by one of 4088 bytes on an otherwise empty
page, is lost. -/
theorem not_updateKeeps :
    ∃ st, runOps (History.init (Buffer.zero pageSize)) [.insert [7]] = .ok st
      ∧ ¬ UpdateKeeps st.page 0 (List.replicate 4088 0) := by
  obtain ⟨st, he, ha⟩ := runOps_agrees [.insert [7]] (agrees_init (Buffer.zero pageSize))
  refine ⟨st, he, ?_⟩
  have hfields : (runOps (History.init (Buffer.zero pageSize)) [.insert [7]]).map
      (fun st => (numSlots st.page, freeOffset st.page, offsetOf st.page 0, lengthOf st.page 0))
        = .ok (1, 4095, 4095, 1) := by decide
  rw [he] at hfields
  obtain ⟨hnum, hrest⟩ := Prod.mk.inj (Except.ok.inj hfields)
  obtain ⟨hfree, hrest⟩ := Prod.mk.inj hrest
  obtain ⟨hoff, hlen⟩ := Prod.mk.inj hrest
  rw [ha.wellFormed.updateKeeps, not_not, List.length_replicate]
  refine ⟨⟨?_, ?_⟩, ?_, ?_⟩
  · omega
  · rw [hoff]
    decide
  · omega
  · rw [dirEnd, slotAt_eq, hnum, hfree]
    omega

end SlottedPage
