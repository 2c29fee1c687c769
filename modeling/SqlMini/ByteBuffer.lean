import SqlMini.Loops

/-!
# Fixed-size byte buffers

Low-level code keeps its records in raw buffers and reaches their fields by
`memcpy` at a byte offset. A `Buffer n` is such a buffer of `n` bytes; it is
read by `slice`, written by `blit`, and an unsigned field of `w` bytes is
read and written little-endian by `readLE` and `writeLE`.

Everything a layout argument needs is in the two laws of each pair: what was
written is read back (`slice_blit_same`, `readLE_writeLE_same`), and a write
elsewhere is not seen (`slice_blit_disjoint`, `readLE_writeLE_disjoint`).
The total accessors are for fields whose offset is a constant inside the
buffer; where the offset is computed the checked ones (`fetch`, `poke`,
`copyIn`) stop with `Fault.outOfBounds` when an access leaves the buffer.
-/

/-! ## Little-endian integers -/

namespace LittleEndian

/-- The `w` low-order bytes of `v`, least significant first. -/
def encode : (w v : ℕ) → List UInt8
  | 0, _ => []
  | w + 1, v => UInt8.ofNat v :: encode w (v / 256)

/-- The number a sequence of bytes spells, least significant first. -/
def decode : List UInt8 → ℕ
  | [] => 0
  | b :: bs => b.toNat + 256 * decode bs

@[simp] theorem length_encode (w v : ℕ) : (encode w v).length = w := by
  induction w generalizing v with
  | zero => rfl
  | succ w ih => rw [encode, List.length_cons, ih]

/-- **Decoding what was encoded** keeps the low-order bytes. -/
theorem decode_encode (w v : ℕ) : decode (encode w v) = v % 256 ^ w := by
  induction w generalizing v with
  | zero => simp [encode, decode, Nat.mod_one]
  | succ w ih =>
    rw [encode, decode, ih, Nat.pow_succ', Nat.mod_mul]
    simp

/-- Zero bytes spell zero. -/
theorem decode_replicate_zero (w : ℕ) : decode (List.replicate w 0) = 0 := by
  induction w with
  | zero => rfl
  | succ w ih => rw [List.replicate_succ, decode, ih]; rfl

/-- A sequence of bytes spells a number of that many bytes. -/
theorem decode_lt (bs : List UInt8) : decode bs < 256 ^ bs.length := by
  induction bs with
  | nil => simp [decode]
  | cons b bs ih =>
    have hb : b.toNat < 256 := b.toNat_lt
    rw [decode, List.length_cons, Nat.pow_succ']
    omega

/-- **Encoding what was decoded** gives the bytes back. -/
theorem encode_decode (bs : List UInt8) : encode bs.length (decode bs) = bs := by
  induction bs with
  | nil => rfl
  | cons b bs ih =>
    have hb : b.toNat < 256 := b.toNat_lt
    rw [List.length_cons, encode, decode,
      show (b.toNat + 256 * decode bs) / 256 = decode bs from by omega, ih]
    refine congrArg (· :: bs) (UInt8.toNat_inj.mp ?_)
    rw [UInt8.toNat_ofNat']
    omega

end LittleEndian

/-! ## Buffers -/

/-- **A buffer of `n` bytes.** -/
@[ext] structure Buffer (n : ℕ) where
  /-- The byte at each position. -/
  byteAt : Fin n → UInt8

namespace Buffer

variable {n : ℕ}

/-- The buffer of zero bytes. -/
def zero (n : ℕ) : Buffer n := ⟨fun _ => 0⟩

/-- The byte at a position, `0` past the end. -/
def byte (b : Buffer n) (i : ℕ) : UInt8 :=
  if h : i < n then b.byteAt ⟨i, h⟩ else 0

/-- The byte at a position, if there is one. -/
def byte? (b : Buffer n) (i : ℕ) : Option UInt8 :=
  if h : i < n then some (b.byteAt ⟨i, h⟩) else none

/-- The `len` bytes from `off` on. -/
def slice (b : Buffer n) (off len : ℕ) : List UInt8 :=
  (List.range len).map (fun j => b.byte (off + j))

/-- The buffer with the bytes `bs` copied to `off`. -/
def blit (b : Buffer n) (off : ℕ) (bs : List UInt8) : Buffer n :=
  ⟨fun i => if off ≤ i.val ∧ i.val < off + bs.length then bs.getD (i.val - off) 0
    else b.byteAt i⟩

/-- The unsigned integer of `w` bytes at `off`. -/
def readLE (b : Buffer n) (off w : ℕ) : ℕ := LittleEndian.decode (b.slice off w)

/-- The buffer with the unsigned integer `v` stored in `w` bytes at `off`. -/
def writeLE (b : Buffer n) (off w v : ℕ) : Buffer n :=
  b.blit off (LittleEndian.encode w v)

/-! ### Bytes -/

/-- Two buffers with the same bytes are equal. -/
theorem ext_byte {b c : Buffer n} (h : ∀ i, i < n → b.byte i = c.byte i) : b = c := by
  refine Buffer.ext (funext fun i => ?_)
  have hi := h i.val i.isLt
  simpa [byte, i.isLt] using hi

@[simp] theorem byte_zero (i : ℕ) : (zero n).byte i = 0 := by
  unfold byte zero
  split <;> rfl

theorem byte?_eq (b : Buffer n) {i : ℕ} (h : i < n) : b.byte? i = some (b.byte i) := by
  unfold byte? byte
  rw [dif_pos h, dif_pos h]

/-- The bytes of a buffer after a copy. -/
theorem byte_blit (b : Buffer n) (off : ℕ) (bs : List UInt8) (i : ℕ) :
    (b.blit off bs).byte i
      = if off ≤ i ∧ i < off + bs.length ∧ i < n then bs.getD (i - off) 0 else b.byte i := by
  unfold byte blit
  by_cases hi : i < n
  · simp only [hi, dite_true, and_true]
  · simp [hi]

/-- A copy elsewhere does not change a byte. -/
theorem byte_blit_disjoint (b : Buffer n) {off : ℕ} {bs : List UInt8} {i : ℕ}
    (h : i < off ∨ off + bs.length ≤ i) : (b.blit off bs).byte i = b.byte i := by
  rw [byte_blit, if_neg (by omega)]

/-- Copying nothing. -/
@[simp] theorem blit_nil (b : Buffer n) (off : ℕ) : b.blit off [] = b :=
  ext_byte (fun i _ => b.byte_blit_disjoint (lt_or_ge i off))

/-! ### Slices -/

@[simp] theorem length_slice (b : Buffer n) (off len : ℕ) :
    (b.slice off len).length = len := by
  simp [slice]

theorem getElem_slice (b : Buffer n) (off len j : ℕ) (h : j < (b.slice off len).length) :
    (b.slice off len)[j] = b.byte (off + j) := by
  simp [slice]

/-- A slice is determined by its bytes. -/
theorem slice_congr {b c : Buffer n} {off off' len : ℕ}
    (h : ∀ j, j < len → b.byte (off + j) = c.byte (off' + j)) :
    b.slice off len = c.slice off' len := by
  refine List.map_congr_left (fun j hj => h j (List.mem_range.mp hj))

/-- **What was copied is read back.** -/
theorem slice_blit_same (b : Buffer n) {off : ℕ} {bs : List UInt8}
    (h : off + bs.length ≤ n) : (b.blit off bs).slice off bs.length = bs := by
  refine List.ext_getElem (by simp) (fun j hj hj' => ?_)
  rw [length_slice] at hj
  rw [getElem_slice, byte_blit, if_pos (by omega), show off + j - off = j from by omega]
  simp [hj]

/-- **A copy elsewhere is not seen.** -/
theorem slice_blit_disjoint (b : Buffer n) {off : ℕ} {bs : List UInt8} {o len : ℕ}
    (h : o + len ≤ off ∨ off + bs.length ≤ o) :
    (b.blit off bs).slice o len = b.slice o len :=
  slice_congr (fun j hj => b.byte_blit_disjoint (by omega))

/-! ### Integer fields -/

/-- An integer field is bounded by its width. -/
theorem readLE_lt (b : Buffer n) (off w : ℕ) : b.readLE off w < 256 ^ w := by
  have h := LittleEndian.decode_lt (b.slice off w)
  rwa [length_slice] at h

/-- A two-byte field is below `2 ^ 16`. -/
theorem readLE_two_lt (b : Buffer n) (off : ℕ) : b.readLE off 2 < 65536 :=
  b.readLE_lt off 2

/-- A four-byte field is below `2 ^ 32`. -/
theorem readLE_four_lt (b : Buffer n) (off : ℕ) : b.readLE off 4 < 4294967296 :=
  b.readLE_lt off 4

/-- **A stored integer is read back**, cut to the width of its field. -/
theorem readLE_writeLE_same (b : Buffer n) {off w : ℕ} (v : ℕ) (h : off + w ≤ n) :
    (b.writeLE off w v).readLE off w = v % 256 ^ w := by
  have hs : (b.blit off (LittleEndian.encode w v)).slice off (LittleEndian.encode w v).length
      = LittleEndian.encode w v := b.slice_blit_same (by simpa using h)
  rw [LittleEndian.length_encode] at hs
  rw [readLE, writeLE, hs, LittleEndian.decode_encode]

/-- **A store elsewhere is not seen** by an integer field. -/
theorem readLE_writeLE_disjoint (b : Buffer n) {off w o k : ℕ} (v : ℕ)
    (h : o + k ≤ off ∨ off + w ≤ o) :
    (b.writeLE off w v).readLE o k = b.readLE o k := by
  rw [readLE, writeLE, slice_blit_disjoint _ (by simpa using h)]
  rfl

/-- A copy elsewhere is not seen by an integer field. -/
theorem readLE_blit_disjoint (b : Buffer n) {off : ℕ} {bs : List UInt8} {o k : ℕ}
    (h : o + k ≤ off ∨ off + bs.length ≤ o) :
    (b.blit off bs).readLE o k = b.readLE o k := by
  rw [readLE, slice_blit_disjoint _ h]
  rfl

/-- A store elsewhere is not seen by a slice. -/
theorem slice_writeLE_disjoint (b : Buffer n) {off w o len : ℕ} (v : ℕ)
    (h : o + len ≤ off ∨ off + w ≤ o) :
    (b.writeLE off w v).slice o len = b.slice o len :=
  b.slice_blit_disjoint (by simpa using h)

@[simp] theorem readLE_zero (off w : ℕ) : (zero n).readLE off w = 0 := by
  unfold readLE slice
  simp only [byte_zero, List.map_const', List.length_range]
  exact LittleEndian.decode_replicate_zero w

/-! ### Checked accesses -/

/-- The integer field of `w` bytes at a computed offset. -/
def fetch (b : Buffer n) (off w : ℕ) : Except Fault ℕ :=
  if off + w ≤ n then .ok (b.readLE off w) else .error .outOfBounds

/-- Storing an integer of `w` bytes at a computed offset. -/
def poke (b : Buffer n) (off w v : ℕ) : Except Fault (Buffer n) :=
  if off + w ≤ n then .ok (b.writeLE off w v) else .error .outOfBounds

/-- `memcpy` of the bytes `bs` to a computed offset. -/
def copyIn (b : Buffer n) (off : ℕ) (bs : List UInt8) : Except Fault (Buffer n) :=
  if off + bs.length ≤ n then .ok (b.blit off bs) else .error .outOfBounds

theorem fetch_eq_ok (b : Buffer n) {off w : ℕ} (h : off + w ≤ n) :
    b.fetch off w = .ok (b.readLE off w) := if_pos h

theorem poke_eq_ok (b : Buffer n) {off w : ℕ} (v : ℕ) (h : off + w ≤ n) :
    b.poke off w v = .ok (b.writeLE off w v) := if_pos h

theorem copyIn_eq_ok (b : Buffer n) {off : ℕ} {bs : List UInt8} (h : off + bs.length ≤ n) :
    b.copyIn off bs = .ok (b.blit off bs) := if_pos h

end Buffer
