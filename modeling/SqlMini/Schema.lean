import SqlMini.ByteBuffer
import SqlMini.Strings

/-!
# Schemas, rows and their encodings

A schema is a list of typed columns and a row a list of values in the same
order. Both are stored as bytes: the schema in the metadata page, a row as a
record of a heap page.

The decoders work on a raw pointer, so they are functions of a reader that
yields the byte at each distance from the pointer and stops with
`Fault.outOfBounds` where the distance leaves the buffer. `Reads` says that
a reader yields given bytes from a position on; the round trips
`Schema.deserialize_serialize` and `deserializeRow_serializeRow` are stated
for any reader that yields what was encoded, so they apply wherever the
encoding was put.
-/

/-! ## Types -/

/-- `ColType`. The enumeration is read back from a byte by a cast, which
lets any byte through; the code only ever tests for `int`. -/
inductive ColType where
  | int
  | text
  /-- A byte that names neither type. -/
  | unnamed (b : UInt8) (h : 2 ≤ b)
  deriving DecidableEq

namespace ColType

/-- The byte of a column type. -/
def toByte : ColType → UInt8
  | int => 0
  | text => 1
  | unnamed b _ => b

/-- `static_cast<ColType>`. -/
def ofByte (b : UInt8) : ColType :=
  if b = 0 then int else if b = 1 then text
  else if h : 2 ≤ b then unnamed b h else text

@[simp] theorem ofByte_toByte (t : ColType) : ofByte t.toByte = t := by
  cases t with
  | int => rfl
  | text => rfl
  | unnamed b h =>
    have h0 : b ≠ 0 := by
      rintro rfl
      exact absurd h (by decide)
    have h1 : b ≠ 1 := by
      rintro rfl
      exact absurd h (by decide)
    rw [toByte, ofByte, if_neg h0, if_neg h1, dif_pos h]

@[simp] theorem toByte_ofByte (b : UInt8) : (ofByte b).toByte = b := by
  unfold ofByte
  split_ifs with h0 h1 h2
  · exact h0.symm
  · exact h1.symm
  · rfl
  · have hb : b.toNat < 2 := Nat.lt_of_not_le (fun h => h2 (UInt8.le_iff_toNat_le.mpr h))
    have h0' : b.toNat ≠ 0 := fun h => h0 (UInt8.toNat_inj.mp h)
    exact (UInt8.toNat_inj.mp (show b.toNat = 1 from by omega)).symm

end ColType

/-- **A column** of a table. -/
structure Column where
  /-- Its name. -/
  name : ByteString
  /-- Its type. -/
  type : ColType
  /-- The declared length of a text. -/
  maxLen : UInt16
  deriving DecidableEq

instance : Inhabited Column := ⟨⟨[], .int, 0⟩⟩

/-- **A schema**: the name of a table and its columns. -/
structure Schema where
  /-- The name of the table. -/
  tableName : ByteString
  /-- Its columns. -/
  cols : List Column
  deriving DecidableEq

instance : Inhabited Schema := ⟨⟨[], []⟩⟩

/-- **A field value.** Both members exist whatever the type; a fresh value
is the integer `0`. -/
structure Value where
  /-- The type the value was made with. -/
  type : ColType
  /-- The integer member. -/
  intVal : CInt
  /-- The text member. -/
  strVal : ByteString
  deriving DecidableEq

namespace Value

instance : Inhabited Value := ⟨⟨.int, default, []⟩⟩

/-- `Value::make_int`. -/
def makeInt (v : CInt) : Value := ⟨.int, v, []⟩

/-- `Value::make_text`. -/
def makeText (s : ByteString) : Value := ⟨.text, default, s⟩

/-- `Value::to_string`. -/
def toString (v : Value) : ByteString :=
  if v.type = .int then CppString.toDecimal v.intVal else v.strVal

end Value

/-- A row: one value per column, in the order of the schema. -/
abbrev Row := List Value

/-! ## Reading bytes through a pointer -/

/-- What a pointer into a buffer yields at each distance. -/
abbrev Reader := ℕ → Except Fault UInt8

namespace Reader

/-- `n` bytes from `pos` on. -/
def bytes (rd : Reader) : (pos n : ℕ) → Except Fault ByteString
  | _, 0 => .ok []
  | pos, n + 1 => do
    let b ← rd pos
    return b :: (← rd.bytes (pos + 1) n)

/-- The reader yields `bs` from `pos` on. -/
def Reads (rd : Reader) (pos : ℕ) (bs : ByteString) : Prop :=
  ∀ j b, bs[j]? = some b → rd (pos + j) = .ok b

variable {rd : Reader} {pos : ℕ}

theorem reads_cons {b : UInt8} {bs : ByteString} :
    rd.Reads pos (b :: bs) ↔ rd pos = .ok b ∧ rd.Reads (pos + 1) bs := by
  constructor
  · intro h
    refine ⟨h 0 b rfl, fun j c hj => ?_⟩
    rw [show pos + 1 + j = pos + (j + 1) from by omega]
    exact h (j + 1) c hj
  · rintro ⟨h0, hs⟩ j c hj
    cases j with
    | zero => exact h0.trans (congrArg Except.ok (Option.some.inj hj))
    | succ j =>
      rw [show pos + (j + 1) = pos + 1 + j from by omega]
      exact hs j c hj

theorem reads_append {bs cs : ByteString} :
    rd.Reads pos (bs ++ cs) ↔ rd.Reads pos bs ∧ rd.Reads (pos + bs.length) cs := by
  induction bs generalizing pos with
  | nil => simp [Reads]
  | cons b bs ih =>
    rw [List.cons_append, reads_cons, reads_cons, ih, List.length_cons, and_assoc,
      show pos + 1 + bs.length = pos + (bs.length + 1) from by omega]

/-- The bytes yielded are the bytes read. -/
theorem Reads.bytes_eq {bs : ByteString} (h : rd.Reads pos bs) :
    rd.bytes pos bs.length = .ok bs := by
  induction bs generalizing pos with
  | nil => rfl
  | cons b bs ih =>
    obtain ⟨h0, hs⟩ := reads_cons.mp h
    rw [List.length_cons, bytes, h0, Except.ok_bind_eq, ih hs]
    rfl

/-- The reader has nothing to give from `N` on. -/
def EndsBy (rd : Reader) (N : ℕ) : Prop := ∀ pos b, rd pos = .ok b → pos < N

theorem length_of_bytes : ∀ {n pos : ℕ} {bs : ByteString}, rd.bytes pos n = .ok bs → bs.length = n
  | 0, _, _, h => by
    rw [← Except.ok.inj h]
    rfl
  | n + 1, pos, bs, h => by
    obtain ⟨b, -, h⟩ := Except.bind_eq_ok.mp h
    obtain ⟨bs', hbs, h⟩ := Except.bind_eq_ok.mp h
    rw [← Except.ok.inj h, List.length_cons, length_of_bytes hbs]

/-- Bytes that were read lie before the end. -/
theorem EndsBy.le_of_bytes {N : ℕ} (hrd : rd.EndsBy N) : ∀ {n pos : ℕ} {bs : ByteString},
    rd.bytes pos n = .ok bs → pos ≤ N → pos + n ≤ N
  | 0, _, _, _, hpos => hpos
  | n + 1, pos, bs, h, _ => by
    obtain ⟨b, hb, h⟩ := Except.bind_eq_ok.mp h
    obtain ⟨bs', hbs, -⟩ := Except.bind_eq_ok.mp h
    have hlt := hrd pos b hb
    have hrest := hrd.le_of_bytes hbs hlt
    omega

end Reader

/-! ## Schemas -/

namespace Schema

/-- `Schema::find_col`: the index of the first column of that name, or
`-1`. -/
def findCol (s : Schema) (name : ByteString) : ℤ :=
  match s.cols.findIdx? (fun c => c.name = name) with
  | some i => i
  | none => -1

/-- The bytes of one column: the type, the declared length in two bytes, the
length of the name in one, the name. -/
def columnBytes (c : Column) : ByteString :=
  c.type.toByte :: LittleEndian.encode 2 c.maxLen.toNat
    ++ UInt8.ofNat c.name.length :: c.name

/-- `Schema::serialize`. -/
def serialize (s : Schema) : ByteString :=
  UInt8.ofNat s.cols.length :: s.cols.flatMap columnBytes

/-- The loop of `Schema::deserialize`, with `n` columns to go. -/
def deserializeCols (rd : Reader) (len : ℕ) : (n pos : ℕ) → Except Fault (List Column)
  | 0, _ => .ok []
  | n + 1, pos => do
    if len ≤ pos then return []
    let type ← rd pos
    let maxLen ← rd.bytes (pos + 1) 2
    let nameLen ← rd (pos + 3)
    let name ← rd.bytes (pos + 4) nameLen.toNat
    let rest ← deserializeCols rd len n (pos + 4 + nameLen.toNat)
    return ⟨name, .ofByte type, UInt16.ofNat (LittleEndian.decode maxLen)⟩ :: rest

/-- `Schema::deserialize`. -/
def deserialize (rd : Reader) (len : ℕ) : Except Fault Schema := do
  if len = 0 then return default
  let ncols ← rd 0
  return ⟨[], ← deserializeCols rd len ncols.toNat 1⟩

theorem length_columnBytes (c : Column) : (columnBytes c).length = 4 + c.name.length := by
  simp [columnBytes]
  omega

theorem length_serialize (s : Schema) :
    s.serialize.length = (s.cols.map (fun c => 4 + c.name.length)).sum + 1 := by
  simp only [serialize, List.length_cons, List.length_flatMap, length_columnBytes]

/-- The columns encoded are the columns decoded: all that were announced,
or fewer that the encoding ends with. -/
theorem deserializeCols_flatMap {rd : Reader} {len : ℕ} :
    ∀ (n : ℕ) (cs : List Column) (pos : ℕ),
      cs.length = n ∨ cs.length ≤ n ∧ pos + (cs.flatMap columnBytes).length = len →
      (∀ c ∈ cs, c.name.length < 256) →
      rd.Reads pos (cs.flatMap columnBytes) → pos + (cs.flatMap columnBytes).length ≤ len →
      deserializeCols rd len n pos = .ok cs
  | 0, [], _, _, _, _, _ => rfl
  | 0, c :: cs, _, hn, _, _, _ => by simp at hn
  | n + 1, [], pos, hn, _, _, _ => by
    have hend : len ≤ pos := by
      rcases hn with h | ⟨-, h⟩
      · simp at h
      · simp only [List.flatMap_nil, List.length_nil] at h
        omega
    rw [deserializeCols, if_pos hend]
    rfl
  | n + 1, c :: cs, pos, hn, hname, hrd, hlen => by
    have hc : c.name.length < 256 := hname c List.mem_cons_self
    rw [List.flatMap_cons, List.length_append, length_columnBytes] at hlen hn
    rw [List.flatMap_cons, Reader.reads_append, length_columnBytes] at hrd
    obtain ⟨hcol, hrest⟩ := hrd
    rw [columnBytes, Reader.reads_append, Reader.reads_cons, Reader.reads_cons] at hcol
    obtain ⟨⟨htype, hml⟩, hnl, hnm⟩ := hcol
    rw [List.length_cons, LittleEndian.length_encode,
      show pos + (2 + 1) = pos + 3 from by omega] at hnl hnm
    have hml' : rd.bytes (pos + 1) 2 = .ok (LittleEndian.encode 2 c.maxLen.toNat) := by
      have h := hml.bytes_eq
      rwa [LittleEndian.length_encode] at h
    have hnl' : (UInt8.ofNat c.name.length).toNat = c.name.length := by
      rw [UInt8.toNat_ofNat']
      omega
    have hml16 : LittleEndian.decode (LittleEndian.encode 2 c.maxLen.toNat) = c.maxLen.toNat := by
      rw [LittleEndian.decode_encode]
      exact Nat.mod_eq_of_lt c.maxLen.toNat_lt
    have ih : deserializeCols rd len n (pos + 4 + c.name.length) = .ok cs :=
      deserializeCols_flatMap n cs _
        (by
          rw [List.length_cons] at hn
          omega)
        (fun d hd => hname d (List.mem_cons_of_mem c hd))
        (by rwa [show pos + 4 + c.name.length = pos + (4 + c.name.length) from by omega])
        (by omega)
    rw [deserializeCols, if_neg (by omega)]
    simp only [htype, hml', hnl, hnl', hnm.bytes_eq, ih, Except.ok_bind_eq, hml16]
    simp [pure, Except.pure]

/-- **A stored schema is read back**, up to the table name, which is not
stored. -/
theorem deserialize_serialize {rd : Reader} {s : Schema} (hcols : s.cols.length < 256)
    (hname : ∀ c ∈ s.cols, c.name.length < 256) (hrd : rd.Reads 0 s.serialize) :
    deserialize rd s.serialize.length = .ok ⟨[], s.cols⟩ := by
  have hlen : s.serialize.length = (s.cols.flatMap columnBytes).length + 1 := by
    rw [serialize, List.length_cons]
  rw [serialize, Reader.reads_cons] at hrd
  have hn : (UInt8.ofNat s.cols.length).toNat = s.cols.length := by
    rw [UInt8.toNat_ofNat']
    omega
  rw [deserialize, if_neg (by omega), hrd.1, Except.ok_bind_eq, hn,
    deserializeCols_flatMap s.cols.length s.cols 1 (.inl rfl) hname hrd.2 (by omega)]
  rfl

/-! ## Rows of a schema -/

/-- A full row of a schema: one value per column, made with the column's
type. -/
def FullRow (s : Schema) (row : Row) : Prop :=
  row.map Value.type = s.cols.map Column.type

/-- The value a column stores of `v`: the member its type selects. -/
def columnValue (c : Column) (v : Value) : Value :=
  if c.type = .int then ⟨c.type, v.intVal, []⟩ else ⟨c.type, default, v.strVal⟩

/-- The column values of a row. -/
def columnValues (s : Schema) (row : Row) : Row := List.zipWith columnValue s.cols row

end Schema

/-- The bytes of one field: an integer in four bytes, a text preceded by its
length in two. -/
def fieldBytes (c : Column) (v : Value) : ByteString :=
  if c.type = .int then LittleEndian.encode 4 v.intVal.toUInt
  else LittleEndian.encode 2 v.strVal.length ++ v.strVal

/-- `serialize_row`. -/
def serializeRow (s : Schema) (row : Row) : ByteString :=
  (List.zipWith fieldBytes s.cols row).flatten

/-- The loop of `deserialize_row`, with the columns `cs` to go. The position
is a `uint16_t`. -/
def deserializeFields (rd : Reader) (len : ℕ) : (cs : List Column) → (pos : ℕ) →
    Except Fault Row
  | [], _ => .ok []
  | c :: cs, pos => do
    if len ≤ pos then return []
    if c.type = .int then
      let n ← rd.bytes pos 4
      let rest ← deserializeFields rd len cs ((pos + 4) % 65536)
      return ⟨c.type, .ofUInt (LittleEndian.decode n), []⟩ :: rest
    else
      let n ← rd.bytes pos 2
      let slen := LittleEndian.decode n
      let start := (pos + 2) % 65536
      let text ← rd.bytes start slen
      let rest ← deserializeFields rd len cs ((start + slen) % 65536)
      return ⟨c.type, default, text⟩ :: rest

/-- `deserialize_row`. -/
def deserializeRow (s : Schema) (rd : Reader) (len : ℕ) : Except Fault Row :=
  deserializeFields rd len s.cols 0

theorem length_fieldBytes_pos (c : Column) (v : Value) : 2 ≤ (fieldBytes c v).length := by
  unfold fieldBytes
  split <;> simp

/-- The fields encoded are the fields decoded, as long as the position does
not wrap: all of them, or those of a shorter row that the record ends
with. -/
theorem deserializeFields_flatten {rd : Reader} {len : ℕ} (hlen : len < 65536) :
    ∀ (cs : List Column) (row : Row) (pos : ℕ),
      row.length = cs.length ∨ row.length ≤ cs.length
        ∧ pos + (List.zipWith fieldBytes cs row).flatten.length = len →
      rd.Reads pos (List.zipWith fieldBytes cs row).flatten →
      pos + (List.zipWith fieldBytes cs row).flatten.length ≤ len →
      deserializeFields rd len cs pos = .ok (List.zipWith Schema.columnValue cs row)
  | [], row, pos, _, _, _ => rfl
  | c :: cs, [], pos, hrow, _, _ => by
    have hend : len ≤ pos := by
      rcases hrow with h | ⟨-, h⟩
      · simp at h
      · simp only [List.zipWith_nil_right, List.flatten_nil, List.length_nil] at h
        omega
    rw [deserializeFields, if_pos hend, List.zipWith_nil_right]
    rfl
  | c :: cs, v :: row, pos, hrow, hrd, hfit => by
    rw [List.zipWith_cons_cons, List.flatten_cons, List.length_append] at hfit hrow
    rw [List.zipWith_cons_cons, List.flatten_cons, Reader.reads_append] at hrd
    obtain ⟨hv, hrest⟩ := hrd
    have h2 := length_fieldBytes_pos c v
    have ih := deserializeFields_flatten hlen cs row (pos + (fieldBytes c v).length)
      (by
        rw [List.length_cons, List.length_cons] at hrow
        omega) hrest (by omega)
    rw [List.zipWith_cons_cons, deserializeFields, if_neg (by omega)]
    by_cases hc : c.type = .int
    · have hf : fieldBytes c v = LittleEndian.encode 4 v.intVal.toUInt := if_pos hc
      rw [hf, LittleEndian.length_encode] at ih hfit
      rw [hf] at hv
      have hb := hv.bytes_eq
      rw [LittleEndian.length_encode] at hb
      have hd : LittleEndian.decode (LittleEndian.encode 4 v.intVal.toUInt) = v.intVal.toUInt := by
        rw [LittleEndian.decode_encode]
        exact Nat.mod_eq_of_lt v.intVal.toUInt_lt
      rw [if_pos hc, hb, Except.ok_bind_eq, Nat.mod_eq_of_lt (by omega), ih, Except.ok_bind_eq,
        hd, CInt.ofUInt_toUInt, Schema.columnValue, if_pos hc]
      rfl
    · have hf : fieldBytes c v = LittleEndian.encode 2 v.strVal.length ++ v.strVal := if_neg hc
      rw [hf, List.length_append, LittleEndian.length_encode] at ih hfit
      rw [hf, Reader.reads_append, LittleEndian.length_encode] at hv
      have hb := hv.1.bytes_eq
      rw [LittleEndian.length_encode] at hb
      have hd : LittleEndian.decode (LittleEndian.encode 2 v.strVal.length) = v.strVal.length := by
        rw [LittleEndian.decode_encode]
        exact Nat.mod_eq_of_lt (show v.strVal.length < 65536 from by omega)
      rw [if_neg hc, hb, Except.ok_bind_eq]
      simp only [hd]
      rw [Nat.mod_eq_of_lt (show pos + 2 < 65536 from by omega), hv.2.bytes_eq,
        Except.ok_bind_eq, Nat.mod_eq_of_lt (by omega),
        show pos + 2 + v.strVal.length = pos + (2 + v.strVal.length) from by omega, ih,
        Schema.columnValue, if_neg hc]
      rfl

/-- **A stored row is read back**: its column values come out of the bytes
that went in. -/
theorem deserializeRow_serializeRow {rd : Reader} {s : Schema} {row : Row}
    (hrow : row.length ≤ s.cols.length) (hlen : (serializeRow s row).length < 65536)
    (hrd : rd.Reads 0 (serializeRow s row)) :
    deserializeRow s rd (serializeRow s row).length = .ok (s.columnValues row) :=
  deserializeFields_flatten hlen s.cols row 0 (.inr ⟨hrow, Nat.zero_add _⟩) hrd
    (Nat.zero_add _).le

/-- **A decoded row carries the types of its columns.** -/
theorem type_of_deserializeFields {rd : Reader} {len : ℕ} :
    ∀ (cs : List Column) (pos : ℕ) (row : Row), deserializeFields rd len cs pos = .ok row →
      row.map Value.type = (cs.map Column.type).take row.length
  | [], pos, row, h => by
    rw [deserializeFields] at h
    rw [← Except.ok.inj h]
    rfl
  | c :: cs, pos, row, h => by
    rw [deserializeFields] at h
    by_cases hpos : len ≤ pos
    · rw [if_pos hpos] at h
      rw [← Except.ok.inj h]
      rfl
    rw [if_neg hpos] at h
    by_cases hc : c.type = .int
    · rw [if_pos hc] at h
      obtain ⟨n, -, h⟩ := Except.bind_eq_ok.mp h
      obtain ⟨rest, hr, h⟩ := Except.bind_eq_ok.mp h
      rw [← Except.ok.inj h]
      simp [type_of_deserializeFields cs _ rest hr]
    · rw [if_neg hc] at h
      obtain ⟨n, -, h⟩ := Except.bind_eq_ok.mp h
      obtain ⟨text, -, h⟩ := Except.bind_eq_ok.mp h
      obtain ⟨rest, hr, h⟩ := Except.bind_eq_ok.mp h
      rw [← Except.ok.inj h]
      simp [type_of_deserializeFields cs _ rest hr]
