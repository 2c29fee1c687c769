import SqlMini.Schema

/-!
# What the decoders read

`Schema::deserialize` and `deserialize_row` are given a pointer and a length,
and the memory goes on behind the record: a heap page holds other records
there, the metadata page its free bytes. Whether a decoder stays inside its
record is a question about its reads, so it is run on memory that ends where
the record does (`Reader.below`): it stays inside exactly if that run does
not fault (`Reader.Inside`).

Both loops test their position once per column and then read the column
whole, so a record that ends inside a column is read past its end. The
condition under which none is (`Reader.inside_iff`) is about the bytes
alone. The record starts with the whole encodings of as many columns as are
looked for, or consists of fewer.

What `serialize_row` wrote is such a record, a row with fewer values than
there are columns included, and it decodes to the values that went in
(`deserializeRow_roundTrip`).
-/

namespace Reader

variable {mem : ℕ → UInt8} {pos len n : ℕ}

/-- The `n` bytes of memory from `pos` on. -/
def window (mem : ℕ → UInt8) (pos n : ℕ) : ByteString := (List.range' pos n).map mem

/-- Memory that ends at distance `len`. -/
def below (mem : ℕ → UInt8) (len : ℕ) : Reader :=
  fun i => if i < len then .ok (mem i) else .error .outOfBounds

/-- Memory that starts with given bytes and ends behind them. -/
def ofBytes (bs : ByteString) : Reader :=
  fun i => match bs[i]? with
    | some b => .ok b
    | none => .error .outOfBounds

/-- **A decoder stays inside a record** of `len` bytes: it reads no byte
behind it. -/
def Inside {α : Type} (decode : Reader → Except Fault α) (mem : ℕ → UInt8) (len : ℕ) : Prop :=
  ∃ a, decode (below mem len) = .ok a

@[simp] theorem length_window : (window mem pos n).length = n := by
  rw [window, List.length_map, List.length_range']

theorem window_add (m : ℕ) :
    window mem pos (m + n) = window mem pos m ++ window mem (pos + m) n := by
  rw [window, window, window, ← List.map_append, ← List.range'_append_1]

theorem window_succ : window mem pos (n + 1) = mem pos :: window mem (pos + 1) n := rfl

theorem getElem?_window {j : ℕ} (h : j < n) : (window mem pos n)[j]? = some (mem (pos + j)) := by
  rw [window, List.getElem?_map, List.getElem?_range' h, Nat.one_mul]
  rfl

/-- Bytes of memory spell a number of that many bytes. -/
theorem decode_window_lt : LittleEndian.decode (window mem pos n) < 256 ^ n := by
  have h := LittleEndian.decode_lt (window mem pos n)
  rwa [length_window] at h

/-- Bytes of memory are the encoding of the number they spell. -/
@[simp] theorem encode_decode_window :
    LittleEndian.encode n (LittleEndian.decode (window mem pos n)) = window mem pos n := by
  have h := LittleEndian.encode_decode (window mem pos n)
  rwa [length_window] at h

/-- Reading one byte. -/
theorem below_eq_ok {b : UInt8} : below mem len pos = .ok b ↔ pos < len ∧ mem pos = b := by
  rw [below]
  split
  · next h => rw [Except.ok.injEq, and_iff_right h]
  · next h => exact ⟨nofun, fun h' => absurd h'.1 h⟩

/-- Reading `n` bytes succeeds where they all are before the end. -/
theorem bytes_below_eq_ok {bs : ByteString} :
    (below mem len).bytes pos n = .ok bs ↔ (n = 0 ∨ pos + n ≤ len) ∧ bs = window mem pos n := by
  induction n generalizing pos bs with
  | zero =>
    rw [bytes, Except.ok.injEq]
    exact ⟨fun h => ⟨.inl rfl, h.symm⟩, fun h => h.2.symm⟩
  | succ n ih =>
    rw [bytes, window_succ]
    constructor
    · intro h
      obtain ⟨b, hb, h⟩ := Except.bind_eq_ok.mp h
      obtain ⟨cs, hcs, h⟩ := Except.bind_eq_ok.mp h
      obtain ⟨hpos, rfl⟩ := below_eq_ok.mp hb
      obtain ⟨hn, rfl⟩ := ih.mp hcs
      exact ⟨.inr (by omega), (Except.ok.inj h).symm⟩
    · rintro ⟨hn, rfl⟩
      rw [below_eq_ok.mpr ⟨by omega, rfl⟩, Except.ok_bind_eq, ih.mpr ⟨.inr (by omega), rfl⟩]
      rfl

/-- The bytes of memory from `pos` to the end are what is read there. -/
theorem reads_below {bs rest : ByteString} (h : window mem pos (len - pos) = bs ++ rest) :
    (below mem len).Reads pos bs := by
  intro j b hj
  have hlen : bs.length + rest.length = len - pos := by
    rw [← List.length_append, ← h, length_window]
  have hjl : j < bs.length := (List.getElem?_eq_some_iff.mp hj).1
  have hmem : (bs ++ rest)[j]? = some (mem (pos + j)) := by
    rw [← h]
    exact getElem?_window (by omega)
  rw [List.getElem?_append_left hjl, hj] at hmem
  exact below_eq_ok.mpr ⟨by omega, (Option.some.inj hmem).symm⟩

/-- Memory yields what it starts with. -/
theorem reads_ofBytes (bs rest : ByteString) : (ofBytes (bs ++ rest)).Reads 0 bs := by
  intro j b hj
  have hjl : j < bs.length := (List.getElem?_eq_some_iff.mp hj).1
  rw [ofBytes, Nat.zero_add, List.getElem?_append_left hjl, hj]

end Reader

open Reader

/-! ## Whole encodings -/

/-- **At most `n` columns, whole**: the bytes start with the encodings of
`n` columns, or are those of fewer. -/
def Schema.WholeColumns (n : ℕ) (bs : ByteString) : Prop :=
  ∃ (cs : List Column) (rest : ByteString), bs = cs.flatMap Schema.columnBytes ++ rest
    ∧ (∀ c ∈ cs, c.name.length < 256) ∧ (cs.length = n ∨ cs.length ≤ n ∧ rest = [])

/-- **A whole schema**: no byte at all, or a number of columns and at most
that many columns, whole. -/
def Schema.Whole : ByteString → Prop
  | [] => True
  | n :: bs => Schema.WholeColumns n.toNat bs

/-- **Whole fields** for given columns: the bytes start with a field for
each column, or are the fields of the first ones. -/
def WholeFields (cs : List Column) (bs : ByteString) : Prop :=
  ∃ (row : Row) (rest : ByteString), bs = (List.zipWith fieldBytes cs row).flatten ++ rest
    ∧ (row.length = cs.length ∨ row.length ≤ cs.length ∧ rest = [])

/-! ## Schemas -/

namespace Schema

variable {mem : ℕ → UInt8} {len : ℕ}

/-- The columns read are the columns the bytes begin with. -/
theorem inside_deserializeCols {n pos : ℕ} (hpos : pos ≤ len) :
    (∃ cs, deserializeCols (below mem len) len n pos = .ok cs)
      ↔ WholeColumns n (window mem pos (len - pos)) := by
  constructor
  · rintro ⟨cs, h⟩
    induction n generalizing pos cs with
    | zero => exact ⟨[], _, rfl, nofun, .inl rfl⟩
    | succ n ih =>
      rw [deserializeCols] at h
      by_cases hend : len ≤ pos
      · refine ⟨[], [], ?_, nofun, .inr ⟨Nat.zero_le _, rfl⟩⟩
        rw [show len - pos = 0 from by omega]
        rfl
      rw [if_neg hend] at h
      obtain ⟨type, htype, h⟩ := Except.bind_eq_ok.mp h
      obtain ⟨maxLen, hmax, h⟩ := Except.bind_eq_ok.mp h
      obtain ⟨nameLen, hnl, h⟩ := Except.bind_eq_ok.mp h
      obtain ⟨name, hname, h⟩ := Except.bind_eq_ok.mp h
      obtain ⟨rest, hrest, -⟩ := Except.bind_eq_ok.mp h
      obtain ⟨-, rfl⟩ := below_eq_ok.mp htype
      obtain ⟨-, rfl⟩ := bytes_below_eq_ok.mp hmax
      obtain ⟨hnl3, rfl⟩ := below_eq_ok.mp hnl
      obtain ⟨hn, rfl⟩ := bytes_below_eq_ok.mp hname
      have hfit : pos + 4 + (mem (pos + 3)).toNat ≤ len := by
        rcases hn with h0 | h0
        · omega
        · exact h0
      obtain ⟨cs, rest, hbs, hnames, hcs⟩ := ih hfit rest hrest
      have hbyte : (mem (pos + 3)).toNat < 256 := (mem (pos + 3)).toNat_lt
      refine ⟨⟨window mem (pos + 4) (mem (pos + 3)).toNat, .ofByte (mem pos),
        UInt16.ofNat (LittleEndian.decode (window mem (pos + 1) 2))⟩ :: cs, rest, ?_, ?_, ?_⟩
      · have hdec : (UInt16.ofNat (LittleEndian.decode (window mem (pos + 1) 2))).toNat
            = LittleEndian.decode (window mem (pos + 1) 2) := by
          rw [UInt16.toNat_ofNat']
          exact Nat.mod_eq_of_lt decode_window_lt
        have hhead : window mem pos 4 = mem pos :: (window mem (pos + 1) 2 ++ [mem (pos + 3)]) :=
          rfl
        rw [show len - pos = 4 + (mem (pos + 3)).toNat
            + (len - (pos + 4 + (mem (pos + 3)).toNat)) from by omega,
          window_add, window_add, ← Nat.add_assoc pos, hbs, hhead, List.flatMap_cons,
          columnBytes, hdec, encode_decode_window, length_window]
        simp
      · intro c hc
        rcases List.mem_cons.mp hc with rfl | hc
        · rwa [length_window]
        · exact hnames c hc
      · exact hcs.imp (congrArg Nat.succ) (fun h => ⟨Nat.succ_le_succ h.1, h.2⟩)
  · rintro ⟨cs, rest, hbs, hnames, hcs⟩
    have hlen := congrArg List.length hbs
    rw [length_window, List.length_append] at hlen
    refine ⟨cs, deserializeCols_flatMap n cs pos ?_ hnames (reads_below hbs) (by omega)⟩
    rcases hcs with h | ⟨h, rfl⟩
    · exact .inl h
    · rw [List.length_nil] at hlen
      exact .inr ⟨h, by omega⟩

/-- `Schema::deserialize` stays inside the encodings that are whole. -/
theorem inside_deserialize :
    Inside (fun rd => deserialize rd len) mem len ↔ Whole (window mem 0 len) := by
  rcases Nat.eq_zero_or_pos len with rfl | hlen
  · exact ⟨fun _ => trivial, fun _ => ⟨default, rfl⟩⟩
  have hw : window mem 0 len = mem 0 :: window mem 1 (len - 1) := by
    rw [← window_succ, show len - 1 + 1 = len from by omega]
  rw [hw, Whole, ← inside_deserializeCols hlen, Inside]
  simp only [deserialize, if_neg hlen.ne', below_eq_ok.mpr ⟨hlen, rfl⟩, Except.ok_bind_eq]
  constructor
  · rintro ⟨s, h⟩
    obtain ⟨cs, hcs, -⟩ := Except.bind_eq_ok.mp h
    exact ⟨cs, hcs⟩
  · rintro ⟨cs, hcs⟩
    exact ⟨⟨[], cs⟩, by rw [hcs]; rfl⟩

end Schema

/-! ## Rows -/

section Rows

variable {mem : ℕ → UInt8} {len : ℕ}

/-- The fields read are the fields the bytes begin with. -/
theorem inside_deserializeFields {cs : List Column} {pos : ℕ} (hpos : pos ≤ len)
    (hlen : len < 65536) :
    (∃ row, deserializeFields (below mem len) len cs pos = .ok row)
      ↔ WholeFields cs (window mem pos (len - pos)) := by
  constructor
  · rintro ⟨row, h⟩
    induction cs generalizing pos row with
    | nil => exact ⟨[], _, rfl, .inl rfl⟩
    | cons c cs ih =>
      rw [deserializeFields] at h
      by_cases hend : len ≤ pos
      · refine ⟨[], [], ?_, .inr ⟨Nat.zero_le _, rfl⟩⟩
        rw [show len - pos = 0 from by omega]
        rfl
      rw [if_neg hend] at h
      by_cases hc : c.type = .int
      · rw [if_pos hc] at h
        obtain ⟨n, hn, h⟩ := Except.bind_eq_ok.mp h
        obtain ⟨row, hrow, -⟩ := Except.bind_eq_ok.mp h
        obtain ⟨hfit, rfl⟩ := bytes_below_eq_ok.mp hn
        rw [Nat.mod_eq_of_lt (by omega)] at hrow
        obtain ⟨row, rest, hbs, hcs⟩ := ih (by omega) row hrow
        refine ⟨⟨c.type, .ofUInt (LittleEndian.decode (window mem pos 4)), []⟩ :: row, rest,
          ?_, ?_⟩
        · have hdec : (CInt.ofUInt (LittleEndian.decode (window mem pos 4))).toUInt
              = LittleEndian.decode (window mem pos 4) :=
            CInt.toUInt_ofUInt decode_window_lt
          rw [show len - pos = 4 + (len - (pos + 4)) from by omega, window_add, hbs,
            List.zipWith_cons_cons, fieldBytes, if_pos hc, hdec, encode_decode_window]
          simp
        · exact hcs.imp (congrArg Nat.succ) (fun h => ⟨Nat.succ_le_succ h.1, h.2⟩)
      · rw [if_neg hc] at h
        obtain ⟨n, hn, h⟩ := Except.bind_eq_ok.mp h
        obtain ⟨text, htext, h⟩ := Except.bind_eq_ok.mp h
        obtain ⟨row, hrow, -⟩ := Except.bind_eq_ok.mp h
        obtain ⟨hfit, rfl⟩ := bytes_below_eq_ok.mp hn
        have hstart : (pos + 2) % 65536 = pos + 2 := Nat.mod_eq_of_lt (by omega)
        rw [hstart] at htext hrow
        obtain ⟨htfit, rfl⟩ := bytes_below_eq_ok.mp htext
        set slen := LittleEndian.decode (window mem pos 2) with hslen
        have hend : pos + 2 + slen ≤ len := by omega
        rw [Nat.mod_eq_of_lt (show pos + 2 + slen < 65536 from by omega)] at hrow
        obtain ⟨row, rest, hbs, hcs⟩ := ih (by omega) row hrow
        refine ⟨⟨c.type, default, window mem (pos + 2) slen⟩ :: row, rest, ?_, ?_⟩
        · rw [show len - pos = 2 + slen + (len - (pos + 2 + slen)) from by omega, window_add,
            window_add, ← Nat.add_assoc pos, hbs, List.zipWith_cons_cons, fieldBytes, if_neg hc,
            length_window, hslen, encode_decode_window]
          simp
        · exact hcs.imp (congrArg Nat.succ) (fun h => ⟨Nat.succ_le_succ h.1, h.2⟩)
  · rintro ⟨row, rest, hbs, hrow⟩
    have hl := congrArg List.length hbs
    rw [length_window, List.length_append] at hl
    refine ⟨_, deserializeFields_flatten hlen cs row pos ?_ (reads_below hbs) (by omega)⟩
    rcases hrow with h | ⟨h, rfl⟩
    · exact .inl h
    · rw [List.length_nil] at hl
      exact .inr ⟨h, by omega⟩

/-- **The decoders stay inside their record** exactly where it is whole. -/
theorem Reader.inside_iff (mem : ℕ → UInt8) :
    (∀ len : UInt32, Inside (fun rd => Schema.deserialize rd len.toNat) mem len.toNat
      ↔ Schema.Whole (window mem 0 len.toNat))
    ∧ ∀ (s : Schema) (len : UInt16), Inside (fun rd => deserializeRow s rd len.toNat) mem len.toNat
      ↔ WholeFields s.cols (window mem 0 len.toNat) :=
  ⟨fun _ => Schema.inside_deserialize,
    fun _ len => inside_deserializeFields (Nat.zero_le _) len.toNat_lt⟩

/-- A schema of two bytes that announces a column, and a record of one byte
for a text, are read past their end. -/
theorem Reader.not_inside :
    ¬ Inside (fun rd => Schema.deserialize rd 2) (fun _ => 1) 2
      ∧ ¬ Inside (fun rd => deserializeRow ⟨[116], [⟨[97], .text, 1⟩]⟩ rd 1) (fun _ => 255) 1 := by
  refine ⟨?_, ?_⟩
  · rintro ⟨s, h⟩
    exact absurd h (show (.error .outOfBounds : Except Fault Schema) ≠ .ok s from nofun)
  · rintro ⟨row, h⟩
    exact absurd h (show (.error .outOfBounds : Except Fault Row) ≠ .ok row from nofun)

/-! ## The round trip -/

/-- **The same field**: the same type, and the same integer or the same
text. -/
def Value.SameField (v w : Value) : Prop :=
  v.type = w.type ∧ if v.type = .int then v.intVal = w.intVal else v.strVal = w.strVal

/-- What a column stores of a value of its type is the same field. -/
theorem Value.sameField_columnValue {c : Column} {v : Value} (h : v.type = c.type) :
    (Schema.columnValue c v).SameField v := by
  unfold Schema.columnValue
  split
  · next hc => exact ⟨h.symm, by rw [if_pos hc]⟩
  · next hc => exact ⟨h.symm, by rw [if_neg hc]⟩

/-- The column values of a row typed by the columns are its fields. -/
theorem forall₂_columnValues : ∀ (cs : List Column) (row : Row), row.length ≤ cs.length →
    row.map Value.type = (cs.map Column.type).take row.length →
    List.Forall₂ Value.SameField (List.zipWith Schema.columnValue cs row) row
  | cs, [], _, _ => by
    rw [List.zipWith_nil_right]
    exact .nil
  | [], v :: row, hrow, _ => by simp at hrow
  | c :: cs, v :: row, hrow, htype => by
    rw [List.map_cons, List.map_cons, List.length_cons, List.take_succ_cons,
      List.cons.injEq] at htype
    exact .cons (Value.sameField_columnValue htype.1)
      (forall₂_columnValues cs row (Nat.le_of_succ_le_succ hrow) htype.2)

/-- **A row is read back from what was written**, short rows included and
whatever follows the record. -/
theorem deserializeRow_roundTrip (s : Schema) (row : Row) (rest : ByteString)
    (hrow : row.length ≤ s.cols.length)
    (htype : row.map Value.type = (s.cols.map Column.type).take row.length)
    (hlen : (serializeRow s row).length ≤ 65535) :
    ∃ row', deserializeRow s (ofBytes (serializeRow s row ++ rest)) (serializeRow s row).length
        = .ok row'
      ∧ List.Forall₂ Value.SameField row' row :=
  ⟨s.columnValues row, deserializeRow_serializeRow hrow (by omega) (reads_ofBytes _ _),
    forall₂_columnValues s.cols row hrow htype⟩

/-- A table of numbers and texts. -/
def mixed : Schema :=
  ⟨ascii "t", [⟨ascii "a", .int, 4⟩, ⟨ascii "b", .text, 255⟩, ⟨ascii "c", .text, 255⟩,
    ⟨ascii "d", .int, 4⟩]⟩

/-- Three values for four columns, a negative number, a text and the empty one,
in front of a byte of another record. -/
def mixedRow : Row := [.makeInt ⟨-2, by decide⟩, .makeText (ascii "it's"), .makeText []]

theorem deserializeRow_roundTrip_mixed :
    ∃ row', deserializeRow mixed (ofBytes (serializeRow mixed mixedRow ++ [7]))
        (serializeRow mixed mixedRow).length = .ok row'
      ∧ List.Forall₂ Value.SameField row' mixedRow :=
  deserializeRow_roundTrip mixed mixedRow [7] (by decide) (by decide) (by decide)

end Rows
