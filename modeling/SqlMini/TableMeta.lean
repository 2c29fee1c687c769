import SqlMini.TableRuns

/-!
# The metadata of a table

The metadata page holds the next rowid, the heap cursor and the schema, the
length of its encoding in front. `write_meta` and `read_meta` are inverse on
the two numbers, and on the columns if their counts are bytes
(`storedSchema_metaPage`): the encoding gives one byte to the number of
columns and one to the length of each name.

Whatever is read fits the page it was read from (`fits_of_storedSchema`), so
it can be written there again.
-/

namespace Table

open PageProg

/-- The schema stored in a metadata page. -/
def storedSchema (page : Page) : Except Fault Schema :=
  if 0 < page.readLE 8 4 then Schema.deserialize (pageReader page 12) (page.readLE 8 4)
  else .ok default

/-- **The counts of a schema are bytes**: the number of its columns and the
length of each name. -/
def ByteCounts (cols : List Column) : Prop :=
  cols.length ≤ 255 ∧ ∀ c ∈ cols, c.name.length ≤ 255

instance (cols : List Column) : Decidable (ByteCounts cols) := inferInstanceAs (Decidable (_ ∧ _))

/-- The columns read are at most as many as announced, and their names are
short. -/
theorem short_of_deserializeCols {rd : Reader} {len : ℕ} : ∀ (n pos : ℕ) (cols : List Column),
    Schema.deserializeCols rd len n pos = .ok cols →
      cols.length ≤ n ∧ ∀ c ∈ cols, c.name.length ≤ 255
  | 0, _, cols, h => by
    rw [← Except.ok.inj h]
    exact ⟨le_rfl, nofun⟩
  | n + 1, pos, cols, h => by
    rw [Schema.deserializeCols] at h
    split at h
    · rw [← Except.ok.inj h]
      exact ⟨Nat.zero_le _, nofun⟩
    obtain ⟨type, -, h⟩ := Except.bind_eq_ok.mp h
    obtain ⟨maxLen, -, h⟩ := Except.bind_eq_ok.mp h
    obtain ⟨nameLen, -, h⟩ := Except.bind_eq_ok.mp h
    obtain ⟨name, hname, h⟩ := Except.bind_eq_ok.mp h
    obtain ⟨rest, hrest, h⟩ := Except.bind_eq_ok.mp h
    obtain ⟨hlen, hnames⟩ := short_of_deserializeCols n _ rest hrest
    rw [← Except.ok.inj h]
    refine ⟨Nat.succ_le_succ hlen, fun c hc => ?_⟩
    rcases List.mem_cons.mp hc with rfl | hc
    · rw [Reader.length_of_bytes hname]
      exact Nat.le_of_lt_succ nameLen.toNat_lt
    · exact hnames c hc

/-- A schema that is read has counts that are bytes. -/
theorem byteCounts_of_storedSchema {page : Page} {schema : Schema}
    (h : storedSchema page = .ok schema) : ByteCounts schema.cols := by
  unfold storedSchema at h
  split at h
  · unfold Schema.deserialize at h
    split at h
    · rw [← Except.ok.inj h]
      exact ⟨Nat.zero_le _, nofun⟩
    obtain ⟨n, -, h⟩ := Except.bind_eq_ok.mp h
    obtain ⟨cols, hcols, h⟩ := Except.bind_eq_ok.mp h
    obtain ⟨hlen, hnames⟩ := short_of_deserializeCols _ _ cols hcols
    rw [← Except.ok.inj h]
    exact ⟨hlen.trans (Nat.le_of_lt_succ n.toNat_lt), hnames⟩
  · rw [← Except.ok.inj h]
    exact ⟨Nat.zero_le _, nofun⟩

/-- Byte counts keep the encoding short of any wrap. -/
theorem ByteCounts.length_lt {schema : Schema} (h : ByteCounts schema.cols) :
    schema.serialize.length < 4294967296 := by
  have hsum : (schema.cols.map (fun c => 4 + c.name.length)).sum
      ≤ (schema.cols.map (fun c => 4 + c.name.length)).length • 259 := by
    refine List.sum_le_card_nsmul _ _ (fun n hn => ?_)
    obtain ⟨c, hc, rfl⟩ := List.mem_map.mp hn
    have := h.2 c hc
    omega
  rw [List.length_map, smul_eq_mul] at hsum
  have hlen := h.1
  rw [Schema.length_serialize]
  omega

/-- With byte counts the encoding that fits is at most 4084 bytes long. -/
theorem ByteCounts.fits_iff {schema : Schema} (h : ByteCounts schema.cols) :
    schema.Fits ↔ schema.serialize.length ≤ 4084 := by
  rw [Schema.Fits, Nat.mod_eq_of_lt h.length_lt]

/-- The schema bytes of a metadata page just written. -/
theorem reads_metaPage {t : Table} {buf : Page} (hfit : t.schema.Fits) :
    (pageReader (metaPage t buf) 12).Reads 0 t.schemaBytes := by
  have hlen : 12 + t.schemaBytes.length ≤ 4096 := by
    rw [length_schemaBytes]
    unfold Schema.Fits at hfit
    omega
  have hrd := reads_pageReader (metaPage t buf) hlen
  rwa [metaPage, Buffer.slice_blit_same _ hlen] at hrd

theorem readLE_metaPage {t : Table} {buf : Page} :
    (metaPage t buf).readLE 8 4 = t.schema.serialize.length % uint32Size := by
  rw [metaPage, Buffer.readLE_blit_disjoint _ (.inl (show 8 + 4 ≤ 12 from le_rfl)),
    Page.readLE_writeLE_four _ (by omega) (Nat.mod_lt _ (by decide))]

/-- The numbers of a metadata page just written. -/
theorem readLE_metaPage_nextRowid {t : Table} {buf : Page} (h : t.nextRowid < 4294967296) :
    (metaPage t buf).readLE 0 4 = t.nextRowid := by
  rw [metaPage, Buffer.readLE_blit_disjoint _ (.inl (show 0 + 4 ≤ 12 by omega)),
    Buffer.readLE_writeLE_disjoint _ _ (.inl (show 0 + 4 ≤ 8 by omega)),
    Buffer.readLE_writeLE_disjoint _ _ (.inl (show 0 + 4 ≤ 4 by omega)),
    Page.readLE_writeLE_four _ (by omega) h]

theorem readLE_metaPage_curHeapPage {t : Table} {buf : Page} (h : t.curHeapPage < 4294967296) :
    (metaPage t buf).readLE 4 4 = t.curHeapPage := by
  rw [metaPage, Buffer.readLE_blit_disjoint _ (.inl (show 4 + 4 ≤ 12 by omega)),
    Buffer.readLE_writeLE_disjoint _ _ (.inl (show 4 + 4 ≤ 8 by omega)),
    Page.readLE_writeLE_four _ (by omega) h]

/-- **A schema with byte counts that fits is stored and read back.** -/
theorem storedSchema_metaPage {t : Table} {buf : Page} (hfit : t.schema.Fits)
    (hcounts : ByteCounts t.schema.cols) :
    storedSchema (metaPage t buf) = .ok ⟨[], t.schema.cols⟩ := by
  have hlen : t.schema.serialize.length % uint32Size = t.schema.serialize.length :=
    Nat.mod_eq_of_lt hcounts.length_lt
  have hpos : 0 < t.schema.serialize.length := by
    rw [Schema.length_serialize]
    exact Nat.succ_pos _
  have hrd : (pageReader (metaPage t buf) 12).Reads 0 t.schemaBytes := reads_metaPage hfit
  rw [schemaBytes, hlen, List.take_length] at hrd
  rw [storedSchema, readLE_metaPage, hlen, if_pos hpos]
  exact Schema.deserialize_serialize (Nat.lt_succ_of_le hcounts.1)
    (fun c hc => Nat.lt_succ_of_le (hcounts.2 c hc)) hrd

/-! ## What is read fits -/

/-- The columns read are encoded in as many bytes as were read. -/
theorem le_of_deserializeCols {rd : Reader} {len N : ℕ} (hrd : rd.EndsBy N) :
    ∀ (n pos : ℕ) (cols : List Column), pos ≤ N → Schema.deserializeCols rd len n pos = .ok cols →
      pos + (cols.map (fun c => 4 + c.name.length)).sum ≤ N
  | 0, pos, cols, hpos, h => by
    rw [← Except.ok.inj h]
    exact hpos
  | n + 1, pos, cols, hpos, h => by
    rw [Schema.deserializeCols] at h
    split at h
    · rw [← Except.ok.inj h]
      exact hpos
    obtain ⟨type, -, h⟩ := Except.bind_eq_ok.mp h
    obtain ⟨maxLen, -, h⟩ := Except.bind_eq_ok.mp h
    obtain ⟨nameLen, hcount, h⟩ := Except.bind_eq_ok.mp h
    obtain ⟨name, hname, h⟩ := Except.bind_eq_ok.mp h
    obtain ⟨rest, hrest, h⟩ := Except.bind_eq_ok.mp h
    have hin := hrd.le_of_bytes hname (hrd _ _ hcount)
    have ih := le_of_deserializeCols hrd n _ rest hin hrest
    rw [← Except.ok.inj h, List.map_cons, List.sum_cons, Reader.length_of_bytes hname]
    omega

/-- **A schema that is read fits the page** it was read from. -/
theorem fits_of_storedSchema {page : Page} {schema : Schema}
    (h : storedSchema page = .ok schema) : schema.Fits := by
  have hcounts := byteCounts_of_storedSchema h
  rw [Schema.Fits, Nat.mod_eq_of_lt hcounts.length_lt, Schema.length_serialize]
  unfold storedSchema at h
  split at h
  · unfold Schema.deserialize at h
    split at h
    · rw [← Except.ok.inj h]
      decide
    obtain ⟨n, -, h⟩ := Except.bind_eq_ok.mp h
    obtain ⟨cols, hcols, h⟩ := Except.bind_eq_ok.mp h
    have hle := le_of_deserializeCols (endsBy_pageReader page 12) _ _ cols (by omega) hcols
    rw [← Except.ok.inj h]
    show (cols.map (fun c => 4 + c.name.length)).sum + 1 ≤ 4084
    omega
  · rw [← Except.ok.inj h]
    decide

/-- **`read_meta`.** -/
theorem runs_readMeta {s : Store} {Q : Table → Store → Prop} : Runs readMeta s Q
    ↔ ∃ schema, storedSchema (s.pages schemaPageId) = .ok schema
      ∧ Q ⟨schema, (s.pages schemaPageId).readLE 0 4, (s.pages schemaPageId).readLE 4 4⟩
        (s.touch schemaPageId) := by
  unfold readMeta
  simp only [runs_bind, runs_getPage, runs_load, runs_lift, runs_pure]
  rfl

end Table
