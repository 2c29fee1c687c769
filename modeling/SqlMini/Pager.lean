import SqlMini.ByteBuffer
import SqlMini.Integers

/-!
# Pages and the pager

A database file is a sequence of pages of `pageSize` bytes. `PageFile` is
the file as the operating system keeps it: a size and the pages below it,
everything past the end being zero – which is what `read_page` makes of a
read past the end, having cleared its buffer first, and what a hole left by
a write further out reads as.

`Pager` adds the one field the class keeps in memory, the number of pages,
a 32-bit counter set from the file size when the file is opened and raised
by `write_page`. The stream is open, and what was written through it is in the
file for all who read through it: the buffer of the stream, which the file gets
when it is closed, is not told apart from the file.
-/

/-- `PAGE_SIZE`. -/
abbrev pageSize : ℕ := 4096

/-- A page buffer. -/
abbrev Page := Buffer pageSize

namespace Page

/-- A field inside the page is read. -/
theorem fetch_ok (b : Page) {off w : ℕ} (h : off + w ≤ 4096) :
    b.fetch off w = .ok (b.readLE off w) := b.fetch_eq_ok h

/-- A field inside the page is stored. -/
theorem poke_ok (b : Page) {off w : ℕ} (v : ℕ) (h : off + w ≤ 4096) :
    b.poke off w v = .ok (b.writeLE off w v) := b.poke_eq_ok v h

/-- Bytes that fit inside the page are copied. -/
theorem copyIn_ok (b : Page) {off : ℕ} {bs : List UInt8} (h : off + bs.length ≤ 4096) :
    b.copyIn off bs = .ok (b.blit off bs) := b.copyIn_eq_ok h

/-- A stored 16-bit field is read back. -/
theorem readLE_writeLE_two (b : Page) {off v : ℕ} (h : off + 2 ≤ 4096) (hv : v < 65536) :
    (b.writeLE off 2 v).readLE off 2 = v := by
  rw [b.readLE_writeLE_same v h]
  exact Nat.mod_eq_of_lt hv

/-- A stored 32-bit field is read back. -/
theorem readLE_writeLE_four (b : Page) {off v : ℕ} (h : off + 4 ≤ 4096)
    (hv : v < 4294967296) : (b.writeLE off 4 v).readLE off 4 = v := by
  rw [b.readLE_writeLE_same v h]
  exact Nat.mod_eq_of_lt hv

end Page

/-- **A file of whole pages**, zero past its end. -/
structure PageFile where
  /-- How many pages the file holds. -/
  size : ℕ
  /-- The page at each number. -/
  content : ℕ → Page
  /-- Nothing is stored past the end. -/
  zero_past_end : ∀ p, size ≤ p → content p = Buffer.zero pageSize

namespace PageFile

/-- The file just created by opening a name that does not exist. -/
def empty : PageFile := ⟨0, fun _ => Buffer.zero pageSize, fun _ _ => rfl⟩

/-- The file after a page was written to it: it grows to hold the page, and
the pages between the old end and the new one are a hole of zeros. -/
def write (f : PageFile) (p : ℕ) (buf : Page) : PageFile where
  size := max f.size (p + 1)
  content := Function.update f.content p buf
  zero_past_end := by
    intro q hq
    have hne : q ≠ p := by omega
    rw [Function.update_of_ne hne]
    exact f.zero_past_end q (by omega)

@[simp] theorem content_write_same (f : PageFile) (p : ℕ) (buf : Page) :
    (f.write p buf).content p = buf := by
  simp [write]

theorem content_write_of_ne (f : PageFile) {p q : ℕ} (buf : Page) (h : q ≠ p) :
    (f.write p buf).content q = f.content q := by
  simp [write, h]

end PageFile

/-- **The pager**: an open file and the page count kept in memory. -/
structure Pager where
  /-- The file. -/
  file : PageFile
  /-- `num_pages`. -/
  numPages : ℕ

namespace Pager

/-- `Pager::Pager`, where the stream opens: the page count is read off the file
size. -/
def «open» (f : PageFile) : Pager := ⟨f, f.size % uint32Size⟩

/-- `read_page`. -/
def readPage (pg : Pager) (p : ℕ) : Page := pg.file.content p

/-- `write_page`. What the stream has is taken for what the file has. -/
def writePage (pg : Pager) (p : ℕ) (buf : Page) : Pager :=
  ⟨pg.file.write p buf,
    if pg.numPages ≤ p then (p + 1) % uint32Size else pg.numPages⟩

end Pager
