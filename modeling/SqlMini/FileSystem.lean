import SqlMini.Engine

/-!
# Names and files

`open_table` opens the path of a name, which is the name with `.db` behind it. A
path leads to a file, and two paths may lead to the same one (`t.db` and
`./t.db`); others lead to none, as there is no such directory, the name is too
long, or the process has no descriptor left (`FileSystem`).

The names of tables have files of their own where each of them opens, and no two
lead to one file (`FileSystem.Separates`). Such names have no more to do with
the file system: what it has on them is files by name (`FileSystem.view`).
-/

/-- **A file system**: the file that each path leads to, whenever a stream opens
it. A file that opens keeps what is written to it until the stream is closed. -/
structure FileSystem where
  /-- The file of a path, if the stream opens. -/
  file : ByteString → Option ByteString

namespace FileSystem

variable {fs : FileSystem} {S T : ByteString → Prop} {name file : ByteString}
  {files : ByteString → PageFile}

/-- The file of a table. -/
def dbFile (fs : FileSystem) (name : ByteString) : Option ByteString :=
  fs.file (name ++ ascii ".db")

/-- **The names in `S` have files of their own.** -/
structure Separates (fs : FileSystem) (S : ByteString → Prop) : Prop where
  /-- Each name opens. -/
  opens : ∀ name, S name → ∃ file, fs.dbFile name = some file
  /-- A file is that of one name. -/
  apart : ∀ name other file, S name → S other → fs.dbFile name = some file →
    fs.dbFile other = some file → name = other

theorem Separates.mono (h : fs.Separates S) (hST : ∀ name, T name → S name) : fs.Separates T :=
  ⟨fun name hT => h.opens name (hST name hT),
    fun name other file hT hT' => h.apart name other file (hST name hT) (hST other hT')⟩

open Classical in
/-- **The files of the names in `S`**, by their paths. -/
noncomputable def view (fs : FileSystem) (S : ByteString → Prop) (files : ByteString → PageFile)
    (path : ByteString) : PageFile :=
  if ∃ name, S name ∧ path = name ++ ascii ".db" then ((fs.file path).map files).getD .empty
  else .empty

/-- The file of a name in `S`. -/
theorem view_of_mem (hS : S name) (hfile : fs.dbFile name = some file) :
    fs.view S files (name ++ ascii ".db") = files file := by
  unfold view
  rw [if_pos ⟨name, hS, rfl⟩, show fs.file (name ++ ascii ".db") = some file from hfile]
  rfl

/-- Another name has no file. -/
theorem view_of_notMem (hS : ¬ S name) : fs.view S files (name ++ ascii ".db") = .empty := by
  unfold view
  refine if_neg ?_
  rintro ⟨other, hother, heq⟩
  exact hS (List.append_cancel_right heq ▸ hother)

/-- **The file of a name is replaced**, -/
theorem view_update_self (hS : S name) (hfile : fs.dbFile name = some file) (f : PageFile) :
    fs.view S (Function.update files file f) (name ++ ascii ".db") = f := by
  rw [view_of_mem hS hfile, Function.update_self]

/-- and those of other names are not. -/
theorem view_update_of_ne {other : ByteString} (hsep : fs.Separates S) (hS : S name)
    (hfile : fs.dbFile name = some file) (hne : other ≠ name) (f : PageFile) :
    fs.view S (Function.update files file f) (other ++ ascii ".db")
      = fs.view S files (other ++ ascii ".db") := by
  by_cases hother : S other
  · obtain ⟨file', hfile'⟩ := hsep.opens other hother
    have hfiles : file' ≠ file := by
      rintro rfl
      exact hne (hsep.apart _ _ _ hother hS hfile' hfile)
    rw [view_of_mem hother hfile', view_of_mem hother hfile', Function.update_of_ne hfiles]
  · rw [view_of_notMem hother, view_of_notMem hother]

/-- A directory without files. -/
theorem view_empty : fs.view S (fun _ => .empty) = fun _ => .empty := by
  funext path
  unfold view
  split
  · cases fs.file path <;> rfl
  · rfl

/-! ## A directory -/

/-- **One directory** and no other: a path is the name of a file in it, perhaps
with `./` before it. -/
def oneDirectory : FileSystem where
  file path :=
    let base := if (ascii "./").isPrefixOf path then path.drop 2 else path
    if base.contains 47 then none else some base

/-- **Names without slashes** have files of their own. -/
theorem separates_oneDirectory : oneDirectory.Separates (fun name => name.contains 47 = false) := by
  have hfile : ∀ name : ByteString, name.contains 47 = false →
      oneDirectory.dbFile name = some (name ++ ascii ".db") := by
    intro name hname
    have hslash : (name ++ ascii ".db").contains 47 = false := by
      rw [List.contains_eq_any_beq] at hname ⊢
      rw [List.any_append, hname]
      rfl
    have hplain : ¬ (ascii "./").isPrefixOf (name ++ ascii ".db") = true := by
      intro hprefix
      obtain ⟨rest, hrest⟩ := List.isPrefixOf_iff_prefix.mp hprefix
      rw [← hrest] at hslash
      cases hslash
    unfold dbFile oneDirectory
    simp only
    rw [if_neg hplain, if_neg (by rw [hslash]; exact Bool.false_ne_true)]
  refine ⟨fun name hS => ⟨_, hfile name hS⟩, fun name other file hS hS' h h' => ?_⟩
  rw [hfile name hS] at h
  rw [hfile other hS'] at h'
  exact List.append_cancel_right ((Option.some.inj h).trans (Option.some.inj h').symm)

/-- Another name for a file, and a name without one. -/
example : oneDirectory.dbFile (ascii "./t") = oneDirectory.dbFile (ascii "t")
    ∧ oneDirectory.dbFile (ascii "no/dir") = none := by decide

end FileSystem
