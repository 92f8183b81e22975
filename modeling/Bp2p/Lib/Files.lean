import Mathlib.Logic.Function.Basic

/-! # Files that are reached by paths

Different paths may name one file: dots, repeated slashes, a link to a directory. A store of files
says which file a path names and what the files have. Writing and removing change the file that a
path names for every path that names it, and no path is redirected. What a program does to a path
spares another one exactly if they name different files (`Files.Keeps`).
-/

/-- Which file a path names, and the content of every file there is. -/
structure Files (Path File Content : Type) where
  fileOf : Path → File
  content : File → Option Content

namespace Files

variable {Path File Content : Type}

/-- What is read at a path. -/
def read (files : Files Path File Content) (path : Path) : Option Content :=
  files.content (files.fileOf path)

instance : CoeFun (Files Path File Content) fun _ => Path → Option Content := ⟨read⟩

/-- A store without files in which no two paths are one. -/
def empty : Files Path Path Content where
  fileOf := id
  content _ := none

variable [DecidableEq File]

/-- Write a content to the file a path names. -/
def write (files : Files Path File Content) (path : Path) (content : Content) :
    Files Path File Content :=
  { files with content := Function.update files.content (files.fileOf path) (some content) }

/-- Remove the file a path names. -/
def remove (files : Files Path File Content) (path : Path) : Files Path File Content :=
  { files with content := Function.update files.content (files.fileOf path) none }

/-- A path has the file it had, and no path is redirected. -/
structure Keeps (files after : Files Path File Content) (path : Path) : Prop where
  fileOf : after.fileOf = files.fileOf
  read : after path = files path

section Operations

variable (files : Files Path File Content) {path other : Path}

@[simp] theorem write_fileOf (path : Path) (content : Content) :
    (files.write path content).fileOf = files.fileOf := rfl

@[simp] theorem remove_fileOf (path : Path) : (files.remove path).fileOf = files.fileOf := rfl

@[simp] theorem write_of_eq (same : files.fileOf other = files.fileOf path) (content : Content) :
    files.write path content other = some content := by
  simp only [read, write, same, Function.update_self]

@[simp] theorem write_self (path : Path) (content : Content) :
    files.write path content path = some content :=
  files.write_of_eq rfl content

@[simp] theorem write_of_ne (different : files.fileOf other ≠ files.fileOf path)
    (content : Content) : files.write path content other = files other :=
  Function.update_of_ne different ..

@[simp] theorem remove_of_eq (same : files.fileOf other = files.fileOf path) :
    files.remove path other = none := by
  simp only [read, remove, same, Function.update_self]

@[simp] theorem remove_self (path : Path) : files.remove path path = none :=
  files.remove_of_eq rfl

@[simp] theorem remove_of_ne (different : files.fileOf other ≠ files.fileOf path) :
    files.remove path other = files other :=
  Function.update_of_ne different ..

/-- The last one of two writes counts. -/
theorem write_write (path : Path) (first second : Content) :
    (files.write path first).write path second = files.write path second := by
  simp only [write, Function.update_idem]

theorem remove_write (path : Path) (content : Content) :
    (files.write path content).remove path = files.remove path := by
  simp only [write, remove, Function.update_idem]

/-- Writes to different files commute. -/
theorem write_comm (different : files.fileOf other ≠ files.fileOf path) (first second : Content) :
    (files.write path first).write other second = (files.write other second).write path first := by
  simp only [write, Function.update_comm different.symm]

/-- Writing what is there already. -/
theorem write_read {content : Content} (stored : files path = some content) :
    files.write path content = files := by
  obtain ⟨fileOf, contents⟩ := files
  rw [write, ← stored]
  exact congrArg (Files.mk fileOf) (Function.update_eq_self ..)

end Operations

namespace Keeps

variable {files middle after : Files Path File Content} {path other : Path}

omit [DecidableEq File] in
theorem refl (files : Files Path File Content) (path : Path) : files.Keeps files path := ⟨rfl, rfl⟩

omit [DecidableEq File] in
theorem of_eq (same : after = files) : files.Keeps after path :=
  same ▸ .refl ..

omit [DecidableEq File] in
theorem trans (first : files.Keeps middle path) (second : middle.Keeps after path) :
    files.Keeps after path :=
  ⟨second.fileOf.trans first.fileOf, second.read.trans first.read⟩

theorem write (different : files.fileOf path ≠ files.fileOf other) (content : Content) :
    files.Keeps (files.write other content) path :=
  ⟨rfl, files.write_of_ne different content⟩

theorem remove (different : files.fileOf path ≠ files.fileOf other) :
    files.Keeps (files.remove other) path :=
  ⟨rfl, files.remove_of_ne different⟩

end Keeps

end Files
