import Bp2p.Lib.Files

/-! # Streaming archives

A library that writes an archive member by member, reads one block by block and restores its
members on a disk. A member is written by a header that gives its size and by pieces that add up
to it (`Archives.Writes`); the archive is read back as the same members, each in blocks that
follow one another (`Archives.Yields`). On the disk a header opens the file of a member, the
blocks fill it and the last call closes it (`Archives.Restores`).
-/

/-- What a call returns; what is below `ok` is a failure, and below `warn` a fatal one. -/
abbrev Archives.Ret := Int32

namespace Archives

/-- `ARCHIVE_OK`. -/
def ok : Ret := 0

/-- `ARCHIVE_EOF`. -/
def eof : Ret := 1

/-- `ARCHIVE_WARN`. -/
def warn : Ret := -20

/-- The header of a member. -/
structure Entry (α : Type) where
  pathname : List α
  size : Nat

/-- A file in an archive. -/
structure Member (α : Type) where
  pathname : List α
  content : List α

/-- The header of a member: its path name and its size. -/
def Member.entry {α : Type} (member : Member α) : Entry α where
  pathname := member.pathname
  size := member.content.length

/-- The files on a disk. -/
abbrev Store (α : Type) := Files (List α) (List α) (List α)

end Archives

/-- The calls of the library: an archive that is written, one that is read, which `readOpen`
opens if there is one, and a disk that is written, with the files on it. -/
structure Archives (α : Type) where
  Writer : Type
  Reader : Type
  Disk : Type
  create : Writer
  writeHeader : Writer → Archives.Entry α → Writer
  writeData : Writer → List α → Writer
  close : Writer → List α
  readOpen : Option (List α) → Archives.Ret × Reader
  nextHeader : Reader → Archives.Ret × Archives.Entry α × Reader
  readDataBlock : Reader → Archives.Ret × (List α × Nat) × Reader
  diskNew : Disk
  diskHeader : Disk × Archives.Store α → Archives.Entry α → Archives.Ret × Disk × Archives.Store α
  diskDataBlock : Disk × Archives.Store α → List α → Nat → Archives.Ret × Disk × Archives.Store α
  finishEntry : Disk × Archives.Store α → Archives.Ret × Disk × Archives.Store α

namespace Archives

variable {α : Type} (lib : Archives α)

/-- The archives that are written with these members, of the last of which so many elements are
missing. -/
inductive Writes : lib.Writer → List (Member α) → Nat → Prop
  | create : Writes lib.create [] 0
  | header {writer : lib.Writer} {members : List (Member α)} (before : Writes writer members 0)
      (entry : Entry α) :
      Writes (lib.writeHeader writer entry) (members ++ [⟨entry.pathname, []⟩]) entry.size
  | data {writer : lib.Writer} {members : List (Member α)} {pathname content piece : List α}
      {missing : Nat}
      (before : Writes writer (members ++ [⟨pathname, content⟩]) (piece.length + missing)) :
      Writes (lib.writeData writer piece) (members ++ [⟨pathname, content ++ piece⟩]) missing

/-- A reader delivers a content from an offset on, block by block, and is behind it then. -/
inductive Delivers : lib.Reader → Nat → List α → lib.Reader → Prop
  | last {reader after : lib.Reader} {offset : Nat} {nothing : List α × Nat}
      (ended : lib.readDataBlock reader = (eof, nothing, after)) : Delivers reader offset [] after
  | block {reader next after : lib.Reader} {offset : Nat} {block rest : List α}
      (read : lib.readDataBlock reader = (ok, (block, offset), next))
      (later : Delivers next (offset + block.length) rest after) :
      Delivers reader offset (block ++ rest) after

/-- A reader yields the members in order; the blocks of an empty one need not be read. -/
inductive Yields : lib.Reader → List (Member α) → Prop
  | last {reader after : lib.Reader} {nothing : Entry α}
      (ended : lib.nextHeader reader = (eof, nothing, after)) : Yields reader []
  | empty {reader next : lib.Reader} {member : Member α} {members : List (Member α)}
      (header : lib.nextHeader reader = (ok, member.entry, next)) (nothing : member.content = [])
      (later : Yields next members) : Yields reader (member :: members)
  | filled {reader next after : lib.Reader} {member : Member α} {members : List (Member α)}
      (header : lib.nextHeader reader = (ok, member.entry, next))
      (something : member.content ≠ []) (content : Delivers lib next 0 member.content after)
      (later : Yields after members) : Yields reader (member :: members)

/-- However the members are written, the archive is opened and yields them. -/
def Keeps (members : List (Member α)) : Prop :=
  ∀ writer, lib.Writes writer members 0 →
    ∃ reader, lib.readOpen (some (lib.close writer)) = (ok, reader) ∧ lib.Yields reader members

/-- The disks that restore members: between two of them, or with the files there were before, the
member whose file is open, and what it has so far. -/
inductive Restoring : lib.Disk × Store α → Option (Store α × Member α × List α) → Prop
  | new (files : Store α) : Restoring (lib.diskNew, files) none
  | header {disk : lib.Disk} {files : Store α} (before : Restoring (disk, files) none)
      (member : Member α) :
      Restoring (lib.diskHeader (disk, files) member.entry).2 (some (files, member, []))
  | block {state : lib.Disk × Store α} {files : Store α} {member : Member α} {filled : List α}
      (before : Restoring state (some (files, member, filled))) (block : List α)
      (fits : filled.length + block.length ≤ member.content.length) :
      Restoring (lib.diskDataBlock state block filled.length).2
        (some (files, member, filled ++ block))
  | finish {state : lib.Disk × Store α} {files : Store α} {member : Member α}
      (before : Restoring state (some (files, member, member.content))) :
      Restoring (lib.finishEntry state).2 none

/-- The calls that restore a member succeed, the last one with a warning at most, and leave its
file. -/
structure Restores [DecidableEq α] (member : Member α) : Prop where
  header : ∀ {disk : lib.Disk} {files : Store α}, lib.Restoring (disk, files) none →
    (lib.diskHeader (disk, files) member.entry).1 = ok
  block : ∀ {state : lib.Disk × Store α} {files : Store α} {filled : List α},
    lib.Restoring state (some (files, member, filled)) →
    ∀ block, filled.length + block.length ≤ member.content.length →
    (lib.diskDataBlock state block filled.length).1 = ok
  finish : ∀ {state : lib.Disk × Store α} {files : Store α},
    lib.Restoring state (some (files, member, member.content)) →
    ¬ (lib.finishEntry state).1 < warn ∧
      (lib.finishEntry state).2.2 = files.write member.pathname member.content

/-- The files when the members are restored in order. -/
def restored [DecidableEq α] (members : List (Member α)) (files : Store α) : Store α :=
  members.foldl (fun files member => files.write member.pathname member.content) files

variable {lib}

section Restored

variable [DecidableEq α]

/-- A member that is closed is the first of those that are restored. -/
theorem Restores.restored_finish {member : Member α} (restores : lib.Restores member)
    {state : lib.Disk × Store α} {files : Store α}
    (full : lib.Restoring state (some (files, member, member.content)))
    (members : List (Member α)) :
    restored members (lib.finishEntry state).2.2 = restored (member :: members) files := by
  rw [(restores.finish full).2]
  rfl

/-- Restoring redirects no path. -/
theorem restored_fileOf (members : List (Member α)) (files : Store α) :
    (restored members files).fileOf = files.fileOf := by
  induction members generalizing files with
  | nil => rfl
  | cons member members ih =>
      rw [restored, List.foldl_cons, ← restored, ih]
      rfl

/-- A path that names the file of no member keeps it. -/
theorem restored_of_ne {members : List (Member α)} {path : List α} (files : Store α)
    (other : ∀ member ∈ members, files.fileOf path ≠ files.fileOf member.pathname) :
    restored members files path = files path := by
  induction members generalizing files with
  | nil => rfl
  | cons member members ih =>
      rw [List.forall_mem_cons] at other
      rw [restored, List.foldl_cons, ← restored]
      exact (ih (files.write member.pathname member.content) other.2).trans
        (files.write_of_ne other.1 _)

/-- A path has the content of the members whose file it names, when that is one. -/
theorem restored_of_eq {members : List (Member α)} {path content : List α} (files : Store α)
    (named : ∃ member ∈ members, files.fileOf member.pathname = files.fileOf path)
    (same : ∀ member ∈ members, files.fileOf member.pathname = files.fileOf path →
      member.content = content) : restored members files path = some content := by
  induction members generalizing files with
  | nil =>
      obtain ⟨_, impossible, _⟩ := named
      cases impossible
  | cons member members ih =>
      rw [List.forall_mem_cons] at same
      rw [restored, List.foldl_cons, ← restored]
      by_cases later : ∃ other ∈ members, files.fileOf other.pathname = files.fileOf path
      · exact ih (files.write member.pathname member.content) later same.2
      · have last : ∀ other ∈ members, files.fileOf path ≠ files.fileOf other.pathname :=
          fun other inside found => later ⟨other, inside, found.symm⟩
        obtain ⟨other, inside, found⟩ := named
        rw [restored_of_ne (files.write member.pathname member.content) last]
        rcases List.mem_cons.mp inside with rfl | behind
        · rw [files.write_of_eq found.symm, same.1 found]
        · exact absurd found.symm (last other behind)

end Restored

/-- A library that knows one list of members and their archive. It delivers a member as one
block, and writes a file on the disk from the offset of the block on. -/
def known [DecidableEq α] (members : List (Member α)) (text : List α) : Archives α where
  Writer := Unit
  Reader := List (Member α) × Option (List α)
  Disk := List α
  create := ()
  writeHeader _ _ := ()
  writeData _ _ := ()
  close _ := text
  readOpen archive := (if archive = some text then ok else warn, members, none)
  nextHeader
    | ([], left) => (eof, ⟨[], 0⟩, [], left)
    | (member :: members, _) => (ok, member.entry, members, some member.content)
  readDataBlock
    | (members, some content) => (ok, (content, 0), members, none)
    | (members, none) => (eof, ([], 0), members, none)
  diskNew := []
  diskHeader state entry :=
    (ok, entry.pathname, state.2.write entry.pathname [])
  diskDataBlock state block offset :=
    let filled := ((state.2 state.1).getD []).take offset
    (ok, state.1, state.2.write state.1 (filled ++ block))
  finishEntry state := (ok, state)

section Known

variable [DecidableEq α] {members : List (Member α)} {text : List α}

theorem known_delivers (later : List (Member α)) (content : List α) :
    (known members text).Delivers (later, some content) 0 content (later, none) := by
  have read : (known members text).Delivers (later, some content) 0 (content ++ [])
      (later, none) := .block rfl (.last rfl)
  rwa [List.append_nil] at read

/-- The next member of a known archive is the first one that is left. -/
theorem known_yields (later : List (Member α)) (left : Option (List α)) :
    (known members text).Yields (later, left) later := by
  induction later generalizing left with
  | nil => exact .last rfl
  | cons member later ih =>
      by_cases nothing : member.content = []
      · exact .empty rfl nothing (ih _)
      · exact .filled rfl nothing (known_delivers later member.content) (ih none)

theorem known_keeps : (known members text).Keeps members :=
  fun _ _ => ⟨_, Prod.ext (if_pos rfl) rfl, known_yields members none⟩

/-- The open file has what it was filled with. -/
theorem known_restoring {state : (known members text).Disk × Store α}
    {opened : Option (Store α × Member α × List α)}
    (reached : (known members text).Restoring state opened) :
    ∀ files member filled, opened = some (files, member, filled) →
      state = (member.pathname, files.write member.pathname filled) := by
  induction reached with
  | new files => exact fun _ _ _ same => by cases same
  | header before member =>
      rintro _ _ _ ⟨⟩
      rfl
  | finish before ih => exact fun _ _ _ same => by cases same
  | @block state files member filled before block fits ih =>
      rintro _ _ _ ⟨⟩
      obtain rfl := ih files member filled rfl
      have front : ((some filled).getD []).take filled.length = filled := List.take_length
      simp only [known, Files.write_self, Files.write_write, front]

/-- The library of known members restores each of them. -/
theorem known_restores (member : Member α) : (known members text).Restores member where
  header _ := rfl
  block _ _ _ := rfl
  finish reached := by
    rw [known_restoring reached _ _ _ rfl]
    have warned : ¬ ok < warn := by decide
    exact ⟨warned, rfl⟩

end Known

end Archives
