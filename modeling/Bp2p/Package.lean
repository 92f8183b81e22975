import Bp2p.Lib.Files
import Bp2p.Utils

/-! # Files and packages

The file system as far as the node reads and writes it, and the packaging of
files. The archive and compression steps are parameters of `Package`, which
joins them through the file `temp`.
-/

namespace Bp2p

/-- The regular files of a node. A path names the entry of a directory that it is resolved to,
whatever dots, slashes, links to directories or bytes behind a NUL it has; entries that are links
themselves are left out, and every entry can be opened. -/
abbrev FileStore := Files Bytes Bytes Bytes

namespace FileStore

/-- `Utils::doesFileExist`. -/
def doesFileExist (files : FileStore) (path : Bytes) : Bool := (files path).isSome

/-- `Utils::filesize`; the stream position of a file that cannot be opened is `-1`. -/
def filesize (files : FileStore) (path : Bytes) : UInt64 :=
  match files path with
  | some content => UInt64.ofNat content.length
  | none => -1

end FileStore

/-- The archive and compression steps: what `Archiver::archive` leaves in its file,
what `Ezlib::compress` and `Ezlib::decompress` return and leave in theirs (`none`
for a file they did not open) when it is another one than they read, and the files
`Archiver::extract` writes (`none` when it exits the process). -/
structure PackageTools where
  archive : FileStore → List Bytes → Option Bytes
  compress : Option Bytes → Int32 × Option Bytes
  decompress : Option Bytes → Int32 × Option Bytes
  extract : Option Bytes → FileStore → Option FileStore

/-- Steps that open no file. -/
def PackageTools.idle : PackageTools where
  archive _ _ := none
  compress _ := (-1, none)
  decompress _ := (-1, none)
  extract _ files := some files

namespace Package

/-- The name of the temporary file. -/
def tempName : Bytes := ascii ['t', 'e', 'm', 'p']

/-- Leave the content a step produced in its file. -/
def leave (files : FileStore) (path : Bytes) : Option Bytes → FileStore
  | some content => files.write path content
  | none => files

@[simp] theorem leave_fileOf (files : FileStore) (path : Bytes) (content : Option Bytes) :
    (leave files path content).fileOf = files.fileOf := by
  cases content with
  | some content => rfl
  | none => rfl

/-- What is left at a path is there under every path of the file. -/
theorem leave_of_eq {path other : Bytes} (files : FileStore)
    (same : files.fileOf other = files.fileOf path) (content : Option Bytes) :
    leave files path content other = content.or (files other) := by
  cases content with
  | some content => exact files.write_of_eq same content
  | none => rfl

theorem leave_self (files : FileStore) (path : Bytes) (content : Option Bytes) :
    leave files path content path = content.or (files path) :=
  leave_of_eq files rfl content

/-- Other files stay when one is left. -/
theorem leave_of_ne {path other : Bytes} (files : FileStore)
    (different : files.fileOf other ≠ files.fileOf path) (content : Option Bytes) :
    leave files path content other = files other := by
  cases content with
  | some content => exact files.write_of_ne different content
  | none => rfl

/-- `Package::package`. -/
def package (tools : PackageTools) (name : Bytes) (filenames : List Bytes) (files : FileStore) :
    FileStore × Int32 :=
  if filenames.all files.doesFileExist then
    let files := leave files tempName (tools.archive files filenames)
    let (ret, dest) := tools.compress (files tempName)
    let files := leave files name dest
    (files.remove tempName, ret)
  else (files, -1)

/-- `Package::unpackage`. -/
def unpackage (tools : PackageTools) (name : Bytes) (files : FileStore) :
    Option (FileStore × Int32) :=
  let (ret, dest) := tools.decompress (files name)
  let files := leave files tempName dest
  match tools.extract (files tempName) files with
  | some files => some (files.remove tempName, ret)
  | none => none

end Package

end Bp2p
