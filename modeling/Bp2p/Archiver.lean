import Bp2p.Compress
import Bp2p.Lib.Archives
import Mathlib.Data.List.TakeWhile

/-! # Archives and packages

`Archiver` writes files into an archive and restores them from it, over a library of archives.
With `Ezlib` behind it these are the steps of a package (`Bp2p.Package.tools`), run on the node's
own files. Files that were packaged are restored from the package, wherever it was brought, and
nothing else is touched (`Bp2p.Package.unpackage_package`), if the files open and can be written.
-/

namespace Bp2p

namespace Ezlib

/-- The ending of a compressed file that is given no other name. -/
def ext : Bytes := ascii ['.', 'e', 'z']

/-- The constants of the compression library. -/
def retCode : Codec.Ret → Int32
  | .ok => 0
  | .streamEnd => 1
  | .needDict => 2
  | .errno => -1
  | .streamError => -2
  | .dataError => -3
  | .memError => -4
  | .bufError => -5
  | .versionError => -6

end Ezlib

/-- A tar archive by its name, and the files it is made of. -/
structure Archiver where
  name : Bytes
  filenames : List Bytes := []

namespace Archiver

/-- The size of the buffer of `archive`. -/
def buffSize : Nat := 8192

variable (lib : Archives UInt8)

/-- The inner loop of `archive`, on a stream that was opened. -/
def dataLoop (a : lib.Writer) (ifs : InputStream) : lib.Writer :=
  if ifs.eof then a
  else dataLoop (lib.writeData a (ifs.read buffSize).1) (ifs.read buffSize).2
termination_by if ifs.eof then 0 else ifs.rest.length + 1
decreasing_by
  next more =>
    simp only [InputStream.read, more, Bool.false_eq_true, ↓reduceIte, decide_eq_true_eq,
      List.length_drop]
    unfold buffSize
    split
    · omega
    · omega

/-- The outer loop of `archive`, with the size `stat` left last: it leaves it as it was if there
is no file. A stream that was not opened has failed. -/
def archiveLoop (files : FileStore) : List Bytes → Nat → lib.Writer → lib.Writer
  | [], _, a => a
  | filename :: filenames, st, a =>
      let file := files (cString filename)
      let st := (file.map List.length).getD st
      let a := lib.writeHeader a { pathname := cString filename, size := st }
      let a :=
        match file with
        | some content => dataLoop lib a { rest := content }
        | none => a
      archiveLoop files filenames st a

/-- `archive()`, with the size that is in the buffer of `stat` before it is filled. -/
def archive (st : Nat) (archiver : Archiver) (files : FileStore) : FileStore × Int32 :=
  if archiver.name.isEmpty || archiver.filenames.isEmpty then (files, 0)
  else
    -- opening the archive empties it
    let files := files.write archiver.name []
    let a := archiveLoop lib files archiver.filenames st lib.create
    (files.write archiver.name (lib.close a), 0)

/-- `copyArchive`: `none` if the blocks did not end. -/
def copyArchive : Nat → lib.Reader → lib.Disk × FileStore →
    Option (Archives.Ret × lib.Reader × lib.Disk × FileStore)
  | 0, _, _ => none
  | rounds + 1, ar, aw =>
      let (r, (buff, offset), ar) := lib.readDataBlock ar
      if r = Archives.eof then some (Archives.ok, ar, aw)
      else if r < Archives.ok then some (r, ar, aw)
      else
        let (r, aw) := lib.diskDataBlock aw buff offset
        if r < Archives.ok then some (r, ar, aw)
        else copyArchive rounds ar aw

/-- The middle of the loop of `extract`, with what writing the header returned: `none` if the
process exits. -/
def copyEntry (rounds : Nat) (r : Archives.Ret) (entry : Archives.Entry UInt8) (a : lib.Reader)
    (ext : lib.Disk × FileStore) : Option (lib.Reader × lib.Disk × FileStore) :=
  if r < Archives.ok then some (a, ext)
  else if 0 < entry.size then
    match copyArchive lib rounds a ext with
    | some (r, a, ext) => if r < Archives.warn then none else some (a, ext)
    | none => none
  else some (a, ext)

/-- The loop of `extract`. -/
def extractLoop (rounds : Nat) : Nat → lib.Reader → lib.Disk × FileStore →
    Option (lib.Disk × FileStore)
  | 0, _, _ => none
  | entries + 1, a, ext =>
      let (r, entry, a) := lib.nextHeader a
      if r = Archives.eof then some ext
      else if r < Archives.warn then none
      else
        let (r, ext) := lib.diskHeader ext entry
        match copyEntry lib rounds r entry a ext with
        | none => none
        | some (a, ext) =>
            let (r, ext) := lib.finishEntry ext
            if r < Archives.warn then none else extractLoop rounds entries a ext

/-- `extract()`: `none` if the process exits, or a loop goes on for more than `rounds` turns. -/
def extract (rounds : Nat) (archiver : Archiver) (files : FileStore) : Option FileStore :=
  let (r, a) := lib.readOpen (files archiver.name)
  if r ≠ 0 then none
  else (extractLoop lib rounds rounds a (lib.diskNew, files)).map Prod.snd

variable {lib}

/-- The pieces of a file add up to it. -/
theorem dataLoop_spec {a : lib.Writer} {members : List (Archives.Member UInt8)}
    {pathname content rest : Bytes}
    (before : lib.Writes a (members ++ [⟨pathname, content⟩]) rest.length) :
    lib.Writes (dataLoop lib a { rest }) (members ++ [⟨pathname, content ++ rest⟩]) 0 := by
  induction length : rest.length using Nat.strong_induction_on generalizing a content rest with
  | _ count ih =>
      have parts : rest.length = (rest.take buffSize).length + (rest.drop buffSize).length := by
        rw [← List.length_append, List.take_append_drop]
      rw [parts] at before
      have next := before.data
      rw [dataLoop, if_neg Bool.false_ne_true]
      simp only [InputStream.read, Bool.false_eq_true, ↓reduceIte]
      by_cases short : rest.length < buffSize
      · -- the read that finds the end
        rw [List.drop_eq_nil_of_le (Nat.le_of_lt short), List.length_nil,
          List.take_of_length_le (Nat.le_of_lt short)] at next
        rw [dataLoop, if_pos (decide_eq_true short),
          List.take_of_length_le (Nat.le_of_lt short)]
        exact next
      · have less : (rest.drop buffSize).length < count := by
          rw [List.length_drop]
          have roomy : 0 < buffSize := by decide
          omega
        have later := ih _ less next rfl
        rw [List.append_assoc, List.take_append_drop] at later
        rw [decide_eq_false short]
        exact later

/-- What an archive of these files has. -/
def members (files : FileStore) (filenames : List Bytes) : List (Archives.Member UInt8) :=
  filenames.map fun filename => ⟨filename, (files filename).getD []⟩

/-- A path that names a file, as the system reads it. -/
def Archivable (files : FileStore) (filename : Bytes) : Prop :=
  0 ∉ filename ∧ files.doesFileExist filename = true

theorem cString_eq_self {path : Bytes} (clean : 0 ∉ path) : cString path = path := by
  rw [cString, List.takeWhile_eq_self_iff]
  intro byte inside
  rw [bne_iff_ne]
  exact fun zero => clean (zero ▸ inside)

/-- The files are written one behind the other, each with its size. -/
theorem archiveLoop_spec {files : FileStore} {filenames : List Bytes}
    (archivable : ∀ filename ∈ filenames, Archivable files filename) (st : Nat) {a : lib.Writer}
    {done : List (Archives.Member UInt8)} (before : lib.Writes a done 0) :
    lib.Writes (archiveLoop lib files filenames st a) (done ++ members files filenames) 0 := by
  induction filenames generalizing st a done with
  | nil =>
      rw [members, List.map_nil, List.append_nil]
      exact before
  | cons filename filenames ih =>
      obtain ⟨⟨clean, present⟩, later⟩ := List.forall_mem_cons.mp archivable
      obtain ⟨content, stored⟩ := Option.isSome_iff_exists.mp present
      have next := dataLoop_spec (before.header ⟨filename, content.length⟩)
      have rest := ih later content.length next
      rw [List.nil_append, List.append_assoc] at rest
      simp only [archiveLoop, cString_eq_self clean, stored, Option.map_some, Option.getD_some]
      simp only [members, List.map_cons, stored, Option.getD_some]
      exact rest

theorem ok_ne_eof : Archives.ok ≠ Archives.eof := by decide

theorem not_ok_lt_ok : ¬ Archives.ok < Archives.ok := by decide

theorem not_ok_lt_warn : ¬ Archives.ok < Archives.warn := by decide

/-- The blocks of a member fill its file. -/
theorem copyArchive_spec {member : Archives.Member UInt8} (restores : lib.Restores member)
    {ar after : lib.Reader} {offset : Nat} {rest : Bytes}
    (delivers : lib.Delivers ar offset rest after) :
    ∃ enough, ∀ (files : FileStore) (filled : Bytes) (aw : lib.Disk × FileStore),
      offset = filled.length → filled ++ rest = member.content →
      lib.Restoring aw (some (files, member, filled)) →
      ∃ left, lib.Restoring left (some (files, member, member.content)) ∧
        ∀ rounds ≥ enough, copyArchive lib rounds ar aw = some (Archives.ok, after, left) := by
  induction delivers with
  | last ended =>
      refine ⟨1, fun files filled aw _ whole reached => ⟨aw, ?_, fun rounds more => ?_⟩⟩
      · rw [← whole, List.append_nil]
        exact reached
      · obtain ⟨rounds, rfl⟩ := Nat.exists_eq_add_of_le' more
        simp only [copyArchive, ended, ↓reduceIte]
  | @block _ _ _ _ block rest read later ih =>
      obtain ⟨enough, copies⟩ := ih
      refine ⟨enough + 1, fun files filled aw behind whole reached => ?_⟩
      subst behind
      rw [← List.append_assoc] at whole
      have fits : filled.length + block.length ≤ member.content.length := by
        rw [← whole, List.length_append, List.length_append]
        exact Nat.le_add_right ..
      have stored := restores.block reached block fits
      obtain ⟨left, full, copied⟩ :=
        copies files _ _ List.length_append.symm whole (reached.block block fits)
      refine ⟨left, full, fun rounds more => ?_⟩
      obtain ⟨extra, rfl⟩ := Nat.exists_eq_add_of_le' more
      rw [← Nat.add_assoc]
      simp only [copyArchive, read, ok_ne_eof, not_ok_lt_ok, ↓reduceIte, stored]
      exact copied (extra + enough) (Nat.le_add_left ..)

/-- What is behind the header of a member that has a content. -/
theorem copyEntry_spec {member : Archives.Member UInt8} (restores : lib.Restores member)
    {next after : lib.Reader} (delivers : lib.Delivers next 0 member.content after)
    (something : member.content ≠ []) :
    ∃ enough, ∀ (files : FileStore) (ext : lib.Disk × FileStore),
      lib.Restoring ext (some (files, member, [])) →
      ∃ left, lib.Restoring left (some (files, member, member.content)) ∧
        ∀ rounds ≥ enough,
          copyEntry lib rounds Archives.ok member.entry next ext = some (after, left) := by
  obtain ⟨enough, copies⟩ := copyArchive_spec restores delivers
  refine ⟨enough, fun files ext opened => ?_⟩
  obtain ⟨left, full, copied⟩ := copies files [] ext rfl (List.nil_append _) opened
  have sized : 0 < member.entry.size := List.length_pos_iff.mpr something
  refine ⟨left, full, fun rounds more => ?_⟩
  simp only [copyEntry, not_ok_lt_ok, ↓reduceIte, sized, copied rounds more, not_ok_lt_warn]

theorem copyEntry_of_empty {entry : Archives.Entry UInt8} (empty : entry.size = 0) (rounds : Nat)
    (a : lib.Reader) (ext : lib.Disk × FileStore) :
    copyEntry lib rounds Archives.ok entry a ext = some (a, ext) := by
  simp only [copyEntry, not_ok_lt_ok, empty, Nat.lt_irrefl, ↓reduceIte]

/-- One turn of the loop of `extract`. -/
theorem extractLoop_of_entry {member : Archives.Member UInt8} (restores : lib.Restores member)
    {disk : lib.Disk} {files : FileStore} (idle : lib.Restoring (disk, files) none)
    {a next after : lib.Reader} {left : lib.Disk × FileStore} {rounds : Nat}
    (header : lib.nextHeader a = (Archives.ok, member.entry, next))
    (copied : copyEntry lib rounds Archives.ok member.entry next
      (lib.diskHeader (disk, files) member.entry).2 = some (after, left))
    (full : lib.Restoring left (some (files, member, member.content))) (entries : Nat) :
    extractLoop lib rounds (entries + 1) a (disk, files) =
      extractLoop lib rounds entries after (lib.finishEntry left).2 := by
  simp only [extractLoop, header, ok_ne_eof, not_ok_lt_warn, ↓reduceIte, restores.header idle,
    copied, (restores.finish full).1]

/-- The members an archive yields are restored in order. -/
theorem extractLoop_spec {a : lib.Reader} {members : List (Archives.Member UInt8)}
    (yields : lib.Yields a members) (restores : ∀ member ∈ members, lib.Restores member) :
    ∃ enough, ∀ (disk : lib.Disk) (files : FileStore), lib.Restoring (disk, files) none →
      ∃ last, ∀ rounds ≥ enough, ∀ entries ≥ enough,
        extractLoop lib rounds entries a (disk, files) =
          some (last, Archives.restored members files) := by
  induction yields with
  | last ended =>
      refine ⟨1, fun disk files _ => ⟨disk, fun rounds _ entries more => ?_⟩⟩
      obtain ⟨entries, rfl⟩ := Nat.exists_eq_add_of_le' more
      simp only [extractLoop, ended, ↓reduceIte]
      rfl
  | @empty _ next member _ header nothing _ ih =>
      obtain ⟨restored, others⟩ := List.forall_mem_cons.mp restores
      obtain ⟨enough, later⟩ := ih others
      refine ⟨enough + 1, fun disk files idle => ?_⟩
      have full := idle.header member
      rw [← nothing] at full
      obtain ⟨last, extracted⟩ := later _ _ full.finish
      rw [restored.restored_finish full] at extracted
      refine ⟨last, fun rounds many entries more => ?_⟩
      obtain ⟨extra, rfl⟩ := Nat.exists_eq_add_of_le' more
      have unsized : member.entry.size = 0 := List.length_eq_zero_iff.mpr nothing
      have skipped := copyEntry_of_empty unsized rounds next
        (lib.diskHeader (disk, files) member.entry).2
      rw [← Nat.add_assoc, extractLoop_of_entry restored idle header skipped full]
      exact extracted rounds (by omega) _ (by omega)
  | @filled _ _ _ member _ header something delivers _ ih =>
      obtain ⟨restored, others⟩ := List.forall_mem_cons.mp restores
      obtain ⟨blocks, copies⟩ := copyEntry_spec restored delivers something
      obtain ⟨enough, later⟩ := ih others
      refine ⟨blocks + enough + 1, fun disk files idle => ?_⟩
      obtain ⟨left, full, copied⟩ := copies files _ (idle.header member)
      obtain ⟨last, extracted⟩ := later _ _ full.finish
      rw [restored.restored_finish full] at extracted
      refine ⟨last, fun rounds many entries more => ?_⟩
      obtain ⟨extra, rfl⟩ := Nat.exists_eq_add_of_le' more
      rw [← Nat.add_assoc,
        extractLoop_of_entry restored idle header (copied rounds (by omega)) full]
      exact extracted rounds (by omega) _ (by omega)

end Archiver

namespace Package

variable (codec : Codec UInt8) (lib : Archives UInt8)

/-- A run of `Ezlib` on a store that has only its source: what it returns and leaves at its
destination. A run that does not end leaves nothing. -/
def onContent (run : Ezlib → FileStore → Option (FileStore × Codec.Ret)) (source : Option Bytes) :
    Int32 × Option Bytes :=
  let ezlib : Ezlib := { source := tempName, dest := tempName ++ Ezlib.ext }
  match run ezlib (leave .empty ezlib.source source) with
  | some (files, ret) => (Ezlib.retCode ret, files ezlib.dest)
  | none => (Ezlib.retCode .errno, none)

/-- The steps with a codec and a library of archives. The loops over them are given so many
rounds. -/
def tools (st rounds : Nat) : PackageTools where
  archive files filenames :=
    (Archiver.archive lib st { name := tempName, filenames } files).1 tempName
  compress := onContent (Ezlib.compress codec rounds)
  decompress := onContent (Ezlib.decompress codec rounds)
  extract _ files := Archiver.extract lib rounds { name := tempName } files

variable {codec lib}

/-- What a run returns and leaves at its destination depends on the content of its source
alone. -/
def Local (run : Ezlib → FileStore → Option (FileStore × Codec.Ret)) : Prop :=
  ∃ left : Option Bytes → Option (Option Bytes × Codec.Ret),
    ∀ (source dest : Bytes) (files : FileStore), files.fileOf source ≠ files.fileOf dest →
      run { source, dest } files =
        (left (files source)).map fun (content, ret) => (leave files dest content, ret)

/-- What a function of files makes of a content is what it makes of the file that has it. -/
theorem onContent_of_local {run : Ezlib → FileStore → Option (FileStore × Codec.Ret)}
    (only : Local run) {source dest : Bytes} {files after : FileStore}
    (apart : files.fileOf source ≠ files.fileOf dest) {ret : Codec.Ret}
    (ended : run { source, dest } files = some (after, ret)) :
    (onContent run (files source)).1 = Ezlib.retCode ret ∧
      leave files dest (onContent run (files source)).2 = after := by
  obtain ⟨left, runs⟩ := only
  let alone : FileStore := leave .empty tempName (files source)
  have begun : alone tempName = files source :=
    (leave_self ..).trans (Option.or_none ..)
  have other : alone.fileOf tempName ≠ alone.fileOf (tempName ++ Ezlib.ext) := by
    simp only [alone, leave_fileOf]
    decide
  rw [runs source dest files apart, Option.map_eq_some_iff] at ended
  obtain ⟨⟨content, _⟩, executed, same⟩ := ended
  cases same
  have ran := runs tempName (tempName ++ Ezlib.ext) alone other
  rw [begun, executed, Option.map_some] at ran
  have nothing : alone (tempName ++ Ezlib.ext) = none :=
    leave_of_ne .empty (show tempName ++ Ezlib.ext ≠ tempName by decide) _
  simp only [onContent, show leave Files.empty tempName (files source) = alone from rfl, ran,
    leave_self, nothing, Option.or_none, true_and]

/-- The destination is emptied when it is opened and written over then. -/
theorem leave_written (files : FileStore) (path content : Bytes) :
    (files.write path []).write path content = leave files path (some content) :=
  files.write_write ..

variable (codec) in
/-- What `compress` leaves and returns on a content. -/
def compressed (rounds : Nat) (content : Option Bytes) : Option (Option Bytes × Codec.Ret) :=
  match codec.deflateInit 9 with
  | .error ret => some (none, ret)
  | .ok strm =>
      match content with
      | some text => (Ezlib.compressLoop codec rounds rounds strm { rest := text } []).map
          fun code => (some code, .ok)
      | none => some (some [], .errno)

variable (codec) in
/-- What `decompress` leaves and returns on a content. -/
def decompressed (rounds : Nat) (content : Option Bytes) : Option (Option Bytes × Codec.Ret) :=
  match codec.inflateInit with
  | .error ret => some (none, ret)
  | .ok strm =>
      match content with
      | some code => (Ezlib.decompressLoop codec rounds rounds strm { rest := code } .ok []).map
          fun (ret, text) => (some text, ret)
      | none => some (some [], .errno)

/-- Compressing depends on its source and changes its destination. -/
theorem local_compress (rounds : Nat) : Local (Ezlib.compress codec rounds) := by
  refine ⟨compressed codec rounds, fun source dest files apart => ?_⟩
  simp only [Ezlib.compress, compressed]
  cases codec.deflateInit 9 with
  | error ret => rfl
  | ok strm =>
      cases stored : files source with
      | none =>
          simp only [FileStore.doesFileExist, stored, Option.isSome_none, Bool.false_eq_true,
            ↓reduceIte]
          rfl
      | some text =>
          simp only [FileStore.doesFileExist, stored, Option.isSome_some, ↓reduceIte,
            files.write_of_ne apart, Option.getD_some, Option.map_map, leave_written]
          rfl

/-- Decompressing depends on its source and changes its destination. -/
theorem local_decompress (rounds : Nat) : Local (Ezlib.decompress codec rounds) := by
  refine ⟨decompressed codec rounds, fun source dest files apart => ?_⟩
  simp only [Ezlib.decompress, decompressed]
  cases codec.inflateInit with
  | error ret => rfl
  | ok strm =>
      cases stored : files source with
      | none =>
          simp only [FileStore.doesFileExist, stored, Option.isSome_none, Bool.false_eq_true,
            ↓reduceIte]
          rfl
      | some code =>
          simp only [FileStore.doesFileExist, stored, Option.isSome_some, ↓reduceIte,
            files.write_of_ne apart, Option.getD_some, Option.map_map, leave_written]
          rfl

theorem leave_same (files : FileStore) (path : Bytes) : leave files path (files path) = files := by
  cases stored : files path with
  | none => rfl
  | some content => exact files.write_read stored

/-- Archiving redirects no path. -/
theorem archive_fileOf (lib : Archives UInt8) (st : Nat) (archiver : Archiver)
    (files : FileStore) : (Archiver.archive lib st archiver files).1.fileOf = files.fileOf := by
  unfold Archiver.archive
  split
  · rfl
  · rfl

/-- Archiving writes its file alone. -/
theorem leave_archive (lib : Archives UInt8) (st : Nat) (archiver : Archiver) (files : FileStore) :
    leave files archiver.name ((Archiver.archive lib st archiver files).1 archiver.name) =
      (Archiver.archive lib st archiver files).1 := by
  unfold Archiver.archive
  split
  · exact leave_same ..
  · simp only [leave_written, leave_self, Option.some_or]

/-- A package is made by the steps on the node's own files. -/
theorem package_tools {st rounds : Nat} {name : Bytes} {filenames : List Bytes}
    {files packed : FileStore} {ret : Codec.Ret} (apart : files.fileOf name ≠ files.fileOf tempName)
    (present : filenames.all files.doesFileExist = true)
    (ended : Ezlib.compress codec rounds { source := tempName, dest := name }
      (Archiver.archive lib st { name := tempName, filenames } files).1 = some (packed, ret)) :
    package (tools codec lib st rounds) name filenames files =
      (packed.remove tempName, Ezlib.retCode ret) := by
  have other : (Archiver.archive lib st { name := tempName, filenames } files).1.fileOf tempName ≠
      (Archiver.archive lib st { name := tempName, filenames } files).1.fileOf name := by
    rw [archive_fileOf]
    exact apart.symm
  obtain ⟨code, left⟩ := onContent_of_local (local_compress rounds) other ended
  have archived := leave_archive lib st { name := tempName, filenames } files
  simp only [package, present, ↓reduceIte, tools, archived, code, left]

/-- A package is opened by the steps on the node's own files. -/
theorem unpackage_tools (st : Nat) {rounds : Nat} {name : Bytes} {files opened after : FileStore}
    {ret : Codec.Ret} (apart : files.fileOf name ≠ files.fileOf tempName)
    (ended : Ezlib.decompress codec rounds { source := name, dest := tempName } files =
      some (opened, ret))
    (extracted : Archiver.extract lib rounds { name := tempName } opened = some after) :
    unpackage (tools codec lib st rounds) name files =
      some (after.remove tempName, Ezlib.retCode ret) := by
  obtain ⟨code, left⟩ := onContent_of_local (local_decompress rounds) apart ended
  simp only [unpackage, tools, code, left, extracted]

variable (codec lib) in
/-- Files that can be packaged: there are some, none of them is the temporary file, and the
archive of them is kept and restored by the library and compressed by the codec. -/
structure Packable (files : FileStore) (filenames : List Bytes) : Prop where
  nonempty : filenames ≠ []
  lasting : ∀ filename ∈ filenames, files.fileOf filename ≠ files.fileOf tempName
  archivable : ∀ filename ∈ filenames, Archiver.Archivable files filename
  keeps : lib.Keeps (Archiver.members files filenames)
  restores : ∀ member ∈ Archiver.members files filenames, lib.Restores member
  compresses : ∀ writer, lib.Writes writer (Archiver.members files filenames) 0 →
    codec.Compresses 9 (lib.close writer)

/-- A store has room for the files: none of their names is the temporary file there, and names of
one file there are names of one content. -/
structure HasRoom (files : FileStore) (filenames : List Bytes) (store : FileStore) : Prop where
  lasting : ∀ filename ∈ filenames, store.fileOf filename ≠ store.fileOf tempName
  agree : ∀ first ∈ filenames, ∀ second ∈ filenames,
    store.fileOf first = store.fileOf second → files first = files second

/-- Room depends on which file each path names. -/
theorem HasRoom.of_fileOf {files store other : FileStore} {filenames : List Bytes}
    (room : HasRoom files filenames store) (fileOf : other.fileOf = store.fileOf) :
    HasRoom files filenames other := by
  refine ⟨fun filename listed => ?_, fun first listed second also same => ?_⟩
  · rw [fileOf]
    exact room.lasting filename listed
  · rw [fileOf] at same
    exact room.agree first listed second also same

/-- The files are restored in a store: nothing else is touched but the temporary file, which is
gone. -/
structure Restored (files : FileStore) (filenames : List Bytes) (store after : FileStore) :
    Prop where
  restored : ∀ filename ∈ filenames, after filename = files filename
  removed : after tempName = none
  others : ∀ path, store.fileOf path ≠ store.fileOf tempName →
    (∀ filename ∈ filenames, store.fileOf path ≠ store.fileOf filename) → after path = store path

variable (codec lib) in
/-- A package that has the files: wherever it is brought, opening it restores them. -/
def Carries (enough : Nat) (files : FileStore) (filenames : List Bytes) (code : Bytes) : Prop :=
  ∀ st, ∀ rounds ≥ enough, ∀ (store : FileStore) (path : Bytes), store path = some code →
    store.fileOf path ≠ store.fileOf tempName → HasRoom files filenames store →
    ∃ after, unpackage (tools codec lib st rounds) path store = some (after, 0) ∧
      Restored files filenames store after

variable {files : FileStore} {filenames : List Bytes}

/-- The archive of the files is an archive of their members. -/
theorem Packable.archived (packable : Packable codec lib files filenames) (st : Nat) :
    ∃ writer, lib.Writes writer (Archiver.members files filenames) 0 ∧
      (Archiver.archive lib st { name := tempName, filenames } files).1 =
        files.write tempName (lib.close writer) := by
  have kept : ∀ filename ∈ filenames, files.write tempName [] filename = files filename :=
    fun filename listed => files.write_of_ne (packable.lasting filename listed) []
  have opened : ∀ filename ∈ filenames, Archiver.Archivable (files.write tempName []) filename := by
    intro filename listed
    obtain ⟨clean, stored⟩ := packable.archivable filename listed
    refine ⟨clean, ?_⟩
    rw [FileStore.doesFileExist, kept filename listed]
    exact stored
  have same : Archiver.members (files.write tempName []) filenames =
      Archiver.members files filenames := by
    refine List.map_congr_left fun filename listed => ?_
    rw [kept filename listed]
  have begun : lib.Writes lib.create [] 0 := .create
  have written := Archiver.archiveLoop_spec opened st begun
  rw [List.nil_append, same] at written
  refine ⟨_, written, ?_⟩
  have named : tempName ≠ [] := by decide
  simp only [Archiver.archive, List.isEmpty_iff, named, packable.nonempty, Bool.or_eq_true,
    or_self, ↓reduceIte, leave_written]
  rfl

/-- Members that are restored have the content of their files. -/
theorem restored_members (archivable : ∀ filename ∈ filenames, Archiver.Archivable files filename)
    {store : FileStore} (room : HasRoom files filenames store) {filename : Bytes}
    (listed : filename ∈ filenames) :
    Archives.restored (Archiver.members files filenames) store filename = files filename := by
  obtain ⟨content, stored⟩ := Option.isSome_iff_exists.mp (archivable filename listed).2
  rw [stored]
  refine Archives.restored_of_eq store ⟨_, List.mem_map_of_mem listed, rfl⟩ ?_
  intro member inside same
  obtain ⟨other, also, rfl⟩ := List.mem_map.mp inside
  rw [room.agree other also filename listed same, stored, Option.getD_some]

/-- A path that names no file of the members keeps its own. -/
theorem restored_others {store : FileStore} {path : Bytes}
    (other : ∀ filename ∈ filenames, store.fileOf path ≠ store.fileOf filename) :
    Archives.restored (Archiver.members files filenames) store path = store path := by
  refine Archives.restored_of_ne store fun member inside => ?_
  obtain ⟨filename, listed, rfl⟩ := List.mem_map.mp inside
  exact other filename listed

/-- An archive of the members is extracted over the files there are. -/
theorem extract_spec {members : List (Archives.Member UInt8)} (keeps : lib.Keeps members)
    (restores : ∀ member ∈ members, lib.Restores member) {writer : lib.Writer}
    (written : lib.Writes writer members 0) :
    ∃ enough, ∀ rounds ≥ enough, ∀ files : FileStore,
      files tempName = some (lib.close writer) →
      Archiver.extract lib rounds { name := tempName } files =
        some (Archives.restored members files) := by
  obtain ⟨reader, opened, yields⟩ := keeps writer written
  obtain ⟨enough, extracts⟩ := Archiver.extractLoop_spec yields restores
  refine ⟨enough, fun rounds more files stored => ?_⟩
  obtain ⟨last, extracted⟩ := extracts lib.diskNew files (.new files)
  simp only [Archiver.extract, stored, opened, extracted rounds more rounds more, Option.map_some]
  rfl

/-- What decodes to an archive of the files carries them. -/
theorem Packable.carries (packable : Packable codec lib files filenames) {writer : lib.Writer}
    (written : lib.Writes writer (Archiver.members files filenames) 0) :
    ∃ turns, ∀ code, codec.Decodes code (lib.close writer) → ∀ enough ≥ turns,
      (lib.close writer).length < enough → code.length < enough →
      Carries codec lib enough files filenames code := by
  obtain ⟨turns, extracts⟩ := extract_spec packable.keeps packable.restores written
  refine ⟨turns, fun code decodes enough extracted longer short => ?_⟩
  intro st rounds more store path brought elsewhere room
  let ezlib : Ezlib := { source := path, dest := tempName }
  have stores : store ezlib.source = some code := brought
  have opened := Ezlib.decompress_of_decodes decodes stores elsewhere
    (Nat.lt_of_lt_of_le longer more) (Nat.lt_of_lt_of_le short more)
  rw [leave_written] at opened
  have restored := extracts rounds (Nat.le_trans extracted more)
    (leave store tempName (some (lib.close writer))) (Files.write_self ..)
  have placed : HasRoom files filenames (leave store tempName (some (lib.close writer))) :=
    room.of_fileOf rfl
  refine ⟨_, unpackage_tools st elsewhere opened restored, fun filename listed => ?_,
    Files.remove_self .., fun path lasts other => ?_⟩
  · rw [Files.remove_of_ne, restored_members packable.archivable placed listed]
    rw [Archives.restored_fileOf]
    exact room.lasting filename listed
  · rw [Files.remove_of_ne]
    · refine Eq.trans ?_ (leave_of_ne store lasts (some (lib.close writer)))
      exact restored_others other
    · rw [Archives.restored_fileOf]
      exact lasts

/-- What packaging leaves, and that it has the files. -/
theorem Packable.package_eq (packable : Packable codec lib files filenames) (st : Nat) :
    ∃ enough, ∀ rounds ≥ enough, ∀ name, files.fileOf name ≠ files.fileOf tempName → ∃ code,
      package (tools codec lib st rounds) name filenames files =
        ((files.write name code).remove tempName, 0) ∧
      code ≠ [] ∧ Carries codec lib enough files filenames code := by
  obtain ⟨writer, written, archived⟩ := packable.archived st
  have compressed := packable.compresses writer written
  obtain ⟨bound, bounded⟩ := compressed.bounded
  obtain ⟨turns, carries⟩ := packable.carries written
  refine ⟨bound + (lib.close writer).length + turns + 1, fun rounds enough name apart => ?_⟩
  have present : filenames.all files.doesFileExist = true :=
    List.all_eq_true.mpr fun filename listed => (packable.archivable filename listed).2
  let ezlib : Ezlib := { source := tempName, dest := name }
  have stores : (Archiver.archive lib st { name := tempName, filenames } files).1 ezlib.source =
      some (lib.close writer) := by
    rw [archived]
    exact Files.write_self ..
  have other : (Archiver.archive lib st { name := tempName, filenames } files).1.fileOf
      ezlib.source ≠ (Archiver.archive lib st { name := tempName, filenames } files).1.fileOf
        ezlib.dest := by
    rw [archive_fileOf]
    exact apart.symm
  have small : bound < rounds := by omega
  have longer : (lib.close writer).length < rounds := by omega
  obtain ⟨code, packs, decodes, short⟩ :=
    Ezlib.compress_of_compresses compressed bounded stores other small longer
  rw [leave_written] at packs
  have packaged := package_tools apart present packs
  refine ⟨code, ?_, decodes.ne_nil, carries code decodes _ (by omega) (by omega) (by omega)⟩
  rw [packaged, archived]
  refine Prod.ext ?_ rfl
  have swapped : leave (files.write tempName (lib.close writer)) name (some code) =
      (files.write name code).write tempName (lib.close writer) :=
    files.write_comm apart ..
  rw [swapped]
  exact (files.write name code).remove_write ..

/-- **Packages.** Packaging files returns `Z_OK`, writes the package and touches no other file
but the temporary one, which is gone then. The package carries the files. -/
theorem unpackage_package (codec : Codec UInt8) (lib : Archives UInt8) (st : Nat)
    (files : FileStore) (filenames : List Bytes) (packable : Packable codec lib files filenames) :
    ∃ enough, ∀ rounds ≥ enough, ∀ name, files.fileOf name ≠ files.fileOf tempName →
      ∃ packed code,
      package (tools codec lib st rounds) name filenames files = (packed, 0) ∧
      packed name = some code ∧ packed tempName = none ∧
      (∀ path, files.fileOf path ≠ files.fileOf name →
        files.fileOf path ≠ files.fileOf tempName → packed path = files path) ∧
      Carries codec lib enough files filenames code := by
  obtain ⟨enough, packs⟩ := packable.package_eq st
  refine ⟨enough, fun rounds more name apart => ?_⟩
  obtain ⟨code, packaged, _, carries⟩ := packs rounds more name apart
  refine ⟨_, code, packaged, ?_, Files.remove_self .., fun path notName notTemp => ?_, carries⟩
  · exact ((files.write name code).remove_of_ne apart).trans (files.write_self ..)
  · exact ((files.write name code).remove_of_ne notTemp).trans (files.write_of_ne notName _)

/-- The archive of the file `a` with the content `a`, its owner and times left at zero. -/
def letterArchive : Bytes :=
  let pad (count : Nat) : Bytes := List.replicate count 0
  let zero : Bytes := List.replicate 6 48 ++ [32, 0]
  let mode : Bytes := [48, 48, 48, 54, 52, 52, 32, 0]
  let size : Bytes := List.replicate 10 48 ++ [49, 32]
  let mtime : Bytes := List.replicate 11 48 ++ [32]
  let checksum : Bytes := [48, 48, 55, 51, 49, 55, 0, 32]
  let magic : Bytes := ascii ['u', 's', 't', 'a', 'r'] ++ [0, 48, 48]
  97 :: pad 99 ++ mode ++ zero ++ zero ++ size ++ mtime ++ checksum ++ 48 :: pad 100 ++ magic ++
    pad 64 ++ zero ++ zero ++ pad 167 ++ 97 :: pad 1535

/-- The archive, compressed at level 9. -/
def letterArchiveCode : Bytes :=
  [120, 218, 75, 100, 160, 61, 48, 48, 48, 48, 51, 49, 81, 0, 209, 64, 128, 78, 131, 128, 161, 2,
    130, 109, 0, 100, 155, 27, 27, 154, 51, 40, 24, 208, 193, 109, 12, 165, 197, 37, 137, 69, 64,
    167, 80, 193, 147, 40, 158, 27, 34, 32, 145, 97, 20, 140, 130, 81, 48, 10, 70, 193, 72, 4, 0,
    162, 17, 15, 131]

/-- A codec that knows the archive. -/
def letterCodec : Codec UInt8 := .known letterArchive letterArchiveCode

/-- A library that knows the archive. -/
def letterLibrary : Archives UInt8 :=
  .known (Archiver.members Ezlib.letterFile [[97]]) letterArchive

/-- The file `a` can be packaged. -/
theorem packable_letter : Packable letterCodec letterLibrary Ezlib.letterFile [[97]] where
  nonempty := List.cons_ne_nil _ _
  lasting := by decide
  archivable := by
    intro filename listed
    rw [List.mem_singleton.mp listed]
    exact ⟨by decide, rfl⟩
  keeps := Archives.known_keeps
  restores member _ := Archives.known_restores member
  compresses _ _ := Codec.known_compresses letterArchive (List.cons_ne_nil _ _) 9

/-- There is room for `a` where its name is not that of the temporary file. -/
theorem hasRoom_letter {store : FileStore} (lasting : store.fileOf [97] ≠ store.fileOf tempName) :
    HasRoom Ezlib.letterFile [[97]] store := by
  refine ⟨fun filename listed => ?_, fun first listed second also _ => ?_⟩
  · rw [List.mem_singleton.mp listed]
    exact lasting
  · rw [List.mem_singleton.mp listed, List.mem_singleton.mp also]

/-- The file `a` is packaged as `p` and comes back from `q`, where there is nothing else. -/
theorem unpackage_package_letter :
    ∃ enough, ∀ rounds ≥ enough, ∃ packed code after,
      package (tools letterCodec letterLibrary 0 rounds) [112] [[97]] Ezlib.letterFile =
        (packed, 0) ∧
      packed [112] = some code ∧
      unpackage (tools letterCodec letterLibrary 0 rounds) [113]
        (Files.write .empty [113] code) = some (after, 0) ∧
      after [97] = some [97] := by
  obtain ⟨enough, packs⟩ :=
    unpackage_package letterCodec letterLibrary 0 Ezlib.letterFile [[97]] packable_letter
  refine ⟨enough, fun rounds more => ?_⟩
  obtain ⟨packed, code, packaged, written, _, _, carries⟩ := packs rounds more [112] (by decide)
  have apart : ([113] : Bytes) ≠ tempName := by decide
  have lasting : ([97] : Bytes) ≠ tempName := by decide
  obtain ⟨after, opened, restored⟩ := carries 0 rounds more (Files.write .empty [113] code) [113]
    (Files.write_self ..) apart (hasRoom_letter lasting)
  refine ⟨packed, code, after, packaged, written, opened, ?_⟩
  rw [restored.restored [97] (List.mem_singleton_self _)]
  rfl

end Package

end Bp2p
