import Bp2p.Lib.Transition
import Bp2p.Package

/-! # Two threads and one temporary file

The main thread packages files while the job manager unpackages a download, and both pass
what they make through the file `temp`. The threads take turns at the level of file
operations: write the temporary file, read it, remove it. Each ends as if it had run alone
from the files it began with, as long as neither touches the temporary file between the
other's writing and reading of it (`Bp2p.Package.asAlone_of_separate`).
-/

namespace Bp2p

namespace Package

/-- Where the main thread is in `package`: in front of it, or behind `archive` or `compress`.
The files it began with are kept for comparison. -/
inductive Packing
  | idle
  | archived (name : Bytes) (filenames : List Bytes) (begun : FileStore)
  | compressed (ret : Int32)

/-- Where the job manager is in `unpackage`. -/
inductive Unpacking
  | idle
  | decompressed (name : Bytes) (begun : FileStore) (ret : Int32)
  | extracted (ret : Int32)
  | exited

/-- The files, and where the two threads are. -/
structure Disk where
  files : FileStore
  packing : Packing := .idle
  unpacking : Unpacking := .idle

/-- The file operations of the two threads. -/
inductive FileOp
  | archive (name : Bytes) (filenames : List Bytes)
  | compress
  | removePacked
  | decompress (name : Bytes)
  | extract
  | exit
  | removeUnpacked

/-- Either thread takes its next operation. The exit of `extract` ends the process. -/
inductive Step (tools : PackageTools) : Disk → FileOp → Disk → Prop
  | archive {disk : Disk} {name : Bytes} {filenames : List Bytes}
      (alive : disk.unpacking ≠ .exited) (idle : disk.packing = .idle)
      (present : filenames.all disk.files.doesFileExist = true) :
      Step tools disk (.archive name filenames) { disk with
        files := leave disk.files tempName (tools.archive disk.files filenames)
        packing := .archived name filenames disk.files }
  | compress {disk : Disk} {name : Bytes} {filenames : List Bytes} {begun : FileStore}
      (alive : disk.unpacking ≠ .exited)
      (archived : disk.packing = .archived name filenames begun) :
      Step tools disk .compress { disk with
        files := leave disk.files name (tools.compress (disk.files tempName)).2
        packing := .compressed (tools.compress (disk.files tempName)).1 }
  | removePacked {disk : Disk} {ret : Int32} (alive : disk.unpacking ≠ .exited)
      (compressed : disk.packing = .compressed ret) :
      Step tools disk .removePacked { disk with
        files := disk.files.remove tempName
        packing := .idle }
  | decompress {disk : Disk} {name : Bytes} (idle : disk.unpacking = .idle) :
      Step tools disk (.decompress name) { disk with
        files := leave disk.files tempName (tools.decompress (disk.files name)).2
        unpacking := .decompressed name disk.files (tools.decompress (disk.files name)).1 }
  | extract {disk : Disk} {name : Bytes} {begun files : FileStore} {ret : Int32}
      (decompressed : disk.unpacking = .decompressed name begun ret)
      (extracted : tools.extract (disk.files tempName) disk.files = some files) :
      Step tools disk .extract { disk with files, unpacking := .extracted ret }
  | exit {disk : Disk} {name : Bytes} {begun : FileStore} {ret : Int32}
      (decompressed : disk.unpacking = .decompressed name begun ret)
      (failed : tools.extract (disk.files tempName) disk.files = none) :
      Step tools disk .exit { disk with unpacking := .exited }
  | removeUnpacked {disk : Disk} {ret : Int32} (extracted : disk.unpacking = .extracted ret) :
      Step tools disk .removeUnpacked { disk with
        files := disk.files.remove tempName
        unpacking := .idle }

/-- What a thread makes of the temporary file is what it makes alone: `compress` reads the
archive of the given files and leaves what `package` leaves, `extract` reads what the package
decompresses to and leaves what `unpackage` leaves, and exits where that does. -/
def AsAlone (tools : PackageTools) (disk : Disk) (op : FileOp) (after : Disk) : Prop :=
  match op with
  | .compress => ∀ name filenames begun, disk.packing = .archived name filenames begun →
      disk.files tempName = tools.archive begun filenames ∧
        ∃ ret, after.packing = .compressed ret ∧
          package tools name filenames begun = (after.files.remove tempName, ret)
  | .extract => ∀ name begun ret, disk.unpacking = .decompressed name begun ret →
      disk.files tempName = (tools.decompress (begun name)).2 ∧
        unpackage tools name begun = some (after.files.remove tempName, ret)
  | .exit => ∀ name begun ret, disk.unpacking = .decompressed name begun ret →
      disk.files tempName = (tools.decompress (begun name)).2 ∧
        unpackage tools name begun = none
  | _ => True

/-- The main thread is about to read the temporary file. -/
def Packing.Reads : Packing → Prop
  | .archived _ _ _ => True
  | _ => False

/-- The job manager is about to read the temporary file. -/
def Unpacking.Reads : Unpacking → Prop
  | .decompressed _ _ _ => True
  | _ => False

/-- The temporary file is not written or removed while the other thread is about to read it,
and a thread that cannot open it for writing finds none. -/
def Separate (tools : PackageTools) (disk : Disk) : FileOp → Prop
  | .archive _ filenames => ¬ disk.unpacking.Reads ∧
      (tools.archive disk.files filenames = none → disk.files tempName = none)
  | .compress => True
  | .removePacked => ¬ disk.unpacking.Reads
  | .decompress name => ¬ disk.packing.Reads ∧
      ((tools.decompress (disk.files name)).2 = none → disk.files tempName = none)
  | .extract => True
  | .exit => True
  | .removeUnpacked => ¬ disk.packing.Reads

/-- One thread at most is about to read the temporary file, and the files are those it has
made of the ones it began with. -/
structure Apart (tools : PackageTools) (disk : Disk) : Prop where
  exclusive : ¬ (disk.packing.Reads ∧ disk.unpacking.Reads)
  packing : ∀ name filenames begun, disk.packing = .archived name filenames begun →
    filenames.all begun.doesFileExist = true ∧
      disk.files = leave begun tempName (tools.archive begun filenames) ∧
      disk.files tempName = tools.archive begun filenames
  unpacking : ∀ name begun ret, disk.unpacking = .decompressed name begun ret →
    ret = (tools.decompress (begun name)).1 ∧
      disk.files = leave begun tempName (tools.decompress (begun name)).2 ∧
      disk.files tempName = (tools.decompress (begun name)).2

/-- A step of one thread while the other one does not read. -/
theorem Apart.of_not_reads {tools : PackageTools} {disk : Disk} (packed : ¬ disk.packing.Reads)
    (unpacked : ¬ disk.unpacking.Reads) : Apart tools disk := by
  refine ⟨fun both => packed both.1, fun name filenames begun archived => ?_,
    fun name begun ret decompressed => ?_⟩
  · rw [archived] at packed
    exact absurd trivial packed
  · rw [decompressed] at unpacked
    exact absurd trivial unpacked

/-- The temporary file has what was left in it, or is still missing. -/
theorem leave_tempName {files : FileStore} {content : Option Bytes}
    (clean : content = none → files tempName = none) :
    leave files tempName content tempName = content := by
  rw [leave_self]
  cases content with
  | none => exact clean rfl
  | some content => rfl

/-- Separate operations keep the threads apart. -/
theorem Step.apart {tools : PackageTools} {disk after : Disk} {op : FileOp}
    (apart : Apart tools disk) (separate : Separate tools disk op)
    (step : Step tools disk op after) : Apart tools after := by
  cases step with
  | archive alive idle present =>
      obtain ⟨quiet, clean⟩ := separate
      refine ⟨fun both => quiet both.2, fun name filenames begun archived => ?_,
        fun name begun ret decompressed => ?_⟩
      · cases archived
        exact ⟨present, rfl, leave_tempName clean⟩
      · have reads : disk.unpacking = .decompressed name begun ret := decompressed
        rw [reads] at quiet
        exact absurd trivial quiet
  | compress alive archived =>
      refine Apart.of_not_reads id fun reads => apart.exclusive ⟨?_, reads⟩
      rw [archived]
      trivial
  | removePacked alive compressed => exact Apart.of_not_reads id separate
  | decompress idle =>
      obtain ⟨quiet, clean⟩ := separate
      refine ⟨fun both => quiet both.1, fun name filenames begun archived => ?_,
        fun name begun ret decompressed => ?_⟩
      · have reads : disk.packing = .archived name filenames begun := archived
        rw [reads] at quiet
        exact absurd trivial quiet
      · cases decompressed
        exact ⟨rfl, rfl, leave_tempName clean⟩
  | extract decompressed | exit decompressed =>
      refine Apart.of_not_reads (fun reads => apart.exclusive ⟨reads, ?_⟩) id
      rw [decompressed]
      trivial
  | removeUnpacked extracted => exact Apart.of_not_reads separate id

/-- While the threads are apart, each works as it would alone. -/
theorem Step.asAlone {tools : PackageTools} {disk after : Disk} {op : FileOp}
    (apart : Apart tools disk) (step : Step tools disk op after) : AsAlone tools disk op after := by
  cases step with
  | compress alive archived =>
      intro name filenames begun same
      rw [archived] at same
      cases same
      obtain ⟨present, files, read⟩ := apart.packing _ _ _ archived
      refine ⟨read, _, rfl, ?_⟩
      rw [package, if_pos present, ← files]
  | extract decompressed extracted =>
      intro name begun ret same
      rw [decompressed] at same
      cases same
      obtain ⟨rfl, files, read⟩ := apart.unpacking _ _ _ decompressed
      refine ⟨read, ?_⟩
      simp only [unpackage, ← files, extracted]
  | exit decompressed failed =>
      intro name begun ret same
      rw [decompressed] at same
      cases same
      obtain ⟨rfl, files, read⟩ := apart.unpacking _ _ _ decompressed
      refine ⟨read, ?_⟩
      simp only [unpackage, ← files, failed]
  | archive | removePacked | decompress | removeUnpacked => trivial

/-- **The shared temporary file.** Along a run whose steps keep the threads apart, each of them
makes of the temporary file what it makes alone. -/
theorem asAlone_of_separate (tools : PackageTools) (start : Disk) (past : List (Disk × FileOp))
    (packing : start.packing = .idle) (unpacking : start.unpacking = .idle)
    (separate : Transition.Meets (Separate tools) past) :
    Transition.EveryStep (Step tools) start past (AsAlone tools) := by
  refine Transition.EveryStep.of_invariant (Apart tools)
    (fun _ _ _ apart separate step => step.apart apart separate)
    (fun _ _ _ apart _ step => step.asAlone apart) (Apart.of_not_reads ?_ ?_) separate
  · rw [packing]
    exact id
  · rw [unpacking]
    exact id

/-- Tools for files with names of one byte: an archive is a name and the content behind it,
and compressing puts a byte in front. -/
def letterTools : PackageTools where
  archive files filenames := some (filenames.flatMap fun name => name ++ (files name).getD [])
  compress
    | some content => (0, some (120 :: content))
    | none => (-1, some [])
  decompress
    | some content => (0, some content.tail)
    | none => (-1, some [])
  extract
    | some (name :: content), files => some (files.write [name] content)
    | _, _ => none

/-- The file `f`, and a package `p` of a file `g`. -/
def letterDisk : Disk where
  files := Files.write (Files.write .empty [102] [1]) [112] [120, 103, 9]

/-- The file is packaged, and the package of the other one unpackaged behind it. -/
theorem asAlone_of_separate_letter :
    ∃ past final, Transition.Run (Step letterTools) letterDisk past final ∧
      final.files [113] = some [120, 102, 1] ∧ final.files [103] = some [9] ∧
      Transition.EveryStep (Step letterTools) letterDisk past (AsAlone letterTools) := by
  have begun : Transition.Run (Step letterTools) letterDisk [] letterDisk := .nil
  have archive : Step letterTools letterDisk (.archive [113] [[102]]) _ :=
    .archive Unpacking.noConfusion rfl rfl
  have compressed := (begun.snoc archive).snoc (.compress Unpacking.noConfusion rfl)
  have packed := compressed.snoc (.removePacked Unpacking.noConfusion rfl)
  have decompressed := packed.snoc (.decompress rfl : Step letterTools _ (.decompress [112]) _)
  have run := decompressed.snoc (.extract rfl rfl)
  refine ⟨_, _, run, rfl, rfl, asAlone_of_separate letterTools letterDisk _ rfl rfl ?_⟩
  intro record member
  simp only [List.nil_append, List.cons_append, List.mem_cons, List.not_mem_nil, or_false]
    at member
  rcases member with rfl | rfl | rfl | rfl | rfl
  · exact ⟨id, fun _ => rfl⟩
  · trivial
  · exact id
  · exact ⟨id, fun _ => rfl⟩
  · trivial

/-- The download is decompressed between the archiving of a file and its compression: the
package of the file is then that of the download. -/
theorem asAlone_of_separate_fails :
    ¬ ∀ (tools : PackageTools) (start final : Disk) (past : List (Disk × FileOp)),
      Transition.Run (Step tools) start past final → start.packing = .idle →
      start.unpacking = .idle →
      Transition.EveryStep (Step tools) start past (AsAlone tools) := by
  intro alone
  have begun : Transition.Run (Step letterTools) letterDisk [] letterDisk := .nil
  have archive : Step letterTools letterDisk (.archive [113] [[102]]) _ :=
    .archive Unpacking.noConfusion rfl rfl
  have archived := begun.snoc archive
  have decompressed := archived.snoc (.decompress rfl : Step letterTools _ (.decompress [112]) _)
  have run := decompressed.snoc (.compress Unpacking.noConfusion rfl)
  have result := alone _ _ _ _ run rfl rfl _ _ _ _ (List.prefix_refl _) decompressed
    (.compress Unpacking.noConfusion rfl)
  have read := (result _ _ _ rfl).1
  exact absurd read (by decide)

end Package

end Bp2p
