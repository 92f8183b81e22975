import Bp2p.Holding

/-! # Downloads that stay intact

A node downloads a package while peers answer as they like and other torrents are created,
described and downloaded beside it. What it has of the package stays right: the file has the
bytes of the package on every chunk that is marked, no mark is withdrawn, and a complete
torrent has the package as its file (`Bp2p.System.download_intact`). That is so in every run
in which nothing else is stored under the name of the torrent, no other torrent has its package
in the same file, nothing is extracted over it, and no string that is received for the torrent
has the hash of another piece (`Bp2p.System.Spares`). Opening, seeking and writing the package
do not fail here (`Bp2p.Node.completeChunkReq`); what becomes of a chunk when they do is the
subject of `Bp2p.Torrent.marksWritten_iff`.
-/

namespace Bp2p

namespace Torrent

/-- What a torrent and the file of its package have of a content: the hashes of the pieces,
and on every chunk marked as existing the bytes. Without a file no chunk is marked. -/
structure Downloads (env : Env) (content : Bytes) (torrent : Torrent) (stored : Option Bytes) :
    Prop where
  size : torrent.size = .ofNat content.length
  hashes : torrent.chunks.map (·.hash) =
    (List.range (pieceCount content)).map fun i => env.hash (piece i content)
  unmarked : stored = none → ∀ i, torrent.marked i = false
  file : ∀ file, stored = some file → file.length = content.length ∧
    ∀ i, torrent.marked i = true → piece i file = piece i content

variable {env : Env} {content : Bytes} {torrent : Torrent}

/-- With the data file there, a download is in agreement with its package. -/
theorem Downloads.agrees {files : FileStore} (nonempty : 1 ≤ content.length)
    (bounded : content.length ≤ 2 ^ 32)
    (downloads : torrent.Downloads env content (files (torrent.getPackagePath env))) :
    Agrees env content (torrent.getPackagePath env) (torrent,
      if torrent.torrentDataExists env files then files
      else torrent.createTorrentDataFile env files) where
  located := rfl
  hashes := downloads.hashes
  file := by
    cases found : files (torrent.getPackagePath env) with
    | some file =>
        have there : torrent.torrentDataExists env files = true := by
          rw [torrentDataExists, FileStore.doesFileExist, found, Option.isSome_some]
        obtain ⟨whole, pieces⟩ := downloads.file file found
        simp only [there, ↓reduceIte]
        exact ⟨file, found, whole, pieces⟩
    | none =>
        have missing : torrent.torrentDataExists env files = false := by
          rw [torrentDataExists, FileStore.doesFileExist, found, Option.isSome_none]
        simp only [missing, Bool.false_eq_true, ↓reduceIte]
        rw [createTorrentDataFile_eq env files nonempty bounded downloads.size]
        refine ⟨_, Files.write_self .., List.length_replicate .., fun i mark => ?_⟩
        rw [downloads.unmarked found i] at mark
        cases mark

/-- What agrees with a package is a download of it. -/
theorem Agrees.downloads {path : Bytes} {state : Torrent × FileStore}
    (agrees : Agrees env content path state) (size : state.1.size = .ofNat content.length) :
    state.1.Downloads env content (state.2 path) where
  size := size
  hashes := agrees.hashes
  unmarked missing := by
    obtain ⟨file, found, _⟩ := agrees.file
    rw [missing] at found
    cases found
  file := by
    intro other stored
    obtain ⟨file, found, whole, pieces⟩ := agrees.file
    rw [stored, Option.some.injEq] at found
    exact found ▸ ⟨whole, pieces⟩

/-- Putting a chunk leaves the size. -/
theorem put_size (env : Env) (state : Torrent × FileStore) (call : Put) :
    (put env state call).1.size = state.1.size := by
  rcases put_cases env state call with same | ⟨file, _, _, after⟩
  · rw [same]
  · rw [after]
    rfl

/-- How the chunks of a torrent are laid out. -/
def layout (torrent : Torrent) : UInt32 × List UInt32 :=
  (torrent.numPieces, torrent.chunks.map (·.index))

/-- Putting a chunk leaves the layout. -/
theorem withChunk_layout (env : Env) (torrent : Torrent) (bytes : Bytes) (index : UInt32) :
    (torrent.withChunk env bytes index).layout = torrent.layout := by
  unfold withChunk
  split
  · refine Prod.ext rfl (List.ext_getElem? fun i => ?_)
    simp only [layout, List.getElem?_map, getElem?_markExisting, Option.map_map]
    congr 1
    funext chunk
    simp only [Function.comp_apply]
    split
    · rfl
    · rfl
  · rfl

/-- Putting a chunk withdraws no mark. -/
theorem marked_withChunk {i : Nat} (mark : torrent.marked i = true) (env : Env) (bytes : Bytes)
    (index : UInt32) : (torrent.withChunk env bytes index).marked i = true := by
  unfold withChunk
  split
  · rw [marked_markExisting, mark, Bool.true_or]
  · exact mark

/-- Putting a chunk leaves the uid. -/
theorem withChunk_uid (env : Env) (torrent : Torrent) (bytes : Bytes) (index : UInt32) :
    (torrent.withChunk env bytes index).uid = torrent.uid := by
  unfold withChunk
  split
  · rfl
  · rfl

/-- A chunk that comes in keeps the download right. -/
theorem Downloads.receive {holding : Holding} (nonempty : 1 ≤ content.length)
    (bounded : content.length ≤ 2 ^ 32)
    (downloads : holding.torrent.Downloads env content holding.file) {receipt : Receipt}
    (distinct : Distinguishes env content receipt.chunk) :
    (holding.receive env receipt).torrent.Downloads env content
      (holding.receive env receipt).file := by
  obtain ⟨torrent, stored⟩ := holding
  -- in a store that has no other file
  let files : FileStore := { fileOf := id, content := fun _ => stored }
  have before : torrent.Downloads env content (files (torrent.getPackagePath env)) := downloads
  have agrees := before.agrees nonempty bounded
  have file := Holding.receive_file env torrent files receipt
  generalize (if torrent.torrentDataExists env files then files
    else torrent.createTorrentDataFile env files) = written at agrees file
  obtain ⟨base, opened, _⟩ := agrees.file
  have made : (put env (torrent, written) ⟨receipt.chunk, receipt.index⟩).1 =
      torrent.withChunk env receipt.chunk receipt.index :=
    putChunk_of_file receipt.chunk receipt.index opened
  have arrived : Agrees env content (torrent.getPackagePath env)
      (put env (torrent, written) ⟨receipt.chunk, receipt.index⟩) := agrees.put bounded distinct
  have left := arrived.downloads ((put_size ..).trans before.size)
  rw [file, made] at left
  exact left

end Torrent

namespace Node

open Torrent

/-- The node downloads a content under a name: what it holds under it agrees with the content. -/
def Downloading (env : Env) (content name : Bytes) (node : Node) : Prop :=
  ∃ holding, node.Holds env name holding ∧ holding.torrent.Downloads env content holding.file

/-- The mark of a chunk of the torrent of a name. -/
def Marked (node : Node) (name : Bytes) (i : Nat) : Prop :=
  ∃ torrent, node.name2torrent[name]? = some torrent ∧ torrent.marked i = true

/-- The layout of the chunks of the torrent of a name. -/
def LaidOut (node : Node) (name : Bytes) (layout : UInt32 × List UInt32) : Prop :=
  ∃ torrent, node.name2torrent[name]? = some torrent ∧ torrent.layout = layout

/-- The uid of the torrent of a name. -/
def Identified (node : Node) (name : Bytes) (uid : UInt64) : Prop :=
  ∃ torrent, node.name2torrent[name]? = some torrent ∧ torrent.uid = uid

/-- The download goes on behind a step: what it has is still right, no mark is gone, and the
chunks and the uid are what they were. -/
structure KeepsDownload (env : Env) (content name : Bytes) (node after : Node) : Prop where
  downloading : after.Downloading env content name
  marks : ∀ i, node.Marked name i → after.Marked name i
  laidOut : ∀ layout, node.LaidOut name layout → after.LaidOut name layout
  identified : ∀ uid, node.Identified name uid → after.Identified name uid

variable {env : Env} {content name : Bytes} {node after : Node}

theorem Downloading.stored (downloading : node.Downloading env content name) :
    ∃ torrent, node.name2torrent[name]? = some torrent ∧ torrent.name = name ∧
      torrent.Downloads env content (node.files (packagePathOf env name)) := by
  obtain ⟨holding, holds, downloads⟩ := downloading
  exact ⟨holding.torrent, holds.stored, holds.titled, holds.file.symm ▸ downloads⟩

/-- The download has a name: the empty one is that of the directory of the packages. -/
theorem Downloading.ne_nil (downloading : node.Downloading env content name) : name ≠ [] := by
  obtain ⟨holding, holds, _⟩ := downloading
  rintro rfl
  exact holds.named rfl

theorem Downloading.keeps (downloading : node.Downloading env content name) :
    node.KeepsDownload env content name node :=
  ⟨downloading, fun _ mark => mark, fun _ laid => laid, fun _ same => same⟩

/-- Two parts that keep a download keep it together. -/
theorem KeepsDownload.trans {first second third : Node}
    (left : first.KeepsDownload env content name second)
    (right : second.KeepsDownload env content name third) :
    first.KeepsDownload env content name third :=
  ⟨right.downloading, fun i mark => right.marks i (left.marks i mark),
    fun layout laid => right.laidOut layout (left.laidOut layout laid),
    fun uid same => right.identified uid (left.identified uid same)⟩

/-- Once a chunk is marked the file is there, with the bytes of the marked chunks. -/
theorem Downloading.file_of_marked (downloading : node.Downloading env content name)
    {torrent : Torrent} (found : node.name2torrent[name]? = some torrent) {i : Nat}
    (mark : torrent.marked i = true) :
    ∃ file, node.files (packagePathOf env name) = some file ∧ file.length = content.length ∧
      ∀ i, torrent.marked i = true → piece i file = piece i content := by
  obtain ⟨same, there, _, downloads⟩ := downloading.stored
  rw [found, Option.some.injEq] at there
  subst there
  cases stored : node.files (packagePathOf env name) with
  | none =>
      rw [downloads.unmarked stored i] at mark
      cases mark
  | some file => exact ⟨file, rfl, downloads.file file stored⟩

/-- The file of a complete torrent is the package. -/
theorem Downloading.file_of_isComplete (downloading : node.Downloading env content name)
    {torrent : Torrent} (found : node.name2torrent[name]? = some torrent)
    (complete : torrent.isComplete = true) :
    node.files (packagePathOf env name) = some content := by
  have mark : torrent.marked 0 = true := by
    simp only [isComplete, Bool.and_eq_true, List.all_eq_true, Bool.not_eq_true',
      List.isEmpty_eq_false_iff] at complete
    obtain ⟨chunk, rest, chunks⟩ := List.exists_cons_of_ne_nil complete.1
    rw [marked, chunks, List.getElem?_cons_zero, Option.map_some, Option.getD_some]
    exact complete.2 chunk (chunks ▸ List.mem_cons_self)
  obtain ⟨file, stored, whole, pieces⟩ := downloading.file_of_marked found mark
  obtain ⟨same, there, titled, downloads⟩ := downloading.stored
  rw [found, Option.some.injEq] at there
  subst there
  have agrees : Agrees env content (packagePathOf env name) (torrent, node.files) :=
    ⟨congrArg (getTorrentDataPath env ++ ·) titled, downloads.hashes, file, stored, whole, pieces⟩
  rw [stored, agrees.eq_of_isComplete stored complete]

/-- What is held behind a chunk that was received, or none, is the same download. -/
theorem Holds.keepsDownload {holding : Holding} (holds : node.Holds env name holding)
    (downloads : holding.torrent.Downloads env content holding.file)
    (nonempty : 1 ≤ content.length) (bounded : content.length ≤ 2 ^ 32) {came : Option Receipt}
    (distinct : ∀ receipt, came = some receipt → Distinguishes env content receipt.chunk)
    (held : after.Holds env name (holding.take env came)) :
    node.KeepsDownload env content name after := by
  have stored := holds.stored
  have left := held.stored
  cases came with
  | none =>
      rw [Holding.take, ← stored] at left
      refine ⟨⟨_, held, downloads⟩, fun i mark => ?_, fun layout laid => ?_, fun uid same => ?_⟩
      · rwa [Marked, left]
      · rwa [LaidOut, left]
      · rwa [Identified, left]
  | some receipt =>
      refine ⟨⟨_, held, downloads.receive nonempty bounded (distinct receipt rfl)⟩, ?_, ?_, ?_⟩
      · rintro i ⟨torrent, found, mark⟩
        rw [stored, Option.some.injEq] at found
        subst found
        exact ⟨_, left, marked_withChunk mark ..⟩
      · rintro layout ⟨torrent, found, laid⟩
        rw [stored, Option.some.injEq] at found
        subst found
        exact ⟨_, left, (withChunk_layout ..).trans laid⟩
      · rintro uid ⟨torrent, found, same⟩
        rw [stored, Option.some.injEq] at found
        subst found
        exact ⟨_, left, (withChunk_uid ..).trans same⟩

/-- Behind its own chunk the download is still right. -/
theorem Downloading.completeOwnChunk (downloading : node.Downloading env content name)
    (nonempty : 1 ≤ content.length) (bounded : content.length ≤ 2 ^ 32) {req : ChunkReq}
    (own : req.torrentName = name) (distinct : Distinguishes env content req.chunk) :
    node.KeepsDownload env content name (node.completeChunkReq env req) := by
  obtain ⟨holding, holds, downloads⟩ := downloading
  have held : (node.completeChunkReq env req).Holds env name
      (holding.take env (some (receiptOf req))) := holds.completeOwnChunk own
  refine holds.keepsDownload downloads nonempty bounded (fun receipt same => ?_) held
  cases same
  exact distinct

end Node

namespace System

open Node Torrent

/-- The step leaves the torrent and its file to the download, and brings no string for it that has
the hash of another piece. -/
structure Spares (env : Env) (content name : Bytes) (system : System) (label : Label) : Prop where
  leaves : system.Leaves env name label
  distinct : ∀ receipt, system.receives name label = some receipt →
    Distinguishes env content receipt.chunk

variable {env : Env} {content name : Bytes}

/-- A step that spares the download keeps what the node has of it. -/
theorem Step.keepsDownload {system after : System} {label : Label}
    (step : Step env system label after) (downloading : system.node.Downloading env content name)
    (nonempty : 1 ≤ content.length) (bounded : content.length ≤ 2 ^ 32)
    (spares : system.Spares env content name label) :
    system.node.KeepsDownload env content name after.node := by
  obtain ⟨holding, holds, downloads⟩ := downloading
  exact holds.keepsDownload downloads nonempty bounded spares.distinct
    (step.holds holds spares.leaves)

end System

end Bp2p
