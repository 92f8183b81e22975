import Bp2p.CreateTorrent
import Bp2p.PutChunk
import Bp2p.Retry
import Bp2p.TorrentMap

/-! # What a node holds of a torrent

The torrent that is stored under a name and the file of its package change together, and only
when a chunk of the torrent is completed. Seen alone they are a machine with one operation
(`Bp2p.Holding.receive`): the chunk goes into the file, which is made if it is missing, if it has
the hash of its index. A node whose steps leave the name and the file to the download is this
machine, whatever else it does: behind a run it holds what the chunks received in the run make of
what it held before (`Bp2p.System.holds_run`). Other names may name the same file, `./a` that of
`a`: it is the file they name that counts.
-/

namespace Bp2p

namespace Package

variable {tools : PackageTools} {path : Bytes} {files : FileStore}

/-- Opening the package at a path extracts nothing over the file of another path. -/
def OpensBeside (tools : PackageTools) (path : Bytes) (files : FileStore) (other : Bytes) : Prop :=
  let opened := leave files tempName (tools.decompress (files path)).2
  ∀ extracted, tools.extract (opened tempName) opened = some extracted →
    opened.Keeps extracted other

/-- What opens beside a file keeps it. -/
theorem OpensBeside.unpackage_keeps {other : Bytes} (beside : OpensBeside tools path files other)
    (lasting : files.fileOf other ≠ files.fileOf tempName) {left : FileStore} {ret : Int32}
    (unpacked : unpackage tools path files = some (left, ret)) : files.Keeps left other := by
  simp only [unpackage] at unpacked
  split at unpacked
  · next extracted written =>
      cases unpacked
      have kept := beside extracted written
      have opened : files.Keeps (leave files tempName (tools.decompress (files path)).2) other :=
        ⟨leave_fileOf .., leave_of_ne _ lasting _⟩
      refine (opened.trans kept).trans (.remove ?_)
      rw [(opened.trans kept).fileOf]
      exact lasting
  · cases unpacked

end Package

namespace Torrent

/-- Where the package of a torrent of the name is. -/
def packagePathOf (env : Env) (name : Bytes) : Bytes := getTorrentDataPath env ++ name

/-- The packages of two names are one file. -/
def SamePackage (env : Env) (files : FileStore) (first second : Bytes) : Prop :=
  files.fileOf (packagePathOf env first) = files.fileOf (packagePathOf env second)

/-- The file that a download starts from. -/
def blankFile (torrent : Torrent) : Bytes :=
  if (torrent.size - 1).toNat < 2 ^ 63 then Blocks.writeAt 0 [] (torrent.size - 1).toNat [0]
  else []

@[simp] theorem withChunk_name (env : Env) (torrent : Torrent) (bytes : Bytes) (index : UInt32) :
    (torrent.withChunk env bytes index).name = torrent.name := by
  unfold withChunk
  split
  · rfl
  · rfl

/-- Only its own package is written when a chunk is put. -/
theorem put_keeps {env : Env} {path : Bytes} (state : Torrent × FileStore) (call : Put)
    (other : state.2.fileOf path ≠ state.2.fileOf (state.1.getPackagePath env)) :
    state.2.Keeps (put env state call).2 path := by
  rcases put_cases env state call with same | ⟨file, _, _, after⟩
  · rw [same]
    exact .refl ..
  · rw [after]
    exact .write other _

/-- Putting a chunk redirects no path. -/
theorem put_fileOf (env : Env) (state : Torrent × FileStore) (call : Put) :
    (put env state call).2.fileOf = state.2.fileOf := by
  rcases put_cases env state call with same | ⟨file, _, _, after⟩
  · rw [same]
  · rw [after]
    rfl

/-- The name of the torrent that a description is stored as, if it is. -/
def opensAs (env : Env) (server : Server) (tables : Database) (text : Bytes) : Option Bytes :=
  match ({} : Torrent).createTorrentFromSerializedObj env server.refuses text tables with
  | (.ok (tor, _), tables) =>
      match tor.open env server.order tables with
      | .ok (tor, true) => some tor.name
      | _ => none
  | _ => none

end Torrent

/-- A torrent and the file of its package. -/
structure Holding where
  torrent : Torrent
  file : Option Bytes

/-- A chunk that has come from a device, for an index. -/
structure Receipt where
  dev : DeviceDescriptor
  chunk : Bytes
  index : UInt32

namespace Holding

open Torrent

/-- The file that a chunk goes into. -/
def base (holding : Holding) : Bytes := holding.file.getD holding.torrent.blankFile

/-- A chunk comes in: a valid one is marked and written to its place. -/
def receive (env : Env) (holding : Holding) (receipt : Receipt) : Holding where
  torrent := holding.torrent.withChunk env receipt.chunk receipt.index
  file :=
    if holding.torrent.validateChunk env receipt.chunk receipt.index then
      some (Blocks.writeAt 0 holding.base (chunkSize * (receipt.index.toNat % 2 ^ 17))
        receipt.chunk)
    else some holding.base

/-- What one chunk or none makes of what is held. -/
def take (env : Env) (holding : Holding) : Option Receipt → Holding
  | none => holding
  | some receipt => holding.receive env receipt

/-- Putting a chunk into the file that is there, or made. -/
theorem receive_file (env : Env) (torrent : Torrent) (files : FileStore) (receipt : Receipt) :
    (put env (torrent, if torrent.torrentDataExists env files then files
      else torrent.createTorrentDataFile env files) ⟨receipt.chunk, receipt.index⟩).2
        (torrent.getPackagePath env) =
      (receive env ⟨torrent, files (torrent.getPackagePath env)⟩ receipt).file := by
  let holding : Holding := ⟨torrent, files (torrent.getPackagePath env)⟩
  have based : (if torrent.torrentDataExists env files then files
      else torrent.createTorrentDataFile env files) (torrent.getPackagePath env) =
        some holding.base := by
    cases stored : files (torrent.getPackagePath env) with
    | some file =>
        have there : torrent.torrentDataExists env files = true := by
          rw [torrentDataExists, FileStore.doesFileExist, stored, Option.isSome_some]
        simp only [there, ↓reduceIte, holding, base, stored, Option.getD_some]
    | none =>
        have missing : torrent.torrentDataExists env files = false := by
          rw [torrentDataExists, FileStore.doesFileExist, stored, Option.isSome_none]
        simp only [missing, Bool.false_eq_true, ↓reduceIte, holding, base, stored,
          Option.getD_none]
        exact Files.write_self ..
  generalize (if torrent.torrentDataExists env files then files
    else torrent.createTorrentDataFile env files) = written at based
  unfold receive
  simp only [put, putChunk]
  split
  · simp only [based, toNat_chunkSize_mul]
    exact Files.write_self ..
  · exact based

end Holding

namespace Node

open Torrent

/-- The node holds a torrent under its name. No other torrent that it has has its package in the
same file; the directory of the packages and the temporary file are other files. -/
structure Holds (env : Env) (name : Bytes) (holding : Holding) (node : Node) : Prop where
  stored : node.name2torrent[name]? = some holding.torrent
  titled : holding.torrent.name = name
  file : node.files (packagePathOf env name) = holding.file
  sole : ∀ (key : Bytes) (torrent : Torrent), node.name2torrent[key]? = some torrent →
    SamePackage env node.files torrent.name name → key = name
  named : ¬ SamePackage env node.files [] name
  lasting : node.files.fileOf (packagePathOf env name) ≠ node.files.fileOf Package.tempName

variable {env : Env} {name : Bytes} {holding : Holding} {node after : Node}

/-- A step that leaves the map and the file of the package alone. -/
theorem Holds.of_eq (holds : node.Holds env name holding)
    (name2torrent : after.name2torrent = node.name2torrent)
    (keeps : node.files.Keeps after.files (packagePathOf env name)) :
    after.Holds env name holding where
  stored := name2torrent ▸ holds.stored
  titled := holds.titled
  file := keeps.read.trans holds.file
  sole := by
    intro key torrent found same
    rw [name2torrent] at found
    rw [SamePackage, keeps.fileOf] at same
    exact holds.sole key torrent found same
  named := by
    rw [SamePackage, keeps.fileOf]
    exact holds.named
  lasting := by
    rw [keeps.fileOf]
    exact holds.lasting

/-- Storing a torrent with another package under another name. -/
theorem Holds.of_stores (holds : node.Holds env name holding) {key : Bytes} {torrent : Torrent}
    (stores : node.Stores after key torrent) (other : key ≠ name)
    (foreign : ¬ SamePackage env node.files torrent.name name)
    (keeps : node.files.Keeps after.files (packagePathOf env name)) :
    after.Holds env name holding where
  stored := by rw [stores name, if_neg other, holds.stored]
  titled := holds.titled
  file := keeps.read.trans holds.file
  sole := by
    intro entry held found same
    rw [SamePackage, keeps.fileOf] at same
    rw [stores entry] at found
    split at found
    · cases found
      exact absurd same foreign
    · exact holds.sole entry held found same
  named := by
    rw [SamePackage, keeps.fileOf]
    exact holds.named
  lasting := by
    rw [keeps.fileOf]
    exact holds.lasting

@[simp] theorem subscript_files (node : Node) (name : Bytes) :
    (node.subscript name).1.files = node.files := by
  unfold subscript
  split
  · rfl
  · rfl

@[simp] theorem setTorrent_files (node : Node) (name : Bytes) (torrent : Torrent) :
    (node.setTorrent name torrent).files = node.files :=
  subscript_files node name

/-- The files behind a completed chunk are those left by putting it. -/
theorem completeChunkReq_files (env : Env) (node : Node) (req : ChunkReq) :
    (node.completeChunkReq env req).files =
      (put env ((node.subscript req.torrentName).2.copy,
        if (node.subscript req.torrentName).2.copy.torrentDataExists env node.files then node.files
        else (node.subscript req.torrentName).2.copy.createTorrentDataFile env node.files)
        ⟨req.chunk, req.index.toUInt32⟩).2 := by
  unfold completeChunkReq
  have unread := subscript_files node req.torrentName
  generalize node.subscript req.torrentName = subscripted at unread
  obtain ⟨there, stored⟩ := subscripted
  simp only at unread
  simp only [destroy, setTorrent_files, unread]
  rfl

/-- The chunk a request has brought. -/
def receiptOf (req : ChunkReq) : Receipt := ⟨req.remoteAddr, req.chunk, req.index.toUInt32⟩

/-- Completing a chunk redirects no path. -/
theorem completeChunkReq_fileOf (env : Env) (node : Node) (req : ChunkReq) :
    (node.completeChunkReq env req).files.fileOf = node.files.fileOf := by
  rw [completeChunkReq_files, put_fileOf]
  simp only
  split
  · rfl
  · rfl

/-- Its own chunk comes in. -/
theorem Holds.completeOwnChunk (holds : node.Holds env name holding) {req : ChunkReq}
    (own : req.torrentName = name) :
    (node.completeChunkReq env req).Holds env name (holding.receive env (receiptOf req)) := by
  have stores := completeChunkReq_stores env node req
  have files := completeChunkReq_files env node req
  have fileOf := completeChunkReq_fileOf env node req
  rw [own, subscript_found holds.stored] at stores files
  have located : packagePathOf env name = holding.torrent.copy.getPackagePath env :=
    (congrArg (getTorrentDataPath env ++ ·) holds.titled).symm
  refine ⟨?_, ?_, ?_, fun key torrent found same => ?_, ?_, ?_⟩
  · exact (stores name).trans (if_pos rfl)
  · rw [Holding.receive, withChunk_name, holds.titled]
  · rw [files, located]
    refine (Holding.receive_file env _ _ (receiptOf req)).trans ?_
    rw [← located, holds.file]
    rfl
  · rw [SamePackage, fileOf] at same
    rw [stores key] at found
    split at found
    · next own => exact own.symm
    · exact holds.sole key torrent found same
  · rw [SamePackage, fileOf]
    exact holds.named
  · rw [fileOf]
    exact holds.lasting

/-- A chunk is written to the package of its torrent and to no other file. -/
theorem completeChunkReq_keeps (env : Env) (node : Node) (req : ChunkReq) {path : Bytes}
    (other : node.files.fileOf path ≠
      node.files.fileOf (packagePathOf env (node.subscript req.torrentName).2.name)) :
    node.files.Keeps (node.completeChunkReq env req).files path := by
  rw [completeChunkReq_files]
  refine Files.Keeps.trans ?_ (put_keeps _ _ ?_)
  · simp only
    split
    · exact .refl ..
    · exact .write other _
  · simp only
    split
    · exact other
    · exact other

/-- A chunk of another torrent goes to another file. -/
theorem Holds.completeOtherChunk (holds : node.Holds env name holding) {req : ChunkReq}
    (other : req.torrentName ≠ name) :
    (node.completeChunkReq env req).Holds env name holding := by
  have foreign : ¬ SamePackage env node.files (node.subscript req.torrentName).2.name name := by
    cases found : node.name2torrent[req.torrentName]? with
    | some stored =>
        rw [subscript_found found]
        exact fun same => other (holds.sole _ _ found same)
    | none =>
        rw [subscript_missing found]
        exact holds.named
  refine holds.of_stores (completeChunkReq_stores env node req) other ?_
    (completeChunkReq_keeps env node req fun same => foreign same.symm)
  rw [withChunk_name]
  exact foreign

/-- The chunk of the torrent of a name that a completed request brings. -/
def receives (name : Bytes) : Packet → Option Receipt
  | .chunk req => if req.torrentName = name then some (receiptOf req) else none
  | _ => none

/-- A text does not open as a torrent with the package of the name. -/
def OpensElsewhere (env : Env) (name : Bytes) (server : Server) (node : Node) (text : Bytes) :
    Prop :=
  ∀ other, opensAs env server node.tables text = some other →
    ¬ SamePackage env node.files other name

/-- The request brings no torrent that is stored under the name or opens with its package. -/
def Leaves (env : Env) (name : Bytes) (server : Server) (node : Node) : Packet → Prop
  | .file req =>
      req.torrentName ≠ name ∧ node.OpensElsewhere env name server req.serializedTorrent
  | _ => True

/-- A description that leaves the name to the torrent leaves what is held. -/
theorem Holds.completeTorrentFileReq (holds : node.Holds env name holding) {server : Server}
    {req : TorrentFileReq} (leaves : node.Leaves env name server (.file req))
    (completed : node.completeTorrentFileReq env server req = some after) :
    after.Holds env name holding := by
  obtain ⟨other, opens⟩ := leaves
  unfold Node.completeTorrentFileReq at completed
  unfold OpensElsewhere opensAs at opens
  split at completed
  · cases completed
  · next tor res tables created =>
      simp only [created] at opens
      split at completed
      · cases completed
      · next opened status executed =>
          cases completed
          cases status with
          | false => exact holds.of_eq rfl (.refl ..)
          | true =>
              simp only [executed, Option.some.injEq, forall_eq'] at opens
              have stores := setTorrent_stores { node with tables } req.torrentName opened
              have files := setTorrent_files { node with tables } req.torrentName opened
              rw [if_pos rfl]
              exact holds.of_stores (fun entry => stores entry) other opens (.of_eq files)

/-- What is held takes the chunks that are received. -/
theorem Holds.completeRequest (holds : node.Holds env name holding) {server : Server}
    {req : Packet} (leaves : node.Leaves env name server req)
    (completed : node.completeRequest env server req = some after) :
    after.Holds env name (holding.take env (receives name req)) := by
  cases req with
  | list req =>
      cases completed
      exact holds.of_eq rfl (.refl ..)
  | file req => exact holds.completeTorrentFileReq leaves completed
  | avail req =>
      cases completed
      unfold completeTorrentAvailReq
      simp only
      split
      · exact holds.of_eq rfl (.refl ..)
      · exact holds.of_eq rfl (.refl ..)
  | chunk req =>
      cases completed
      by_cases own : req.torrentName = name
      · rw [receives, if_pos own]
        exact holds.completeOwnChunk own
      · rw [receives, if_neg own]
        exact holds.completeOtherChunk own

/-- A response does not open as a torrent with the package of the name. -/
def Unopened (env : Env) (name : Bytes) (server : Server) (node : Node)
    (transport : Option Message) : Prop :=
  ∀ rsp, transport = some rsp → node.OpensElsewhere env name server rsp.data

/-- An answer that opens as no torrent of the package leaves the name to the torrent. -/
theorem Unopened.leaves {server : Server} {req answered : Packet} {rsp : Message}
    (unopened : node.Unopened env name server (some rsp))
    (other : ∀ file, req = .file file → file.torrentName ≠ name)
    (read : req.createRequest.processResponse rsp = .ok answered) :
    node.Leaves env name server answered := by
  cases req with
  | list req =>
      cases read
      trivial
  | file req =>
      cases read
      exact ⟨other req rfl, unopened rsp rfl⟩
  | avail req =>
      obtain ⟨_, rfl⟩ := processResponse_avail read
      trivial
  | chunk req =>
      cases read
      trivial

/-- A request that was answered asks for no chunk if it did not when it was created. -/
theorem receives_eq_none {req answered : Packet} {rsp : Message}
    (other : ∀ chunk, req ≠ .chunk chunk)
    (read : req.createRequest.processResponse rsp = .ok answered) :
    receives name answered = none := by
  cases req with
  | list req =>
      cases read
      rfl
  | file req =>
      cases read
      rfl
  | avail req =>
      obtain ⟨_, rfl⟩ := processResponse_avail read
      rfl
  | chunk req => exact absurd rfl (other req)

/-- The main thread asks for no chunks. -/
theorem Holds.syncRequest (holds : node.Holds env name holding) {server : Server} {req : Packet}
    {transport : Option Message} {succeeded : Bool}
    (unopened : node.Unopened env name server transport)
    (other : ∀ file, req = .file file → file.torrentName ≠ name)
    (asks : ∀ chunk, req ≠ .chunk chunk)
    (executed : node.syncRequest env server req transport = some (after, succeeded)) :
    after.Holds env name holding := by
  rcases syncRequest_spec executed with ⟨_, rfl⟩ | ⟨rsp, answered, rfl, read, completed⟩
  · exact holds
  · have held := holds.completeRequest (unopened.leaves other read) completed
    rwa [receives_eq_none asks read] at held

/-- Requesting a chunk writes no file. -/
theorem requestChunk_files {draws : Draws} {other : Bytes}
    (requested : node.requestChunk other draws = some after) : after.files = node.files := by
  obtain ⟨read, made, created, rfl⟩ := requestChunk_created requested
  obtain ⟨more, inserted, _⟩ := insertCreated_jobs read Packet.chunk made
  obtain ⟨tables, rfl⟩ := (createMissingChunkRequest_destroysCopy created).onlyTables
  rw [inserted]

theorem retryRequest_files {draws : Draws} {req : Packet}
    (retried : node.retryRequest draws req = some after) : after.files = node.files := by
  rcases retryRequest_cases retried with ⟨_, _, requested⟩ | ⟨_, rfl, _⟩
  · exact requestChunk_files requested
  · rfl

/-- Going on with the download of a name extracts nothing over the package of another one. -/
def ContinuesBeside (env : Env) (name : Bytes) (node : Node) (other : Bytes) : Prop :=
  ∀ torrent, node.name2torrent[other]? = some torrent → torrent.isComplete = true →
    Package.OpensBeside env.tools (packagePathOf env torrent.name) node.files
      (packagePathOf env name)

/-- Going on with any download leaves this one alone. -/
theorem Holds.continueDownload (holds : node.Holds env name holding) {other : Bytes}
    (beside : node.ContinuesBeside env name other) {torrent : Torrent} {draws : Draws}
    (found : node.name2torrent[other]? = some torrent)
    (continued : node.continueDownload env other draws = some after) :
    after.Holds env name holding := by
  refine holds.of_eq (continueDownload_keepsTorrents found continued).name2torrent ?_
  simp only [Node.continueDownload, subscript_found found, bind] at continued
  split at continued
  · next complete =>
      simp only [Option.bind_eq_some_iff, Option.map_eq_some_iff, Option.some.injEq] at continued
      obtain ⟨_, ⟨⟨files, ret⟩, unpacked, rfl⟩, rfl⟩ := continued
      exact (beside torrent found complete).unpackage_keeps holds.lasting unpacked
  · simp only [Option.bind_eq_some_iff, Option.some.injEq] at continued
    obtain ⟨requested, executed, rfl⟩ := continued
    have kept := requestChunk_files executed
    exact .of_eq kept

/-- The chunk that the job manager completes in a turn. -/
def jobReceives (name : Bytes) (node : Node) (transport : Option Message) : Option Receipt :=
  (node.jobs.head?.bind (carryOutRequest · transport)).bind (receives name)

/-- A turn of the job manager extracts nothing over the package of the name. -/
def ExtractsBeside (env : Env) (name : Bytes) (node : Node) (transport : Option Message) : Prop :=
  ∀ req, node.jobs.head?.bind (carryOutRequest · transport) = some (.chunk req) →
    (node.completeChunkReq env req).ContinuesBeside env name req.torrentName

/-- A turn of the job manager takes what it receives. -/
theorem Holds.jobManagerThread (holds : node.Holds env name holding) {server : Server}
    {transport : Option Message} {draws : Draws}
    (unopened : node.Unopened env name server transport)
    (other : ∀ file, node.jobs.head? = some (.file file) → file.torrentName ≠ name)
    (beside : node.ExtractsBeside env name transport)
    (worked : node.jobManagerThread env server transport draws = some after) :
    after.Holds env name (holding.take env (jobReceives name node transport)) := by
  have leaves : ∀ {req answered : Packet} {rest : List Packet}, node.jobs = req :: rest →
      carryOutRequest req transport = some answered → node.Leaves env name server answered := by
    intro req answered rest front carried
    cases transport with
    | none => cases carried
    | some rsp =>
        simp only [carryOutRequest] at carried
        split at carried
        · next packet read =>
            cases carried
            refine unopened.leaves (fun file same => other file ?_) read
            rw [front, List.head?_cons, same]
        · cases carried
  have popped : ∀ {middle : Node} {holding : Holding}, middle.Holds env name holding →
      middle.popJob.Holds env name holding := fun held => held.of_eq rfl (.refl ..)
  cases jobManagerThread_works worked with
  | idle empty =>
      rw [jobReceives, empty]
      exact holds
  | retried front failed retried =>
      rw [jobReceives, front, List.head?_cons, Option.bind_some, failed]
      exact popped (holds.of_eq (retryRequest_keepsTorrents retried).name2torrent
        (.of_eq (retryRequest_files retried)))
  | @continued _ _ chunk _ front carried continued =>
      rw [jobReceives, front, List.head?_cons, Option.bind_some, carried]
      have completed := holds.completeRequest (leaves front carried)
        (show node.completeRequest env server (.chunk chunk) = _ from rfl)
      have stored := (completeChunkReq_stores env node chunk _).trans (if_pos rfl)
      have answered : node.jobs.head?.bind (carryOutRequest · transport) = some (.chunk chunk) := by
        rw [front, List.head?_cons, Option.bind_some, carried]
      exact popped (completed.continueDownload (beside chunk answered) stored continued)
  | completed front carried _ done =>
      rw [jobReceives, front, List.head?_cons, Option.bind_some, carried]
      exact popped (holds.completeRequest (leaves front carried) done)

/-- A torrent with another package is packaged elsewhere. -/
theorem Holds.createTorrent (holds : node.Holds env name holding) {server : Server}
    {other : Bytes} {filenames : List Bytes} {created : Bool}
    (different : ¬ SamePackage env node.files other name)
    (executed : node.createTorrent env server other filenames = some (after, created)) :
    after.Holds env name holding := by
  obtain ⟨t, files, tables, made, rfl⟩ := createTorrent_spec executed
  have titled : t.name = other := create_name made
  have keeps : node.files.Keeps files (packagePathOf env name) := by
    have left := congrArg (fun result => result.2.1) made
    simp only [create_files] at left
    rw [← left]
    by_cases packages : (ofFiles other filenames).Packages node.files
    · rw [package_files env packages]
      refine ⟨Package.package_fileOf, ?_⟩
      rw [Package.package_apply packages.2.2, if_neg holds.lasting,
        if_neg fun same => different same.symm]
    · rw [package_files_of_not env packages]
      exact .refl ..
  cases created with
  | false => exact holds.of_eq rfl keeps
  | true =>
      have stores := setTorrent_stores ({ node with files, tables } : Node) other t
      have kept := setTorrent_files ({ node with files, tables } : Node) other t
      rw [if_pos rfl]
      refine holds.of_stores (fun entry => stores entry) (fun same => different (same ▸ rfl))
        (titled.symm ▸ different) (keeps.trans (.of_eq kept))

end Node

namespace System

open Node Torrent

/-- The step leaves the name to the torrent that is held, and the file of its package. -/
def Leaves (env : Env) (name : Bytes) (system : System) : Label → Prop
  | .jobManager server transport _ => system.node.Unopened env name server transport ∧
      (∀ file, system.node.jobs.head? = some (.file file) → file.torrentName ≠ name) ∧
      system.node.ExtractsBeside env name transport
  | .statement server transport _ => system.node.Unopened env name server transport
  | .requestTorrentData _ => True
  | .createTorrent _ other _ => ¬ SamePackage env system.node.files other name
  | .populateLocalTorrents _ => False
  | .complete server req => system.node.Leaves env name server req
  | .serve .. => True
  | .edit left => system.node.files.Keeps left (packagePathOf env name)

/-- The chunk of the torrent that is completed in a step. -/
def receives (name : Bytes) (system : System) : Label → Option Receipt
  | .jobManager _ transport _ => jobReceives name system.node transport
  | .complete _ req => Node.receives name req
  | _ => none

variable {env : Env} {name : Bytes} {holding : Holding} {system after : System} {label : Label}

/-- A statement leaves what is held. -/
theorem statement_holds {server : Server} {transport : Option Message} {draws : Draws}
    (holds : system.node.Holds env name holding)
    (unopened : system.node.Unopened env name server transport)
    (executed : system.statement env server transport draws = some after) :
    after.node.Holds env name holding := by
  cases statement_goes executed with
  | move | clear | swap => exact holds.of_eq rfl (.refl ..)
  | list _ synchronized | avail synchronized =>
      exact holds.syncRequest unopened (fun _ => Packet.noConfusion) (fun _ => Packet.noConfusion)
        synchronized
  | file missing named _ synchronized =>
      refine holds.syncRequest unopened (fun file same => ?_) (fun _ => Packet.noConfusion)
        synchronized
      -- the torrent that is held is not missing
      cases same
      rintro rfl
      rw [← named, Std.TreeMap.contains_eq_isSome_getElem?, holds.stored] at missing
      cases missing
  | chunk created =>
      obtain ⟨tables, same⟩ := (createMissingChunkRequest_destroysCopy created).onlyTables
      exact holds.of_eq (congrArg (·.name2torrent) same) (.of_eq (congrArg (·.files) same))
  | @insert node req =>
      obtain ⟨more, inserted, _⟩ := insertCreated_jobs node Packet.chunk req
      simp only [inserted]
      exact holds.of_eq rfl (.refl ..)

/-- A step that leaves the name alone is one chunk or none to the torrent that is held. -/
theorem Step.holds (step : Step env system label after)
    (holds : system.node.Holds env name holding) (leaves : system.Leaves env name label) :
    after.node.Holds env name (holding.take env (system.receives name label)) := by
  cases step with
  | jobManager _ worked => exact holds.jobManagerThread leaves.1 leaves.2.1 leaves.2.2 worked
  | statement executed => exact statement_holds holds leaves executed
  | requestTorrentData => exact holds.of_eq rfl (.refl ..)
  | createTorrent _ executed => exact holds.createTorrent leaves executed
  | populateLocalTorrents => exact leaves.elim
  | complete completed => exact holds.completeRequest leaves completed
  | serve answered =>
      obtain ⟨tables, rfl⟩ := processRequest_onlyTables answered
      exact holds.of_eq rfl (.refl ..)
  | edit files => exact holds.of_eq rfl leaves

/-- The chunks of the torrent that come in a run, in their order. -/
def received (name : Bytes) (past : List (System × Label)) : List Receipt :=
  past.filterMap fun record => record.1.receives name record.2

/-- What is held behind a run that leaves the name alone is what the chunks received make of what
was held before. -/
theorem holds_run {start final : System} {past : List (System × Label)}
    (holds : start.node.Holds env name holding)
    (run : Transition.Run (Step env) start past final)
    (leaves : Transition.Meets (Leaves env name) past) :
    final.node.Holds env name ((received name past).foldl (Holding.receive env) holding) := by
  induction run with
  | nil => exact holds
  | @snoc past source target label run step ih =>
      rw [Transition.meets_append_singleton] at leaves
      have held := step.holds (ih leaves.1) leaves.2
      rw [received, List.filterMap_append, List.foldl_append]
      cases came : source.receives name label with
      | none =>
          rw [came] at held
          simp only [List.filterMap_cons, came, List.filterMap_nil, List.foldl_nil]
          exact held
      | some receipt =>
          rw [came] at held
          simp only [List.filterMap_cons, came, List.filterMap_nil, List.foldl_cons,
            List.foldl_nil]
          exact held

end System

end Bp2p
