import Bp2p.Packet
import Bp2p.Torrent

/-! # The node

The maps of a node, its job list, and the functions that create requests, carry
them out, complete them with what a peer answered, and answer the requests of
peers. Transport is an input: the response of the peer, or none when connecting or
receiving throws. So are the random draws, the choices of the database server, and
the memory behind a request that was received. A function returns none when an
exception or `exit` ends the process, when it indexes an empty vector, and while
it is still drawing.
-/

namespace Bp2p

/-- What the database server decides: the order of rows and the inserts it fails. -/
structure Server where
  order : RowOrder
  refuses : Insert → Bool

/-- The numbers `Utils::grnd` is asked for while a request is created. -/
structure Draws where
  missing : List Nat := []
  device : Nat := 0
  localDevice : Nat := 0

/-- `v[Utils::grnd(0, v.size()-1)]`. -/
def pick {α : Type} (v : List α) (draw : Nat) : Option α := v[draw % v.length]?

/-- The fields of a node, with the files and tables of its process. -/
structure Node where
  remote2local : Std.TreeMap DeviceDescriptor (List DeviceDescriptor) := {}
  dev2tor : Std.TreeMap DeviceDescriptor (List Bytes) := {}
  torName2dev : Std.TreeMap Bytes (List DeviceDescriptor) := {}
  torName2Avail : Std.TreeMap Bytes (Std.TreeMap Int32 (List DeviceDescriptor)) := {}
  name2torrent : Std.TreeMap Bytes Torrent := {}
  jobManager : Bool := false
  jobs : List Packet := []
  files : FileStore := .empty
  tables : Database := {}

namespace Node

/-- `name2torrent[name]`, which inserts a default torrent on a miss. -/
def subscript (node : Node) (name : Bytes) : Node × Torrent :=
  match node.name2torrent[name]? with
  | some torrent => (node, torrent)
  | none => ({ node with name2torrent := node.name2torrent.insert name {} }, {})

/-- `name2torrent[name] = torrent`. -/
def setTorrent (node : Node) (name : Bytes) (torrent : Torrent) : Node :=
  let (node, target) := node.subscript name
  { node with name2torrent := node.name2torrent.insert name (target.assign torrent) }

/-- A torrent goes out of scope. -/
def destroy (node : Node) (torrent : Torrent) : Node :=
  { node with tables := torrent.destroy node.tables }

/-- `completeRequest(TorrentListReq)`. -/
def completeTorrentListReq (node : Node) (req : TorrentListReq) : Node :=
  { node with dev2tor := node.dev2tor.insert req.remoteAddr req.torrentList }

/-- `completeRequest(TorrentFileReq)`; the torrent goes out of scope behind it. -/
def completeTorrentFileReq (env : Env) (server : Server) (node : Node) (req : TorrentFileReq) :
    Option Node :=
  match ({} : Torrent).createTorrentFromSerializedObj env server.refuses req.serializedTorrent
      node.tables with
  | (.error _, _) => none
  | (.ok (tor, _), tables) =>
      match tor.open env server.order tables with
      | .error _ => none
      | .ok (tor, opened) =>
          let node := { node with tables }
          let node := if opened then node.setTorrent req.torrentName tor else node
          some (node.destroy tor)

/-- `completeRequest(TorrentAvailReq)`. -/
def completeTorrentAvailReq (node : Node) (req : TorrentAvailReq) : Node :=
  let avail := req.torrentAvail.foldl
    (fun avail chunkAvail =>
      avail.insert chunkAvail (avail.getD chunkAvail [] ++ [req.remoteAddr]))
    (node.torName2Avail.getD req.torrentName {})
  if req.torrentAvail.isEmpty then node
  else { node with torName2Avail := node.torName2Avail.insert req.torrentName avail }

/-- `completeRequest(ChunkReq)`. Opening, seeking and writing the data file do not fail here. -/
def completeChunkReq (env : Env) (node : Node) (req : ChunkReq) : Node :=
  let (node, stored) := node.subscript req.torrentName
  let tor := stored.copy
  let files :=
    if tor.torrentDataExists env node.files then node.files
    else tor.createTorrentDataFile env node.files
  let (tor, files, _) := tor.putChunk env files req.chunk req.index.toUInt32
  (({ node with files } : Node).setTorrent req.torrentName tor).destroy tor

/-- `completeRequest`. -/
def completeRequest (env : Env) (server : Server) (node : Node) : Packet → Option Node
  | .list req => some (node.completeTorrentListReq req)
  | .file req => node.completeTorrentFileReq env server req
  | .avail req => some (node.completeTorrentAvailReq req)
  | .chunk req => some (node.completeChunkReq env req)

/-- `getTorrentNameList`: the names in the order of the map. -/
def getTorrentNameList (node : Node) : List Bytes := node.name2torrent.keys

/-- The way the three functions below read a torrent: copy the one stored under the
name, open the copy and, if that succeeds, read it. -/
def readTorrent {α : Type} (env : Env) (server : Server) (node : Node) (name : Bytes) (unread : α)
    (read : Torrent → α) : Option (Node × α) :=
  match node.name2torrent[name]? with
  | none => some (node, unread)
  | some stored =>
      match stored.copy.open env server.order node.tables with
      | .error _ => none
      | .ok (tor, opened) => some (node.destroy tor, if opened then read tor else unread)

/-- `getSerializedTorrent`. -/
def getSerializedTorrent (env : Env) (server : Server) (node : Node) (name : Bytes) :
    Option (Node × Bytes) :=
  node.readTorrent env server name [] (·.serializedObj)

/-- `getTorrentAvailFromTorrent`. -/
def getTorrentAvailFromTorrent (env : Env) (server : Server) (node : Node) (name : Bytes) :
    Option (Node × List Int32) :=
  node.readTorrent env server name [] (·.getChunkAvail)

/-- `retrieveChunk`. -/
def retrieveChunk (env : Env) (server : Server) (node : Node) (name : Bytes) (index : Int32) :
    Option (Node × Bytes) :=
  node.readTorrent env server name [] (·.getChunk node.files index.toUInt32)

/-- `processRequest` of each packet class. -/
def processPacket (env : Env) (server : Server) (node : Node) : Packet → Option (Node × Packet)
  | .list req => some (node, .list (req.processRequest node.getTorrentNameList))
  | .file req => do
      let (node, serializedTorrent) ← node.getSerializedTorrent env server req.extractTorrentName
      some (node, .file (req.processRequest serializedTorrent))
  | .avail req => do
      let (req, name) := req.extractTorrentName []
      let (node, torAvail) ← node.getTorrentAvailFromTorrent env server name
      some (node, .avail (req.processRequest torAvail))
  | .chunk req => do
      let (name, index) := req.extractNameAndIndex
      let (node, chunk) ← node.retrieveChunk env server name index
      some (node, .chunk (req.processRequest chunk))

/-- `processRequest(req, rsp)`; the response stays empty for a request of no class. -/
def processRequest (env : Env) (server : Server) (node : Node) (req : Message) (after : Bytes) :
    Option (Node × Message) :=
  match RRFactory.create req after with
  | none => some (node, {})
  | some packet => do
      let (node, packet) ← node.processPacket env server packet
      some (node, packet.base.rsp)

/-- `insertJob`: without a job manager nothing is queued. -/
def insertJob (node : Node) (job : Packet) : Node :=
  if node.jobManager then { node with jobs := node.jobs ++ [job] } else node

/-- A request to a device in reach through one of the local devices that found it. -/
def requestThrough {α : Type} (node : Node) (make : DeviceDescriptor → DeviceDescriptor → α)
    (remote : DeviceDescriptor) (draws : Draws) : Option (Option α) :=
  match node.remote2local[remote]? with
  | none => some none
  | some locals => (pick locals draws.localDevice).map fun dev => some (make remote dev)

/-- `createNearbyTorrentsRequest`. -/
def createNearbyTorrentsRequest (node : Node) (remote : DeviceDescriptor) (draws : Draws) :
    Option (Option TorrentListReq) :=
  node.requestThrough (fun remote dev => ({} : TorrentListReq).create remote dev) remote draws

/-- `createTorrentFileRequest` to a device. -/
def createTorrentFileRequest (node : Node) (name : Bytes) (dev : DeviceDescriptor)
    (draws : Draws) : Option (Option TorrentFileReq) :=
  node.requestThrough (fun remote dev => ({} : TorrentFileReq).create remote dev name) dev draws

/-- `createTorrentAvailRequest` to a device. -/
def createTorrentAvailRequest (node : Node) (name : Bytes) (dev : DeviceDescriptor)
    (draws : Draws) : Option (Option TorrentAvailReq) :=
  node.requestThrough (fun remote dev => ({} : TorrentAvailReq).create name remote dev) dev draws

/-- `createChunkRequest` to a device. -/
def createChunkRequest (node : Node) (name : Bytes) (index : Int32) (dev : DeviceDescriptor)
    (draws : Draws) : Option (Option ChunkReq) :=
  node.requestThrough (fun remoteAddr localAddr =>
    { remoteAddr, localAddr, torrentName := name, index }) dev draws

/-- A request to one of the devices that offer a torrent. -/
def requestFromAny {α : Type} (node : Node) (name : Bytes) (draws : Draws)
    (create : DeviceDescriptor → Option (Option α)) : Option (Option α) :=
  match node.torName2dev[name]? with
  | none => some none
  | some devs => do create (← pick devs draws.device)

/-- Queue a request that could be created. -/
def insertCreated {α : Type} (node : Node) (packet : α → Packet) : Option α → Node
  | none => node
  | some req => node.insertJob (packet req)

/-- `getMissingChunkIndex`: a copy of the torrent is asked, and destroyed. -/
def getMissingChunkIndex (node : Node) (name : Bytes) (draws : Draws) :
    Option (Node × Int32) :=
  match node.name2torrent[name]? with
  | none => some (node, -1)
  | some stored =>
      let torrent := stored.copy
      (torrent.getMissingChunkIndex draws.missing).map fun chunk => (node.destroy torrent, chunk)

/-- `requestChunk(name)` up to the insertion of the job. -/
def createMissingChunkRequest (node : Node) (name : Bytes) (draws : Draws) :
    Option (Node × Option ChunkReq) := do
  let (node, index) ← node.getMissingChunkIndex name draws
  let req ← node.requestFromAny name draws fun dev => node.createChunkRequest name index dev draws
  some (node, req)

/-- `requestChunk(name)`. -/
def requestChunk (node : Node) (name : Bytes) (draws : Draws) : Option Node := do
  let (node, req) ← node.createMissingChunkRequest name draws
  some (node.insertCreated .chunk req)

/-- `requestNearbyTorrents` of one device. -/
def requestNearbyTorrents (node : Node) (remote : DeviceDescriptor) (draws : Draws) :
    Option Node := do
  some (node.insertCreated .list (← node.createNearbyTorrentsRequest remote draws))

/-- `requestTorrentFile`. -/
def requestTorrentFile (node : Node) (name : Bytes) (draws : Draws) : Option Node := do
  some (node.insertCreated .file
    (← node.requestFromAny name draws fun dev => node.createTorrentFileRequest name dev draws))

/-- `requestTorrentAvail`. -/
def requestTorrentAvail (node : Node) (name : Bytes) (draws : Draws) : Option Node := do
  some (node.insertCreated .avail
    (← node.requestFromAny name draws fun dev => node.createTorrentAvailRequest name dev draws))

/-- `retryRequest(req)`: the same request, created anew. -/
def retryRequest (node : Node) (draws : Draws) : Packet → Option Node
  | .list req => node.requestNearbyTorrents req.remoteAddr draws
  | .file req => node.requestTorrentFile req.torrentName draws
  | .avail req => node.requestTorrentAvail req.torrentName draws
  | .chunk req => node.requestChunk req.torrentName draws

/-- `carryOutRequest`: the packet with its response, none when something is thrown. -/
def carryOutRequest (req : Packet) (transport : Option Message) : Option Packet :=
  match transport with
  | none => none
  | some rsp =>
      match req.createRequest.processResponse rsp with
      | .ok req => some req
      | .error _ => none

/-- `jobs.pop_front()`. -/
def popJob (node : Node) : Node := { node with jobs := node.jobs.tail }

/-- What the job manager does behind a completed chunk request. -/
def continueDownload (env : Env) (node : Node) (name : Bytes) (draws : Draws) : Option Node := do
  let (node, stored) := node.subscript name
  let tor := stored.copy
  let node ←
    if tor.isComplete then
      (tor.unpackage env node.files).map fun (files, _) => { node with files }
    else node.requestChunk name draws
  some (node.destroy tor)

/-- One call of `jobManagerThread`. -/
def jobManagerThread (env : Env) (server : Server) (node : Node) (transport : Option Message)
    (draws : Draws) : Option Node :=
  match node.jobs with
  | [] => some node
  | req :: _ =>
      match carryOutRequest req transport with
      | none => (node.retryRequest draws req).map popJob
      | some req => do
          let node ← node.completeRequest env server req
          match req with
          | .chunk chunkReq => (node.continueDownload env chunkReq.torrentName draws).map popJob
          | _ => some node.popJob

/-- `syncRequest`, and whether it returns 0. The job manager is paused before the
request is carried out and activated behind it. What `request` does not catch
leaves the process. -/
def syncRequest (env : Env) (server : Server) (node : Node) (req : Packet)
    (transport : Option Message) : Option (Node × Bool) :=
  match transport with
  | none => some (node, false)
  | some rsp =>
      match req.createRequest.processResponse rsp with
      | .error _ => none
      | .ok req => (node.completeRequest env server req).map fun node => (node, true)

/-- `createTorrent`; the torrent goes out of scope behind it. -/
def createTorrent (env : Env) (server : Server) (node : Node) (name : Bytes)
    (filenames : List Bytes) : Option (Node × Bool) :=
  match (Torrent.ofFiles name filenames).create env server.refuses node.files node.tables with
  | (.error _, _, _) => none
  | (.ok (t, created), files, tables) =>
      let node := { node with files, tables }
      let node := if created then node.setTorrent name t else node
      some (node.destroy t, created)

/-- Every torrent of the map goes out of scope. -/
def clearTorrents (node : Node) : Node :=
  { node.name2torrent.foldl (fun node _ torrent => node.destroy torrent) node with
    name2torrent := {} }

/-- `populateLocalTorrents`; the objects read go out of scope behind the loop. -/
def populateLocalTorrents (server : Server) (node : Node) : Node :=
  let torList := Torrent.getAllTorrents server.order node.tables
  let node := torList.foldl (fun node tor => node.setTorrent tor.name tor) node.clearTorrents
  torList.foldl destroy node

end Node

end Bp2p
