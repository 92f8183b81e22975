import Bp2p.Lib.Transition
import Bp2p.Node

/-! # Runs of a node

The threads of a node step by step. The job manager's work is one step: it holds the
mutex of its event. The main thread takes one statement of `requestTorrentData` at a
time, with the turns of its loops as statements of their own; a request it waits
for is one of them, because the job manager is paused meanwhile. Other commands, the
completion of requests and the answers to peers are single steps, and so is what other
programs do to the files.
-/

namespace Bp2p

/-- Where the main thread is in `requestTorrentData`. -/
inductive Main
  | idle
  /-- At the test whether the devices nearby are asked for their torrents. -/
  | start (name : Bytes)
  /-- In the loop over the devices nearby. -/
  | nearby (name : Bytes) (devs : List DeviceDescriptor)
  | clear (name : Bytes)
  /-- In the loop of `swapKeyVal`, behind the entry of a device. -/
  | swap (name : Bytes) (last : Option DeviceDescriptor)
  | avail (name : Bytes)
  /-- In the loop over the devices that offer the torrent. -/
  | availFrom (name : Bytes) (devs : List DeviceDescriptor)
  | file (name : Bytes)
  | chunk (name : Bytes)
  /-- In front of the insertion of a job. -/
  | insert (req : Option ChunkReq)
  deriving DecidableEq

/-- A node and where its main thread is in `requestTorrentData`. -/
structure System where
  node : Node
  main : Main := .idle

namespace System

/-- The entry of `dev2tor` the loop of `swapKeyVal` comes to. -/
def nextEntry (node : Node) : Option DeviceDescriptor → Option (DeviceDescriptor × List Bytes)
  | none => node.dev2tor.toList.head?
  | some last => node.dev2tor.toList.find? fun entry => compare last entry.1 == .lt

/-- The next statement of `requestTorrentData`, none when the main thread is idle or the
process ends. -/
def statement (env : Env) (server : Server) (transport : Option Message) (draws : Draws)
    (system : System) : Option System :=
  let node := system.node
  match system.main with
  | .idle => none
  | .start name =>
      if node.dev2tor.isEmpty || !node.torName2dev.contains name then
        some { node, main := .nearby name node.remote2local.keys }
      else some { node, main := .clear name }
  | .nearby name [] => some { node, main := .clear name }
  | .nearby name (dev :: devs) => do
      match ← node.createNearbyTorrentsRequest dev draws with
      | none => some { node, main := .nearby name devs }
      | some req =>
          let (node, _) ← node.syncRequest env server (.list req) transport
          some { node, main := .nearby name devs }
  | .clear name => some { node := { node with torName2dev := {} }, main := .swap name none }
  | .swap name last =>
      match nextEntry node last with
      | none => some { node, main := .avail name }
      | some (dev, names) =>
          let torName2dev :=
            names.foldl (fun dest val => Utils.swapVal dest dev val) node.torName2dev
          some { node := { node with torName2dev }, main := .swap name (some dev) }
  | .avail name =>
      match node.torName2dev[name]? with
      | none => some { node }
      | some devs => some { node, main := .availFrom name devs }
  | .availFrom name [] => some { node, main := .file name }
  | .availFrom name (dev :: devs) => do
      match ← node.createTorrentAvailRequest name dev draws with
      | none => some { node }
      | some req =>
          let (node, succeeded) ← node.syncRequest env server (.avail req) transport
          some { node, main := if succeeded then .availFrom name devs else .idle }
  | .file name =>
      if node.name2torrent.contains name then some { node, main := .chunk name }
      else do
        match ← node.requestFromAny name draws fun dev =>
            node.createTorrentFileRequest name dev draws with
        | none => some { node }
        | some req =>
            let (node, succeeded) ← node.syncRequest env server (.file req) transport
            some { node, main := if succeeded then .chunk name else .idle }
  | .chunk name => do
      let (node, req) ← node.createMissingChunkRequest name draws
      some { node, main := .insert req }
  | .insert req => some { node := node.insertCreated .chunk req }

/-- What a node does, with the inputs of the step. -/
inductive Label
  | jobManager (server : Server) (transport : Option Message) (draws : Draws)
  | statement (server : Server) (transport : Option Message) (draws : Draws)
  | requestTorrentData (name : Bytes)
  | createTorrent (server : Server) (name : Bytes) (filenames : List Bytes)
  | populateLocalTorrents (server : Server)
  | complete (server : Server) (req : Packet)
  | serve (server : Server) (req : Message) (after : Bytes)
  | edit (files : FileStore)

/-- Steps of the job manager, the main thread, the servers and others. -/
inductive Step (env : Env) : System → Label → System → Prop
  | jobManager {system : System} {server : Server} {transport : Option Message} {draws : Draws}
      {after : Node} (running : system.node.jobManager = true)
      (worked : system.node.jobManagerThread env server transport draws = some after) :
      Step env system (.jobManager server transport draws) { system with node := after }
  | statement {system after : System} {server : Server} {transport : Option Message}
      {draws : Draws} (executed : system.statement env server transport draws = some after) :
      Step env system (.statement server transport draws) after
  | requestTorrentData {system : System} (name : Bytes) (idle : system.main = .idle) :
      Step env system (.requestTorrentData name) { system with main := .start name }
  | createTorrent {system : System} {server : Server} {name : Bytes} {filenames : List Bytes}
      {after : Node} {created : Bool} (idle : system.main = .idle)
      (executed : system.node.createTorrent env server name filenames = some (after, created)) :
      Step env system (.createTorrent server name filenames) { system with node := after }
  | populateLocalTorrents {system : System} (server : Server) (idle : system.main = .idle) :
      Step env system (.populateLocalTorrents server)
        { system with node := system.node.populateLocalTorrents server }
  | complete {system : System} {server : Server} {req : Packet} {after : Node}
      (completed : system.node.completeRequest env server req = some after) :
      Step env system (.complete server req) { system with node := after }
  | serve {system : System} {server : Server} {req rsp : Message} {memory : Bytes} {after : Node}
      (answered : system.node.processRequest env server req memory = some (after, rsp)) :
      Step env system (.serve server req memory) { system with node := after }
  | edit {system : System} (files : FileStore) :
      Step env system (.edit files) { system with node := { system.node with files } }

/-- The adapter of a node. -/
def adapter : DeviceDescriptor := ⟨[108]⟩

/-- A peer in its reach. -/
def peer : DeviceDescriptor := ⟨[100]⟩

/-- A node in reach of a peer that offers the torrents `a` and `b`. -/
def inReachOfPeer : Node where
  remote2local := .ofList [(peer, [adapter])] compare
  dev2tor := .ofList [(peer, [[97], [98]])] compare
  torName2dev := .ofList [([97], [peer]), ([98], [peer])] compare
  jobManager := true

end System

end Bp2p
