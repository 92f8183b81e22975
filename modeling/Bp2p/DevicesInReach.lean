import Bp2p.RequestData
import Bp2p.ScanForDevs

/-! # The devices a node knows are in reach

`remote2local` is filled by a scan, `dev2tor` by the answers of peers, and `torName2dev` by
inverting it. Whatever the peers answer, the keys of the second map and the devices of the
third are keys of the first, and no vector of the first or the third is empty
(`Bp2p.Node.Connected`). So every draw from one of these vectors picks a device, and a
chunk of a torrent that some device offers can be requested
(`Bp2p.Session.reachable_connected`).
-/

namespace Bp2p

namespace Node

/-- The devices known from answers are in reach, and there is a device to draw in every vector. -/
structure Connected (node : Node) : Prop where
  dev2tor : ∀ dev ∈ node.dev2tor, dev ∈ node.remote2local
  torName2dev : ∀ (name : Bytes) (devs : List DeviceDescriptor),
    node.torName2dev[name]? = some devs → ∀ dev ∈ devs, dev ∈ node.remote2local
  localsFilled : Utils.Filled node.remote2local
  devsFilled : Utils.Filled node.torName2dev

/-- What every step of a node keeps: there is a job manager, and the list requests it has
queued go to devices in reach. -/
structure Consistent (node : Node) : Prop extends node.Connected where
  jobManager : node.jobManager = true
  listJobs : ∀ req : TorrentListReq, Packet.list req ∈ node.jobs →
    req.remoteAddr ∈ node.remote2local

/-- The answer to a list request comes from the device that was asked. -/
theorem processResponse_list {req : Packet} {rsp : Message} {list : TorrentListReq}
    (read : req.createRequest.processResponse rsp = .ok (.list list)) :
    ∃ asked, req = .list asked ∧ list.remoteAddr = asked.remoteAddr := by
  cases req with
  | list asked =>
      cases read
      exact ⟨asked, rfl, rfl⟩
  | file asked => cases read
  | avail asked =>
      obtain ⟨_, same⟩ := processResponse_avail read
      cases same
  | chunk asked => cases read

namespace Consistent

variable {node after : Node}

/-- Consistency depends on the devices alone. -/
theorem of_keepsDevices (consistent : node.Consistent) (keeps : node.KeepsDevices after) :
    after.Consistent := by
  obtain ⟨⟨jobs, jobManager, torName2dev, remote2local⟩, dev2tor⟩ := keeps
  obtain ⟨⟨known, offering, localsFilled, devsFilled⟩, managed, listJobs⟩ := consistent
  refine ⟨⟨?_, ?_, ?_, ?_⟩, ?_, ?_⟩
  · rwa [dev2tor, remote2local]
  · rwa [torName2dev, remote2local]
  · rwa [remote2local]
  · rwa [torName2dev]
  · rwa [jobManager]
  · rwa [jobs, remote2local]

/-- A device in reach has answered with its torrents. -/
theorem list (consistent : node.Consistent) {req : TorrentListReq}
    (reached : req.remoteAddr ∈ node.remote2local) :
    (node.completeTorrentListReq req).Consistent where
  dev2tor := by
    intro dev member
    rcases Std.TreeMap.mem_insert.mp member with same | known
    · rwa [← Std.LawfulEqOrd.eq_of_compare same]
    · exact consistent.dev2tor dev known
  torName2dev := consistent.torName2dev
  localsFilled := consistent.localsFilled
  devsFilled := consistent.devsFilled
  jobManager := consistent.jobManager
  listJobs := consistent.listJobs

/-- `torName2dev.clear()`. -/
theorem clear (consistent : node.Consistent) :
    ({ node with torName2dev := {} } : Node).Consistent where
  dev2tor := consistent.dev2tor
  torName2dev := fun name devs found => by
    rw [Std.TreeMap.getElem?_emptyc] at found
    cases found
  localsFilled := consistent.localsFilled
  devsFilled := Utils.filled_empty
  jobManager := consistent.jobManager
  listJobs := consistent.listJobs

/-- One turn of the outer loop of `swapKeyVal`. -/
theorem swap (consistent : node.Consistent) {dev : DeviceDescriptor} (known : dev ∈ node.dev2tor)
    (names : List Bytes) :
    ({ node with
      torName2dev := names.foldl (fun dest val => Utils.swapVal dest dev val) node.torName2dev } :
        Node).Consistent where
  dev2tor := consistent.dev2tor
  torName2dev := by
    intro name devs found other member
    have stored := Utils.getD_swapVals node.torName2dev dev names name
    rw [Std.TreeMap.getD_eq_getD_getElem?, found, Option.getD_some] at stored
    rw [stored, List.mem_append] at member
    rcases member with earlier | new
    · rw [Std.TreeMap.getD_eq_getD_getElem?] at earlier
      cases before : node.torName2dev[name]? with
      | none =>
          rw [before] at earlier
          cases earlier
      | some others =>
          rw [before, Option.getD_some] at earlier
          exact consistent.torName2dev name others before other earlier
    · rw [List.eq_of_mem_replicate new]
      exact consistent.dev2tor dev known
  localsFilled := consistent.localsFilled
  devsFilled :=
    List.foldlRecOn names _ consistent.devsFilled fun _ kept val _ => kept.swapVal dev val
  jobManager := consistent.jobManager
  listJobs := consistent.listJobs

/-- The queue changes, and its list requests go to devices in reach. -/
theorem withJobs (consistent : node.Consistent) {jobs : List Packet}
    (listJobs : ∀ req : TorrentListReq, Packet.list req ∈ jobs →
      req.remoteAddr ∈ node.remote2local) : ({ node with jobs } : Node).Consistent where
  toConnected := { consistent.toConnected with }
  jobManager := consistent.jobManager
  listJobs := listJobs

theorem popJob (consistent : node.Consistent) : node.popJob.Consistent :=
  consistent.withJobs fun req member => consistent.listJobs req (List.mem_of_mem_tail member)

/-- A request that was created is queued. -/
theorem insertCreated (consistent : node.Consistent) {α : Type} {packet : α → Packet}
    {req : Option α} (reached : ∀ made list, req = some made → packet made = .list list →
      list.remoteAddr ∈ node.remote2local) : (node.insertCreated packet req).Consistent := by
  obtain ⟨more, inserted, made⟩ := insertCreated_jobs node packet req
  rw [inserted]
  refine consistent.withJobs fun list member => ?_
  rcases List.mem_append.mp member with earlier | new
  · exact consistent.listJobs list earlier
  · obtain ⟨req, created, same⟩ := made _ new
    exact reached req list created same.symm

/-- A completed request keeps the node consistent if lists come from devices in reach. -/
theorem completeRequest (consistent : node.Consistent) {env : Env} {server : Server}
    {req : Packet} (reached : ∀ list, req = .list list → list.remoteAddr ∈ node.remote2local)
    (completed : node.completeRequest env server req = some after) : after.Consistent := by
  rcases completeRequest_keepsDevices completed with ⟨list, isList, rfl⟩ | keeps
  · exact consistent.list (reached list isList)
  · exact consistent.of_keepsDevices keeps

/-- A synchronous request keeps the node consistent if lists come from devices in reach. -/
theorem syncRequest (consistent : node.Consistent) {env : Env} {server : Server} {req : Packet}
    {transport : Option Message} {succeeded : Bool}
    (reached : ∀ list, req = .list list → list.remoteAddr ∈ node.remote2local)
    (executed : node.syncRequest env server req transport = some (after, succeeded)) :
    after.Consistent := by
  rcases syncRequest_spec executed with ⟨_, rfl⟩ | ⟨rsp, answered, _, read, completed⟩
  · exact consistent
  · refine consistent.completeRequest (fun list isList => ?_) completed
    subst isList
    obtain ⟨asked, rfl, same⟩ := processResponse_list read
    rw [same]
    exact reached asked rfl

/-- A list request is created for a device in reach. -/
theorem createNearbyTorrentsRequest_made {node : Node} {dev : DeviceDescriptor} {draws : Draws}
    {req : TorrentListReq}
    (created : node.createNearbyTorrentsRequest dev draws = some (some req)) :
    req.remoteAddr ∈ node.remote2local := by
  rcases requestThrough_made created with ⟨reached, _, same⟩ | ⟨_, none⟩
  · cases same
    exact Std.TreeMap.mem_iff_contains.mpr reached
  · cases none

/-- Requesting a list keeps the node consistent. -/
theorem requestNearbyTorrents (consistent : node.Consistent) {dev : DeviceDescriptor}
    {draws : Draws} (requested : node.requestNearbyTorrents dev draws = some after) :
    after.Consistent := by
  simp only [Node.requestNearbyTorrents, bind, Option.bind_eq_some_iff,
    Option.some.injEq] at requested
  obtain ⟨req, created, rfl⟩ := requested
  refine consistent.insertCreated fun made list drawn same => ?_
  subst drawn
  cases same
  exact createNearbyTorrentsRequest_made created

theorem requestChunk (consistent : node.Consistent) {name : Bytes} {draws : Draws}
    (requested : node.requestChunk name draws = some after) : after.Consistent := by
  obtain ⟨read, made, created, rfl⟩ := requestChunk_created requested
  have keeps := (createMissingChunkRequest_destroysCopy created).onlyTables.keepsDevices
  exact (consistent.of_keepsDevices keeps).insertCreated fun _ _ _ => Packet.noConfusion

/-- Retrying a request keeps the node consistent. -/
theorem retryRequest (consistent : node.Consistent) {draws : Draws} {req : Packet}
    (retried : node.retryRequest draws req = some after) : after.Consistent := by
  cases req with
  | list req => exact consistent.requestNearbyTorrents retried
  | file req =>
      simp only [Node.retryRequest, requestTorrentFile, bind, Option.bind_eq_some_iff,
        Option.some.injEq] at retried
      obtain ⟨req, _, rfl⟩ := retried
      exact consistent.insertCreated fun _ _ _ => Packet.noConfusion
  | avail req =>
      simp only [Node.retryRequest, requestTorrentAvail, bind, Option.bind_eq_some_iff,
        Option.some.injEq] at retried
      obtain ⟨req, _, rfl⟩ := retried
      exact consistent.insertCreated fun _ _ _ => Packet.noConfusion
  | chunk req => exact consistent.requestChunk retried

/-- Going on with a download keeps the node consistent. -/
theorem continueDownload (consistent : node.Consistent) {env : Env} {name : Bytes}
    {draws : Draws} (continued : node.continueDownload env name draws = some after) :
    after.Consistent := by
  have subscripted := consistent.of_keepsDevices (subscript_keepsDevices node name)
  rcases continueDownload_cases rfl continued with
    ⟨_, files, rfl⟩ | ⟨_, requested, executed, rfl⟩
  · refine (subscripted.of_keepsDevices ?_).of_keepsDevices (destroy_onlyTables _ _).keepsDevices
    exact ⟨⟨rfl, rfl, rfl, rfl⟩, rfl⟩
  · exact (subscripted.requestChunk executed).of_keepsDevices
      (destroy_onlyTables _ _).keepsDevices

/-- A list that is carried out comes from the device that was asked. -/
theorem carryOutRequest_list {req : Packet} {transport : Option Message} {list : TorrentListReq}
    (carried : carryOutRequest req transport = some (.list list)) :
    ∃ asked, req = .list asked ∧ list.remoteAddr = asked.remoteAddr := by
  unfold carryOutRequest at carried
  split at carried
  · cases carried
  · split at carried
    · next read =>
        cases carried
        exact processResponse_list read
    · cases carried

/-- A turn of the job manager keeps the node consistent. -/
theorem jobManagerThread (consistent : node.Consistent) {env : Env} {server : Server}
    {transport : Option Message} {draws : Draws}
    (worked : node.jobManagerThread env server transport draws = some after) :
    after.Consistent := by
  cases jobManagerThread_works worked with
  | idle => exact consistent
  | retried _ _ retried => exact (consistent.retryRequest retried).popJob
  | @continued _ _ chunk _ _ _ continued =>
      have completed := consistent.of_keepsDevices (completeChunkReq_keepsDevices env node chunk)
      exact (completed.continueDownload continued).popJob
  | completed front carried _ done =>
      refine (consistent.completeRequest (fun list isList => ?_) done).popJob
      subst isList
      obtain ⟨asked, rfl, same⟩ := carryOutRequest_list carried
      rw [same]
      exact consistent.listJobs asked (front ▸ List.mem_cons_self)

end Consistent

end Node

namespace System

/-- The loop of `swapKeyVal` comes to keys of the map. -/
theorem nextEntry_mem {node : Node} {last : Option DeviceDescriptor} {dev : DeviceDescriptor}
    {names : List Bytes} (next : nextEntry node last = some (dev, names)) :
    dev ∈ node.dev2tor := by
  have entry : (dev, names) ∈ node.dev2tor.toList := by
    cases last with
    | none => exact List.mem_of_mem_head? next
    | some last => exact List.mem_of_find?_eq_some next
  rw [Std.TreeMap.mem_iff_isSome_getElem?,
    Std.TreeMap.mem_toList_iff_getElem?_eq_some.mp entry, Option.isSome_some]

/-- A statement keeps the node consistent. -/
theorem statement_consistent {env : Env} {server : Server} {transport : Option Message}
    {draws : Draws} {system after : System} (consistent : system.node.Consistent)
    (executed : system.statement env server transport draws = some after) :
    after.node.Consistent := by
  cases statement_goes executed with
  | move => exact consistent
  | clear => exact consistent.clear
  | swap next => exact consistent.swap (nextEntry_mem next) _
  | list created synchronized =>
      refine consistent.syncRequest (fun list isList => ?_) synchronized
      cases isList
      exact Node.Consistent.createNearbyTorrentsRequest_made created
  | avail synchronized => exact consistent.syncRequest (fun _ => Packet.noConfusion) synchronized
  | file _ _ _ synchronized =>
      exact consistent.syncRequest (fun _ => Packet.noConfusion) synchronized
  | chunk created =>
      exact consistent.of_keepsDevices
        (Node.createMissingChunkRequest_destroysCopy created).onlyTables.keepsDevices
  | insert => exact consistent.insertCreated fun _ _ _ => Packet.noConfusion

/-- The steps of the node itself; a request is completed where it was carried out. -/
def Label.Own : Label → Prop
  | .complete _ _ => False
  | _ => True

/-- A step that brings nothing foreign keeps the node consistent. -/
theorem Step.consistent {env : Env} {system after : System} {label : Label}
    (step : Step env system label after) (own : label.Own)
    (consistent : system.node.Consistent) : after.node.Consistent := by
  cases step with
  | jobManager _ worked => exact consistent.jobManagerThread worked
  | statement executed => exact statement_consistent consistent executed
  | requestTorrentData => exact consistent
  | createTorrent _ executed =>
      exact consistent.of_keepsDevices (Node.createTorrent_keepsDevices executed)
  | populateLocalTorrents server =>
      exact consistent.of_keepsDevices (Node.populateLocalTorrents_keepsDevices server _)
  | complete => exact own.elim
  | serve answered =>
      exact consistent.of_keepsDevices (Node.processRequest_onlyTables answered).keepsDevices
  | edit files => exact consistent.of_keepsDevices ⟨⟨rfl, rfl, rfl, rfl⟩, rfl⟩

end System

namespace Call

/-- `syncRequestTorrentFile(name, addr)`. -/
def syncRequestTorrentFileFrom (env : Env) (call : Call) (name addr : Bytes) :
    Option (Call × Bool) := do
  match ← call.node.createTorrentFileRequest name (.create addr) (call.pending 0).draws with
  | none => some (call, false)
  | some req => call.syncRequest env (.file req)

/-- A request for a description is made, or nothing happens. -/
theorem syncRequestTorrentFileFrom_cases {env : Env} {call after : Call}
    {name addr : Bytes} {result : Bool}
    (executed : call.syncRequestTorrentFileFrom env name addr = some (after, result)) :
    after = call ∨ ∃ req, call.syncRequest env (.file req) = some (after, result) := by
  simp only [syncRequestTorrentFileFrom, bind, Option.bind_eq_some_iff] at executed
  obtain ⟨req, _, executed⟩ := executed
  cases req with
  | none =>
      cases executed
      exact .inl rfl
  | some req => exact .inr ⟨req, executed⟩

end Call

namespace Node

/-- `requestTorrentAvail(name, addr)`. -/
def requestTorrentAvailFrom (node : Node) (name addr : Bytes) (draws : Draws) : Option Node := do
  some (node.insertCreated .avail (← node.createTorrentAvailRequest name (.create addr) draws))

/-- `requestChunk(name, index)`. -/
def requestChunkIndex (node : Node) (name : Bytes) (index : Int32) (draws : Draws) :
    Option Node := do
  some (node.insertCreated .chunk
    (← node.requestFromAny name draws fun dev => node.createChunkRequest name index dev draws))

/-- What `init` leaves: the torrents of the tables, the devices of a scan, a job manager. -/
def init (server : Server) (localDevs : List DeviceDescriptor)
    (findNearbyDevs : DeviceDescriptor → List DeviceDescriptor) (files : FileStore)
    (tables : Database) : Node :=
  { ({ files, tables } : Node).populateLocalTorrents server with
    remote2local := (scanForDevs localDevs findNearbyDevs {}).remote2local
    jobManager := true }

/-- A node is consistent behind `init`. -/
theorem init_consistent (server : Server) (localDevs : List DeviceDescriptor)
    (findNearbyDevs : DeviceDescriptor → List DeviceDescriptor) (files : FileStore)
    (tables : Database) : (init server localDevs findNearbyDevs files tables).Consistent := by
  have populated := populateLocalTorrents_keepsDevices server { files, tables }
  refine ⟨⟨fun dev member => ?_, fun name devs found => ?_, ?_, fun name devs found => ?_⟩, rfl,
    fun req member => ?_⟩
  · rw [init, populated.dev2tor] at member
    exact absurd member Std.TreeMap.not_mem_emptyc
  · rw [init, populated.torName2dev, Std.TreeMap.getElem?_emptyc] at found
    cases found
  · exact filled_scanForDevs localDevs findNearbyDevs {}
  · rw [init, populated.torName2dev, Std.TreeMap.getElem?_emptyc] at found
    cases found
  · rw [init, populated.jobs] at member
    cases member

end Node

/-- The node and the main thread, with the devices `listNearbyTorrents` has still to ask. -/
structure Session where
  system : System
  listing : List DeviceDescriptor := []

namespace Session

/-- What happens in a session. -/
inductive Label
  | system (label : System.Label)
  | listNearbyTorrents (addrs : List Bytes)
  | syncRequestNearbyTorrents (outcome : Outcome)
  | syncRequestTorrentFile (name addr : Bytes) (outcome : Outcome)
  | requestTorrentAvail (name addr : Bytes) (draws : Draws)

/-- The main thread waits for a command. -/
def Waits (session : Session) : Prop := session.system.main = .idle ∧ session.listing = []

/-- The label of a command. -/
def IsCommand : System.Label → Prop
  | .requestTorrentData _ | .createTorrent .. | .populateLocalTorrents _ => True
  | _ => False

/-- Steps of a session. The addresses of a listing come out of an unordered set. -/
inductive Step (env : Env) : Session → Label → Session → Prop
  | system {session : Session} {label : System.Label} {after : System} (own : label.Own)
      (waits : IsCommand label → session.Waits)
      (step : System.Step env session.system label after) :
      Step env session (.system label) { session with system := after }
  | listNearbyTorrents {session : Session} {addrs addrSet : List Bytes} (waits : session.Waits)
      (distinct : addrSet.Perm addrs.dedup) :
      Step env session (.listNearbyTorrents addrs)
        { session with
          listing :=
            if addrSet.isEmpty then session.system.node.remote2local.keys
            else addrSet.map DeviceDescriptor.create }
  | syncRequestNearbyTorrents {session : Session} {dev : DeviceDescriptor}
      {devs : List DeviceDescriptor} {outcome : Outcome} {after : Call} {result : Bool}
      (asks : session.listing = dev :: devs)
      (executed : Call.syncRequestNearbyTorrents env ⟨session.system.node, fun _ => outcome⟩ dev =
        some (after, result)) :
      Step env session (.syncRequestNearbyTorrents outcome)
        { system := { session.system with node := after.node }, listing := devs }
  | syncRequestTorrentFile {session : Session} {name addr : Bytes} {outcome : Outcome}
      {after : Call} {result : Bool} (waits : session.Waits)
      (executed : Call.syncRequestTorrentFileFrom env ⟨session.system.node, fun _ => outcome⟩ name
        addr = some (after, result)) :
      Step env session (.syncRequestTorrentFile name addr outcome)
        { session with system := { session.system with node := after.node } }
  | requestTorrentAvail {session : Session} {name addr : Bytes} {draws : Draws} {after : Node}
      (waits : session.Waits)
      (executed : session.system.node.requestTorrentAvailFrom name addr draws = some after) :
      Step env session (.requestTorrentAvail name addr draws)
        { session with system := { session.system with node := after } }

/-- A step of a session keeps the node consistent. -/
theorem Step.consistent {env : Env} {session after : Session} {label : Label}
    (step : Step env session label after) (consistent : session.system.node.Consistent) :
    after.system.node.Consistent := by
  cases step with
  | system own _ step => exact step.consistent own consistent
  | listNearbyTorrents => exact consistent
  | syncRequestNearbyTorrents _ executed =>
      rcases Call.syncRequestNearbyTorrents_cases executed with
        ⟨_, rfl⟩ | ⟨req, _, created, _, synchronized⟩
      · exact consistent
      · refine consistent.syncRequest (fun list isList => ?_) (Call.syncRequest_node synchronized)
        cases isList
        exact Node.Consistent.createNearbyTorrentsRequest_made created
  | syncRequestTorrentFile _ executed =>
      rcases Call.syncRequestTorrentFileFrom_cases executed with rfl | ⟨req, synchronized⟩
      · exact consistent
      · exact consistent.syncRequest (fun _ => Packet.noConfusion)
          (Call.syncRequest_node synchronized)
  | requestTorrentAvail _ executed =>
      simp only [Node.requestTorrentAvailFrom, bind, Option.bind_eq_some_iff,
        Option.some.injEq] at executed
      obtain ⟨req, _, rfl⟩ := executed
      exact consistent.insertCreated fun _ _ _ => Packet.noConfusion

end Session

namespace Node

theorem pick_isSome {α : Type} {v : List α} (ne_nil : v ≠ []) (draw : Nat) :
    (pick v draw).isSome = true := by
  have inside := Nat.mod_lt draw (List.length_pos_of_ne_nil ne_nil)
  rw [pick, List.getElem?_eq_getElem inside, Option.isSome_some]

/-- Every number drawn for a vector is a position of it. -/
structure DrawsValid (node : Node) : Prop where
  locals : ∀ (remote : DeviceDescriptor) (locals : List DeviceDescriptor),
    node.remote2local[remote]? = some locals → ∀ draw, (pick locals draw).isSome = true
  devs : ∀ (name : Bytes) (devs : List DeviceDescriptor),
    node.torName2dev[name]? = some devs → ∀ draw, (pick devs draw).isSome = true

/-- Where requests are drawn from, a step leaves the vectors as they are. -/
theorem Connected.drawsValid {node inside : Node} (connected : node.Connected)
    (keeps : node.KeepsQueue inside) : inside.DrawsValid where
  locals := fun remote locals found =>
    pick_isSome (connected.localsFilled remote locals (keeps.remote2local ▸ found))
  devs := fun name devs found =>
    pick_isSome (connected.devsFilled name devs (keeps.torName2dev ▸ found))

/-- A request through a local device is created, if the device is in reach. -/
theorem Connected.requestThrough {node : Node} (connected : node.Connected) {α : Type}
    (make : DeviceDescriptor → DeviceDescriptor → α) {remote : DeviceDescriptor}
    (reached : remote ∈ node.remote2local) (draws : Draws) :
    ∃ localAddr, node.requestThrough make remote draws = some (some (make remote localAddr)) := by
  rw [Std.TreeMap.mem_iff_isSome_getElem?] at reached
  obtain ⟨locals, found⟩ := Option.isSome_iff_exists.mp reached
  obtain ⟨localAddr, drawn⟩ := Option.isSome_iff_exists.mp
    (pick_isSome (connected.localsFilled remote locals found) draws.localDevice)
  exact ⟨localAddr, by simp only [Node.requestThrough, found, drawn, Option.map_some]⟩

/-- A chunk of a torrent that is offered can be requested. -/
theorem Consistent.requestChunkIndex {node : Node} (consistent : node.Consistent) {name : Bytes}
    (offered : name ∈ node.torName2dev) (index : Int32) (draws : Draws) :
    ∃ req : ChunkReq, req.torrentName = name ∧ req.index = index ∧
      node.requestChunkIndex name index draws =
        some { node with jobs := node.jobs ++ [.chunk req] } := by
  rw [Std.TreeMap.mem_iff_isSome_getElem?] at offered
  obtain ⟨devs, found⟩ := Option.isSome_iff_exists.mp offered
  obtain ⟨dev, drawn⟩ := Option.isSome_iff_exists.mp
    (pick_isSome (consistent.devsFilled name devs found) draws.device)
  have reached := consistent.torName2dev name devs found dev (List.mem_of_getElem? drawn)
  obtain ⟨localAddr, created⟩ := consistent.toConnected.requestThrough
    (fun remoteAddr localAddr : DeviceDescriptor =>
      ({ remoteAddr, localAddr, torrentName := name, index } : ChunkReq)) reached draws
  refine ⟨{ remoteAddr := dev, localAddr, torrentName := name, index }, rfl, rfl, ?_⟩
  simp only [Node.requestChunkIndex, requestFromAny, found, drawn, createChunkRequest, created,
    bind, Option.bind_some, Node.insertCreated, insertJob, consistent.jobManager, ↓reduceIte]

end Node

namespace Session

/-- **The devices a node knows.** In every state reached behind `init` the keys of `dev2tor` and
the devices of `torName2dev` are keys of `remote2local`, and no vector of `remote2local` or
`torName2dev` is empty. So every draw picks a position, also inside a step, and a chunk of any
torrent of `torName2dev` is requested with a job. -/
theorem reachable_connected (env : Env) (server : Server) (localDevs : List DeviceDescriptor)
    (findNearbyDevs : DeviceDescriptor → List DeviceDescriptor) (files : FileStore)
    (tables : Database) {past : List (Session × Label)} {final : Session}
    (run : Transition.Run (Step env)
      { system := { node := .init server localDevs findNearbyDevs files tables } } past final) :
    final.system.node.Connected ∧
      (∀ inside, final.system.node.KeepsQueue inside → inside.DrawsValid) ∧
      ∀ name ∈ final.system.node.torName2dev, ∀ (index : Int32) (draws : Draws),
        ∃ req : ChunkReq, req.torrentName = name ∧ req.index = index ∧
          final.system.node.requestChunkIndex name index draws = some
            { final.system.node with jobs := final.system.node.jobs ++ [.chunk req] } := by
  have meets : Transition.Meets (fun _ _ => True) past := fun _ _ => trivial
  have consistent : final.system.node.Consistent :=
    run.invariant (fun session => session.system.node.Consistent)
      (fun _ _ _ consistent _ step => step.consistent consistent)
      (Node.init_consistent server localDevs findNearbyDevs files tables) meets
  exact ⟨consistent.toConnected, fun inside keeps => consistent.drawsValid keeps,
    fun name offered index draws => consistent.requestChunkIndex offered index draws⟩

/-- The only device nearby lists the torrent `a`, is asked for its list again when the torrent is
requested, and does not answer; it is known to offer the torrent. -/
theorem reachable_connected_listed :
    let server : Server := ⟨.insertion, fun _ => false⟩
    let node : Node :=
      .init server [System.adapter] (fun _ => [System.peer]) .empty {}
    let start : Session := { system := { node } }
    ∃ past final, Transition.Run (Step (.byLength .null)) start past final ∧
      final.system.node.torName2dev[([97] : Bytes)]? = some [System.peer] ∧
      final.system.node.Connected ∧
      (∀ inside, final.system.node.KeepsQueue inside → inside.DrawsValid) ∧
      ∀ name ∈ final.system.node.torName2dev, ∀ (index : Int32) (draws : Draws),
        ∃ req : ChunkReq, req.torrentName = name ∧ req.index = index ∧
          final.system.node.requestChunkIndex name index draws = some
            { final.system.node with jobs := final.system.node.jobs ++ [.chunk req] } := by
  intro server node start
  let listed : Node := { node with dev2tor := node.dev2tor.insert System.peer [[97]] }
  have names : TorrentListReq.parseTorrentList [97] = [[97]] :=
    Utils.tokenize_of_find_none (by decide)
  have executed : Call.syncRequestNearbyTorrents (.byLength .null)
      ⟨node, fun _ => ⟨server, some { data := [97] }, {}⟩⟩ System.peer =
        some (⟨listed, fun _ => ⟨server, some { data := [97] }, {}⟩⟩, false) := by
    have asked : Call.syncRequestNearbyTorrents (.byLength .null)
      ⟨node, fun _ => ⟨server, some { data := [97] }, {}⟩⟩ System.peer =
        some (⟨{ node with dev2tor :=
          node.dev2tor.insert System.peer (TorrentListReq.parseTorrentList [97]) },
          fun _ => ⟨server, some { data := [97] }, {}⟩⟩, false) := rfl
    rwa [names] at asked
  have begun : Transition.Run (Step (.byLength .null)) start [] start := .nil
  have asks := begun.snoc (@Step.listNearbyTorrents _ start [] [] ⟨rfl, rfl⟩ (.refl []))
  have knows := asks.snoc (.syncRequestNearbyTorrents rfl executed)
  have requests := knows.snoc (@Step.system _ _ (.requestTorrentData [97]) _ trivial
    (fun _ => ⟨rfl, rfl⟩) (.requestTorrentData [97] rfl))
  have statement : ∀ {past : List (Session × Label)} {system : System} (after : System),
      Transition.Run (Step (.byLength .null)) start past { system } →
      system.statement (.byLength .null) server none {} = some after →
      ∃ past, Transition.Run (Step (.byLength .null)) start past { system := after } :=
    fun _ run executed => ⟨_, run.snoc (@Step.system _ _ (.statement server none {}) _ trivial
      (by rintro ⟨⟩) (.statement executed))⟩
  obtain ⟨_, asksAgain⟩ := statement ⟨listed, .nearby [97] [System.peer]⟩ requests rfl
  obtain ⟨_, unheard⟩ := statement ⟨listed, .nearby [97] []⟩ asksAgain rfl
  obtain ⟨_, heard⟩ := statement ⟨listed, .clear [97]⟩ unheard rfl
  obtain ⟨_, cleared⟩ := statement ⟨{ listed with torName2dev := {} }, .swap [97] none⟩
    heard rfl
  obtain ⟨_, swapped⟩ := statement _ cleared rfl
  exact ⟨_, _, swapped, rfl, reachable_connected _ _ _ _ _ _ swapped⟩

end Session

end Bp2p
