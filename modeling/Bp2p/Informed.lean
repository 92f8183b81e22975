import Bp2p.DevicesInReach

/-! # What a node knows of others

A node learns what devices offer from their answers to list requests, and from nothing else:
`dev2tor` holds what a device last answered, and `torName2dev` is that map read the other way
round. So if every list that is read names what its sender offers, a device is listed for
nothing but what it offers (`Bp2p.System.Step.informed`).
-/

namespace Bp2p

namespace Node

/-- A device is listed for a torrent only if it offers it, and the list requests that are queued
are new. -/
structure Informed (offers : DeviceDescriptor → Bytes → Prop) (node : Node) : Prop where
  listed : ∀ (dev : DeviceDescriptor) (names : List Bytes), node.dev2tor[dev]? = some names →
    ∀ name ∈ names, offers dev name
  offered : ∀ (name : Bytes) (devs : List DeviceDescriptor), node.torName2dev[name]? = some devs →
    ∀ dev ∈ devs, offers dev name
  new : ∀ req : TorrentListReq, Packet.list req ∈ node.jobs → req.req = {}

/-- What is read from the answer to a new list request is offered by the device asked. -/
def Hears (offers : DeviceDescriptor → Bytes → Prop) (req : Packet) (rsp : Message) : Prop :=
  ∀ list : TorrentListReq, req = .list list → list.req = {} →
    ∀ name ∈ TorrentListReq.parseTorrentList rsp.data, offers list.remoteAddr name

/-- A list that was read is the answer of the device asked. -/
theorem processResponse_listed {req : Packet} {rsp : Message} {list : TorrentListReq}
    (read : req.createRequest.processResponse rsp = .ok (.list list)) :
    ∃ asked, req = .list asked ∧ list.remoteAddr = asked.remoteAddr ∧
      list.torrentList = TorrentListReq.parseTorrentList rsp.data := by
  obtain ⟨asked, rfl, same⟩ := processResponse_list read
  cases read
  exact ⟨asked, rfl, same, rfl⟩

namespace Informed

variable {offers : DeviceDescriptor → Bytes → Prop} {node after : Node}

theorem mono {more : DeviceDescriptor → Bytes → Prop} (informed : node.Informed offers)
    (grows : ∀ dev name, offers dev name → more dev name) : node.Informed more where
  listed dev names found name member := grows dev name (informed.listed dev names found name member)
  offered name devs found dev member := grows dev name (informed.offered name devs found dev member)
  new := informed.new

/-- What is known stays so with the same devices. -/
theorem of_keepsDevices (informed : node.Informed offers) (keeps : node.KeepsDevices after) :
    after.Informed offers := by
  obtain ⟨⟨jobs, _, torName2dev, _⟩, dev2tor⟩ := keeps
  refine ⟨?_, ?_, ?_⟩
  · rw [dev2tor]
    exact informed.listed
  · rw [torName2dev]
    exact informed.offered
  · rw [jobs]
    exact informed.new

/-- A device has told what it offers. -/
theorem list (informed : node.Informed offers) {req : TorrentListReq}
    (told : ∀ name ∈ req.torrentList, offers req.remoteAddr name) :
    (node.completeTorrentListReq req).Informed offers where
  listed dev names found := by
    simp only [completeTorrentListReq, Std.TreeMap.getElem?_insert] at found
    split at found
    · next same =>
        cases found
        rw [← Std.LawfulEqOrd.eq_of_compare same]
        exact told
    · exact informed.listed dev names found
  offered := informed.offered
  new := informed.new

/-- `torName2dev.clear()`. -/
theorem clear (informed : node.Informed offers) :
    ({ node with torName2dev := {} } : Node).Informed offers where
  listed := informed.listed
  offered name devs found := by
    rw [Std.TreeMap.getElem?_emptyc] at found
    cases found
  new := informed.new

/-- One turn of the outer loop of `swapKeyVal`. -/
theorem swap (informed : node.Informed offers) {dev : DeviceDescriptor} {names : List Bytes}
    (entry : node.dev2tor[dev]? = some names) :
    ({ node with
      torName2dev := names.foldl (fun dest val => Utils.swapVal dest dev val) node.torName2dev } :
        Node).Informed offers where
  listed := informed.listed
  offered := by
    intro name devs found other member
    have stored := Utils.getD_swapVals node.torName2dev dev names name
    rw [Std.TreeMap.getD_eq_getD_getElem?, found, Option.getD_some] at stored
    rw [stored, List.mem_append] at member
    rcases member with earlier | new
    · rw [Std.TreeMap.getD_eq_getD_getElem?] at earlier
      cases before : node.torName2dev[name]? with
      | none =>
          rw [before] at earlier
          cases earlier
      | some others =>
          rw [before, Option.getD_some] at earlier
          exact informed.offered name others before other earlier
    · obtain ⟨counted, rfl⟩ := List.mem_replicate.mp new
      have member := (@List.count_pos_iff Bytes instBEqOfDecidableEq _ name names).mp
        (Nat.pos_of_ne_zero counted)
      exact informed.listed other names entry name member
  new := informed.new

/-- The queue changes, and the list requests in it are new. -/
theorem withJobs (informed : node.Informed offers) {jobs : List Packet}
    (new : ∀ req : TorrentListReq, Packet.list req ∈ jobs → req.req = {}) :
    ({ node with jobs } : Node).Informed offers :=
  ⟨informed.listed, informed.offered, new⟩

theorem popJob (informed : node.Informed offers) : node.popJob.Informed offers :=
  informed.withJobs fun req member => informed.new req (List.mem_of_mem_tail member)

/-- A request that was created is queued. -/
theorem insertCreated (informed : node.Informed offers) {α : Type} {packet : α → Packet}
    {req : Option α} (new : ∀ made list, req = some made → packet made = .list list →
      list.req = {}) : (node.insertCreated packet req).Informed offers := by
  obtain ⟨more, inserted, made⟩ := insertCreated_jobs node packet req
  rw [inserted]
  refine informed.withJobs fun list member => ?_
  rcases List.mem_append.mp member with earlier | last
  · exact informed.new list earlier
  · obtain ⟨req, created, same⟩ := made _ last
    exact new req list created same.symm

/-- A completed request makes known what it was told. -/
theorem completeRequest (informed : node.Informed offers) {env : Env} {server : Server}
    {req : Packet} (told : ∀ list, req = .list list →
      ∀ name ∈ list.torrentList, offers list.remoteAddr name)
    (completed : node.completeRequest env server req = some after) : after.Informed offers := by
  rcases completeRequest_keepsDevices completed with ⟨list, isList, rfl⟩ | keeps
  · exact informed.list (told list isList)
  · exact informed.of_keepsDevices keeps

/-- The list that is read from an answer that was heard. -/
theorem told {req answered : Packet} {rsp : Message} (hears : Hears offers req rsp)
    (new : ∀ list : TorrentListReq, req = .list list → list.req = {})
    (read : req.createRequest.processResponse rsp = .ok answered) :
    ∀ list, answered = .list list → ∀ name ∈ list.torrentList, offers list.remoteAddr name := by
  intro list isList name member
  subst isList
  obtain ⟨asked, rfl, device, names⟩ := processResponse_listed read
  rw [names] at member
  rw [device]
  exact hears asked rfl (new asked rfl) name member

/-- A synchronous request makes known what it hears. -/
theorem syncRequest (informed : node.Informed offers) {env : Env} {server : Server} {req : Packet}
    {transport : Option Message} {succeeded : Bool}
    (hears : ∀ rsp, transport = some rsp → Hears offers req rsp)
    (new : ∀ list : TorrentListReq, req = .list list → list.req = {})
    (executed : node.syncRequest env server req transport = some (after, succeeded)) :
    after.Informed offers := by
  rcases syncRequest_spec executed with ⟨_, rfl⟩ | ⟨rsp, answered, sent, read, completed⟩
  · exact informed
  · exact informed.completeRequest (told (hears rsp sent) new read) completed

/-- A request for the list of a device is created new. -/
theorem createNearbyTorrentsRequest_new {dev : DeviceDescriptor} {draws : Draws}
    {req : TorrentListReq}
    (created : node.createNearbyTorrentsRequest dev draws = some (some req)) : req.req = {} := by
  rcases requestThrough_made created with ⟨_, _, same⟩ | ⟨_, none⟩
  · cases same
    rfl
  · cases none

/-- Requesting a list leaves what is known. -/
theorem requestNearbyTorrents (informed : node.Informed offers) {dev : DeviceDescriptor}
    {draws : Draws} (requested : node.requestNearbyTorrents dev draws = some after) :
    after.Informed offers := by
  simp only [Node.requestNearbyTorrents, bind, Option.bind_eq_some_iff,
    Option.some.injEq] at requested
  obtain ⟨req, created, rfl⟩ := requested
  refine informed.insertCreated fun made list drawn same => ?_
  subst drawn
  cases same
  exact createNearbyTorrentsRequest_new created

theorem requestChunk (informed : node.Informed offers) {name : Bytes} {draws : Draws}
    (requested : node.requestChunk name draws = some after) : after.Informed offers := by
  obtain ⟨read, made, created, rfl⟩ := requestChunk_created requested
  have keeps := (createMissingChunkRequest_destroysCopy created).onlyTables.keepsDevices
  exact (informed.of_keepsDevices keeps).insertCreated fun _ _ _ => Packet.noConfusion

/-- Retrying a request leaves what is known. -/
theorem retryRequest (informed : node.Informed offers) {draws : Draws} {req : Packet}
    (retried : node.retryRequest draws req = some after) : after.Informed offers := by
  cases req with
  | list req => exact informed.requestNearbyTorrents retried
  | file req =>
      simp only [Node.retryRequest, requestTorrentFile, bind, Option.bind_eq_some_iff,
        Option.some.injEq] at retried
      obtain ⟨req, _, rfl⟩ := retried
      exact informed.insertCreated fun _ _ _ => Packet.noConfusion
  | avail req =>
      simp only [Node.retryRequest, requestTorrentAvail, bind, Option.bind_eq_some_iff,
        Option.some.injEq] at retried
      obtain ⟨req, _, rfl⟩ := retried
      exact informed.insertCreated fun _ _ _ => Packet.noConfusion
  | chunk req => exact informed.requestChunk retried

/-- Going on with a download leaves what is known. -/
theorem continueDownload (informed : node.Informed offers) {env : Env} {name : Bytes}
    {draws : Draws} (continued : node.continueDownload env name draws = some after) :
    after.Informed offers := by
  have subscripted := informed.of_keepsDevices (subscript_keepsDevices node name)
  rcases continueDownload_cases rfl continued with
    ⟨_, files, rfl⟩ | ⟨_, requested, executed, rfl⟩
  · refine (subscripted.of_keepsDevices ?_).of_keepsDevices (destroy_onlyTables _ _).keepsDevices
    exact ⟨⟨rfl, rfl, rfl, rfl⟩, rfl⟩
  · exact (subscripted.requestChunk executed).of_keepsDevices
      (destroy_onlyTables _ _).keepsDevices

/-- A turn of the job manager makes known what it hears. -/
theorem jobManagerThread (informed : node.Informed offers) {env : Env} {server : Server}
    {transport : Option Message} {draws : Draws}
    (hears : ∀ req rsp, node.jobs.head? = some req → transport = some rsp → Hears offers req rsp)
    (worked : node.jobManagerThread env server transport draws = some after) :
    after.Informed offers := by
  cases jobManagerThread_works worked with
  | idle => exact informed
  | retried _ _ retried => exact (informed.retryRequest retried).popJob
  | @continued _ _ chunk _ _ _ continued =>
      have completed := informed.of_keepsDevices (completeChunkReq_keepsDevices env node chunk)
      exact (completed.continueDownload continued).popJob
  | @completed req answered _ _ front carried _ done =>
      cases transport with
      | none => cases carried
      | some rsp =>
          simp only [carryOutRequest] at carried
          split at carried
          · next packet read =>
              cases carried
              have first : node.jobs.head? = some req := by rw [front, List.head?_cons]
              refine (informed.completeRequest (told (hears req rsp first rfl) ?_ read) done).popJob
              rintro list rfl
              exact informed.new list (front ▸ List.mem_cons_self)
          · cases carried

end Informed

end Node

namespace System

open Node

/-- The request that the main thread carries out in its next statement. -/
def asks (draws : Draws) (system : System) : Option Packet :=
  let node := system.node
  match system.main with
  | .nearby _ (dev :: _) => (node.createNearbyTorrentsRequest dev draws).join.map .list
  | .availFrom name (dev :: _) => (node.createTorrentAvailRequest name dev draws).join.map .avail
  | .file name =>
      if node.name2torrent.contains name then none
      else
        (node.requestFromAny name draws fun dev =>
          node.createTorrentFileRequest name dev draws).join.map .file
  | _ => none

/-- What a step reads from the answer to a list request is offered by the device asked. -/
def Hears (offers : DeviceDescriptor → Bytes → Prop) (system : System) : Label → Prop
  | .jobManager _ transport _ => ∀ req rsp, system.node.jobs.head? = some req →
      transport = some rsp → Node.Hears offers req rsp
  | .statement _ transport draws => ∀ req rsp, system.asks draws = some req →
      transport = some rsp → Node.Hears offers req rsp
  | .complete _ req => ∀ list, req = .list list →
      ∀ name ∈ list.torrentList, offers list.remoteAddr name
  | _ => True

/-- The next entry is one of the map. -/
theorem nextEntry_entry {node : Node} {last : Option DeviceDescriptor} {dev : DeviceDescriptor}
    {names : List Bytes} (next : nextEntry node last = some (dev, names)) :
    node.dev2tor[dev]? = some names := by
  apply Std.TreeMap.mem_toList_iff_getElem?_eq_some.mp
  cases last with
  | none => exact List.mem_of_mem_head? next
  | some last => exact List.mem_of_find?_eq_some next

variable {offers : DeviceDescriptor → Bytes → Prop} {system after : System} {env : Env}
  {label : Label}

/-- A statement makes known what it hears. -/
theorem statement_informed {server : Server} {transport : Option Message} {draws : Draws}
    (informed : system.node.Informed offers)
    (hears : system.Hears offers (.statement server transport draws))
    (executed : system.statement env server transport draws = some after) :
    after.node.Informed offers := by
  cases statement_goes executed with
  | move => exact informed
  | clear => exact informed.clear
  | swap next => exact informed.swap (nextEntry_entry next)
  | list created synchronized =>
      refine informed.syncRequest (fun rsp sent => hears _ rsp ?_ sent) (fun list isList => ?_)
        synchronized
      · simp only [asks, created, Option.join_some, Option.map_some]
      · cases isList
        exact Node.Informed.createNearbyTorrentsRequest_new created
  | avail synchronized =>
      exact informed.syncRequest (fun _ _ _ => Packet.noConfusion) (fun _ => Packet.noConfusion)
        synchronized
  | file _ _ _ synchronized =>
      exact informed.syncRequest (fun _ _ _ => Packet.noConfusion) (fun _ => Packet.noConfusion)
        synchronized
  | chunk created =>
      exact informed.of_keepsDevices
        (createMissingChunkRequest_destroysCopy created).onlyTables.keepsDevices
  | insert => exact informed.insertCreated fun _ _ _ => Packet.noConfusion

/-- A step makes known what it hears. -/
theorem Step.informed (step : Step env system label after) (informed : system.node.Informed offers)
    (hears : system.Hears offers label) : after.node.Informed offers := by
  cases step with
  | jobManager _ worked => exact informed.jobManagerThread hears worked
  | statement executed => exact statement_informed informed hears executed
  | requestTorrentData => exact informed
  | createTorrent _ executed =>
      exact informed.of_keepsDevices (createTorrent_keepsDevices executed)
  | populateLocalTorrents server =>
      exact informed.of_keepsDevices (populateLocalTorrents_keepsDevices server _)
  | complete completed => exact informed.completeRequest hears completed
  | serve answered =>
      exact informed.of_keepsDevices (processRequest_onlyTables answered).keepsDevices
  | edit files => exact informed.of_keepsDevices ⟨⟨rfl, rfl, rfl, rfl⟩, rfl⟩

end System

end Bp2p
