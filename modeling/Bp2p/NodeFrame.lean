import Bp2p.NodeRun

/-! # What the functions of a node leave alone

Reading a torrent changes the tables only, through the destructor of the copy that is
read. Completing requests and creating torrents changes torrents, files and tables.
Requests queue jobs behind the ones there are; besides completing a request, the job
manager changes the tables through the destructors of copies only.
-/

namespace Bp2p

namespace Torrent

/-- A torrent whose data file is there, when a chunk was put into it. -/
def withChunk (env : Env) (torrent : Torrent) (chunk : Bytes) (index : UInt32) : Torrent :=
  if torrent.validateChunk env chunk index then torrent.markExisting index else torrent

/-- With its file there, a torrent that is given a chunk marks it if it is valid. -/
theorem putChunk_of_file {env : Env} {files : FileStore} {torrent : Torrent} {content : Bytes}
    (chunk : Bytes) (index : UInt32)
    (exist : files (torrent.getPackagePath env) = some content) :
    (torrent.putChunk env files chunk index).1 = torrent.withChunk env chunk index := by
  simp only [putChunk, exist, withChunk]
  split
  · rfl
  · rfl

/-- A copy that a chunk was put into, assigned to the torrent it was made of. -/
theorem assign_withChunk_copy (env : Env) (torrent : Torrent) (chunk : Bytes) (index : UInt32) :
    torrent.assign (torrent.copy.withChunk env chunk index) =
      torrent.withChunk env chunk index := by
  have same : torrent.copy.validateChunk env chunk index = torrent.validateChunk env chunk index :=
    rfl
  simp only [withChunk, same]
  split
  · rfl
  · rfl

end Torrent

namespace Node

/-- Nothing but the tables differs. -/
def OnlyTables (node after : Node) : Prop := ∃ tables, after = { node with tables }

/-- The queue, and what requests for chunks are made of, are the same. -/
structure KeepsQueue (node after : Node) : Prop where
  jobs : after.jobs = node.jobs
  jobManager : after.jobManager = node.jobManager
  torName2dev : after.torName2dev = node.torName2dev
  remote2local : after.remote2local = node.remote2local

theorem KeepsQueue.refl (node : Node) : node.KeepsQueue node := ⟨rfl, rfl, rfl, rfl⟩

theorem KeepsQueue.trans {first second third : Node} (left : first.KeepsQueue second)
    (right : second.KeepsQueue third) : first.KeepsQueue third :=
  ⟨right.jobs.trans left.jobs, right.jobManager.trans left.jobManager,
    right.torName2dev.trans left.torName2dev, right.remote2local.trans left.remote2local⟩

/-- What is known of other devices is the same as well. -/
structure KeepsDevices (node after : Node) : Prop extends node.KeepsQueue after where
  dev2tor : after.dev2tor = node.dev2tor

theorem KeepsDevices.refl (node : Node) : node.KeepsDevices node := ⟨.refl node, rfl⟩

theorem KeepsDevices.trans {first second third : Node} (left : first.KeepsDevices second)
    (right : second.KeepsDevices third) : first.KeepsDevices third :=
  ⟨left.toKeepsQueue.trans right.toKeepsQueue, right.dev2tor.trans left.dev2tor⟩

theorem OnlyTables.keepsDevices {node after : Node} (only : node.OnlyTables after) :
    node.KeepsDevices after := by
  obtain ⟨tables, rfl⟩ := only
  exact ⟨⟨rfl, rfl, rfl, rfl⟩, rfl⟩

theorem OnlyTables.keepsQueue {node after : Node} (only : node.OnlyTables after) :
    node.KeepsQueue after :=
  only.keepsDevices.toKeepsQueue

theorem destroy_onlyTables (node : Node) (torrent : Torrent) :
    node.OnlyTables (node.destroy torrent) :=
  ⟨_, rfl⟩

/-- Nothing differs, unless a copy of a torrent of the map has gone out of scope. -/
def DestroysCopy (node after : Node) : Prop :=
  after = node ∨ ∃ (name : Bytes) (stored : Torrent), node.name2torrent[name]? = some stored ∧
    after = node.destroy stored.copy

theorem DestroysCopy.onlyTables {node after : Node} (destroys : node.DestroysCopy after) :
    node.OnlyTables after := by
  rcases destroys with rfl | ⟨name, stored, _, rfl⟩
  · exact ⟨_, rfl⟩
  · exact destroy_onlyTables ..

/-- The torrents are the same, and the tables are those left by copies of them that went
out of scope. -/
structure KeepsTorrents (node after : Node) : Prop where
  name2torrent : after.name2torrent = node.name2torrent
  tables : ∃ copies : List Torrent,
    (∀ copied ∈ copies, ∃ (name : Bytes) (stored : Torrent),
      node.name2torrent[name]? = some stored ∧ copied = stored.copy) ∧
    after.tables = copies.foldl (fun tables copied => copied.destroy tables) node.tables

theorem KeepsTorrents.of_eq {node after : Node}
    (name2torrent : after.name2torrent = node.name2torrent)
    (tables : after.tables = node.tables) : node.KeepsTorrents after :=
  ⟨name2torrent, [], fun _ member => absurd member List.not_mem_nil, tables⟩

/-- Two parts that keep the torrents keep them together. -/
theorem KeepsTorrents.trans {first second third : Node} (left : first.KeepsTorrents second)
    (right : second.KeepsTorrents third) : first.KeepsTorrents third := by
  obtain ⟨copies, old, before⟩ := left.tables
  obtain ⟨more, new, after⟩ := right.tables
  refine ⟨right.name2torrent.trans left.name2torrent, copies ++ more, fun copied member => ?_, ?_⟩
  · rcases List.mem_append.mp member with earlier | later
    · exact old copied earlier
    · rw [← left.name2torrent]
      exact new copied later
  · rw [after, before, List.foldl_append]

theorem destroy_copy_keepsTorrents {node : Node} {name : Bytes} {stored : Torrent}
    (found : node.name2torrent[name]? = some stored) :
    node.KeepsTorrents (node.destroy stored.copy) := by
  refine ⟨rfl, [stored.copy], fun copied member => ⟨name, stored, found, ?_⟩, rfl⟩
  exact List.mem_singleton.mp member

theorem DestroysCopy.keepsTorrents {node after : Node} (destroys : node.DestroysCopy after) :
    node.KeepsTorrents after := by
  rcases destroys with rfl | ⟨name, stored, found, rfl⟩
  · exact .of_eq rfl rfl
  · exact destroy_copy_keepsTorrents found

theorem subscript_found {node : Node} {name : Bytes} {torrent : Torrent}
    (found : node.name2torrent[name]? = some torrent) : node.subscript name = (node, torrent) := by
  simp only [subscript, found]

theorem subscript_missing {node : Node} {name : Bytes} (missing : node.name2torrent[name]? = none) :
    node.subscript name = ({ node with name2torrent := node.name2torrent.insert name {} }, {}) := by
  simp only [subscript, missing]

/-- Looking a name up keeps the devices. -/
theorem subscript_keepsDevices (node : Node) (name : Bytes) :
    node.KeepsDevices (node.subscript name).1 := by
  unfold subscript
  split
  · exact .refl node
  · exact ⟨⟨rfl, rfl, rfl, rfl⟩, rfl⟩

theorem setTorrent_keepsDevices (node : Node) (name : Bytes) (torrent : Torrent) :
    node.KeepsDevices (node.setTorrent name torrent) :=
  (subscript_keepsDevices node name).trans ⟨⟨rfl, rfl, rfl, rfl⟩, rfl⟩

@[simp] theorem subscript_tables (node : Node) (name : Bytes) :
    (node.subscript name).1.tables = node.tables := by
  unfold subscript
  split
  · rfl
  · rfl

@[simp] theorem setTorrent_tables (node : Node) (name : Bytes) (torrent : Torrent) :
    (node.setTorrent name torrent).tables = node.tables :=
  subscript_tables node name

/-- A torrent that is stored if it was made, and then goes out of scope. -/
theorem keep_keepsDevices {node made : Node} (keeps : node.KeepsDevices made) (stored : Bool)
    (name : Bytes) (torrent : Torrent) :
    node.KeepsDevices
      ((if stored then made.setTorrent name torrent else made).destroy torrent) := by
  refine KeepsDevices.trans ?_ (destroy_onlyTables _ _).keepsDevices
  split
  · exact keeps.trans (setTorrent_keepsDevices ..)
  · exact keeps

/-- A name that has been looked up is in the map. -/
theorem subscript_subscript (node : Node) (name : Bytes) :
    (node.subscript name).1.name2torrent[name]? = some (node.subscript name).2 := by
  cases found : node.name2torrent[name]? with
  | some torrent => rw [subscript_found found, found]
  | none =>
      simp only [subscript_missing found, Std.TreeMap.getElem?_insert,
        Std.LawfulEqOrd.compare_eq_iff_eq, ↓reduceIte]

/-- Looking a name up leaves other names. -/
theorem getElem?_subscript_of_ne (node : Node) {name other : Bytes} (different : name ≠ other) :
    (node.subscript name).1.name2torrent[other]? = node.name2torrent[other]? := by
  cases found : node.name2torrent[name]? with
  | some torrent => rw [subscript_found found]
  | none =>
      simp only [subscript_missing found, Std.TreeMap.getElem?_insert,
        Std.LawfulEqOrd.compare_eq_iff_eq, different, ↓reduceIte]

/-- The map keeps its entries except for the torrent stored under the name. -/
def Stores (node after : Node) (name : Bytes) (torrent : Torrent) : Prop :=
  ∀ other : Bytes, after.name2torrent[other]? =
    if name = other then some torrent else node.name2torrent[other]?

/-- Storing a torrent stores it under its name alone. -/
theorem setTorrent_stores (node : Node) (name : Bytes) (torrent : Torrent) :
    node.Stores (node.setTorrent name torrent) name ((node.subscript name).2.assign torrent) := by
  intro other
  unfold setTorrent
  simp only [Std.TreeMap.getElem?_insert, Std.LawfulEqOrd.compare_eq_iff_eq]
  split
  · rfl
  · next different => exact getElem?_subscript_of_ne node different

/-- Reading a torrent changes the tables alone. -/
theorem readTorrent_onlyTables {α : Type} {env : Env} {server : Server} {node after : Node}
    {name : Bytes} {unread result : α} {read : Torrent → α}
    (executed : node.readTorrent env server name unread read = some (after, result)) :
    node.OnlyTables after := by
  unfold readTorrent at executed
  split at executed
  · cases executed
    exact ⟨_, rfl⟩
  · split at executed
    · cases executed
    · cases executed
      exact destroy_onlyTables ..

/-- Answering a request reads a torrent or does nothing. -/
theorem processRequest_spec {env : Env} {server : Server} {node after : Node}
    {req rsp : Message} {memory : Bytes}
    (answered : node.processRequest env server req memory = some (after, rsp)) :
    after = node ∨ ∃ (α : Type) (name : Bytes) (unread result : α) (read : Torrent → α),
      node.readTorrent env server name unread read = some (after, result) := by
  unfold processRequest at answered
  split at answered
  · cases answered
    exact .inl rfl
  · next packet made =>
      cases packet with
      | list req =>
          cases answered
          exact .inl rfl
      | file req | avail req | chunk req =>
          simp only [processPacket, bind, Option.bind_eq_some_iff, Option.some.injEq,
            Prod.mk.injEq, Prod.exists] at answered
          obtain ⟨read, packet, ⟨left, result, executed, same, _⟩, rfl, _⟩ := answered
          subst same
          exact .inr ⟨_, _, _, _, _, executed⟩

/-- Answering a request changes the tables alone. -/
theorem processRequest_onlyTables {env : Env} {server : Server} {node after : Node}
    {req rsp : Message} {memory : Bytes}
    (answered : node.processRequest env server req memory = some (after, rsp)) :
    node.OnlyTables after := by
  rcases processRequest_spec answered with rfl | ⟨_, _, _, _, _, executed⟩
  · exact ⟨_, rfl⟩
  · exact readTorrent_onlyTables executed

/-- Drawing a missing chunk destroys a copy at most. -/
theorem getMissingChunkIndex_destroysCopy {node after : Node} {name : Bytes} {draws : Draws}
    {index : Int32} (executed : node.getMissingChunkIndex name draws = some (after, index)) :
    node.DestroysCopy after := by
  unfold getMissingChunkIndex at executed
  split at executed
  · cases executed
    exact .inl rfl
  · next stored found =>
      simp only [Option.map_eq_some_iff, Prod.mk.injEq] at executed
      obtain ⟨chunk, _, rfl, _⟩ := executed
      exact .inr ⟨name, stored, found, rfl⟩

/-- Making a request for a missing chunk destroys a copy at most. -/
theorem createMissingChunkRequest_destroysCopy {node after : Node} {name : Bytes} {draws : Draws}
    {req : Option ChunkReq}
    (executed : node.createMissingChunkRequest name draws = some (after, req)) :
    node.DestroysCopy after := by
  simp only [createMissingChunkRequest, bind, Option.bind_eq_some_iff, Option.some.injEq,
    Prod.mk.injEq, Prod.exists] at executed
  obtain ⟨read, index, missing, made, _, rfl, _⟩ := executed
  exact getMissingChunkIndex_destroysCopy missing

/-- The device drawn for the torrent is in reach. -/
def InReach (node : Node) (name : Bytes) (draws : Draws) : Prop :=
  ∃ devs dev, node.torName2dev[name]? = some devs ∧ pick devs draws.device = some dev ∧
    node.remote2local.contains dev = true

theorem KeepsQueue.inReach_iff {node after : Node} (keeps : node.KeepsQueue after) (name : Bytes)
    (draws : Draws) : after.InReach name draws ↔ node.InReach name draws := by
  simp only [InReach, keeps.torName2dev, keeps.remote2local]

/-- A request to a device is created exactly when the device is in reach. -/
theorem requestThrough_made {α : Type} {node : Node} {remote : DeviceDescriptor} {draws : Draws}
    {make : DeviceDescriptor → DeviceDescriptor → α} {req : Option α}
    (created : node.requestThrough make remote draws = some req) :
    (node.remote2local.contains remote = true ∧ ∃ localAddr, req = some (make remote localAddr)) ∨
      (node.remote2local.contains remote = false ∧ req = none) := by
  unfold requestThrough at created
  rw [Std.TreeMap.contains_eq_isSome_getElem?]
  split at created
  · next unreachable =>
      cases created
      exact .inr ⟨by rw [unreachable, Option.isSome_none], rfl⟩
  · next locals reachable =>
      simp only [Option.map_eq_some_iff] at created
      obtain ⟨localAddr, _, rfl⟩ := created
      exact .inl ⟨by rw [reachable, Option.isSome_some], localAddr, rfl⟩

/-- A request is created exactly when the device drawn is in reach. -/
theorem requestFromAny_made {α : Type} {node : Node} {name : Bytes} {draws : Draws}
    {make : DeviceDescriptor → DeviceDescriptor → α} {req : Option α}
    (created : (node.requestFromAny name draws fun dev =>
      node.requestThrough make dev draws) = some req) :
    (node.InReach name draws ∧ ∃ remoteAddr localAddr, req = some (make remoteAddr localAddr)) ∨
      (¬ node.InReach name draws ∧ req = none) := by
  unfold requestFromAny at created
  split at created
  · next missing =>
      cases created
      refine .inr ⟨fun ⟨devs, _, found, _⟩ => ?_, rfl⟩
      rw [missing] at found
      cases found
  · next devs found =>
      simp only [bind, Option.bind_eq_some_iff] at created
      obtain ⟨dev, drawn, made⟩ := created
      rcases requestThrough_made made with ⟨reached, localAddr, rfl⟩ | ⟨unreached, rfl⟩
      · exact .inl ⟨⟨devs, dev, found, drawn, reached⟩, dev, localAddr, rfl⟩
      · refine .inr ⟨fun ⟨others, other, same, picked, reached⟩ => ?_, rfl⟩
        rw [found, Option.some.injEq] at same
        subst same
        rw [drawn, Option.some.injEq] at picked
        subst picked
        rw [unreached] at reached
        cases reached

/-- A request that was created goes behind the jobs, if there is a job manager. -/
theorem insertCreated_jobs {α : Type} (node : Node) (packet : α → Packet) (req : Option α) :
    ∃ more, node.insertCreated packet req = { node with jobs := node.jobs ++ more } ∧
      ∀ job ∈ more, ∃ made, req = some made ∧ job = packet made := by
  have unchanged : node = { node with jobs := node.jobs ++ [] } := by rw [List.append_nil]
  have none : ∀ job ∈ ([] : List Packet), ∃ made, req = some made ∧ job = packet made :=
    fun _ member => absurd member List.not_mem_nil
  unfold insertCreated
  split
  · exact ⟨[], unchanged, none⟩
  · next made =>
      unfold insertJob
      split
      · exact ⟨_, rfl, fun job member => ⟨made, rfl, List.mem_singleton.mp member⟩⟩
      · exact ⟨[], unchanged, none⟩

/-- What a chunk request leaves is the queue of the node read, with the request. -/
theorem requestChunk_created {node after : Node} {name : Bytes} {draws : Draws}
    (requested : node.requestChunk name draws = some after) :
    ∃ read made, node.createMissingChunkRequest name draws = some (read, made) ∧
      after = read.insertCreated .chunk made := by
  simp only [requestChunk, bind, Option.bind_eq_some_iff, Option.some.injEq,
    Prod.exists] at requested
  obtain ⟨read, made, created, rfl⟩ := requested
  exact ⟨read, made, created, rfl⟩

/-- A retry calls `requestChunk` for a chunk, and otherwise puts requests for no chunk behind
the jobs. -/
theorem retryRequest_cases {node after : Node} {draws : Draws} {req : Packet}
    (retried : node.retryRequest draws req = some after) :
    (∃ chunk : ChunkReq, req = .chunk chunk ∧
      node.requestChunk chunk.torrentName draws = some after) ∨
      ∃ more, after = { node with jobs := node.jobs ++ more } ∧
        ∀ chunk, Packet.chunk chunk ∉ more := by
  cases req with
  | list req | file req | avail req =>
      simp only [retryRequest, requestNearbyTorrents, requestTorrentFile, requestTorrentAvail, bind,
        Option.bind_eq_some_iff, Option.some.injEq] at retried
      obtain ⟨made, _, rfl⟩ := retried
      obtain ⟨more, inserted, members⟩ := insertCreated_jobs node _ made
      refine .inr ⟨more, inserted, fun chunk member => ?_⟩
      obtain ⟨_, _, same⟩ := members _ member
      cases same
  | chunk req => exact .inl ⟨req, rfl, retried⟩

/-- Completing a description keeps the devices. -/
theorem completeTorrentFileReq_keepsDevices {env : Env} {server : Server} {node after : Node}
    {req : TorrentFileReq} (completed : node.completeTorrentFileReq env server req = some after) :
    node.KeepsDevices after := by
  unfold completeTorrentFileReq at completed
  split at completed
  · cases completed
  · split at completed
    · cases completed
    · simp only [Option.some.injEq] at completed
      subst completed
      refine keep_keepsDevices ?_ _ _ _
      exact ⟨⟨rfl, rfl, rfl, rfl⟩, rfl⟩

/-- Completing a chunk keeps the devices. -/
theorem completeChunkReq_keepsDevices (env : Env) (node : Node) (req : ChunkReq) :
    node.KeepsDevices (node.completeChunkReq env req) := by
  unfold completeChunkReq
  refine KeepsDevices.trans ?_ (destroy_onlyTables _ _).keepsDevices
  refine KeepsDevices.trans ?_ (setTorrent_keepsDevices ..)
  exact (subscript_keepsDevices node req.torrentName).trans ⟨⟨rfl, rfl, rfl, rfl⟩, rfl⟩

/-- A completed chunk is put into a copy of the torrent, which is stored again and goes
out of scope; the data file is there, whether it was or is created. -/
theorem completeChunkReq_spec (env : Env) (node : Node) (req : ChunkReq) :
    node.Stores (node.completeChunkReq env req) req.torrentName
        ((node.subscript req.torrentName).2.withChunk env req.chunk req.index.toUInt32) ∧
      (node.completeChunkReq env req).tables =
        ((node.subscript req.torrentName).2.copy.withChunk env req.chunk
          req.index.toUInt32).destroy node.tables := by
  unfold completeChunkReq
  have again := subscript_subscript node req.torrentName
  have unread := subscript_tables node req.torrentName
  have others : ∀ other : Bytes, req.torrentName ≠ other →
      (node.subscript req.torrentName).1.name2torrent[other]? = node.name2torrent[other]? :=
    fun other different => getElem?_subscript_of_ne node different
  generalize node.subscript req.torrentName = subscripted at again unread others
  obtain ⟨there, stored⟩ := subscripted
  simp only at again unread others ⊢
  generalize written : (if stored.copy.torrentDataExists env there.files then there.files
    else stored.copy.createTorrentDataFile env there.files) = files
  have exist : ∃ content, files (stored.copy.getPackagePath env) = some content := by
    rw [← written]
    split
    · next existing => exact Option.isSome_iff_exists.mp existing
    · exact ⟨_, Files.write_self ..⟩
  obtain ⟨content, read⟩ := exist
  have put := Torrent.putChunk_of_file req.chunk req.index.toUInt32 read
  generalize stored.copy.putChunk env files req.chunk req.index.toUInt32 = result at put
  obtain ⟨tor, left, done⟩ := result
  simp only at put
  constructor
  · intro other
    apply (setTorrent_stores { there with files := left } req.torrentName tor other).trans
    have target : ({ there with files := left } : Node).subscript req.torrentName =
      ({ there with files := left }, stored) := subscript_found again
    split
    · rw [target, put, Torrent.assign_withChunk_copy]
    · next different => exact others other different
  · simp only [destroy, setTorrent_tables, put, unread]

theorem completeChunkReq_stores (env : Env) (node : Node) (req : ChunkReq) :
    node.Stores (node.completeChunkReq env req) req.torrentName
      ((node.subscript req.torrentName).2.withChunk env req.chunk req.index.toUInt32) :=
  (completeChunkReq_spec env node req).1

/-- Completing availability leaves the map of torrents. -/
theorem completeTorrentAvailReq_name2torrent (node : Node) (req : TorrentAvailReq) :
    (node.completeTorrentAvailReq req).name2torrent = node.name2torrent := by
  unfold completeTorrentAvailReq
  simp only
  split
  · rfl
  · rfl

/-- Only a completed list request changes what is known of other devices. -/
theorem completeRequest_keepsDevices {env : Env} {server : Server} {node after : Node}
    {req : Packet} (completed : node.completeRequest env server req = some after) :
    (∃ list, req = .list list ∧ after = node.completeTorrentListReq list) ∨
      node.KeepsDevices after := by
  cases req with
  | list req =>
      cases completed
      exact .inl ⟨req, rfl, rfl⟩
  | file req => exact .inr (completeTorrentFileReq_keepsDevices completed)
  | avail req =>
      cases completed
      unfold completeTorrentAvailReq
      simp only
      split
      · exact .inr (.refl node)
      · exact .inr ⟨⟨rfl, rfl, rfl, rfl⟩, rfl⟩
  | chunk req =>
      cases completed
      exact .inr (completeChunkReq_keepsDevices env node req)

/-- Completing any request keeps the queue. -/
theorem completeRequest_keepsQueue {env : Env} {server : Server} {node after : Node}
    {req : Packet} (completed : node.completeRequest env server req = some after) :
    node.KeepsQueue after := by
  rcases completeRequest_keepsDevices completed with ⟨list, _, rfl⟩ | keeps
  · exact ⟨rfl, rfl, rfl, rfl⟩
  · exact keeps.toKeepsQueue

/-- A request that is waited for is completed with its answer, if there is one. -/
theorem syncRequest_spec {env : Env} {server : Server} {node after : Node} {req : Packet}
    {transport : Option Message} {succeeded : Bool}
    (executed : node.syncRequest env server req transport = some (after, succeeded)) :
    (transport = none ∧ after = node) ∨ ∃ rsp answered, transport = some rsp ∧
      req.createRequest.processResponse rsp = .ok answered ∧
      node.completeRequest env server answered = some after := by
  unfold syncRequest at executed
  split at executed
  · cases executed
    exact .inl ⟨rfl, rfl⟩
  · next rsp =>
      split at executed
      · cases executed
      · next answered read =>
          simp only [Option.map_eq_some_iff, Prod.mk.injEq] at executed
          obtain ⟨done, completed, rfl, _⟩ := executed
          exact .inr ⟨rsp, answered, rfl, read, completed⟩

/-- A request that is waited for succeeds if there is an answer. -/
theorem syncRequest_succeeds_iff {env : Env} {server : Server} {node after : Node} {req : Packet}
    {transport : Option Message} {succeeded : Bool}
    (executed : node.syncRequest env server req transport = some (after, succeeded)) :
    succeeded = true ↔ transport.isSome = true := by
  unfold syncRequest at executed
  split at executed
  · cases executed
    exact iff_of_false Bool.false_ne_true Bool.false_ne_true
  · split at executed
    · cases executed
    · simp only [Option.map_eq_some_iff, Prod.mk.injEq] at executed
      obtain ⟨_, _, _, rfl⟩ := executed
      exact iff_of_true rfl rfl

/-- A synchronous request keeps the queue. -/
theorem syncRequest_keepsQueue {env : Env} {server : Server} {node after : Node} {req : Packet}
    {transport : Option Message} {succeeded : Bool}
    (executed : node.syncRequest env server req transport = some (after, succeeded)) :
    node.KeepsQueue after := by
  rcases syncRequest_spec executed with ⟨_, rfl⟩ | ⟨_, _, _, _, completed⟩
  · exact .refl after
  · exact completeRequest_keepsQueue completed

/-- What answers a request for available chunks is one of its kind. -/
theorem processResponse_avail {req : TorrentAvailReq} {rsp : Message} {answered : Packet}
    (read : (Packet.avail req).createRequest.processResponse rsp = .ok answered) :
    ∃ req, answered = .avail req := by
  simp only [Packet.createRequest, Packet.processResponse] at read
  cases parsed : req.createRequest.processResponse rsp with
  | error thrown => simp only [parsed, Except.map, reduceCtorEq] at read
  | ok packet =>
      simp only [parsed, Except.map, Except.ok.injEq] at read
      exact ⟨packet, read.symm⟩

/-- A request for available chunks succeeds if there is an answer, and changes no torrent. -/
theorem syncRequest_avail {env : Env} {server : Server} {node after : Node} {req : TorrentAvailReq}
    {transport : Option Message} {succeeded : Bool}
    (executed : node.syncRequest env server (.avail req) transport = some (after, succeeded)) :
    (succeeded = true ↔ transport.isSome = true) ∧ after.name2torrent = node.name2torrent := by
  refine ⟨syncRequest_succeeds_iff executed, ?_⟩
  rcases syncRequest_spec executed with ⟨_, rfl⟩ | ⟨rsp, answered, _, read, completed⟩
  · rfl
  · obtain ⟨avail, rfl⟩ := processResponse_avail read
    cases completed
    exact completeTorrentAvailReq_name2torrent node avail

/-- The torrent is stored if it was created, and goes out of scope. -/
theorem createTorrent_spec {env : Env} {server : Server} {node after : Node} {name : Bytes}
    {filenames : List Bytes} {created : Bool}
    (executed : node.createTorrent env server name filenames = some (after, created)) :
    ∃ t files tables, (Torrent.ofFiles name filenames).create env server.refuses node.files
        node.tables = (.ok (t, created), files, tables) ∧
      after = ((if created then ({ node with files, tables } : Node).setTorrent name t
        else { node with files, tables }).destroy t) := by
  unfold createTorrent at executed
  split at executed
  · cases executed
  · next t res files tables made =>
      simp only [Option.some.injEq, Prod.mk.injEq] at executed
      obtain ⟨rfl, rfl⟩ := executed
      exact ⟨t, files, tables, made, rfl⟩

/-- Creating a torrent keeps the devices. -/
theorem createTorrent_keepsDevices {env : Env} {server : Server} {node after : Node}
    {name : Bytes} {filenames : List Bytes} {created : Bool}
    (executed : node.createTorrent env server name filenames = some (after, created)) :
    node.KeepsDevices after := by
  obtain ⟨t, files, tables, _, rfl⟩ := createTorrent_spec executed
  refine keep_keepsDevices ?_ created name t
  exact ⟨⟨rfl, rfl, rfl, rfl⟩, rfl⟩

/-- What holds between a node and itself, and is kept by a step of a fold, holds
between a node and the fold over it. -/
theorem keepsDevices_foldl {α : Type} (step : Node → α → Node)
    (keeps : ∀ (node : Node) (item : α), node.KeepsDevices (step node item)) (items : List α)
    (node : Node) : node.KeepsDevices (items.foldl step node) := by
  induction items generalizing node with
  | nil => exact .refl node
  | cons item rest ih => exact (keeps node item).trans (ih _)

/-- Reading the torrents again keeps the devices. -/
theorem populateLocalTorrents_keepsDevices (server : Server) (node : Node) :
    node.KeepsDevices (node.populateLocalTorrents server) := by
  have cleared : node.KeepsDevices node.clearTorrents := by
    unfold clearTorrents
    rw [Std.TreeMap.foldl_eq_foldl_toList]
    refine KeepsDevices.trans (keepsDevices_foldl _ (fun node entry => ?_) _ node)
      ⟨⟨rfl, rfl, rfl, rfl⟩, rfl⟩
    exact (destroy_onlyTables node entry.2).keepsDevices
  refine cleared.trans (KeepsDevices.trans ?_ (keepsDevices_foldl _ ?_ _ _))
  · exact keepsDevices_foldl _ (fun node tor => setTorrent_keepsDevices ..) _ _
  · exact fun node tor => (destroy_onlyTables node tor).keepsDevices

theorem insertCreated_keepsTorrents {α : Type} (node : Node) (packet : α → Packet)
    (req : Option α) : node.KeepsTorrents (node.insertCreated packet req) := by
  obtain ⟨more, inserted, _⟩ := insertCreated_jobs node packet req
  rw [inserted]
  exact .of_eq rfl rfl

theorem requestChunk_keepsTorrents {node after : Node} {name : Bytes} {draws : Draws}
    (requested : node.requestChunk name draws = some after) : node.KeepsTorrents after := by
  obtain ⟨read, made, executed, rfl⟩ := requestChunk_created requested
  exact (createMissingChunkRequest_destroysCopy executed).keepsTorrents.trans
    (insertCreated_keepsTorrents ..)

theorem retryRequest_keepsTorrents {node after : Node} {draws : Draws} {req : Packet}
    (retried : node.retryRequest draws req = some after) : node.KeepsTorrents after := by
  rcases retryRequest_cases retried with ⟨chunk, _, requested⟩ | ⟨more, rfl, _⟩
  · exact requestChunk_keepsTorrents requested
  · exact .of_eq rfl rfl

/-- Behind a chunk the torrent is unpackaged if it is complete, and another chunk is asked for
if it is not. -/
theorem continueDownload_cases {env : Env} {node after current : Node} {name : Bytes}
    {draws : Draws} {stored : Torrent} (subscripted : node.subscript name = (current, stored))
    (continued : node.continueDownload env name draws = some after) :
    (stored.isComplete = true ∧
        ∃ files, after = ({ current with files } : Node).destroy stored.copy) ∨
      (stored.isComplete = false ∧ ∃ requested, current.requestChunk name draws = some requested ∧
        after = requested.destroy stored.copy) := by
  simp only [continueDownload, subscripted, bind] at continued
  split at continued
  · next complete =>
      simp only [Option.bind_eq_some_iff, Option.map_eq_some_iff, Option.some.injEq] at continued
      obtain ⟨_, ⟨⟨files, _⟩, _, rfl⟩, rfl⟩ := continued
      exact .inl ⟨complete, files, rfl⟩
  · next incomplete =>
      simp only [Option.bind_eq_some_iff, Option.some.injEq] at continued
      obtain ⟨requested, executed, rfl⟩ := continued
      exact .inr ⟨Bool.eq_false_iff.mpr incomplete, requested, executed, rfl⟩

/-- Going on with a download keeps the torrents of a node that has the one it is about. -/
theorem continueDownload_keepsTorrents {env : Env} {node after : Node} {name : Bytes}
    {draws : Draws} {torrent : Torrent} (found : node.name2torrent[name]? = some torrent)
    (continued : node.continueDownload env name draws = some after) : node.KeepsTorrents after := by
  rcases continueDownload_cases (subscript_found found) continued with
    ⟨_, files, rfl⟩ | ⟨_, requested, executed, rfl⟩
  · have unpacked : node.KeepsTorrents { node with files } := .of_eq rfl rfl
    exact unpacked.trans (destroy_copy_keepsTorrents found)
  · have kept := requestChunk_keepsTorrents executed
    exact kept.trans (destroy_copy_keepsTorrents (kept.name2torrent ▸ found))

/-- The ways one call of the job manager goes: there is no job, the front job fails and is
retried, or it is completed, and behind a chunk the download goes on. -/
inductive Works (env : Env) (server : Server) (node : Node) (transport : Option Message)
    (draws : Draws) : Node → Prop
  | idle (empty : node.jobs = []) : Works env server node transport draws node
  | retried {req : Packet} {rest : List Packet} {middle : Node} (front : node.jobs = req :: rest)
      (failed : carryOutRequest req transport = none)
      (retried : node.retryRequest draws req = some middle) :
      Works env server node transport draws middle.popJob
  | continued {req : Packet} {rest : List Packet} {chunk : ChunkReq} {middle : Node}
      (front : node.jobs = req :: rest)
      (carried : carryOutRequest req transport = some (.chunk chunk))
      (continued : (node.completeChunkReq env chunk).continueDownload env chunk.torrentName draws =
        some middle) :
      Works env server node transport draws middle.popJob
  | completed {req answered : Packet} {rest : List Packet} {completed : Node}
      (front : node.jobs = req :: rest) (carried : carryOutRequest req transport = some answered)
      (other : ∀ chunk, answered ≠ .chunk chunk)
      (done : node.completeRequest env server answered = some completed) :
      Works env server node transport draws completed.popJob

/-- A turn of the job manager goes one of these ways. -/
theorem jobManagerThread_works {env : Env} {server : Server} {node after : Node}
    {transport : Option Message} {draws : Draws}
    (worked : node.jobManagerThread env server transport draws = some after) :
    Works env server node transport draws after := by
  unfold jobManagerThread at worked
  split at worked
  · next empty =>
      cases worked
      exact .idle empty
  · next front =>
      split at worked
      · next failed =>
          simp only [Option.map_eq_some_iff] at worked
          obtain ⟨middle, retried, rfl⟩ := worked
          exact .retried front failed retried
      · next answered carried =>
          simp only [bind, Option.bind_eq_some_iff] at worked
          obtain ⟨completed, done, worked⟩ := worked
          split at worked
          · simp only [Option.map_eq_some_iff] at worked
            obtain ⟨middle, continued, rfl⟩ := worked
            cases done
            exact .continued front carried continued
          · next other =>
              cases worked
              exact .completed front carried other done

/-- The job manager changes torrents where it completes the front job. -/
theorem jobManagerThread_keepsTorrents {env : Env} {server : Server} {node after : Node}
    {transport : Option Message} {draws : Draws}
    (worked : node.jobManagerThread env server transport draws = some after) :
    (node.jobs.head?.bind (carryOutRequest · transport) = none ∧ node.KeepsTorrents after) ∨
      ∃ req completed, node.jobs.head?.bind (carryOutRequest · transport) = some req ∧
        node.completeRequest env server req = some completed ∧ completed.KeepsTorrents after := by
  have popped : ∀ node : Node, node.KeepsTorrents node.popJob := fun _ => .of_eq rfl rfl
  cases jobManagerThread_works worked with
  | idle empty => exact .inl ⟨by rw [empty, List.head?_nil, Option.bind_none], .of_eq rfl rfl⟩
  | retried front failed retried =>
      rw [front, List.head?_cons, Option.bind_some]
      exact .inl ⟨failed, (retryRequest_keepsTorrents retried).trans (popped _)⟩
  | @continued _ _ chunk _ front carried continued =>
      rw [front, List.head?_cons, Option.bind_some]
      have stores := completeChunkReq_stores env node chunk
      have kept := continueDownload_keepsTorrents ((stores _).trans (if_pos rfl)) continued
      exact .inr ⟨.chunk chunk, _, carried, rfl, kept.trans (popped _)⟩
  | completed front carried _ done =>
      rw [front, List.head?_cons, Option.bind_some]
      exact .inr ⟨_, _, carried, done, popped _⟩

end Node

namespace System

/-- The ways a statement of `requestTorrentData` goes: it leaves the node alone, rebuilds
`torName2dev`, waits for a request, or comes to a job and inserts it. -/
inductive Goes (env : Env) (server : Server) (transport : Option Message) (draws : Draws) :
    System → System → Prop
  | move {node : Node} {main next : Main} (elsewhere : ∀ req, next ≠ .insert req) :
      Goes env server transport draws ⟨node, main⟩ ⟨node, next⟩
  | clear {node : Node} {name : Bytes} : Goes env server transport draws ⟨node, .clear name⟩
      ⟨{ node with torName2dev := {} }, .swap name none⟩
  | swap {node : Node} {name : Bytes} {last : Option DeviceDescriptor} {dev : DeviceDescriptor}
      {names : List Bytes} (next : nextEntry node last = some (dev, names)) :
      Goes env server transport draws ⟨node, .swap name last⟩
        ⟨{ node with
            torName2dev :=
              names.foldl (fun dest val => Utils.swapVal dest dev val) node.torName2dev },
          .swap name (some dev)⟩
  | list {node left : Node} {name : Bytes} {dev : DeviceDescriptor} {devs : List DeviceDescriptor}
      {req : TorrentListReq} {succeeded : Bool}
      (created : node.createNearbyTorrentsRequest dev draws = some (some req))
      (executed : node.syncRequest env server (.list req) transport = some (left, succeeded)) :
      Goes env server transport draws ⟨node, .nearby name (dev :: devs)⟩ ⟨left, .nearby name devs⟩
  | avail {node left : Node} {name : Bytes} {dev : DeviceDescriptor}
      {devs : List DeviceDescriptor} {req : TorrentAvailReq} {succeeded : Bool}
      (executed : node.syncRequest env server (.avail req) transport = some (left, succeeded)) :
      Goes env server transport draws ⟨node, .availFrom name (dev :: devs)⟩
        ⟨left, if succeeded then .availFrom name devs else .idle⟩
  | file {node left : Node} {name : Bytes} {req : TorrentFileReq} {succeeded : Bool}
      (missing : node.name2torrent.contains name = false) (named : req.torrentName = name)
      (reached : node.InReach name draws)
      (executed : node.syncRequest env server (.file req) transport = some (left, succeeded)) :
      Goes env server transport draws ⟨node, .file name⟩
        ⟨left, if succeeded then .chunk name else .idle⟩
  | chunk {node left : Node} {name : Bytes} {req : Option ChunkReq}
      (created : node.createMissingChunkRequest name draws = some (left, req)) :
      Goes env server transport draws ⟨node, .chunk name⟩ ⟨left, .insert req⟩
  | insert {node : Node} {req : Option ChunkReq} : Goes env server transport draws
      ⟨node, .insert req⟩ ⟨node.insertCreated .chunk req, .idle⟩

/-- A statement of `requestTorrentData` goes one of these ways. -/
theorem statement_goes {env : Env} {server : Server} {transport : Option Message} {draws : Draws}
    {system after : System}
    (executed : system.statement env server transport draws = some after) :
    Goes env server transport draws system after := by
  obtain ⟨node, main⟩ := system
  cases main with
  | idle => cases executed
  | start name =>
      simp only [statement] at executed
      split at executed
      · cases executed
        exact .move fun _ => Main.noConfusion
      · cases executed
        exact .move fun _ => Main.noConfusion
  | nearby name devs =>
      cases devs with
      | nil =>
          cases executed
          exact .move fun _ => Main.noConfusion
      | cons dev devs =>
          simp only [statement, bind, Option.bind_eq_some_iff] at executed
          obtain ⟨req, created, executed⟩ := executed
          cases req with
          | none =>
              cases executed
              exact .move fun _ => Main.noConfusion
          | some req =>
              simp only [Option.bind_eq_some_iff, Option.some.injEq, Prod.exists] at executed
              obtain ⟨left, succeeded, synchronized, rfl⟩ := executed
              exact .list created synchronized
  | clear name =>
      cases executed
      exact .clear
  | swap name last =>
      simp only [statement] at executed
      split at executed
      · cases executed
        exact .move fun _ => Main.noConfusion
      · next next =>
          cases executed
          exact .swap next
  | avail name =>
      simp only [statement] at executed
      split at executed
      · cases executed
        exact .move fun _ => Main.noConfusion
      · cases executed
        exact .move fun _ => Main.noConfusion
  | availFrom name devs =>
      cases devs with
      | nil =>
          cases executed
          exact .move fun _ => Main.noConfusion
      | cons dev devs =>
          simp only [statement, bind, Option.bind_eq_some_iff] at executed
          obtain ⟨req, _, executed⟩ := executed
          cases req with
          | none =>
              cases executed
              exact .move fun _ => Main.noConfusion
          | some req =>
              simp only [Option.bind_eq_some_iff, Option.some.injEq, Prod.exists] at executed
              obtain ⟨left, succeeded, synchronized, rfl⟩ := executed
              exact .avail synchronized
  | file name =>
      simp only [statement] at executed
      split at executed
      · cases executed
        exact .move fun _ => Main.noConfusion
      · next missing =>
          simp only [bind, Option.bind_eq_some_iff] at executed
          obtain ⟨req, created, executed⟩ := executed
          rcases Node.requestFromAny_made created with ⟨reached, _, _, rfl⟩ | ⟨_, rfl⟩
          · simp only [Option.bind_eq_some_iff, Option.some.injEq, Prod.exists] at executed
            obtain ⟨left, succeeded, synchronized, rfl⟩ := executed
            exact .file (Bool.eq_false_iff.mpr missing) rfl reached synchronized
          · cases executed
            exact .move fun _ => Main.noConfusion
  | chunk name =>
      simp only [statement, bind, Option.bind_eq_some_iff, Option.some.injEq,
        Prod.exists] at executed
      obtain ⟨left, req, created, rfl⟩ := executed
      exact .chunk created
  | insert req =>
      cases executed
      exact .insert

/-- What a statement of `requestTorrentData` does to the node. -/
inductive Effect (env : Env) (server : Server) (transport : Option Message) (draws : Draws)
    (system : System) : Node → Prop
  | rebuild (torName2dev : Std.TreeMap Bytes (List DeviceDescriptor)) :
      Effect env server transport draws system { system.node with torName2dev }
  | list {req : TorrentListReq} {after : Node} {succeeded : Bool} (executed :
      system.node.syncRequest env server (.list req) transport = some (after, succeeded)) :
      Effect env server transport draws system after
  | avail {req : TorrentAvailReq} {after : Node} {succeeded : Bool} (executed :
      system.node.syncRequest env server (.avail req) transport = some (after, succeeded)) :
      Effect env server transport draws system after
  | file {req : TorrentFileReq} {after : Node} {succeeded : Bool}
      (asked : system.main = .file req.torrentName)
      (missing : system.node.name2torrent.contains req.torrentName = false)
      (reached : system.node.InReach req.torrentName draws) (executed :
      system.node.syncRequest env server (.file req) transport = some (after, succeeded)) :
      Effect env server transport draws system after
  | read {after : Node} (destroys : system.node.DestroysCopy after) :
      Effect env server transport draws system after
  | insert (req : Option ChunkReq) (asked : system.main = .insert req) :
      Effect env server transport draws system (system.node.insertCreated .chunk req)

/-- What a statement does to the node, and where it comes to an insertion. -/
theorem statement_spec {env : Env} {server : Server} {transport : Option Message} {draws : Draws}
    {system after : System}
    (executed : system.statement env server transport draws = some after) :
    Effect env server transport draws system after.node ∧
      ∀ req, after.main = .insert req → ∃ name, system.main = .chunk name ∧
        system.node.createMissingChunkRequest name draws = some (after.node, req) := by
  cases statement_goes executed with
  | @move node main next elsewhere =>
      exact ⟨.rebuild node.torName2dev, fun req inserts => absurd inserts (elsewhere req)⟩
  | clear => exact ⟨.rebuild {}, fun _ => Main.noConfusion⟩
  | swap => exact ⟨.rebuild _, fun _ => Main.noConfusion⟩
  | list _ synchronized => exact ⟨.list synchronized, fun _ => Main.noConfusion⟩
  | @avail node left name dev devs asked succeeded synchronized =>
      refine ⟨.avail synchronized, fun req inserts => ?_⟩
      cases succeeded <;> cases inserts
  | @file node left name asked succeeded missing named reached synchronized =>
      subst named
      refine ⟨.file rfl missing reached synchronized, fun req inserts => ?_⟩
      cases succeeded <;> cases inserts
  | @chunk node left name req created =>
      refine ⟨.read (Node.createMissingChunkRequest_destroysCopy created), fun _ inserts => ?_⟩
      cases inserts
      exact ⟨name, rfl, created⟩
  | insert => exact ⟨.insert _ rfl, fun _ => Main.noConfusion⟩

/-- Every step but the job manager's leaves the queue alone or is the insertion of the job
that the main thread has come to. -/
theorem Step.queue_cases {env : Env} {system after : System} {label : Label}
    (step : Step env system label after)
    (other : ∀ server transport draws, label ≠ .jobManager server transport draws) :
    after.node.jobs = system.node.jobs ∨
      ∃ req, system.main = .insert req ∧ after.node = system.node.insertCreated .chunk req := by
  cases step with
  | jobManager => exact absurd rfl (other _ _ _)
  | statement executed =>
      have effect := (statement_spec executed).1
      generalize after.node = left at effect ⊢
      cases effect with
      | rebuild torName2dev => exact .inl rfl
      | list synchronized | avail synchronized | file _ _ _ synchronized =>
          exact .inl (Node.syncRequest_keepsQueue synchronized).jobs
      | read destroys => exact .inl destroys.onlyTables.keepsDevices.jobs
      | insert req asked => exact .inr ⟨req, asked, rfl⟩
  | requestTorrentData => exact .inl rfl
  | createTorrent _ executed => exact .inl (Node.createTorrent_keepsDevices executed).jobs
  | populateLocalTorrents => exact .inl (Node.populateLocalTorrents_keepsDevices ..).jobs
  | complete completed => exact .inl (Node.completeRequest_keepsQueue completed).jobs
  | serve answered => exact .inl (Node.processRequest_onlyTables answered).keepsDevices.jobs
  | edit => exact .inl rfl

end System

end Bp2p
