import Bp2p.DevicesInReach
import Bp2p.Description
import Bp2p.Mirror
import Bp2p.RequestFormat

/-! # Answers to peers

A server thread catches numbers only, so any other exception that answering a request throws
ends the node. The number and the tokens of a request are read with every exception
caught, and what is asked of a torrent is read from an opened copy. Opening prints the torrent
again, which fails when its document takes no members or is not UTF-8. In the states a node
reaches neither is so: a document that is kept was printed before, and the name that is set in it
is the one of the torrent (`Bp2p.Torrent.Openable`). So every request of a peer is answered
(`Bp2p.Session.reachable_answers`).
-/

namespace Bp2p

namespace Torrent

/-- The document takes members and is in UTF-8, and the row the torrent is opened from, if any,
is of its name. -/
structure Openable (tables : Database) (torrent : Torrent) : Prop where
  members : torrent.jobj.HasMembers
  document : torrent.jobj.Valid
  row : torrent.uid ≠ 0 → ∃ row, tables.torrents.find? (·.uid == torrent.uid.toUInt32) = some row ∧
    row.name = torrent.name

theorem Openable.of_torrents {tables after : Database} {torrent : Torrent}
    (openable : torrent.Openable tables) (torrents : after.torrents = tables.torrents) :
    torrent.Openable after :=
  ⟨openable.members, openable.document, torrents ▸ openable.row⟩

/-- A row that a uid selects stays when rows are inserted. -/
theorem Openable.insertIfValid {tables : Database} {torrent : Torrent}
    (openable : torrent.Openable tables) (refuses : Insert → Bool) (other : Torrent) :
    torrent.Openable (other.insertIfValid refuses tables).1 := by
  refine ⟨openable.members, openable.document, fun identified => ?_⟩
  obtain ⟨row, found, named⟩ := openable.row identified
  refine ⟨row, ?_, named⟩
  rw [find?_insertIfValid, selectedRow, found]

/-- An object without uid opens no row. -/
theorem openable_default (tables : Database) : ({} : Torrent).Openable tables :=
  ⟨trivial, .null, fun identified => absurd rfl identified⟩

/-- Putting a chunk leaves a torrent that can be opened. -/
theorem Openable.withChunk {env : Env} {tables : Database} {torrent : Torrent}
    (openable : torrent.Openable tables) (chunk : Bytes) (index : UInt32) :
    (torrent.withChunk env chunk index).Openable tables := by
  unfold Torrent.withChunk
  split
  · exact ⟨openable.members, openable.document, openable.row⟩
  · exact openable

/-- What was printed takes members and is in UTF-8. -/
theorem serialize_document {env : Env} (checks : env.json.ChecksUtf8) {torrent written : Torrent}
    (printable : torrent.Printable) (serialized : torrent.serialize env = .ok written) :
    written.jobj.HasMembers ∧ written.jobj.Valid := by
  obtain ⟨jobj, text, rfl, dumped, documents⟩ := serialize_spec printable serialized
  refine ⟨?_, checks.parse _ _ (env.json.parse_of_dump dumped)⟩
  have named := documents.name
  cases jobj with
  | object _ => trivial
  | null | boolean _ | unsigned _ | integer _ | float _ | string _ | array _ => cases named

/-- A torrent is opened without an exception. -/
theorem Openable.open {env : Env} (checks : env.json.ChecksUtf8) (order : RowOrder)
    {tables : Database} {torrent : Torrent} (openable : torrent.Openable tables)
    (text : IsUtf8 torrent.name) :
    ∃ tor opened, torrent.open env order tables = .ok (tor, opened) := by
  by_cases identified : torrent.uid = 0
  · exact ⟨torrent, false, by simp only [Torrent.open, if_pos identified]⟩
  obtain ⟨row, found, named⟩ := openable.row identified
  have title := (loaded_of_find? env order found).1
  by_cases printable : (torrent.loaded env order tables).Printable
  · have members : (torrent.loaded env order tables).jobj.HasMembers := openable.members
    obtain ⟨jobj, fields, kept⟩ := serializeFields_of_hasMembers members
    have document : jobj.Valid := kept openable.document (by rwa [title, named])
    obtain ⟨output, dumped⟩ := checks.dump jobj document
    exact ⟨_, _, open_of_serialize identified (serialize_of_dump printable fields dumped)⟩
  · exact ⟨_, _, open_of_serialize identified (serialize_of_not_printable env printable)⟩

/-- What was opened can be opened again. -/
theorem openable_of_open {env : Env} (checks : env.json.ChecksUtf8) {order : RowOrder}
    {tables : Database} {torrent tor : Torrent}
    (executed : torrent.open env order tables = .ok (tor, true)) : tor.Openable tables := by
  by_cases identified : torrent.uid = 0
  · simp only [Torrent.open, if_pos identified, Except.ok.injEq, Prod.mk.injEq,
      Bool.false_eq_true, and_false] at executed
  obtain ⟨⟨jobj, serializedObj, same⟩, printable⟩ := open_ok identified executed
  obtain ⟨row, found⟩ := find?_of_printable (printable.mp rfl)
  have serialized := (serialize_of_open identified executed).1
  have document := serialize_document checks (printable.mp rfl) serialized
  refine ⟨document.1, document.2, fun _ => ⟨row, ?_, ?_⟩⟩
  · have uid : tor.uid = torrent.uid := by
      rw [same]
      exact congrArg (·.uid) (getTorrentInfo_of_find? found)
    rw [uid, found]
  · rw [same]
    exact (loaded_of_find? env order found).1.symm

/-- What was created can be opened from the row that was inserted for it. -/
theorem openable_of_create {env : Env} (checks : env.json.ChecksUtf8) {refuses : Insert → Bool}
    {torrent after : Torrent} {files left : FileStore} {tables inserted : Database}
    (executed : torrent.create env refuses files tables = (.ok (after, true), left, inserted)) :
    after.Openable inserted := by
  obtain ⟨seeder, ret, generated, serialized, insertion⟩ := create_ok executed
  have valid := isValid_of_insertIfValid insertion
  obtain ⟨jobj, serializedObj, same⟩ := serialize_ok serialized
  have printable : seeder.Printable := by
    have written := printable_of_isValid valid
    rwa [same] at written
  have document := serialize_document checks printable serialized
  refine ⟨document.1, document.2, fun _ => ⟨after.torrentsRecord, ?_, rfl⟩⟩
  have own : after.uid.toUInt32 = after.db.key := by
    obtain ⟨_, _, _, unset, packaged⟩ := generateChunks_frame generated
    have path : (torrent.package env files).1.packagePath ≠ [] :=
      fun none => printable.2.2 (unset none).1
    rw [same, TorrentDB.key, (packaged path).1]
  have successful : (after.insertTorrentToDB refuses tables).2 = true := by
    rw [insertIfValid, if_pos valid] at insertion
    exact congrArg Prod.snd insertion
  rcases insertTorrentToDB_spec refuses after tables with ⟨failed, _⟩ | ⟨absent, accepted, _⟩
  · rw [failed] at successful
    cases successful
  · have selected := find?_insertIfValid refuses after tables after.uid.toUInt32
    rw [insertion] at selected
    rw [selected, selectedRow, own, find?_eq_none_iff.mpr absent]
    exact if_pos ⟨rfl, valid, accepted⟩

/-- A torrent read from a row opens that row. -/
theorem localTorrent_openable (order : RowOrder) {tables : Database}
    (distinct : (tables.torrents.map (·.uid)).Nodup) {row : TorrentsRecord}
    (member : row ∈ tables.torrents) : (localTorrent order tables row).Openable tables := by
  refine ⟨trivial, .null, fun _ => ⟨row, ?_, rfl⟩⟩
  rw [show (localTorrent order tables row).uid.toUInt32 = row.uid from UInt32.toUInt32_toUInt64 _]
  cases found : tables.torrents.find? (·.uid == row.uid) with
  | none => exact absurd (beq_self_eq_true _) (List.find?_eq_none.mp found row member)
  | some other =>
      have own := List.find?_some found
      rw [beq_iff_eq] at own
      rw [List.inj_on_of_nodup_map distinct (List.mem_of_find?_eq_some found) member own]

/-- Inserting keeps uids distinct. -/
theorem distinct_insertIfValid {tables : Database}
    (distinct : (tables.torrents.map (·.uid)).Nodup) (refuses : Insert → Bool)
    (torrent : Torrent) :
    ((torrent.insertIfValid refuses tables).1.torrents.map (·.uid)).Nodup := by
  unfold insertIfValid
  split
  · rcases insertTorrentToDB_spec refuses torrent tables with
      ⟨unchanged, _⟩ | ⟨absent, _, files, added, _, same, _⟩
    · rw [unchanged]
      exact distinct
    · rw [same, List.map_append, List.map_singleton]
      refine nodup_append_singleton.mpr ⟨distinct, fun member => ?_⟩
      have there := Database.hasTorrent_iff.mpr member
      rw [show torrent.torrentsRecord.uid = torrent.db.key from rfl, absent] at there
      cases there
  · exact distinct

end Torrent

namespace Node

open RRPacket

/-- The torrents of the map can be opened. -/
structure Openable (node : Node) : Prop where
  distinct : (node.tables.torrents.map (·.uid)).Nodup
  stored : ∀ (name : Bytes) (stored : Torrent), node.name2torrent[name]? = some stored →
    stored.Openable node.tables

/-- Whether all can be opened depends on the map and the rows of torrents alone. -/
theorem Openable.of_torrents {node after : Node} (openable : node.Openable)
    (name2torrent : after.name2torrent = node.name2torrent)
    (torrents : after.tables.torrents = node.tables.torrents) : after.Openable where
  distinct := torrents ▸ openable.distinct
  stored name stored found :=
    (openable.stored name stored (name2torrent ▸ found)).of_torrents torrents

theorem Openable.destroy {node : Node} (openable : node.Openable) (torrent : Torrent) :
    (node.destroy torrent).Openable :=
  openable.of_torrents rfl (Torrent.destroy_torrents torrent node.tables)

/-- Destructors leave the rows of torrents. -/
theorem foldl_destroy_torrents (copies : List Torrent) (tables : Database) :
    (copies.foldl (fun tables copied => copied.destroy tables) tables).torrents =
      tables.torrents := by
  induction copies generalizing tables with
  | nil => rfl
  | cons copied rest ih => exact (ih _).trans (Torrent.destroy_torrents copied tables)

theorem Openable.of_keepsTorrents {node after : Node} (openable : node.Openable)
    (keeps : node.KeepsTorrents after) : after.Openable := by
  obtain ⟨copies, _, tables⟩ := keeps.tables
  exact openable.of_torrents keeps.name2torrent (tables ▸ foldl_destroy_torrents copies _)

/-- The entry looked up, or the torrent that is made for it. -/
theorem Openable.subscript {node : Node} (openable : node.Openable) (name : Bytes) :
    (node.subscript name).2.Openable node.tables := by
  cases found : node.name2torrent[name]? with
  | some stored =>
      rw [subscript_found found]
      exact openable.stored name stored found
  | none =>
      rw [subscript_missing found]
      exact Torrent.openable_default node.tables

/-- Storing a torrent that can be opened leaves all such. -/
theorem Openable.of_stores {node after : Node} (openable : node.Openable) {name : Bytes}
    {torrent : Torrent} (stores : node.Stores after name torrent)
    (torrents : after.tables.torrents = node.tables.torrents)
    (new : torrent.Openable node.tables) : after.Openable where
  distinct := torrents ▸ openable.distinct
  stored other stored found := by
    rw [stores other] at found
    split at found
    · cases found
      exact new.of_torrents torrents
    · exact (openable.stored other stored found).of_torrents torrents

/-- `setTorrent` of a torrent that can be opened leaves all such. -/
theorem Openable.setTorrent {node : Node} (openable : node.Openable) (name : Bytes)
    {torrent : Torrent} (new : torrent.Openable node.tables) :
    (node.setTorrent name torrent).Openable := by
  refine openable.of_stores (setTorrent_stores node name torrent) ?_ ?_
  · rw [setTorrent_tables]
  · exact ⟨new.members, new.document, new.row⟩

/-- Rows are inserted for a torrent. -/
theorem Openable.insertIfValid {node : Node} (openable : node.Openable) (refuses : Insert → Bool)
    (torrent : Torrent) :
    ({ node with tables := (torrent.insertIfValid refuses node.tables).1 } : Node).Openable where
  distinct := Torrent.distinct_insertIfValid openable.distinct refuses torrent
  stored name stored found := (openable.stored name stored found).insertIfValid refuses torrent

/-- Completing a description leaves torrents that can be opened. -/
theorem Openable.completeTorrentFileReq {env : Env} (checks : env.json.ChecksUtf8)
    {server : Server} {node after : Node} (openable : node.Openable) {req : TorrentFileReq}
    (completed : node.completeTorrentFileReq env server req = some after) : after.Openable := by
  unfold Node.completeTorrentFileReq at completed
  split at completed
  · cases completed
  · next tor res tables created =>
      obtain ⟨_, _, rfl⟩ := Torrent.createTorrentFromSerializedObj_ok created
      have inserted := openable.insertIfValid server.refuses tor
      split at completed
      · cases completed
      · next opened status executed =>
          cases completed
          cases status with
          | false => exact inserted.destroy opened
          | true =>
              have new := Torrent.openable_of_open checks executed
              exact (inserted.setTorrent req.torrentName new).destroy opened

/-- Completing a request leaves torrents that can be opened. -/
theorem Openable.completeRequest {env : Env} (checks : env.json.ChecksUtf8) {server : Server}
    {node after : Node} (openable : node.Openable) {req : Packet}
    (completed : node.completeRequest env server req = some after) : after.Openable := by
  cases req with
  | list req =>
      cases completed
      exact openable.of_torrents rfl rfl
  | file req => exact openable.completeTorrentFileReq checks completed
  | avail req =>
      cases completed
      refine openable.of_torrents (completeTorrentAvailReq_name2torrent node req) ?_
      unfold completeTorrentAvailReq
      simp only
      split
      · rfl
      · rfl
  | chunk req =>
      cases completed
      obtain ⟨stores, tables⟩ := completeChunkReq_spec env node req
      refine openable.of_stores stores ?_ ((openable.subscript req.torrentName).withChunk _ _)
      rw [tables, Torrent.destroy_torrents]

/-- A synchronous request leaves torrents that can be opened. -/
theorem Openable.syncRequest {env : Env} (checks : env.json.ChecksUtf8) {server : Server}
    {node after : Node} (openable : node.Openable) {req : Packet} {transport : Option Message}
    {succeeded : Bool}
    (executed : node.syncRequest env server req transport = some (after, succeeded)) :
    after.Openable := by
  rcases syncRequest_spec executed with ⟨_, rfl⟩ | ⟨_, _, _, _, completed⟩
  · exact openable
  · exact openable.completeRequest checks completed

/-- Creating a torrent leaves torrents that can be opened. -/
theorem Openable.createTorrent {env : Env} (checks : env.json.ChecksUtf8) {server : Server}
    {node after : Node} (openable : node.Openable) {name : Bytes} {filenames : List Bytes}
    {created : Bool}
    (executed : node.createTorrent env server name filenames = some (after, created)) :
    after.Openable := by
  obtain ⟨t, files, tables, made, rfl⟩ := createTorrent_spec executed
  obtain ⟨_, _, _, _, insertion⟩ := Torrent.create_ok made
  have inserted : ({ node with files, tables } : Node).Openable := by
    have rows := openable.insertIfValid server.refuses t
    rw [insertion] at rows
    exact ⟨rows.distinct, rows.stored⟩
  cases created with
  | false => exact inserted.destroy t
  | true =>
      exact (inserted.setTorrent name (Torrent.openable_of_create checks made)).destroy t

/-- Clearing the map leaves the rows of torrents. -/
theorem clearTorrents_torrents (node : Node) :
    node.clearTorrents.tables.torrents = node.tables.torrents := by
  have kept : ∀ (entries : List (Bytes × Torrent)) (node : Node),
      (entries.foldl (fun node entry => node.destroy entry.2) node).tables.torrents =
        node.tables.torrents := by
    intro entries
    induction entries with
    | nil => exact fun _ => rfl
    | cons entry rest ih =>
        exact fun node => (ih _).trans (Torrent.destroy_torrents entry.2 node.tables)
  rw [clearTorrents, Std.TreeMap.foldl_eq_foldl_toList]
  exact kept _ node

/-- The torrents of the tables can be opened, whatever was in the map. -/
theorem populateLocalTorrents_openable (server : Server) {node : Node}
    (distinct : (node.tables.torrents.map (·.uid)).Nodup) :
    (node.populateLocalTorrents server).Openable := by
  have torrents : (node.populateLocalTorrents server).tables.torrents = node.tables.torrents := by
    simp only [populateLocalTorrents]
    rw [foldl_destroy_tables, foldl_destroy_torrents, foldl_setTorrent_tables,
      clearTorrents_torrents]
  refine ⟨torrents ▸ distinct, fun name stored found => ?_⟩
  rw [getElem?_populateLocalTorrents, Option.map_eq_some_iff] at found
  obtain ⟨row, last, rfl⟩ := found
  have member : row ∈ node.tables.torrents :=
    (server.order.torrents_perm _).mem_iff.mp
      (List.mem_reverse.mp (List.mem_of_find?_eq_some last))
  exact (Torrent.localTorrent_openable server.order distinct member).of_torrents torrents

/-- Reading a torrent leaves all that can be opened. -/
theorem Openable.readTorrent {α : Type} {env : Env} {server : Server} {node after : Node}
    (openable : node.Openable) {name : Bytes} {unread result : α} {read : Torrent → α}
    (executed : node.readTorrent env server name unread read = some (after, result)) :
    after.Openable := by
  unfold Node.readTorrent at executed
  split at executed
  · cases executed
    exact openable
  · split at executed
    · cases executed
    · cases executed
      exact openable.destroy _

/-- Answering leaves torrents that can be opened. -/
theorem Openable.processRequest {env : Env} {server : Server} {node after : Node}
    (openable : node.Openable) {req rsp : Message} {memory : Bytes}
    (answered : node.processRequest env server req memory = some (after, rsp)) :
    after.Openable := by
  rcases processRequest_spec answered with rfl | ⟨_, _, _, _, _, executed⟩
  · exact openable
  · exact openable.readTorrent executed

/-- The names of the torrents are in UTF-8. -/
def NamesUtf8 (node : Node) : Prop :=
  ∀ (name : Bytes) (stored : Torrent), node.name2torrent[name]? = some stored → IsUtf8 stored.name

/-- A torrent is read, or there is none and nothing is. -/
theorem Openable.reads {α : Type} {env : Env} (checks : env.json.ChecksUtf8) {node : Node}
    (openable : node.Openable) (text : node.NamesUtf8) (server : Server) (name : Bytes)
    (unread : α) (read : Torrent → α) :
    ∃ after result, node.readTorrent env server name unread read = some (after, result) ∧
      (name ∉ node.name2torrent → result = unread) := by
  unfold Node.readTorrent
  cases found : node.name2torrent[name]? with
  | none => exact ⟨node, unread, rfl, fun _ => rfl⟩
  | some stored =>
      have there : name ∈ node.name2torrent := by
        rw [Std.TreeMap.mem_iff_isSome_getElem?, found, Option.isSome_some]
      have copied : stored.copy.Openable node.tables :=
        have kept := openable.stored name stored found
        ⟨kept.members, kept.document, kept.row⟩
      obtain ⟨tor, opened, executed⟩ := copied.open checks server.order (text name stored found)
      simp only [executed]
      exact ⟨_, _, rfl, fun missing => absurd there missing⟩

/-- The prefix or the type of a request is bad, or it asks for a torrent the node does not
have. -/
inductive Refuses (node : Node) (req : Message) (memory : Bytes) : Prop
  | front (bad : ¬ commString ++ commSeparator.val <+: req.data)
  | type (bad : ∀ type, RRFactory.getReqTypeFromReq req memory = some type → type = .badReq)
  | torrent (named : RRFactory.getReqTypeFromReq req memory ≠ some .torrentList)
      (missing : nameToken req.data [] ∉ node.name2torrent)

/-- A request that does not start as one is a bad one. -/
theorem getReqTypeFromReq_of_front {req : Message}
    (bad : ¬ commString ++ commSeparator.val <+: req.data) (memory : Bytes) :
    RRFactory.getReqTypeFromReq req memory = some .badReq := by
  unfold RRFactory.getReqTypeFromReq
  simp only
  split
  · rfl
  · rw [if_pos]
    intro found
    exact bad (Separator.find_eq_some_iff.mp found).2.1

/-- A request of a class that names a torrent is refused for the torrent only. -/
theorem Refuses.missing {node : Node} {req : Message} {memory : Bytes} {type : RequestType}
    (refuses : node.Refuses req memory)
    (same : RRFactory.getReqTypeFromReq req memory = some type) (good : type ≠ .badReq) :
    type ≠ .torrentList ∧ nameToken req.data [] ∉ node.name2torrent := by
  cases refuses with
  | front bad =>
      rw [getReqTypeFromReq_of_front bad, Option.some.injEq] at same
      exact absurd same.symm good
  | type bad => exact absurd (bad type same) good
  | torrent named missing => exact ⟨fun isList => named (isList ▸ same), missing⟩

/-- Every request is answered, and what is refused gets an empty response. -/
theorem Openable.answers {env : Env} (checks : env.json.ChecksUtf8) {node : Node}
    (openable : node.Openable) (text : node.NamesUtf8) (server : Server) (req : Message)
    (memory : Bytes) :
    ∃ after rsp, node.processRequest env server req memory = some (after, rsp) ∧
      (node.Refuses req memory → rsp = {}) := by
  unfold Node.processRequest RRFactory.create
  cases same : RRFactory.getReqTypeFromReq req memory with
  | none => exact ⟨node, {}, rfl, fun _ => rfl⟩
  | some type =>
      cases type with
      | badReq => exact ⟨node, {}, rfl, fun _ => rfl⟩
      | torrentList =>
          refine ⟨node, _, rfl, fun refuses => absurd rfl (refuses.missing same ?_).1⟩
          exact RequestType.noConfusion
      | torrentFile =>
          obtain ⟨after, result, executed, unread⟩ := openable.reads checks text server
            (nameToken req.data []) [] (·.serializedObj)
          simp only [processPacket, getSerializedTorrent, TorrentFileReq.extractTorrentName,
            executed, bind, Option.bind_some]
          refine ⟨after, _, rfl, fun refuses => ?_⟩
          rw [unread (refuses.missing same RequestType.noConfusion).2]
          rfl
      | torrentAvailability =>
          obtain ⟨after, result, executed, unread⟩ := openable.reads checks text server
            (nameToken req.data []) [] (·.getChunkAvail)
          simp only [processPacket, getTorrentAvailFromTorrent, TorrentAvailReq.extractTorrentName,
            executed, bind, Option.bind_some]
          refine ⟨after, _, rfl, fun refuses => ?_⟩
          rw [unread (refuses.missing same RequestType.noConfusion).2]
          rfl
      | chunk =>
          obtain ⟨after, result, executed, unread⟩ := openable.reads checks text server
            (nameToken req.data []) [] (·.getChunk node.files
              (ChunkReq.extractIndexFromReq req.data).toUInt32)
          simp only [processPacket, retrieveChunk, ChunkReq.extractNameAndIndex,
            ChunkReq.extractTorrentName, executed, bind, Option.bind_some]
          refine ⟨after, _, rfl, fun refuses => ?_⟩
          rw [unread (refuses.missing same RequestType.noConfusion).2]
          rfl

end Node

namespace System

open Node

/-- A statement leaves torrents that can be opened. -/
theorem statement_openable {env : Env} (checks : env.json.ChecksUtf8) {server : Server}
    {transport : Option Message} {draws : Draws} {system after : System}
    (openable : system.node.Openable)
    (executed : system.statement env server transport draws = some after) :
    after.node.Openable := by
  have effect := (statement_spec executed).1
  generalize after.node = left at effect ⊢
  cases effect with
  | rebuild torName2dev => exact openable.of_torrents rfl rfl
  | list synchronized => exact openable.syncRequest checks synchronized
  | avail synchronized => exact openable.syncRequest checks synchronized
  | file _ _ _ synchronized => exact openable.syncRequest checks synchronized
  | read destroys => exact openable.of_keepsTorrents destroys.keepsTorrents
  | insert req => exact openable.of_keepsTorrents (insertCreated_keepsTorrents ..)

/-- A step leaves torrents that can be opened. -/
theorem Step.openable {env : Env} (checks : env.json.ChecksUtf8) {system after : System}
    {label : Label} (openable : system.node.Openable) (step : Step env system label after) :
    after.node.Openable := by
  cases step with
  | jobManager _ worked =>
      rcases jobManagerThread_keepsTorrents worked with ⟨_, kept⟩ | ⟨_, _, _, completed, kept⟩
      · exact openable.of_keepsTorrents kept
      · exact (openable.completeRequest checks completed).of_keepsTorrents kept
  | statement executed => exact statement_openable checks openable executed
  | requestTorrentData => exact openable
  | createTorrent _ executed => exact openable.createTorrent checks executed
  | populateLocalTorrents server => exact populateLocalTorrents_openable server openable.distinct
  | complete completed => exact openable.completeRequest checks completed
  | serve answered => exact openable.processRequest answered
  | edit => exact openable.of_torrents rfl rfl

end System

/-- Behind `init` all torrents can be opened. -/
theorem Node.init_openable (server : Server) (localDevs : List DeviceDescriptor)
    (findNearbyDevs : DeviceDescriptor → List DeviceDescriptor) (files : FileStore)
    {tables : Database} (distinct : (tables.torrents.map (·.uid)).Nodup) :
    (Node.init server localDevs findNearbyDevs files tables).Openable := by
  have start : (({ files, tables } : Node).tables.torrents.map (·.uid)).Nodup := distinct
  exact (populateLocalTorrents_openable server start).of_torrents rfl rfl

namespace Session

/-- A step of a session leaves torrents that can be opened. -/
theorem Step.openable {env : Env} (checks : env.json.ChecksUtf8) {session after : Session}
    {label : Label} (openable : session.system.node.Openable)
    (step : Step env session label after) : after.system.node.Openable := by
  cases step with
  | system _ _ step => exact step.openable checks openable
  | listNearbyTorrents => exact openable
  | syncRequestNearbyTorrents _ executed =>
      rcases Call.syncRequestNearbyTorrents_cases executed with
        ⟨_, rfl⟩ | ⟨_, _, _, _, synchronized⟩
      · exact openable
      · exact openable.syncRequest checks (Call.syncRequest_node synchronized)
  | syncRequestTorrentFile _ executed =>
      rcases Call.syncRequestTorrentFileFrom_cases executed with rfl | ⟨_, synchronized⟩
      · exact openable
      · exact openable.syncRequest checks (Call.syncRequest_node synchronized)
  | requestTorrentAvail _ executed =>
      simp only [Node.requestTorrentAvailFrom, bind, Option.bind_eq_some_iff,
        Option.some.injEq] at executed
      obtain ⟨req, _, rfl⟩ := executed
      exact openable.of_keepsTorrents (Node.insertCreated_keepsTorrents ..)

/-- **Answers.** In every state reached behind `init` whose torrents have names in UTF-8, every
request of a peer is answered, whatever its bytes and the memory behind them are. The maps
and the jobs stay as they are, and a request that is refused gets an empty response. -/
theorem reachable_answers (env : Env) (checks : env.json.ChecksUtf8) (server : Server)
    (localDevs : List DeviceDescriptor)
    (findNearbyDevs : DeviceDescriptor → List DeviceDescriptor) (files : FileStore)
    (tables : Database) (distinct : (tables.torrents.map (·.uid)).Nodup)
    {past : List (Session × Label)} {final : Session}
    (run : Transition.Run (Step env)
      { system := { node := .init server localDevs findNearbyDevs files tables } } past final)
    (text : final.system.node.NamesUtf8) (answering : Server) (req : Message) (memory : Bytes) :
    ∃ after rsp, final.system.node.processRequest env answering req memory = some (after, rsp) ∧
      after.name2torrent = final.system.node.name2torrent ∧
      after.dev2tor = final.system.node.dev2tor ∧
      after.torName2dev = final.system.node.torName2dev ∧
      after.torName2Avail = final.system.node.torName2Avail ∧
      after.jobs = final.system.node.jobs ∧
      (final.system.node.Refuses req memory → rsp = {}) := by
  have meets : Transition.Meets (fun _ _ => True) past := fun _ _ => trivial
  have openable : final.system.node.Openable :=
    run.invariant (fun session => session.system.node.Openable)
      (fun _ _ _ openable _ step => step.openable checks openable)
      (Node.init_openable server localDevs findNearbyDevs files distinct) meets
  obtain ⟨after, rsp, answered, refused⟩ := openable.answers checks text answering req memory
  obtain ⟨left, rfl⟩ := Node.processRequest_onlyTables answered
  exact ⟨_, rsp, answered, rfl, rfl, rfl, rfl, rfl, refused⟩

/-- The description of `b` is asked from a node that has the torrent `a` only. -/
theorem reachable_answers_unknown :
    let env := Env.byLength (Torrent.checkingLib 7 1 true)
    let server : Server := ⟨.insertion, fun _ => false⟩
    let node : Node := .init server [System.adapter] (fun _ => [System.peer]) .empty
      Torrent.letterTables
    let req : Message :=
      ⟨RRPacket.requestHead .torrentFile ++ (RRPacket.commSeparator.val ++ [98]), 0⟩
    ∃ past final, Transition.Run (Step env) { system := { node } } past final ∧ past.length = 1 ∧
      ∃ after, final.system.node.processRequest env server req [0] = some (after, {}) ∧
        after.name2torrent = final.system.node.name2torrent ∧
        after.dev2tor = final.system.node.dev2tor ∧
        after.torName2dev = final.system.node.torName2dev ∧
        after.torName2Avail = final.system.node.torName2Avail ∧
        after.jobs = final.system.node.jobs := by
  intro env server node req
  have own : (System.Label.edit (Files.write .empty [97] [97])).Own := trivial
  have begun : Transition.Run (Step env) { system := { node } } [] { system := { node } } := .nil
  have run := begun.snoc (.system own False.elim (.edit _))
  have entries : ∀ name : Bytes, node.name2torrent[name]? =
      (Torrent.letterTables.torrents.reverse.find? (·.name == name)).map
        (Torrent.localTorrent .insertion Torrent.letterTables) := fun name =>
    Node.getElem?_populateLocalTorrents server { tables := Torrent.letterTables } name
  have text : node.NamesUtf8 := by
    intro name stored found
    rw [entries, Option.map_eq_some_iff] at found
    obtain ⟨row, last, rfl⟩ := found
    have only := List.mem_of_find?_eq_some last
    rw [Torrent.letterTables, List.reverse_singleton, List.mem_singleton] at only
    subst only
    exact Torrent.isUtf8_letter
  have token : nameToken req.data [] = [98] := by
    rw [nameToken_requestHead, Utils.tokenize_of_find_none (by decide)]
    rfl
  have missing : nameToken req.data [] ∉ node.name2torrent := by
    rw [token, Std.TreeMap.mem_iff_isSome_getElem?, entries]
    decide
  have type : RRFactory.getReqTypeFromReq req [0] = some .torrentFile :=
    getReqTypeFromReq_requestHead .torrentFile _ _ _ fun byte front => by
      cases front
      rfl
  obtain ⟨after, rsp, answered, name2torrent, dev2tor, torName2dev, torName2Avail, jobs, refused⟩ :=
    reachable_answers env (Torrent.checkingLib_checksUtf8 7 1 true) server [System.adapter]
      (fun _ => [System.peer]) .empty Torrent.letterTables (by decide) run text server
      req [0]
  have empty : rsp = {} := by
    refine refused (.torrent ?_ missing)
    rw [type]
    decide
  exact ⟨_, _, run, rfl, after, empty ▸ answered, name2torrent, dev2tor, torName2dev,
    torName2Avail, jobs⟩

end Session

end Bp2p
