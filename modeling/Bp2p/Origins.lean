import Bp2p.AnswerRequest

/-! # Where torrents come from

What a peer answers can be inserted under the uid 0 only, and stored only in place of a torrent
whose row is there. So a node has no torrent of a peer but under the uid 0: in every run behind
`init` each other one in the map has the name of a row of its uid, and that row was there at the
beginning or was inserted when the node created the torrent of that uid
(`Bp2p.Session.torrents_own`).
-/

namespace Bp2p

namespace Torrent

theorem package_db (env : Env) (files : FileStore) (torrent : Torrent) :
    (torrent.package env files).1.db = torrent.db := by
  unfold package
  split
  · rfl
  · simp only
    split
    · rfl
    · rfl

/-- A torrent that is created is inserted under its uid, or without one if it has no package. -/
theorem torrentsRecord_of_create {env : Env} {refuses : Insert → Bool} {name : Bytes}
    {filenames : List Bytes} {files left : FileStore} {tables inserted : Database} {t : Torrent}
    {created : Bool} (executed : (ofFiles name filenames).create env refuses files tables =
      (.ok (t, created), left, inserted)) :
    t.torrentsRecord.uid = 0 ∨ t.torrentsRecord.uid = t.uid.toUInt32 := by
  obtain ⟨seeder, ret, generated, printed, _⟩ := create_ok executed
  obtain ⟨jobj, serializedObj, rfl⟩ := serialize_ok printed
  obtain ⟨_, _, _, unset, packaged⟩ := generateChunks_frame generated
  by_cases path : ((ofFiles name filenames).package env files).1.packagePath = []
  · left
    show seeder.db.key = 0
    rw [(unset path).2, package_db]
    rfl
  · right
    show seeder.db.key = seeder.uid.toUInt32
    rw [(packaged path).1]
    rfl

/-- The description of the package `a`, made a torrent where the rows of `a` are, opens. -/
theorem described_letter_opens :
    let env := Env.byLength (checkingLib 7 1 false)
    ∃ tor opened : Torrent, ∃ res tables,
      ({} : Torrent).createTorrentFromSerializedObj env (fun _ => false) (letterText 7 [(1, false)])
        letterTables = (.ok (tor, res), tables) ∧
      tor.open env .insertion tables = .ok (opened, true) ∧ opened.uid = 7 := by
  intro env
  let tor : Torrent := received env true (letterTorrent 7 1 false) (letterDocument 7 [(1, false)])
    { serializedObj := letterText 7 [(1, false)] }
  let tables := (tor.insertTorrentToDB (fun _ => false) letterTables).1
  have created : ({} : Torrent).createTorrentFromSerializedObj env (fun _ => false)
      (letterText 7 [(1, false)]) letterTables =
        (.ok (tor, (tor.insertTorrentToDB (fun _ => false) letterTables).2), tables) :=
    createTorrentFromSerializedObj_of_documents env (letterTorrent 7 1 false) (fun _ => false)
      letterTables ⟨List.cons_ne_nil _ _, by decide, List.cons_ne_nil _ _⟩ le_rfl
      (documents_of_serializeFields rfl)
      (JsonLib.printing_dump (letterDocument_valid 7 (by decide)) _ rfl) rfl
  have fields : (tor.loaded env .insertion tables).serializeFields =
      some (letterDocument 7 [(1, false), (1, true)]) := rfl
  have printable : (tor.loaded env .insertion tables).Printable :=
    ⟨List.cons_ne_nil _ _, by decide, List.cons_ne_nil _ _⟩
  have few : [((1 : UInt64), false), (1, true)].length ≤ 2 := le_rfl
  obtain ⟨text, dumped⟩ := (checkingLib_checksUtf8 7 1 false).dump _ (letterDocument_valid 7 few)
  have executed := open_of_serialize (by decide) (serialize_of_dump printable fields dumped)
  have opened := (open_ok (by decide) executed).2.mpr printable
  rw [opened] at executed
  exact ⟨tor, _, _, tables, created, executed, rfl⟩

end Torrent

namespace Node

/-- Rows of torrents that come have uids as stated, and pieces. -/
def AddsRows (source : UInt32 → Prop) (node after : Node) : Prop :=
  ∀ row ∈ after.tables.torrents,
    row ∈ node.tables.torrents ∨ source row.uid ∧ row.numPieces ≠ 0

variable {source : UInt32 → Prop} {env : Env} {server : Server} {node after : Node}

theorem AddsRows.of_torrents (same : after.tables.torrents = node.tables.torrents) :
    node.AddsRows source after := by
  intro row member
  rw [same] at member
  exact .inl member

theorem AddsRows.of_keepsTorrents (keeps : node.KeepsTorrents after) :
    node.AddsRows source after := by
  obtain ⟨copies, _, tables⟩ := keeps.tables
  exact .of_torrents (tables ▸ foldl_destroy_torrents copies _)

theorem AddsRows.trans {middle : Node} (first : node.AddsRows source middle)
    (second : middle.AddsRows source after) : node.AddsRows source after :=
  fun row member => (second row member).elim (first row) .inr

/-- Inserting a torrent adds its row at most. -/
theorem AddsRows.insertIfValid (refuses : Insert → Bool) (torrent : Torrent)
    (inserted : after.tables.torrents = (torrent.insertIfValid refuses node.tables).1.torrents)
    (holds : source torrent.torrentsRecord.uid) : node.AddsRows source after := by
  intro row member
  rw [inserted] at member
  by_cases valid : torrent.isValid = true
  · rcases Torrent.insertIfValid_torrents refuses torrent node.tables with same | more
    · exact .inl (same ▸ member)
    · rw [more, List.mem_append, List.mem_singleton] at member
      rcases member with earlier | rfl
      · exact .inl earlier
      · exact .inr ⟨holds, (Torrent.printable_of_isValid valid).2.1⟩
  · rw [Torrent.insertIfValid, if_neg valid] at member
    exact .inl member

/-- A description is inserted under the uid 0. -/
theorem completeTorrentFileReq_addsRows {req : TorrentFileReq}
    (completed : node.completeTorrentFileReq env server req = some after) :
    node.AddsRows (· = 0) after := by
  unfold completeTorrentFileReq at completed
  split at completed
  · cases completed
  · next tor res tables created =>
      obtain ⟨⟨jobj, serializedObj, same⟩, _, rfl⟩ :=
        Torrent.createTorrentFromSerializedObj_ok created
      have fresh : tor.torrentsRecord.uid = 0 := by
        rw [same]
        show (Torrent.described env req.serializedTorrent).db.key = 0
        rw [Torrent.described_db]
        rfl
      split at completed
      · cases completed
      · next opened status _ =>
          cases completed
          refine .insertIfValid server.refuses tor ?_ fresh
          rw [destroy, Torrent.destroy_torrents]
          cases status with
          | false => rfl
          | true => exact congrArg (·.torrents) (setTorrent_tables _ _ _)

/-- Completing a request adds a row of the uid 0 at most. -/
theorem completeRequest_addsRows {req : Packet}
    (completed : node.completeRequest env server req = some after) :
    node.AddsRows (· = 0) after := by
  cases req with
  | list req =>
      cases completed
      exact .of_torrents rfl
  | file req => exact completeTorrentFileReq_addsRows completed
  | avail req =>
      cases completed
      refine .of_torrents ?_
      unfold completeTorrentAvailReq
      simp only
      split
      · rfl
      · rfl
  | chunk req =>
      cases completed
      obtain ⟨_, tables⟩ := completeChunkReq_spec env node req
      exact .of_torrents (by rw [tables, Torrent.destroy_torrents])

/-- A synchronous request adds a row of the uid 0 at most. -/
theorem syncRequest_addsRows {req : Packet} {transport : Option Message} {succeeded : Bool}
    (executed : node.syncRequest env server req transport = some (after, succeeded)) :
    node.AddsRows (· = 0) after := by
  rcases syncRequest_spec executed with ⟨_, rfl⟩ | ⟨_, _, _, _, completed⟩
  · exact .of_torrents rfl
  · exact completeRequest_addsRows completed

theorem populateLocalTorrents_torrents (server : Server) (node : Node) :
    (node.populateLocalTorrents server).tables.torrents = node.tables.torrents := by
  simp only [populateLocalTorrents]
  rw [foldl_destroy_tables, foldl_destroy_torrents, foldl_setTorrent_tables,
    clearTorrents_torrents]

/-- Answering leaves the rows of torrents. -/
theorem processRequest_torrents {req rsp : Message} {memory : Bytes}
    (answered : node.processRequest env server req memory = some (after, rsp)) :
    after.tables.torrents = node.tables.torrents := by
  rcases processRequest_spec answered with rfl | ⟨_, _, _, _, _, executed⟩
  · rfl
  · unfold readTorrent at executed
    split at executed
    · cases executed
      rfl
    · split at executed
      · cases executed
      · cases executed
        exact Torrent.destroy_torrents ..

/-- The node creates a torrent of the uid. -/
def Creates (env : Env) (server : Server) (node : Node) (name : Bytes) (filenames : List Bytes)
    (uid : UInt32) : Prop :=
  ∃ t created files tables,
    (Torrent.ofFiles name filenames).create env server.refuses node.files node.tables =
      (.ok (t, created), files, tables) ∧ t.uid.toUInt32 = uid

/-- Creating a torrent adds a row of the uid 0 or of the torrent's at most. -/
theorem createTorrent_addsRows {name : Bytes} {filenames : List Bytes} {created : Bool}
    (executed : node.createTorrent env server name filenames = some (after, created)) :
    node.AddsRows (fun uid => uid = 0 ∨ node.Creates env server name filenames uid) after := by
  obtain ⟨t, files, tables, made, rfl⟩ := createTorrent_spec executed
  obtain ⟨_, _, _, _, insertion⟩ := Torrent.create_ok made
  refine .insertIfValid server.refuses t ?_ ?_
  · rw [insertion, destroy, Torrent.destroy_torrents]
    cases created with
    | false => rfl
    | true => exact congrArg (·.torrents) (setTorrent_tables _ _ _)
  · exact (Torrent.torrentsRecord_of_create made).imp_right fun own =>
      ⟨t, created, files, tables, made, own.symm⟩

end Node

namespace System

open Node

/-- A row that comes in a step is of the uid 0 or of the torrent that is created. -/
def Creates (env : Env) (system : System) (uid : UInt32) : Label → Prop
  | .createTorrent server name filenames => system.node.Creates env server name filenames uid
  | _ => False

/-- A statement adds a row of the uid 0 at most. -/
theorem statement_addsRows {env : Env} {server : Server} {transport : Option Message}
    {draws : Draws} {system after : System}
    (executed : system.statement env server transport draws = some after) :
    system.node.AddsRows (· = 0) after.node := by
  have effect := (statement_spec executed).1
  generalize after.node = left at effect ⊢
  cases effect with
  | rebuild torName2dev => exact .of_torrents rfl
  | list synchronized => exact syncRequest_addsRows synchronized
  | avail synchronized => exact syncRequest_addsRows synchronized
  | file _ _ _ synchronized => exact syncRequest_addsRows synchronized
  | read destroys => exact .of_keepsTorrents destroys.keepsTorrents
  | insert req => exact .of_keepsTorrents (insertCreated_keepsTorrents ..)

/-- A step adds a row of the uid 0 or of the created torrent at most. -/
theorem Step.addsRows {env : Env} {system after : System} {label : Label}
    (step : Step env system label after) :
    system.node.AddsRows (fun uid => uid = 0 ∨ system.Creates env uid label) after.node := by
  have unset : ∀ {node : Node}, system.node.AddsRows (· = 0) node →
      system.node.AddsRows (fun uid => uid = 0 ∨ system.Creates env uid label) node :=
    fun adds row member => (adds row member).imp_right (And.imp_left .inl)
  cases step with
  | jobManager _ worked =>
      rcases jobManagerThread_keepsTorrents worked with ⟨_, kept⟩ | ⟨_, _, _, completed, kept⟩
      · exact .of_keepsTorrents kept
      · exact unset ((completeRequest_addsRows completed).trans (.of_keepsTorrents kept))
  | statement executed => exact unset (statement_addsRows executed)
  | requestTorrentData => exact .of_torrents rfl
  | createTorrent _ executed => exact createTorrent_addsRows executed
  | populateLocalTorrents server => exact .of_torrents (populateLocalTorrents_torrents ..)
  | complete completed => exact unset (completeRequest_addsRows completed)
  | serve answered => exact .of_torrents (processRequest_torrents answered)
  | edit => exact .of_torrents rfl

end System

namespace Session

open Node

/-- Where the rows of a uid come from: the uid 0, the tables at the beginning, or a torrent that
was created in the run. -/
inductive Origin (env : Env) (tables : Database) (past : List (Session × Label)) (uid : UInt32) :
    Prop
  | unset (zero : uid = 0)
  | start (row : TorrentsRecord) (there : row ∈ tables.torrents) (same : row.uid = uid)
  | created (session : Session) (label : System.Label)
      (taken : (session, .system label) ∈ past) (creates : session.system.Creates env uid label)

/-- A row that a step of a session adds has an origin. -/
theorem Step.addsRows {env : Env} {tables : Database} {past : List (Session × Label)}
    {session after : Session} {label : Label} (step : Step env session label after)
    (taken : (session, label) ∈ past) :
    session.system.node.AddsRows (Origin env tables past) after.system.node := by
  have unset : ∀ {node : Node}, session.system.node.AddsRows (· = 0) node →
      session.system.node.AddsRows (Origin env tables past) node :=
    fun adds row member => (adds row member).imp_right (And.imp_left .unset)
  cases step with
  | system _ _ step =>
      intro row member
      rcases step.addsRows row member with earlier | ⟨zero | creates, counted⟩
      · exact .inl earlier
      · exact .inr ⟨.unset zero, counted⟩
      · exact .inr ⟨.created _ _ taken creates, counted⟩
  | listNearbyTorrents => exact .of_torrents rfl
  | syncRequestNearbyTorrents _ executed =>
      rcases Call.syncRequestNearbyTorrents_cases executed with
        ⟨_, rfl⟩ | ⟨_, _, _, _, synchronized⟩
      · exact .of_torrents rfl
      · exact unset (syncRequest_addsRows (Call.syncRequest_node synchronized))
  | syncRequestTorrentFile _ executed =>
      rcases Call.syncRequestTorrentFileFrom_cases executed with rfl | ⟨_, synchronized⟩
      · exact .of_torrents rfl
      · exact unset (syncRequest_addsRows (Call.syncRequest_node synchronized))
  | requestTorrentAvail _ executed =>
      simp only [Node.requestTorrentAvailFrom, bind, Option.bind_eq_some_iff,
        Option.some.injEq] at executed
      obtain ⟨req, _, rfl⟩ := executed
      exact .of_keepsTorrents (Node.insertCreated_keepsTorrents ..)

/-- **Torrents of one's own.** Behind `init`, whatever peers answer, every torrent of the map with
a uid has the name of a row of that uid, and the uid is that of a row there was at the beginning
or of a torrent the node created, or a multiple of 2^32. -/
theorem torrents_own (env : Env) (checks : env.json.ChecksUtf8) (server : Server)
    (localDevs : List DeviceDescriptor)
    (findNearbyDevs : DeviceDescriptor → List DeviceDescriptor) (files : FileStore)
    (tables : Database) (distinct : (tables.torrents.map (·.uid)).Nodup)
    {past : List (Session × Label)} {final : Session}
    (run : Transition.Run (Step env)
      { system := { node := .init server localDevs findNearbyDevs files tables } } past final)
    (name : Bytes) (torrent : Torrent)
    (stored : final.system.node.name2torrent[name]? = some torrent) (identified : torrent.uid ≠ 0) :
    (∃ row ∈ final.system.node.tables.torrents,
      row.uid = torrent.uid.toUInt32 ∧ row.name = torrent.name) ∧
    Origin env tables past torrent.uid.toUInt32 := by
  have taken : Transition.Meets (fun session label => (session, label) ∈ past) past :=
    fun _ member => member
  obtain ⟨openable, origins⟩ : final.system.node.Openable ∧
      ∀ row ∈ final.system.node.tables.torrents, Origin env tables past row.uid := by
    refine run.invariant
      (fun session => session.system.node.Openable ∧
        ∀ row ∈ session.system.node.tables.torrents, Origin env tables past row.uid)
      (fun source label target ⟨openable, origins⟩ taken step =>
        ⟨step.openable checks openable, fun row member =>
          (step.addsRows taken row member).elim (origins row) And.left⟩)
      ⟨Node.init_openable server localDevs findNearbyDevs files distinct, fun row member => ?_⟩
      taken
    have begun : row ∈ (({ files, tables } : Node).populateLocalTorrents server).tables.torrents :=
      member
    rw [populateLocalTorrents_torrents] at begun
    exact .start row begun rfl
  obtain ⟨row, found, named⟩ := (openable.stored name torrent stored).row identified
  have own := List.find?_some found
  rw [beq_iff_eq] at own
  have member := List.mem_of_find?_eq_some found
  exact ⟨⟨row, member, own, named⟩, own ▸ origins row member⟩

/-- The torrent `a` was there at the beginning, and a peer that is asked for `b` answers with its
description: `b` is then a torrent with the uid and the name of the row that was there. -/
theorem torrents_own_letter :
    let env := Env.byLength (Torrent.checkingLib 7 1 false)
    let server : Server := ⟨.insertion, fun _ => false⟩
    let node : Node := .init server [System.adapter] (fun _ => [.create [100]]) .empty
      Torrent.letterTables
    let outcome : Outcome := ⟨server, some { data := Torrent.letterText 7 [(1, false)] }, {}⟩
    ∃ past final, Transition.Run (Step env) { system := { node } } past final ∧
      past.map Prod.snd = [.syncRequestTorrentFile [98] [100] outcome] ∧
      ∃ torrent, final.system.node.name2torrent[([98] : Bytes)]? = some torrent ∧
        torrent.uid = 7 ∧
        (∃ row ∈ final.system.node.tables.torrents,
          row.uid = torrent.uid.toUInt32 ∧ row.name = torrent.name) ∧
        Origin env Torrent.letterTables past torrent.uid.toUInt32 := by
  intro env server node outcome
  obtain ⟨tor, opened, res, tables, created, opens, uid⟩ := Torrent.described_letter_opens
  let asks : TorrentFileReq := ({} : TorrentFileReq).create (.create [100]) System.adapter [98]
  let req : TorrentFileReq :=
    { asks with serializedTorrent := Torrent.letterText 7 [(1, false)] }
  let after : Node := (({ node with tables } : Node).setTorrent [98] opened).destroy opened
  have completed : node.completeTorrentFileReq env server req = some after := by
    have same : ({} : Torrent).createTorrentFromSerializedObj env server.refuses
        req.serializedTorrent node.tables = (.ok (tor, res), tables) := created
    have there : tor.open env server.order tables = .ok (opened, true) := opens
    simp only [completeTorrentFileReq, same, there, ↓reduceIte]
    rfl
  have asked : node.createTorrentFileRequest [98] (.create [100]) {} = some (some asks) := rfl
  have synchronized : node.syncRequest env server (.file asks)
      (some { data := Torrent.letterText 7 [(1, false)] }) = some (after, true) := by
    have unfolded : node.syncRequest env server (.file asks)
        (some { data := Torrent.letterText 7 [(1, false)] }) =
          (node.completeTorrentFileReq env server req).map fun node => (node, true) := rfl
    rw [unfolded, completed]
    rfl
  have executed : Call.syncRequestTorrentFileFrom env ⟨node, fun _ => outcome⟩ [98] [100] =
      some (⟨after, fun _ => outcome⟩, true) := by
    simp only [Call.syncRequestTorrentFileFrom, outcome, asked, Option.bind_eq_bind,
      Option.bind_some, Call.syncRequest, synchronized]
    rfl
  have begun : Transition.Run (Step env) { system := { node } } [] { system := { node } } := .nil
  have run := begun.snoc (.syncRequestTorrentFile ⟨rfl, rfl⟩ executed)
  let torrent : Torrent := (({ node with tables } : Node).subscript [98]).2.assign opened
  have stored : after.name2torrent[([98] : Bytes)]? = some torrent :=
    (setTorrent_stores { node with tables } [98] opened [98]).trans (if_pos rfl)
  have identified : torrent.uid = 7 := uid
  have owned := torrents_own env (Torrent.checkingLib_checksUtf8 7 1 false) server [System.adapter]
    (fun _ => [.create [100]]) .empty Torrent.letterTables (by decide) run [98] torrent stored
    (by rw [identified]; decide)
  exact ⟨_, _, run, rfl, torrent, stored, identified, owned⟩

end Session

end Bp2p
