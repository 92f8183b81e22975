import Bp2p.NewTorrent
import Bp2p.NodeFrame

/-! # The map of torrents

Every entry of `name2torrent` should be a torrent with pieces and chunks, stored under
its own name. Three writes do not see to it: a completed chunk request makes an entry
for a torrent the node does not have, a completed description is stored under the name
that was asked for, and rows without pieces or chunks are read from the database. The
entries are right along a run exactly when none of these happens
(`Bp2p.System.mapped_iff_fits`).
-/

namespace Bp2p

namespace Node

/-- Every entry is a torrent of its name with pieces and chunks. -/
def Mapped (node : Node) : Prop :=
  ∀ (name : Bytes) (torrent : Torrent), node.name2torrent[name]? = some torrent →
    torrent.name = name ∧ 1 ≤ torrent.numPieces ∧ torrent.chunks ≠ []

theorem one_le_iff (number : UInt32) : 1 ≤ number ↔ number ≠ 0 := by
  rw [UInt32.le_iff_toNat_le, ne_eq, ← UInt32.toNat_inj]
  exact Nat.one_le_iff_ne_zero

theorem Mapped.of_eq {node after : Node} (mapped : node.Mapped)
    (same : after.name2torrent = node.name2torrent) : after.Mapped := by
  unfold Mapped
  rw [same]
  exact mapped

/-- A map stays in order exactly if what is stored fits its name. -/
theorem Stores.mapped_iff {node after : Node} {name : Bytes} {torrent : Torrent}
    (mapped : node.Mapped) (stores : node.Stores after name torrent) :
    after.Mapped ↔ torrent.name = name ∧ 1 ≤ torrent.numPieces ∧ torrent.chunks ≠ [] := by
  constructor
  · intro all
    exact all name torrent ((stores name).trans (if_pos rfl))
  · intro valid other found held
    rw [stores other] at held
    split at held
    · next same =>
        cases held
        exact same ▸ valid
    · exact mapped other found held

/-- The answer to a request fits the torrent the node has or asks for. -/
def Fits (env : Env) (server : Server) (node : Node) : Packet → Prop
  | .list _ => True
  | .file req =>
      Torrent.AnswerFits env server.refuses node.tables req.torrentName req.serializedTorrent
  | .avail _ => True
  | .chunk req => node.name2torrent.contains req.torrentName = true

/-- What is made of a description goes out of scope as it is, or filled with the rows of
its uid, and is stored before if it then has a name, pieces and chunks. -/
theorem completeTorrentFileReq_spec {env : Env} {server : Server} {node after : Node}
    {req : TorrentFileReq} (completed : node.completeTorrentFileReq env server req = some after) :
    ∃ tor res tables, ({} : Torrent).createTorrentFromSerializedObj env server.refuses
        req.serializedTorrent node.tables = (.ok (tor, res), tables) ∧
      ((tor.uid = 0 ∧ after = ({ node with tables } : Node).destroy tor) ∨
        (tor.uid ≠ 0 ∧ ∃ jobj serializedObj,
          ((tor.loaded env server.order tables).Printable ∧
              after = (({ node with tables } : Node).setTorrent req.torrentName
                { tor.loaded env server.order tables with jobj, serializedObj }).destroy
                { tor.loaded env server.order tables with jobj, serializedObj }) ∨
            (¬ (tor.loaded env server.order tables).Printable ∧
              after = ({ node with tables } : Node).destroy
                { tor.loaded env server.order tables with jobj, serializedObj }))) := by
  unfold completeTorrentFileReq at completed
  split at completed
  · cases completed
  · next tor res tables created =>
      refine ⟨tor, res, tables, created, ?_⟩
      split at completed
      · cases completed
      · next loaded opened executed =>
          simp only [Option.some.injEq] at completed
          by_cases zero : tor.uid = 0
          · simp only [Torrent.open, zero, ↓reduceIte, Except.ok.injEq, Prod.mk.injEq] at executed
            obtain ⟨rfl, rfl⟩ := executed
            exact .inl ⟨zero, completed.symm⟩
          · obtain ⟨⟨jobj, serializedObj, rfl⟩, valid⟩ := Torrent.open_ok zero executed
            refine .inr ⟨zero, jobj, serializedObj, ?_⟩
            cases opened with
            | true => exact .inl ⟨valid.mp rfl, completed.symm⟩
            | false =>
                exact .inr ⟨fun printable => Bool.noConfusion (valid.mpr printable), completed.symm⟩

/-- A completed description is stored if it opens as a valid torrent. -/
theorem completeTorrentFileReq_mapped_iff {env : Env} {server : Server} {node after : Node}
    {req : TorrentFileReq} (mapped : node.Mapped)
    (completed : node.completeTorrentFileReq env server req = some after) :
    after.Mapped ↔ node.Fits env server (.file req) := by
  obtain ⟨tor, res, tables, created, made⟩ := completeTorrentFileReq_spec completed
  have uid : tor.uid = (Torrent.described env req.serializedTorrent).uid := by
    obtain ⟨⟨jobj, serializedObj, same⟩, _⟩ := Torrent.createTorrentFromSerializedObj_ok created
    rw [same]
  rcases made with ⟨zero, rfl⟩ | ⟨identified, jobj, serializedObj, stored⟩
  · exact ⟨fun _ identified => absurd (uid.symm.trans zero) identified, fun _ => mapped⟩
  · rw [Fits, Torrent.answerFits_iff server.order (uid ▸ identified) created]
    rcases stored with ⟨printable, rfl⟩ | ⟨unprintable, rfl⟩
    · have ⟨_, counted, filled⟩ := printable
      have stores := setTorrent_stores { node with tables } req.torrentName
        { tor.loaded env server.order tables with jobj, serializedObj }
      apply (stores.mapped_iff mapped).trans
      simp only [Torrent.assign, one_le_iff, ne_eq, counted, filled, not_false_eq_true,
        and_true, printable, forall_const]
    · exact ⟨fun _ printable => absurd printable unprintable, fun _ => mapped⟩

/-- A completed chunk is stored under the name of a torrent the node has, or with a torrent
made for it. -/
theorem completeChunkReq_mapped_iff {env : Env} (server : Server) {node : Node} {req : ChunkReq}
    (mapped : node.Mapped) :
    (node.completeChunkReq env req).Mapped ↔ node.Fits env server (.chunk req) := by
  rw [(completeChunkReq_stores env node req).mapped_iff mapped, Fits,
    Std.TreeMap.contains_eq_isSome_getElem?]
  cases found : node.name2torrent[req.torrentName]? with
  | some stored =>
      obtain ⟨named, positive, filled⟩ := mapped _ _ found
      simp only [subscript_found found, Torrent.withChunk, Option.isSome_some, iff_true]
      split
      · refine ⟨named, positive, List.ne_nil_of_length_pos ?_⟩
        rw [Torrent.markExisting, List.length_modify]
        exact List.length_pos_of_ne_nil filled
      · exact ⟨named, positive, filled⟩
  | none =>
      simp only [subscript_missing found, Torrent.withChunk, Option.isSome_none,
        Bool.false_eq_true, iff_false]
      split
      · exact fun valid => absurd rfl ((one_le_iff _).mp valid.2.1)
      · exact fun valid => absurd rfl ((one_le_iff _).mp valid.2.1)

/-- A completed request keeps the entries right exactly when its answer fits. -/
theorem completeRequest_mapped_iff {env : Env} {server : Server} {node after : Node}
    {req : Packet} (mapped : node.Mapped)
    (completed : node.completeRequest env server req = some after) :
    after.Mapped ↔ node.Fits env server req := by
  cases req with
  | list req =>
      cases completed
      exact ⟨fun _ => trivial, fun _ => mapped⟩
  | file req => exact completeTorrentFileReq_mapped_iff mapped completed
  | avail req =>
      cases completed
      exact ⟨fun _ => trivial, fun _ => mapped.of_eq (completeTorrentAvailReq_name2torrent ..)⟩
  | chunk req =>
      cases completed
      exact completeChunkReq_mapped_iff server mapped

/-- A torrent that is created fits its name. -/
theorem createTorrent_mapped {env : Env} {server : Server} {node after : Node} {name : Bytes}
    {filenames : List Bytes} {created : Bool} (mapped : node.Mapped)
    (executed : node.createTorrent env server name filenames = some (after, created)) :
    after.Mapped := by
  obtain ⟨t, files, tables, made, rfl⟩ := createTorrent_spec executed
  obtain ⟨_, _, _, _, inserted⟩ := Torrent.create_ok made
  have named := Torrent.create_name made
  cases created with
  | false => exact mapped
  | true =>
      obtain ⟨_, counted, filled, _⟩ :=
        Torrent.isValid_iff.mp (Torrent.isValid_of_insertIfValid inserted)
      have stores := setTorrent_stores { node with files, tables } name t
      exact (stores.mapped_iff mapped).mpr ⟨named, (one_le_iff _).mpr counted, filled⟩

/-- The last row of every name has pieces, and there is a chunk row of its uid. -/
def RowsFit (server : Server) (tables : Database) : Prop :=
  ∀ (name : Bytes) (row : TorrentsRecord),
    (server.order.torrents tables.torrents).reverse.find? (·.name == name) = some row →
    row.numPieces ≠ 0 ∧ ∃ chunk ∈ tables.chunks, chunk.uid = row.uid

/-- The entries have new `TorrentDB`s. -/
def NewDBs (node : Node) : Prop :=
  ∀ (name : Bytes) (torrent : Torrent), node.name2torrent[name]? = some torrent → torrent.db = {}

/-- What is looked up has a new `TorrentDB`. -/
theorem NewDBs.subscript {node : Node} (new : node.NewDBs) (name : Bytes) :
    (node.subscript name).2.db = {} := by
  cases found : node.name2torrent[name]? with
  | some torrent =>
      rw [subscript_found found]
      exact new name torrent found
  | none => rw [subscript_missing found]

/-- Storing a torrent leaves each with a new `TorrentDB`. -/
theorem NewDBs.setTorrent {node : Node} (new : node.NewDBs) (name : Bytes) (torrent : Torrent) :
    (node.setTorrent name torrent).NewDBs := by
  intro other stored held
  rw [setTorrent_stores node name torrent other] at held
  split at held
  · cases held
    exact new.subscript name
  · exact new other stored held

/-- Torrents stored one after the other under their names: the last one of a name stays. -/
theorem getElem?_foldl_setTorrent (torList : List Torrent) {node : Node} (new : node.NewDBs)
    (name : Bytes) :
    (torList.foldl (fun node tor => node.setTorrent tor.name tor) node).name2torrent[name]? =
      match torList.reverse.find? (·.name == name) with
      | some tor => some { tor with db := {} }
      | none => node.name2torrent[name]? := by
  induction torList generalizing node with
  | nil => rfl
  | cons tor rest ih =>
      rw [List.foldl_cons, List.reverse_cons, List.find?_append, ih (new.setTorrent _ _)]
      cases rest.reverse.find? (·.name == name) with
      | some other => rfl
      | none =>
          simp only [Option.none_or, List.find?_singleton, beq_iff_eq,
            setTorrent_stores node tor.name tor name, Torrent.assign, new.subscript]
          split
          · rfl
          · rfl

theorem foldl_destroy_name2torrent (torList : List Torrent) (node : Node) :
    (torList.foldl destroy node).name2torrent = node.name2torrent := by
  induction torList generalizing node with
  | nil => rfl
  | cons tor rest ih => exact ih _

/-- The entries read from the database. -/
theorem getElem?_populateLocalTorrents (server : Server) (node : Node) (name : Bytes) :
    (node.populateLocalTorrents server).name2torrent[name]? =
      ((server.order.torrents node.tables.torrents).reverse.find? (·.name == name)).map
        (Torrent.localTorrent server.order node.tables) := by
  have new : node.clearTorrents.NewDBs := fun name torrent held => by cases held
  have named : (fun tor : Torrent => tor.name == name) ∘
      Torrent.localTorrent server.order node.tables = fun row => row.name == name := rfl
  rw [populateLocalTorrents, foldl_destroy_name2torrent, getElem?_foldl_setTorrent _ new,
    Torrent.getAllTorrents_eq, ← List.map_reverse, List.find?_map, named]
  cases (server.order.torrents node.tables.torrents).reverse.find? (·.name == name) with
  | some row => rfl
  | none => rfl

/-- The torrents read again fit their names exactly if the rows do. -/
theorem populateLocalTorrents_mapped_iff (server : Server) (node : Node) :
    (node.populateLocalTorrents server).Mapped ↔ RowsFit server node.tables := by
  have complete : ∀ row : TorrentsRecord,
      (1 ≤ (Torrent.localTorrent server.order node.tables row).numPieces ∧
        (Torrent.localTorrent server.order node.tables row).chunks ≠ []) ↔
      (row.numPieces ≠ 0 ∧ ∃ chunk ∈ node.tables.chunks, chunk.uid = row.uid) := by
    intro row
    simp only [Torrent.localTorrent, one_le_iff, ne_eq, List.map_eq_nil_iff,
      Torrent.getTorrentChunks_eq_nil_iff, List.filter_eq_nil_iff, beq_iff_eq, not_forall,
      not_not, exists_prop]
  constructor
  · intro mapped name row last
    have entry := getElem?_populateLocalTorrents server node name
    rw [last, Option.map_some] at entry
    exact (complete row).mp (mapped name _ entry).2
  · intro fit name torrent held
    rw [getElem?_populateLocalTorrents] at held
    obtain ⟨row, last, rfl⟩ := Option.map_eq_some_iff.mp held
    have named := List.find?_some last
    rw [beq_iff_eq] at named
    exact ⟨named, (complete row).mpr (fit name row last)⟩

end Node

namespace System

open Node

/-- The step keeps to torrents that fit: what it completes does, and so do the rows it
reads into the map. -/
def Fits (env : Env) (system : System) : Label → Prop
  | .jobManager server transport _ => ∀ job rest, system.node.jobs = job :: rest →
      ∀ req, carryOutRequest job transport = some req → system.node.Fits env server req
  | .statement server transport draws => ∀ name rsp, system.main = .file name →
      system.node.name2torrent.contains name = false → system.node.InReach name draws →
      transport = some rsp → system.node.Fits env server
        (.file { torrentName := name, serializedTorrent := rsp.data })
  | .requestTorrentData _ => True
  | .createTorrent _ _ _ => True
  | .populateLocalTorrents server => RowsFit server system.node.tables
  | .complete server req => system.node.Fits env server req
  | .serve _ _ _ => True
  | .edit _ => True

/-- A synchronous request keeps the map in order exactly if what it brings fits. -/
theorem syncRequest_mapped_iff {env : Env} {server : Server} {node after : Node} {req : Packet}
    {transport : Option Message} {succeeded : Bool} (mapped : node.Mapped)
    (executed : node.syncRequest env server req transport = some (after, succeeded)) :
    after.Mapped ↔ ∀ rsp answered, transport = some rsp →
      req.createRequest.processResponse rsp = .ok answered → node.Fits env server answered := by
  rcases syncRequest_spec executed with ⟨rfl, rfl⟩ | ⟨rsp, answered, rfl, read, completed⟩
  · refine ⟨fun _ rsp answered sent => ?_, fun _ => mapped⟩
    cases sent
  · rw [completeRequest_mapped_iff mapped completed]
    refine ⟨fun fits other packet sent same => ?_, fun fits => fits rsp answered rfl read⟩
    cases sent
    rw [read] at same
    cases same
    exact fits

/-- A statement keeps the map in order exactly if what it brings fits. -/
theorem statement_mapped_iff {env : Env} {server : Server} {transport : Option Message}
    {draws : Draws} {system after : System} (mapped : system.node.Mapped)
    (executed : system.statement env server transport draws = some after) :
    after.node.Mapped ↔ Fits env system (.statement server transport draws) := by
  by_cases asks : ∃ name, system.main = .file name
  · obtain ⟨node, main⟩ := system
    obtain ⟨name, rfl⟩ := asks
    simp only [statement] at executed
    split at executed
    · next there =>
        cases executed
        refine ⟨fun _ other rsp asked missing => ?_, fun _ => mapped⟩
        cases asked
        exact absurd there (Bool.eq_false_iff.mp missing)
    · next missing =>
        simp only [bind, Option.bind_eq_some_iff] at executed
        obtain ⟨req, created, executed⟩ := executed
        rcases requestFromAny_made created with
          ⟨reached, remoteAddr, localAddr, rfl⟩ | ⟨unreached, rfl⟩
        · simp only [Option.bind_eq_some_iff, Option.some.injEq, Prod.exists] at executed
          obtain ⟨left, succeeded, synchronized, rfl⟩ := executed
          rw [syncRequest_mapped_iff mapped synchronized]
          constructor
          · intro fits other rsp asked _ _ sent
            cases asked
            have fit := fits rsp _ sent rfl
            exact fit
          · intro fits rsp answered sent read
            have fit := fits name rsp rfl (Bool.eq_false_iff.mpr missing) reached sent
            cases read
            exact fit
        · cases executed
          refine ⟨fun _ other rsp asked _ reached => ?_, fun _ => mapped⟩
          cases asked
          exact absurd reached unreached
  · have effect := (statement_spec executed).1
    have right : after.node.Mapped := by
      generalize after.node = left at effect ⊢
      cases effect with
      | rebuild torName2dev => exact mapped
      | list synchronized =>
          apply (syncRequest_mapped_iff mapped synchronized).mpr
          intro rsp answered sent read
          cases read
          trivial
      | avail synchronized =>
          apply (syncRequest_mapped_iff mapped synchronized).mpr
          intro rsp answered sent read
          obtain ⟨req, rfl⟩ := processResponse_avail read
          trivial
      | file asked => exact absurd ⟨_, asked⟩ asks
      | read destroys => exact mapped.of_eq destroys.keepsTorrents.name2torrent
      | insert req => exact mapped.of_eq (insertCreated_keepsTorrents ..).name2torrent
    exact ⟨fun _ name rsp asked => absurd ⟨name, asked⟩ asks, fun _ => right⟩

/-- A step keeps the entries right exactly when what it puts there fits. -/
theorem Step.mapped_iff {env : Env} {system after : System} {label : Label}
    (mapped : system.node.Mapped) (step : Step env system label after) :
    after.node.Mapped ↔ Fits env system label := by
  cases step with
  | @jobManager server transport draws after running worked =>
      rcases jobManagerThread_keepsTorrents worked with
        ⟨none, kept⟩ | ⟨req, completed, answered, done, kept⟩
      · refine ⟨fun _ job rest front req answered => ?_, fun _ => mapped.of_eq kept.name2torrent⟩
        rw [front, List.head?_cons, Option.bind_some, answered] at none
        cases none
      · obtain ⟨job, front, carried⟩ := Option.bind_eq_some_iff.mp answered
        have right := completeRequest_mapped_iff mapped done
        simp only [Mapped, kept.name2torrent] at right ⊢
        rw [right]
        constructor
        · intro fits other rest behind packet sent
          rw [behind, List.head?_cons, Option.some.injEq] at front
          subst front
          rw [carried, Option.some.injEq] at sent
          exact sent ▸ fits
        · intro fits
          obtain ⟨rest, behind⟩ := List.head?_eq_some_iff.mp front
          exact fits job rest behind req carried
  | statement executed => exact statement_mapped_iff mapped executed
  | requestTorrentData => exact ⟨fun _ => trivial, fun _ => mapped⟩
  | createTorrent _ executed =>
      exact ⟨fun _ => trivial, fun _ => createTorrent_mapped mapped executed⟩
  | populateLocalTorrents server => exact populateLocalTorrents_mapped_iff server system.node
  | complete completed => exact completeRequest_mapped_iff mapped completed
  | serve answered =>
      obtain ⟨tables, rfl⟩ := processRequest_onlyTables answered
      exact ⟨fun _ => trivial, fun _ => mapped⟩
  | edit => exact ⟨fun _ => trivial, fun _ => mapped⟩

/-- **The map of torrents.** Along a run from a node whose entries are right, they are
right in every state exactly when every step keeps to torrents that fit. -/
theorem mapped_iff_fits (env : Env) (start final : System) (past : List (System × Label))
    (run : Transition.Run (Step env) start past final) (mapped : start.node.Mapped) :
    Transition.Throughout (Step env) start past (fun system => system.node.Mapped) ↔
      Transition.Meets (Fits env) past :=
  run.throughout_iff_meets (fun _ _ _ valid step => step.mapped_iff valid) mapped

/-- A node that reads a torrent from its database. -/
theorem mapped_iff_fits_populate :
    ∃ past final, Transition.Run (Step (.byLength .null))
        { node := { tables := Torrent.letterTables } } past final ∧ past ≠ [] ∧
      Transition.Throughout (Step (.byLength .null))
        { node := { tables := Torrent.letterTables } } past fun system => system.node.Mapped := by
  let server : Server := ⟨.insertion, fun _ => false⟩
  have begun : Transition.Run (Step (.byLength .null))
    { node := { tables := Torrent.letterTables } } [] _ := .nil
  have run := begun.snoc (.populateLocalTorrents server rfl)
  refine ⟨_, _, run, List.cons_ne_nil _ _, (mapped_iff_fits _ _ _ _ run ?_).mpr ?_⟩
  · intro name torrent held
    cases held
  · intro record member
    rw [List.nil_append, List.mem_singleton] at member
    subst member
    intro name row last
    have only : row ∈ Torrent.letterTables.torrents :=
      List.mem_reverse.mp (List.mem_of_find?_eq_some last)
    rw [Torrent.letterTables, List.mem_singleton] at only
    subst only
    exact ⟨by decide, _, List.mem_singleton_self _, rfl⟩

/-- The node once `requestTorrentData` has filled `torName2dev` again. -/
def swapped : Node :=
  { inReachOfPeer with
    torName2dev := Utils.swapVal (Utils.swapVal {} peer [97]) peer [98] }

/-- The request for a chunk of a torrent whose description did not come. -/
def unknownChunk : ChunkReq where
  remoteAddr := peer
  localAddr := adapter
  torrentName := [97]

/-- An empty response lists no chunk. -/
theorem processResponse_empty (req : TorrentAvailReq) : (Packet.avail req).processResponse {} =
    .ok (.avail { req with rsp := {}, torrentAvail := [] }) := by
  have token : Utils.tokenize [] RRPacket.commSeparator [] = [[]] :=
    Utils.tokenize_of_find_none rfl
  simp only [Packet.processResponse, TorrentAvailReq.processResponse, token]
  rfl

/-- A peer that offers the torrent `a` is asked for it, whatever torrents the node has. -/
theorem asks_reached (name2torrent : Std.TreeMap Bytes Torrent) :
    ∃ past, Transition.Run (Step (.byLength .null))
      { node := { inReachOfPeer with name2torrent } } past
      { node := { swapped with name2torrent }, main := .file [97] } := by
  let env := Env.byLength .null
  let server : Server := ⟨.insertion, fun _ => false⟩
  let node : Node := { swapped with name2torrent }
  have begun : Transition.Run (Step env) { node := { inReachOfPeer with name2torrent } } [] _ :=
    .nil
  have called := begun.snoc (.requestTorrentData [97] rfl)
  have tested := called.snoc (.statement (rfl : statement _ server none {} _ =
    some { node := { inReachOfPeer with name2torrent }, main := .clear [97] }))
  have cleared := tested.snoc (.statement (rfl : statement _ server none {} _ =
    some { node := { inReachOfPeer with name2torrent, torName2dev := {} },
           main := .swap [97] none }))
  have filled := cleared.snoc (.statement (rfl : statement _ server none {} _ =
    some { node, main := .swap [97] (some peer) }))
  have found := (filled.snoc (.statement (rfl : statement _ server none {} _ =
    some { node, main := .avail [97] }))).snoc (.statement (rfl : statement _ server none {} _ =
        some { node, main := .availFrom [97] [peer] }))
  have answered : statement env server (some {}) {} { node, main := .availFrom [97] [peer] } =
      some { node, main := .availFrom [97] [] } := by
    have made : node.createTorrentAvailRequest [97] peer {} =
      some (some (({} : TorrentAvailReq).create [97] peer adapter)) := rfl
    simp only [statement, made, bind, Option.bind_some, Node.syncRequest, Packet.createRequest,
      processResponse_empty]
    rfl
  exact ⟨_, (found.snoc (.statement answered)).snoc
    (.statement (rfl : statement _ server none {} _ = some { node, main := .file [97] }))⟩

/-- A peer that answers every request for a torrent with nothing refutes the invariant of
the map. -/
theorem mapped_iff_fits_fails :
    ¬ ∀ (env : Env) (start final : System) (past : List (System × Label)),
      Transition.Run (Step env) start past final → start.node.name2torrent = {} →
      final.node.Mapped := by
  intro always
  let env := Env.byLength .null
  let server : Server := ⟨.insertion, fun _ => false⟩
  obtain ⟨past, asked⟩ := asks_reached {}
  have undescribed := asked.snoc (.statement (rfl : statement _ server (some {}) {} _ =
    some { node := swapped, main := .chunk [97] }))
  let queue : System := { node := { swapped with jobs := [.chunk unknownChunk] } }
  have queued := (undescribed.snoc (.statement (rfl : statement _ server none {} _ =
    some { node := swapped, main := .insert (some unknownChunk) }))).snoc
      (.statement (rfl : statement _ server none {} _ = some queue))
  obtain ⟨after, worked⟩ : ∃ after,
      queue.node.jobManagerThread env server (some {}) {} = some after := ⟨_, rfl⟩
  have step : Step env queue _ { queue with node := after } := .jobManager rfl worked
  have mapped := always _ _ _ _ (queued.snoc step) rfl
  have fits := (step.mapped_iff (fun name torrent held => by cases held)).mp mapped
  have there : swapped.name2torrent.contains [97] = true := fits _ _ rfl _ rfl
  cases there

end System

end Bp2p
