import Bp2p.FileRequest
import Bp2p.Mirror

/-! # Restarts along a run

Which steps keep the tables a mirror of the map. A chunk that is put into a torrent is
known to the next process only if the torrent has uid 0, since the copy that is put
into and the one stored have new `TorrentDB`s; a description is inserted under uid 0 and
not stored; a package is inserted with its numbers cut to 32 bits. Where none of this
makes a difference (`Bp2p.System.Safe`), the map survives a restart in every state of a
run (`Bp2p.System.survives_of_safe`).
-/

namespace Bp2p

namespace Node

/-- Reading a torrent for a peer changes nothing: a copy that is opened writes back what
it was filled with, one that is not has the flags of the map. -/
theorem Mirrors.readTorrent {α : Type} {env : Env} {server : Server} {node after : Node}
    (mirrors : node.Mirrors) {name : Bytes} {unread result : α} {read : Torrent → α}
    (executed : node.readTorrent env server name unread read = some (after, result)) :
    after = node := by
  unfold Node.readTorrent at executed
  split at executed
  · cases executed
    rfl
  · next stored found =>
      split at executed
      · cases executed
      · next tor opened loads =>
          cases executed
          apply destroy_eq_self
          by_cases zero : stored.copy.uid = 0
          · simp only [Torrent.open, zero, ↓reduceIte, Except.ok.injEq, Prod.mk.injEq] at loads
            obtain ⟨rfl, _⟩ := loads
            exact mirrors.destroy_copy found
          · obtain ⟨⟨jobj, serializedObj, rfl⟩, _⟩ := Torrent.open_ok zero loads
            exact Torrent.destroy_of_loaded env server.order _ mirrors.keyed jobj serializedObj

/-- Answering changes nothing while the map mirrors the tables. -/
theorem Mirrors.processRequest {env : Env} {server : Server} {node after : Node}
    (mirrors : node.Mirrors) {req rsp : Message} {memory : Bytes}
    (answered : node.processRequest env server req memory = some (after, rsp)) : after = node := by
  rcases processRequest_spec answered with same | ⟨_, _, _, _, _, executed⟩
  · exact same
  · exact mirrors.readTorrent executed

/-- The description is not inserted, and what is opened for it is the torrent asked for. -/
def DescriptionStays (env : Env) (node : Node) (req : TorrentFileReq) : Prop :=
  let described := Torrent.described env req.serializedTorrent
  (described.isValid = true → node.tables.hasTorrent 0 = true) ∧
  (described.uid = 0 → described.MatchesRows 0 node.tables) ∧
  (described.uid ≠ 0 → ∀ row,
    node.tables.torrents.find? (·.uid == described.uid.toUInt32) = some row →
    described.RowsComplete node.tables row →
    row.name = req.torrentName ∧ described.chunks = [] ∧ described.uid.toNat < 2 ^ 32)

/-- A description that stays leaves the mirror. -/
theorem Mirrors.completeTorrentFileReq {env : Env} {server : Server} {node after : Node}
    (mirrors : node.Mirrors) {req : TorrentFileReq} (stays : node.DescriptionStays env req)
    (completed : node.completeTorrentFileReq env server req = some after) : after.Mirrors := by
  obtain ⟨inserted, unidentified, asked⟩ := stays
  obtain ⟨tor, res, tables, created, made⟩ := completeTorrentFileReq_spec completed
  obtain ⟨⟨document, text, same⟩, valid, rfl⟩ := Torrent.createTorrentFromSerializedObj_ok created
  let described := Torrent.described env req.serializedTorrent
  have uid : tor.uid = described.uid := by rw [same]
  have chunks : tor.chunks = described.chunks := by rw [same]
  have new : tor.db = {} := by
    rw [same]
    exact Torrent.described_db env req.serializedTorrent
  have unchanged : (tor.insertIfValid server.refuses node.tables).1 = node.tables := by
    rw [Torrent.insertIfValid_unchanged server.refuses fun filled => ?_]
    rw [new]
    exact inserted (valid ▸ filled)
  rw [unchanged] at made
  rcases made with ⟨zero, rfl⟩ | ⟨identified, jobj, serializedObj, stored⟩
  · have kept : tor.destroy node.tables = node.tables := by
      apply Torrent.destroy_of_matchesRows
      rw [new]
      exact (unidentified (uid ▸ zero)).of_perm (.of_eq chunks)
    exact mirrors.of_eq (fun _ => rfl) kept
  · have kept := Torrent.destroy_of_loaded env server.order tor mirrors.keyed jobj serializedObj
    rcases stored with ⟨printable, rfl⟩ | ⟨_, rfl⟩
    · obtain ⟨row, selected⟩ := Torrent.find?_of_printable printable
      have complete := (Torrent.loaded_of_find? env server.order selected).2.mp printable
      simp only [Torrent.RowsComplete, uid, chunks] at complete
      obtain ⟨named, empty, narrow⟩ := asked (uid ▸ identified) row (uid ▸ selected) complete
      have filled := Torrent.loaded_sameAs env server.order (chunks.trans empty) (uid ▸ narrow)
        selected
      have stores := setTorrent_stores node req.torrentName
        { tor.loaded env server.order node.tables with jobj, serializedObj }
      rw [← named] at stores ⊢
      refine mirrors.restore (List.mem_of_find?_eq_some selected) stores ?_ ?_ ?_
      · simp only [destroy, setTorrent_tables]
        exact kept
      · exact ⟨filled.name, filled.uid, filled.numPieces, filled.size, filled.chunks⟩
      · exact mirrors.new.subscript row.name
    · exact mirrors.of_eq (fun _ => rfl) kept

/-- The torrent is there, and the chunk is refused or was there before, unless the torrent
has uid 0 and no other lacks a chunk of that index. -/
def ChunkStays (env : Env) (node : Node) (req : ChunkReq) : Prop :=
  ∃ stored, node.name2torrent[req.torrentName]? = some stored ∧
    (stored.validateChunk env req.chunk req.index.toUInt32 = true →
      ∀ chunk, stored.chunks[req.index.toUInt32.toNat]? = some chunk → chunk.existing = false →
        stored.uid = 0 ∧ ∀ (name : Bytes) (other : Torrent), name ≠ req.torrentName →
          node.name2torrent[name]? = some other →
          ∀ twin ∈ other.chunks, twin.index = chunk.index → twin.existing = true)

end Node

namespace Torrent

/-- A chunk that is refused, or was there before, changes nothing. -/
theorem withChunk_eq_self {env : Env} {torrent : Torrent} {bytes : Bytes} {position : UInt32}
    (there : torrent.validateChunk env bytes position = true → ∀ chunk,
      torrent.chunks[position.toNat]? = some chunk → chunk.existing = true) :
    torrent.withChunk env bytes position = torrent := by
  unfold withChunk
  split
  · next accepted =>
      cases held : torrent.chunks[position.toNat]? with
      | none => simp only [validateChunk, held, Bool.false_eq_true] at accepted
      | some chunk => exact markExisting_of_existing held (there accepted chunk held)
  · rfl

end Torrent

namespace Node

/-- A chunk that stays leaves the mirror. -/
theorem Mirrors.completeChunkReq {env : Env} {node : Node} {req : ChunkReq}
    (mirrors : node.Mirrors) (stays : node.ChunkStays env req) :
    (node.completeChunkReq env req).Mirrors := by
  obtain ⟨stored, found, allowed⟩ := stays
  obtain ⟨stores, tables⟩ := completeChunkReq_spec env node req
  rw [subscript_found found] at stores tables
  by_cases kept : stored.validateChunk env req.chunk req.index.toUInt32 = true → ∀ chunk,
      stored.chunks[req.index.toUInt32.toNat]? = some chunk → chunk.existing = true
  · rw [Torrent.withChunk_eq_self kept] at stores
    have copied : stored.copy.withChunk env req.chunk req.index.toUInt32 = stored.copy :=
      Torrent.withChunk_eq_self kept
    refine mirrors.of_eq (fun name => ?_) ?_
    · rw [stores name]
      split
      · next own => rw [← own, found]
      · rfl
    · rw [tables, copied]
      exact mirrors.destroy_copy found
  · simp only [not_forall, Bool.not_eq_true] at kept
    obtain ⟨accepted, chunk, held, missing⟩ := kept
    obtain ⟨zero, alone⟩ := allowed accepted chunk held missing
    have copied : stored.copy.validateChunk env req.chunk req.index.toUInt32 = true := accepted
    rw [Torrent.withChunk, if_pos accepted] at stores
    rw [Torrent.withChunk, if_pos copied] at tables
    exact mirrors.mark found held zero alone stores tables

/-- The uid of the package has rows with its flags, or its rows hold what it holds. -/
def CreationStays (env : Env) (node : Node) (name : Bytes) (filenames : List Bytes) : Prop :=
  let packed := (Torrent.ofFiles name filenames).package env node.files
  ∀ (seeder : Torrent) (ret : Int32), packed.1.packagePath ≠ [] →
    packed.1.generateChunks env packed.2.1 = .ok (seeder, ret) →
    if node.tables.hasTorrent seeder.uid.toUInt32 then
      seeder.MatchesRows seeder.uid.toUInt32 node.tables
    else seeder.numPieces = 0 ∨ node.RowsHold name seeder

/-- A valid torrent is inserted, stored, and goes out of scope. -/
theorem Mirrors.insert {node : Node} (mirrors : node.Mirrors) {torrent : Torrent} {name : Bytes}
    (titled : torrent.name = name) (own : torrent.db = { uid := torrent.uid })
    (absent : node.tables.hasTorrent torrent.db.key = false) (holds : node.RowsHold name torrent)
    (existing : ∀ chunk ∈ torrent.chunks, chunk.existing = true)
    {tables : Database} {res : Bool} {files : FileStore} (inserted :
      torrent.insertTorrentToDB (fun _ => false) node.tables = (tables, res)) :
    ((if res = true then ({ node with files, tables } : Node).setTorrent name torrent
      else { node with files, tables }).destroy torrent).Mirrors := by
  subst titled
  have accepted : torrent.AcceptedBy fun _ => false := ⟨rfl, fun _ _ => rfl, fun _ _ => rfl⟩
  have all := Torrent.insertTorrentToDB_ok accepted mirrors.keyed absent holds.files holds.indices
  have keyed : tables.Keyed := by
    rcases Torrent.insertTorrentToDB_spec (fun _ => false) torrent node.tables with
      ⟨unchanged, _⟩ | ⟨_, _, names, added, _, _, _, kept⟩
    · have failed : true = false := congrArg Prod.snd (all.symm.trans unchanged)
      cases failed
    · rw [inserted] at kept
      exact kept mirrors.keyed
  rw [all, Prod.mk.injEq] at inserted
  obtain ⟨rows, rfl⟩ := inserted
  have torrents : tables.torrents = node.tables.torrents ++ [torrent.torrentsRecord] := by
    rw [← rows]
  have chunks : tables.chunks = node.tables.chunks ++ torrent.chunks.map torrent.chunksRecord := by
    rw [← rows]
  have kept : torrent.destroy tables = tables := by
    apply Torrent.destroy_of_matchesRows
    intro row member mine chunk listed _
    apply (existing chunk listed).trans
    rw [chunks] at member
    rcases List.mem_append.mp member with old | new
    · have there := mirrors.keyed.references row old
      rw [mine, absent] at there
      cases there
    · obtain ⟨source, stored, rfl⟩ := List.mem_map.mp new
      exact (existing source stored).symm
  have final : ((({ node with files, tables } : Node).setTorrent torrent.name torrent).destroy
      torrent).tables = tables := by
    simp only [destroy, setTorrent_tables]
    exact kept
  have stores := setTorrent_stores { node with files, tables } torrent.name torrent
  have fresh : ({ node with files, tables } : Node).NewDBs := mirrors.new
  have new := fresh.subscript torrent.name
  rw [Torrent.assign, new] at stores
  rw [if_pos rfl]
  refine mirrors.append own absent holds existing stores ?_ ?_ ?_
  · rw [final, torrents]
  · rw [final, chunks]
  · rw [final]
    exact keyed

/-- A server that fails nothing: either nothing is inserted for the package, or its rows
hold it. -/
theorem Mirrors.createTorrent {env : Env} {server : Server} {node after : Node}
    (mirrors : node.Mirrors) (accepts : ∀ statement, server.refuses statement = false)
    {name : Bytes} {filenames : List Bytes} (stays : node.CreationStays env name filenames)
    {created : Bool}
    (executed : node.createTorrent env server name filenames = some (after, created)) :
    after.Mirrors := by
  unfold Node.createTorrent at executed
  split at executed
  · cases executed
  · next t res files tables made =>
      have titled := Torrent.create_name made
      obtain ⟨seeder, ret, generated, printed, inserted⟩ := Torrent.create_ok made
      obtain ⟨jobj, serializedObj, same⟩ := Torrent.serialize_ok printed
      obtain ⟨_, _, path, unset, packaged⟩ := Torrent.generateChunks_frame generated
      simp only [Option.some.injEq, Prod.mk.injEq] at executed
      obtain ⟨rfl, _⟩ := executed
      have chunks : t.chunks = seeder.chunks := by rw [same]
      have db : t.db = seeder.db := by rw [same]
      have uid : t.uid = seeder.uid := by rw [same]
      have refused : (t.isValid = true → node.tables.hasTorrent t.db.key = true) →
          t.MatchesRows t.db.key node.tables → Mirrors
            ((if res = true then ({ node with files, tables } : Node).setTorrent name t
              else { node with files, tables }).destroy t) := by
        intro there matching
        rw [Torrent.insertIfValid_unchanged _ there, Prod.mk.injEq] at inserted
        obtain ⟨rfl, rfl⟩ := inserted
        have kept := Torrent.destroy_of_matchesRows matching
        exact mirrors.of_eq (fun _ => rfl) kept
      by_cases none : ((Torrent.ofFiles name filenames).package env node.files).1.packagePath = []
      · have empty := (unset none).1
        refine refused (fun valid => ?_) fun row _ _ chunk listed => ?_
        · exact absurd (chunks.trans empty) (Torrent.isValid_iff.mp valid).2.2.1
        · rw [chunks, empty] at listed
          cases listed
      · obtain ⟨own, content, pieces, counted⟩ := packaged none
        have stay := stays seeder ret none generated
        have key : t.db.key = seeder.uid.toUInt32 := by rw [db, own, TorrentDB.key]
        split at stay
        · next there =>
            apply refused (fun _ => key ▸ there)
            rw [key]
            exact stay.of_perm (.of_eq chunks)
        · next absent =>
            have missing : node.tables.hasTorrent t.db.key = false :=
              key ▸ Bool.eq_false_iff.mpr absent
            have matching := Torrent.matchesRows_of_absent mirrors.keyed missing t
            by_cases valid : t.isValid = true
            · rcases stay with unpieced | holds
              · have filled := (Torrent.isValid_iff.mp valid).2.1
                rw [same] at filled
                exact absurd unpieced filled
              · have inserts : t.insertIfValid server.refuses node.tables =
                    t.insertTorrentToDB (fun _ => false) node.tables := by
                  rw [Torrent.insertIfValid, if_pos valid, show server.refuses = fun _ => false from
                    funext accepts]
                rw [inserts] at inserted
                have holds : node.RowsHold name t := by
                  rw [same]
                  exact ⟨holds.unnamed, holds.narrow, holds.hashes, holds.indices, holds.files,
                    holds.zero, holds.others⟩
                have existing : ∀ chunk ∈ t.chunks, chunk.existing = true := by
                  rw [chunks, pieces]
                  intro chunk listed
                  obtain ⟨k, _, rfl⟩ := List.mem_map.mp listed
                  rfl
                have identified : t.db = { uid := t.uid } := by rw [db, uid, own]
                exact mirrors.insert titled identified missing holds existing inserted
            · exact refused (fun other => absurd other valid) matching

/-- The answer to a request leaves map and tables in line. -/
def Stays (env : Env) (node : Node) : Packet → Prop
  | .list _ => True
  | .file req => node.DescriptionStays env req
  | .avail _ => True
  | .chunk req => node.ChunkStays env req

/-- A request that stays leaves the mirror. -/
theorem Mirrors.completeRequest {env : Env} {server : Server} {node after : Node}
    (mirrors : node.Mirrors) {req : Packet} (stays : node.Stays env req)
    (completed : node.completeRequest env server req = some after) : after.Mirrors := by
  cases req with
  | list req =>
      cases completed
      exact mirrors.of_eq (fun _ => rfl) rfl
  | file req => exact mirrors.completeTorrentFileReq stays completed
  | avail req =>
      cases completed
      unfold completeTorrentAvailReq
      simp only
      split
      · exact mirrors
      · exact mirrors.of_eq (fun _ => rfl) rfl
  | chunk req =>
      cases completed
      exact mirrors.completeChunkReq stays

/-- A synchronous request whose answer stays leaves the mirror. -/
theorem Mirrors.syncRequest {env : Env} {server : Server} {node after : Node} {req : Packet}
    {transport : Option Message} {succeeded : Bool} (mirrors : node.Mirrors)
    (stays : ∀ rsp answered, transport = some rsp →
      req.createRequest.processResponse rsp = .ok answered → node.Stays env answered)
    (executed : node.syncRequest env server req transport = some (after, succeeded)) :
    after.Mirrors := by
  rcases syncRequest_spec executed with ⟨_, rfl⟩ | ⟨rsp, answered, sent, read, completed⟩
  · exact mirrors
  · exact mirrors.completeRequest (stays rsp answered sent read) completed

end Node

namespace System

open Node

/-- The database fails no insert of the step. -/
def Label.Accepts : Label → Prop
  | .jobManager server _ _ | .statement server _ _ | .createTorrent server _ _
  | .populateLocalTorrents server | .complete server _ | .serve server _ _ =>
      ∀ statement, server.refuses statement = false
  | .requestTorrentData _ | .edit _ => True

/-- What the step completes or creates leaves map and tables in line. -/
def Safe (env : Env) (system : System) : Label → Prop
  | .jobManager _ transport _ => ∀ job rest, system.node.jobs = job :: rest →
      ∀ req, carryOutRequest job transport = some req → system.node.Stays env req
  | .statement _ transport draws => ∀ name rsp, system.main = .file name →
      system.node.name2torrent.contains name = false → system.node.InReach name draws →
      transport = some rsp → system.node.Stays env
        (.file { torrentName := name, serializedTorrent := rsp.data })
  | .requestTorrentData _ => True
  | .createTorrent _ name filenames => system.node.CreationStays env name filenames
  | .populateLocalTorrents _ => True
  | .complete _ req => system.node.Stays env req
  | .serve _ _ _ => True
  | .edit _ => True

/-- A safe statement leaves the mirror. -/
theorem statement_mirrors {env : Env} {server : Server} {transport : Option Message}
    {draws : Draws} {system after : System} (mirrors : system.node.Mirrors)
    (safe : Safe env system (.statement server transport draws))
    (executed : system.statement env server transport draws = some after) :
    after.node.Mirrors := by
  have effect := (statement_spec executed).1
  generalize after.node = left at effect ⊢
  cases effect with
  | rebuild torName2dev => exact mirrors.of_eq (fun _ => rfl) rfl
  | list synchronized =>
      refine mirrors.syncRequest (fun rsp answered sent read => ?_) synchronized
      cases read
      trivial
  | avail synchronized =>
      refine mirrors.syncRequest (fun rsp answered sent read => ?_) synchronized
      obtain ⟨req, rfl⟩ := processResponse_avail read
      trivial
  | file asked missing reached synchronized =>
      refine mirrors.syncRequest (fun rsp answered sent read => ?_) synchronized
      have stays := safe _ rsp asked missing reached sent
      cases read
      exact stays
  | read destroys => exact mirrors.of_keepsTorrents destroys.keepsTorrents
  | insert req => exact mirrors.of_keepsTorrents (insertCreated_keepsTorrents ..)

/-- A safe step keeps the tables a mirror of the map. -/
theorem Step.mirrors {env : Env} {system after : System} {label : Label}
    (mirrors : system.node.Mirrors) (accepts : label.Accepts) (safe : Safe env system label)
    (step : Step env system label after) : after.node.Mirrors := by
  cases step with
  | jobManager running worked =>
      rcases jobManagerThread_keepsTorrents worked with
        ⟨_, kept⟩ | ⟨req, completed, answered, done, kept⟩
      · exact mirrors.of_keepsTorrents kept
      · obtain ⟨job, front, carried⟩ := Option.bind_eq_some_iff.mp answered
        obtain ⟨rest, behind⟩ := List.head?_eq_some_iff.mp front
        have right := mirrors.completeRequest (safe job rest behind req carried) done
        exact right.of_keepsTorrents kept
  | statement executed => exact statement_mirrors mirrors safe executed
  | requestTorrentData => exact mirrors
  | createTorrent _ executed => exact mirrors.createTorrent accepts safe executed
  | populateLocalTorrents server =>
      exact populateLocalTorrents_mirrors server mirrors.clearTorrents mirrors.consistent
  | complete completed => exact mirrors.completeRequest safe completed
  | serve answered =>
      rw [mirrors.processRequest answered]
      exact mirrors
  | edit => exact mirrors.of_eq (fun _ => rfl) rfl

/-- **Restarts.** Along a run of a process that has read its map from consistent tables,
with a database that fails no insert and steps that are all safe, a restart in any state
finds the torrents of the map. -/
theorem survives_of_safe (env : Env) (server : Server) (fresh : Node)
    (past : List (System × Label)) (new : fresh.name2torrent = {})
    (consistent : fresh.tables.Consistent)
    (accepts : Transition.Meets (fun _ label => label.Accepts) past)
    (safe : Transition.Meets (Safe env) past) :
    Transition.Throughout (Step env) { node := fresh.populateLocalTorrents server } past
      fun system => system.node.Survives := by
  have start := populateLocalTorrents_mirrors server (clearTorrents_of_new new) consistent
  have meets : Transition.Meets (fun system (label : Label) =>
      label.Accepts ∧ Safe env system label) past :=
    fun record member => ⟨accepts record member, safe record member⟩
  exact Transition.Throughout.of_invariant (fun system => system.node.Mirrors)
    (fun source label target mirrors valid step => step.mirrors mirrors valid.1 valid.2)
    (fun system mirrors => mirrors.survives) start meets

/-- The node that has read the torrent of one byte. -/
def restarted : Node :=
  ({ tables := Torrent.letterTables } : Node).populateLocalTorrents ⟨.insertion, fun _ => false⟩

theorem letterTables_consistent : Torrent.letterTables.Consistent := by
  have keyed : Torrent.letterTables.Keyed := ⟨by decide, by decide, by decide, by decide⟩
  exact ⟨keyed, by decide, by decide⟩

/-- A chunk that was there arrives again. -/
theorem survives_of_safe_again :
    ∃ past final, Transition.Run (Step (.byLength .null)) { node := restarted } past final ∧
      past ≠ [] ∧ Transition.Throughout (Step (.byLength .null)) { node := restarted } past
        fun system => system.node.Survives := by
  let req : ChunkReq := { torrentName := [97], index := 0, rsp := { data := [65], size := 1 } }
  have begun : Transition.Run (Step (.byLength .null)) { node := restarted } [] _ := .nil
  have completed : restarted.completeRequest (.byLength .null) ⟨.insertion, fun _ => false⟩
      (.chunk req) = some (restarted.completeChunkReq (.byLength .null) req) := rfl
  have run := begun.snoc (.complete completed)
  refine ⟨_, _, run, List.cons_ne_nil _ _, ?_⟩
  refine survives_of_safe _ ⟨.insertion, fun _ => false⟩ { tables := Torrent.letterTables } _ rfl
    letterTables_consistent (fun record member => ?_) (fun record member => ?_)
  · rw [List.nil_append, List.mem_singleton] at member
    subst member
    exact fun _ => rfl
  · rw [List.nil_append, List.mem_singleton] at member
    subst member
    refine ⟨_, rfl, fun _ chunk held missing => ?_⟩
    cases held
    cases missing

/-- The first description a node gets refutes the restart: its torrent is in the tables,
under uid 0, and not in the map. -/
theorem survives_of_safe_fails :
    ¬ ∀ (env : Env) (server : Server) (fresh : Node) (final : System)
      (past : List (System × Label)), fresh.name2torrent = {} → fresh.tables.Consistent →
      Transition.Meets (fun _ label => label.Accepts) past →
      Transition.Run (Step env) { node := fresh.populateLocalTorrents server } past final →
      final.node.Survives := by
  intro always
  let env := Env.byLength (Torrent.letterLib 7 [(1, false)])
  let server : Server := ⟨.insertion, fun _ => false⟩
  let req : TorrentFileReq :=
    { torrentName := [97], serializedTorrent := Torrent.letterText 7 [(1, false)] }
  let start : Node := ({} : Node).populateLocalTorrents server
  obtain ⟨tor, res, created⟩ := Torrent.createTorrentFromSerializedObj_letter env
    (Torrent.dump_letterDocument _ (by decide))
  obtain ⟨after, completed, kept, rows, _⟩ := Torrent.completeTorrentFileReq_created server start
    Torrent.letterTorrent_wellFormed Torrent.letterTorrent_serialize rfl req rfl created
  have begun : Transition.Run (Step env) { node := start } [] _ := .nil
  have run := begun.snoc
    (.complete (show start.completeRequest env server (.file req) = some after from completed))
  have consistent : ({} : Database).Consistent :=
    ⟨⟨by decide, by decide, by decide, by decide⟩, by decide, by decide⟩
  have survives := always env server {} _ _ rfl consistent (fun record member => ?_) run
  · have missing : after.name2torrent[([97] : Bytes)]? = none := by
      rw [kept]
      rfl
    have empty : after.name2torrent.toList.map (·.2) = [] := by
      rw [kept]
      rfl
    have found := survives server [] (empty ▸ .refl _) [97]
    simp only [restart, List.foldl_nil] at found
    rw [missing, getElem?_populateLocalTorrents, rows] at found
    cases found
  · rw [List.nil_append, List.mem_singleton] at member
    subst member
    exact fun _ => rfl

end System

end Bp2p
