import Bp2p.Retry
import Bp2p.TorrentMap

/-! # Names of torrents

No step of a node takes a torrent away, unless the node reads its torrents again, and the
names of those that come are names a command has brought: a request is made for the torrent
of a command, and made anew for the same one (`Bp2p.System.Step.gains`,
`Bp2p.System.Step.names`).
-/

namespace Bp2p

/-- The name under which completing a request stores a torrent. -/
def Packet.storesUnder : Packet → Option Bytes
  | .list _ => none
  | .file req => some req.torrentName
  | .avail _ => none
  | .chunk req => some req.torrentName

/-- The name of the torrent that the main thread is about. -/
def Main.name? : Main → Option Bytes
  | .idle => none
  | .start name => some name
  | .nearby name _ => some name
  | .clear name => some name
  | .swap name _ => some name
  | .avail name => some name
  | .availFrom name _ => some name
  | .file name => some name
  | .chunk name => some name
  | .insert req => req.map (·.torrentName)

namespace Node

/-- No torrent goes, and those that come have names as stated. -/
structure Gains (named : Bytes → Prop) (node after : Node) : Prop where
  keeps : ∀ name ∈ node.name2torrent, name ∈ after.name2torrent
  comes : ∀ name ∈ after.name2torrent, name ∈ node.name2torrent ∨ named name

variable {named : Bytes → Prop} {node after : Node}

/-- Nothing is gained with the same map. -/
theorem Gains.of_eq (same : after.name2torrent = node.name2torrent) : node.Gains named after := by
  constructor
  · rw [same]
    exact fun _ member => member
  · rw [same]
    exact fun _ member => .inl member

theorem Gains.trans {first second third : Node} (left : first.Gains named second)
    (right : second.Gains named third) : first.Gains named third where
  keeps name member := right.keeps name (left.keeps name member)
  comes name member := (right.comes name member).elim (left.comes name) .inr

/-- Storing a torrent gains its name at most. -/
theorem Stores.gains {name : Bytes} {torrent : Torrent} (stores : node.Stores after name torrent)
    (holds : named name) : node.Gains named after := by
  constructor
  · intro other member
    rw [Std.TreeMap.mem_iff_isSome_getElem?] at member ⊢
    rw [stores other]
    split
    · rfl
    · exact member
  · intro other member
    rw [Std.TreeMap.mem_iff_isSome_getElem?, stores other] at member
    split at member
    · next same => exact .inr (same ▸ holds)
    · exact .inl (Std.TreeMap.mem_iff_isSome_getElem?.mpr member)

/-- Completing a request gains the name it stores under at most. -/
theorem completeRequest_gains {env : Env} {server : Server} {req : Packet}
    (holds : ∀ name, req.storesUnder = some name → named name)
    (completed : node.completeRequest env server req = some after) : node.Gains named after := by
  cases req with
  | list req =>
      cases completed
      exact .of_eq rfl
  | file req =>
      obtain ⟨tor, res, tables, _, ⟨_, rfl⟩ | ⟨_, jobj, serializedObj, ⟨_, rfl⟩ | ⟨_, rfl⟩⟩⟩ :=
        completeTorrentFileReq_spec completed
      · exact .of_eq rfl
      · have stores := setTorrent_stores { node with tables } req.torrentName
          { tor.loaded env server.order tables with jobj, serializedObj }
        exact Stores.gains (fun other => stores other) (holds _ rfl)
      · exact .of_eq rfl
  | avail req =>
      cases completed
      exact .of_eq (completeTorrentAvailReq_name2torrent node req)
  | chunk req =>
      cases completed
      exact (completeChunkReq_stores env node req).gains (holds _ rfl)

/-- Reading a response does not change the name. -/
theorem storesUnder_of_processResponse {req answered : Packet} {rsp : Message}
    (read : req.createRequest.processResponse rsp = .ok answered) :
    answered.storesUnder = req.storesUnder := by
  cases req with
  | list req =>
      cases read
      rfl
  | file req =>
      cases read
      rfl
  | avail req =>
      obtain ⟨_, rfl⟩ := processResponse_avail read
      rfl
  | chunk req =>
      cases read
      rfl

/-- What is carried out is stored under the name that was asked for. -/
theorem storesUnder_of_carryOutRequest {req answered : Packet} {transport : Option Message}
    (carried : carryOutRequest req transport = some answered) :
    answered.storesUnder = req.storesUnder := by
  cases transport with
  | none => cases carried
  | some rsp =>
      simp only [carryOutRequest] at carried
      split at carried
      · next read =>
          cases carried
          exact storesUnder_of_processResponse read
      · cases carried

/-- A synchronous request gains the name it stores under at most. -/
theorem syncRequest_gains {env : Env} {server : Server} {req : Packet}
    {transport : Option Message} {succeeded : Bool}
    (holds : ∀ name, req.storesUnder = some name → named name)
    (executed : node.syncRequest env server req transport = some (after, succeeded)) :
    node.Gains named after := by
  rcases syncRequest_spec executed with ⟨_, rfl⟩ | ⟨rsp, answered, _, read, completed⟩
  · exact .of_eq rfl
  · rw [← storesUnder_of_processResponse read] at holds
    exact completeRequest_gains holds completed

/-- A turn of the job manager gains the name of a job at most. -/
theorem jobManagerThread_gains {env : Env} {server : Server} {transport : Option Message}
    {draws : Draws} (holds : ∀ job ∈ node.jobs, ∀ name, job.storesUnder = some name → named name)
    (worked : node.jobManagerThread env server transport draws = some after) :
    node.Gains named after := by
  rcases jobManagerThread_keepsTorrents worked with
    ⟨_, kept⟩ | ⟨answered, completed, carried, done, kept⟩
  · exact .of_eq kept.name2torrent
  · obtain ⟨req, front, carried⟩ := Option.bind_eq_some_iff.mp carried
    have names := holds req (List.mem_of_mem_head? front)
    rw [← storesUnder_of_carryOutRequest carried] at names
    exact (completeRequest_gains names done).trans (.of_eq kept.name2torrent)

/-- The same request again is stored under the same name. -/
theorem storesUnder_of_sameRequest {req again : Packet} (same : SameRequest req again) :
    again.storesUnder = req.storesUnder := by
  cases req with
  | list | avail =>
      cases again with
      | list | avail => rfl
      | file | chunk => exact same.elim
  | file =>
      cases again with
      | file => exact congrArg some same
      | list | avail | chunk => exact same.elim
  | chunk =>
      cases again with
      | chunk => exact congrArg some same
      | list | file | avail => exact same.elim

/-- What the job manager queues is about the torrent of the front job. -/
theorem jobManagerThread_names {env : Env} {server : Server} {transport : Option Message}
    {draws : Draws} (running : node.jobManager = true)
    (holds : ∀ job ∈ node.jobs, ∀ name, job.storesUnder = some name → named name)
    (worked : node.jobManagerThread env server transport draws = some after) :
    ∀ job ∈ after.jobs, ∀ name, job.storesUnder = some name → named name := by
  cases front : node.jobs with
  | nil =>
      simp only [Node.jobManagerThread, front, Option.some.injEq] at worked
      rw [← worked]
      exact holds
  | cons req rest =>
      rw [front, List.forall_mem_cons] at holds
      obtain ⟨first, others⟩ := holds
      have more : ∀ again, again.storesUnder = req.storesUnder → ∀ job ∈ rest ++ [again],
          ∀ name, job.storesUnder = some name → named name := by
        intro again same job member
        rcases List.mem_append.mp member with earlier | last
        · exact others job earlier
        · rw [List.mem_singleton.mp last, same]
          exact first
      cases carried : carryOutRequest req transport with
      | none =>
          rcases jobManagerThread_failed running front carried worked with
            ⟨_, again, same, jobs⟩ | ⟨_, jobs⟩
          · rw [jobs]
            exact more again (storesUnder_of_sameRequest same)
          · rw [jobs]
            exact others
      | some answered =>
          obtain ⟨_, follows, jobs⟩ := jobManagerThread_carried running front carried worked
          rcases follows with rfl | ⟨chunk, next, rfl, same, rfl⟩
          · rw [jobs, List.append_nil]
            exact others
          · rw [jobs]
            exact more _ (congrArg some same)

/-- The request for a missing chunk is about the torrent that was asked for. -/
theorem createMissingChunkRequest_named {name : Bytes} {draws : Draws} {req : ChunkReq}
    (created : node.createMissingChunkRequest name draws = some (after, some req)) :
    req.torrentName = name := by
  simp only [createMissingChunkRequest, bind, Option.bind_eq_some_iff, Option.some.injEq,
    Prod.mk.injEq, Prod.exists] at created
  obtain ⟨_, _, _, _, drawn, _, rfl⟩ := created
  rcases requestFromAny_made drawn with ⟨_, _, _, made⟩ | ⟨_, none⟩
  · cases made
    rfl
  · cases none

/-- Creating a torrent gains its name at most. -/
theorem createTorrent_gains {env : Env} {server : Server} {name : Bytes} {filenames : List Bytes}
    {created : Bool} (holds : named name)
    (executed : node.createTorrent env server name filenames = some (after, created)) :
    node.Gains named after := by
  obtain ⟨t, files, tables, _, rfl⟩ := createTorrent_spec executed
  cases created with
  | false => exact .of_eq rfl
  | true =>
      rw [if_pos rfl]
      have stores := setTorrent_stores ({ node with files, tables } : Node) name t
      exact Stores.gains (fun other => stores other) holds

end Node

namespace System

open Node

variable {system after : System} {env : Env} {label : Label}

/-- The names of the torrents, of those that are queued and of the one the main thread is about. -/
structure Names (named : Bytes → Prop) (system : System) : Prop where
  torrents : ∀ name ∈ system.node.name2torrent, named name
  jobs : ∀ job ∈ system.node.jobs, ∀ name, job.storesUnder = some name → named name
  main : ∀ name, system.main.name? = some name → named name

/-- The names a command brings, from a node that does not read its torrents again. -/
def Brings (named : Bytes → Prop) : Label → Prop
  | .requestTorrentData name => named name
  | .createTorrent _ name _ => named name
  | .populateLocalTorrents _ => False
  | .complete _ req => ∀ name, req.storesUnder = some name → named name
  | _ => True

variable {named : Bytes → Prop}

/-- A statement is about the name of the call. -/
theorem statement_main {server : Server} {transport : Option Message} {draws : Draws}
    (executed : system.statement env server transport draws = some after) {name : Bytes}
    (about : after.main.name? = some name) : system.main.name? = some name := by
  obtain ⟨node, main⟩ := system
  cases main with
  | idle => cases executed
  | start =>
      simp only [statement] at executed
      split at executed
      · cases executed
        exact about
      · cases executed
        exact about
  | nearby _ devs =>
      cases devs with
      | nil =>
          cases executed
          exact about
      | cons dev devs =>
          simp only [statement, bind, Option.bind_eq_some_iff] at executed
          obtain ⟨req, _, executed⟩ := executed
          cases req with
          | none =>
              cases executed
              exact about
          | some req =>
              simp only [Option.bind_eq_some_iff, Option.some.injEq] at executed
              obtain ⟨_, _, rfl⟩ := executed
              exact about
  | clear =>
      cases executed
      exact about
  | swap =>
      simp only [statement] at executed
      split at executed
      · cases executed
        exact about
      · cases executed
        exact about
  | avail =>
      simp only [statement] at executed
      split at executed
      · cases executed
        cases about
      · cases executed
        exact about
  | availFrom _ devs =>
      cases devs with
      | nil =>
          cases executed
          exact about
      | cons dev devs =>
          simp only [statement, bind, Option.bind_eq_some_iff] at executed
          obtain ⟨req, _, executed⟩ := executed
          cases req with
          | none =>
              cases executed
              cases about
          | some req =>
              simp only [Option.bind_eq_some_iff, Option.some.injEq] at executed
              obtain ⟨⟨_, succeeded⟩, _, rfl⟩ := executed
              cases succeeded with
              | true => exact about
              | false => cases about
  | file =>
      simp only [statement] at executed
      split at executed
      · cases executed
        exact about
      · simp only [bind, Option.bind_eq_some_iff] at executed
        obtain ⟨req, _, executed⟩ := executed
        cases req with
        | none =>
            cases executed
            cases about
        | some req =>
            simp only [Option.bind_eq_some_iff, Option.some.injEq] at executed
            obtain ⟨⟨_, succeeded⟩, _, rfl⟩ := executed
            cases succeeded with
            | true => exact about
            | false => cases about
  | chunk asked =>
      simp only [statement, bind, Option.bind_eq_some_iff, Option.some.injEq,
        Prod.exists] at executed
      obtain ⟨left, req, created, rfl⟩ := executed
      cases req with
      | none => cases about
      | some req =>
          cases about
          exact congrArg some (createMissingChunkRequest_named created).symm
  | insert =>
      cases executed
      cases about

/-- A step gains names that were brought at most. -/
theorem Step.gains (step : Step env system label after) (names : system.Names named)
    (brings : Brings named label) : system.node.Gains named after.node := by
  cases step with
  | jobManager _ worked => exact jobManagerThread_gains names.jobs worked
  | statement executed =>
      have effect := (statement_spec executed).1
      generalize after.node = left at effect ⊢
      cases effect with
      | rebuild torName2dev => exact .of_eq rfl
      | list synchronized | avail synchronized =>
          refine syncRequest_gains (fun name under => ?_) synchronized
          cases under
      | file asked _ _ synchronized =>
          refine syncRequest_gains (fun name under => ?_) synchronized
          cases under
          exact names.main _ (by rw [asked, Main.name?])
      | read destroys => exact .of_eq destroys.keepsTorrents.name2torrent
      | insert req asked => exact .of_eq (insertCreated_keepsTorrents ..).name2torrent
  | requestTorrentData => exact .of_eq rfl
  | createTorrent _ executed => exact createTorrent_gains brings executed
  | populateLocalTorrents => exact brings.elim
  | complete completed => exact completeRequest_gains brings completed
  | serve answered =>
      obtain ⟨tables, rfl⟩ := processRequest_onlyTables answered
      exact .of_eq rfl
  | edit files => exact .of_eq rfl

/-- A step leaves names that were brought. -/
theorem Step.names (step : Step env system label after) (names : system.Names named)
    (brings : Brings named label) : after.Names named := by
  have gains := step.gains names brings
  refine ⟨fun name member => (gains.comes name member).elim (names.torrents name) id, ?_, ?_⟩
  · cases label with
    | jobManager =>
        cases step with
        | jobManager running worked => exact jobManagerThread_names running names.jobs worked
    | statement | requestTorrentData | createTorrent | populateLocalTorrents | complete | serve |
      edit =>
        rcases step.queue_cases fun _ _ _ => Label.noConfusion with kept | ⟨req, holds, inserted⟩
        · rw [kept]
          exact names.jobs
        · obtain ⟨more, appended, members⟩ := insertCreated_jobs system.node Packet.chunk req
          rw [inserted, appended]
          intro job member name under
          rcases List.mem_append.mp member with earlier | last
          · exact names.jobs job earlier name under
          · obtain ⟨drawn, rfl, rfl⟩ := members job last
            exact names.main name (by rw [holds]; exact under)
  · intro name about
    cases step with
    | statement executed => exact names.main name (statement_main executed about)
    | requestTorrentData asked =>
        cases about
        exact brings
    | jobManager | createTorrent | populateLocalTorrents | complete | serve | edit =>
        exact names.main name about

end System

end Bp2p
