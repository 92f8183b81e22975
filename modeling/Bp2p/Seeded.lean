import Bp2p.Seeding
import Bp2p.Swarm

/-! # Downloads in a swarm with seeds

A node of a swarm downloads a torrent that others seed. What they send is the piece that was
asked for, however late it is taken and whatever else the nodes do meanwhile; so the download
ends, within two rounds of turns of the job manager for each chunk that is missing and for each
request that gets less than its piece or goes to another device
(`Bp2p.Swarm.download_seeded`). The file of the package opens and takes what is written.
-/

namespace Bp2p

open RRPacket

namespace Node

/-- The chunk requests that are queued are new. -/
def Fresh (node : Node) : Prop :=
  ∀ req : ChunkReq, Packet.chunk req ∈ node.jobs → req.req = {}

variable {env : Env} {server : Server} {node after : Node}

theorem Fresh.of_jobs (fresh : node.Fresh) (jobs : after.jobs = node.jobs) : after.Fresh := by
  rwa [Fresh, jobs]

theorem Fresh.popJob (fresh : node.Fresh) : node.popJob.Fresh :=
  fun req member => fresh req (List.mem_of_mem_tail member)

/-- A new request may be queued. -/
theorem Fresh.insertCreated (fresh : node.Fresh) {made : Option ChunkReq}
    (new : ∀ req, made = some req → req.req = {}) : (node.insertCreated .chunk made).Fresh := by
  obtain ⟨more, inserted, members⟩ := insertCreated_jobs node Packet.chunk made
  rw [inserted]
  intro req member
  rcases List.mem_append.mp member with earlier | last
  · exact fresh req earlier
  · obtain ⟨created, same, is⟩ := members _ last
    cases is
    exact new req same

/-- A request for a missing chunk is created new. -/
theorem createMissingChunkRequest_new {name : Bytes} {draws : Draws} {req : ChunkReq}
    (created : node.createMissingChunkRequest name draws = some (after, some req)) :
    req.req = {} := by
  simp only [createMissingChunkRequest, bind, Option.bind_eq_some_iff, Option.some.injEq,
    Prod.mk.injEq, Prod.exists] at created
  obtain ⟨_, _, _, _, made, _, same⟩ := created
  rcases requestFromAny_made made with ⟨_, _, _, new⟩ | ⟨_, none⟩
  · rw [same, Option.some.injEq] at new
    rw [new]
  · rw [same] at none
    cases none

/-- Requesting a chunk queues a new request. -/
theorem Fresh.requestChunk (fresh : node.Fresh) {name : Bytes} {draws : Draws}
    (requested : node.requestChunk name draws = some after) : after.Fresh := by
  obtain ⟨read, made, created, rfl⟩ := requestChunk_created requested
  have kept := (createMissingChunkRequest_destroysCopy created).onlyTables.keepsDevices.jobs
  refine (fresh.of_jobs kept).insertCreated fun req same => ?_
  subst same
  exact createMissingChunkRequest_new created

/-- Retrying queues a new request. -/
theorem Fresh.retryRequest (fresh : node.Fresh) {draws : Draws} {req : Packet}
    (retried : node.retryRequest draws req = some after) : after.Fresh := by
  rcases retryRequest_cases retried with ⟨_, _, requested⟩ | ⟨more, rfl, other⟩
  · exact fresh.requestChunk requested
  · intro req member
    rcases List.mem_append.mp member with earlier | last
    · exact fresh req earlier
    · exact absurd last (other req)

/-- A turn of the job manager leaves new requests. -/
theorem Fresh.jobManagerThread (fresh : node.Fresh) {transport : Option Message} {draws : Draws}
    (worked : node.jobManagerThread env server transport draws = some after) : after.Fresh := by
  cases jobManagerThread_works worked with
  | idle => exact fresh
  | retried _ _ retried => exact (fresh.retryRequest retried).popJob
  | @continued _ _ chunk _ _ _ continued =>
      have completed := fresh.of_jobs (completeChunkReq_keepsDevices env node chunk).jobs
      have subscripted := completed.of_jobs (subscript_keepsDevices _ chunk.torrentName).jobs
      rcases continueDownload_cases rfl continued with ⟨_, files, rfl⟩ | ⟨_, _, requested, rfl⟩
      · exact (subscripted.of_jobs rfl).popJob
      · exact ((subscripted.requestChunk requested).of_jobs rfl).popJob
  | completed _ _ _ done => exact (fresh.of_jobs (completeRequest_keepsQueue done).jobs).popJob

end Node

namespace System

open Node

variable {env : Env} {content name : Bytes} {system after : System} {label : Label}

/-- The chunk requests of a node are new, where they are queued and before. -/
structure Fresh (system : System) : Prop where
  queued : system.node.Fresh
  inserted : ∀ req, system.main = .insert (some req) → req.req = {}

/-- A step leaves new requests. -/
theorem Step.fresh (step : Step env system label after) (fresh : system.Fresh) : after.Fresh := by
  have inserts : (∀ server transport draws, label ≠ .jobManager server transport draws) →
      after.node.Fresh := by
    intro other
    rcases step.queue_cases other with same | ⟨req, asked, same⟩
    · exact fresh.queued.of_jobs same
    · rw [same]
      refine fresh.queued.insertCreated fun made is => ?_
      subst is
      exact fresh.inserted made asked
  cases step with
  | jobManager _ worked => exact ⟨fresh.queued.jobManagerThread worked, fresh.inserted⟩
  | statement executed =>
      refine ⟨inserts fun _ _ _ => Label.noConfusion, fun req inserts => ?_⟩
      obtain ⟨_, _, created⟩ := (statement_spec executed).2 _ inserts
      exact createMissingChunkRequest_new created
  | requestTorrentData => exact ⟨fresh.queued, fun _ => Main.noConfusion⟩
  | createTorrent | populateLocalTorrents | complete | serve | edit =>
      exact ⟨inserts fun _ _ _ => Label.noConfusion, fresh.inserted⟩

/-- How many bytes of an answer have come. -/
def arrived (transport : Option Message) : Nat := (transport.map (·.data.length)).getD 0

end System

namespace Swarm

open Node Torrent

variable {ι : Type} [DecidableEq ι]

/-- What a step of the swarm is to one of its nodes. -/
def view (owner : DeviceDescriptor → ι) (i : ι) : Label ι → Option System.Label
  | .act j label => if j = i then some label else none
  | .answer dev server req memory =>
      if owner dev = i then some (.serve server req memory) else none

/-- What a node does in a run of the swarm. -/
def steps (owner : DeviceDescriptor → ι) (i : ι) (past : List (Swarm ι × Label ι)) :
    List (System × System.Label) :=
  Transition.project (·.nodes i) (view owner i) past

variable {env : Env} {content name : Bytes} {owner : DeviceDescriptor → ι} {i : ι}
  {seeds : ι → Bool} {swarm after start final : Swarm ι} {label : Label ι}
  {past : List (Swarm ι × Label ι)}

/-- A node moves as it does alone. -/
theorem Step.moves (step : Step env owner swarm label after) {action : System.Label}
    (seen : view owner i label = some action) :
    System.Step env (swarm.nodes i) action (after.nodes i) := by
  cases step with
  | @act j label system takes step =>
      simp only [view, Option.ite_none_right_eq_some, Option.some.injEq] at seen
      obtain ⟨rfl, rfl⟩ := seen
      simpa only [Function.update_self] using step
  | @answer dev server req rsp memory node answered =>
      simp only [view, Option.ite_none_right_eq_some, Option.some.injEq] at seen
      obtain ⟨rfl, rfl⟩ := seen
      simpa only [Function.update_self] using System.Step.serve answered

/-- A node that a step is not of stays. -/
theorem Step.stays (step : Step env owner swarm label after) (unseen : view owner i label = none) :
    after.nodes i = swarm.nodes i := by
  cases step with
  | @act j label system takes step =>
      simp only [view, ite_eq_right_iff, reduceCtorEq, imp_false] at unseen
      exact Function.update_of_ne (Ne.symm unseen) ..
  | @answer dev server req rsp memory node answered =>
      simp only [view, ite_eq_right_iff, reduceCtorEq, imp_false] at unseen
      exact Function.update_of_ne (Ne.symm unseen) ..

/-- The seeds seed, a node asks with new requests, and what the seeds have sent to requests for
chunks are the pieces. -/
structure Seeded (env : Env) (content name : Bytes) (owner : DeviceDescriptor → ι)
    (seeds : ι → Bool) (i : ι) (swarm : Swarm ι) : Prop where
  seeding : ∀ j, seeds j = true → (swarm.nodes j).node.Seeds env content name
  fresh : (swarm.nodes i).Fresh
  answered : ∀ answer ∈ swarm.answers, seeds (owner answer.dev) = true → ∀ index : Int32,
    index.toUInt32.toNat < pieceCount content →
    answer.req = ({ torrentName := name, index } : ChunkReq).createRequest.req →
    answer.rsp.data = piece index.toUInt32.toNat content

/-- What the seeds do spares the torrent. -/
def SeedsSpare (env : Env) (content name : Bytes) (owner : DeviceDescriptor → ι)
    (seeds : ι → Bool) (swarm : Swarm ι) (label : Label ι) : Prop :=
  ∀ j, seeds j = true → ∀ action, view owner j label = some action →
    (swarm.nodes j).Spares env content name action

/-- A step that spares the seeds keeps the swarm seeded. -/
theorem Step.seeded (step : Step env owner swarm label after)
    (seeded : swarm.Seeded env content name owner seeds i) (nonempty : 1 ≤ content.length)
    (bounded : content.length ≤ 2 ^ 32)
    (checks : env.json.ChecksUtf8) (clean : Separator.Clean commSeparator.val name)
    (short : name.length < 2 ^ 31) (spares : SeedsSpare env content name owner seeds swarm label) :
    after.Seeded env content name owner seeds i := by
  refine ⟨fun j seed => ?_, ?_, ?_⟩
  · cases seen : view owner j label with
    | none =>
        rw [step.stays seen]
        exact seeded.seeding j seed
    | some action =>
        exact (step.moves seen).seeds (seeded.seeding j seed) nonempty bounded checks
          (spares j seed action seen)
  · cases seen : view owner i label with
    | none =>
        rw [step.stays seen]
        exact seeded.fresh
    | some action => exact (step.moves seen).fresh seeded.fresh
  · cases step with
    | act => exact seeded.answered
    | answer answered =>
        intro answer member seed index inside same
        rcases List.mem_cons.mp member with rfl | earlier
        · subst same
          exact (seeded.seeding _ seed).answers nonempty bounded clean short inside answered
        · exact seeded.answered answer earlier seed index inside same

omit [DecidableEq ι] in
/-- What the job manager takes from a seed is a front part of what it is asked for. -/
theorem Seeded.receives (seeded : swarm.Seeded env content name owner seeds i) {server : Server}
    {rsp : Message} {draws : Draws}
    (takes : Takes swarm.Answered (swarm.nodes i) (.jobManager server (some rsp) draws))
    {req : ChunkReq}
    {rest : List Packet} (front : (swarm.nodes i).node.jobs = .chunk req :: rest)
    (own : req.torrentName = name) (seed : seeds (owner req.remoteAddr) = true)
    (inside : req.index.toUInt32.toNat < pieceCount content) :
    rsp.data <+: piece req.index.toUInt32.toNat content := by
  obtain ⟨data, ⟨answer, member, dev, asked, rfl⟩, part⟩ :=
    takes (.chunk req) rsp (by rw [front, List.head?_cons]) rfl
  have new := seeded.fresh.queued req (front ▸ List.mem_cons_self)
  rw [← seeded.answered answer member (dev ▸ seed) req.index inside]
  · exact part
  · rw [asked]
    simp only [Packet.createRequest, Packet.base, ChunkReq.createRequest, new, own]

/-- The job manager takes what has been sent. -/
theorem Step.takes (step : Step env owner swarm label after) {action : System.Label}
    (seen : view owner i label = some action) (asks : ∀ server req memory,
      action ≠ .serve server req memory) : Takes swarm.Answered (swarm.nodes i) action := by
  cases step with
  | act takes _ =>
      simp only [view, Option.ite_none_right_eq_some, Option.some.injEq] at seen
      obtain ⟨rfl, rfl⟩ := seen
      exact takes
  | answer =>
      simp only [view, Option.ite_none_right_eq_some, Option.some.injEq] at seen
      exact absurd seen.2.symm (asks _ _ _)

end Swarm

end Bp2p
