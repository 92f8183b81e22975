import Bp2p.NodeFrame
import Bp2p.Serialized

/-! # Downloads in progress

A download is a chain: the job manager requests the next chunk of a torrent when it is
done with the request before, whether that was answered or not. It picks a device
from `torName2dev`, which the main thread clears and fills again under its hands, and
queues nothing if the torrent has no entry there or the device is out of reach. The
download goes on along a run exactly when this does not happen to its last request
(`Bp2p.System.queued_iff_continues`).
-/

namespace Bp2p

namespace Node

/-- A request for a chunk of the torrent is queued. -/
def Queued (name : Bytes) (jobs : List Packet) : Prop :=
  ∃ req : ChunkReq, .chunk req ∈ jobs ∧ req.torrentName = name

/-- The node has the torrent, with a chunk missing. -/
def Incomplete (node : Node) (name : Bytes) : Prop :=
  ∃ torrent, node.name2torrent[name]? = some torrent ∧ torrent.isComplete = false

/-- The answer is accepted and is the last chunk missing. -/
def BringsLast (env : Env) (node : Node) (req : ChunkReq) (transport : Option Message) : Prop :=
  ∃ torrent rsp, node.name2torrent[req.torrentName]? = some torrent ∧ transport = some rsp ∧
    torrent.validateChunk env rsp.data req.index.toUInt32 = true ∧
    (torrent.markExisting req.index.toUInt32).isComplete = true

theorem Queued.append {name : Bytes} {jobs : List Packet} (queued : Queued name jobs)
    (more : List Packet) : Queued name (jobs ++ more) := by
  obtain ⟨req, member, named⟩ := queued
  exact ⟨req, List.mem_append_left _ member, named⟩

/-- What is queued stays so when another job is taken off. -/
theorem Queued.tail {name : Bytes} {front : Packet} {rest : List Packet}
    (queued : Queued name (front :: rest))
    (different : ∀ req : ChunkReq, front = .chunk req → req.torrentName ≠ name) :
    Queued name rest := by
  obtain ⟨req, member, named⟩ := queued
  rcases List.mem_cons.mp member with rfl | behind
  · exact absurd named (different req rfl)
  · exact ⟨req, behind, named⟩

/-- A device offers the torrent and is in reach. -/
def Offered (node : Node) (name : Bytes) : Prop :=
  ∃ dev names, node.dev2tor[dev]? = some names ∧ name ∈ names ∧
    node.remote2local.contains dev = true

theorem insertJob_of_running (node : Node) (running : node.jobManager = true) (job : Packet) :
    node.insertJob job = { node with jobs := node.jobs ++ [job] } :=
  if_pos running

/-- The jobs are those before and, if the device drawn is in reach, a request for
another chunk. -/
def Requests (node : Node) (name : Bytes) (draws : Draws) (before jobs : List Packet) : Prop :=
  (node.InReach name draws ∧ ∃ next : ChunkReq, next.torrentName = name ∧
    jobs = before ++ [.chunk next]) ∨ (¬ node.InReach name draws ∧ jobs = before)

/-- Requests behind the front job are those of the rest. -/
theorem Requests.tail {node : Node} {name : Bytes} {draws : Draws} {front : Packet}
    {rest jobs : List Packet} (requests : node.Requests name draws (front :: rest) jobs) :
    node.Requests name draws rest jobs.tail := by
  rcases requests with ⟨reached, next, named, rfl⟩ | ⟨unreached, rfl⟩
  · exact .inl ⟨reached, next, named, rfl⟩
  · exact .inr ⟨unreached, rfl⟩

/-- A request is queued if one was, or if a device is in reach to be asked. -/
theorem Requests.queued {node : Node} {name : Bytes} {draws : Draws} {before jobs : List Packet}
    (requests : node.Requests name draws before jobs)
    (continues : Queued name before ∨ node.InReach name draws) : Queued name jobs := by
  rcases requests with ⟨_, next, named, rfl⟩ | ⟨unreached, rfl⟩
  · exact ⟨next, List.mem_append_right _ (List.mem_singleton_self _), named⟩
  · exact continues.resolve_right unreached

/-- `requestChunk` keeps the torrents and queues a job if the device drawn is in reach. -/
theorem requestChunk_spec {node after : Node} {name : Bytes} {draws : Draws}
    (running : node.jobManager = true) (requested : node.requestChunk name draws = some after) :
    after.name2torrent = node.name2torrent ∧ node.Requests name draws node.jobs after.jobs := by
  simp only [requestChunk, createMissingChunkRequest, bind, Option.bind_eq_some_iff,
    Option.some.injEq, Prod.mk.injEq, Prod.exists] at requested
  obtain ⟨read, req, ⟨middle, index, missing, made, created, rfl, rfl⟩, rfl⟩ := requested
  obtain ⟨tables, rfl⟩ := (getMissingChunkIndex_destroysCopy missing).onlyTables
  rcases requestFromAny_made created with ⟨reached, remoteAddr, localAddr, rfl⟩ | ⟨unreached, rfl⟩
  · have inserted := insertJob_of_running { node with tables } running
      (.chunk { remoteAddr, localAddr, torrentName := name, index })
    simp only [insertCreated, inserted]
    exact ⟨trivial, .inl ⟨reached, _, rfl, rfl⟩⟩
  · exact ⟨rfl, .inr ⟨unreached, rfl⟩⟩

/-- Requesting a chunk appends to the queue at most. -/
theorem requestChunk_jobs {node after : Node} {name : Bytes} {draws : Draws}
    (requested : node.requestChunk name draws = some after) :
    ∃ more, after.jobs = node.jobs ++ more := by
  obtain ⟨read, made, executed, rfl⟩ := requestChunk_created requested
  have kept := (createMissingChunkRequest_destroysCopy executed).onlyTables.keepsQueue.jobs
  obtain ⟨more, inserted, _⟩ := insertCreated_jobs read Packet.chunk made
  exact ⟨more, by rw [inserted, kept]⟩

/-- Every request a retry makes goes behind the jobs there are. -/
theorem retryRequest_jobs {node after : Node} {draws : Draws} {req : Packet}
    (retried : node.retryRequest draws req = some after) :
    ∃ more, after.jobs = node.jobs ++ more := by
  rcases retryRequest_cases retried with ⟨chunk, _, requested⟩ | ⟨more, rfl, _⟩
  · exact requestChunk_jobs requested
  · exact ⟨more, rfl⟩

/-- An answer brings the last chunk exactly if it is valid and completes the torrent. -/
theorem bringsLast_iff {env : Env} {node : Node} {req : ChunkReq} {rsp : Message}
    {torrent : Torrent} (found : node.name2torrent[req.torrentName]? = some torrent) :
    node.BringsLast env req (some rsp) ↔
      torrent.validateChunk env rsp.data req.index.toUInt32 = true ∧
        (torrent.markExisting req.index.toUInt32).isComplete = true := by
  constructor
  · rintro ⟨other, message, same, sent, accepted, complete⟩
    rw [found, Option.some.injEq] at same
    rw [Option.some.injEq] at sent
    rw [same, sent]
    exact ⟨accepted, complete⟩
  · rintro ⟨accepted, complete⟩
    exact ⟨torrent, rsp, found, rfl, accepted, complete⟩

/-- An answered chunk completes a torrent in progress if it is accepted and the last
one missing. -/
theorem isComplete_withChunk {env : Env} {torrent : Torrent} (chunk : Bytes) (index : UInt32)
    (missing : torrent.isComplete = false) :
    (torrent.withChunk env chunk index).isComplete = true ↔
      torrent.validateChunk env chunk index = true ∧
        (torrent.markExisting index).isComplete = true := by
  unfold Torrent.withChunk
  split
  · next accepted => simp only [accepted, true_and]
  · next refused => simp only [refused, missing, Bool.false_eq_true, false_and]

/-- Going on with a download appends to the queue at most. -/
theorem continueDownload_jobs {env : Env} {node after : Node} {name : Bytes} {draws : Draws}
    (continued : node.continueDownload env name draws = some after) :
    ∃ more, after.jobs = node.jobs ++ more := by
  have kept := (subscript_keepsDevices node name).jobs
  rcases continueDownload_cases (Prod.eta (node.subscript name)).symm continued with
    ⟨_, _, rfl⟩ | ⟨_, requested, executed, rfl⟩
  · exact ⟨[], by rw [List.append_nil, ← kept]; rfl⟩
  · obtain ⟨more, queued⟩ := requestChunk_jobs executed
    exact ⟨more, by rw [← kept, ← queued]; rfl⟩

/-- The job manager takes the front job off and puts others behind the rest. -/
theorem jobManagerThread_jobs {env : Env} {server : Server} {node after : Node}
    {transport : Option Message} {draws : Draws}
    (worked : node.jobManagerThread env server transport draws = some after) :
    ∃ more, after.jobs = node.jobs.tail ++ more := by
  have popped : ∀ {middle : Node} {more : List Packet}, node.jobs ≠ [] →
      middle.jobs = node.jobs ++ more → middle.popJob.jobs = node.jobs.tail ++ more :=
    fun filled same => by rw [popJob, same, List.tail_append_of_ne_nil filled]
  cases jobManagerThread_works worked with
  | idle empty => exact ⟨[], by rw [empty, List.tail_nil, List.append_nil]⟩
  | retried front _ retried =>
      obtain ⟨more, queued⟩ := retryRequest_jobs retried
      exact ⟨more, popped (front ▸ List.cons_ne_nil _ _) queued⟩
  | @continued _ _ chunk _ front _ continued =>
      have kept := (completeChunkReq_keepsDevices env node chunk).jobs
      obtain ⟨more, queued⟩ := continueDownload_jobs continued
      exact ⟨more, popped (front ▸ List.cons_ne_nil _ _) (by rw [queued, kept])⟩
  | completed front _ _ done =>
      have kept := (completeRequest_keepsQueue done).jobs
      exact ⟨[], popped (front ▸ List.cons_ne_nil _ _) (by rw [kept, List.append_nil])⟩

/-- What the job manager makes of a chunk request of a torrent in progress: the torrent
is complete with the answer, or it is not, and another chunk is requested. -/
theorem jobManagerThread_chunk {env : Env} {server : Server} {node after : Node}
    {transport : Option Message} {draws : Draws} {req : ChunkReq} {rest : List Packet}
    (running : node.jobManager = true) (front : node.jobs = .chunk req :: rest)
    (incomplete : node.Incomplete req.torrentName)
    (worked : node.jobManagerThread env server transport draws = some after) :
    (node.BringsLast env req transport ∧ ¬ after.Incomplete req.torrentName) ∨
      (¬ node.BringsLast env req transport ∧ after.Incomplete req.torrentName ∧
        node.Requests req.torrentName draws rest after.jobs) := by
  obtain ⟨torrent, found, missing⟩ := incomplete
  unfold jobManagerThread at worked
  simp only [front] at worked
  cases transport with
  | none =>
      simp only [carryOutRequest, Option.map_eq_some_iff] at worked
      obtain ⟨middle, retried, rfl⟩ := worked
      obtain ⟨same, queued⟩ := requestChunk_spec running retried
      rw [front] at queued
      refine .inr ⟨?_, ⟨torrent, ?_, missing⟩, queued.tail⟩
      · rintro ⟨_, _, _, answered, _⟩
        cases answered
      · rw [popJob, same]
        exact found
  | some rsp =>
      let answered := req.createRequest.processResponse rsp
      have completed : carryOutRequest (.chunk req) (some rsp) = some (.chunk answered) := rfl
      simp only [completed, completeRequest, bind, Option.bind_some,
        Option.map_eq_some_iff] at worked
      obtain ⟨middle, continued, rfl⟩ := worked
      have named : answered.torrentName = req.torrentName := rfl
      have stores := completeChunkReq_stores env node answered req.torrentName
      rw [if_pos named, named, subscript_found found] at stores
      generalize put : torrent.withChunk env answered.chunk answered.index.toUInt32 = stored
        at stores
      have keeps := (completeChunkReq_keepsDevices env node answered).toKeepsQueue
      have brings : node.BringsLast env req (some rsp) ↔ stored.isComplete = true := by
        rw [bringsLast_iff found, ← put, isComplete_withChunk _ _ missing]
        rfl
      rcases continueDownload_cases (subscript_found stores) continued with
        ⟨complete, _, rfl⟩ | ⟨unfinished, requested, executed, rfl⟩
      · refine .inl ⟨brings.mpr complete, ?_⟩
        rintro ⟨other, same, unfinished⟩
        have equal : some stored = some other := stores.symm.trans same
        rw [Option.some.injEq] at equal
        rw [← equal, complete] at unfinished
        cases unfinished
      · obtain ⟨same, queued⟩ := requestChunk_spec (keeps.jobManager.trans running) executed
        rw [keeps.jobs, front] at queued
        refine .inr ⟨fun last => ?_, ⟨stored, ?_, unfinished⟩, ?_⟩
        · rw [brings.mp last] at unfinished
          cases unfinished
        · exact (congrArg (·[req.torrentName]?) same).trans stores
        · have next := queued.tail
          simp only [Requests, keeps.inReach_iff] at next
          exact next

end Node

namespace System

open Node

/-- The step does not end the download of a torrent: where the job manager comes to a
chunk request of it, another one is queued behind, or the device drawn is in reach, or
the answer completes the torrent. -/
def Continues (env : Env) (name : Bytes) (system : System) : Label → Prop
  | .jobManager _ transport draws => ∀ (req : ChunkReq) (rest : List Packet),
      system.node.jobs = .chunk req :: rest → req.torrentName = name →
        Queued name rest ∨ system.node.InReach name draws ∨
          system.node.BringsLast env req transport
  | _ => True

/-- Every step but the job manager's leaves the queue or puts jobs behind it. -/
theorem Step.jobs {env : Env} {system after : System} {label : Label}
    (step : Step env system label after)
    (other : ∀ server transport draws, label ≠ .jobManager server transport draws) :
    ∃ more, after.node.jobs = system.node.jobs ++ more := by
  rcases step.queue_cases other with kept | ⟨req, _, inserted⟩
  · exact ⟨[], by rw [kept, List.append_nil]⟩
  · obtain ⟨more, appended, _⟩ := insertCreated_jobs system.node Packet.chunk req
    exact ⟨more, by rw [inserted, appended]⟩

/-- A step that continues the download of a torrent in progress leaves a request for a
chunk of it in the queue. -/
theorem Step.queued {env : Env} {name : Bytes} {system after : System} {label : Label}
    (step : Step env system label after) (incomplete : system.node.Incomplete name)
    (queued : Queued name system.node.jobs) (continues : Continues env name system label)
    (unfinished : after.node.Incomplete name) : Queued name after.node.jobs := by
  cases label with
  | jobManager server transport draws =>
      cases step with
      | jobManager running worked =>
          obtain ⟨more, jobs⟩ := jobManagerThread_jobs worked
          cases front : system.node.jobs with
          | nil =>
              rw [front] at queued
              obtain ⟨req, member, _⟩ := queued
              cases member
          | cons job rest =>
              rw [front] at queued jobs
              by_cases same : ∃ req : ChunkReq, job = .chunk req ∧ req.torrentName = name
              · obtain ⟨req, rfl, rfl⟩ := same
                rcases jobManagerThread_chunk running front incomplete worked with
                  ⟨_, finished⟩ | ⟨notLast, _, requests⟩
                · exact absurd unfinished finished
                · rcases continues req rest front rfl with behind | reached | last
                  · exact requests.queued (.inl behind)
                  · exact requests.queued (.inr reached)
                  · exact absurd last notLast
              · have behind := queued.tail fun req chunk named => same ⟨req, chunk, named⟩
                simp only [jobs]
                exact behind.append more
  | statement | requestTorrentData | createTorrent | populateLocalTorrents | complete | serve |
    edit =>
      obtain ⟨more, jobs⟩ := step.jobs fun _ _ _ => Label.noConfusion
      rw [jobs]
      exact queued.append more

/-- A step that does not continue the download of a torrent in progress leaves no
request for a chunk of it in the queue, and the torrent incomplete. -/
theorem Step.ended {env : Env} {name : Bytes} {system after : System} {label : Label}
    (step : Step env system label after) (incomplete : system.node.Incomplete name)
    (ends : ¬ Continues env name system label) :
    after.node.Incomplete name ∧ ¬ Queued name after.node.jobs := by
  cases label with
  | jobManager server transport draws =>
      simp only [Continues, not_forall, not_or] at ends
      obtain ⟨req, rest, front, rfl, none, unreached, notLast⟩ := ends
      cases step with
      | jobManager running worked =>
          rcases jobManagerThread_chunk running front incomplete worked with
            ⟨last, _⟩ | ⟨_, unfinished, ⟨reached, _⟩ | ⟨_, jobs⟩⟩
          · exact absurd last notLast
          · exact absurd reached unreached
          · refine ⟨unfinished, ?_⟩
            simp only [jobs]
            exact none
  | statement | requestTorrentData | createTorrent | populateLocalTorrents | complete | serve |
    edit =>
      exact absurd trivial ends

/-- A node that downloads the torrent of one byte. -/
def downloading : System where
  node := { inReachOfPeer with
    name2torrent := .ofList [([97], Torrent.letterTorrent 7 1 false)] compare
    jobs := [.chunk { torrentName := [97], index := 0 }] }

/-- **Downloads in progress.** Along a run in which a torrent is in progress and has a
chunk request queued, one stays queued as long as the torrent is incomplete, exactly
when every step continues the download. -/
theorem queued_iff_continues (env : Env) (name : Bytes) (start final : System)
    (past : List (System × Label)) (run : Transition.Run (Step env) start past final)
    (queued : Queued name start.node.jobs)
    (incomplete : ∀ record ∈ past, record.1.node.Incomplete name) :
    Transition.Throughout (Step env) start past (fun system =>
        system.node.Incomplete name → Queued name system.node.jobs) ↔
      Transition.Meets (Continues env name) past := by
  constructor
  · intro lives record member
    obtain ⟨source, label⟩ := record
    by_contra ends
    obtain ⟨before, target, front, _, taken, reached⟩ := run.split_at member
    obtain ⟨unfinished, none⟩ := taken.ended (incomplete _ member) ends
    exact none (lives _ target front reached unfinished)
  · intro continues
    have meets : Transition.Meets (fun system label =>
        system.node.Incomplete name ∧ Continues env name system label) past :=
      fun record member => ⟨incomplete record member, continues record member⟩
    refine Transition.Throughout.of_invariant
      (fun system => system.node.Incomplete name → Queued name system.node.jobs) ?_
      (fun system lives => lives) (fun _ => queued) meets
    rintro source label target lives ⟨unfinished, next⟩ step
    exact step.queued unfinished (lives unfinished) next

/-- The job manager fails to get the chunk and requests it again. -/
theorem queued_iff_continues_retry :
    ∃ past final, Transition.Run (Step (.byLength .null)) downloading past final ∧ past ≠ [] ∧
      Transition.Throughout (Step (.byLength .null)) downloading past fun system =>
        system.node.Incomplete [97] → Queued [97] system.node.jobs := by
  have begun : Transition.Run (Step (.byLength .null)) downloading [] downloading := .nil
  obtain ⟨after, worked⟩ : ∃ after, downloading.node.jobManagerThread (.byLength .null)
      ⟨.insertion, fun _ => false⟩ none { missing := [0] } = some after := ⟨_, rfl⟩
  have run := begun.snoc (.jobManager rfl worked)
  refine ⟨_, _, run, List.cons_ne_nil _ _, (queued_iff_continues _ [97] downloading _ _ run
    ⟨_, List.mem_singleton_self _, rfl⟩ ?_).mpr ?_⟩
  · intro record member
    rw [List.nil_append, List.mem_singleton] at member
    exact member ▸ ⟨_, rfl, rfl⟩
  · intro record member
    rw [List.nil_append, List.mem_singleton] at member
    subst member
    intro req rest front named
    exact .inr (.inl ⟨_, peer, rfl, rfl, rfl⟩)

/-- The job manager comes to the chunk request behind the clearing of `torName2dev`: this
refutes the survival of downloads that some device in reach offers throughout. -/
theorem queued_iff_continues_fails :
    ¬ ∀ (env : Env) (name : Bytes) (start final : System) (past : List (System × Label)),
      Transition.Run (Step env) start past final → Queued name start.node.jobs →
      (∀ record ∈ past, record.1.node.Incomplete name ∧ record.1.node.Offered name) →
      final.node.Incomplete name → final.node.Offered name → Queued name final.node.jobs := by
  intro survives
  let server : Server := ⟨.insertion, fun _ => false⟩
  have begun : Transition.Run (Step (.byLength .null)) downloading [] downloading := .nil
  have called := begun.snoc (.requestTorrentData [98] rfl)
  have tested := called.snoc (.statement
    (rfl : statement _ server none {} _ = some { downloading with main := .clear [98] }))
  have cleared := tested.snoc (.statement (rfl : statement _ server none {} _ = some
    { node := { downloading.node with torName2dev := {} }, main := .swap [98] none }))
  have worked : ({ downloading.node with torName2dev := {} } : Node).jobManagerThread
      (.byLength .null) server none { missing := [0] } =
        some { downloading.node with torName2dev := {}, jobs := [] } := rfl
  have run := cleared.snoc (.jobManager rfl worked)
  have offered : ∀ node : Node, node.name2torrent = downloading.node.name2torrent →
      node.dev2tor = downloading.node.dev2tor →
      node.remote2local = downloading.node.remote2local →
      node.Incomplete [97] ∧ node.Offered [97] := by
    intro node torrents devices reach
    refine ⟨⟨_, by rw [torrents]; rfl, rfl⟩, peer, [[97], [98]], by rw [devices]; rfl,
      List.mem_cons_self, by rw [reach]; rfl⟩
  have ended := offered _ rfl rfl rfl
  have survived := survives _ [97] downloading _ _ run ⟨_, List.mem_singleton_self _, rfl⟩ ?_
    ended.1 ended.2
  · obtain ⟨req, member, _⟩ := survived
    cases member
  · intro record member
    simp only [List.nil_append, List.cons_append, List.mem_cons, List.not_mem_nil, or_false]
      at member
    rcases member with rfl | rfl | rfl | rfl
    · exact offered _ rfl rfl rfl
    · exact offered _ rfl rfl rfl
    · exact offered _ rfl rfl rfl
    · exact offered _ rfl rfl rfl

end System

end Bp2p
