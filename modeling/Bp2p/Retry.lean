import Bp2p.Download
import Bp2p.TorrentMap

/-! # Retried jobs

The job manager takes the front job off the queue whether it could be carried out or not.
One that failed should come back at the end: it is created anew, for a device that is
looked up in the maps of the node. When the lookup finds none, nothing is created and the
job is lost. Every step keeps all jobs exactly if this does not happen to it
(`Bp2p.System.keepsJobs_iff_finds`).
-/

namespace Bp2p

namespace Node

/-- A request of the same class for the same torrent, or to the same device. -/
def SameRequest : Packet → Packet → Prop
  | .list req, .list again => again.remoteAddr = req.remoteAddr
  | .file req, .file again => again.torrentName = req.torrentName
  | .avail req, .avail again => again.torrentName = req.torrentName
  | .chunk req, .chunk again => again.torrentName = req.torrentName
  | _, _ => False

/-- A device is found for a request made anew. -/
def Finds (node : Node) (draws : Draws) : Packet → Prop
  | .list req => node.remote2local.contains req.remoteAddr = true
  | .file req => node.InReach req.torrentName draws
  | .avail req => node.InReach req.torrentName draws
  | .chunk req => node.InReach req.torrentName draws

/-- The jobs are those before and, if a device was found, one of the same request. -/
def Retries (node : Node) (draws : Draws) (req : Packet) (before jobs : List Packet) : Prop :=
  (node.Finds draws req ∧ ∃ again, SameRequest req again ∧ jobs = before ++ [again]) ∨
    (¬ node.Finds draws req ∧ jobs = before)

theorem insertCreated_some {α : Type} {node : Node} (running : node.jobManager = true)
    (packet : α → Packet) (req : α) :
    (node.insertCreated packet (some req)).jobs = node.jobs ++ [packet req] :=
  congrArg Node.jobs (insertJob_of_running node running (packet req))

/-- A request to any device that offers the torrent, made anew. -/
theorem insertCreated_retries {α : Type} {node : Node} {draws : Draws} {req : Packet}
    {name : Bytes} {make : DeviceDescriptor → DeviceDescriptor → α} {made : Option α}
    (packet : α → Packet) (running : node.jobManager = true)
    (created : (node.requestFromAny name draws fun dev => node.requestThrough make dev draws) =
      some made)
    (finds : node.Finds draws req ↔ node.InReach name draws)
    (same : ∀ remoteAddr localAddr, SameRequest req (packet (make remoteAddr localAddr))) :
    node.Retries draws req node.jobs (node.insertCreated packet made).jobs := by
  rcases requestFromAny_made created with ⟨reached, remoteAddr, localAddr, rfl⟩ | ⟨unreached, rfl⟩
  · exact .inl ⟨finds.mpr reached, _, same remoteAddr localAddr,
      insertCreated_some running packet _⟩
  · exact .inr ⟨fun found => unreached (finds.mp found), rfl⟩

/-- `retryRequest` queues the same request again if a device is found. -/
theorem retryRequest_retries {node after : Node} {draws : Draws} {req : Packet}
    (running : node.jobManager = true) (retried : node.retryRequest draws req = some after) :
    node.Retries draws req node.jobs after.jobs := by
  cases req with
  | list req =>
      simp only [retryRequest, requestNearbyTorrents, createNearbyTorrentsRequest, bind,
        Option.bind_eq_some_iff, Option.some.injEq] at retried
      obtain ⟨made, created, rfl⟩ := retried
      rcases requestThrough_made created with ⟨reached, localAddr, rfl⟩ | ⟨unreached, rfl⟩
      · refine .inl ⟨reached, _, ?_, insertCreated_some running _ _⟩
        rfl
      · exact .inr ⟨Bool.eq_false_iff.mp unreached, rfl⟩
  | file req =>
      simp only [retryRequest, requestTorrentFile, bind, Option.bind_eq_some_iff,
        Option.some.injEq] at retried
      obtain ⟨made, created, rfl⟩ := retried
      exact insertCreated_retries .file running created Iff.rfl fun _ _ => rfl
  | avail req =>
      simp only [retryRequest, requestTorrentAvail, bind, Option.bind_eq_some_iff,
        Option.some.injEq] at retried
      obtain ⟨made, created, rfl⟩ := retried
      exact insertCreated_retries .avail running created Iff.rfl fun _ _ => rfl
  | chunk req =>
      rcases (requestChunk_spec running retried).2 with ⟨reached, next, named, jobs⟩ | unreached
      · exact .inl ⟨reached, .chunk next, named, jobs⟩
      · exact .inr unreached

/-- At most a request for another chunk of the torrent that was asked for one. -/
def Follows (req : Packet) (more : List Packet) : Prop :=
  more = [] ∨ ∃ chunk next : ChunkReq, req = .chunk chunk ∧ next.torrentName = chunk.torrentName ∧
    more = [.chunk next]

/-- Going on with a download queues nothing or one request of its name. -/
theorem continueDownload_requests {env : Env} {node after : Node} {name : Bytes} {draws : Draws}
    (running : node.jobManager = true)
    (continued : node.continueDownload env name draws = some after) :
    after.jobs = node.jobs ∨
      ∃ next : ChunkReq, next.torrentName = name ∧ after.jobs = node.jobs ++ [.chunk next] := by
  have kept := (subscript_keepsDevices node name).toKeepsQueue
  rcases continueDownload_cases (Prod.eta (node.subscript name)).symm continued with
    ⟨_, _, rfl⟩ | ⟨_, requested, executed, rfl⟩
  · exact .inl kept.jobs
  · rcases (requestChunk_spec (kept.jobManager.trans running) executed).2 with
      ⟨_, next, named, jobs⟩ | ⟨_, jobs⟩
    · exact .inr ⟨next, named, by rw [← kept.jobs, ← jobs]; rfl⟩
    · exact .inl (jobs.trans kept.jobs)

/-- The front job failed: it is retried behind the others. -/
theorem jobManagerThread_failed {env : Env} {server : Server} {node after : Node}
    {transport : Option Message} {draws : Draws} {req : Packet} {rest : List Packet}
    (running : node.jobManager = true) (front : node.jobs = req :: rest)
    (failed : carryOutRequest req transport = none)
    (worked : node.jobManagerThread env server transport draws = some after) :
    node.Retries draws req rest after.jobs := by
  simp only [jobManagerThread, front, failed, Option.map_eq_some_iff] at worked
  obtain ⟨middle, retried, rfl⟩ := worked
  rcases retryRequest_retries running retried with ⟨found, again, same, jobs⟩ | ⟨lost, jobs⟩
  · exact .inl ⟨found, again, same, by rw [popJob, jobs, front]; rfl⟩
  · exact .inr ⟨lost, by rw [popJob, jobs, front]; rfl⟩

/-- What is made of the answer to a chunk request is a chunk request of the same torrent. -/
theorem chunk_of_carryOutRequest {req : Packet} {transport : Option Message} {answered : ChunkReq}
    (carried : carryOutRequest req transport = some (.chunk answered)) :
    ∃ chunk : ChunkReq, req = .chunk chunk ∧ answered.torrentName = chunk.torrentName := by
  cases transport with
  | none => cases carried
  | some rsp =>
      cases req with
      | list req | file req => cases carried
      | avail req =>
          simp only [carryOutRequest] at carried
          split at carried
          · next packet read =>
              obtain ⟨other, rfl⟩ := processResponse_avail read
              cases carried
          · cases carried
      | chunk req =>
          cases carried
          exact ⟨req, rfl, rfl⟩

/-- The front job was carried out: at most the next chunk is requested. -/
theorem jobManagerThread_carried {env : Env} {server : Server} {node after : Node}
    {transport : Option Message} {draws : Draws} {req answered : Packet} {rest : List Packet}
    (running : node.jobManager = true) (front : node.jobs = req :: rest)
    (carried : carryOutRequest req transport = some answered)
    (worked : node.jobManagerThread env server transport draws = some after) :
    ∃ more, Follows req more ∧ after.jobs = rest ++ more := by
  simp only [jobManagerThread, front, carried, bind, Option.bind_eq_some_iff] at worked
  obtain ⟨completed, done, worked⟩ := worked
  have kept := completeRequest_keepsQueue done
  split at worked
  · next answered =>
      obtain ⟨chunk, rfl, named⟩ := chunk_of_carryOutRequest carried
      simp only [Option.map_eq_some_iff] at worked
      obtain ⟨middle, continued, rfl⟩ := worked
      rcases continueDownload_requests (kept.jobManager.trans running) continued with
        jobs | ⟨next, same, jobs⟩
      · exact ⟨[], .inl rfl, by rw [popJob, jobs, kept.jobs, front, List.append_nil]; rfl⟩
      · refine ⟨[.chunk next], .inr ⟨chunk, next, rfl, same.trans named, rfl⟩, ?_⟩
        rw [popJob, jobs, kept.jobs, front]
        rfl
  · cases worked
    exact ⟨[], .inl rfl, by rw [popJob, kept.jobs, front, List.append_nil]; rfl⟩

end Node

namespace System

open Node

/-- What a step does to the queue. The job manager puts the front job at the end if it
failed, and at most the next chunk if it was carried out; every other step puts jobs
behind those there are. -/
def KeepsJobs (system : System) (label : Label) (after : System) : Prop :=
  match label with
  | .jobManager _ transport _ =>
      (system.node.jobs = [] → after.node.jobs = []) ∧
        ∀ req rest, system.node.jobs = req :: rest →
          (carryOutRequest req transport = none →
            ∃ again, SameRequest req again ∧ after.node.jobs = rest ++ [again]) ∧
          (carryOutRequest req transport ≠ none →
            ∃ more, Follows req more ∧ after.node.jobs = rest ++ more)
  | _ => ∃ more, after.node.jobs = system.node.jobs ++ more

/-- A device is found for a job that failed. -/
def FindsDevice (system : System) : Label → Prop
  | .jobManager _ transport draws => ∀ req rest, system.node.jobs = req :: rest →
      carryOutRequest req transport = none → system.node.Finds draws req
  | _ => True

/-- A step keeps the jobs exactly if it finds a device for the retry. -/
theorem Step.keepsJobs_iff {env : Env} {system after : System} {label : Label}
    (step : Step env system label after) :
    KeepsJobs system label after ↔ FindsDevice system label := by
  cases label with
  | jobManager server transport draws =>
      cases step with
      | jobManager running worked =>
          constructor
          · rintro ⟨_, keeps⟩ req rest front failed
            obtain ⟨again, _, jobs⟩ := (keeps req rest front).1 failed
            rcases jobManagerThread_failed running front failed worked with
              ⟨found, _⟩ | ⟨_, lost⟩
            · exact found
            · rw [lost] at jobs
              exact absurd (List.self_eq_append_right.mp jobs) (List.cons_ne_nil _ _)
          · intro finds
            refine ⟨fun idle => ?_, fun req rest front => ⟨fun failed => ?_, fun carried => ?_⟩⟩
            · simp only [jobManagerThread, idle, Option.some.injEq] at worked
              rw [← worked]
              exact idle
            · rcases jobManagerThread_failed running front failed worked with
                ⟨_, retried⟩ | ⟨lost, _⟩
              · exact retried
              · exact absurd (finds req rest front failed) lost
            · obtain ⟨answered, done⟩ := Option.ne_none_iff_exists'.mp carried
              exact jobManagerThread_carried running front done worked
  | statement | requestTorrentData | createTorrent | populateLocalTorrents | complete | serve |
    edit =>
      exact ⟨fun _ => trivial, fun _ => step.jobs fun _ _ _ => Label.noConfusion⟩

/-- **Retried jobs.** No step of a run loses, doubles or reorders a job exactly when a device
is found for every job that fails. -/
theorem keepsJobs_iff_finds (env : Env) (start final : System) (past : List (System × Label))
    (run : Transition.Run (Step env) start past final) :
    Transition.EveryStep (Step env) start past KeepsJobs ↔ Transition.Meets FindsDevice past :=
  run.everyStep_iff_meets fun _ _ _ step => step.keepsJobs_iff

/-- The job manager fails to get a chunk and finds a device to ask again. -/
theorem keepsJobs_iff_finds_retry :
    ∃ past final, Transition.Run (Step (.byLength .null)) downloading past final ∧ past ≠ [] ∧
      Transition.EveryStep (Step (.byLength .null)) downloading past KeepsJobs := by
  have begun : Transition.Run (Step (.byLength .null)) downloading [] downloading := .nil
  obtain ⟨after, worked⟩ : ∃ after, downloading.node.jobManagerThread (.byLength .null)
      ⟨.insertion, fun _ => false⟩ none { missing := [0] } = some after := ⟨_, rfl⟩
  have run := begun.snoc (.jobManager rfl worked)
  refine ⟨_, _, run, List.cons_ne_nil _ _, (keepsJobs_iff_finds _ downloading _ _ run).mpr ?_⟩
  intro record member
  rw [List.nil_append, List.mem_singleton] at member
  subst member
  intro req rest front _
  cases front
  exact ⟨_, peer, rfl, rfl, rfl⟩

/-- A node that has the torrent of one byte with its chunk missing, in reach of a peer that
offers it. -/
def lacking : Node :=
  { inReachOfPeer with name2torrent := .ofList [([97], Torrent.letterTorrent 7 1 false)] compare }

/-- A second command clears `torName2dev` while the job manager works for the first one: this
refutes the keeping of jobs. -/
theorem keepsJobs_iff_finds_fails :
    ¬ ∀ (env : Env) (start final : System) (past : List (System × Label)),
      Transition.Run (Step env) start past final → start.node.jobs = [] →
      Transition.EveryStep (Step env) start past KeepsJobs := by
  intro keeps
  let server : Server := ⟨.insertion, fun _ => false⟩
  let names := lacking.name2torrent
  let missing : ChunkReq := { unknownChunk with index := 0 }
  let queue : Node := { swapped with name2torrent := names, jobs := [.chunk missing] }
  let cleared : System := { node := { queue with torName2dev := {} }, main := .swap [97] none }
  obtain ⟨past, asked⟩ := asks_reached names
  have queued := ((asked.snoc (.statement (rfl : statement _ server none {} _ =
    some { node := { swapped with name2torrent := names }, main := .chunk [97] }))).snoc
      (.statement (rfl : statement _ server none { missing := [0] } _ = some
        { node := { swapped with name2torrent := names }, main := .insert (some missing) }))).snoc
          (.statement (rfl : statement _ server none {} _ = some { node := queue }))
  have again := ((queued.snoc (.requestTorrentData [97] rfl)).snoc
    (.statement (rfl : statement _ server none {} _ = some
      { node := queue, main := .clear [97] }))).snoc
        (.statement (rfl : statement _ server none {} _ = some cleared))
  obtain ⟨after, worked⟩ : ∃ after, cleared.node.jobManagerThread (.byLength .null) server none
      { missing := [0] } = some after := ⟨_, rfl⟩
  have step : Step (.byLength .null) cleared _ { cleared with node := after } :=
    .jobManager rfl worked
  have kept := keeps _ _ _ _ (again.snoc step) rfl _ _ _ _ (List.prefix_refl _) again step
  obtain ⟨devs, _, found, _⟩ := step.keepsJobs_iff.mp kept _ _ rfl rfl
  cases found

end System

end Bp2p
