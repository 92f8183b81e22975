import Bp2p.PutChunk
import Bp2p.Retry

/-! # The chunk that is asked for

`requestChunk` asks for a chunk whose index `getMissingChunkIndex` draws from the missing
ones. When the node does not have the torrent, or the torrent has no chunk missing, that
index is -1, and it is asked for all the same. Every request is for a missing chunk of a
torrent the node has along runs in which `requestChunk` is only called for torrents that
lack one (`Bp2p.System.asksWanted_of_asks`).
-/

namespace Bp2p

namespace Torrent

/-- A chunk is missing. -/
def Lacks (torrent : Torrent) (chunk : Chunk) : Prop :=
  chunk ∈ torrent.chunks ∧ chunk.existing = false

/-- The missing chunks have indices below the number of pieces that fit an `int`. -/
def InRange (torrent : Torrent) : Prop :=
  ∀ chunk, torrent.Lacks chunk →
    chunk.index.toNat < torrent.numPieces.toNat ∧ chunk.index.toNat < 2 ^ 31

/-- The loop that draws a missing chunk ends with one. -/
theorem drawMissing_spec {chunks : List Chunk} {draws : List Nat} {chunk : Chunk}
    (drawn : drawMissing chunks draws = some chunk) :
    chunk ∈ chunks ∧ chunk.existing = false := by
  induction draws with
  | nil => cases drawn
  | cons draw draws ih =>
      unfold drawMissing at drawn
      split at drawn
      · next found =>
          split at drawn
          · exact ih drawn
          · next missing =>
              cases drawn
              exact ⟨List.mem_of_getElem? found, Bool.eq_false_iff.mpr missing⟩
      · cases drawn

/-- A torrent with chunks is complete exactly if it lacks none. -/
theorem isComplete_eq_false_iff {torrent : Torrent} (filled : torrent.chunks ≠ []) :
    torrent.isComplete = false ↔ ∃ chunk, torrent.Lacks chunk := by
  have listed : torrent.chunks.isEmpty = false := List.isEmpty_eq_false_iff.mpr filled
  simp only [isComplete, listed, Bool.not_false, Bool.true_and, List.all_eq_false,
    Bool.not_eq_true, Lacks]

/-- Of a torrent that lacks a chunk, the index of a missing chunk is returned. -/
theorem getMissingChunkIndex_spec {torrent : Torrent} {draws : List Nat} {index : Int32}
    (lacks : ∃ chunk, torrent.Lacks chunk)
    (drawn : torrent.getMissingChunkIndex draws = some index) :
    ∃ chunk, torrent.Lacks chunk ∧ index = chunk.index.toInt32 := by
  obtain ⟨lacked, member, missing⟩ := lacks
  have incomplete := (isComplete_eq_false_iff (List.ne_nil_of_mem member)).mpr
    ⟨lacked, member, missing⟩
  rw [getMissingChunkIndex, if_pos ⟨List.length_pos_of_mem member, incomplete⟩,
    Option.map_eq_some_iff] at drawn
  obtain ⟨chunk, found, rfl⟩ := drawn
  exact ⟨chunk, drawMissing_spec found, rfl⟩

/-- What is missing once a chunk was put was missing before. -/
theorem Lacks.of_withChunk {env : Env} {torrent : Torrent} {bytes : Bytes} {index : UInt32}
    {chunk : Chunk} (lacks : (torrent.withChunk env bytes index).Lacks chunk) :
    torrent.Lacks chunk := by
  unfold withChunk at lacks
  split at lacks
  · obtain ⟨member, missing⟩ := lacks
    obtain ⟨i, found⟩ := List.getElem?_of_mem member
    rw [getElem?_markExisting, Option.map_eq_some_iff] at found
    obtain ⟨before, held, rfl⟩ := found
    split at missing
    · cases missing
    · next different =>
        rw [if_neg different]
        exact ⟨List.mem_of_getElem? held, missing⟩
  · exact lacks

/-- Putting a chunk leaves the number of pieces. -/
theorem withChunk_numPieces (env : Env) (torrent : Torrent) (bytes : Bytes) (index : UInt32) :
    (torrent.withChunk env bytes index).numPieces = torrent.numPieces := by
  unfold withChunk
  split
  · rfl
  · rfl

/-- Putting a chunk removes none. -/
theorem withChunk_ne_nil {env : Env} {torrent : Torrent} (bytes : Bytes) (index : UInt32)
    (filled : torrent.chunks ≠ []) : (torrent.withChunk env bytes index).chunks ≠ [] := by
  unfold withChunk
  split
  · apply List.ne_nil_of_length_pos
    rw [markExisting, List.length_modify]
    exact List.length_pos_of_ne_nil filled
  · exact filled

theorem InRange.withChunk {env : Env} {torrent : Torrent} (inRange : torrent.InRange)
    (bytes : Bytes) (index : UInt32) : (torrent.withChunk env bytes index).InRange := by
  intro chunk lacks
  rw [withChunk_numPieces]
  exact inRange chunk lacks.of_withChunk

/-- A chunk stays missing if what is put is not accepted at its position. -/
theorem Lacks.withChunk {env : Env} {torrent : Torrent} {bytes : Bytes} {index : UInt32}
    {chunk : Chunk} (lacks : torrent.Lacks chunk)
    (other : torrent.validateChunk env bytes index = true →
      torrent.chunks[index.toNat]? ≠ some chunk) :
    (torrent.withChunk env bytes index).Lacks chunk := by
  unfold Torrent.withChunk
  split
  · next accepted =>
      obtain ⟨i, held⟩ := List.getElem?_of_mem lacks.1
      have different : index.toNat ≠ i := fun same => other accepted (same ▸ held)
      refine ⟨List.mem_of_getElem? (?_ : (torrent.markExisting index).chunks[i]? = _), lacks.2⟩
      rw [getElem?_markExisting, held, Option.map_some, if_neg different]
  · exact lacks

end Torrent

namespace Node

/-- The request is for a chunk of a torrent of the node, which lacks it: its index is that of
a piece. -/
def Wanted (node : Node) (req : ChunkReq) : Prop :=
  ∃ torrent chunk, node.name2torrent[req.torrentName]? = some torrent ∧ torrent.Lacks chunk ∧
    req.index.toInt = chunk.index.toNat ∧ 0 ≤ req.index.toInt ∧
    req.index.toInt < torrent.numPieces.toNat

/-- The node has the torrent, with a chunk missing and the missing ones in range. -/
def Requestable (node : Node) (name : Bytes) : Prop :=
  ∃ torrent, node.name2torrent[name]? = some torrent ∧ (∃ chunk, torrent.Lacks chunk) ∧
    torrent.InRange

/-- The node has the torrent, with its chunks and the missing ones in range. -/
def Continuable (node : Node) (name : Bytes) : Prop :=
  ∃ torrent, node.name2torrent[name]? = some torrent ∧ torrent.chunks ≠ [] ∧ torrent.InRange

/-- The jobs behind the ones given include no requests for chunks but wanted ones. -/
def AppendsWanted (before : List Packet) (after : Node) : Prop :=
  ∃ more, after.jobs = before ++ more ∧ ∀ req, Packet.chunk req ∈ more → after.Wanted req

theorem Wanted.of_eq {node after : Node} {req : ChunkReq} (wanted : node.Wanted req)
    (same : after.name2torrent = node.name2torrent) : after.Wanted req := by
  unfold Wanted
  rw [same]
  exact wanted

theorem AppendsWanted.none {before : List Packet} {after : Node} (same : after.jobs = before) :
    AppendsWanted before after :=
  ⟨[], by rw [same, List.append_nil], fun _ member => absurd member List.not_mem_nil⟩

theorem AppendsWanted.popJob {node after : Node} (filled : node.jobs ≠ [])
    (appends : AppendsWanted node.jobs after) : AppendsWanted node.jobs.tail after.popJob := by
  obtain ⟨more, jobs, wanted⟩ := appends
  refine ⟨more, ?_, fun req member => (wanted req member).of_eq rfl⟩
  rw [Node.popJob, jobs, List.tail_append_of_ne_nil filled]

theorem toInt_toInt32 {index : UInt32} (small : index.toNat < 2 ^ 31) :
    index.toInt32.toInt = index.toNat := by
  apply BitVec.toInt_eq_toNat_of_lt
  rw [UInt32.toBitVec_toInt32, UInt32.toNat_toBitVec]
  omega

/-- The request drawn for a torrent that lacks chunks is wanted. -/
theorem createMissingChunkRequest_wanted {node after : Node} {name : Bytes} {draws : Draws}
    {req : ChunkReq} (able : node.InReach name draws → node.Requestable name)
    (created : node.createMissingChunkRequest name draws = some (after, some req)) :
    after.Wanted req := by
  have same := (createMissingChunkRequest_destroysCopy created).keepsTorrents.name2torrent
  simp only [createMissingChunkRequest, bind, Option.bind_eq_some_iff, Option.some.injEq,
    Prod.mk.injEq, Prod.exists] at created
  obtain ⟨read, index, missing, made, drawn, rfl, rfl⟩ := created
  have kept := (getMissingChunkIndex_destroysCopy missing).onlyTables.keepsQueue
  rcases requestFromAny_made drawn with ⟨reached, remoteAddr, localAddr, made⟩ | ⟨_, none⟩
  · obtain ⟨torrent, found, lacks, inRange⟩ := able ((kept.inReach_iff name draws).mp reached)
    rw [Option.some.injEq] at made
    subst made
    simp only [getMissingChunkIndex, found, Option.map_eq_some_iff, Prod.mk.injEq] at missing
    obtain ⟨_, indexed, _, rfl⟩ := missing
    obtain ⟨chunk, absent, rfl⟩ := Torrent.getMissingChunkIndex_spec lacks indexed
    obtain ⟨below, small⟩ := inRange chunk absent
    refine ⟨torrent, chunk, ?_, absent, toInt_toInt32 small, ?_, ?_⟩
    · rw [same]
      exact found
    · rw [toInt_toInt32 small]
      exact Int.natCast_nonneg _
    · rw [toInt_toInt32 small]
      exact Int.ofNat_lt.mpr below
  · cases none

/-- A chunk that is requested is wanted. -/
theorem requestChunk_appendsWanted {node after : Node} {name : Bytes} {draws : Draws}
    (able : node.InReach name draws → node.Requestable name)
    (requested : node.requestChunk name draws = some after) : AppendsWanted node.jobs after := by
  obtain ⟨read, made, created, rfl⟩ := requestChunk_created requested
  have kept := (createMissingChunkRequest_destroysCopy created).onlyTables.keepsQueue.jobs
  obtain ⟨more, inserted, members⟩ := insertCreated_jobs read Packet.chunk made
  rw [inserted]
  refine ⟨more, congrArg (· ++ more) kept, fun req member => ?_⟩
  obtain ⟨drawn, rfl, same⟩ := members _ member
  cases same
  exact (createMissingChunkRequest_wanted able created).of_eq rfl

/-- Only the retry of a chunk request asks for a chunk. -/
theorem retryRequest_appendsWanted {node after : Node} {draws : Draws} {req : Packet}
    (able : ∀ chunk : ChunkReq, req = .chunk chunk → node.InReach chunk.torrentName draws →
      node.Requestable chunk.torrentName)
    (retried : node.retryRequest draws req = some after) : AppendsWanted node.jobs after := by
  rcases retryRequest_cases retried with ⟨chunk, same, requested⟩ | ⟨more, rfl, others⟩
  · exact requestChunk_appendsWanted (able chunk same) requested
  · exact ⟨more, rfl, fun req member => absurd member (others req)⟩

/-- Behind a completed chunk another one is asked for, if the torrent lacks one. -/
theorem continueDownload_appendsWanted {env : Env} {node after : Node} {name : Bytes}
    {draws : Draws} (able : node.InReach name draws → node.Continuable name)
    (continued : node.continueDownload env name draws = some after) :
    AppendsWanted node.jobs after := by
  have kept := (subscript_keepsDevices node name).toKeepsQueue
  rcases continueDownload_cases (Prod.eta (node.subscript name)).symm continued with
    ⟨_, _, rfl⟩ | ⟨incomplete, requested, executed, rfl⟩
  · exact .none kept.jobs
  · have requestable : (node.subscript name).1.InReach name draws →
        (node.subscript name).1.Requestable name := by
      intro reached
      obtain ⟨torrent, found, filled, inRange⟩ := able ((kept.inReach_iff name draws).mp reached)
      rw [subscript_found found] at incomplete ⊢
      exact ⟨torrent, found, (Torrent.isComplete_eq_false_iff filled).mp incomplete, inRange⟩
    obtain ⟨more, jobs, wanted⟩ := requestChunk_appendsWanted requestable executed
    rw [kept.jobs] at jobs
    exact ⟨more, jobs, fun req member => (wanted req member).of_eq rfl⟩

/-- A completed chunk leaves a torrent that can be continued as such. -/
theorem Continuable.completeChunkReq {env : Env} {node : Node} {req : ChunkReq}
    (able : node.Continuable req.torrentName) :
    (node.completeChunkReq env req).Continuable req.torrentName := by
  obtain ⟨torrent, found, filled, inRange⟩ := able
  have stores := completeChunkReq_stores env node req req.torrentName
  rw [if_pos rfl, subscript_found found] at stores
  exact ⟨_, stores, Torrent.withChunk_ne_nil _ _ filled, inRange.withChunk _ _⟩

/-- The calls of `requestChunk` for the front job are for a torrent that lacks chunks. -/
def FrontAsks (node : Node) (transport : Option Message) (draws : Draws) : Prop :=
  ∀ (req : ChunkReq) (rest : List Packet), node.jobs = .chunk req :: rest →
    node.InReach req.torrentName draws →
      (transport = none → node.Requestable req.torrentName) ∧
        (transport ≠ none → node.Continuable req.torrentName)

/-- The chunks the job manager asks for are wanted. -/
theorem jobManagerThread_appendsWanted {env : Env} {server : Server} {node after : Node}
    {transport : Option Message} {draws : Draws} (asks : node.FrontAsks transport draws)
    (worked : node.jobManagerThread env server transport draws = some after) :
    AppendsWanted node.jobs.tail after := by
  cases jobManagerThread_works worked with
  | idle empty => exact .none (by rw [empty, List.tail_nil])
  | retried front failed retried =>
      refine AppendsWanted.popJob (front ▸ List.cons_ne_nil _ _)
        (retryRequest_appendsWanted ?_ retried)
      rintro chunk rfl reached
      cases transport with
      | none => exact (asks chunk _ front reached).1 rfl
      | some rsp => cases failed
  | @continued _ _ chunk _ front carried continued =>
      obtain ⟨req, rfl, named⟩ := chunk_of_carryOutRequest carried
      have kept := completeChunkReq_keepsDevices env node chunk
      refine AppendsWanted.popJob (front ▸ List.cons_ne_nil _ _) (kept.jobs ▸ ?_)
      refine continueDownload_appendsWanted (fun reached => ?_) continued
      have before := (kept.inReach_iff _ _).mp reached
      rw [named] at before
      apply Continuable.completeChunkReq
      rw [named]
      cases transport with
      | none => cases carried
      | some rsp => exact (asks req _ front before).2 (Option.some_ne_none _)
  | completed front _ _ done =>
      exact AppendsWanted.popJob (front ▸ List.cons_ne_nil _ _)
        (.none (completeRequest_keepsQueue done).jobs)

/-- Completing the request leaves the chunk that was drawn missing: no other description of
the torrent comes, and no chunk of its index. -/
def Spares (env : Env) (node : Node) (drawn : ChunkReq) : Packet → Prop
  | .list _ => True
  | .file req => req.torrentName ≠ drawn.torrentName
  | .avail _ => True
  | .chunk req => ∀ torrent chunk, req.torrentName = drawn.torrentName →
      node.name2torrent[drawn.torrentName]? = some torrent →
      torrent.validateChunk env req.chunk req.index.toUInt32 = true →
      torrent.chunks[req.index.toUInt32.toNat]? = some chunk →
      drawn.index.toInt ≠ chunk.index.toNat

/-- A description under another name leaves what is wanted. -/
theorem completeTorrentFileReq_wanted {env : Env} {server : Server} {node after : Node}
    {req : TorrentFileReq} {drawn : ChunkReq} (wanted : node.Wanted drawn)
    (other : req.torrentName ≠ drawn.torrentName)
    (completed : node.completeTorrentFileReq env server req = some after) : after.Wanted drawn := by
  obtain ⟨tor, res, tables, _, ⟨_, rfl⟩ | ⟨_, jobj, serializedObj, ⟨_, rfl⟩ | ⟨_, rfl⟩⟩⟩ :=
    completeTorrentFileReq_spec completed
  · exact wanted.of_eq rfl
  · obtain ⟨torrent, chunk, found, rest⟩ := wanted
    have stores := setTorrent_stores { node with tables } req.torrentName
      { tor.loaded env server.order tables with jobj, serializedObj } drawn.torrentName
    rw [if_neg other] at stores
    exact ⟨torrent, chunk, stores.trans found, rest⟩
  · exact wanted.of_eq rfl

/-- A chunk of another torrent or index leaves what is wanted. -/
theorem completeChunkReq_wanted {env : Env} {node : Node} {req drawn : ChunkReq}
    (wanted : node.Wanted drawn) (spares : node.Spares env drawn (.chunk req)) :
    (node.completeChunkReq env req).Wanted drawn := by
  obtain ⟨torrent, chunk, found, lacks, same, low, high⟩ := wanted
  have stores := completeChunkReq_stores env node req drawn.torrentName
  by_cases mine : req.torrentName = drawn.torrentName
  · rw [if_pos mine, mine, subscript_found found] at stores
    refine ⟨_, chunk, stores, lacks.withChunk ?_, same, low, ?_⟩
    · exact fun accepted held => spares torrent chunk mine found accepted held same
    · rwa [Torrent.withChunk_numPieces]
  · rw [if_neg mine] at stores
    exact ⟨torrent, chunk, stores.trans found, lacks, same, low, high⟩

theorem completeRequest_wanted {env : Env} {server : Server} {node after : Node} {req : Packet}
    {drawn : ChunkReq} (wanted : node.Wanted drawn) (spares : node.Spares env drawn req)
    (completed : node.completeRequest env server req = some after) : after.Wanted drawn := by
  cases req with
  | list req =>
      cases completed
      exact wanted.of_eq rfl
  | file req => exact completeTorrentFileReq_wanted wanted spares completed
  | avail req =>
      cases completed
      exact wanted.of_eq (completeTorrentAvailReq_name2torrent node req)
  | chunk req =>
      cases completed
      exact completeChunkReq_wanted wanted spares

end Node

namespace System

open Node

/-- The chunks a step asks for are wanted: it puts jobs behind those it leaves in the queue,
and the requests for chunks among them are for missing ones. -/
def AsksWanted (system : System) (label : Label) (after : System) : Prop :=
  match label with
  | .jobManager _ _ _ => AppendsWanted system.node.jobs.tail after.node
  | _ => AppendsWanted system.node.jobs after.node

/-- A request the main thread has drawn is spared. -/
def SparesDrawn (env : Env) (system : System) (req : Packet) : Prop :=
  ∀ drawn, system.main = .insert (some drawn) → system.node.Spares env drawn req

/-- `requestChunk` is called for torrents that lack chunks, and what it has drawn stays
missing until it is inserted. -/
def Asks (env : Env) (system : System) : Label → Prop
  | .jobManager _ transport draws =>
      system.node.FrontAsks transport draws ∧ ∀ job rest, system.node.jobs = job :: rest →
        ∀ req, carryOutRequest job transport = some req → SparesDrawn env system req
  | .statement _ _ draws => ∀ name, system.main = .chunk name →
      system.node.InReach name draws → system.node.Requestable name
  | .complete _ req => SparesDrawn env system req
  | _ => True

/-- The request the main thread is about to insert is wanted. -/
def DrawnWanted (system : System) : Prop :=
  ∀ drawn, system.main = .insert (some drawn) → system.node.Wanted drawn

theorem Step.drawnWanted {env : Env} {system after : System} {label : Label}
    (wanted : system.DrawnWanted) (asks : Asks env system label)
    (step : Step env system label after) : after.DrawnWanted := by
  intro drawn holds
  cases step with
  | jobManager running worked =>
      rcases jobManagerThread_keepsTorrents worked with
        ⟨_, kept⟩ | ⟨req, completed, answered, done, kept⟩
      · exact (wanted drawn holds).of_eq kept.name2torrent
      · obtain ⟨job, front, carried⟩ := Option.bind_eq_some_iff.mp answered
        obtain ⟨rest, behind⟩ := List.head?_eq_some_iff.mp front
        have spared := asks.2 job rest behind req carried drawn holds
        exact (completeRequest_wanted (wanted drawn holds) spared done).of_eq kept.name2torrent
  | statement executed =>
      obtain ⟨name, asked, created⟩ := (statement_spec executed).2 _ holds
      exact createMissingChunkRequest_wanted (asks name asked) created
  | requestTorrentData => cases holds
  | createTorrent idle | populateLocalTorrents _ idle =>
      rw [show system.main = _ from holds] at idle
      cases idle
  | complete completed =>
      exact completeRequest_wanted (wanted drawn holds) (asks drawn holds) completed
  | serve answered =>
      obtain ⟨tables, rfl⟩ := processRequest_onlyTables answered
      exact (wanted drawn holds).of_eq rfl
  | edit => exact (wanted drawn holds).of_eq rfl

theorem Step.asksWanted {env : Env} {system after : System} {label : Label}
    (wanted : system.DrawnWanted) (asks : Asks env system label)
    (step : Step env system label after) : AsksWanted system label after := by
  cases label with
  | jobManager server transport draws =>
      cases step with
      | jobManager running worked => exact jobManagerThread_appendsWanted asks.1 worked
  | statement | requestTorrentData | createTorrent | populateLocalTorrents | complete | serve |
    edit =>
      rcases step.queue_cases fun _ _ _ => Label.noConfusion with kept | ⟨req, holds, inserted⟩
      · exact .none kept
      · obtain ⟨more, appended, members⟩ := insertCreated_jobs system.node Packet.chunk req
        refine ⟨more, by rw [inserted, appended], fun req member => ?_⟩
        obtain ⟨drawn, rfl, same⟩ := members _ member
        cases same
        apply (wanted req holds).of_eq
        rw [inserted, appended]

/-- **The chunks asked for.** Along a run whose calls of `requestChunk` are for torrents that
lack chunks, every request for a chunk is, when it is queued, for a missing chunk of a torrent
the node has. -/
theorem asksWanted_of_asks (env : Env) (start : System) (past : List (System × Label))
    (idle : start.main = .idle) (asks : Transition.Meets (Asks env) past) :
    Transition.EveryStep (Step env) start past AsksWanted := by
  refine Transition.EveryStep.of_invariant DrawnWanted
    (fun _ _ _ wanted asks step => step.drawnWanted wanted asks)
    (fun _ _ _ wanted asks step => step.asksWanted wanted asks) (fun drawn holds => ?_) asks
  rw [idle] at holds
  cases holds

/-- The job manager fails to get a chunk and asks for it again. -/
theorem asksWanted_of_asks_retry :
    ∃ past final, Transition.Run (Step (.byLength .null)) downloading past final ∧ past ≠ [] ∧
      Transition.EveryStep (Step (.byLength .null)) downloading past AsksWanted := by
  have begun : Transition.Run (Step (.byLength .null)) downloading [] downloading := .nil
  obtain ⟨after, worked⟩ : ∃ after, downloading.node.jobManagerThread (.byLength .null)
      ⟨.insertion, fun _ => false⟩ none { missing := [0] } = some after := ⟨_, rfl⟩
  have run := begun.snoc (.jobManager rfl worked)
  refine ⟨_, _, run, List.cons_ne_nil _ _, asksWanted_of_asks _ downloading _ rfl ?_⟩
  intro record member
  rw [List.nil_append, List.mem_singleton] at member
  subst member
  refine ⟨fun req rest front _ => ⟨fun _ => ?_, fun answered => absurd rfl answered⟩, ?_⟩
  · cases front
    refine ⟨Torrent.letterTorrent 7 1 false, rfl, ⟨_, List.mem_singleton_self _, rfl⟩, ?_⟩
    rintro chunk ⟨member, _⟩
    rw [List.mem_singleton.mp member]
    exact ⟨by decide, by decide⟩
  · intro _ _ _ _ _ drawn holds
    cases holds

/-- A complete torrent, asked for again, refutes that only missing chunks are asked for. -/
theorem asksWanted_of_asks_fails :
    ¬ ∀ (env : Env) (start final : System) (past : List (System × Label)),
      Transition.Run (Step env) start past final → start.main = .idle →
      Transition.EveryStep (Step env) start past AsksWanted := by
  intro wanted
  let server : Server := ⟨.insertion, fun _ => false⟩
  let names : Std.TreeMap Bytes Torrent := .ofList [([97], Torrent.letterTorrent 7 1 true)] compare
  obtain ⟨past, asked⟩ := asks_reached names
  have drawn := (asked.snoc (.statement (rfl : statement _ server none {} _ =
    some { node := { swapped with name2torrent := names }, main := .chunk [97] }))).snoc
      (.statement (rfl : statement _ server none {} _ = some
        { node := { swapped with name2torrent := names }, main := .insert (some unknownChunk) }))
  have step : Step (.byLength .null) _ _
      { node := { swapped with name2torrent := names, jobs := [.chunk unknownChunk] } } :=
    .statement (rfl : statement _ server none {}
      { node := { swapped with name2torrent := names }, main := .insert (some unknownChunk) } =
        some _)
  obtain ⟨more, jobs, all⟩ :=
    wanted _ _ _ _ (drawn.snoc step) rfl _ _ _ _ (List.prefix_refl _) drawn step
  rw [← show [Packet.chunk unknownChunk] = more from jobs] at all
  obtain ⟨_, _, _, _, _, low, _⟩ := all unknownChunk (List.mem_singleton_self _)
  exact absurd low (by decide)

end System

end Bp2p
