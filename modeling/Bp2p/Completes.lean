import Bp2p.Intact
import Bp2p.Lib.Turns
import Bp2p.MissingChunk
import Mathlib.Data.Finset.Card

/-! # Downloads that end

The job manager serves its queue in turns, and what it asks for is drawn: an answered request
may be for a chunk that came already, and one that failed is made anew for another chunk, at
the end of the queue. All the same a download in progress ends. In a queue of at most `limit`
jobs the job manager needs less than two rounds for every chunk that is missing and for every
request that is not answered with its piece (`Bp2p.System.download_completes`): behind a
request for a chunk that is there already one for a missing chunk waits. That is for a package
whose file opens and takes what is written: a torrent of the name `x/y` has none.
-/

namespace Bp2p

namespace Torrent

/-- The layout of the chunks of a package. -/
def layoutOf (content : Bytes) : UInt32 × List UInt32 :=
  (.ofNat (pieceCount content), (List.range (pieceCount content)).map .ofNat)

theorem pieceCount_le {content : Bytes} (bounded : content.length ≤ 2 ^ 32) :
    pieceCount content ≤ 2 ^ 17 := by
  unfold pieceCount chunkSize
  omega

theorem pieceCount_pos {content : Bytes} (nonempty : 1 ≤ content.length) :
    0 < pieceCount content :=
  lt_pieceCount_iff.mpr nonempty

variable {content : Bytes} {torrent : Torrent}

theorem length_of_layout (laid : torrent.layout = layoutOf content) :
    torrent.chunks.length = pieceCount content := by
  have lengths := congrArg (fun layout => layout.2.length) laid
  simpa only [layout, layoutOf, List.length_map, List.length_range] using lengths

/-- The index of a chunk is its position. -/
theorem index_of_layout (bounded : content.length ≤ 2 ^ 32)
    (laid : torrent.layout = layoutOf content) {i : Nat} {chunk : Chunk}
    (found : torrent.chunks[i]? = some chunk) : chunk.index.toNat = i := by
  have inside : i < pieceCount content := by
    rw [← length_of_layout laid]
    exact (List.getElem?_eq_some_iff.mp found).choose
  have entry := congrArg (fun layout => layout.2[i]?) laid
  simp only [layout, layoutOf, List.getElem?_map, found, Option.map_some,
    List.getElem?_range inside, Option.some.injEq] at entry
  have count := pieceCount_le bounded
  rw [entry, UInt32.toNat_ofNat', Nat.mod_eq_of_lt (by omega)]

/-- The indices are in range. -/
theorem inRange_of_layout (bounded : content.length ≤ 2 ^ 32)
    (laid : torrent.layout = layoutOf content) : torrent.InRange := by
  rintro chunk ⟨member, _⟩
  obtain ⟨i, found⟩ := List.getElem?_of_mem member
  have inside := (List.getElem?_eq_some_iff.mp found).choose
  have count := pieceCount_le bounded
  have pieces : torrent.numPieces = .ofNat (pieceCount content) := congrArg Prod.fst laid
  rw [index_of_layout bounded laid found, pieces, UInt32.toNat_ofNat',
    Nat.mod_eq_of_lt (by omega), ← length_of_layout laid]
  rw [length_of_layout laid] at inside
  exact ⟨(length_of_layout laid).symm ▸ inside, by omega⟩

/-- What a torrent lacks is not marked. -/
theorem Lacks.unmarked (bounded : content.length ≤ 2 ^ 32)
    (laid : torrent.layout = layoutOf content) {chunk : Chunk} (lacks : torrent.Lacks chunk) :
    chunk.index.toNat < pieceCount content ∧ torrent.marked chunk.index.toNat = false := by
  obtain ⟨member, missing⟩ := lacks
  obtain ⟨i, found⟩ := List.getElem?_of_mem member
  rw [index_of_layout bounded laid found, ← length_of_layout laid, marked, found]
  exact ⟨(List.getElem?_eq_some_iff.mp found).choose, missing⟩

/-- A torrent is complete exactly if all its chunks are marked. -/
theorem isComplete_iff_marked (filled : torrent.chunks ≠ []) :
    torrent.isComplete = true ↔ ∀ i < torrent.chunks.length, torrent.marked i = true := by
  have listed : torrent.chunks.isEmpty = false := List.isEmpty_eq_false_iff.mpr filled
  simp only [isComplete, listed, Bool.not_false, Bool.true_and, List.all_eq_true,
    List.forall_mem_iff_forall_getElem]
  refine forall₂_congr fun i inside => ?_
  rw [marked, List.getElem?_eq_getElem inside, Option.map_some, Option.getD_some]

end Torrent

namespace Node

open Torrent

/-- The pieces of a package that are not marked. -/
def lacked (content name : Bytes) (node : Node) : Finset Nat :=
  (Finset.range (pieceCount content)).filter fun i =>
    node.name2torrent[name]?.map (·.marked i) = some false

/-- The job asks for a chunk of the torrent. -/
def asksFor (name : Bytes) : Packet → Bool
  | .chunk req => req.torrentName == name
  | _ => false

/-- The job asks for one of the chunks of the torrent. -/
def asksAmong (name : Bytes) (indices : Finset Nat) : Packet → Bool
  | .chunk req => req.torrentName == name && decide (req.index.toUInt32.toNat ∈ indices)
  | _ => false

/-- What asks for one of some chunks asks for a chunk. -/
theorem asksFor_of_asksAmong {name : Bytes} {indices : Finset Nat} {job : Packet}
    (among : asksAmong name indices job = true) : asksFor name job = true := by
  cases job with
  | list | file | avail => cases among
  | chunk req =>
      rw [asksAmong, Bool.and_eq_true] at among
      exact among.1

/-- A request is queued exactly if a job asks for a chunk. -/
theorem queued_iff_any {name : Bytes} {jobs : List Packet} :
    Queued name jobs ↔ jobs.any (asksFor name) = true := by
  rw [List.any_eq_true]
  constructor
  · rintro ⟨req, member, named⟩
    exact ⟨_, member, beq_iff_eq.mpr named⟩
  · rintro ⟨job, member, asks⟩
    cases job with
    | list | file | avail => cases asks
    | chunk req => exact ⟨req, member, beq_iff_eq.mp asks⟩

/-- How many jobs the job manager takes off at most until the download is complete. -/
def turnsLeft (limit : Nat) (content name : Bytes) (node : Node) : Nat :=
  Turns.turns limit (asksAmong name (node.lacked content name)) (asksFor name)
    (node.lacked content name).card node.jobs

variable {env : Env} {content name : Bytes} {node after : Node} {limit : Nat}

theorem mem_lacked {torrent : Torrent} (found : node.name2torrent[name]? = some torrent)
    {i : Nat} :
    i ∈ node.lacked content name ↔ i < pieceCount content ∧ torrent.marked i = false := by
  rw [lacked, Finset.mem_filter, Finset.mem_range, found, Option.map_some, Option.some.injEq]

/-- A download in which nothing lacks is complete. -/
theorem Downloading.isComplete_iff (downloading : node.Downloading env content name)
    (nonempty : 1 ≤ content.length) {torrent : Torrent}
    (found : node.name2torrent[name]? = some torrent) :
    torrent.isComplete = true ↔ node.lacked content name = ∅ := by
  obtain ⟨same, there, _, downloads⟩ := downloading.stored
  rw [found, Option.some.injEq] at there
  subst there
  have count := length_chunks_of_hashes downloads.hashes
  have filled : torrent.chunks ≠ [] := by
    apply List.ne_nil_of_length_pos
    rw [count]
    exact pieceCount_pos nonempty
  rw [isComplete_iff_marked filled, count, Finset.eq_empty_iff_forall_notMem]
  refine forall_congr' fun i => ?_
  rw [mem_lacked found, not_and, Bool.not_eq_false]

/-- A download is incomplete exactly if a chunk lacks. -/
theorem Downloading.incomplete_iff (downloading : node.Downloading env content name)
    (nonempty : 1 ≤ content.length) :
    node.Incomplete name ↔ node.lacked content name ≠ ∅ := by
  obtain ⟨torrent, found, _⟩ := downloading.stored
  constructor
  · rintro ⟨same, there, incomplete⟩ empty
    rw [(downloading.isComplete_iff nonempty there).mpr empty] at incomplete
    cases incomplete
  · intro lacks
    refine ⟨torrent, found, Bool.eq_false_iff.mpr fun complete => lacks ?_⟩
    exact (downloading.isComplete_iff nonempty found).mp complete

/-- What lacks behind a step lacked before it. -/
theorem KeepsDownload.lacked_subset (keeps : node.KeepsDownload env content name after)
    (downloading : node.Downloading env content name) :
    after.lacked content name ⊆ node.lacked content name := by
  obtain ⟨torrent, found, _⟩ := downloading.stored
  obtain ⟨left, stored, _⟩ := keeps.downloading.stored
  intro i lacks
  rw [mem_lacked stored] at lacks
  rw [mem_lacked found]
  refine ⟨lacks.1, Bool.eq_false_iff.mpr fun mark => ?_⟩
  obtain ⟨same, there, marked⟩ := keeps.marks i ⟨torrent, found, mark⟩
  rw [stored, Option.some.injEq] at there
  rw [there, marked] at lacks
  cases lacks.2

/-- If a chunk lacks behind, one lacked before. -/
theorem KeepsDownload.lacks (keeps : node.KeepsDownload env content name after)
    (downloading : node.Downloading env content name) (unfinished : after.lacked content name ≠ ∅) :
    node.lacked content name ≠ ∅ := by
  rintro empty
  have subset := keeps.lacked_subset downloading
  rw [empty] at subset
  exact unfinished (Finset.subset_empty.mp subset)

/-- A download can be continued. -/
theorem continuable_of_laidOut (nonempty : 1 ≤ content.length) (bounded : content.length ≤ 2 ^ 32)
    (laid : node.LaidOut name (layoutOf content)) : node.Continuable name := by
  obtain ⟨torrent, found, laid⟩ := laid
  refine ⟨torrent, found, ?_, inRange_of_layout bounded laid⟩
  apply List.ne_nil_of_length_pos
  rw [length_of_layout laid]
  exact pieceCount_pos nonempty

/-- An incomplete download has something to request. -/
theorem Continuable.requestable (able : node.Continuable name) (incomplete : node.Incomplete name) :
    node.Requestable name := by
  obtain ⟨torrent, found, filled, inRange⟩ := able
  obtain ⟨same, there, missing⟩ := incomplete
  rw [found, Option.some.injEq] at there
  subst there
  exact ⟨torrent, found, (isComplete_eq_false_iff filled).mp missing, inRange⟩

/-- A wanted request asks for one of the chunks that lack. -/
theorem Wanted.asksAmong (bounded : content.length ≤ 2 ^ 32)
    (laid : node.LaidOut name (layoutOf content)) {req : ChunkReq} (wanted : node.Wanted req)
    (own : req.torrentName = name) :
    asksAmong name (node.lacked content name) (.chunk req) = true := by
  obtain ⟨torrent, chunk, found, lacks, same, low, _⟩ := wanted
  obtain ⟨stored, there, laid⟩ := laid
  rw [own, there, Option.some.injEq] at found
  subst found
  obtain ⟨inside, unmarked⟩ := lacks.unmarked bounded laid
  have small := pieceCount_le bounded
  have index : req.index.toUInt32.toNat = chunk.index.toNat := by
    have unsigned := BitVec.toInt_eq_toNat_cond req.index.toBitVec
    change req.index.toInt = if 2 * req.index.toUInt32.toNat < 2 ^ 32 then
      (req.index.toUInt32.toNat : Int) else req.index.toUInt32.toNat - (2 ^ 32 : Nat) at unsigned
    have size := req.index.toUInt32.toNat_lt
    split at unsigned
    · omega
    · omega
  rw [Node.asksAmong, Bool.and_eq_true, beq_iff_eq, decide_eq_true_eq, index, mem_lacked there]
  exact ⟨own, inside, unmarked⟩

/-- The answer to a request for a chunk is put into its torrent. -/
theorem jobManagerThread_withChunk {server : Server} {rsp : Message} {draws : Draws}
    {req : ChunkReq} {rest : List Packet} (front : node.jobs = .chunk req :: rest)
    (own : req.torrentName = name) {torrent : Torrent}
    (found : node.name2torrent[name]? = some torrent)
    (worked : node.jobManagerThread env server (some rsp) draws = some after) :
    after.name2torrent[name]? = some (torrent.withChunk env rsp.data req.index.toUInt32) := by
  rcases jobManagerThread_keepsTorrents worked with
    ⟨none, _⟩ | ⟨answered, completed, carried, done, kept⟩
  · rw [front] at none
    cases none
  · rw [front] at carried
    cases carried
    cases done
    have stores := completeChunkReq_stores env node (req.createRequest.processResponse rsp) name
    have same : (node.subscript req.torrentName).2 = torrent := by
      rw [own, subscript_found found]
    rw [kept.name2torrent]
    refine (stores.trans (if_pos own)).trans ?_
    exact congrArg (fun torrent : Torrent => some (torrent.withChunk env rsp.data _)) same

/-- The front job asks for a chunk that lacks and is answered with its piece: the chunk lacks no
longer. -/
theorem Downloading.fewer_of_answered (downloading : node.Downloading env content name)
    {server : Server} {rsp : Message} {draws : Draws} {req : ChunkReq} {rest : List Packet}
    (front : node.jobs = .chunk req :: rest) (own : req.torrentName = name)
    (lacks : req.index.toUInt32.toNat ∈ node.lacked content name)
    (answered : rsp.data = piece req.index.toUInt32.toNat content)
    (keeps : node.KeepsDownload env content name after)
    (worked : node.jobManagerThread env server (some rsp) draws = some after) :
    (after.lacked content name).card < (node.lacked content name).card := by
  obtain ⟨torrent, found, _, downloads⟩ := downloading.stored
  obtain ⟨inside, unmarked⟩ := (mem_lacked found).mp lacks
  have count := length_chunks_of_hashes downloads.hashes
  have valid : torrent.validateChunk env rsp.data req.index.toUInt32 = true := by
    rw [← count] at inside
    refine validateChunk_iff.mpr ⟨_, List.getElem?_eq_getElem inside, ?_⟩
    have entry := congrArg (·[req.index.toUInt32.toNat]?) downloads.hashes
    rw [count] at inside
    simp only [List.getElem?_map, List.getElem?_range inside, Option.map_some,
      List.getElem?_eq_getElem (count.symm ▸ inside), Option.some.injEq] at entry
    rw [entry, answered]
  have stored := jobManagerThread_withChunk front own found worked
  rw [withChunk, if_pos valid] at stored
  apply Finset.card_lt_card
  refine (Finset.ssubset_iff_of_subset (keeps.lacked_subset downloading)).mpr
    ⟨_, lacks, fun still => ?_⟩
  rw [mem_lacked stored, marked_markExisting, unmarked, Bool.false_or, decide_eq_false_iff_not]
    at still
  exact still.2 ⟨rfl, count.symm ▸ inside⟩

/-- Behind a request for a chunk of a download in progress one for a chunk that lacks waits at
the end of the queue. -/
theorem Downloading.renews (downloading : node.Downloading env content name)
    (nonempty : 1 ≤ content.length) (bounded : content.length ≤ 2 ^ 32)
    (laid : node.LaidOut name (layoutOf content)) {server : Server} {transport : Option Message}
    {draws : Draws} {req : ChunkReq} {rest : List Packet} (running : node.jobManager = true)
    (front : node.jobs = .chunk req :: rest) (own : req.torrentName = name)
    (reached : node.InReach name draws) (keeps : node.KeepsDownload env content name after)
    (unfinished : after.lacked content name ≠ ∅)
    (worked : node.jobManagerThread env server transport draws = some after) :
    ∃ next, after.jobs = rest ++ [next] ∧
      asksAmong name (after.lacked content name) next = true := by
  have able := continuable_of_laidOut nonempty bounded laid
  have incomplete := (downloading.incomplete_iff nonempty).mpr (keeps.lacks downloading unfinished)
  subst own
  rcases jobManagerThread_chunk running front incomplete worked with
    ⟨_, finished⟩ | ⟨_, _, ⟨_, next, named, jobs⟩ | ⟨unreached, _⟩⟩
  · exact absurd ((keeps.downloading.incomplete_iff nonempty).mpr unfinished) finished
  · have asks : node.FrontAsks transport draws := by
      intro other behind same _
      rw [front] at same
      cases same
      exact ⟨fun _ => able.requestable incomplete, fun _ => able⟩
    obtain ⟨more, appended, wanted⟩ := jobManagerThread_appendsWanted asks worked
    rw [front, List.tail_cons, jobs] at appended
    have single := List.append_cancel_left appended
    refine ⟨_, jobs, (wanted next (single ▸ List.mem_singleton_self _)).asksAmong bounded
      (keeps.laidOut _ laid) named⟩
  · exact absurd reached unreached

end Node

namespace System

open Node Torrent

/-- The turns the job manager takes in a step. -/
def turn (_ : System) : Label → Nat
  | .jobManager .. => 1
  | _ => 0

/-- Of these, the requests for chunks that lack. -/
def lost (content name : Bytes) (system : System) : Label → Nat
  | .jobManager _ transport _ =>
      match system.node.jobs with
      | .chunk req :: _ =>
          if req.torrentName = name ∧ req.index.toUInt32.toNat ∈ system.node.lacked content name ∧
              transport.map (·.data) ≠ some (piece req.index.toUInt32.toNat content) then 1
          else 0
      | _ => 0
  | _ => 0

/-- The device drawn for the torrent is in reach whenever the job manager takes a turn. -/
def Reaches (name : Bytes) (system : System) : Label → Prop
  | .jobManager _ _ draws => system.node.InReach name draws
  | _ => True

/-- A download with the layout of its package, and a request queued while it is incomplete. -/
structure InProgress (env : Env) (content name : Bytes) (system : System) : Prop where
  downloading : system.node.Downloading env content name
  laidOut : system.node.LaidOut name (layoutOf content)
  queued : system.node.Incomplete name → Queued name system.node.jobs

variable {env : Env} {content name : Bytes} {system after : System} {label : Label} {limit : Nat}

/-- A device in reach is enough to go on. -/
theorem Reaches.continues (reaches : Reaches name system label) :
    Continues env name system label := by
  cases label with
  | jobManager => exact fun _ _ _ _ => .inr (.inl reaches)
  | statement | requestTorrentData | createTorrent | populateLocalTorrents | complete | serve |
    edit =>
      trivial

/-- A step that keeps a download keeps it in progress. -/
theorem Step.inProgress (step : Step env system label after)
    (progress : system.InProgress env content name) (nonempty : 1 ≤ content.length)
    (keeps : system.node.KeepsDownload env content name after.node)
    (reaches : Reaches name system label) : after.InProgress env content name := by
  refine ⟨keeps.downloading, keeps.laidOut _ progress.laidOut, fun unfinished => ?_⟩
  have incomplete : system.node.Incomplete name := by
    rw [progress.downloading.incomplete_iff nonempty]
    rw [keeps.downloading.incomplete_iff nonempty] at unfinished
    exact keeps.lacks progress.downloading unfinished
  exact step.queued incomplete (progress.queued incomplete) reaches.continues unfinished

/-- With no chunk more than before, a turn of the job manager brings the next chunk that lacks
nearer, unless it misses one. -/
theorem jobManager_pays {server : Server} {transport : Option Message} {draws : Draws}
    {node : Node} (progress : system.InProgress env content name) (nonempty : 1 ≤ content.length)
    (bounded : content.length ≤ 2 ^ 32) (running : system.node.jobManager = true)
    (worked : system.node.jobManagerThread env server transport draws = some node)
    (keeps : system.node.KeepsDownload env content name node)
    (reached : system.node.InReach name draws) (within : node.jobs.length ≤ limit)
    (waits : node.jobs.any (asksFor name) = true) (unfinished : node.lacked content name ≠ ∅)
    (same : node.lacked content name = system.node.lacked content name) :
    node.turnsLeft limit content name + 1 ≤ system.node.turnsLeft limit content name +
      2 * limit * lost content name system (.jobManager server transport draws) := by
  have incomplete := (progress.downloading.incomplete_iff nonempty).mpr (same ▸ unfinished)
  have before := queued_iff_any.mp (progress.queued incomplete)
  unfold turnsLeft
  rw [same]
  cases front : system.node.jobs with
  | nil =>
      rw [front] at before
      cases before
  | cons job rest =>
      rw [front] at before
      by_cases asks : asksFor name job = true
      · cases job with
        | list | file | avail => cases asks
        | chunk req =>
            have own : req.torrentName = name := beq_iff_eq.mp asks
            obtain ⟨next, jobs, wanted⟩ := progress.downloading.renews nonempty bounded
              progress.laidOut running front own reached keeps unfinished worked
            rw [jobs] at within waits ⊢
            by_cases useful : asksAmong name (system.node.lacked content name) (.chunk req) = true
            · have lacks : req.index.toUInt32.toNat ∈ system.node.lacked content name := by
                rw [asksAmong, Bool.and_eq_true, decide_eq_true_eq] at useful
                exact useful.2
              -- answered with its piece it would lack no longer
              have missed : transport.map (·.data) ≠
                  some (piece req.index.toUInt32.toNat content) := by
                intro answered
                rw [Option.map_eq_some_iff] at answered
                obtain ⟨rsp, rfl, answered⟩ := answered
                have fewer := progress.downloading.fewer_of_answered front own lacks answered
                  keeps worked
                rw [same] at fewer
                exact absurd fewer (Nat.lt_irrefl _)
              have once : lost content name system (.jobManager server transport draws) = 1 := by
                simp only [lost, front]
                exact if_pos ⟨own, lacks, missed⟩
              have rounds : Turns.turns limit (asksAmong name (system.node.lacked content name))
                  (asksFor name) (system.node.lacked content name).card (rest ++ [next]) <
                    2 * limit * ((system.node.lacked content name).card + 1) :=
                Turns.turns_lt within waits
              have units : 2 * limit * (system.node.lacked content name).card ≤
                  Turns.turns limit (asksAmong name (system.node.lacked content name))
                    (asksFor name) (system.node.lacked content name).card (.chunk req :: rest) :=
                Turns.units_le_turns _
              rw [Nat.mul_add_one] at rounds
              rw [once]
              omega
            · rw [same] at wanted
              have renewed : [next].any
                  (asksAmong name (system.node.lacked content name)) = true := by
                rw [List.any_cons, wanted, Bool.true_or]
              exact (Nat.succ_le_of_lt (Turns.turns_renew (Bool.eq_false_iff.mpr useful) within
                renewed)).trans (Nat.le_add_right _ _)
      · obtain ⟨more, jobs⟩ := jobManagerThread_jobs worked
        rw [front, List.tail_cons] at jobs
        rw [jobs] at within ⊢
        exact (Nat.succ_le_of_lt (Turns.turns_pass asksFor_of_asksAmong within before
          (Bool.eq_false_iff.mpr asks))).trans (Nat.le_add_right _ _)

/-- Every turn is paid for, until the download is complete. -/
theorem Step.pays (step : Step env system label after)
    (progress : system.InProgress env content name) (nonempty : 1 ≤ content.length)
    (bounded : content.length ≤ 2 ^ 32)
    (keeps : system.node.KeepsDownload env content name after.node)
    (reaches : Reaches name system label) (within : after.node.jobs.length ≤ limit)
    (unfinished : after.node.lacked content name ≠ ∅) :
    after.node.turnsLeft limit content name + turn system label ≤
      system.node.turnsLeft limit content name +
        2 * limit * lost content name system label := by
  have later := step.inProgress progress nonempty keeps reaches
  have waits := queued_iff_any.mp
    (later.queued ((later.downloading.incomplete_iff nonempty).mpr unfinished))
  have single : turn system label ≤ 1 := by
    cases label with
    | jobManager => exact Nat.le_refl 1
    | statement | requestTorrentData | createTorrent | populateLocalTorrents | complete | serve |
      edit =>
        exact Nat.zero_le 1
  rcases (keeps.lacked_subset progress.downloading).eq_or_ssubset with same | fewer
  · cases label with
    | jobManager server transport draws =>
        cases step with
        | jobManager running worked =>
            exact jobManager_pays progress nonempty bounded running worked keeps reaches within
              waits unfinished same
    | statement | requestTorrentData | createTorrent | populateLocalTorrents | complete | serve |
      edit =>
        obtain ⟨more, jobs⟩ := step.jobs fun _ _ _ => Label.noConfusion
        have incomplete := (progress.downloading.incomplete_iff nonempty).mpr (same ▸ unfinished)
        have before := queued_iff_any.mp (progress.queued incomplete)
        unfold turnsLeft
        rw [jobs] at within ⊢
        rw [same]
        exact (Turns.turns_append_le within before).trans (Nat.le_add_right _ _)
  · have lower : after.node.turnsLeft limit content name <
        system.node.turnsLeft limit content name :=
      Turns.turns_lt_of_lt within waits (Finset.card_lt_card fewer)
    omega

/-- With two rounds of turns for each chunk that lacks, and for each step's share of the requests
that are lost, the download is complete. -/
theorem InProgress.completes {env : Env} {content name : Bytes} {limit : Nat}
    {start final : System} {past : List (System × Label)}
    (progress : start.InProgress env content name) (nonempty : 1 ≤ content.length)
    (bounded : content.length ≤ 2 ^ 32)
    (run : Transition.Run (Step env) start past final)
    (spares : Transition.Meets (Spares env content name) past)
    (reaches : Transition.Meets (Reaches name) past)
    (short : Transition.Throughout (Step env) start past fun system =>
      system.node.jobs.length ≤ limit)
    {cost : System → Label → Nat}
    (costs : Transition.Meets (fun system label =>
      lost content name system label ≤ cost system label) past)
    (enough : 2 * limit * ((start.node.lacked content name).card + Transition.total cost past) ≤
      Transition.total turn past) :
    ∃ torrent, final.node.name2torrent[name]? = some torrent ∧ torrent.isComplete = true ∧
      final.node.files (packagePathOf env name) = some content := by
  have meets : Transition.Meets (fun system label =>
      (Spares env content name system label ∧ Reaches name system label) ∧
        lost content name system label ≤ cost system label) past :=
    fun record member => ⟨⟨spares record member, reaches record member⟩, costs record member⟩
  have keeps : ∀ source label target, source.InProgress env content name →
      (Spares env content name source label ∧ Reaches name source label) ∧
        lost content name source label ≤ cost source label →
      Step env source label target → source.node.KeepsDownload env content name target.node :=
    fun _ _ _ progress meets step =>
      step.keepsDownload progress.downloading nonempty bounded meets.1.1
  have preserved : ∀ source label target, source.InProgress env content name →
      (Spares env content name source label ∧ Reaches name source label) ∧
        lost content name source label ≤ cost source label →
      Step env source label target → target.InProgress env content name :=
    fun _ _ _ progress meets step =>
      step.inProgress progress nonempty (keeps _ _ _ progress meets step) meets.1.2
  obtain ⟨progressed, fewer⟩ : final.InProgress env content name ∧
      final.node.lacked content name ⊆ start.node.lacked content name :=
    run.invariant (fun system => system.InProgress env content name ∧
        system.node.lacked content name ⊆ start.node.lacked content name)
      (fun _ _ _ ⟨progress, fewer⟩ meets step => ⟨preserved _ _ _ progress meets step,
        ((keeps _ _ _ progress meets step).lacked_subset progress.downloading).trans fewer⟩)
      ⟨progress, subset_rfl⟩ meets
  have finished : final.node.lacked content name = ∅ := by
    by_contra unfinished
    have lacks : start.node.Incomplete name := by
      rw [progress.downloading.incomplete_iff nonempty]
      exact fun empty => unfinished (Finset.subset_empty.mp (empty ▸ fewer))
    have rounds : start.node.turnsLeft limit content name <
        2 * limit * ((start.node.lacked content name).card + 1) :=
      Turns.turns_lt (short [] start (List.nil_prefix) .nil)
        (queued_iff_any.mp (progress.queued lacks))
    have units : 2 * limit ≤ final.node.turnsLeft limit content name :=
      (Nat.le_mul_of_pos_right _ (Finset.card_pos.mpr
        (Finset.nonempty_iff_ne_empty.mpr unfinished))).trans (Turns.units_le_turns _)
    have paid := run.amortized (InProgress env content name)
      (fun system => system.node.jobs.length ≤ limit)
      (fun system => system.node.lacked content name = ∅)
      (fun system => system.node.turnsLeft limit content name) turn
      (fun system label => 2 * limit * cost system label) preserved
      (fun _ _ _ progress meets step empty => Finset.subset_empty.mp
        (empty ▸ (keeps _ _ _ progress meets step).lacked_subset progress.downloading))
      (fun _ _ _ progress meets step _ within unfinished =>
        (step.pays progress nonempty bounded (keeps _ _ _ progress meets step) meets.1.2 within
          unfinished).trans (Nat.add_le_add_left (Nat.mul_le_mul_left _ meets.2) _))
      progress meets short unfinished
    rw [Transition.total_mul] at paid
    rw [Nat.mul_add_one] at rounds
    rw [Nat.mul_add] at enough
    omega
  have downloading := progressed.downloading
  obtain ⟨torrent, found, _⟩ := downloading.stored
  have complete := (downloading.isComplete_iff nonempty found).mpr finished
  exact ⟨torrent, found, complete, downloading.file_of_isComplete found complete⟩

section LetterTurns

variable {json : JsonLib} {rsp : Message} {middle : Node}

end LetterTurns

end System

end Bp2p
