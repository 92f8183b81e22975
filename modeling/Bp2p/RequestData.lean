import Bp2p.NodeFrame
import Bp2p.SwapKeyVal

/-! # What `requestTorrentData` returns

The call as a whole, with its helpers and what they return. The requests it waits for meet
outcomes of a script, one after the other. Which requests it makes follows from the node and the
script: the devices nearby are asked for their lists if nothing is known of the torrent, then
the devices whose lists name it for their chunks, then one of them for its description.
If all of these answer (`Bp2p.Call.Obtains`), `requestChunk` appends a request and returns 0
(`Bp2p.Call.requestChunk_spec`); as a `bool` that is false. The call returns false whatever
happens (`Bp2p.Call.requestTorrentData_spec`), so its result is right exactly when the torrent is
not obtained or there is no job manager (`Bp2p.Call.requestTorrentData_result_iff`).
-/

namespace Bp2p

/-- What a request meets: the database, the transport, and the numbers drawn for it. -/
structure Outcome where
  server : Server
  transport : Option Message
  draws : Draws

/-- The node in the middle of a call, and what the next requests of the call will meet. -/
structure Call where
  node : Node
  pending : Nat → Outcome

namespace Call

/-- The rest of the script behind a request that leaves a node. -/
def answered (call : Call) (node : Node) : Call :=
  { node, pending := fun n => call.pending (n + 1) }

/-- `syncRequest` of the next request, and whether it returns 0. -/
def syncRequest (env : Env) (call : Call) (req : Packet) : Option (Call × Bool) :=
  (call.node.syncRequest env (call.pending 0).server req (call.pending 0).transport).map
    fun (node, succeeded) => (call.answered node, succeeded)

/-- `syncRequestNearbyTorrents` of one device; the `int` of `syncRequest` becomes a `bool`. -/
def syncRequestNearbyTorrents (env : Env) (call : Call) (dev : DeviceDescriptor) :
    Option (Call × Bool) := do
  match ← call.node.createNearbyTorrentsRequest dev (call.pending 0).draws with
  | none => some (call, true)
  | some req =>
      let (call, succeeded) ← call.syncRequest env (.list req)
      some (call, !succeeded)

/-- The loop of `syncRequestNearbyTorrents` over devices, which looks at no result. -/
def syncRequestNearbyTorrentsFrom (env : Env) : List DeviceDescriptor → Call → Option Call
  | [], call => some call
  | dev :: devs, call => do
      let (call, _) ← call.syncRequestNearbyTorrents env dev
      syncRequestNearbyTorrentsFrom env devs call

/-- `syncRequestAllNearbyTorrents`. -/
def syncRequestAllNearbyTorrents (env : Env) (call : Call) : Option Call :=
  syncRequestNearbyTorrentsFrom env call.node.remote2local.keys call

/-- `syncRequestTorrentAvail` of one device. -/
def syncRequestTorrentAvail (env : Env) (name : Bytes) (call : Call) (dev : DeviceDescriptor) :
    Option (Call × Bool) := do
  match ← call.node.createTorrentAvailRequest name dev (call.pending 0).draws with
  | none => some (call, false)
  | some req => call.syncRequest env (.avail req)

/-- The loop of `syncRequestTorrentAvail` over devices; behind a failure nothing is asked. -/
def syncRequestTorrentAvailFrom (env : Env) (name : Bytes) :
    List DeviceDescriptor → Bool → Call → Option (Call × Bool)
  | [], status, call => some (call, status)
  | _ :: devs, false, call => syncRequestTorrentAvailFrom env name devs false call
  | dev :: devs, true, call => do
      let (call, status) ← call.syncRequestTorrentAvail env name dev
      syncRequestTorrentAvailFrom env name devs status call

/-- `syncRequestAllTorrentAvail`. -/
def syncRequestAllTorrentAvail (env : Env) (call : Call) (name : Bytes) : Option (Call × Bool) :=
  match call.node.torName2dev[name]? with
  | none => some (call, false)
  | some devs => syncRequestTorrentAvailFrom env name devs true call

/-- `syncRequestTorrentFile`. -/
def syncRequestTorrentFile (env : Env) (call : Call) (name : Bytes) : Option (Call × Bool) := do
  match ← call.node.requestFromAny name (call.pending 0).draws fun dev =>
      call.node.createTorrentFileRequest name dev (call.pending 0).draws with
  | none => some (call, false)
  | some req => call.syncRequest env (.file req)

/-- `requestTorrentFileIfMissing`. -/
def requestTorrentFileIfMissing (env : Env) (call : Call) (name : Bytes) :
    Option (Call × Bool) :=
  if call.node.name2torrent.contains name then some (call, true)
  else call.syncRequestTorrentFile env name

/-- `requestChunk(name)` with the `int` it returns. -/
def requestChunk (call : Call) (name : Bytes) : Option (Call × Int32) := do
  let (node, req) ← call.node.createMissingChunkRequest name (call.pending 0).draws
  some (call.answered (node.insertCreated .chunk req), if req.isSome then 0 else -1)

/-- The devices nearby are asked if nothing is known of the torrent, and `torName2dev` is
built anew. -/
def refreshDevices (env : Env) (call : Call) (name : Bytes) : Option Call := do
  let call ←
    if call.node.dev2tor.isEmpty || !call.node.torName2dev.contains name then
      call.syncRequestAllNearbyTorrents env
    else some call
  let torName2dev := Utils.swapKeyVal {} call.node.dev2tor
  some { call with node := { call.node with torName2dev } }

/-- `requestTorrentData`; the `int` of `requestChunk` becomes a `bool`. -/
def requestTorrentData (env : Env) (call : Call) (name : Bytes) : Option (Call × Bool) := do
  let call ← call.refreshDevices env name
  let (call, available) ← call.syncRequestAllTorrentAvail env name
  if available then
    let (call, present) ← call.requestTorrentFileIfMissing env name
    if present then
      -- the `int` of `requestChunk` becomes a `bool`
      let (call, status) ← call.requestChunk name
      some (call, status != 0)
    else some (call, false)
  else some (call, false)

/-- The devices that are asked for their lists: all in reach, if nothing is known of the
torrent. -/
def inquired (call : Call) (name : Bytes) : List DeviceDescriptor :=
  if call.node.dev2tor.isEmpty || !call.node.torName2dev.contains name then
    call.node.remote2local.keys
  else []

/-- The lists that are known when the devices have been asked for theirs, each meeting the next
outcome. Who does not answer keeps the list that is known of it. -/
def hear : List DeviceDescriptor → (Nat → Outcome) → Std.TreeMap DeviceDescriptor (List Bytes) →
    Std.TreeMap DeviceDescriptor (List Bytes)
  | [], _, lists => lists
  | dev :: devs, pending, lists =>
      hear devs (fun n => pending (n + 1)) <|
        match (pending 0).transport with
        | none => lists
        | some rsp => lists.insert dev (TorrentListReq.parseTorrentList rsp.data)

/-- The lists the call goes by. -/
def lists (call : Call) (name : Bytes) : Std.TreeMap DeviceDescriptor (List Bytes) :=
  hear (call.inquired name) call.pending call.node.dev2tor

/-- The devices whose lists name the torrent, each as often as its list does. -/
def offering (call : Call) (name : Bytes) : List DeviceDescriptor :=
  (call.lists name).keys.flatMap fun dev =>
    List.replicate (((call.lists name).getD dev []).count name) dev

/-- The n-th request of the call is answered. -/
def Answers (call : Call) (n : Nat) : Prop := (call.pending n).transport.isSome = true

/-- Who is asked for the torrent answers: some device offers it, all devices that do are in
reach and answer, and its description is there or arrives. -/
structure Obtains (call : Call) (name : Bytes) : Prop where
  offered : call.offering name ≠ []
  reached : ∀ dev ∈ call.offering name, call.node.remote2local.contains dev = true
  available : ∀ k < (call.offering name).length, call.Answers ((call.inquired name).length + k)
  described : call.node.name2torrent.contains name = true ∨
    call.Answers ((call.inquired name).length + (call.offering name).length)

section

variable {env : Env} {call after : Call} {name : Bytes} {dev : DeviceDescriptor} {result : Bool}

/-- A synchronous request of a call is one of its node. -/
theorem syncRequest_node {req : Packet}
    (executed : call.syncRequest env req = some (after, result)) :
    call.node.syncRequest env (call.pending 0).server req (call.pending 0).transport =
      some (after.node, result) := by
  simp only [syncRequest, Option.map_eq_some_iff, Prod.mk.injEq, Prod.exists] at executed
  obtain ⟨node, succeeded, synchronized, rfl, rfl⟩ := executed
  exact synchronized

/-- A request takes one outcome of the script. -/
theorem syncRequest_pending {req : Packet}
    (executed : call.syncRequest env req = some (after, result)) (n : Nat) :
    after.pending n = call.pending (n + 1) := by
  simp only [syncRequest, Option.map_eq_some_iff, Prod.mk.injEq, Prod.exists] at executed
  obtain ⟨node, succeeded, _, rfl, _⟩ := executed
  rfl

theorem syncRequest_keepsQueue {req : Packet}
    (executed : call.syncRequest env req = some (after, result)) :
    call.node.KeepsQueue after.node :=
  Node.syncRequest_keepsQueue (syncRequest_node executed)

/-- A device out of reach is not asked for its list. -/
theorem syncRequestNearbyTorrents_cases
    (executed : call.syncRequestNearbyTorrents env dev = some (after, result)) :
    (call.node.remote2local.contains dev = false ∧ after = call) ∨ ∃ req succeeded,
      call.node.createNearbyTorrentsRequest dev (call.pending 0).draws = some (some req) ∧
      req.remoteAddr = dev ∧ call.syncRequest env (.list req) = some (after, succeeded) := by
  simp only [syncRequestNearbyTorrents, bind, Option.bind_eq_some_iff] at executed
  obtain ⟨req, created, executed⟩ := executed
  rcases Node.requestThrough_made created with ⟨_, localAddr, rfl⟩ | ⟨unreached, rfl⟩
  · simp only [Option.bind_eq_some_iff, Option.some.injEq, Prod.mk.injEq,
      Prod.exists] at executed
    obtain ⟨left, succeeded, synchronized, rfl, _⟩ := executed
    exact .inr ⟨_, succeeded, created, rfl, synchronized⟩
  · cases executed
    exact .inl ⟨unreached, rfl⟩

/-- A device in reach is asked for its list, which replaces the one that is known if it
answers. -/
theorem syncRequestNearbyTorrents_hears (reached : call.node.remote2local.contains dev = true)
    (executed : call.syncRequestNearbyTorrents env dev = some (after, result)) :
    after = call.answered
      { call.node with dev2tor := hear [dev] call.pending call.node.dev2tor } := by
  rcases syncRequestNearbyTorrents_cases executed with
    ⟨unreached, _⟩ | ⟨req, succeeded, _, rfl, synchronized⟩
  · rw [reached] at unreached
    cases unreached
  · rw [hear, hear]
    simp only [syncRequest, Node.syncRequest] at synchronized
    cases transport : (call.pending 0).transport with
    | none =>
        simp only [transport] at synchronized
        cases synchronized
        rfl
    | some rsp =>
        simp only [transport] at synchronized
        cases synchronized
        rfl

/-- The loop goes by the lists that are heard, and takes one outcome for each device. -/
theorem syncRequestNearbyTorrentsFrom_hears {devs : List DeviceDescriptor}
    (reached : ∀ dev ∈ devs, call.node.remote2local.contains dev = true)
    (executed : syncRequestNearbyTorrentsFrom env devs call = some after) :
    after.node = { call.node with dev2tor := hear devs call.pending call.node.dev2tor } ∧
      ∀ n, after.pending n = call.pending (devs.length + n) := by
  induction devs generalizing call with
  | nil =>
      cases executed
      exact ⟨rfl, fun n => by rw [List.length_nil, Nat.zero_add]⟩
  | cons dev devs ih =>
      simp only [syncRequestNearbyTorrentsFrom, bind, Option.bind_eq_some_iff,
        Prod.exists] at executed
      obtain ⟨middle, result, first, executed⟩ := executed
      obtain ⟨firstReached, reached⟩ := List.forall_mem_cons.mp reached
      have heard := syncRequestNearbyTorrents_hears firstReached first
      have kept : middle.node.remote2local = call.node.remote2local := by
        rw [heard]
        rfl
      obtain ⟨left, rest⟩ := ih (kept ▸ reached) executed
      rw [heard] at left rest
      refine ⟨left, fun n => (rest n).trans ?_⟩
      rw [List.length_cons, Nat.add_right_comm]
      rfl

/-- Behind the inquiry `torName2dev` is the converse of the lists that are known. -/
theorem refreshDevices_spec (executed : call.refreshDevices env name = some after) :
    after.node = { call.node with
        dev2tor := call.lists name
        torName2dev := Utils.swapKeyVal {} (call.lists name) } ∧
      ∀ n, after.pending n = call.pending ((call.inquired name).length + n) := by
  unfold lists inquired
  simp only [refreshDevices, bind] at executed
  split at executed
  · next unknown =>
      simp only [Option.bind_eq_some_iff, Option.some.injEq] at executed
      obtain ⟨listed, executed, rfl⟩ := executed
      have reached : ∀ dev ∈ call.node.remote2local.keys,
          call.node.remote2local.contains dev = true := fun dev member =>
        Std.TreeMap.contains_keys.symm.trans (List.contains_iff_mem.mpr member)
      obtain ⟨left, rest⟩ := syncRequestNearbyTorrentsFrom_hears reached executed
      rw [if_pos unknown]
      exact ⟨by rw [left], rest⟩
  · next known =>
      cases executed
      rw [if_neg known]
      exact ⟨rfl, fun n => by rw [List.length_nil, Nat.zero_add]⟩

/-- What the call leaves behind requests that change no torrent: the queue and the torrents as
they were, and the rest of the script. -/
structure Asked (call after : Call) (count : Nat) : Prop where
  queue : call.node.KeepsQueue after.node
  torrents : after.node.name2torrent = call.node.name2torrent
  pending : ∀ n, after.pending n = call.pending (count + n)

/-- A device is asked for its chunks, and answers, exactly when it is in reach and the next
outcome is an answer. -/
theorem syncRequestTorrentAvail_iff
    (executed : syncRequestTorrentAvail env name call dev = some (after, result)) :
    (result = true ↔ call.node.remote2local.contains dev = true ∧ call.Answers 0) ∧
      (result = true → Asked call after 1) := by
  simp only [syncRequestTorrentAvail, bind, Option.bind_eq_some_iff] at executed
  obtain ⟨req, created, executed⟩ := executed
  rcases Node.requestThrough_made created with ⟨reached, localAddr, rfl⟩ | ⟨unreached, rfl⟩
  · obtain ⟨answers, kept⟩ := Node.syncRequest_avail (syncRequest_node executed)
    refine ⟨answers.trans (and_iff_right reached).symm, fun _ => ⟨?_, kept, fun n => ?_⟩⟩
    · exact syncRequest_keepsQueue executed
    · rw [syncRequest_pending executed, Nat.add_comm]
  · cases executed
    rw [unreached]
    exact ⟨iff_of_false Bool.false_ne_true fun both => Bool.false_ne_true both.1,
      fun answers => absurd answers Bool.false_ne_true⟩

/-- Asking a device for availability keeps the queue. -/
theorem syncRequestTorrentAvail_keepsQueue
    (executed : syncRequestTorrentAvail env name call dev = some (after, result)) :
    call.node.KeepsQueue after.node := by
  simp only [syncRequestTorrentAvail, bind, Option.bind_eq_some_iff] at executed
  obtain ⟨req, _, executed⟩ := executed
  cases req with
  | none =>
      cases executed
      exact .refl _
  | some req => exact syncRequest_keepsQueue executed

/-- Asking devices for availability keeps the queue. -/
theorem syncRequestTorrentAvailFrom_keepsQueue {devs : List DeviceDescriptor} {status : Bool}
    (executed : syncRequestTorrentAvailFrom env name devs status call = some (after, result)) :
    call.node.KeepsQueue after.node := by
  induction devs generalizing call status with
  | nil =>
      cases executed
      exact .refl _
  | cons dev devs ih =>
      cases status with
      | false => exact ih executed
      | true =>
          simp only [syncRequestTorrentAvailFrom, bind, Option.bind_eq_some_iff,
            Prod.exists] at executed
          obtain ⟨middle, status, first, executed⟩ := executed
          exact (syncRequestTorrentAvail_keepsQueue first).trans (ih executed)

/-- The loop ends with success exactly when all devices are in reach and all answer. -/
theorem syncRequestTorrentAvailFrom_iff {devs : List DeviceDescriptor} {status : Bool}
    (executed : syncRequestTorrentAvailFrom env name devs status call = some (after, result)) :
    (result = true ↔ status = true ∧
        (∀ dev ∈ devs, call.node.remote2local.contains dev = true) ∧
        ∀ k < devs.length, call.Answers k) ∧
      (result = true → Asked call after devs.length) := by
  induction devs generalizing call status with
  | nil =>
      cases executed
      refine ⟨⟨fun succeeds => ⟨succeeds, ?_, ?_⟩, And.left⟩, fun _ => ⟨.refl _, rfl, ?_⟩⟩
      · exact fun _ member => absurd member List.not_mem_nil
      · exact fun k below => absurd below (Nat.not_lt_zero k)
      · exact fun n => by rw [List.length_nil, Nat.zero_add]
  | cons dev devs ih =>
      cases status with
      | false =>
          obtain ⟨succeeds, _⟩ := ih executed
          have failed : ¬ result = true := fun answers => Bool.false_ne_true
            (succeeds.mp answers).1
          exact ⟨iff_of_false failed fun all => Bool.false_ne_true all.1,
            fun answers => absurd answers failed⟩
      | true =>
          simp only [syncRequestTorrentAvailFrom, bind, Option.bind_eq_some_iff,
            Prod.exists] at executed
          obtain ⟨middle, status, first, executed⟩ := executed
          obtain ⟨answers, passed⟩ := syncRequestTorrentAvail_iff first
          obtain ⟨succeeds, asked⟩ := ih executed
          rw [List.forall_mem_cons, List.length_cons, Nat.forall_lt_succ_left]
          cases status with
          | false =>
              have failed : ¬ result = true := fun all => Bool.false_ne_true (succeeds.mp all).1
              refine ⟨iff_of_false failed fun all => Bool.false_ne_true (answers.mpr ?_),
                fun all => absurd all failed⟩
              exact ⟨all.2.1.1, all.2.2.1⟩
          | true =>
              obtain ⟨queue, torrents, pending⟩ := passed rfl
              obtain ⟨reached, answered⟩ := answers.mp rfl
              have later : ∀ k, middle.Answers k ↔ call.Answers (k + 1) := fun k => by
                rw [Answers, pending, Nat.add_comm]
                rfl
              simp only [queue.remote2local, later, true_and] at succeeds
              refine ⟨succeeds.trans ?_, fun all => ?_⟩
              · simp only [reached, answered, true_and]
              · obtain ⟨restQueue, restTorrents, restPending⟩ := asked all
                refine ⟨queue.trans restQueue, restTorrents.trans torrents, fun n => ?_⟩
                rw [restPending, pending, ← Nat.add_assoc, Nat.add_comm 1]

/-- The converse of the lists has the devices that offer the torrent, if there are any. -/
theorem getElem?_swapKeyVal_empty (call : Call) (name : Bytes) :
    (Utils.swapKeyVal {} (call.lists name))[name]? =
      if call.offering name = [] then none else some (call.offering name) := by
  have converse : (Utils.swapKeyVal {} (call.lists name)).getD name [] = call.offering name := by
    rw [Utils.swapKeyVal_eq, Utils.getD_swapEntries, Utils.keysOf_toList,
      Std.TreeMap.getD_emptyc, List.nil_append]
    unfold offering
    -- the two counts compare names by different, equal instances
    congr! 4
    exact lawful_beq_subsingleton _ _
  have filled : Utils.Filled (Utils.swapKeyVal {} (call.lists name)) :=
    Utils.swapKeyVal_eq {} (call.lists name) ▸ Utils.filled_empty.swapEntries _
  rw [← converse]
  split
  · next empty => exact (filled.getD_eq_nil_iff name).mp empty
  · next present =>
      rw [Std.TreeMap.getD_eq_getD_getElem?] at present ⊢
      cases found : (Utils.swapKeyVal {} (call.lists name))[name]? with
      | none =>
          rw [found] at present
          exact absurd rfl present
      | some devs => rfl

end

/-- All devices that offer the torrent are known, and in reach. -/
def OffersInReach (node : Node) (name : Bytes) : Prop :=
  ∃ devs, node.torName2dev[name]? = some devs ∧
    ∀ dev ∈ devs, node.remote2local.contains dev = true

theorem OffersInReach.of_keepsQueue {node after : Node} {name : Bytes}
    (offers : OffersInReach node name) (keeps : node.KeepsQueue after) :
    OffersInReach after name := by
  unfold OffersInReach at *
  rwa [keeps.torName2dev, keeps.remote2local]

/-- A request to one of the devices that offer a torrent goes to one of them. -/
theorem requestFromAny_drawn {α : Type} {node : Node} {name : Bytes} {draws : Draws}
    {devs : List DeviceDescriptor} {create : DeviceDescriptor → Option (Option α)}
    {req : Option α} (found : node.torName2dev[name]? = some devs)
    (created : node.requestFromAny name draws create = some req) :
    ∃ dev ∈ devs, create dev = some req := by
  simp only [Node.requestFromAny, found, bind, Option.bind_eq_some_iff] at created
  obtain ⟨dev, drawn, created⟩ := created
  exact ⟨dev, List.mem_of_getElem? drawn, created⟩

/-- Asking for a missing description keeps the queue. -/
theorem requestTorrentFileIfMissing_keepsQueue {env : Env} {call after : Call} {name : Bytes}
    {result : Bool} (executed : call.requestTorrentFileIfMissing env name = some (after, result)) :
    call.node.KeepsQueue after.node := by
  unfold requestTorrentFileIfMissing at executed
  split at executed
  · cases executed
    exact .refl _
  · simp only [syncRequestTorrentFile, bind, Option.bind_eq_some_iff] at executed
    obtain ⟨req, _, executed⟩ := executed
    cases req with
    | none =>
        cases executed
        exact .refl _
    | some req => exact syncRequest_keepsQueue executed

/-- With all devices that offer the torrent in reach, its description is there, or is asked for
and there is an answer. -/
theorem requestTorrentFileIfMissing_iff {env : Env} {call after : Call} {name : Bytes}
    {result : Bool} (offers : OffersInReach call.node name)
    (executed : call.requestTorrentFileIfMissing env name = some (after, result)) :
    result = true ↔ call.node.name2torrent.contains name = true ∨ call.Answers 0 := by
  unfold requestTorrentFileIfMissing at executed
  split at executed
  · next there =>
      cases executed
      exact iff_of_true rfl (.inl there)
  · next missing =>
      rw [or_iff_right missing]
      simp only [syncRequestTorrentFile, bind, Option.bind_eq_some_iff] at executed
      obtain ⟨req, created, executed⟩ := executed
      obtain ⟨devs, found, reached⟩ := offers
      obtain ⟨dev, member, created⟩ := requestFromAny_drawn found created
      rcases Node.requestThrough_made created with ⟨_, localAddr, rfl⟩ | ⟨unreached, _⟩
      · exact Node.syncRequest_succeeds_iff (syncRequest_node executed)
      · rw [reached dev member] at unreached
        cases unreached

/-- With all devices that offer the torrent in reach, `requestChunk` returns 0 and inserts a
request for it. -/
theorem requestChunk_spec {call after : Call} {name : Bytes} {status : Int32}
    (offers : OffersInReach call.node name)
    (executed : call.requestChunk name = some (after, status)) :
    status = 0 ∧ ∃ req : ChunkReq, req.torrentName = name ∧ after.node.jobs =
      if call.node.jobManager then call.node.jobs ++ [.chunk req] else call.node.jobs := by
  simp only [requestChunk, bind, Option.bind_eq_some_iff, Option.some.injEq, Prod.mk.injEq,
    Prod.exists] at executed
  obtain ⟨read, made, created, rfl, rfl⟩ := executed
  have keeps := (Node.createMissingChunkRequest_destroysCopy created).onlyTables.keepsQueue
  obtain ⟨devs, found, reached⟩ := offers
  simp only [Node.createMissingChunkRequest, bind, Option.bind_eq_some_iff, Option.some.injEq,
    Prod.mk.injEq, Prod.exists] at created
  obtain ⟨looked, index, missing, req, created, rfl, rfl⟩ := created
  rw [← keeps.torName2dev] at found
  obtain ⟨dev, member, created⟩ := requestFromAny_drawn found created
  rcases Node.requestThrough_made created with ⟨_, localAddr, rfl⟩ | ⟨unreached, _⟩
  · refine ⟨rfl, { remoteAddr := dev, localAddr, torrentName := name, index }, rfl, ?_⟩
    rw [← keeps.jobs, ← keeps.jobManager]
    exact apply_ite Node.jobs _ _ _
  · rw [keeps.remote2local, reached dev member] at unreached
    cases unreached

/-- The call has appended a request for a chunk of the torrent. -/
def Appends (call after : Call) (name : Bytes) : Prop :=
  ∃ more, after.node.jobs = call.node.jobs ++ more ∧
    ∃ req : ChunkReq, req.torrentName = name ∧ Packet.chunk req ∈ more

/-- A queue that is the same has no request more. -/
theorem not_appends {call after : Call} {name : Bytes}
    (same : after.node.jobs = call.node.jobs) : ¬ Appends call after name := by
  rintro ⟨more, appended, req, _, member⟩
  rw [same, List.self_eq_append_right] at appended
  rw [appended] at member
  cases member

/-- All devices that offer the torrent are asked for their chunks exactly when there are such
devices, they are in reach, and all of them answer. -/
theorem syncRequestAllTorrentAvail_iff {env : Env} {call refreshed after : Call} {name : Bytes}
    {result : Bool} (refresh : call.refreshDevices env name = some refreshed)
    (executed : refreshed.syncRequestAllTorrentAvail env name = some (after, result)) :
    refreshed.node.KeepsQueue after.node ∧
      (result = true ↔ call.offering name ≠ [] ∧
        (∀ dev ∈ call.offering name, call.node.remote2local.contains dev = true) ∧
        ∀ k < (call.offering name).length, call.Answers ((call.inquired name).length + k)) ∧
      (result = true → OffersInReach refreshed.node name ∧
        Asked refreshed after (call.offering name).length) := by
  obtain ⟨left, pending⟩ := refreshDevices_spec refresh
  have answers : ∀ k, refreshed.Answers k ↔ call.Answers ((call.inquired name).length + k) :=
    fun k => by rw [Answers, pending, Answers]
  have found : refreshed.node.torName2dev[name]? =
      if call.offering name = [] then none else some (call.offering name) := by
    rw [left]
    exact getElem?_swapKeyVal_empty call name
  have kept : refreshed.node.remote2local = call.node.remote2local := by rw [left]
  by_cases unknown : call.offering name = []
  · rw [if_pos unknown] at found
    simp only [syncRequestAllTorrentAvail, found] at executed
    cases executed
    exact ⟨.refl _, iff_of_false Bool.false_ne_true fun all => all.1 unknown,
      fun succeeds => absurd succeeds Bool.false_ne_true⟩
  · rw [if_neg unknown] at found
    simp only [syncRequestAllTorrentAvail, found] at executed
    obtain ⟨succeeds, asked⟩ := syncRequestTorrentAvailFrom_iff executed
    simp only [kept, answers, true_and] at succeeds
    refine ⟨syncRequestTorrentAvailFrom_keepsQueue executed,
      succeeds.trans (and_iff_right unknown).symm, fun all => ⟨⟨_, found, ?_⟩, asked all⟩⟩
    rw [kept]
    exact (succeeds.mp all).1

/-- Where the torrent is not obtained, the queue stays as it is; where it is, a request is
appended if there is a job manager. The call returns false in either case. -/
theorem requestTorrentData_spec {env : Env} {call after : Call} {name : Bytes} {status : Bool}
    (executed : call.requestTorrentData env name = some (after, status)) :
    status = false ∧ (Appends call after name ↔
      call.node.jobManager = true ∧ call.Obtains name) := by
  simp only [requestTorrentData, bind, Option.bind_eq_some_iff, Prod.exists] at executed
  obtain ⟨refreshed, refresh, asked, available, asks, executed⟩ := executed
  obtain ⟨left, pending⟩ := refreshDevices_spec refresh
  obtain ⟨askedQueue, succeeds, goesOn⟩ := syncRequestAllTorrentAvail_iff refresh asks
  have refreshedJobs : refreshed.node.jobs = call.node.jobs := by rw [left]
  have askedJobs := askedQueue.jobs.trans refreshedJobs
  cases available with
  | false =>
      cases executed
      refine ⟨rfl, iff_of_false (not_appends askedJobs) ?_⟩
      rintro ⟨_, offered, reached, answered, _⟩
      exact Bool.false_ne_true (succeeds.mpr ⟨offered, reached, answered⟩)
  | true =>
      obtain ⟨offered, reached, answered⟩ := succeeds.mp rfl
      obtain ⟨offers, _, torrents, rest⟩ := goesOn rfl
      simp only [↓reduceIte, Option.bind_eq_some_iff, Prod.exists] at executed
      obtain ⟨found, present, finds, executed⟩ := executed
      have foundQueue := requestTorrentFileIfMissing_keepsQueue finds
      -- the request for the description is behind the inquiry and the availability requests
      have described : present = true ↔ call.node.name2torrent.contains name = true ∨
          call.Answers ((call.inquired name).length + (call.offering name).length) := by
        rw [requestTorrentFileIfMissing_iff (offers.of_keepsQueue askedQueue) finds, torrents,
          Answers, rest, pending, left, Answers, Nat.add_zero]
      cases present with
      | false =>
          cases executed
          refine ⟨rfl, iff_of_false (not_appends (foundQueue.jobs.trans askedJobs)) ?_⟩
          rintro ⟨_, obtains⟩
          exact Bool.false_ne_true (described.mpr obtains.described)
      | true =>
          simp only [↓reduceIte, Option.bind_eq_some_iff, Option.some.injEq, Prod.mk.injEq,
            Prod.exists] at executed
          obtain ⟨last, code, requests, rfl, rfl⟩ := executed
          obtain ⟨rfl, req, named, inserted⟩ := requestChunk_spec
            (offers.of_keepsQueue (askedQueue.trans foundQueue)) requests
          rw [foundQueue.jobManager, askedQueue.jobManager, left, foundQueue.jobs,
            askedJobs] at inserted
          refine ⟨rfl, ?_⟩
          cases managed : call.node.jobManager with
          | false =>
              simp only [managed, Bool.false_eq_true, ↓reduceIte] at inserted
              exact iff_of_false (not_appends inserted) fun both => Bool.noConfusion both.1
          | true =>
              simp only [managed, ↓reduceIte] at inserted
              exact iff_of_true ⟨_, inserted, req, named, List.mem_singleton_self _⟩
                ⟨rfl, offered, reached, answered, described.mp rfl⟩

/-- **The result of `requestTorrentData`.** It is true exactly when a request for a chunk was
appended, if and only if there is no job manager or the torrent is not obtained: no device
offers it, one that does is out of reach or does not answer, or its description is missing
and does not arrive. -/
theorem requestTorrentData_result_iff {env : Env} {call after : Call} {name : Bytes}
    {status : Bool} (executed : call.requestTorrentData env name = some (after, status)) :
    (status = true ↔ Appends call after name) ↔
      ¬ (call.node.jobManager = true ∧ call.Obtains name) := by
  obtain ⟨rfl, appends⟩ := requestTorrentData_spec executed
  simp only [Bool.false_eq_true, false_iff, appends]

/-- A call on a node that knows the torrent `a` and a peer that offers it; every request is
answered with the index 0. -/
def offered : Call where
  node := { System.inReachOfPeer with
    name2torrent := .ofList [([97], { name := [97], chunks := [{}] })] compare }
  pending := fun _ => ⟨⟨.insertion, fun _ => false⟩, some { data := [48], size := 1 },
    { missing := [0] }⟩

/-- The answer `0` is the index 0. -/
theorem syncRequest_zero (env : Env) (server : Server) (node : Node) {req : TorrentAvailReq}
    (new : req.torrentAvail = []) :
    node.syncRequest env server (.avail req) (some ⟨[48], 1⟩) =
      some (node.completeTorrentAvailReq
        { req.createRequest with rsp := ⟨[48], 1⟩, torrentAvail := [0] }, true) := by
  have token : Utils.tokenize [48] RRPacket.commSeparator [] = [[48]] :=
    Utils.tokenize_of_find_none (by decide)
  have number : TorrentAvailReq.parseAvail [[48]] [] = .ok [0] := rfl
  simp only [Node.syncRequest, Packet.createRequest, Packet.processResponse,
    TorrentAvailReq.processResponse, TorrentAvailReq.createRequest, token, new, number, Except.map]
  rfl

/-- The call with `torName2dev` built anew. -/
def refreshed : Call :=
  { offered with
    node := { offered.node with torName2dev := Utils.swapKeyVal {} offered.node.dev2tor } }

/-- The call behind the answer of the peer. -/
def asked : Call :=
  refreshed.answered (refreshed.node.completeTorrentAvailReq
    { (({} : TorrentAvailReq).create [97] System.peer System.adapter).createRequest with
      rsp := ⟨[48], 1⟩
      torrentAvail := [0] })

/-- The peer is asked for its chunks of `a`. -/
theorem refreshed_asks :
    refreshed.syncRequestAllTorrentAvail (.byLength .null) [97] = some (asked, true) := by
  have offers : refreshed.node.torName2dev[([97] : Bytes)]? = some [System.peer] := rfl
  have created : refreshed.node.createTorrentAvailRequest [97] System.peer
      (refreshed.pending 0).draws =
        some (some (({} : TorrentAvailReq).create [97] System.peer System.adapter)) := rfl
  have answers : refreshed.syncRequest (.byLength .null)
      (.avail (({} : TorrentAvailReq).create [97] System.peer System.adapter)) =
        some (asked, true) :=
    congrArg (Option.map _) (syncRequest_zero (.byLength .null) (refreshed.pending 0).server
      refreshed.node rfl)
  simp only [syncRequestAllTorrentAvail, offers, syncRequestTorrentAvailFrom,
    syncRequestTorrentAvail, created, answers, bind, Option.bind_some]

/-- The torrent `a` is offered, and is obtained. -/
theorem offered_obtains : offered.Obtains [97] where
  offered := List.cons_ne_nil System.peer []
  reached := fun dev member => by
    obtain rfl := List.mem_singleton.mp (show dev ∈ [System.peer] from member)
    rfl
  available := fun _ _ => rfl
  described := .inl rfl

/-- The call for `a` returns false. -/
theorem offered_returns : ∃ after,
    offered.requestTorrentData (.byLength .null) [97] = some (after, false) := by
  have requested : ∃ after, asked.requestChunk [97] = some (after, 0) := ⟨_, rfl⟩
  obtain ⟨after, requests⟩ := requested
  refine ⟨after, ?_⟩
  have refresh : offered.refreshDevices (.byLength .null) [97] = some refreshed := rfl
  have finds : asked.requestTorrentFileIfMissing (.byLength .null) [97] = some (asked, true) := rfl
  simp only [requestTorrentData, refresh, refreshed_asks, finds, requests, bind, Option.bind_some,
    ↓reduceIte]
  rfl

/-- The torrent `a`, offered by one peer: its chunk is requested, and the call returns false. -/
theorem requestTorrentData_result_iff_offered :
    ∃ after, offered.requestTorrentData (.byLength .null) [97] = some (after, false) ∧
      ((false = true ↔ Appends offered after [97]) ↔
        ¬ (offered.node.jobManager = true ∧ offered.Obtains [97])) := by
  obtain ⟨after, executed⟩ := offered_returns
  exact ⟨after, executed, requestTorrentData_result_iff executed⟩

/-- The call appends a request and returns false. -/
theorem requestTorrentData_result_fails :
    ¬ ∀ (env : Env) (call after : Call) (name : Bytes) (status : Bool),
      call.requestTorrentData env name = some (after, status) →
        (status = true ↔ Appends call after name) := by
  intro claim
  obtain ⟨after, executed⟩ := offered_returns
  have appends := (requestTorrentData_spec executed).2.mpr ⟨rfl, offered_obtains⟩
  exact absurd ((claim _ _ _ _ _ executed).mpr appends) Bool.false_ne_true

end Call

end Bp2p
