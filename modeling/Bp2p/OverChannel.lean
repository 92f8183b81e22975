import Bp2p.RequestFormat
import Bp2p.ServeRequest

/-! # A request over a channel

A request of one node, from the sockets of its client to the request that is completed. What the
calls return and what comes over the channel is arbitrary. A request changes nothing, or it is
completed with a front part of what came; when no call fails and a response comes in whole
pieces that fit, it is completed with that response (`Bp2p.Node.request_over_channel`). The
server thread of a peer sends nothing, so a request to one is completed with an empty response
at best (`Bp2p.Node.request_unanswered`).
-/

namespace Bp2p

open BTChannel Stateful

namespace BTChannel

/-- The bytes that came over the channel. -/
def received : List ReadResult → Bytes
  | [] => []
  | .received piece :: rest => piece.val ++ received rest
  | .failed _ :: rest => received rest

/-- The loop collects a front part of what came, and counts it. -/
theorem readLoop_front {errno : Int} {results : List ReadResult} {data collected : Bytes}
    {totalSize total : Int32} {failure : Option Errno}
    (loop : readLoop errno data totalSize results = some (collected, total, failure)) :
    ∃ part, part <+: received results ∧ collected = data ++ part ∧
      total = totalSize + Int32.ofNat part.length := by
  induction results generalizing data totalSize with
  | nil => cases loop
  | cons result rest ih =>
      cases result with
      | failed error =>
          cases loop
          exact ⟨[], List.nil_prefix, (List.append_nil _).symm, (Int32.add_zero _).symm⟩
      | received piece =>
          rw [readLoop] at loop
          split at loop
          · cases loop
            exact ⟨[], List.nil_prefix, (List.append_nil _).symm, (Int32.add_zero _).symm⟩
          · split at loop
            · cases loop
              exact ⟨piece.val, List.prefix_append _ _, rfl, rfl⟩
            · obtain ⟨part, front, whole, count⟩ := ih loop
              refine ⟨piece.val ++ part, List.prefix_append_right_inj _ |>.mpr front, ?_, ?_⟩
              · rw [whole, List.append_assoc]
              · rw [count, List.length_append, Int32.ofNat_add, Int32.add_assoc]

theorem length_resize (data : Bytes) (size : Nat) : (resize data size).length = size := by
  rw [resize, List.length_append, List.length_take, List.length_replicate]
  omega

/-- What is made of collected bytes is a front part of them, with its size. -/
theorem finish_front {data : Bytes} {msg : Message}
    (finishes : finish data (Int32.ofNat data.length) = .ok msg) :
    msg.data <+: data ∧ msg.size = UInt32.ofNat msg.data.length := by
  rw [finish] at finishes
  split at finishes
  · cases finishes
  · next nonnegative =>
      rw [toInt_ofNat_neg_iff, Nat.not_le] at nonnegative
      cases finishes
      have low : data.length % 2 ^ 32 ≤ data.length := Nat.mod_le _ _
      simp only [toNat_toInt_ofNat nonnegative, length_resize]
      constructor
      · rw [resize, Nat.sub_eq_zero_of_le low, List.replicate_zero, List.append_nil]
        exact List.take_prefix _ _
      · rw [Int32.toUInt32_ofNat', ← UInt32.toNat_inj, UInt32.toNat_ofNat', UInt32.toNat_ofNat',
          Nat.mod_mod]

/-- A message that is read is a front part of what came, and has the size it says. -/
theorem read_front {errno : Int} {results : List ReadResult} {msg : Message}
    (reads : read errno results = some (.ok msg)) :
    msg.data <+: received results ∧ msg.size = UInt32.ofNat msg.data.length := by
  rw [read, Option.map_eq_some_iff] at reads
  obtain ⟨⟨collected, total, failure⟩, loop, outcome⟩ := reads
  obtain ⟨part, front, whole, count⟩ := readLoop_front loop
  rw [List.nil_append] at whole
  rw [Int32.zero_add] at count
  subst whole count
  have finishes : finish collected (Int32.ofNat collected.length) = .ok msg := by
    cases failure with
    | none => exact outcome
    | some error =>
        by_cases reset : error = connectionReset
        · simpa only [reset, ↓reduceIte] using outcome
        · simp only [reset, ↓reduceIte, reduceCtorEq] at outcome
  obtain ⟨inside, size⟩ := finish_front finishes
  exact ⟨inside.trans front, size⟩

/-- The message is read whole. -/
def Fits (errno : Int) (message : Bytes) : Prop :=
  message.length ≤ btChunk ∨ Quiet errno ∧ message.length < 2 ^ 31

theorem Fits.lt {errno : Int} {message : Bytes} (fits : Fits errno message) :
    message.length < 2 ^ 31 := by
  have small : btChunk < 2 ^ 31 := by decide
  exact fits.elim (fun single => Nat.lt_of_le_of_lt single small) And.right

/-- The state in which a program returns or stops. -/
def left {ε σ α : Type} : EStateM.Result ε σ α → σ
  | .ok _ state => state
  | .error _ state => state

/-- The bytes that were written on a channel. -/
def responded (sockets : Sockets) : Bytes := sockets.written.flatMap fun call => call.2

end BTChannel

namespace Node

variable {env : Env} {server : Server} {node : Node} {memory : Bytes} {calls : ChannelCalls}

/-- What a request that returns a response has read. -/
theorem read_of_returned {calls : SystemCalls} {rsp : Message}
    (returned : sendRequestWait4Response calls = some (.returned rsp)) :
    rsp.data <+: received calls.reads := by
  rw [sendRequestWait4Response, Option.map_eq_some_iff] at returned
  obtain ⟨result, exchanged, ends⟩ := returned
  cases result with
  | error thrown =>
      -- only the end of the connection returns a response, and it is empty
      cases thrown with
      | lengthError => cases ends
      | errno error =>
          dsimp only at ends
          split at ends
          · cases ends
          · split at ends
            · cases ends
              exact List.nil_prefix
            · cases ends
  | ok read =>
      dsimp only at ends
      split at ends
      · cases ends
      · cases ends
        unfold exchange at exchanged
        split at exchanged
        · cases exchanged
        · unfold BTDevice.sendReqWait4Resp at exchanged
          split at exchanged
          · cases exchanged
          · exact (read_front exchanged).1

/-- A request that returns 0 was completed with a response, and any other left the node. -/
theorem request_cases (env : Env) (server : Server) (node : Node) (req : Packet)
    (calls : SystemCalls) :
    ((node.request env server req calls).ending ≠ .returned 0 ∧
      (node.request env server req calls).node = node) ∨
    ((node.request env server req calls).ending = .returned 0 ∧
      ∃ rsp packet, sendRequestWait4Response calls = some (.returned rsp) ∧
        req.createRequest.processResponse rsp = .ok packet ∧
        node.completeRequest env server packet =
          some (node.request env server req calls).node) := by
  unfold request
  split
  · exact .inl ⟨(fun same => by cases same), rfl⟩
  · exact .inl ⟨(fun same => by cases same), rfl⟩
  · next error _ =>
      refine .inl ⟨fun same => ?_, rfl⟩
      exact absurd (Ending.returned.inj same).symm (Int.ne_of_lt error.positive)
  · next rsp returned =>
      split
      · exact .inl ⟨(fun same => by cases same), rfl⟩
      · next packet processed =>
          split
          · exact .inl ⟨(fun same => by cases same), rfl⟩
          · next after completed => exact .inr ⟨rfl, rsp, packet, returned, processed, completed⟩

/-- What has come of a request to a peer: in the node, and of the round of the server. -/
structure Unanswered (env : Env) (server : Server) (node peer : Node) (req : Packet)
    (serving : ChannelCalls) (requested : Requested)
    (served : EStateM.Result Stop Sockets Node) : Prop where
  returned : ∀ after sockets, served = .ok after sockets → after = peer ∧ Settled [] sockets
  silenced : ∀ stop sockets, served = .error stop sockets → Silenced stop sockets
  ended : (∃ fd, serving.socket = .ok fd) → serving.bind = none → serving.listen = none →
    (∃ fd, serving.accept = some (.ok fd)) → ∃ sockets, served = .error .ended sockets
  completed : requested.ending = .returned 0 → ∃ rsp packet, rsp.data = [] ∧
    req.createRequest.processResponse rsp = .ok packet ∧
      node.completeRequest env server packet = some requested.node
  unchanged : requested.ending ≠ .returned 0 → requested.node = node

/-- The server thread of a peer has written nothing. -/
theorem responded_serverThread (env : Env) (server : Server) (peer : Node) (memory : Bytes)
    (serving : ChannelCalls) :
    responded (left ((peer.serverThread env server memory serving).run (begin serving))) = [] := by
  have silent := serverThread_silent env server peer memory serving (begin serving) rfl
  generalize (peer.serverThread env server memory serving).run (begin serving) = served at silent ⊢
  cases served with
  | ok after sockets => rw [left, responded, silent.2.written, List.flatMap_nil]
  | error stop sockets => rw [left, responded, silent.written, List.flatMap_nil]

/-- **No request is answered.** Let every call on either side succeed or fail as it may: a round
of the server thread that returns has left its node, written nothing and closed its sockets; any
other waits for a client or has ended the process, as it does once a client is accepted, and has
written nothing. So a client that hears what the server wrote completes its request with an
empty response, or not at all. -/
theorem request_unanswered (env peerEnv : Env) (server peerServer : Server) (node peer : Node)
    (req : Packet) (memory : Bytes) (calls serving : ChannelCalls)
    (back : received calls.reads <+: responded (left
      ((peer.serverThread peerEnv peerServer memory serving).run (begin serving)))) :
    Unanswered env server node peer req serving (node.request env server req calls.client)
      ((peer.serverThread peerEnv peerServer memory serving).run (begin serving)) := by
  have silent := serverThread_silent peerEnv peerServer peer memory serving
  rw [responded_serverThread, List.prefix_nil] at back
  refine ⟨fun after sockets => silent.returned rfl, fun stop sockets => silent.stopped rfl, ?_,
    fun returned => ?_, fun other => ?_⟩
  · rintro ⟨fd, socket⟩ bind listen ⟨client, accept⟩
    exact serverThread_ends peerEnv peerServer peer memory socket bind listen accept
  · rcases request_cases env server node req calls.client with
      ⟨other, _⟩ | ⟨_, response, packet, sends, heard, completed⟩
    · exact absurd returned other
    · have front := read_of_returned sends
      rw [show calls.client.reads = calls.reads from rfl, back, List.prefix_nil] at front
      exact ⟨response, packet, front, heard, completed⟩
  · rcases request_cases env server node req calls.client with ⟨_, same⟩ | ⟨returned, _⟩
    · exact same
    · exact absurd returned other

/-- A node with the torrent `ab`. -/
def offering : Node := { name2torrent := .ofList [([97, 98], {})] compare }

/-- Calls that succeed and bring these pieces. -/
def pieces (reads : List ReadResult) : ChannelCalls :=
  { socket := .ok 3, accept := some (.ok 4), reads }

/-- The connection to a node that offers `ab` is reset, as its process ends when it accepts. -/
theorem request_unanswered_reset :
    Unanswered (.byLength .null) ⟨.insertion, fun _ => false⟩ {} offering (.list {})
      (pieces [])
      (Node.request (.byLength .null) ⟨.insertion, fun _ => false⟩ {} (.list {})
        (pieces [.failed connectionReset]).client)
      ((offering.serverThread (.byLength .null) ⟨.insertion, fun _ => false⟩ [0]
        (pieces [])).run (begin (pieces []))) :=
  request_unanswered (.byLength .null) (.byLength .null) ⟨.insertion, fun _ => false⟩
    ⟨.insertion, fun _ => false⟩ {} offering (.list {}) [0] (pieces [.failed connectionReset])
    (pieces []) List.nil_prefix

end Node

end Bp2p
