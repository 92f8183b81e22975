import Bp2p.NodeRun
import Bp2p.Sockets

/-! # Serving a request

`Node::serverThread`, one call of which is to serve one client. Nothing it does fails loudly:
what is thrown is caught and printed, unless it is no `int`. But accepting a client writes over
the pointer that is followed next, so no request is ever read. Whatever the calls of the
operating system return, a round that returns has left the node as it was, written nothing and
closed its sockets; any other waits for a client, or has ended the process, and has written
nothing either (`Bp2p.Node.serverThread_silent`).
-/

namespace Bp2p

open BTChannel Stateful

namespace Node

/-- `processRequest` and `sendResponse`; what was thrown before them skips both. -/
def processAndSend (env : Env) (server : Server) (node : Node) (memory : Bytes)
    (calls : ChannelCalls) : Except Errno Message → Exchange Node
  | .error _ => pure node
  | .ok req =>
      match node.processRequest env server req memory with
      | none => throw .ended
      | some (after, rsp) => do
          let _ ← catchInt (sendResponse calls rsp)
          return after

/-- `serverThread`, with the node it leaves. -/
def serverThread (env : Env) (server : Server) (node : Node) (memory : Bytes)
    (calls : ChannelCalls) : Exchange Node := do
  let fetched ← catchInt do
    initServer calls
    listen4Req calls
    fetchRequestData calls
  let after ← node.processAndSend env server memory calls fetched
  endComm calls
  return after

/-- No request is fetched: connecting fails or waits, or the process ends. -/
theorem fetch_interrupted (calls : ChannelCalls) :
    Triple (· = begin calls)
      (do initServer calls; listen4Req calls; fetchRequestData calls : Exchange Message)
      (fun _ _ => False) (Interrupted []) := by
  refine .bind (fun _ sockets => Accounted [] sockets ∧ sockets.remoteSocket = none) ?_ fun _ =>
    .bind (fun _ _ => False) ?_ fun _ _ => False.elim
  · exact .bind _ ((salloc_accounted calls).stops fun _ _ => .of_isInt) fun _ =>
      (bind_keeps (fun _ _ held => ⟨held.1.errno, held.2⟩) calls).stops fun _ _ left =>
        .of_isInt ⟨left.1, left.2.1⟩
  · exact .bind _ ((listen_keeps (fun _ _ held => ⟨held.1.errno, held.2⟩) calls).stops
      fun _ _ left => .of_isInt ⟨left.1, left.2.1⟩) fun _ => accept_stops calls

/-- How a round ends that does not return: it waits for a client, or the process ends, as it
does once a client is accepted. Nothing was written. -/
structure Silenced (stop : Stop) (sockets : Sockets) : Prop where
  stopped : stop = .waits ∨ stop = .ended
  written : sockets.written = []
  ended : sockets.overwritten = true → stop = .ended

/-- Rounds of a server are silent. -/
theorem serverThread_silent (env : Env) (server : Server) (node : Node) (memory : Bytes)
    (calls : ChannelCalls) :
    Triple (· = begin calls) (node.serverThread env server memory calls)
      (fun after sockets => after = node ∧ Settled [] sockets) Silenced := by
  refine .bind _ ((catchInt_triple (fetch_interrupted calls)).stops ?_) fun fetched => ?_
  · rintro stop sockets ⟨noInt, ⟨rfl, nothing⟩ | ⟨rfl | int, held⟩⟩
    · exact ⟨.inr rfl, nothing, fun _ => rfl⟩
    · refine ⟨.inl rfl, held.written, fun accepted => ?_⟩
      rw [held.intact] at accepted
      cases accepted
    · exact absurd int noInt
  · cases fetched with
    | ok req => exact fun _ => False.elim
    | error error =>
        refine .bind (fun after sockets => after = node ∧ Accounted [] sockets)
          (.pure ?_) fun after => ?_
        · rintro sockets (⟨ended, _⟩ | ⟨_, held⟩)
          · cases ended
          · exact ⟨rfl, held⟩
        · rintro sockets ⟨rfl, held⟩
          refine Triple.bind _ ((endComm_settles calls).stops ?_)
            (fun _ => .pure fun _ settled => ⟨rfl, settled⟩) sockets held
          rintro stop sockets ⟨rfl, settled⟩
          exact ⟨.inr rfl, settled.written, fun _ => rfl⟩

/-- A client that is accepted ends the process. -/
theorem serverThread_ends (env : Env) (server : Server) (node : Node) (memory : Bytes)
    {calls : ChannelCalls} {fd client : Nat} (socket : calls.socket = .ok fd)
    (bind : calls.bind = none) (listen : calls.listen = none)
    (accept : calls.accept = some (.ok client)) :
    ∃ sockets, (node.serverThread env server memory calls).run (begin calls) =
      .error .ended sockets := by
  obtain ⟨errno, _, reusePort, _, connect, timeout, _, _, write, reads, closeRemote,
    closeLocal⟩ := calls
  dsimp only at socket bind listen accept
  subst socket bind listen accept
  cases reusePort <;> cases timeout <;> exact ⟨_, rfl⟩

end Node

end Bp2p
