import Bp2p.Channel
import Bp2p.Node

/-! # Sending a request

`sendRequestWait4Response` call by call, and what `Node::request` does with its outcome.
Its handler takes `ECONNRESET` for the end of a response, whichever call set it: a request
that could not be sent is then completed with an empty response. An error of closing the
socket ends the process, since `close` rethrows an exception it has already handled. A
request that is not sent leaves the node as it was exactly if neither happens
(`Bp2p.Node.request_unsent_iff`).
-/

namespace Bp2p

open BTChannel

/-- `errno` before a request, and what the calls made for it return: `none` for a
success. -/
structure SystemCalls where
  errno : Int := 0
  socket : Option Errno := none
  setsockopt : Option Errno := none
  bind : Option Errno := none
  connect : Option Errno := none
  write : Option Errno := none
  reads : List ReadResult := []
  close : Option Errno := none

/-- The first failure among the calls that send the request. -/
def SystemCalls.firstFailure (calls : SystemCalls) : Option Errno :=
  calls.socket <|> calls.bind <|> calls.connect <|> calls.write

namespace BTDevice

/-- `if (status == -1) throw errno`. -/
def check : Option Errno → Except Thrown Unit
  | none => .ok ()
  | some error => .error (.errno error)

/-- `connect2Device`, with the `errno` it leaves; a failing `setsockopt` is only reported. -/
def connect2Device (calls : SystemCalls) : Except Thrown Int := do
  check calls.socket
  let errno :=
    match calls.setsockopt with
    | some error => error.code
    | none => calls.errno
  check calls.bind
  check calls.connect
  return errno

/-- `sendReqWait4Resp`: the request is written and the response is read. -/
def sendReqWait4Resp (calls : SystemCalls) (errno : Int) : Option (Except Thrown Message) :=
  match check calls.write with
  | .error thrown => some (.error thrown)
  | .ok () => read errno calls.reads

/-- `endComm`, and whether it returns: there is a socket to close once `salloc` has
succeeded, and without an exception in flight the `throw` of `close` terminates. -/
def endComm (calls : SystemCalls) : Bool := calls.socket.isSome || calls.close.isNone

end BTDevice

namespace Node

/-- How `sendRequestWait4Response` ends. -/
inductive Sent
  | returned (rsp : Message)
  | threw (error : Errno)
  /-- The process ends. -/
  | ended
  deriving DecidableEq

/-- The calls in the `try` of `sendRequestWait4Response`. -/
def exchange (calls : SystemCalls) : Option (Except Thrown Message) :=
  match BTDevice.connect2Device calls with
  | .error thrown => some (.error thrown)
  | .ok errno => BTDevice.sendReqWait4Resp calls errno

/-- `sendRequestWait4Response`; `none` while it waits for bytes that do not come. -/
def sendRequestWait4Response (calls : SystemCalls) : Option Sent :=
  (exchange calls).map fun result =>
    match result with
    -- no handler takes anything but an `int`
    | .error .lengthError => .ended
    | .error (.errno error) =>
        if BTDevice.endComm calls = false then .ended
        else if error = connectionReset then .returned {}
        else .threw error
    | .ok rsp => if BTDevice.endComm calls = false then .ended else .returned rsp

/-- The calls `request` makes behind the exchange. -/
inductive Step
  | processResponse
  | completeRequest
  deriving DecidableEq

/-- How `request` ends. -/
inductive Ending
  | returned (status : Int)
  | ended
  | waits
  deriving DecidableEq

/-- A request that was made: the node behind it, the calls made, and how it ended. -/
structure Requested where
  node : Node
  steps : List Step
  ending : Ending

/-- `request`, which carries a request out and completes it. -/
def request (env : Env) (server : Server) (node : Node) (req : Packet) (calls : SystemCalls) :
    Requested :=
  match sendRequestWait4Response calls with
  | none => { node, steps := [], ending := .waits }
  | some .ended => { node, steps := [], ending := .ended }
  | some (.threw error) => { node, steps := [], ending := .returned error.code }
  | some (.returned rsp) =>
      match req.createRequest.processResponse rsp with
      | .error _ => { node, steps := [.processResponse], ending := .ended }
      | .ok req =>
          match node.completeRequest env server req with
          | none => { node, steps := [.processResponse, .completeRequest], ending := .ended }
          | some node =>
              { node, steps := [.processResponse, .completeRequest], ending := .returned 0 }

/-- The response the node is given, none when something is thrown. -/
def Sent.response : Sent → Option Message
  | .returned rsp => some rsp
  | .threw _ => none
  | .ended => none

/-- The node of a request that returns, and whether it returns 0. -/
def Requested.result (requested : Requested) : Option (Node × Bool) :=
  match requested.ending with
  | .returned status => some (requested.node, decide (status = 0))
  | .ended => none
  | .waits => none

/-- A request that is not sent: it throws, nothing is processed or completed, and the maps
of the node are as before. -/
structure Unsent (env : Env) (server : Server) (node : Node) (req : Packet)
    (calls : SystemCalls) : Prop where
  throws : ∃ error, sendRequestWait4Response calls = some (.threw error)
  unprocessed : .processResponse ∉ (node.request env server req calls).steps
  uncompleted : .completeRequest ∉ (node.request env server req calls).steps
  dev2tor : (node.request env server req calls).node.dev2tor = node.dev2tor
  torName2Avail : (node.request env server req calls).node.torName2Avail = node.torName2Avail
  name2torrent : (node.request env server req calls).node.name2torrent = node.name2torrent

/-- What the first failing call sets is thrown. -/
theorem exchange_of_firstFailure {calls : SystemCalls} {error : Errno}
    (fails : calls.firstFailure = some error) :
    exchange calls = some (.error (.errno error)) := by
  unfold SystemCalls.firstFailure at fails
  unfold exchange BTDevice.connect2Device BTDevice.sendReqWait4Resp
  cases socket : calls.socket with
  | some other =>
      rw [socket] at fails
      cases fails
      rfl
  | none =>
      cases bind : calls.bind with
      | some other =>
          rw [socket, bind] at fails
          cases fails
          rfl
      | none =>
          cases connect : calls.connect with
          | some other =>
              rw [socket, bind, connect] at fails
              cases fails
              rfl
          | none =>
              rw [socket, bind, connect] at fails
              simp only [Option.orElse_eq_orElse, Option.orElse_none] at fails
              rw [fails]
              rfl

/-- **Requests that are not sent.** If a call that sends a request fails, the request
throws and leaves the node exactly if the error is not `ECONNRESET` and the socket, if
there is one, can be closed. -/
theorem request_unsent_iff (env : Env) (server : Server) (node : Node) (req : Packet)
    (calls : SystemCalls) (error : Errno) (fails : calls.firstFailure = some error) :
    Unsent env server node req calls ↔
      error ≠ connectionReset ∧ BTDevice.endComm calls = true := by
  have outcome : sendRequestWait4Response calls = some
      (if BTDevice.endComm calls = false then .ended
        else if error = connectionReset then .returned {}
        else .threw error) := by
    rw [sendRequestWait4Response, exchange_of_firstFailure fails, Option.map_some]
  constructor
  · intro unsent
    obtain ⟨other, threw⟩ := unsent.throws
    rw [outcome, Option.some.injEq] at threw
    split at threw
    · cases threw
    · next closes =>
        split at threw
        · cases threw
        · next different => exact ⟨different, by simpa using closes⟩
  · rintro ⟨different, closes⟩
    have threw : sendRequestWait4Response calls = some (.threw error) := by
      rw [outcome, if_neg (by simp [closes]), if_neg different]
    have unchanged : node.request env server req calls =
        { node, steps := [], ending := .returned error.code } := by
      rw [request, threw]
    refine ⟨⟨error, threw⟩, ?_, ?_, ?_, ?_, ?_⟩ <;> rw [unchanged]
    · exact List.not_mem_nil
    · exact List.not_mem_nil

/-- `EHOSTDOWN` while connecting: a list request is not sent. -/
theorem request_unsent_iff_list :
    Unsent (.byLength .null) ⟨.insertion, fun _ => false⟩ {} (.list {})
      { connect := some ⟨112, by decide⟩ } :=
  (request_unsent_iff (.byLength .null) ⟨.insertion, fun _ => false⟩ {} (.list {})
    { connect := some ⟨112, by decide⟩ } ⟨112, by decide⟩ rfl).mpr ⟨by decide, rfl⟩

/-- `ECONNRESET` while connecting refutes it: the request returns an empty response instead of
throwing. -/
theorem request_unsent_fails :
    ¬ ∀ (env : Env) (server : Server) (node : Node) (req : Packet) (calls : SystemCalls)
        (error : Errno), calls.firstFailure = some error → Unsent env server node req calls := by
  intro claim
  have unsent := claim (.byLength .null) ⟨.insertion, fun _ => false⟩ {} (.list {})
    { connect := some connectionReset } connectionReset rfl
  obtain ⟨error, threw⟩ := unsent.throws
  have swallowed : sendRequestWait4Response { connect := some connectionReset } =
      some (.returned {}) := rfl
  rw [swallowed] at threw
  cases threw

end Node

end Bp2p
