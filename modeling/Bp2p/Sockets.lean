import Bp2p.Lib.Stateful
import Bp2p.SendRequest

/-! # The sockets of a channel

`BTChannel` and `BTDevice` on either side of a connection, with the descriptors they hold. A
device lives for one exchange, so a channel starts without sockets. What the calls of the
operating system return is an input. `::connect` and `::accept` are given the address of the
pointer `remoteAddr`, not the one it points to. What `::connect` makes of it is part of the
input; `::accept` writes the address of the client over the pointer, which is followed on the
next line. Whichever of the calls fail, the sockets that were opened are closed once each when
`endComm` returns (`Bp2p.BTChannel.endComm_settles`).
-/

namespace Bp2p

open Stateful

namespace BTChannel

/-- `errno` before an exchange, and what the calls made for it return. -/
structure ChannelCalls where
  errno : Int := 0
  socket : Except Errno Nat
  reusePort : Option Errno := none
  bind : Option Errno := none
  connect : Option Errno := none
  timeout : Option Errno := none
  listen : Option Errno := none
  /-- `none` for a call that does not return. -/
  accept : Option (Except Errno Nat) := none
  write : Option Errno := none
  reads : List ReadResult := []
  closeRemote : Option Errno := none
  closeLocal : Option Errno := none

/-- The sockets of a channel, none for -1, with what was done to them. -/
structure Sockets where
  localSocket : Option Nat := none
  remoteSocket : Option Nat := none
  activeSocket : Option Nat := none
  /-- The pointer `remoteAddr` has been written over. -/
  overwritten : Bool := false
  errno : Int := 0
  /-- The descriptors that `::socket` and `::accept` returned. -/
  opened : List Nat := []
  /-- The descriptors that `::close` was called with. -/
  closed : List Nat := []
  /-- What `::write` was called with. -/
  written : List (Option Nat × Bytes) := []

/-- What ends a call of the channel early. -/
inductive Stop
  | threw (thrown : Thrown)
  /-- A call does not return. -/
  | waits
  /-- The process ends. -/
  | ended
  deriving DecidableEq

/-- What is done with sockets, until something stops it. -/
abbrev Exchange := EStateM Stop Sockets

/-- `if (status == -1) throw errno`. -/
def check : Option Errno → Exchange Unit
  | none => pure ()
  | some error => throw (.threw (.errno error))

/-- A failing `setsockopt` is only reported. -/
def setsockopt : Option Errno → Exchange Unit
  | none => pure ()
  | some error => modify fun sockets => { sockets with errno := error.code }

/-- `salloc`. -/
def salloc (calls : ChannelCalls) : Exchange Unit :=
  match calls.socket with
  | .error error => do
      modify fun sockets => { sockets with localSocket := none }
      check (some error)
  | .ok fd =>
      modify fun sockets =>
        { sockets with localSocket := some fd, opened := sockets.opened ++ [fd] }

/-- `connect`. -/
def connect (calls : ChannelCalls) : Exchange Unit := do
  check calls.connect
  modify fun sockets => { sockets with activeSocket := sockets.localSocket }

/-- `setReusePort` and `bind`. -/
def bind (calls : ChannelCalls) : Exchange Unit := do
  setsockopt calls.reusePort
  check calls.bind

/-- `setTimeout` and `listen`. -/
def listen (calls : ChannelCalls) : Exchange Unit := do
  setsockopt calls.timeout
  check calls.listen

/-- `accept()`. A call that succeeds writes the address of the client over the pointer. -/
def acceptRemote (calls : ChannelCalls) : Exchange Unit :=
  match calls.accept with
  | none => throw .waits
  | some (.error error) => do
      modify fun sockets => { sockets with remoteSocket := none }
      check (some error)
  | some (.ok fd) =>
      modify fun sockets =>
        { sockets with
          remoteSocket := some fd, activeSocket := some fd, overwritten := true
          opened := sockets.opened ++ [fd] }

/-- `accept(DeviceDescriptor&)`. The address of the client is asked of what `remoteAddr` points
to; no object is there if the pointer was written over, and the process ends. -/
def accept (calls : ChannelCalls) : Exchange Unit := do
  acceptRemote calls
  if (← get).overwritten then throw .ended

/-- `write`; a call that writes less than it is given is not noticed. -/
def write (calls : ChannelCalls) (msg : Message) : Exchange Unit := do
  modify fun sockets =>
    { sockets with
      written := sockets.written ++ [(sockets.activeSocket, msg.data.take msg.size.toNat)] }
  check calls.write

/-- What `read` comes to. -/
def finishRead : Option (Except Thrown Message) → Exchange Message
  | none => throw .waits
  | some (.error thrown) => throw (.threw thrown)
  | some (.ok msg) => pure msg

/-- `read`. -/
def readMessage (calls : ChannelCalls) : Exchange Message := do
  finishRead (read (← get).errno calls.reads)

/-- `catch(int e)`: the number that was thrown, if one was. -/
def catchInt {α : Type} (body : Exchange α) : Exchange (Except Errno α) :=
  tryCatch (Except.ok <$> body) fun stop =>
    match stop with
    | .threw (.errno error) => pure (.error error)
    | stop => throw stop

/-- `close(int&)` for the remote socket. -/
def closeRemote (calls : ChannelCalls) : Exchange Unit := do
  let sockets ← get
  set { sockets with
    remoteSocket := none, closed := sockets.closed ++ sockets.remoteSocket.toList }
  if sockets.remoteSocket.isSome then check calls.closeRemote

/-- `close(int&)` for the local socket. -/
def closeLocal (calls : ChannelCalls) : Exchange Unit := do
  let sockets ← get
  set { sockets with localSocket := none, closed := sockets.closed ++ sockets.localSocket.toList }
  if sockets.localSocket.isSome then check calls.closeLocal

/-- `close`. Both handlers are left by the time of its `throw`, which terminates the process. -/
def close (calls : ChannelCalls) : Exchange Unit := do
  let remote ← catchInt (closeRemote calls)
  let loc ← catchInt (closeLocal calls)
  match remote, loc with
  | .ok (), .ok () => pure ()
  | _, _ => throw .ended

/-- `endComm`, with the handler of its callers around it. -/
def endComm (calls : ChannelCalls) : Exchange Unit := do
  let _ ← catchInt (close calls)

/-- `connect2Device`. -/
def connect2Device (calls : ChannelCalls) : Exchange Unit := do
  salloc calls
  bind calls
  connect calls

/-- `sendReqWait4Resp`. -/
def sendReqWait4Resp (calls : ChannelCalls) (req : Message) : Exchange Message := do
  write calls req
  readMessage calls

/-- `Node::sendRequestWait4Response`. -/
def sendRequestWait4Response (calls : ChannelCalls) (req : Message) : Exchange Message := do
  let rsp ← catchInt do
    connect2Device calls
    sendReqWait4Resp calls req
  endComm calls
  match rsp with
  | .ok rsp => pure rsp
  | .error error => if error = connectionReset then pure {} else throw (.threw (.errno error))

/-- `initServer`. -/
def initServer (calls : ChannelCalls) : Exchange Unit := do
  salloc calls
  bind calls

/-- `listen4Req`. -/
def listen4Req (calls : ChannelCalls) : Exchange Unit := do
  listen calls
  accept calls

/-- `fetchRequestData`. -/
def fetchRequestData (calls : ChannelCalls) : Exchange Message := readMessage calls

/-- `sendResponse`. -/
def sendResponse (calls : ChannelCalls) (rsp : Message) : Exchange Unit := write calls rsp

variable {Inv : Sockets → Prop} {written : List (Option Nat × Bytes)}

/-- Every descriptor that was opened is closed or still held, and no client was accepted. -/
structure Accounted (written : List (Option Nat × Bytes)) (sockets : Sockets) : Prop where
  opened : sockets.opened.Perm
    (sockets.closed ++ (sockets.localSocket.toList ++ sockets.remoteSocket.toList))
  written : sockets.written = written
  intact : sockets.overwritten = false

/-- Every descriptor that was opened is closed, none is held, and no client was accepted. -/
structure Settled (written : List (Option Nat × Bytes)) (sockets : Sockets) : Prop where
  closed : sockets.closed.Perm sockets.opened
  localSocket : sockets.localSocket = none
  remoteSocket : sockets.remoteSocket = none
  written : sockets.written = written
  intact : sockets.overwritten = false

theorem Accounted.errno {sockets : Sockets} (held : Accounted written sockets) {errno : Int} :
    Accounted written { sockets with errno } :=
  ⟨held.opened, held.written, held.intact⟩

/-- What the handlers take. -/
def Stop.IsInt (stop : Stop) : Prop := ∃ error, stop = .threw (.errno error)

theorem check_triple (Inv : Sockets → Prop) (result : Option Errno) :
    Triple Inv (check result) (fun _ => Inv) fun stop sockets => stop.IsInt ∧ Inv sockets := by
  cases result with
  | none => exact .pure fun _ => id
  | some error => exact .throw fun _ inv => ⟨⟨error, rfl⟩, inv⟩

/-- Setting an option changes `errno` at most. -/
theorem setsockopt_keeps {exit : Stop → Sockets → Prop}
    (indifferent : ∀ sockets errno, Inv sockets → Inv { sockets with errno })
    (result : Option Errno) :
    Triple Inv (setsockopt result) (fun _ => Inv) exit := by
  cases result with
  | none => exact .pure fun _ => id
  | some error => exact .modify fun sockets => indifferent sockets error.code

/-- A caught `int` does not stop. -/
theorem catchInt_triple {α : Type} {pre : Sockets → Prop} {body : Exchange α}
    {post : α → Sockets → Prop} {exit : Stop → Sockets → Prop}
    (triple : Triple pre body post exit) :
    Triple pre (catchInt body)
      (fun result sockets => match result with
        | .ok value => post value sockets
        | .error error => exit (.threw (.errno error)) sockets)
      fun stop sockets => ¬ stop.IsInt ∧ exit stop sockets := by
  refine .tryCatch exit ?_ fun stop => ?_
  · rw [map_eq_pure_bind]
    exact triple.bind _ fun value => .pure fun _ => id
  · cases stop with
    | threw thrown =>
        cases thrown with
        | errno error => exact .pure fun _ => id
        | lengthError => exact .throw fun _ left => ⟨(by rintro ⟨_, same⟩; cases same), left⟩
    | waits | ended => exact .throw fun _ left => ⟨(by rintro ⟨_, same⟩; cases same), left⟩

/-- A body that throws nothing but an `int` does not stop behind the handler. -/
theorem catchInt_returns {α : Type} {pre : Sockets → Prop} {body : Exchange α}
    (triple : Triple pre body (fun _ => Inv) fun stop sockets => stop.IsInt ∧ Inv sockets) :
    Triple pre (catchInt body) (fun _ => Inv) fun _ _ => False := by
  refine (catchInt_triple triple).mono (fun _ => id) ?_ fun _ _ stops => stops.1 stops.2.1
  intro result sockets
  cases result with
  | ok _ => exact id
  | error _ => exact And.right

/-- Every socket that is held is closed, also when closing the other one fails. -/
theorem closeRemote_accounted (calls : ChannelCalls) :
    Triple (Accounted written) (closeRemote calls)
      (fun _ sockets => Accounted written sockets ∧ sockets.remoteSocket = none)
      fun stop sockets =>
        stop.IsInt ∧ Accounted written sockets ∧ sockets.remoteSocket = none := by
  refine .bind (fun value _ => Accounted written value) (.get fun _ => id) fun before => ?_
  refine .bind (fun _ sockets => Accounted written sockets ∧ sockets.remoteSocket = none)
    (.set fun _ accounted => ⟨⟨?_, accounted.written, accounted.intact⟩, rfl⟩) fun _ => ?_
  · refine accounted.opened.trans ?_
    simp only [Option.toList_none, List.append_nil, List.append_assoc]
    exact List.perm_append_comm.append_left _
  · split
    · exact check_triple _ _
    · exact .pure fun _ => id

/-- Closing the local socket leaves all closed. -/
theorem closeLocal_settles (calls : ChannelCalls) :
    Triple (fun sockets => Accounted written sockets ∧ sockets.remoteSocket = none)
      (closeLocal calls) (fun _ => Settled written)
      fun stop sockets => stop.IsInt ∧ Settled written sockets := by
  refine .bind (fun value _ => Accounted written value ∧ value.remoteSocket = none)
    (.get fun _ => id) fun before => ?_
  refine .bind (fun _ => Settled written)
    (.set fun _ start => ⟨?_, rfl, start.2, start.1.written, start.1.intact⟩) fun _ => ?_
  · have opened := start.1.opened
    rw [start.2, Option.toList_none, List.append_nil] at opened
    exact opened.symm
  · split
    · exact check_triple _ _
    · exact .pure fun _ => id

/-- Closing leaves all closed, also where it ends the process. -/
theorem close_settles (calls : ChannelCalls) :
    Triple (Accounted written) (close calls) (fun _ => Settled written)
      fun stop sockets => stop = .ended ∧ Settled written sockets := by
  refine .bind _ ((catchInt_returns (closeRemote_accounted calls)).stops fun _ _ => False.elim)
    fun remote => ?_
  refine .bind _ ((catchInt_returns (closeLocal_settles calls)).stops fun _ _ => False.elim)
    fun loc => ?_
  cases remote with
  | error _ => exact .throw fun _ settled => ⟨rfl, settled⟩
  | ok _ =>
      cases loc with
      | error _ => exact .throw fun _ settled => ⟨rfl, settled⟩
      | ok _ => exact .pure fun _ => id

/-- `endComm` leaves nothing open, also when it ends the process. -/
theorem endComm_settles (calls : ChannelCalls) :
    Triple (Accounted written) (endComm calls) (fun _ => Settled written)
      fun stop sockets => stop = .ended ∧ Settled written sockets := by
  refine .bind (fun _ => Settled written) ?_ fun _ => .pure fun _ => id
  refine (catchInt_triple (close_settles calls)).mono (fun _ => id) ?_ fun _ _ => And.right
  intro result sockets
  cases result with
  | ok _ => exact id
  | error _ => exact And.right

/-- Before an exchange. -/
def begin (calls : ChannelCalls) : Sockets := { errno := calls.errno }

/-- What is opened is accounted for. -/
theorem salloc_accounted (calls : ChannelCalls) :
    Triple (· = begin calls) (salloc calls)
      (fun _ sockets => Accounted [] sockets ∧ sockets.remoteSocket = none)
      fun stop sockets => stop.IsInt ∧ Accounted [] sockets := by
  unfold salloc
  cases calls.socket with
  | error error =>
      refine .bind (fun _ => Accounted []) (.modify ?_) fun _ => .throw fun _ held =>
        ⟨⟨error, rfl⟩, held⟩
      rintro _ rfl
      exact ⟨.refl _, rfl, rfl⟩
  | ok fd =>
      refine .modify ?_
      rintro _ rfl
      exact ⟨⟨.refl _, rfl, rfl⟩, rfl⟩

theorem bind_keeps (indifferent : ∀ sockets errno, Inv sockets → Inv { sockets with errno })
    (calls : ChannelCalls) :
    Triple Inv (bind calls) (fun _ => Inv) fun stop sockets => stop.IsInt ∧ Inv sockets :=
  .bind _ (setsockopt_keeps indifferent _) fun _ => check_triple Inv _

theorem listen_keeps (indifferent : ∀ sockets errno, Inv sockets → Inv { sockets with errno })
    (calls : ChannelCalls) :
    Triple Inv (listen calls) (fun _ => Inv) fun stop sockets => stop.IsInt ∧ Inv sockets :=
  .bind _ (setsockopt_keeps indifferent _) fun _ => check_triple Inv _

/-- What is accounted for when a server stops, unless the process has ended; then nothing more
was written. -/
def Interrupted (written : List (Option Nat × Bytes)) (stop : Stop) (sockets : Sockets) : Prop :=
  (stop = .ended ∧ sockets.written = written) ∨
    ((stop = .waits ∨ stop.IsInt) ∧ Accounted written sockets)

theorem Interrupted.of_isInt {stop : Stop} {sockets : Sockets}
    (left : stop.IsInt ∧ Accounted written sockets) : Interrupted written stop sockets :=
  .inr ⟨.inr left.1, left.2⟩

/-- No call of `accept` returns. -/
theorem accept_stops (calls : ChannelCalls) :
    Triple (fun sockets => Accounted written sockets ∧ sockets.remoteSocket = none) (accept calls)
      (fun _ _ => False) (Interrupted written) := by
  refine .bind (fun _ sockets => sockets.overwritten = true ∧ sockets.written = written) ?_
    fun _ => .bind (fun value sockets => value.overwritten = true ∧ sockets.written = written)
      (.get fun _ => id) fun value => ?_
  · unfold acceptRemote
    cases calls.accept with
    | none => exact .throw fun _ start => .inr ⟨.inl rfl, start.1⟩
    | some result =>
        cases result with
        | error error =>
            refine .bind (fun _ => Accounted written) (.modify fun sockets start => ?_)
              fun _ => .throw fun _ held => .of_isInt ⟨⟨error, rfl⟩, held⟩
            have opened := start.1.opened
            rw [start.2] at opened
            exact ⟨opened, start.1.written, start.1.intact⟩
        | ok fd => exact .modify fun _ start => ⟨rfl, start.1.written⟩
  · rintro sockets ⟨overwritten, nothing⟩
    rw [if_pos overwritten]
    exact .inl ⟨rfl, nothing⟩

/-- The calls as a client makes them without descriptors. -/
def ChannelCalls.client (calls : ChannelCalls) : SystemCalls where
  errno := calls.errno
  socket := match calls.socket with
    | .error error => some error
    | .ok _ => none
  setsockopt := calls.reusePort
  bind := calls.bind
  connect := calls.connect
  write := calls.write
  reads := calls.reads
  close := calls.closeLocal

/-- How an exchange ends for the node. -/
def sent : EStateM.Result Stop Sockets Message → Option Node.Sent
  | .ok rsp _ => some (.returned rsp)
  | .error (.threw (.errno error)) _ => some (.threw error)
  | .error (.threw .lengthError) _ => some .ended
  | .error .waits _ => none
  | .error .ended _ => some .ended

/-- What the body of an exchange comes to, and what it has left open. -/
def Ends (calls : ChannelCalls) (outcome : Option (Except Thrown Message))
    (result : EStateM.Result Stop Sockets Message) : Prop :=
  ∃ sockets, sockets.localSocket.isNone = calls.client.socket.isSome ∧
    sockets.remoteSocket = none ∧ result = (finishRead outcome).run sockets

end BTChannel

end Bp2p
