import Bp2p.Pause

/-! # Synchronous requests

While the main thread waits for an answer and completes it, the maps of the node are its
own: it pauses all workers before, one after the other, and activates them behind. Who has
been paused stays so until the last one is, and until the request is completed
(`Bp2p.SyncRequest.undisturbed`).
-/

namespace Bp2p

namespace SyncRequest

open WorkerThread

/-- A worker thread of the node. -/
inductive Name
  | server (dev : DeviceDescriptor)
  | jobManager
  deriving DecidableEq

/-- The predicate a worker is created with. -/
def predicate : Name → List Packet → Bool
  | .server _ => fun _ => true
  | .jobManager => JobManager.hasJobs

/-- The workers, in the order in which they are paused and activated. -/
def workerThreads (servers : List DeviceDescriptor) (jobManager : Bool) : List Name :=
  servers.map .server ++ if jobManager then [.jobManager] else []

/-- Where the main thread is: in a command, with the calls it still makes, or inside
`syncRequest`, with the workers it still pauses or activates. -/
inductive Main
  | command (calls : List (Name × Op Packet))
  | pausing (rest : List Name)
  | requesting
  | requested
  | activating (rest : List Name)

namespace Main

/-- The call that is made, or is next. -/
def next : Main → Option (Name × Op Packet)
  | .command (call :: _) => some call
  | .pausing (name :: _) => some (name, pause)
  | .activating (name :: _) => some (name, activate)
  | _ => none

/-- The call is one of a command, or of `pauseWorkerThreads`, or of `activateWorkerThreads`. -/
theorem next_cases {main : Main} {name : Name} {op : Op Packet}
    (next : main.next = some (name, op)) :
    (∃ calls, main = .command ((name, op) :: calls)) ∨
      (∃ rest, main = .pausing (name :: rest) ∧ op = pause) ∨
        ∃ rest, main = .activating (name :: rest) ∧ op = activate := by
  cases main with
  | command calls =>
      cases calls with
      | nil => cases next
      | cons call calls =>
          cases next
          exact .inl ⟨calls, rfl⟩
  | pausing rest =>
      cases rest with
      | nil => cases next
      | cons name rest =>
          cases next
          exact .inr (.inl ⟨rest, rfl, rfl⟩)
  | activating rest =>
      cases rest with
      | nil => cases next
      | cons name rest =>
          cases next
          exact .inr (.inr ⟨rest, rfl, rfl⟩)
  | requesting | requested => cases next

/-- The call has returned. -/
def returned : Main → Main
  | .command (_ :: calls) => .command calls
  | .pausing (_ :: rest) => .pausing rest
  | .activating (_ :: rest) => .activating rest
  | main => main

/-- The last `pause` has returned, and the first `activate` is not called yet. -/
def Alone : Main → Prop
  | .pausing [] => True
  | .requesting => True
  | .requested => True
  | _ => False

end Main

/-- The main thread and the workers. A server has no queue, so its `work` is not looked at;
`depth` counts the locks a worker holds inside its own one. -/
structure Process (Maps : Type) where
  workers : Name → State Unit (List Packet) Packet
  depth : Name → Nat := fun _ => 0
  maps : Maps
  main : Main := .command []

/-- What happens in the process. -/
inductive Label (Maps : Type)
  | worker (name : Name) (label : WorkerThread.Label Unit (List Packet) Packet)
  | spurious (name : Name)
  | relock (name : Name)
  | reunlock (name : Name)
  | touch (name : Name) (maps : Maps)
  | command (calls : List (Name × Op Packet))
  | call (name : Name) (label : WorkerThread.Label Unit (List Packet) Packet)
  | syncRequest
  | sleep
  | request (maps : Maps)
  | answered
  | finish

section Machine

variable {Maps : Type}

/-- The process with the worker of a name changed. -/
def Process.put (process : Process Maps) (name : Name)
    (worker : State Unit (List Packet) Packet) : Process Maps :=
  { process with workers := Function.update process.workers name worker }

variable (servers : List DeviceDescriptor) (jobManager : Bool)

/-- The step of a worker and its callers. -/
abbrev Moves (process : Process Maps) (name : Name) :
    WorkerThread.Label Unit (List Packet) Packet → State Unit (List Packet) Packet → Prop :=
  WorkerThread.Step JobManager.insertJob (predicate name) (process.workers name)

/-- The steps of the node. A wait may end by itself; the work of a worker locks its own mutex
again when it inserts a job, and leaves any maps behind, as the request does; the first call
of `activate` ends the request. -/
inductive Step : Process Maps → Label Maps → Process Maps → Prop
  | worker {process : Process Maps} (name : Name)
      {label : WorkerThread.Label Unit (List Packet) Packet}
      {after : State Unit (List Packet) Packet} (created : name ∈ workerThreads servers jobManager)
      (own : label.Own) (outer : process.depth name = 0) (moves : Moves process name label after) :
      Step process (.worker name label) (process.put name after)
  | spurious {process : Process Maps} (name : Name)
      (created : name ∈ workerThreads servers jobManager)
      (waits : (process.workers name).worker = .waiting) :
      Step process (.spurious name)
        (process.put name { process.workers name with worker := .notified })
  | relock {process : Process Maps} (name : Name)
      (created : name ∈ workerThreads servers jobManager)
      (works : (process.workers name).worker = .working) :
      Step process (.relock name)
        { process with depth := Function.update process.depth name (process.depth name + 1) }
  | reunlock {process : Process Maps} (name : Name) {depth : Nat}
      (created : name ∈ workerThreads servers jobManager)
      (works : (process.workers name).worker = .working)
      (nested : process.depth name = depth + 1) :
      Step process (.reunlock name)
        { process with depth := Function.update process.depth name depth }
  | touch {process : Process Maps} (name : Name) (maps : Maps)
      (created : name ∈ workerThreads servers jobManager)
      (works : (process.workers name).worker = .working) :
      Step process (.touch name maps) { process with maps }
  | command {process : Process Maps} (calls : List (Name × Op Packet))
      (free : process.main = .command []) :
      Step process (.command calls) { process with main := .command calls }
  | enter {process : Process Maps} {name : Name} {op : Op Packet}
      {after : State Unit (List Packet) Packet} (next : process.main.next = some (name, op))
      (moves : Moves process name (.call () op) after) :
      Step process (.call name (.call () op)) (process.put name after)
  | within {process : Process Maps} (name : Name)
      {label : WorkerThread.Label Unit (List Packet) Packet}
      {after : State Unit (List Packet) Packet} (called : label.Called)
      (moves : Moves process name label after) (inside : after.callers () ≠ .idle) :
      Step process (.call name label) (process.put name after)
  | back {process : Process Maps} (name : Name)
      {label : WorkerThread.Label Unit (List Packet) Packet}
      {after : State Unit (List Packet) Packet} (called : label.Called)
      (moves : Moves process name label after) (outside : after.callers () = .idle) :
      Step process (.call name label)
        { process.put name after with main := process.main.returned }
  | syncRequest {process : Process Maps} (free : process.main = .command []) :
      Step process .syncRequest
        { process with main := .pausing (workerThreads servers jobManager) }
  | sleep {process : Process Maps} (paused : process.main = .pausing []) :
      Step process .sleep { process with main := .requesting }
  | request {process : Process Maps} (maps : Maps) (requests : process.main = .requesting) :
      Step process (.request maps) { process with maps }
  | answered {process : Process Maps} (requests : process.main = .requesting) :
      Step process .answered { process with main := .requested }
  | activate {process : Process Maps} {name : Name} {rest : List Name}
      {after : State Unit (List Packet) Packet} (requested : process.main = .requested)
      (first : workerThreads servers jobManager = name :: rest)
      (moves : Moves process name (.call () WorkerThread.activate) after) :
      Step process (.call name (.call () WorkerThread.activate))
        { process.put name after with main := .activating (name :: rest) }
  | finish {process : Process Maps} (activated : process.main = .activating [] ∨
      process.main = .requested ∧ workerThreads servers jobManager = []) :
      Step process .finish { process with main := .command [] }

variable {servers jobManager}

section Put

variable {process : Process Maps} {name : Name} {after : State Unit (List Packet) Packet}

theorem put_self : (process.put name after).workers name = after :=
  Function.update_self ..

theorem put_of_ne {other : Name} (different : other ≠ name) :
    (process.put name after).workers other = process.workers other :=
  Function.update_of_ne different ..

/-- What holds of the worker that moves and of the others holds of every worker. -/
theorem put_forall (property : Name → State Unit (List Packet) Packet → Prop)
    (self : property name after)
    (others : ∀ other, other ≠ name → property other (process.workers other)) (other : Name) :
    property other ((process.put name after).workers other) := by
  by_cases same : other = name
  · rw [same, put_self]
    exact self
  · rw [put_of_ne same]
    exact others other same

theorem put_paused (kept : Paused (process.workers name) → Paused after) (other : Name)
    (paused : Paused (process.workers other)) :
    Paused ((process.put name after).workers other) := by
  exact put_forall (fun other state => Paused (process.workers other) → Paused state) kept
    (fun _ _ => id) other paused

end Put

/-- The workers `pauseWorkerThreads` has passed satisfy the property, and all of them do
while the request is made. -/
def Passed (all : List Name) (property : Name → Prop) : Main → Prop
  | .pausing rest => ∃ done, all = done ++ rest ∧ ∀ name ∈ done, property name
  | .requesting => ∀ name ∈ all, property name
  | .requested => ∀ name ∈ all, property name
  | _ => True

/-- What has been passed stays so if it holds of more. -/
theorem Passed.imp {all : List Name} {before after : Name → Prop} {main : Main}
    (kept : ∀ name, before name → after name) (passed : Passed all before main) :
    Passed all after main := by
  cases main with
  | command | activating => trivial
  | pausing =>
      obtain ⟨done, split, holds⟩ := passed
      exact ⟨done, split, fun name member => kept name (holds name member)⟩
  | requesting | requested => exact fun name member => kept name (passed name member)

/-- The mutex of a worker is held by the one inside, a call of it is made only where the
main thread makes it, and a call of `pause` leaves the worker paused behind its change. -/
structure Attended (main : Main) (name : Name) (state : State Unit (List Packet) Packet) :
    Prop where
  locked : Locked state
  calling : state.callers () = .idle ∨
    ∃ op, main.next = some (name, op) ∧ (state.callers ()).Runs op
  pausing : ∀ rest, main = .pausing (name :: rest) → (state.callers ()).Past → Paused state

/-- A worker that nobody calls is attended wherever the main thread is. -/
theorem Attended.of_idle {main : Main} {name : Name} {state : State Unit (List Packet) Packet}
    (locked : Locked state) (idle : state.callers () = .idle) : Attended main name state where
  locked := locked
  calling := .inl idle
  pausing := fun rest _ past => by
    rw [idle] at past
    exact past.elim

/-- Every worker is attended, and who has been paused for the request stays so. -/
structure Exclusive (servers : List DeviceDescriptor) (jobManager : Bool)
    (process : Process Maps) : Prop where
  attended : ∀ name, Attended process.main name (process.workers name)
  passed : Passed (workerThreads servers jobManager)
    (fun name => Paused (process.workers name)) process.main

namespace Exclusive

variable {process : Process Maps} {name : Name} {after : State Unit (List Packet) Packet}
  {label : WorkerThread.Label Unit (List Packet) Packet} {main : Main}

/-- A worker moves while its caller stays where it is. -/
theorem put (exclusive : Exclusive servers jobManager process) (locked : Locked after)
    (callers : after.callers = (process.workers name).callers)
    (kept : Paused (process.workers name) → Paused after) :
    Exclusive servers jobManager (process.put name after) := by
  obtain ⟨_, calling, pausing⟩ := exclusive.attended name
  rw [← callers] at calling pausing
  refine ⟨put_forall _ ⟨locked, calling, fun rest there past => ?_⟩ fun other _ =>
    exclusive.attended other, exclusive.passed.imp (put_paused kept)⟩
  exact kept (pausing rest there past)

/-- While the main thread makes no call, nobody is inside one. -/
theorem idle (exclusive : Exclusive servers jobManager process)
    (free : process.main.next = none) : (process.workers name).callers () = .idle := by
  rcases (exclusive.attended name).calling with idle | ⟨op, next, _⟩
  · exact idle
  · rw [free] at next
    cases next

/-- The main thread moves between two calls. -/
theorem advance (exclusive : Exclusive servers jobManager process)
    (free : process.main.next = none) (passed : Passed (workerThreads servers jobManager)
      (fun name => Paused (process.workers name)) main) :
    Exclusive servers jobManager { process with main } where
  attended := fun name => .of_idle (exclusive.attended name).locked (exclusive.idle free)
  passed := passed

/-- The main thread begins a call. -/
theorem enter {op : Op Packet} (exclusive : Exclusive servers jobManager process)
    (next : process.main.next = some (name, op))
    (moves : Moves process name (.call () op) after) :
    Exclusive servers jobManager (process.put name after) := by
  have locked := moves.locked (exclusive.attended name).locked
  have kept : Paused (process.workers name) → Paused after := fun paused =>
    moves.paused paused fun _ _ => nofun
  have entered := moves.caller_entered
  refine ⟨put_forall _ ⟨locked, .inr ⟨op, next, ?_⟩, fun rest there past => ?_⟩ fun other _ =>
    exclusive.attended other, exclusive.passed.imp (put_paused kept)⟩
  · rw [entered]
    exact rfl
  · rw [entered] at past
    exact past.elim

/-- Who goes on in a call is the main thread, in the call it makes. -/
theorem calls (exclusive : Exclusive servers jobManager process) (called : label.Called)
    (moves : Moves process name label after) : ∃ op, process.main.next = some (name, op) ∧
      ((process.workers name).callers ()).Runs op :=
  (exclusive.attended name).calling.resolve_left (moves.called_inside called)

/-- In a call of `pause` the worker stays paused, and is paused behind the change. -/
theorem pauses {rest : List Name} (exclusive : Exclusive servers jobManager process)
    (called : label.Called) (moves : Moves process name label after)
    (there : process.main = .pausing (name :: rest)) :
    (Paused (process.workers name) → Paused after) ∧
      (after.callers () = .idle ∨ (after.callers ()).Past → Paused after) := by
  obtain ⟨op, next, runs⟩ := exclusive.calls called moves
  rw [there] at next
  cases next
  have attended := exclusive.attended name
  exact ⟨moves.paused_of_runs runs,
    moves.pauses attended.locked called runs (attended.pausing rest there)⟩

/-- Whoever has been paused stays so during a call. -/
theorem passed_call (exclusive : Exclusive servers jobManager process) (called : label.Called)
    (moves : Moves process name label after) : Passed (workerThreads servers jobManager)
      (fun other => Paused ((process.put name after).workers other)) process.main := by
  have passed := exclusive.passed
  obtain ⟨op, next, _⟩ := exclusive.calls called moves
  rcases Main.next_cases next with ⟨calls, there⟩ | ⟨rest, there, _⟩ | ⟨rest, there, _⟩
  · rw [there]
    trivial
  · have kept := (exclusive.pauses called moves there).1
    exact passed.imp (put_paused kept)
  · rw [there]
    trivial

/-- The main thread goes on in its call. -/
theorem within (exclusive : Exclusive servers jobManager process) (called : label.Called)
    (moves : Moves process name label after) (inside : after.callers () ≠ .idle) :
    Exclusive servers jobManager (process.put name after) := by
  have locked := moves.locked (exclusive.attended name).locked
  obtain ⟨op, next, runs⟩ := exclusive.calls called moves
  have goes := (moves.runs called runs).resolve_left inside
  refine ⟨put_forall _ ⟨locked, .inr ⟨op, next, goes⟩, fun rest there past => ?_⟩ fun other _ =>
    exclusive.attended other, exclusive.passed_call called moves⟩
  exact (exclusive.pauses called moves there).2 (.inr past)

/-- Nobody but the worker that is called has a caller inside. -/
theorem idle_of_ne {other : Name} {op : Op Packet}
    (exclusive : Exclusive servers jobManager process)
    (next : process.main.next = some (name, op)) (different : other ≠ name) :
    (process.workers other).callers () = .idle := by
  rcases (exclusive.attended other).calling with idle | ⟨_, elsewhere, _⟩
  · exact idle
  · rw [next] at elsewhere
    cases elsewhere
    exact absurd rfl different

/-- A call returns. The worker that `pauseWorkerThreads` called is among those it has
passed. -/
theorem back (exclusive : Exclusive servers jobManager process) (called : label.Called)
    (moves : Moves process name label after) (outside : after.callers () = .idle) :
    Exclusive servers jobManager
      { process.put name after with main := process.main.returned } := by
  have locked := moves.locked (exclusive.attended name).locked
  obtain ⟨op, next, _⟩ := exclusive.calls called moves
  refine ⟨put_forall _ (.of_idle locked outside) fun other different =>
    .of_idle (exclusive.attended other).locked (exclusive.idle_of_ne next different), ?_⟩
  have passed := exclusive.passed_call called moves
  rcases Main.next_cases next with ⟨calls, there⟩ | ⟨rest, there, _⟩ | ⟨rest, there, _⟩
  · rw [there]
    trivial
  · have pauses := (exclusive.pauses called moves there).2
    rw [there] at passed ⊢
    obtain ⟨done, split, paused⟩ := passed
    refine ⟨done ++ [name], ?_, fun earlier member => ?_⟩
    · rw [split, List.append_assoc, List.singleton_append]
    · rcases List.mem_append.mp member with before | last
      · exact paused earlier before
      · rw [List.mem_singleton.mp last]
        change Paused ((process.put name after).workers name)
        rw [put_self]
        exact pauses (.inl outside)
  · rw [there]
    trivial

/-- The main thread begins its first call of `activate`. -/
theorem activate {rest : List Name} (exclusive : Exclusive servers jobManager process)
    (requested : process.main = .requested)
    (moves : Moves process name (.call () WorkerThread.activate) after) :
    Exclusive servers jobManager
      { process.put name after with main := .activating (name :: rest) } := by
  have free : process.main.next = none := by rw [requested]; rfl
  have locked := moves.locked (exclusive.attended name).locked
  have entered := moves.caller_entered
  refine ⟨put_forall _ ⟨locked, .inr ⟨_, rfl, ?_⟩, fun _ => nofun⟩ fun other _ =>
    .of_idle (exclusive.attended other).locked (exclusive.idle free), trivial⟩
  rw [entered]
  exact rfl

/-- Every step of the node keeps the workers attended and the paused ones paused. -/
theorem step {source target : Process Maps} {label : Label Maps}
    (exclusive : Exclusive servers jobManager source)
    (step : Step servers jobManager source label target) :
    Exclusive servers jobManager target := by
  have passed := exclusive.passed
  cases step with
  | worker name created own outer moves =>
      exact exclusive.put (moves.locked (exclusive.attended name).locked)
        (moves.callers_of_own own) (moves.paused_of_own own)
  | spurious name created waits =>
      refine exclusive.put ?_ rfl fun paused => ⟨paused.1, nofun⟩
      refine (exclusive.attended name).locked.of_same rfl fun holder => ?_
      cases holder with
      | worker =>
          rw [Holds, Holds, waits]
          exact Iff.rfl
      | caller => exact Iff.rfl
  | relock | reunlock | touch | request => exact ⟨exclusive.attended, passed⟩
  | command calls free =>
      exact exclusive.advance (by rw [free]; rfl) trivial
  | enter next moves => exact exclusive.enter next moves
  | within name called moves inside => exact exclusive.within called moves inside
  | back name called moves outside => exact exclusive.back called moves outside
  | syncRequest free =>
      refine exclusive.advance (by rw [free]; rfl) ⟨[], rfl, fun name member => ?_⟩
      cases member
  | sleep paused =>
      rw [paused] at passed
      obtain ⟨done, split, holds⟩ := passed
      rw [List.append_nil] at split
      refine exclusive.advance (by rw [paused]; rfl) ?_
      rw [← split] at holds
      exact holds
  | answered requests =>
      rw [requests] at passed
      exact exclusive.advance (by rw [requests]; rfl) passed
  | activate requested first moves => exact exclusive.activate requested moves
  | finish activated =>
      refine exclusive.advance ?_ trivial
      rcases activated with activated | ⟨requested, _⟩
      · rw [activated]
        rfl
      · rw [requested]
        rfl

/-- While the main thread is alone, every worker is paused. -/
theorem passed_all (exclusive : Exclusive servers jobManager process)
    (alone : process.main.Alone) (created : name ∈ workerThreads servers jobManager) :
    Paused (process.workers name) := by
  have passed := exclusive.passed
  cases there : process.main with
  | command | activating =>
      rw [there] at alone
      exact alone.elim
  | requesting | requested =>
      rw [there] at passed
      exact passed name created
  | pausing rest =>
      rw [there] at alone passed
      cases rest with
      | cons => exact alone.elim
      | nil =>
          obtain ⟨done, split, paused⟩ := passed
          rw [List.append_nil] at split
          exact paused name (split ▸ created)

end Exclusive

/-- Alone, the main thread has no call to make. -/
theorem Main.Alone.next {main : Main} (alone : main.Alone) : main.next = none := by
  cases main with
  | command | activating => exact alone.elim
  | requesting | requested => rfl
  | pausing rest =>
      cases rest with
      | nil => rfl
      | cons => exact alone.elim

/-- While the main thread is alone, a step neither wakes a paused worker nor changes the
maps, unless it is one of the request. -/
theorem Step.alone {source target : Process Maps} {label : Label Maps}
    (exclusive : Exclusive servers jobManager source) (alone : source.main.Alone)
    (step : Step servers jobManager source label target) :
    (∀ name ∈ workerThreads servers jobManager, Paused (target.workers name)) ∧
      (target.maps = source.maps ∨ label = .request target.maps) := by
  have paused : ∀ name ∈ workerThreads servers jobManager, Paused (source.workers name) :=
    fun name created => exclusive.passed_all alone created
  have free := alone.next
  cases step with
  | worker name created own outer moves =>
      exact ⟨fun other member => put_paused (moves.paused_of_own own) other (paused other member),
        .inl rfl⟩
  | spurious name created waits =>
      have kept : Paused (source.workers name) →
          Paused { source.workers name with worker := .notified } := fun paused =>
        ⟨paused.1, nofun⟩
      exact ⟨fun other member => put_paused kept other (paused other member), .inl rfl⟩
  | touch name maps created works => exact absurd works (paused name created).2
  | enter next moves =>
      rw [free] at next
      cases next
  | within name called moves | back name called moves =>
      obtain ⟨op, next, _⟩ := exclusive.calls called moves
      rw [free] at next
      cases next
  | activate requested first moves =>
      have kept := fun paused => moves.paused paused fun _ _ => nofun
      exact ⟨fun other member => put_paused kept other (paused other member), .inl rfl⟩
  | request maps requests => exact ⟨paused, .inr rfl⟩
  | relock | reunlock | command | syncRequest | sleep | answered | finish =>
      exact ⟨paused, .inl rfl⟩

/-- Before the first command. -/
def initial (maps : Maps) : Process Maps :=
  { workers := fun _ => { work := [] }, maps }

/-- At the beginning nobody waits for anyone. -/
theorem Exclusive.initial (maps : Maps) :
    Exclusive servers jobManager (initial maps) where
  attended := by
    refine fun name => .of_idle (fun holder => ?_) rfl
    cases holder with
    | worker | caller => exact iff_of_false id nofun
  passed := trivial

/-- **A synchronous request is undisturbed.** Between the last `pause` and the first
`activate` no worker is inside its work or goes there, and only the request changes the
maps. -/
theorem undisturbed {maps : Maps} {past : List (Process Maps × Label Maps)}
    {final : Process Maps}
    (run : Transition.Run (Step servers jobManager) (initial maps) past final)
    (alone : final.main.Alone) :
    (∀ name ∈ workerThreads servers jobManager, (final.workers name).worker ≠ .working) ∧
      ∀ label target, Step servers jobManager final label target →
        (∀ name ∈ workerThreads servers jobManager, (target.workers name).worker ≠ .working) ∧
          (target.maps = final.maps ∨ label = .request target.maps) := by
  have meets : Transition.Meets (fun _ _ => True) past := fun _ _ => trivial
  have exclusive : Exclusive servers jobManager final :=
    run.invariant _ (fun _ _ _ exclusive _ step => exclusive.step step) (.initial maps) meets
  refine ⟨fun name created => (exclusive.passed_all alone created).2, fun label target step => ?_⟩
  obtain ⟨paused, maps⟩ := step.alone exclusive alone
  exact ⟨fun name created => (paused name created).2, maps⟩

/-- The server is at work when the main thread begins to wait for its mutex. -/
theorem undisturbed_working :
    ∃ past final, Transition.Run (Step [{ addr := [] }] false) (initial ()) past final ∧
      final.main = .requesting ∧ ∀ name ∈ workerThreads [{ addr := [] }] false,
        (final.workers name).worker ≠ .working := by
  have created : Name.server { addr := [] } ∈ workerThreads [{ addr := [] }] false := .head _
  have begun : Transition.Run (Step [{ addr := [] }] false) (initial ()) [] (initial ()) := .nil
  have works := (begun.snoc (.worker _ created (by trivial) rfl (.lock rfl rfl))).snoc
    (.worker _ created (by trivial) rfl (.pass rfl rfl))
  have waits := (works.snoc (.syncRequest rfl)).snoc (.enter rfl (.call () pause rfl))
  have worked := (waits.snoc (.worker _ created (by trivial) rfl (.work [] rfl))).snoc
    (.worker _ created (by trivial) rfl (.unlock rfl))
  have paused := (worked.snoc (.within (.server { addr := [] }) (by trivial)
    (.acquire () rfl rfl) nofun)).snoc
      (.within (.server { addr := [] }) (by trivial) (.change () rfl) nofun)
  have returned := (paused.snoc (.within (.server { addr := [] }) (by trivial)
    (.releaseStatus () rfl) nofun)).snoc
      (.back (.server { addr := [] }) (by trivial) (.notify () rfl) rfl)
  have slept := returned.snoc (.sleep rfl)
  exact ⟨_, _, slept, rfl, (undisturbed slept trivial).1⟩

end Machine

end SyncRequest

end Bp2p
