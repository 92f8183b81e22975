import Bp2p.Lib.Turns
import Bp2p.SyncRequest

/-! # Closing the workers

`killWorkerThreads` closes the servers and then the job manager: `close` sets the status `KILL`
and joins the thread. A worker that is killed hears of it, takes at most five steps more and
works in at most one of them. The work of a server or of the job manager may wait for a peer
for ever, with the mutex held that `kill` locks. Closing the workers is stuck only behind a
work that does not return, and when it is done all workers have left their loops
(`Bp2p.Shutdown.killWorkerThreads_ends`). That a mutex which is asked for is granted in the end
is up to the scheduler: a worker that is not killed yet may take it again and again.
-/

namespace Bp2p

namespace WorkerThread

variable {Thread Work Change : Type} {modifies : Change → Work → Work} {ready : Work → Bool}
  {state after : State Thread Work Change} {label : Label Thread Work Change}

/-- The steps to the end of the loop. -/
def Worker.left : Worker → Nat
  | .atLock | .waiting | .notified => 5
  | .testing => 4
  | .working => 3
  | .worked => 2
  | .sleeping => 1
  | .exited => 0

/-- The times a worker works before the end of the loop. -/
def Worker.worksLeft : Worker → Nat
  | .worked | .sleeping | .exited => 0
  | _ => 1

/-- The step in which a worker works. -/
def Label.Works : Label Thread Work Change → Bool
  | .work _ => true
  | _ => false

/-- A killed worker that waits is about to be notified. -/
def Heard (state : State Thread Work Change) : Prop :=
  state.status = .kill → state.worker = .waiting → ∃ thread, (state.callers thread).Notifies

variable [DecidableEq Thread]

/-- A step of a killed worker brings it nearer to the end of its loop. -/
theorem Step.killed (step : Step modifies ready state label after) (killed : state.status = .kill)
    (own : label.Own) :
    after.status = .kill ∧ after.worker.left + 1 = state.worker.left ∧
      after.worker.worksLeft + (if label.Works then 1 else 0) = state.worker.worksLeft := by
  cases step with
  | lock there | pass there | wake there | work _ there | unlock there =>
      rw [there]
      exact ⟨killed, rfl, rfl⟩
  | wait tests fails =>
      simp only [wakes, killed, beq_self_eq_true, Bool.or_true, reduceCtorEq] at fails
  | loop sleeps =>
      rw [sleeps, if_pos killed]
      exact ⟨killed, rfl, rfl⟩
  | call | acquire | change | releaseModify | releaseStatus | notify => exact own.elim

/-- A caller that is about to notify still is when another one moves. -/
theorem notifies_of_move {thread : Thread} {caller : Caller Change}
    (quiet : ¬ (state.callers thread).Notifies)
    (notified : ∃ other, (state.callers other).Notifies) :
    ∃ other, (Function.update state.callers thread caller other).Notifies := by
  obtain ⟨other, notifies⟩ := notified
  have different : other ≠ thread := fun same => quiet (same ▸ notifies)
  exact ⟨other, by rwa [Function.update_of_ne different]⟩

/-- Who sets the status `KILL` notifies behind it, and a killed worker does not begin to wait. -/
theorem Step.heard (heard : Heard state) (step : Step modifies ready state label after) :
    Heard after := by
  intro killed waits
  cases step with
  | lock | pass | wake | work | unlock => cases waits
  | wait tests fails =>
      have killed : state.status = .kill := killed
      simp only [wakes, killed, beq_self_eq_true, Bool.or_true, reduceCtorEq] at fails
  | loop =>
      simp only at waits
      split at waits
      · cases waits
      · cases waits
  | call thread op outside =>
      refine notifies_of_move ?_ (heard killed waits)
      rw [outside]
      exact id
  | acquire thread inside free =>
      refine notifies_of_move ?_ (heard killed waits)
      rw [inside]
      exact id
  | @change thread op holds =>
      cases op with
      | modify change =>
          have quiet : ¬ (state.callers thread).Notifies := by
            rw [holds]
            exact id
          exact notifies_of_move quiet (heard killed waits)
      | setStatus status =>
          refine ⟨thread, ?_⟩
          simp only [move, Function.update_self]
          trivial
  | releaseModify thread done =>
      refine notifies_of_move ?_ (heard killed waits)
      rw [done]
      exact id
  | releaseStatus thread done =>
      refine ⟨thread, ?_⟩
      simp only [move, Function.update_self]
      trivial
  | notify =>
      simp only at waits
      split at waits
      · cases waits
      · next other => exact absurd waits other

/-- A killed worker that does not wait goes on while nobody else is inside. -/
theorem Locked.killed_steps (locked : Locked state) (killed : state.status = .kill)
    (outside : ∀ thread, ¬ (state.callers thread).Inside) (awake : state.worker ≠ .waiting) :
    state.worker = .exited ∨
      ∃ label after, label.Own ∧ Step modifies ready state label after := by
  have free : ¬ state.worker.Inside → state.owner = none := by
    intro out
    cases owned : state.owner with
    | none => rfl
    | some holder =>
        have holds := (locked holder).mpr owned
        cases holder with
        | worker => exact absurd holds out
        | caller thread => exact absurd holds (outside thread)
  cases there : state.worker with
  | exited => exact .inl rfl
  | waiting => exact absurd there awake
  | atLock => exact .inr ⟨.lock, _, trivial, .lock there (free (by rw [there]; exact id))⟩
  | notified => exact .inr ⟨.wake, _, trivial, .wake there (free (by rw [there]; exact id))⟩
  | testing =>
      refine .inr ⟨.test, _, trivial, .pass there ?_⟩
      simp only [wakes, killed, beq_self_eq_true, Bool.or_true]
  | working => exact .inr ⟨.work state.work, _, trivial, .work _ there⟩
  | worked => exact .inr ⟨.unlock, _, trivial, .unlock there⟩
  | sleeping => exact .inr ⟨.loop, _, trivial, .loop there⟩

/-- Who waits for the mutex gets it, or the worker has it and goes on. -/
theorem Locked.entered_steps {thread : Thread} {op : Op Change} (locked : Locked state)
    (entered : state.callers thread = .entered op)
    (outside : ∀ thread, ¬ (state.callers thread).Inside) :
    ∃ label after, (label = .acquire thread ∨ label.Own) ∧
      Step modifies ready state label after := by
  cases owned : state.owner with
  | none => exact ⟨.acquire thread, _, .inl rfl, .acquire thread entered owned⟩
  | some holder =>
      have holds := (locked holder).mpr owned
      cases holder with
      | caller other => exact absurd holds (outside other)
      | worker =>
          simp only [Holds] at holds
          cases there : state.worker with
          | atLock | waiting | notified | sleeping | exited =>
              rw [there] at holds
              exact holds.elim
          | working => exact ⟨.work state.work, _, .inr trivial, .work _ there⟩
          | worked => exact ⟨.unlock, _, .inr trivial, .unlock there⟩
          | testing =>
              cases tested : wakes ready state with
              | true => exact ⟨.test, _, .inr trivial, .pass there tested⟩
              | false => exact ⟨.test, _, .inr trivial, .wait there tested⟩

theorem Step.status_of_own (own : label.Own) (step : Step modifies ready state label after) :
    after.status = state.status := by
  cases step with
  | lock | pass | wait | wake | work | unlock | loop => rfl
  | call | acquire | change | releaseModify | releaseStatus | notify => exact own.elim

/-- A caller leaves the worker where it is, or wakes it. -/
theorem Step.worker_of_call (other : ¬ label.Own) (step : Step modifies ready state label after) :
    after.worker = state.worker ∨ state.worker = .waiting ∧ after.worker = .notified := by
  cases step with
  | lock | pass | wait | wake | work | unlock | loop => exact absurd trivial other
  | call | acquire | releaseModify | releaseStatus => exact .inl rfl
  | @change thread op => cases op <;> exact .inl rfl
  | notify =>
      simp only
      split
      · next waits => exact .inr ⟨waits, rfl⟩
      · exact .inl rfl

/-- A worker that has left its loop stays outside. -/
theorem Step.exited (exited : state.worker = .exited)
    (step : Step modifies ready state label after) : after.worker = .exited := by
  by_cases own : label.Own
  · cases step with
    | lock there | pass there | wait there | wake there | work _ there | unlock there
      | loop there =>
        rw [exited] at there
        cases there
    | call | acquire | change | releaseModify | releaseStatus | notify => exact own.elim
  · rcases step.worker_of_call own with same | ⟨waits, _⟩
    · rw [same, exited]
    · rw [exited] at waits
      cases waits

section Unit

variable {state after : State Unit Work Change} {label : Label Unit Work Change}

/-- A call of `kill` leaves the status `KILL`. -/
theorem Step.killed_of_runs (runs : (state.callers ()).Runs kill)
    (step : Step modifies ready state label after) (killed : state.status = .kill) :
    after.status = .kill := by
  cases step with
  | lock | pass | wait | wake | work | unlock | loop | call | acquire | releaseModify
    | releaseStatus | notify => exact killed
  | change thread holds =>
      rw [holds] at runs
      cases runs
      rfl

/-- Behind its change a call of `kill` has killed the worker. -/
theorem Step.killed_of_past (called : label.Called) (runs : (state.callers ()).Runs kill)
    (past : (state.callers ()).Past → state.status = .kill)
    (step : Step modifies ready state label after)
    (left : after.callers () = .idle ∨ (after.callers ()).Past) : after.status = .kill := by
  cases step with
  | lock | pass | wait | wake | work | unlock | loop | call => exact called.elim
  | acquire =>
      simp only [move, Function.update_self] at left
      rcases left with idle | past
      · cases idle
      · cases past
  | change thread holds =>
      rw [holds] at runs
      cases runs
      rfl
  | releaseModify thread done | releaseStatus thread done | notify thread done =>
      apply past
      rw [done]
      trivial

end Unit

end WorkerThread

namespace Shutdown

open WorkerThread SyncRequest

/-- Where the main thread is in `killWorkerThreads`, with the workers that are not closed
yet: in front of the `kill` of the first one or inside it, or at the `join` behind it. -/
inductive Main
  | killing (rest : List Name)
  | joining (rest : List Name)

/-- The workers, those whose work does not return, and the main thread that closes them. -/
structure Closing where
  workers : Name → State Unit (List Packet) Packet
  hung : Name → Bool := fun _ => false
  main : Main

/-- What happens while the workers are closed. -/
inductive Label
  | worker (name : Name) (label : WorkerThread.Label Unit (List Packet) Packet)
  | spurious (name : Name)
  | hang (name : Name)
  | kill (name : Name) (label : WorkerThread.Label Unit (List Packet) Packet)
  | join (name : Name)

/-- A worker moves. -/
def Closing.put (closing : Closing) (name : Name) (worker : State Unit (List Packet) Packet)
    (main : Main) : Closing :=
  { closing with workers := Function.update closing.workers name worker, main }

/-- The step of a worker and of the call that kills it. -/
abbrev Moves (closing : Closing) (name : Name) :
    WorkerThread.Label Unit (List Packet) Packet → State Unit (List Packet) Packet → Prop :=
  WorkerThread.Step JobManager.insertJob (predicate name) (closing.workers name)

/-- Every worker goes on while the main thread closes one after the other. A wait may end by
itself, any work may turn out not to return, and what a worker inserts into its own queue is
part of its work. -/
inductive Step (all : List Name) : Closing → Label → Closing → Prop
  | worker {closing : Closing} (name : Name)
      {label : WorkerThread.Label Unit (List Packet) Packet}
      {after : State Unit (List Packet) Packet} (created : name ∈ all) (own : label.Own)
      (returns : label.Works = true → closing.hung name = false)
      (moves : Moves closing name label after) :
      Step all closing (.worker name label) (closing.put name after closing.main)
  | spurious {closing : Closing} (name : Name) (created : name ∈ all)
      (waits : (closing.workers name).worker = .waiting) :
      Step all closing (.spurious name)
        (closing.put name { closing.workers name with worker := .notified } closing.main)
  | hang {closing : Closing} (name : Name) (created : name ∈ all)
      (works : (closing.workers name).worker = .working) :
      Step all closing (.hang name)
        { closing with hung := Function.update closing.hung name true }
  | enter {closing : Closing} {name : Name} {rest : List Name}
      {after : State Unit (List Packet) Packet} (next : closing.main = .killing (name :: rest))
      (moves : Moves closing name (.call () kill) after) :
      Step all closing (.kill name (.call () kill)) (closing.put name after closing.main)
  | within {closing : Closing} {name : Name} {rest : List Name}
      {label : WorkerThread.Label Unit (List Packet) Packet}
      {after : State Unit (List Packet) Packet} (next : closing.main = .killing (name :: rest))
      (called : label.Called) (moves : Moves closing name label after)
      (inside : after.callers () ≠ .idle) :
      Step all closing (.kill name label) (closing.put name after closing.main)
  | back {closing : Closing} {name : Name} {rest : List Name}
      {label : WorkerThread.Label Unit (List Packet) Packet}
      {after : State Unit (List Packet) Packet} (next : closing.main = .killing (name :: rest))
      (called : label.Called) (moves : Moves closing name label after)
      (outside : after.callers () = .idle) :
      Step all closing (.kill name label) (closing.put name after (.joining (name :: rest)))
  | join {closing : Closing} {name : Name} {rest : List Name}
      (next : closing.main = .joining (name :: rest))
      (exited : (closing.workers name).worker = .exited) :
      Step all closing (.join name) { closing with main := .killing rest }

/-- A worker and its caller while the workers are closed: only the worker that is next may be
called, and behind the change it is killed. -/
structure Tended (called : Prop) (state : State Unit (List Packet) Packet) : Prop where
  locked : Locked state
  heard : Heard state
  calling : state.callers () = .idle ∨ called ∧ (state.callers ()).Runs kill
  past : (state.callers ()).Past → state.status = .kill

section Tended

variable {called : Prop} {name : Name} {state after : State Unit (List Packet) Packet}
  {label : WorkerThread.Label Unit (List Packet) Packet} {ready : List Packet → Bool}

/-- The worker's own steps leave it tended. -/
theorem Tended.own (tended : Tended called state) (own : label.Own)
    (moves : WorkerThread.Step JobManager.insertJob ready state label after) :
    Tended called after := by
  refine ⟨moves.locked tended.locked, moves.heard tended.heard, ?_, ?_⟩
  · rw [moves.callers_of_own own]
    exact tended.calling
  · rw [moves.callers_of_own own, moves.status_of_own own]
    exact tended.past

/-- A spurious wake-up leaves the worker tended. -/
theorem Tended.spurious (tended : Tended called state) (waits : state.worker = .waiting) :
    Tended called { state with worker := .notified } := by
  refine ⟨tended.locked.of_same rfl fun holder => ?_, fun _ there => ?_, tended.calling,
    tended.past⟩
  · cases holder with
    | worker =>
        simp only [Holds, waits]
        exact Iff.rfl
    | caller thread => exact Iff.rfl
  · cases there

/-- A kill that is entered is the main thread's. -/
theorem Tended.enter (tended : Tended called state) (next : called)
    (moves : WorkerThread.Step JobManager.insertJob ready state (.call () kill) after) :
    Tended called after := by
  have entered := moves.caller_entered
  refine ⟨moves.locked tended.locked, moves.heard tended.heard, .inr ⟨next, ?_⟩, fun past => ?_⟩
  · rw [entered]
    exact rfl
  · rw [entered] at past
    exact past.elim

theorem Tended.of_idle {other : Prop} (tended : Tended called state)
    (idle : state.callers () = .idle) : Tended other state :=
  ⟨tended.locked, tended.heard, .inl idle, tended.past⟩

theorem Tended.idle_of_not (tended : Tended called state) (other : ¬ called) :
    state.callers () = .idle :=
  tended.calling.resolve_right fun runs => other runs.1

theorem Tended.runs (tended : Tended called state) (inside : label.Called)
    (moves : WorkerThread.Step JobManager.insertJob ready state label after) :
    called ∧ (state.callers ()).Runs kill :=
  tended.calling.resolve_left (moves.called_inside inside)

/-- The main thread's steps leave the worker tended. -/
theorem Tended.call (tended : Tended called state) (inside : label.Called)
    (moves : WorkerThread.Step JobManager.insertJob ready state label after) :
    Tended called after := by
  obtain ⟨next, runs⟩ := tended.runs inside moves
  refine ⟨moves.locked tended.locked, moves.heard tended.heard, ?_, fun past => ?_⟩
  · exact (moves.runs inside runs).imp_right fun runs => ⟨next, runs⟩
  · exact moves.killed_of_past inside runs tended.past (.inr past)

end Tended

/-- The worker is the one that is being killed. -/
def Main.Kills (main : Main) (name : Name) : Prop := ∃ rest, main = .killing (name :: rest)

/-- The workers that are passed have left their loops, and the one that is joined is killed. -/
def Stage (all : List Name) (workers : Name → State Unit (List Packet) Packet) : Main → Prop
  | .killing rest =>
      ∃ done, all = done ++ rest ∧ ∀ name ∈ done, (workers name).worker = .exited
  | .joining rest =>
      ∃ done name tail, all = done ++ rest ∧ rest = name :: tail ∧
        (workers name).status = .kill ∧ ∀ name ∈ done, (workers name).worker = .exited

/-- Every worker is tended, and the main thread is where the workers say. -/
structure Tidy (all : List Name) (closing : Closing) : Prop where
  tended : ∀ name, Tended (closing.main.Kills name) (closing.workers name)
  stage : Stage all closing.workers closing.main

variable {all : List Name} {closing after : Closing} {label : Label} {main : Main}
  {name : Name} {state : State Unit (List Packet) Packet}

theorem Closing.put_same : (closing.put name state main).workers name = state :=
  Function.update_self ..

theorem Closing.put_other {other : Name} (different : name ≠ other) :
    (closing.put other state main).workers name = closing.workers name :=
  Function.update_of_ne different ..

/-- A stage is kept while nobody comes back. -/
theorem Stage.imp {before workers : Name → State Unit (List Packet) Packet}
    (exited : ∀ name, (before name).worker = .exited → (workers name).worker = .exited)
    (killed : ∀ name, (before name).status = .kill → (workers name).status = .kill)
    (stage : Stage all before main) : Stage all workers main := by
  cases main with
  | killing rest =>
      obtain ⟨done, split, left⟩ := stage
      exact ⟨done, split, fun name member => exited name (left name member)⟩
  | joining rest =>
      obtain ⟨done, name, tail, split, front, kills, left⟩ := stage
      exact ⟨done, name, tail, split, front, killed name kills,
        fun name member => exited name (left name member)⟩

/-- One worker moves and the main thread stays where it is. -/
theorem Tidy.put (tidy : Tidy all closing) (tended : Tended (closing.main.Kills name) state)
    (exited : (closing.workers name).worker = .exited → state.worker = .exited)
    (killed : (closing.workers name).status = .kill → state.status = .kill) :
    Tidy all (closing.put name state closing.main) where
  tended := (Function.forall_update_iff closing.workers fun name state =>
    Tended (closing.main.Kills name) state).mpr ⟨tended, fun other _ => tidy.tended other⟩
  stage := tidy.stage.imp
    ((Function.forall_update_iff closing.workers fun name state =>
      (closing.workers name).worker = .exited → state.worker = .exited).mpr
      ⟨exited, fun _ _ => id⟩)
    ((Function.forall_update_iff closing.workers fun name state =>
      (closing.workers name).status = .kill → state.status = .kill).mpr
      ⟨killed, fun _ _ => id⟩)

/-- A step leaves all tidy. -/
theorem Step.tidy (step : Step all closing label after) (tidy : Tidy all closing) :
    Tidy all after := by
  cases step with
  | hang => exact ⟨tidy.tended, tidy.stage⟩
  | worker name created own returns moves =>
      exact tidy.put ((tidy.tended name).own own moves) (fun exited => moves.exited exited)
        fun killed => (moves.status_of_own own).trans killed
  | spurious name created waits =>
      refine tidy.put ((tidy.tended name).spurious waits) (fun exited => ?_) id
      rw [waits] at exited
      cases exited
  | @enter name rest state next moves =>
      refine tidy.put ((tidy.tended name).enter ⟨rest, next⟩ moves)
        (fun exited => moves.exited exited) fun killed => ?_
      cases moves with
      | call => exact killed
  | @within name rest label state next called moves inside =>
      exact tidy.put ((tidy.tended name).call called moves) (fun exited => moves.exited exited)
        (moves.killed_of_runs ((tidy.tended name).runs called moves).2)
  | @back name rest label state next called moves outside =>
      have kills := (tidy.tended name).runs called moves
      have killed : state.status = .kill := moves.killed_of_past called kills.2
        (tidy.tended name).past (.inl outside)
      have others : ∀ other, other ≠ name → (closing.workers other).callers () = .idle :=
        fun other different => (tidy.tended other).idle_of_not fun ⟨tail, there⟩ => by
          rw [next] at there
          cases there
          exact different rfl
      have stage := (tidy.put ((tidy.tended name).call called moves)
        (fun exited => moves.exited exited) fun _ => killed).stage
      obtain ⟨done, split, left⟩ := next ▸ stage
      constructor
      · exact (Function.forall_update_iff closing.workers fun other state =>
          Tended (Main.Kills (.joining (name :: rest)) other) state).mpr
          ⟨((tidy.tended name).call called moves).of_idle outside,
            fun other different => (tidy.tended other).of_idle (others other different)⟩
      · refine ⟨done, name, rest, split, rfl, ?_, left⟩
        rw [Closing.put_same]
        exact killed
  | @join name rest next exited =>
      have stage := tidy.stage
      rw [next] at stage
      obtain ⟨done, first, tail, split, front, _, left⟩ := stage
      cases front
      constructor
      · intro other
        refine (tidy.tended other).of_idle ((tidy.tended other).idle_of_not ?_)
        rintro ⟨tail, there⟩
        rw [next] at there
        cases there
      · refine ⟨done ++ [name], ?_, fun other member => ?_⟩
        · rw [split, List.append_assoc, List.singleton_append]
        · rcases List.mem_append.mp member with earlier | latest
          · exact left other earlier
          · rw [List.mem_singleton.mp latest]
            exact exited

/-- The main thread is closing the worker. -/
def Main.Awaits (main : Main) (name : Name) : Prop :=
  ∃ rest, main = .killing (name :: rest) ∨ main = .joining (name :: rest)

/-- A step of the main thread, or of the worker that it is closing. -/
def Closes : Main → Label → Prop
  | _, .kill _ _ => True
  | _, .join _ => True
  | .killing (first :: _), .worker name _ => name = first
  | .joining (first :: _), .worker name _ => name = first
  | _, _ => False

/-- A step of the call that is not its last one. -/
theorem kill_step {rest : List Name} (label : WorkerThread.Label Unit (List Packet) Packet)
    (next : closing.main = .killing (name :: rest)) (called : label.Called)
    (moves : Moves closing name label state) (inside : state.callers () ≠ .idle) :
    ∃ label after, Step all closing label after ∧ Closes closing.main label :=
  ⟨_, _, .within next called moves inside, trivial⟩

/-- The main thread goes on with the `kill` of a worker, or the worker goes on. -/
theorem Tidy.kill_steps {rest : List Name} (tidy : Tidy all closing)
    (next : closing.main = .killing (name :: rest)) (created : name ∈ all)
    (returns : closing.hung name = false) :
    ∃ label after, Step all closing label after ∧ Closes closing.main label := by
  have tended := tidy.tended name
  cases there : (closing.workers name).callers () with
  | idle => exact ⟨_, _, .enter next (.call () kill there), trivial⟩
  | entered op =>
      have goes : ∃ label state, (label = .acquire () ∨ label.Own) ∧
          Moves closing name label state :=
        tended.locked.entered_steps there fun _ => by
          rw [there]
          exact id
      obtain ⟨label, state, rfl | own, moves⟩ := goes
      · refine kill_step (.acquire ()) next trivial moves ?_
        cases moves with
        | acquire => simp only [move, Function.update_self, ne_eq, reduceCtorEq, not_false_eq_true]
      · refine ⟨_, _, .worker name created own (fun _ => returns) moves, ?_⟩
        rw [next]
        exact rfl
  | holding op =>
      refine kill_step (.change ()) next trivial (.change () there) ?_
      simp only [move, Function.update_self, ne_eq, reduceCtorEq, not_false_eq_true]
  | changed op =>
      have runs := (tended.calling.resolve_left (by rw [there]; intro same; cases same)).2
      rw [there] at runs
      cases runs
      refine kill_step (.release ()) next trivial (.releaseStatus () there) ?_
      simp only [move, Function.update_self, ne_eq, reduceCtorEq, not_false_eq_true]
  | released =>
      have last : Moves closing name (.notify ()) _ := .notify () there
      have called : (WorkerThread.Label.notify () :
        WorkerThread.Label Unit (List Packet) Packet).Called := trivial
      refine ⟨_, _, .back next called last ?_, trivial⟩
      simp only [move, Function.update_self]

/-- Closing the workers goes on until all of them are closed, or the work of the one that is
being closed does not return. -/
theorem Tidy.goes_on (tidy : Tidy all closing) :
    closing.main = .killing [] ∨
      (∃ name, closing.main.Awaits name ∧ closing.hung name = true) ∨
        ∃ label after, Step all closing label after ∧ Closes closing.main label := by
  by_cases hangs : ∃ name, closing.main.Awaits name ∧ closing.hung name = true
  · exact .inr (.inl hangs)
  have returns : ∀ name, closing.main.Awaits name → closing.hung name = false :=
    fun name awaits => Bool.eq_false_iff.mpr fun hung => hangs ⟨name, awaits, hung⟩
  have stage := tidy.stage
  cases there : closing.main with
  | killing rest =>
      rw [there] at stage returns
      obtain ⟨done, split, _⟩ := stage
      cases rest with
      | nil => exact .inl rfl
      | cons name rest =>
          right
          right
          rw [← there]
          refine tidy.kill_steps there ?_ (returns name ⟨rest, .inl rfl⟩)
          rw [split]
          exact List.mem_append_right _ List.mem_cons_self
  | joining rest =>
      right
      right
      rw [there] at stage returns
      obtain ⟨done, name, tail, split, rfl, killed, _⟩ := stage
      have tended := tidy.tended name
      have idle : (closing.workers name).callers () = .idle := by
        refine tended.idle_of_not ?_
        rintro ⟨tail, kills⟩
        rw [there] at kills
        cases kills
      have awake : (closing.workers name).worker ≠ .waiting := by
        intro waits
        obtain ⟨thread, notifies⟩ := tended.heard killed waits
        rw [show (closing.workers name).callers thread = .idle from idle] at notifies
        exact notifies
      have goes : (closing.workers name).worker = .exited ∨
          ∃ label state, label.Own ∧ Moves closing name label state :=
        tended.locked.killed_steps killed (fun thread => by
          rw [show (closing.workers name).callers thread = .idle from idle]
          exact id) awake
      rcases goes with exited | ⟨label, state, own, moves⟩
      · exact ⟨_, _, .join there exited, trivial⟩
      · have created : name ∈ all := by
          rw [split]
          exact List.mem_append_right _ List.mem_cons_self
        exact ⟨_, _, .worker name created own (fun _ => returns name ⟨tail, .inr rfl⟩) moves, rfl⟩

/-- What a measure of the place of a worker comes to while it is not killed is its bound. -/
def due (measure : Worker → Nat) (bound : Nat) (state : State Unit (List Packet) Packet) : Nat :=
  if state.status = .kill then measure state.worker else bound

/-- What the steps cost that a worker takes when it is killed. -/
def spends (name : Name) (cost : WorkerThread.Label Unit (List Packet) Packet → Nat)
    (closing : Closing) : Label → Nat
  | .worker other label =>
      if other = name ∧ (closing.workers name).status = .kill then cost label else 0
  | _ => 0

section Spends

variable {measure : Worker → Nat} {bound : Nat}
  {cost : WorkerThread.Label Unit (List Packet) Packet → Nat}
  {before : State Unit (List Packet) Packet}

/-- The worker stays where it is or is woken, and stays killed if it is. -/
structure Stays (before state : State Unit (List Packet) Packet) : Prop where
  killed : before.status = .kill → state.status = .kill
  there : state.worker = before.worker ∨ before.worker = .waiting ∧ state.worker = .notified

theorem Stays.refl : Stays state state := ⟨id, .inl rfl⟩

/-- What stays has no more due than before. -/
theorem Stays.due_le (stays : Stays before state) (low : ∀ worker, measure worker ≤ bound)
    (wakes : measure .notified ≤ measure .waiting) :
    due measure bound state ≤ due measure bound before := by
  unfold due
  by_cases kills : before.status = .kill
  · rw [if_pos kills, if_pos (stays.killed kills)]
    rcases stays.there with same | ⟨waits, woken⟩
    · rw [same]
    · rw [waits, woken]
      exact wakes
  · rw [if_neg kills]
    split
    · exact low _
    · exact Nat.le_refl _

/-- The main thread's steps let the worker stay, or wake it. -/
theorem Tended.stays {called : Prop} {ready : List Packet → Bool}
    {label : WorkerThread.Label Unit (List Packet) Packet} (tended : Tended called before)
    (inside : label.Called)
    (moves : WorkerThread.Step JobManager.insertJob ready before label state) :
    Stays before state := by
  refine ⟨moves.killed_of_runs (tended.runs inside moves).2, moves.worker_of_call fun own => ?_⟩
  cases label <;> first | exact inside | exact own

/-- A worker takes a step of its own, or it stays. -/
theorem Step.worker_cases (tidy : Tidy all closing) (step : Step all closing label after)
    (name : Name) :
    (∃ own, label = .worker name own ∧ own.Own ∧ Moves closing name own (after.workers name)) ∨
      (∀ own, label ≠ .worker name own) ∧ Stays (closing.workers name) (after.workers name) := by
  have put : ∀ {other : Name} {state : State Unit (List Packet) Packet} {main : Main},
      (name = other → Stays (closing.workers name) state) →
        Stays (closing.workers name) ((closing.put other state main).workers name) := by
    intro other state main self
    by_cases same : name = other
    · subst same
      rw [Closing.put_same]
      exact self rfl
    · rw [Closing.put_other same]
      exact .refl
  cases step with
  | hang => exact .inr ⟨(by rintro _ ⟨⟩), .refl⟩
  | @worker other label state created own returns moves =>
      by_cases same : name = other
      · subst same
        refine .inl ⟨label, rfl, own, ?_⟩
        rw [Closing.put_same]
        exact moves
      · refine .inr ⟨fun _ equal => ?_, put fun same' => absurd same' same⟩
        cases equal
        exact same rfl
  | @spurious other created waits =>
      refine .inr ⟨(by rintro _ ⟨⟩), put fun same => ?_⟩
      subst same
      exact ⟨id, .inr ⟨waits, rfl⟩⟩
  | @enter other rest state next moves =>
      refine .inr ⟨(by rintro _ ⟨⟩), put fun same => ?_⟩
      subst same
      cases moves with
      | call => exact ⟨id, .inl rfl⟩
  | @within other rest label state next inside moves
    | @back other rest label state next inside moves =>
      refine .inr ⟨(by rintro _ ⟨⟩), put fun same => ?_⟩
      subst same
      exact (tidy.tended name).stays inside moves
  | join => exact .inr ⟨(by rintro _ ⟨⟩), .refl⟩

/-- A measure that pays for the steps of a killed worker is not raised by any other step. -/
theorem Step.due_le (low : ∀ worker, measure worker ≤ bound)
    (wakes : measure .notified ≤ measure .waiting)
    (pays : ∀ {before state label}, WorkerThread.Step JobManager.insertJob (predicate name) before
      label state → before.status = .kill → label.Own →
        measure state.worker + cost label ≤ measure before.worker)
    (tidy : Tidy all closing) (step : Step all closing label after) :
    due measure bound (after.workers name) + spends name cost closing label ≤
      due measure bound (closing.workers name) := by
  rcases step.worker_cases tidy name with ⟨own, rfl, kind, moves⟩ | ⟨other, stays⟩
  · have status := moves.status_of_own kind
    unfold due spends
    rw [status]
    by_cases kills : (closing.workers name).status = .kill
    · simp only [kills, and_self, ↓reduceIte]
      exact pays moves kills kind
    · simp only [kills, and_false, ↓reduceIte, Nat.add_zero, Nat.le_refl]
  · have free : spends name cost closing label = 0 := by
      unfold spends
      cases label with
      | worker owner own =>
          refine if_neg fun same => other own ?_
          rw [same.1]
      | spurious | hang | kill | join => rfl
    rw [free, Nat.add_zero]
    exact stays.due_le low wakes

end Spends

/-- The steps of the main thread. -/
def calls (_ : Closing) : Label → Nat
  | .kill _ _ => 1
  | .join _ => 1
  | _ => 0

/-- The steps of a call of `kill` and of the `join` behind it. -/
def callLeft : Caller Packet → Nat
  | .idle => 6
  | .entered _ => 5
  | .holding _ => 4
  | .changed _ => 3
  | .released => 2

/-- The steps the main thread has left. -/
def callsLeft (closing : Closing) : Main → Nat
  | .killing [] => 0
  | .killing (name :: rest) => callLeft ((closing.workers name).callers ()) + 6 * rest.length
  | .joining rest => 1 + 6 * (rest.length - 1)

theorem callLeft_le (caller : Caller Packet) : callLeft caller ≤ 6 := by
  cases caller <;> simp only [callLeft, Nat.reduceLeDiff, le_refl]

/-- Each worker that is to be closed has at most six. -/
theorem callsLeft_killing_le (rest : List Name) :
    callsLeft closing (.killing rest) ≤ 6 * rest.length := by
  cases rest with
  | nil => exact Nat.le_refl _
  | cons name rest =>
      have le := callLeft_le ((closing.workers name).callers ())
      rw [callsLeft, List.length_cons]
      omega

/-- A step of a call is one less to take. -/
theorem callLeft_called {ready : List Packet → Bool} {before : State Unit (List Packet) Packet}
    {label : WorkerThread.Label Unit (List Packet) Packet} (called : label.Called)
    (moves : WorkerThread.Step JobManager.insertJob ready before label state) :
    (state.callers () = .idle → 2 ≤ callLeft (before.callers ())) ∧
      (state.callers () ≠ .idle →
        callLeft (state.callers ()) + 1 = callLeft (before.callers ())) := by
  cases moves with
  | lock | pass | wait | wake | work | unlock | loop | call => exact called.elim
  | acquire thread there =>
      rw [there]
      simp only [move, Function.update_self]
      exact ⟨(by rintro ⟨⟩), fun _ => rfl⟩
  | change thread there =>
      rw [there]
      simp only [move, Function.update_self]
      exact ⟨(by rintro ⟨⟩), fun _ => rfl⟩
  | releaseModify thread there =>
      rw [there]
      simp only [move, Function.update_self]
      exact ⟨fun _ => by simp only [callLeft, Nat.reduceLeDiff], fun other => absurd rfl other⟩
  | releaseStatus thread there =>
      rw [there]
      simp only [move, Function.update_self]
      exact ⟨(by rintro ⟨⟩), fun _ => rfl⟩
  | notify thread there =>
      rw [there]
      simp only [move, Function.update_self]
      exact ⟨fun _ => Nat.le_refl _, fun other => absurd rfl other⟩

/-- A step of a worker leaves the main thread where it is. -/
theorem callsLeft_put (callers : state.callers = (closing.workers name).callers) :
    callsLeft (closing.put name state main) main = callsLeft closing main := by
  cases main with
  | joining rest => rfl
  | killing rest =>
      cases rest with
      | nil => rfl
      | cons first rest =>
          rw [callsLeft, callsLeft]
          by_cases same : first = name
          · rw [same, Closing.put_same, callers]
          · rw [Closing.put_other same]

theorem callsLeft_put_same (rest : List Name) :
    callsLeft (closing.put name state main) (.killing (name :: rest)) =
      callLeft (state.callers ()) + 6 * rest.length := by
  rw [callsLeft, Closing.put_same]

/-- The main thread pays for every step it takes. -/
theorem Step.calls_le (step : Step all closing label after) :
    callsLeft after after.main + calls closing label ≤ callsLeft closing closing.main := by
  cases step with
  | hang => exact Nat.le_refl _
  | worker name created own returns moves =>
      exact Nat.le_of_eq (callsLeft_put (moves.callers_of_own own))
  | spurious name created waits => exact Nat.le_of_eq (callsLeft_put rfl)
  | @enter name rest state next moves =>
      have entered := moves.caller_entered
      have outside : (closing.workers name).callers () = .idle := by
        cases moves with
        | call _ _ outside => exact outside
      show callsLeft (closing.put name state closing.main) closing.main + 1 ≤ _
      rw [next, callsLeft_put_same, callsLeft, entered, outside, callLeft, callLeft]
      omega
  | @within name rest label state next called moves inside =>
      have pays := (callLeft_called called moves).2 inside
      show callsLeft (closing.put name state closing.main) closing.main + 1 ≤ _
      rw [next, callsLeft_put_same, callsLeft]
      omega
  | @back name rest label state next called moves outside =>
      have pays := (callLeft_called called moves).1 outside
      show 1 + 6 * ((name :: rest).length - 1) + 1 ≤ _
      rw [next, callsLeft, List.length_cons]
      omega
  | @join name rest next exited =>
      have le : callsLeft { closing with main := .killing rest } (.killing rest) ≤
        6 * rest.length := callsLeft_killing_le rest
      show callsLeft { closing with main := .killing rest } (.killing rest) + 1 ≤ _
      rw [next, callsLeft, List.length_cons]
      omega

/-- All workers run when the main thread begins to close them. -/
structure Begins (all : List Name) (closing : Closing) : Prop where
  main : closing.main = .killing all
  locked : ∀ name, Locked (closing.workers name)
  idle : ∀ name, (closing.workers name).callers () = .idle
  alive : ∀ name, (closing.workers name).status ≠ .kill

/-- The main thread begins to close the workers where it is free. -/
theorem Begins.of_exclusive {Maps : Type} {servers : List DeviceDescriptor} {jobManager : Bool}
    {process : Process Maps} (exclusive : Exclusive servers jobManager process)
    (free : process.main = .command [])
    (alive : ∀ name, (process.workers name).status ≠ .kill) :
    Begins (workerThreads servers jobManager)
      { workers := process.workers, main := .killing (workerThreads servers jobManager) } where
  main := rfl
  locked name := (exclusive.attended name).locked
  idle name := exclusive.idle (by rw [free]; rfl)
  alive := alive

/-- At the beginning all is tidy. -/
theorem Begins.tidy (begins : Begins all closing) : Tidy all closing where
  tended name := ⟨begins.locked name, fun killed => absurd killed (begins.alive name),
    .inl (begins.idle name), fun past => by
      rw [begins.idle name] at past
      exact past.elim⟩
  stage := by
    rw [begins.main]
    exact ⟨[], rfl, fun _ member => absurd member List.not_mem_nil⟩

/-- Working costs one. -/
def works (label : WorkerThread.Label Unit (List Packet) Packet) : Nat :=
  if label.Works then 1 else 0

/-- What closing the workers comes to. -/
structure Ends (all : List Name) (past : List (Closing × Label)) (final : Closing) : Prop where
  steps : ∀ name, Transition.total (spends name fun _ => 1) past ≤ 5
  works : ∀ name, Transition.total (spends name works) past ≤ 1
  calls : Transition.total calls past ≤ 6 * all.length
  goesOn : final.main = .killing [] ∨
    (∃ name, final.main.Awaits name ∧ final.hung name = true) ∨
      ∃ label after, Step all final label after ∧ Closes final.main label
  exited : final.main = .killing [] → ∀ name ∈ all, (final.workers name).worker = .exited

/-- **The end of the workers.** In every run of closing them, however the workers and the main
thread take turns: a worker takes at most five steps behind its kill and works in at most one
of them, the main thread takes at most six steps for each worker and is stuck only when the
work of the one it is closing does not return, and when it is done every worker has left its
loop. -/
theorem killWorkerThreads_ends (servers : List DeviceDescriptor) (jobManager : Bool)
    {start final : Closing} {past : List (Closing × Label)}
    (begins : Begins (workerThreads servers jobManager) start)
    (run : Transition.Run (Step (workerThreads servers jobManager)) start past final) :
    Ends (workerThreads servers jobManager) past final := by
  generalize workerThreads servers jobManager = all at begins run ⊢
  have kept : ∀ source label target, Tidy all source → Step all source label target →
      Tidy all target := fun _ _ _ tidy step => step.tidy tidy
  have tidy := run.always (Tidy all) kept begins.tidy
  constructor
  · intro name
    refine Nat.le_trans (run.total_le (Tidy all)
      (fun closing => due Worker.left 5 (closing.workers name)) _ kept ?_ begins.tidy) ?_
    · intro source label target tidy step
      exact step.due_le (by intro worker; cases worker <;> decide) (Nat.le_refl _)
        (fun moves kills own => Nat.le_of_eq (moves.killed kills own).2.1) tidy
    · rw [due, if_neg (begins.alive name)]
  · intro name
    refine Nat.le_trans (run.total_le (Tidy all)
      (fun closing => due Worker.worksLeft 1 (closing.workers name)) _ kept ?_ begins.tidy) ?_
    · intro source label target tidy step
      exact step.due_le (by intro worker; cases worker <;> decide) (Nat.le_refl _)
        (fun moves kills own => Nat.le_of_eq (moves.killed kills own).2.2) tidy
    · rw [due, if_neg (begins.alive name)]
  · refine Nat.le_trans (run.total_le (Tidy all)
      (fun closing => callsLeft closing closing.main) calls kept
      (fun _ _ _ _ step => step.calls_le) begins.tidy) ?_
    rw [begins.main]
    exact callsLeft_killing_le all
  · exact tidy.goes_on
  · intro done name member
    have stage := tidy.stage
    rw [done] at stage
    obtain ⟨closed, split, left⟩ := stage
    rw [List.append_nil] at split
    exact left name (split ▸ member)

/-- A job manager with nothing to do, in front of its mutex. -/
def idleManager : Closing where
  workers _ := { work := [] }
  main := .killing [.jobManager]

/-- The job manager of a node without servers waits. -/
theorem idleManager_begins : Begins (workerThreads [] true) idleManager where
  main := rfl
  locked name holder := by
    cases holder with
    | worker => exact iff_of_false id (by rintro ⟨⟩)
    | caller thread => exact iff_of_false id (by rintro ⟨⟩)
  idle _ := rfl
  alive _ := by rintro ⟨⟩

/-- The job manager is killed, works once and is joined. -/
theorem killWorkerThreads_ends_idle :
    ∃ past final, Transition.Run (Step (workerThreads [] true)) idleManager past final ∧
      final.main = .killing [] ∧ Ends (workerThreads [] true) past final := by
  have created : SyncRequest.Name.jobManager ∈ workerThreads [] true := List.mem_singleton_self _
  have begun : Transition.Run (Step (workerThreads [] true)) idleManager [] idleManager := .nil
  have entered := begun.snoc (.enter rfl (.call () kill rfl))
  have acquired := entered.snoc (@Step.within _ _ _ _ (.acquire ()) _ rfl trivial
    (.acquire () rfl rfl) (by rintro ⟨⟩))
  have changed := acquired.snoc (@Step.within _ _ _ _ (.change ()) _ rfl trivial
    (.change () rfl) (by rintro ⟨⟩))
  have released := changed.snoc (@Step.within _ _ _ _ (.release ()) _ rfl trivial
    (.releaseStatus () rfl) (by rintro ⟨⟩))
  have notified := released.snoc (@Step.back _ _ _ _ (.notify ()) _ rfl trivial
    (.notify () rfl) rfl)
  have locked := notified.snoc (@Step.worker _ _ _ .lock _ created trivial
    (by rintro ⟨⟩) (.lock rfl rfl))
  have tested := locked.snoc (@Step.worker _ _ _ .test _ created trivial
    (by rintro ⟨⟩) (.pass rfl rfl))
  have worked := tested.snoc (@Step.worker _ _ _ (.work []) _ created trivial
    (fun _ => rfl) (.work [] rfl))
  have unlocked := worked.snoc (@Step.worker _ _ _ .unlock _ created trivial
    (by rintro ⟨⟩) (.unlock rfl))
  have exited := unlocked.snoc (@Step.worker _ _ _ .loop _ created trivial
    (by rintro ⟨⟩) (.loop rfl))
  have joined := exited.snoc (.join rfl rfl)
  exact ⟨_, _, joined, rfl, killWorkerThreads_ends [] true idleManager_begins joined⟩

end Shutdown

end Bp2p
