import Bp2p.Lib.Transition
import Bp2p.Packet
import Mathlib.Logic.Function.Basic

/-! # The worker loop and its callers

A worker waits on a condition variable until its predicate on the status and the
work holds, works, and sleeps. Callers change the status or the work under the same
mutex. A change of the status is followed by a notification, a change of the work
is not: a wake-up is lost exactly when work arrives at a worker that is waiting,
active, and about to hear from nobody (`WorkerThread.neverLost_iff`). The mutex is
recursive, but a caller locks it once; what the worker modifies itself is part of its
work.
-/

namespace Bp2p

namespace WorkerThread

/-- `Status`. -/
inductive Status
  | active
  | pause
  | kill
  deriving DecidableEq

/-- Where the worker is in `workerLoop`. -/
inductive Worker
  | atLock
  | testing
  | waiting
  | notified
  | working
  | worked
  | sleeping
  | exited
  deriving DecidableEq

/-- A call: `modify` of the work, or a new status. -/
inductive Op (Change : Type)
  | modify (change : Change)
  | setStatus (status : Status)

/-- `activate()`. -/
def activate {Change : Type} : Op Change := .setStatus .active

/-- `pause()`. -/
def pause {Change : Type} : Op Change := .setStatus .pause

/-- `kill()`. -/
def kill {Change : Type} : Op Change := .setStatus .kill

/-- Where a caller is: outside, in front of the mutex, holding it before and behind
the change, or with the mutex unlocked in front of `notify_one`. -/
inductive Caller (Change : Type)
  | idle
  | entered (op : Op Change)
  | holding (op : Op Change)
  | changed (op : Op Change)
  | released

/-- The owner of the mutex. -/
inductive Owner (Thread : Type)
  | worker
  | caller (thread : Thread)

/-- The fields of a worker thread, where its loop is, and who has its mutex. -/
structure State (Thread Work Change : Type) where
  status : Status := .active
  work : Work
  worker : Worker := .atLock
  owner : Option (Owner Thread) := none
  callers : Thread → Caller Change := fun _ => .idle

/-- The steps of the worker and of the callers. -/
inductive Label (Thread Work Change : Type)
  | lock
  | test
  | wake
  | work (result : Work)
  | unlock
  | loop
  | call (thread : Thread) (op : Op Change)
  | acquire (thread : Thread)
  | change (thread : Thread)
  | release (thread : Thread)
  | notify (thread : Thread)

section Machine

variable {Thread Work Change : Type} [DecidableEq Thread] (modifies : Change → Work → Work)
  (ready : Work → Bool)

/-- The predicate the worker waits for. -/
def wakes (state : State Thread Work Change) : Bool :=
  (state.status != .pause && ready state.work) || state.status == .kill

/-- The change a call makes under the mutex. -/
def effect (state : State Thread Work Change) : Op Change → State Thread Work Change
  | .modify change => { state with work := modifies change state.work }
  | .setStatus status => { state with status }

/-- A caller moves. -/
def move (state : State Thread Work Change) (thread : Thread) (caller : Caller Change) :
    State Thread Work Change :=
  { state with callers := Function.update state.callers thread caller }

/-- Steps of the loop and of the threads that call it. -/
inductive Step : State Thread Work Change → Label Thread Work Change →
    State Thread Work Change → Prop
  | lock {state : State Thread Work Change} (outside : state.worker = .atLock)
      (free : state.owner = none) :
      Step state .lock { state with worker := .testing, owner := some .worker }
  | pass {state : State Thread Work Change} (tests : state.worker = .testing)
      (holds : wakes ready state = true) : Step state .test { state with worker := .working }
  | wait {state : State Thread Work Change} (tests : state.worker = .testing)
      (fails : wakes ready state = false) :
      Step state .test { state with worker := .waiting, owner := none }
  | wake {state : State Thread Work Change} (heard : state.worker = .notified)
      (free : state.owner = none) :
      Step state .wake { state with worker := .testing, owner := some .worker }
  | work {state : State Thread Work Change} (result : Work) (works : state.worker = .working) :
      Step state (.work result) { state with worker := .worked, work := result }
  | unlock {state : State Thread Work Change} (done : state.worker = .worked) :
      Step state .unlock { state with worker := .sleeping, owner := none }
  | loop {state : State Thread Work Change} (sleeps : state.worker = .sleeping) :
      Step state .loop
        { state with worker := if state.status = .kill then .exited else .atLock }
  | call {state : State Thread Work Change} (thread : Thread) (op : Op Change)
      (outside : state.callers thread = .idle) :
      Step state (.call thread op) (move state thread (.entered op))
  | acquire {state : State Thread Work Change} (thread : Thread) {op : Op Change}
      (inside : state.callers thread = .entered op) (free : state.owner = none) :
      Step state (.acquire thread)
        { move state thread (.holding op) with owner := some (.caller thread) }
  | change {state : State Thread Work Change} (thread : Thread) {op : Op Change}
      (holds : state.callers thread = .holding op) :
      Step state (.change thread) (move (effect modifies state op) thread (.changed op))
  | releaseModify {state : State Thread Work Change} (thread : Thread) {change : Change}
      (done : state.callers thread = .changed (.modify change)) :
      Step state (.release thread) { move state thread .idle with owner := none }
  | releaseStatus {state : State Thread Work Change} (thread : Thread) {status : Status}
      (done : state.callers thread = .changed (.setStatus status)) :
      Step state (.release thread) { move state thread .released with owner := none }
  | notify {state : State Thread Work Change} (thread : Thread)
      (done : state.callers thread = .released) :
      Step state (.notify thread)
        { move state thread .idle with
          worker := if state.worker = .waiting then .notified else state.worker }

/-- A caller is between its change and its notification. -/
def Caller.Notifies : Caller Change → Prop
  | .changed (.setStatus _) => True
  | .released => True
  | _ => False

/-- The worker waits although it is active, and nobody is about to notify it. -/
def Unheard (state : State Thread Work Change) : Prop :=
  state.worker = .waiting ∧ state.status = .active ∧
    ∀ thread, ¬ (state.callers thread).Notifies

/-- A lost wake-up: there is work for an unheard worker. -/
def Lost (state : State Thread Work Change) : Prop :=
  Unheard state ∧ ready state.work = true

/-- Work that arrives does not arrive at an unheard worker. -/
def ArrivesHeard (state : State Thread Work Change) : Label Thread Work Change → Prop
  | .change thread => ∀ change, state.callers thread = .holding (.modify change) →
      ready (modifies change state.work) = true → ¬ Unheard state
  | _ => True

variable {modifies ready}

/-- Moving a caller that does not notify, to where it does not either, leaves the
worker unheard. -/
theorem unheard_of_move {state : State Thread Work Change} {thread : Thread}
    {caller : Caller Change} (quiet : ¬ (state.callers thread).Notifies)
    (unheard : ∀ other, ¬ ((Function.update state.callers thread caller) other).Notifies) :
    ∀ other, ¬ (state.callers other).Notifies := by
  intro other
  by_cases same : other = thread
  · rw [same]
    exact quiet
  · have kept := unheard other
    rwa [Function.update_of_ne same] at kept

/-- No step loses a wake-up unless work arrives at an unheard worker. -/
theorem step_keeps {state after : State Thread Work Change} {label : Label Thread Work Change}
    (safe : ¬ Lost ready state) (heard : ArrivesHeard modifies ready state label)
    (step : Step modifies ready state label after) : ¬ Lost ready after := by
  rintro ⟨⟨waits, active, quiet⟩, work⟩
  cases step with
  | lock | pass | wake | work | unlock => cases waits
  | wait tests fails =>
      -- the predicate has just been false under the mutex
      simp only [wakes, Bool.or_eq_false_iff, Bool.and_eq_false_iff] at fails
      rcases fails.1 with paused | idle
      · rw [show state.status = .active from active] at paused
        cases paused
      · rw [show ready state.work = true from work] at idle
        cases idle
  | loop =>
      simp only at waits
      split at waits
      · cases waits
      · cases waits
  | call thread op outside =>
      refine safe ⟨⟨waits, active, unheard_of_move ?_ quiet⟩, work⟩
      rw [outside]
      exact id
  | acquire thread inside free =>
      refine safe ⟨⟨waits, active, unheard_of_move ?_ quiet⟩, work⟩
      rw [inside]
      exact id
  | @change thread op holds =>
      cases op with
      | modify change =>
          refine heard change holds work ⟨waits, active, unheard_of_move ?_ quiet⟩
          rw [holds]
          exact id
      | setStatus status =>
          apply quiet thread
          simp only [move, Function.update_self]
          trivial
  | releaseModify thread done =>
      refine safe ⟨⟨waits, active, unheard_of_move ?_ quiet⟩, work⟩
      rw [done]
      exact id
  | releaseStatus thread done =>
      apply quiet thread
      simp only [move, Function.update_self]
      trivial
  | notify =>
      simp only at waits
      split at waits
      · cases waits
      · next other => exact other waits

/-- Work that arrives at an unheard worker is lost on it. -/
theorem lost_of_unheard {state after : State Thread Work Change} {thread : Thread}
    {change : Change} (holds : state.callers thread = .holding (.modify change))
    (work : ready (modifies change state.work) = true) (unheard : Unheard state)
    (step : Step modifies ready state (.change thread) after) : Lost ready after := by
  obtain ⟨waits, active, quiet⟩ := unheard
  cases step with
  | change thread held =>
      rw [holds] at held
      cases held
      refine ⟨⟨waits, active, fun other => ?_⟩, work⟩
      by_cases same : other = thread
      · rw [same]
        simp only [move, Function.update_self]
        exact id
      · simp only [move, Function.update_of_ne same]
        exact quiet other

/-- No wake-up is lost along a run exactly when all its work arrives heard. -/
theorem neverLost_iff {start final : State Thread Work Change}
    {past : List (State Thread Work Change × Label Thread Work Change)}
    (awake : start.worker ≠ .waiting)
    (run : Transition.Run (Step modifies ready) start past final) :
    Transition.Throughout (Step modifies ready) start past (fun state => ¬ Lost ready state) ↔
      Transition.Meets (ArrivesHeard modifies ready) past := by
  constructor
  · intro safe record member
    obtain ⟨source, label⟩ := record
    cases label with
    | change thread =>
        intro change holds work unheard
        obtain ⟨before, target, front, _, taken, reached⟩ := run.split_at member
        exact safe _ target front reached (lost_of_unheard holds work unheard taken)
    | lock | test | wake | work _ | unlock | loop | call _ _ | acquire _ | release _ | notify _ =>
        trivial
  · exact Transition.Throughout.of_invariant (fun state => ¬ Lost ready state)
      (fun source label target safe heard step => step_keeps safe heard step)
      (fun state safe => safe) (fun lost => awake lost.1.1)

end Machine

end WorkerThread

namespace JobManager

open WorkerThread

/-- The change `insertJob` passes to `modify`. -/
def insertJob (job : Packet) (jobs : List Packet) : List Packet := jobs ++ [job]

/-- The predicate `createJobManagerThread` passes to the worker. -/
def hasJobs (jobs : List Packet) : Bool := !jobs.isEmpty

variable {Thread : Type}

/-- The steps of the job manager and of the threads that insert jobs, activate, pause
and kill it. -/
abbrev Step (Thread : Type) [DecidableEq Thread] : State Thread (List Packet) Packet →
    Label Thread (List Packet) Packet → State Thread (List Packet) Packet → Prop :=
  WorkerThread.Step insertJob hasJobs

/-- A job is not pushed while the job manager waits, active, with nobody about to
notify it. -/
def PushesHeard (state : State Thread (List Packet) Packet) :
    Label Thread (List Packet) Packet → Prop
  | .change thread => ∀ job, state.callers thread = .holding (.modify job) → ¬ Unheard state
  | _ => True

/-- Whoever inserts a job is heard exactly if what arrives is. -/
theorem pushesHeard_iff (state : State Thread (List Packet) Packet)
    (label : Label Thread (List Packet) Packet) :
    PushesHeard state label ↔ ArrivesHeard insertJob hasJobs state label := by
  have filled : ∀ job, hasJobs (insertJob job state.work) = true := fun job => by
    rw [hasJobs, insertJob, List.isEmpty_eq_false_iff.mpr (List.concat_ne_nil _ _), Bool.not_false]
  cases label with
  | change thread => exact forall_congr' fun job => by simp only [filled, forall_const]
  | lock | test | wake | work _ | unlock | loop | call _ _ | acquire _ | release _ | notify _ =>
      exact Iff.rfl

variable [DecidableEq Thread]

/-- **Lost wake-ups of the job manager.** Along a run of the job manager and its callers
it never sleeps on a job, active and with no notification on its way, exactly when no
job is pushed while it waits in that way. -/
theorem neverLost_iff_pushesHeard (jobs : List Packet)
    (past : List (State Thread (List Packet) Packet × Label Thread (List Packet) Packet))
    (final : State Thread (List Packet) Packet)
    (run : Transition.Run (Step Thread) { work := jobs } past final) :
    Transition.Throughout (Step Thread) { work := jobs } past
        (fun state => ¬ Lost hasJobs state) ↔
      Transition.Meets PushesHeard past := by
  rw [neverLost_iff (fun waits => by cases waits) run]
  exact forall₂_congr fun record _ => (pushesHeard_iff record.1 record.2).symm

/-- A job pushed before the job manager has looked at the queue. -/
theorem neverLost_iff_pushesHeard_early :
    ∃ past final, Transition.Run (Step Unit) { work := [] } past final ∧ past ≠ [] ∧
      Transition.Throughout (Step Unit) { work := [] } past
        (fun state => ¬ Lost hasJobs state) := by
  have begun : Transition.Run (Step Unit) { work := [] } [] { work := [] } := .nil
  have run := ((begun.snoc (.call () (.modify (.list {})) rfl)).snoc (.acquire () rfl rfl)).snoc
    (.change () rfl)
  refine ⟨_, _, run, List.concat_ne_nil _ _, (neverLost_iff_pushesHeard [] _ _ run).mpr ?_⟩
  intro record member
  simp only [List.nil_append, List.cons_append, List.mem_cons, List.not_mem_nil, or_false] at member
  rcases member with rfl | rfl | rfl
  · trivial
  · trivial
  · intro job holds unheard
    cases unheard.1

/-- A job pushed while the job manager waits on its empty queue refutes the safety of
wake-ups. -/
theorem neverLost_fails :
    ¬ ∀ (past : List (State Unit (List Packet) Packet × Label Unit (List Packet) Packet))
      (final : State Unit (List Packet) Packet),
      Transition.Run (Step Unit) { work := [] } past final → ¬ Lost hasJobs final := by
  intro safe
  have begun : Transition.Run (Step Unit) { work := [] } [] { work := [] } := .nil
  have waiting := (begun.snoc (.lock rfl rfl)).snoc (.wait rfl rfl)
  have pushed := ((waiting.snoc (.call () (.modify (.list {})) rfl)).snoc
    (.acquire () rfl rfl)).snoc (.change () rfl)
  have released := pushed.snoc (.releaseModify () rfl)
  exact safe _ _ released ⟨⟨rfl, rfl, fun _ => id⟩, rfl⟩

end JobManager

end Bp2p
