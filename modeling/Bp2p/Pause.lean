import Bp2p.WorkerThread

/-! # Pausing a worker

The mutex of a worker belongs to the one who is inside it, whatever the interleaving
(`Bp2p.WorkerThread.Step.locked`). The status is changed inside and the worker works inside,
so a worker is not at work when its status becomes `PAUSE`, and its predicate keeps it from
there until another status is set (`Bp2p.WorkerThread.Step.paused`). The rest is about the
calls of one thread: such a call goes on or returns, and one of `pause` leaves the worker
paused.
-/

namespace Bp2p

namespace WorkerThread

variable {Thread Work Change : Type} {modifies : Change → Work → Work}
  {ready : Work → Bool} {state after : State Thread Work Change}
  {label : Label Thread Work Change}

/-- A step of the loop. -/
def Label.Own : Label Thread Work Change → Prop
  | .call _ _ | .acquire _ | .change _ | .release _ | .notify _ => False
  | _ => True

/-- A step of a call behind its begin. -/
def Label.Called : Label Thread Work Change → Prop
  | .acquire _ | .change _ | .release _ | .notify _ => True
  | _ => False

/-- The caller is inside the call. -/
def Caller.Runs (op : Op Change) : Caller Change → Prop
  | .idle => False
  | .entered other => other = op
  | .holding other => other = op
  | .changed other => other = op
  | .released => ∃ status, op = .setStatus status

/-- The caller is behind the change. -/
def Caller.Past : Caller Change → Prop
  | .changed _ => True
  | .released => True
  | _ => False

/-- The worker holds its mutex. -/
def Worker.Inside : Worker → Prop
  | .testing => True
  | .working => True
  | .worked => True
  | _ => False

/-- A caller holds the mutex. -/
def Caller.Inside : Caller Change → Prop
  | .holding _ => True
  | .changed _ => True
  | _ => False

/-- The worker or a caller is where it holds the mutex. -/
def Holds (state : State Thread Work Change) : Owner Thread → Prop
  | .worker => state.worker.Inside
  | .caller thread => (state.callers thread).Inside

/-- The mutex is owned by the one who is where it is held. -/
def Locked (state : State Thread Work Change) : Prop :=
  ∀ holder, Holds state holder ↔ state.owner = some holder

theorem Locked.worker_owns {worker : Worker} (locked : Locked state)
    (there : state.worker = worker) (inside : worker.Inside) : state.owner = some .worker := by
  apply (locked .worker).mp
  rw [Holds, there]
  exact inside

/-- A caller inside has the mutex. -/
theorem Locked.caller_owns {thread : Thread} {caller : Caller Change} (locked : Locked state)
    (there : state.callers thread = caller) (inside : caller.Inside) :
    state.owner = some (.caller thread) := by
  apply (locked (.caller thread)).mp
  rw [Holds, there]
  exact inside

/-- Who is outside the mutex before and behind a step of somebody else does not notice it. -/
theorem Locked.of_self {self : Owner Thread} (locked : Locked state)
    (before : state.owner = none ∨ state.owner = some self)
    (left : after.owner = none ∨ after.owner = some self)
    (others : ∀ other, other ≠ self → (Holds after other ↔ Holds state other))
    (mine : Holds after self ↔ after.owner = some self) : Locked after := by
  have foreign : ∀ {owner : Option (Owner Thread)} {other : Owner Thread}, other ≠ self →
      owner = none ∨ owner = some self → owner ≠ some other := by
    rintro owner other different (rfl | rfl) same
    · cases same
    · exact different (Option.some.inj same).symm
  intro other
  by_cases same : other = self
  · rw [same]
    exact mine
  · rw [others other same, locked other]
    exact ⟨fun holds => absurd holds (foreign same before),
      fun holds => absurd holds (foreign same left)⟩

/-- The worker moves, and the callers stay where they are. -/
theorem Locked.of_worker (locked : Locked state)
    (before : state.owner = none ∨ state.owner = some .worker)
    (left : after.owner = none ∨ after.owner = some .worker)
    (callers : after.callers = state.callers)
    (mine : after.worker.Inside ↔ after.owner = some .worker) : Locked after := by
  refine locked.of_self before left (fun other different => ?_) mine
  cases other with
  | worker => exact absurd rfl different
  | caller thread => simp only [Holds, callers]

/-- The owner stays who it is, and everybody stays inside or outside. -/
theorem Locked.of_same (locked : Locked state) (owner : after.owner = state.owner)
    (same : ∀ holder, Holds after holder ↔ Holds state holder) : Locked after := by
  intro holder
  rw [same, owner]
  exact locked holder

variable [DecidableEq Thread]

/-- One caller moves, and the worker stays inside or outside. -/
theorem Locked.of_caller {thread : Thread} {caller : Caller Change} (locked : Locked state)
    (before : state.owner = none ∨ state.owner = some (.caller thread))
    (left : after.owner = none ∨ after.owner = some (.caller thread))
    (worker : after.worker = state.worker)
    (callers : after.callers = Function.update state.callers thread caller)
    (mine : caller.Inside ↔ after.owner = some (.caller thread)) : Locked after := by
  refine locked.of_self before left (fun other different => ?_) ?_
  · cases other with
    | worker => simp only [Holds, worker]
    | caller other =>
        have elsewhere : other ≠ thread := fun same => different (congrArg Owner.caller same)
        simp only [Holds, callers, Function.update_of_ne elsewhere]
  · simp only [Holds, callers, Function.update_self]
    exact mine

/-- Everybody stays inside or outside when one caller goes from inside to inside, or from
outside to outside, and so does the worker. -/
theorem holds_of_update {thread : Thread} {caller : Caller Change}
    (worker : after.worker.Inside ↔ state.worker.Inside)
    (callers : after.callers = Function.update state.callers thread caller)
    (inside : caller.Inside ↔ (state.callers thread).Inside) (holder : Owner Thread) :
    Holds after holder ↔ Holds state holder := by
  cases holder with
  | worker => exact worker
  | caller other =>
      simp only [Holds, callers]
      by_cases same : other = thread
      · rw [same, Function.update_self]
        exact inside
      · rw [Function.update_of_ne same]

/-- A step leaves the mutex with whom is inside. -/
theorem Step.locked (locked : Locked state) (step : Step modifies ready state label after) :
    Locked after := by
  cases step with
  | lock outside free =>
      exact locked.of_worker (.inl free) (.inr rfl) rfl (iff_of_true trivial rfl)
  | pass tests holds =>
      have owns := locked.worker_owns tests trivial
      exact locked.of_worker (.inr owns) (.inr owns) rfl (iff_of_true trivial owns)
  | wait tests fails =>
      have owns := locked.worker_owns tests trivial
      exact locked.of_worker (.inr owns) (.inl rfl) rfl (iff_of_false id nofun)
  | wake heard free =>
      exact locked.of_worker (.inl free) (.inr rfl) rfl (iff_of_true trivial rfl)
  | work result works =>
      have owns := locked.worker_owns works trivial
      exact locked.of_worker (.inr owns) (.inr owns) rfl (iff_of_true trivial owns)
  | unlock done =>
      have owns := locked.worker_owns done trivial
      exact locked.of_worker (.inr owns) (.inl rfl) rfl (iff_of_false id nofun)
  | loop sleeps =>
      refine locked.of_same rfl fun holder => ?_
      cases holder with
      | worker =>
          simp only [Holds, sleeps]
          split
          · exact Iff.rfl
          · exact Iff.rfl
      | caller thread => exact Iff.rfl
  | call thread op outside =>
      refine locked.of_same rfl (holds_of_update Iff.rfl rfl ?_)
      rw [outside]
      exact Iff.rfl
  | acquire thread inside free =>
      exact locked.of_caller (.inl free) (.inr rfl) rfl rfl (iff_of_true trivial rfl)
  | @change thread op holds =>
      have owner : (effect modifies state op).owner = state.owner := by cases op <;> rfl
      have worker : (effect modifies state op).worker = state.worker := by cases op <;> rfl
      have callers : (move (effect modifies state op) thread (.changed op)).callers =
          Function.update state.callers thread (.changed op) := by cases op <;> rfl
      refine locked.of_same owner (holds_of_update (iff_of_eq (congrArg _ worker)) callers ?_)
      rw [holds]
      exact Iff.rfl
  | releaseModify thread done =>
      have owns := locked.caller_owns done trivial
      exact locked.of_caller (.inr owns) (.inl rfl) rfl rfl (iff_of_false id nofun)
  | releaseStatus thread done =>
      have owns := locked.caller_owns done trivial
      exact locked.of_caller (.inr owns) (.inl rfl) rfl rfl (iff_of_false id nofun)
  | notify thread done =>
      refine locked.of_same rfl (holds_of_update ?_ rfl ?_)
      · simp only
        split
        · next waits => rw [waits]; exact Iff.rfl
        · exact Iff.rfl
      · rw [done]
        exact Iff.rfl

/-- The worker is paused, and not inside its work. -/
def Paused (state : State Thread Work Change) : Prop :=
  state.status = .pause ∧ state.worker ≠ .working

/-- A step keeps the worker paused unless it sets another status. -/
theorem Step.paused (paused : Paused state) (step : Step modifies ready state label after)
    (kept : ∀ thread status, label = .change thread →
      state.callers thread = .holding (.setStatus status) → status = .pause) :
    Paused after := by
  obtain ⟨status, idle⟩ := paused
  cases step with
  | pass tests holds =>
      simp only [wakes, status] at holds
      cases holds
  | lock | wait | wake | work | unlock =>
      refine ⟨status, fun works => ?_⟩
      cases works
  | loop =>
      refine ⟨status, fun works => ?_⟩
      simp only at works
      split at works
      · cases works
      · cases works
  | @change thread op holds =>
      cases op with
      | modify change => exact ⟨status, idle⟩
      | setStatus other => exact ⟨kept thread other rfl holds, idle⟩
  | notify =>
      refine ⟨status, fun works => ?_⟩
      simp only at works
      split at works
      · cases works
      · exact idle works
  | call | acquire | releaseModify | releaseStatus => exact ⟨status, idle⟩

/-- Who changes the status to `PAUSE` holds the mutex that the worker works under. -/
theorem Step.paused_of_pause {thread : Thread} (locked : Locked state)
    (holds : state.callers thread = .holding pause)
    (step : Step modifies ready state (.change thread) after) : Paused after := by
  cases step with
  | change thread held =>
      rw [holds] at held
      cases held
      refine ⟨rfl, fun works => ?_⟩
      have callerOwns := locked.caller_owns holds trivial
      rw [locked.worker_owns works trivial] at callerOwns
      cases callerOwns

theorem Step.callers_of_own (own : label.Own) (step : Step modifies ready state label after) :
    after.callers = state.callers := by
  cases step with
  | lock | pass | wait | wake | work | unlock | loop => rfl
  | call | acquire | change | releaseModify | releaseStatus | notify => exact own.elim

theorem Step.paused_of_own (own : label.Own) (step : Step modifies ready state label after)
    (paused : Paused state) : Paused after := by
  refine step.paused paused fun thread status changes => ?_
  rw [changes] at own
  exact own.elim

section Unit

variable {state after : State Unit Work Change} {label : Label Unit Work Change}
  {op : Op Change}

/-- A call goes on, or returns. -/
theorem Step.runs (called : label.Called) (runs : (state.callers ()).Runs op)
    (step : Step modifies ready state label after) :
    after.callers () = .idle ∨ (after.callers ()).Runs op := by
  cases step with
  | lock | pass | wait | wake | work | unlock | loop | call => exact called.elim
  | acquire thread inside =>
      rw [inside] at runs
      right
      simp only [move, Function.update_self]
      exact runs
  | change thread holds =>
      rw [holds] at runs
      right
      simp only [move, Function.update_self]
      exact runs
  | releaseModify =>
      left
      simp only [move, Function.update_self]
  | @releaseStatus thread status done =>
      rw [done] at runs
      right
      simp only [move, Function.update_self]
      exact ⟨status, runs.symm⟩
  | notify =>
      left
      simp only [move, Function.update_self]

theorem Step.caller_entered (step : Step modifies ready state (.call () op) after) :
    after.callers () = .entered op := by
  cases step with
  | call => simp only [move, Function.update_self]

/-- Only a caller steps inside a call. -/
theorem Step.called_inside (called : label.Called)
    (step : Step modifies ready state label after) : state.callers () ≠ .idle := by
  intro outside
  cases step with
  | lock | pass | wait | wake | work | unlock | loop | call => exact called.elim
  | acquire thread inside =>
      rw [outside] at inside
      cases inside
  | change thread holds =>
      rw [outside] at holds
      cases holds
  | releaseModify thread done | releaseStatus thread done | notify thread done =>
      rw [outside] at done
      cases done

/-- A call of `pause` keeps a paused worker paused. -/
theorem Step.paused_of_runs (runs : (state.callers ()).Runs pause)
    (step : Step modifies ready state label after) (paused : Paused state) : Paused after := by
  refine step.paused paused fun thread status _ holds => ?_
  rw [holds] at runs
  cases runs
  rfl

/-- A call of `pause` leaves the worker paused behind its change. -/
theorem Step.pauses (locked : Locked state) (called : label.Called)
    (runs : (state.callers ()).Runs pause) (past : (state.callers ()).Past → Paused state)
    (step : Step modifies ready state label after)
    (left : after.callers () = .idle ∨ (after.callers ()).Past) : Paused after := by
  have kept := step.paused_of_runs runs
  cases step with
  | lock | pass | wait | wake | work | unlock | loop | call => exact called.elim
  | acquire =>
      simp only [move, Function.update_self] at left
      rcases left with idle | past
      · cases idle
      · cases past
  | change thread holds =>
      rw [holds] at runs
      cases runs
      have changes : Step modifies ready state (.change thread) _ := .change thread holds
      exact changes.paused_of_pause locked holds
  | releaseModify thread done | releaseStatus thread done | notify thread done =>
      apply kept
      apply past
      rw [done]
      trivial

end Unit

end WorkerThread

end Bp2p
