import Mathlib.Logic.Basic

/-! # Programs that keep their state when they stop

Rules of pre- and postconditions for programs that may stop with an exception. The state
survives the exception, so a triple has a second postcondition for it, and what a handler
starts from is what the body has left.
-/

namespace Stateful

variable {ε σ α β : Type}

/-- A sequence runs its second program from where the first one returned. -/
theorem bind_run (program : EStateM ε σ α) (rest : α → EStateM ε σ β) (state : σ) :
    (program >>= rest).run state = match program.run state with
      | .ok value after => (rest value).run after
      | .error stop after => .error stop after := by
  have run : (program >>= rest).run state = EStateM.bind program rest state := rfl
  rw [run, EStateM.bind, show program.run state = program state from rfl]
  cases program state <;> rfl

/-- A handler starts from the state in which the body stops. -/
theorem tryCatch_run (program : EStateM ε σ α) (handler : ε → EStateM ε σ α) (state : σ) :
    (tryCatch program handler).run state = match program.run state with
      | .ok value after => .ok value after
      | .error stop after => (handler stop).run after := by
  have run : (tryCatch program handler).run state = EStateM.tryCatch program handler state := rfl
  rw [run, show program.run state = program state from rfl]
  delta EStateM.tryCatch
  cases program state <;> rfl

/-- The program returns as `post` says or stops as `exit` says. -/
def Holds (post : α → σ → Prop) (exit : ε → σ → Prop) : EStateM.Result ε σ α → Prop
  | .ok value state => post value state
  | .error stop state => exit stop state

/-- From a state that meets the precondition a program returns or stops as the conditions say. -/
def Triple (pre : σ → Prop) (program : EStateM ε σ α) (post : α → σ → Prop)
    (exit : ε → σ → Prop) : Prop :=
  ∀ state, pre state → Holds post exit (program.run state)

variable {pre pre' : σ → Prop} {program : EStateM ε σ α} {post post' : α → σ → Prop}
  {exit exit' : ε → σ → Prop}

namespace Triple

theorem returned (triple : Triple pre program post exit) {state after : σ} {value : α}
    (start : pre state) (run : program.run state = .ok value after) : post value after := by
  have holds := triple state start
  rwa [run] at holds

theorem stopped (triple : Triple pre program post exit) {state after : σ} {stop : ε}
    (start : pre state) (run : program.run state = .error stop after) : exit stop after := by
  have holds := triple state start
  rwa [run] at holds

/-- The rule of consequence. -/
theorem mono (triple : Triple pre program post exit) (starts : ∀ state, pre' state → pre state)
    (returns : ∀ value state, post value state → post' value state)
    (stops : ∀ stop state, exit stop state → exit' stop state) :
    Triple pre' program post' exit' := by
  intro state start
  have holds := triple state (starts state start)
  cases result : program.run state with
  | ok value after =>
      rw [result] at holds
      exact returns value after holds
  | error stop after =>
      rw [result] at holds
      exact stops stop after holds

theorem stops (triple : Triple pre program post exit)
    (stops : ∀ stop state, exit stop state → exit' stop state) :
    Triple pre program post exit' :=
  triple.mono (fun _ => id) (fun _ _ => id) stops

theorem pure {value : α} (returns : ∀ state, pre state → post value state) :
    Triple pre (pure value : EStateM ε σ α) post exit :=
  returns

theorem throw {stop : ε} (stops : ∀ state, pre state → exit stop state) :
    Triple pre (throw stop : EStateM ε σ α) post exit :=
  stops

theorem modify {change : σ → σ} {post : Unit → σ → Prop}
    (changes : ∀ state, pre state → post () (change state)) :
    Triple pre (modify change : EStateM ε σ Unit) post exit :=
  changes

theorem set {value : σ} {post : PUnit → σ → Prop} (sets : ∀ state, pre state → post ⟨⟩ value) :
    Triple pre (set value : EStateM ε σ PUnit) post exit :=
  sets

theorem get {post : σ → σ → Prop} (reads : ∀ state, pre state → post state state) :
    Triple pre (get : EStateM ε σ σ) post exit :=
  reads

/-- The rule of sequence. -/
theorem bind {rest : α → EStateM ε σ β} {final : β → σ → Prop} (between : α → σ → Prop)
    (first : Triple pre program between exit)
    (second : ∀ value, Triple (between value) (rest value) final exit) :
    Triple pre (program >>= rest) final exit := by
  intro state start
  have holds := first state start
  rw [bind_run]
  cases result : program.run state with
  | ok value after =>
      rw [result] at holds
      exact second value after holds
  | error stop after =>
      rw [result] at holds
      exact holds

/-- The rule of handlers. -/
theorem tryCatch {handler : ε → EStateM ε σ α} (left : ε → σ → Prop)
    (body : Triple pre program post left)
    (handles : ∀ stop, Triple (left stop) (handler stop) post exit) :
    Triple pre (tryCatch program handler) post exit := by
  intro state start
  have holds := body state start
  rw [tryCatch_run]
  cases result : program.run state with
  | ok value after =>
      rw [result] at holds
      exact holds
  | error stop after =>
      rw [result] at holds
      exact handles stop after holds

end Triple

end Stateful
