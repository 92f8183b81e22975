import Bp2p.Lib.Transition
import Mathlib.Algebra.BigOperators.Ring.List
import Mathlib.Algebra.Ring.Nat

/-! # Turns of a queue

A server takes the front job off a queue and may put others at the end. Some jobs are due, and
some of these are useful: served with success, a useful job brings the goal one unit nearer.
A due job that is not useful, or not served with success, is followed by a useful one at the
end. In a queue that stays within a limit, `turns` bounds how many jobs are taken off until
the goal is reached: it falls with every job but an unsuccessful one
(`turns_lt`, `turns_pass`, `turns_renew`), and never rises by more than the turns of one unit.
What such a measure says of whole runs is `Transition.Run.amortized`.
-/

namespace Transition

variable {State Label : Type*}

/-- What the steps of a record cost together. -/
def total (cost : State → Label → Nat) (past : List (State × Label)) : Nat :=
  (past.map fun record => cost record.1 record.2).sum

@[simp] theorem total_nil (cost : State → Label → Nat) :
    total cost ([] : List (State × Label)) = 0 := rfl

@[simp] theorem total_append_singleton (cost : State → Label → Nat)
    (past : List (State × Label)) (source : State) (label : Label) :
    total cost (past ++ [(source, label)]) = total cost past + cost source label := by
  simp only [total, List.map_append, List.map_cons, List.map_nil, List.sum_append,
    List.sum_singleton]

theorem total_mul (rate : Nat) (cost : State → Label → Nat) (past : List (State × Label)) :
    total (fun source label => rate * cost source label) past = rate * total cost past :=
  List.sum_map_mul_left ..

variable {step : State → Label → State → Prop} {condition : State → Label → Prop}
  {start final : State} {past : List (State × Label)}

/-- A measure that pays for the work of every step, with what the step is given, until a goal
is reached pays for the work of the run. -/
theorem Run.amortized (Inv Within Goal : State → Prop) (measure : State → Nat)
    (work given : State → Label → Nat)
    (preserved : ∀ source label target, Inv source → condition source label →
      step source label target → Inv target)
    (stays : ∀ source label target, Inv source → condition source label →
      step source label target → Goal source → Goal target)
    (pays : ∀ source label target, Inv source → condition source label →
      step source label target → Within source → Within target → ¬ Goal target →
      measure target + work source label ≤ measure source + given source label)
    (run : Run step start past final) (initial : Inv start) (meets : Meets condition past)
    (within : Throughout step start past Within) (short : ¬ Goal final) :
    measure final + total work past ≤ measure start + total given past := by
  induction run with
  | nil => exact Nat.le_refl _
  | @snoc past source target label run taken ih =>
      rw [meets_append_singleton] at meets
      have inv := run.invariant Inv preserved initial meets.1
      have earlier : ¬ Goal source := fun reached =>
        short (stays source label target inv meets.2 taken reached)
      have before := ih meets.1
        (fun front state shorter => within front state (shorter.trans (List.prefix_append _ _)))
        earlier
      have paid := pays source label target inv meets.2 taken
        (within past source (List.prefix_append _ _) run)
        (within _ target (List.prefix_refl _) (run.snoc taken)) short
      rw [total_append_singleton, total_append_singleton]
      omega

/-- A measure that pays for the work of every step pays for the work of the run. -/
theorem Run.total_le (Inv : State → Prop) (measure : State → Nat) (work : State → Label → Nat)
    (preserved : ∀ source label target, Inv source → step source label target → Inv target)
    (pays : ∀ source label target, Inv source → step source label target →
      measure target + work source label ≤ measure source)
    (run : Run step start past final) (initial : Inv start) :
    total work past ≤ measure start := by
  suffices measure final + total work past ≤ measure start by omega
  induction run with
  | nil => exact Nat.le_refl _
  | @snoc past source target label run taken ih =>
      have paid := pays source label target (run.always Inv preserved initial) taken
      rw [total_append_singleton]
      omega

end Transition

namespace Turns

variable {α : Type*} {limit left : Nat} {useful due : α → Bool}

/-- How many jobs are taken off at most: two rounds of the queue for every unit that is left,
less what has passed of them. In the first round a due job is found, in the second one the
useful job behind it. -/
def turns (limit : Nat) (useful due : α → Bool) (left : Nat) (queue : List α) : Nat :=
  2 * limit * left +
    if queue.any useful then queue.findIdx useful else limit + queue.findIdx due

theorem findIdx_lt_of_any {found : α → Bool} {queue : List α} (waits : queue.any found = true) :
    queue.findIdx found < queue.length :=
  List.findIdx_lt_length.mpr (List.any_eq_true.mp waits)

theorem findIdx_append_of_any {found : α → Bool} {queue : List α} (waits : queue.any found = true)
    (more : List α) : (queue ++ more).findIdx found = queue.findIdx found := by
  rw [List.findIdx_append, if_pos (findIdx_lt_of_any waits)]

/-- While a due job waits, less than two rounds are left of the unit. -/
theorem turns_lt {queue : List α} (within : queue.length ≤ limit) (waits : queue.any due = true) :
    turns limit useful due left queue < 2 * limit * (left + 1) := by
  have first := findIdx_lt_of_any waits
  rw [turns, Nat.mul_add_one]
  split
  · next some =>
      have second := findIdx_lt_of_any some
      omega
  · omega

theorem units_le_turns (queue : List α) :
    2 * limit * left ≤ turns limit useful due left queue :=
  Nat.le_add_right _ _

/-- With a unit less the turns are fewer, wherever the jobs are. -/
theorem turns_lt_of_lt {later : Nat} {queue jobs : List α} {other : α → Bool}
    (within : queue.length ≤ limit) (waits : queue.any due = true) (fewer : later < left) :
    turns limit useful due later queue < turns limit other due left jobs := by
  have before : turns limit useful due later queue < 2 * limit * (later + 1) :=
    turns_lt within waits
  have units := Nat.mul_le_mul_left (2 * limit) (Nat.succ_le_of_lt fewer)
  calc turns limit useful due later queue
      < 2 * limit * (later + 1) := before
    _ ≤ 2 * limit * left := units
    _ ≤ turns limit other due left jobs := units_le_turns jobs

/-- Jobs put at the end do no harm. -/
theorem turns_append_le {queue more : List α} (within : (queue ++ more).length ≤ limit)
    (waits : queue.any due = true) :
    turns limit useful due left (queue ++ more) ≤ turns limit useful due left queue := by
  unfold turns
  by_cases some : queue.any useful = true
  · have still : (queue ++ more).any useful = true := by rw [List.any_append, some, Bool.true_or]
    rw [if_pos some, if_pos still, findIdx_append_of_any some]
  · rw [if_neg some, findIdx_append_of_any waits]
    split
    · next appended =>
        have second := findIdx_lt_of_any appended
        omega
    · exact Nat.le_refl _

/-- A job that is not due passes. -/
theorem turns_pass {front : α} {rest more : List α} (includes : useful front = true → due front)
    (within : (rest ++ more).length ≤ limit) (waits : (front :: rest).any due = true)
    (passes : due front = false) :
    turns limit useful due left (rest ++ more) < turns limit useful due left (front :: rest) := by
  have idle : useful front = false := by
    cases used : useful front with
    | false => rfl
    | true => rw [includes used] at passes; cases passes
  have behind : rest.any due = true := by rwa [List.any_cons, passes, Bool.false_or] at waits
  refine Nat.lt_of_le_of_lt (turns_append_le within behind) ?_
  unfold turns
  rw [List.any_cons, idle, Bool.false_or, List.findIdx_cons, List.findIdx_cons, idle, passes]
  split
  · exact Nat.lt_succ_self _
  · exact Nat.lt_succ_self _

/-- A job without use is followed by a useful one. -/
theorem turns_renew {front : α} {rest more : List α} (idle : useful front = false)
    (within : (rest ++ more).length ≤ limit) (renewed : more.any useful = true) :
    turns limit useful due left (rest ++ more) < turns limit useful due left (front :: rest) := by
  have some : (rest ++ more).any useful = true := by
    rw [List.any_append, renewed, Bool.or_true]
  unfold turns
  rw [if_pos some, List.any_cons, idle, Bool.false_or]
  by_cases behind : rest.any useful = true
  · rw [if_pos behind, findIdx_append_of_any behind, List.findIdx_cons, idle]
    exact Nat.lt_succ_self _
  · rw [if_neg behind]
    have second := findIdx_lt_of_any some
    omega

end Turns
