import Mathlib.Logic.Relation

/-! # Runs of a labelled transition relation

A run records, for every step it takes, the state the step leaves and the label
it carries. A property of single steps is then a property of the records, and a
condition on a step may look at the state before it and at its label
(`Transition.Meets`). A predicate that every step meeting the condition
preserves holds at the end of every run whose records all meet it
(`Transition.Run.invariant`); since every prefix of a run is a run, it holds in
every state such a run goes through. What a part of the system does in a run is a
run of the part (`Transition.Run.project`).
-/

namespace Transition

variable {State Label : Type*}

/-- Executions of `step` from `start`, with the states left and the labels taken. -/
inductive Run (step : State → Label → State → Prop) (start : State) :
    List (State × Label) → State → Prop
  | nil : Run step start [] start
  | snoc {past : List (State × Label)} {source target : State} {label : Label} :
      Run step start past source → step source label target →
        Run step start (past ++ [(source, label)]) target

/-- Every step of the record meets the condition. -/
def Meets (condition : State → Label → Prop) (past : List (State × Label)) : Prop :=
  ∀ record ∈ past, condition record.1 record.2

theorem Meets.nil (condition : State → Label → Prop) : Meets condition [] := by
  intro record member
  exact absurd member List.not_mem_nil

@[simp] theorem meets_append_singleton (condition : State → Label → Prop)
    (past : List (State × Label)) (source : State) (label : Label) :
    Meets condition (past ++ [(source, label)]) ↔
      Meets condition past ∧ condition source label := by
  simp only [Meets, List.mem_append, List.mem_singleton, or_imp, forall_and, forall_eq]

variable {step : State → Label → State → Prop} {condition : State → Label → Prop}
  {start final : State} {past : List (State × Label)}

/-- A predicate kept by every step that meets the condition holds at the end of
every run whose steps all meet it. -/
theorem Run.invariant (Inv : State → Prop)
    (preserved : ∀ source label target, Inv source → condition source label →
      step source label target → Inv target)
    (run : Run step start past final) (initial : Inv start) (meets : Meets condition past) :
    Inv final := by
  induction run with
  | nil => exact initial
  | @snoc past source target label run taken ih =>
      rw [meets_append_singleton] at meets
      exact preserved source label target (ih meets.1) meets.2 taken

/-- A predicate kept by every step holds at the end of every run. -/
theorem Run.always (Inv : State → Prop)
    (preserved : ∀ source label target, Inv source → step source label target → Inv target)
    (run : Run step start past final) (initial : Inv start) : Inv final := by
  induction run with
  | nil => exact initial
  | snoc run taken ih => exact preserved _ _ _ ih taken

/-- The part of a run before one of its records is a run to the recorded state,
and the record's step was taken there. -/
theorem Run.split_at {source : State} {label : Label} (run : Run step start past final)
    (member : (source, label) ∈ past) :
    ∃ before target, before ++ [(source, label)] <+: past ∧ Run step start before source ∧
      step source label target ∧ Run step start (before ++ [(source, label)]) target := by
  induction run with
  | nil => exact absurd member List.not_mem_nil
  | @snoc past last target lastLabel run taken ih =>
      rcases List.mem_append.mp member with earlier | latest
      · obtain ⟨before, next, front, reached, stepped, extended⟩ := ih earlier
        exact ⟨before, next, front.trans (List.prefix_append _ _), reached, stepped, extended⟩
      · rw [List.mem_singleton, Prod.mk.injEq] at latest
        obtain ⟨rfl, rfl⟩ := latest
        exact ⟨past, target, List.prefix_refl _, run, taken, .snoc run taken⟩

/-- The predicate holds in every state reached along the records. -/
def Throughout (step : State → Label → State → Prop) (start : State)
    (past : List (State × Label)) (predicate : State → Prop) : Prop :=
  ∀ before state, before <+: past → Run step start before state → predicate state

theorem Meets.of_prefix {before : List (State × Label)} (meets : Meets condition past)
    (front : before <+: past) : Meets condition before :=
  fun record member => meets record (front.subset member)

/-- What follows from an invariant holds all along a run whose steps meet the condition. -/
theorem Throughout.of_invariant (Inv : State → Prop) {predicate : State → Prop}
    (preserved : ∀ source label target, Inv source → condition source label →
      step source label target → Inv target)
    (implies : ∀ state, Inv state → predicate state) (initial : Inv start)
    (meets : Meets condition past) : Throughout step start past predicate :=
  fun _ state front run =>
    implies state (run.invariant Inv preserved initial (meets.of_prefix front))

/-- A predicate that a step keeps exactly if it meets the condition holds all along a run
exactly if every step does. -/
theorem Run.throughout_iff_meets {predicate : State → Prop}
    (kept_iff : ∀ source label target, predicate source → step source label target →
      (predicate target ↔ condition source label))
    (run : Run step start past final) (initial : predicate start) :
    Throughout step start past predicate ↔ Meets condition past := by
  constructor
  · intro holds record member
    obtain ⟨source, label⟩ := record
    obtain ⟨before, target, front, reached, taken, extended⟩ := run.split_at member
    have earlier := holds before source ((List.prefix_append _ _).trans front) reached
    exact (kept_iff source label target earlier taken).mp (holds _ target front extended)
  · exact Throughout.of_invariant predicate
      (fun source label target earlier meets taken =>
        (kept_iff source label target earlier taken).mpr meets)
      (fun _ holds => holds) initial

/-- Every step taken along the records leaves a state as stated. -/
def EveryStep (step : State → Label → State → Prop) (start : State)
    (past : List (State × Label)) (property : State → Label → State → Prop) : Prop :=
  ∀ before source label target, before ++ [(source, label)] <+: past →
    Run step start before source → step source label target → property source label target

/-- What an invariant and the condition of a step imply of it holds of every step of a run
whose steps meet the condition. -/
theorem EveryStep.of_invariant (Inv : State → Prop) {property : State → Label → State → Prop}
    (preserved : ∀ source label target, Inv source → condition source label →
      step source label target → Inv target)
    (implies : ∀ source label target, Inv source → condition source label →
      step source label target → property source label target)
    (initial : Inv start) (meets : Meets condition past) :
    EveryStep step start past property := by
  intro before source label target front reached taken
  have earlier := (meets.of_prefix ((List.prefix_append _ _).trans front))
  have member := front.subset (List.mem_append_right _ (List.mem_singleton_self _))
  exact implies _ _ _ (reached.invariant Inv preserved initial earlier) (meets _ member) taken

/-- What holds of a step exactly if it meets the condition holds of every step of a run
exactly if they all do. -/
theorem Run.everyStep_iff_meets {property : State → Label → State → Prop}
    (holds_iff : ∀ source label target, step source label target →
      (property source label target ↔ condition source label))
    (run : Run step start past final) :
    EveryStep step start past property ↔ Meets condition past := by
  constructor
  · intro holds record member
    obtain ⟨source, label⟩ := record
    obtain ⟨before, target, front, reached, taken, _⟩ := run.split_at member
    exact (holds_iff _ _ _ taken).mp (holds before source label target front reached taken)
  · intro meets before source label target front _ taken
    apply (holds_iff _ _ _ taken).mpr
    exact meets _ (front.subset (List.mem_append_right _ (List.mem_singleton_self _)))

section Parts

variable {Part Action : Type*} {part : State → Part} {view : Label → Option Action}
  {move : Part → Action → Part → Prop}

/-- The steps of a record that are steps of a part. -/
def project (part : State → Part) (view : Label → Option Action) (past : List (State × Label)) :
    List (Part × Action) :=
  past.filterMap fun record => (view record.2).map (part record.1, ·)

theorem project_append (past more : List (State × Label)) :
    project part view (past ++ more) = project part view past ++ project part view more :=
  List.filterMap_append

/-- The projection of one step: itself, if it is seen. -/
theorem project_singleton (source : State) (label : Label) :
    project part view [(source, label)] = ((view label).map (part source, ·)).toList := by
  rw [project, List.filterMap_cons, List.filterMap_nil]
  cases view label with
  | none => rfl
  | some action => rfl

/-- Where every step of the system is a step of the part or leaves it alone, a run of the system
is one of the part. -/
theorem Run.project (moves : ∀ source label target action, step source label target →
      view label = some action → move (part source) action (part target))
    (stays : ∀ source label target, step source label target → view label = none →
      part target = part source)
    (run : Run step start past final) :
    Run move (part start) (project part view past) (part final) := by
  induction run with
  | nil => exact .nil
  | @snoc past source target label run taken ih =>
      rw [project_append, project_singleton]
      cases seen : view label with
      | none =>
          rw [stays source label target taken seen, Option.map_none, Option.toList_none,
            List.append_nil]
          exact ih
      | some action => exact ih.snoc (moves source label target action taken seen)

end Parts

end Transition
