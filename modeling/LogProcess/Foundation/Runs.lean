import Mathlib

/-! # Runs of a state machine

A step takes an action and may be impossible. A property that every step keeps holds at the end
of a run (`Runs.invariant`), also when it is only kept by steps that meet a condition
(`Runs.invariant_of_meets`). A property that is kept by exactly those steps holds at the end of
exactly the runs of such steps (`Runs.holds_iff_meets`), and a property that any other step breaks
at once holds on the way of exactly those runs (`Runs.throughout_iff_meets`). Actions that are
possible wherever the property holds have a run (`Runs.exists_run_of_actions`).
-/

namespace Runs

variable {State Action : Type*} (step : State → Action → Option State)

/-- The state after some actions. -/
def run (start : State) (actions : List Action) : Option State := actions.foldlM step start

/-- Every step of the run meets the condition. -/
def Meets (condition : State → Action → Prop) : State → List Action → Prop
  | _, [] => True
  | state, action :: rest =>
      condition state action ∧ ∀ next ∈ step state action, Meets condition next rest

variable {step}

theorem run_cons_eq_some_iff {start final : State} {action : Action} {rest : List Action} :
    run step start (action :: rest) = some final ↔
      ∃ next, step start action = some next ∧ run step next rest = some final := by
  rw [run, List.foldlM_cons, Option.bind_eq_bind, Option.bind_eq_some_iff]
  rfl

theorem Meets.cons {condition : State → Action → Prop} {start next : State} {action : Action}
    {rest : List Action} (met : condition start action) (stepped : step start action = some next)
    (meets : Meets step condition next rest) : Meets step condition start (action :: rest) := by
  refine ⟨met, fun other other_stepped => ?_⟩
  obtain rfl := Option.some.inj (stepped.symm.trans other_stepped)
  exact meets

theorem Meets.imp {condition other : State → Action → Prop}
    (implies : ∀ state action, condition state action → other state action) {start : State}
    {actions : List Action} (meets : Meets step condition start actions) :
    Meets step other start actions := by
  induction actions generalizing start with
  | nil => trivial
  | cons action rest ih =>
      exact ⟨implies start action meets.1, fun next stepped => ih (meets.2 next stepped)⟩

/-- Actions of a kind are steps of this kind. -/
theorem meets_of_forall {allowed : Action → Prop} {start : State} {actions : List Action}
    (kind : ∀ action ∈ actions, allowed action) :
    Meets step (fun _ action => allowed action) start actions := by
  induction actions generalizing start with
  | nil => trivial
  | cons action rest ih =>
      rw [List.forall_mem_cons] at kind
      exact ⟨kind.1, fun next _ => ih kind.2⟩

theorem run_append_eq_some_iff {start final : State} {before after : List Action} :
    run step start (before ++ after) = some final ↔
      ∃ middle, run step start before = some middle ∧ run step middle after = some final := by
  rw [run, List.foldlM_append, Option.bind_eq_bind, Option.bind_eq_some_iff]
  rfl

theorem run_append_singleton {start final next : State} {actions : List Action} {action : Action}
    (reached : run step start actions = some final) (stepped : step final action = some next) :
    run step start (actions ++ [action]) = some next :=
  run_append_eq_some_iff.mpr ⟨final, reached, run_cons_eq_some_iff.mpr ⟨next, stepped, rfl⟩⟩

/-- In a run of actions of a kind, every step is one and leaves what only grows below its end. -/
theorem meets_of_grows (grade : State → Nat) {allowed : Action → Prop}
    (grows : ∀ {state action next}, step state action = some next → grade state ≤ grade next)
    {start final : State} {actions : List Action} (kind : ∀ action ∈ actions, allowed action)
    (reached : run step start actions = some final) :
    Meets step (fun state action => allowed action ∧
      ∀ next ∈ step state action, grade next ≤ grade final) start actions ∧
        grade start ≤ grade final := by
  induction actions generalizing start with
  | nil =>
      obtain rfl := Option.some.inj reached
      exact ⟨trivial, le_rfl⟩
  | cons action rest ih =>
      obtain ⟨next, stepped, later⟩ := run_cons_eq_some_iff.mp reached
      obtain ⟨meets, below⟩ := ih (fun other member => kind other
        (List.mem_cons_of_mem _ member)) later
      refine ⟨.cons ⟨kind action List.mem_cons_self, fun other here => ?_⟩ stepped meets,
        (grows stepped).trans below⟩
      obtain rfl := Option.some.inj (stepped.symm.trans here)
      exact below

/-- What the steps that meet the condition preserve holds at the end of such a run. -/
theorem invariant_of_meets {condition : State → Action → Prop} (holds : State → Prop)
    (preserved : ∀ {state action next}, holds state → condition state action →
      step state action = some next → holds next)
    {start final : State} {actions : List Action} (initially : holds start)
    (meets : Meets step condition start actions)
    (reached : run step start actions = some final) : holds final := by
  induction actions generalizing start with
  | nil =>
      obtain rfl := Option.some.inj reached
      exact initially
  | cons action rest ih =>
      obtain ⟨next, stepped, reached⟩ := run_cons_eq_some_iff.mp reached
      exact ih (preserved initially meets.1 stepped) (meets.2 next stepped) reached

/-- What every step preserves holds at the end of a run. -/
theorem invariant (holds : State → Prop)
    (preserved : ∀ {state action next}, holds state → step state action = some next → holds next)
    {start final : State} {actions : List Action} (initially : holds start)
    (reached : run step start actions = some final) : holds final := by
  induction actions generalizing start with
  | nil =>
      obtain rfl := Option.some.inj reached
      exact initially
  | cons action rest ih =>
      obtain ⟨next, stepped, reached⟩ := run_cons_eq_some_iff.mp reached
      exact ih (preserved initially stepped) reached

/-- Where the actions of a kind are possible and preserve a property, which may speak of the actions
that led to the state, there is a run of any such actions, and the property holds at its end. -/
theorem exists_run_of_actions (holds : List Action → State → Prop) {allowed : Action → Prop}
    (total : ∀ {actions state} action, holds actions state → allowed action →
      ∃ next, step state action = some next ∧ holds (actions ++ [action]) next)
    {start : State} (initially : holds [] start) {actions : List Action}
    (kind : ∀ action ∈ actions, allowed action) :
    ∃ final, run step start actions = some final ∧ holds actions final := by
  induction actions using List.reverseRecOn with
  | nil => exact ⟨start, rfl, initially⟩
  | append_singleton actions action ih =>
      obtain ⟨state, reached, held⟩ := ih fun other member => kind other
        (List.mem_append_left _ member)
      obtain ⟨next, stepped, kept⟩ := total action held
        (kind action (List.mem_append_right _ List.mem_cons_self))
      exact ⟨next, run_append_singleton reached stepped, kept⟩

/-- Where no step is impossible and every one preserves a property, there is a run of any actions,
and the property holds at its end. -/
theorem exists_run (holds : State → Prop)
    (total : ∀ {state} action, holds state → ∃ next, step state action = some next ∧ holds next)
    {start : State} (initially : holds start) (actions : List Action) :
    ∃ final, run step start actions = some final ∧ holds final :=
  exists_run_of_actions (fun _ => holds) (fun action held _ => total action held) initially
    fun _ _ => trivial

/-- What each step that meets the condition does to a view of the state, a run of such steps does
in the order of its actions. -/
theorem view_of_meets {View : Type*} (view : State → View) {condition : State → Action → Prop}
    {effect : View → Action → View}
    (effective : ∀ {state action next}, condition state action → step state action = some next →
      view next = effect (view state) action)
    {start final : State} {actions : List Action} (meets : Meets step condition start actions)
    (reached : run step start actions = some final) :
    view final = actions.foldl effect (view start) := by
  induction actions generalizing start with
  | nil =>
      obtain rfl := Option.some.inj reached
      rfl
  | cons action rest ih =>
      obtain ⟨next, stepped, reached⟩ := run_cons_eq_some_iff.mp reached
      rw [ih (meets.2 next stepped) reached, List.foldl_cons, effective meets.1 stepped]

/-- What every step preserves of a state and the actions that led to it. -/
theorem invariant_of_actions (holds : List Action → State → Prop) {start : State}
    (initially : holds [] start)
    (preserved : ∀ {actions state action next}, holds actions state →
      step state action = some next → holds (actions ++ [action]) next)
    {final : State} {actions : List Action} (reached : run step start actions = some final) :
    holds actions final := by
  induction actions using List.reverseRecOn generalizing final with
  | nil =>
      obtain rfl := Option.some.inj reached
      exact initially
  | append_singleton actions action ih =>
      obtain ⟨state, earlier, last⟩ := run_append_eq_some_iff.mp reached
      obtain ⟨next, stepped, ended⟩ := run_cons_eq_some_iff.mp last
      obtain rfl := Option.some.inj ended
      exact preserved (ih earlier) stepped

/-- What a step keeps exactly when it meets a condition holds at the end of a run exactly when
all steps meet the condition. -/
theorem holds_iff_meets {condition : State → Action → Prop} (sound holds : State → Prop)
    (preserved : ∀ {state action next}, sound state → step state action = some next →
      sound next ∧ (holds next ↔ holds state ∧ condition state action))
    {start final : State} {actions : List Action} (initially : sound start)
    (reached : run step start actions = some final) :
    holds final ↔ holds start ∧ Meets step condition start actions := by
  induction actions generalizing start with
  | nil =>
      obtain rfl := Option.some.inj reached
      exact (and_iff_left trivial).symm
  | cons action rest ih =>
      obtain ⟨next, stepped, reached⟩ := run_cons_eq_some_iff.mp reached
      obtain ⟨sound_next, holds_next⟩ := preserved initially stepped
      rw [ih sound_next reached, holds_next, and_assoc, Meets]
      simp only [stepped, Option.mem_def, Option.some.injEq, forall_eq']

/-- The property holds in every state on the way. -/
def Throughout (step : State → Action → Option State) (holds : State → Prop) (start : State)
    (actions : List Action) : Prop :=
  ∀ earlier, earlier <+: actions → ∀ state, run step start earlier = some state → holds state

theorem Throughout.tail {holds : State → Prop} {start next : State} {action : Action}
    {rest : List Action} (throughout : Throughout step holds start (action :: rest))
    (stepped : step start action = some next) : Throughout step holds next rest :=
  fun earlier first state reached =>
    throughout (action :: earlier) (List.cons_prefix_cons.mpr ⟨rfl, first⟩) state
      (run_cons_eq_some_iff.mpr ⟨next, stepped, reached⟩)

/-- What the steps that meet a condition keep, and any other step breaks at once, holds on the way
exactly when all steps meet the condition. -/
theorem throughout_iff_meets {condition : State → Action → Prop} (good holds : State → Prop)
    (sound : ∀ {state}, good state → holds state)
    (kept : ∀ {state action next}, good state → condition state action →
      step state action = some next → good next)
    (broken : ∀ {state action next}, good state → ¬condition state action →
      step state action = some next → ¬holds next)
    {start final : State} {actions : List Action} (initially : good start)
    (reached : run step start actions = some final) :
    Throughout step holds start actions ↔ Meets step condition start actions := by
  induction actions generalizing start with
  | nil =>
      refine ⟨fun _ => trivial, fun _ earlier first state here => ?_⟩
      obtain rfl := List.prefix_nil.mp first
      obtain rfl := Option.some.inj here
      exact sound initially
  | cons action rest ih =>
      obtain ⟨next, stepped, later⟩ := run_cons_eq_some_iff.mp reached
      refine ⟨fun throughout => ?_, fun meets earlier first state here => ?_⟩
      · have met : condition start action := by
          by_contra unmet
          exact broken initially unmet stepped
            (throughout.tail stepped [] (List.nil_prefix) next rfl)
        exact .cons met stepped ((ih (kept initially met stepped) later).mp
          (throughout.tail stepped))
      · rcases List.prefix_cons_iff.mp first with rfl | ⟨earlier, rfl, shorter⟩
        · obtain rfl := Option.some.inj here
          exact sound initially
        · obtain ⟨middle, stepped', here⟩ := run_cons_eq_some_iff.mp here
          obtain rfl := Option.some.inj (stepped.symm.trans stepped')
          exact (ih (kept initially meets.1 stepped) later).mpr (meets.2 next stepped) earlier
            shorter state here

end Runs
