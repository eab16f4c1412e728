import Mathlib

/-! # Loops that may not end

A loop runs rounds on a state until one of them gives a result. It has the result of the state
that its next round leaves (`Loop.gives_of_next`), and it has none when a property of the state
lets every round go on and is kept (`Loop.not_ends_of_forever`).
-/

namespace Loop

/-- What a round does. -/
inductive Round (State Result : Type*) where
  | next (state : State)
  | done (result : Result)

variable {State Result : Type*}

/-- The result of a loop that ends within some number of rounds. -/
def run (round : State → Round State Result) : Nat → State → Option Result
  | 0, _ => none
  | rounds + 1, state =>
      match round state with
      | .next state => run round rounds state
      | .done result => some result

/-- The loop ends with the result. -/
def Gives (round : State → Round State Result) (start : State) (result : Result) : Prop :=
  ∃ rounds, run round rounds start = some result

/-- The loop ends. -/
def Ends (round : State → Round State Result) (start : State) : Prop :=
  ∃ result, Gives round start result

variable {round : State → Round State Result}

theorem gives_of_done {state : State} {result : Result} (last : round state = .done result) :
    Gives round state result :=
  ⟨1, by rw [run, last]⟩

theorem gives_of_next {state next : State} {result : Result} (goes : round state = .next next)
    (later : Gives round next result) : Gives round state result := by
  obtain ⟨rounds, ended⟩ := later
  exact ⟨rounds + 1, by rw [run, goes]; exact ended⟩

/-- A loop in which every round goes on does not end. -/
theorem not_ends_of_forever {forever : State → Prop}
    (goes : ∀ state, forever state → ∃ next, round state = .next next ∧ forever next)
    {start : State} (started : forever start) : ¬Ends round start := by
  intro ends
  obtain ⟨result, rounds, ended⟩ := ends
  induction rounds generalizing start with
  | zero => cases ended
  | succ rounds ih =>
      obtain ⟨next, step, kept⟩ := goes start started
      rw [run, step] at ended
      exact ih kept ended

end Loop
