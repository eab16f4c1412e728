import Mathlib

/-! # Computations that may fail

Rules for computations in `Except`: when a sequence of two succeeds, when a fold over a
list succeeds and what it reaches (`Fallible.exists_foldlM_eq_ok`, and
`Fallible.exists_foldlM_follows` along another fold), and what the tests of
all and of some elements of a list answer (`Fallible.Answers.allM`,
`Fallible.Answers.anyM`), also when some of them may fail (`Fallible.Decides.anyM`).
-/

namespace Fallible

variable {Fault Value Result : Type}

theorem bind_eq_ok_iff (first : Except Fault Value) (second : Value → Except Fault Result)
    (result : Result) :
    first >>= second = .ok result ↔ ∃ value, first = .ok value ∧ second value = .ok result := by
  cases first with
  | error fault => simp [bind, Except.bind]
  | ok value => simp [bind, Except.bind]

theorem bind_eq_error_iff (first : Except Fault Value) (second : Value → Except Fault Result)
    (fault : Fault) :
    first >>= second = .error fault ↔
      first = .error fault ∨ ∃ value, first = .ok value ∧ second value = .error fault := by
  cases first with
  | error other => simp [bind, Except.bind]
  | ok value => simp [bind, Except.bind]

/-- A map whose steps do not fail. -/
theorem mapM_eq_pure {Result : Type} {m : Type → Type} [Monad m] [LawfulMonad m]
    {elements : List Value} {step : Value → m Result} {value : Value → Result}
    (total : ∀ element ∈ elements, step element = pure (value element)) :
    elements.mapM step = pure (elements.map value) := by
  induction elements with
  | nil => rfl
  | cons element rest ih =>
      rw [List.forall_mem_cons] at total
      rw [List.mapM_cons, total.1, ih total.2, pure_bind, pure_bind, List.map_cons]

theorem pure_eq_ok_iff (value result : Value) :
    (pure value : Except Fault Value) = .ok result ↔ value = result :=
  Iff.of_eq (Except.ok.injEq value result)

theorem toOption_eq_some_iff {result : Except Fault Value} {value : Value} :
    result.toOption = some value ↔ result = .ok value := by
  cases result with
  | error fault => exact iff_of_false nofun nofun
  | ok other => exact (Option.some.injEq ..).trans (Except.ok.injEq ..).symm |>.to_iff

section Folds

variable {Element State : Type} {step : State → Element → Except Fault State}

/-- A fold whose steps succeed and preserve a property succeeds with it. The property
may speak about the elements that are done. -/
theorem exists_foldlM_eq_ok {reached : List Element → State → Prop} {elements : List Element}
    (preserved : ∀ done state, ∀ element ∈ elements, reached done state →
      ∃ next, step state element = .ok next ∧ reached (done ++ [element]) next)
    {done : List Element} {state : State} (start : reached done state) :
    ∃ final, elements.foldlM step state = .ok final ∧ reached (done ++ elements) final := by
  induction elements generalizing done state with
  | nil => exact ⟨state, rfl, by rwa [List.append_nil]⟩
  | cons element rest ih =>
      obtain ⟨next, stepped, reached_next⟩ :=
        preserved done state element List.mem_cons_self start
      obtain ⟨final, folded, reached_final⟩ :=
        ih (fun done state later member => preserved done state later
          (List.mem_cons_of_mem element member)) reached_next
      rw [List.append_assoc, List.singleton_append] at reached_final
      exact ⟨final, (bind_eq_ok_iff ..).mpr ⟨next, stepped, folded⟩, reached_final⟩

/-- A fold whose steps succeed and follow those of another fold ends where the other one does. -/
theorem exists_foldlM_follows {Followed : Type} {related : State → Followed → Prop}
    {move : Followed → Element → Followed}
    (follows : ∀ state followed element, related state followed →
      ∃ next, step state element = .ok next ∧ related next (move followed element))
    {state : State} {followed : Followed} (start : related state followed)
    (elements : List Element) :
    ∃ final, elements.foldlM step state = .ok final ∧
      related final (elements.foldl move followed) := by
  have preserved : ∀ done state, ∀ element ∈ elements, related state (done.foldl move followed) →
      ∃ next, step state element = .ok next ∧
        related next ((done ++ [element]).foldl move followed) := by
    intro done state element _ held
    rw [List.foldl_concat]
    exact follows state _ element held
  exact exists_foldlM_eq_ok preserved (show related state (List.foldl move followed []) from start)

/-- What the steps that succeed preserve holds at the end of a fold that succeeds. -/
theorem invariant_of_foldlM (holds : State → Prop)
    (preserved : ∀ {state element next}, holds state → step state element = .ok next → holds next)
    {elements : List Element} {state final : State} (initially : holds state)
    (folded : elements.foldlM step state = .ok final) : holds final := by
  induction elements generalizing state with
  | nil =>
      obtain rfl := Except.ok.inj folded
      exact initially
  | cons element rest ih =>
      obtain ⟨next, stepped, folded⟩ := (bind_eq_ok_iff ..).mp folded
      exact ih (preserved initially stepped) folded

/-- A fold fails when one of its steps fails in every state. -/
theorem foldlM_ne_ok {elements : List Element} {element : Element} (member : element ∈ elements)
    (fails : ∀ state next, step state element ≠ .ok next) (state final : State) :
    elements.foldlM step state ≠ .ok final := by
  induction elements generalizing state with
  | nil => cases member
  | cons first rest ih =>
      intro folded
      obtain ⟨next, stepped, folded⟩ := (bind_eq_ok_iff ..).mp folded
      rcases List.mem_cons.mp member with rfl | later
      · exact fails state next stepped
      · exact ih later next folded

/-- A fold whose steps fail or not whatever the state is succeeds when none of them fails. -/
theorem exists_foldlM_iff {passes : Element → Prop} {elements : List Element}
    (succeeds : ∀ state element, (∃ next, step state element = .ok next) ↔ passes element)
    (state : State) :
    (∃ final, elements.foldlM step state = .ok final) ↔ ∀ element ∈ elements, passes element := by
  induction elements generalizing state with
  | nil => exact iff_of_true ⟨state, rfl⟩ fun _ member => absurd member List.not_mem_nil
  | cons element rest ih =>
      rw [List.forall_mem_cons, ← succeeds state element, List.foldlM_cons]
      refine ⟨fun folded => ?_, fun passed => ?_⟩
      · obtain ⟨final, folded⟩ := folded
        obtain ⟨next, stepped, folded⟩ := (bind_eq_ok_iff ..).mp folded
        exact ⟨⟨next, stepped⟩, (ih next).mp ⟨final, folded⟩⟩
      · obtain ⟨⟨next, stepped⟩, later⟩ := passed
        obtain ⟨final, folded⟩ := (ih next).mpr later
        exact ⟨final, (bind_eq_ok_iff ..).mpr ⟨next, stepped, folded⟩⟩

end Folds

/-- The test succeeds, and its answer decides the claim. -/
def Answers (test : Except Fault Bool) (claim : Prop) : Prop :=
  ∃ answer, test = .ok answer ∧ (answer = true ↔ claim)

namespace Answers

variable {test : Except Fault Bool} {claim other : Prop}

theorem pure (answer : Bool) :
    Answers (Pure.pure answer : Except Fault Bool) (answer = true) :=
  ⟨answer, rfl, Iff.rfl⟩

theorem congr (answers : Answers test claim) (same : claim ↔ other) : Answers test other := by
  obtain ⟨answer, tested, answer_iff⟩ := answers
  exact ⟨answer, tested, answer_iff.trans same⟩

theorem succeeds (answers : Answers test claim) : ∃ answer, test = .ok answer :=
  answers.imp fun _ => And.left

/-- A test that succeeds answers whether it is true. -/
theorem of_exists (succeeds : ∃ answer, test = .ok answer) : Answers test (test = .ok true) := by
  obtain ⟨answer, rfl⟩ := succeeds
  exact ⟨answer, rfl, by rw [Except.ok.injEq]⟩

section Lists

variable {Element : Type} {tests : Element → Except Fault Bool} {claims : Element → Prop}
  {elements : List Element}

/-- A test of all elements of a list. -/
theorem allM (answered : ∀ element ∈ elements, Answers (tests element) (claims element)) :
    Answers (elements.allM tests) (∀ element ∈ elements, claims element) := by
  induction elements with
  | nil => exact ⟨true, rfl, by simp⟩
  | cons element rest ih =>
      rw [List.forall_mem_cons] at answered
      obtain ⟨answer, tested, answer_iff⟩ := answered.1
      rw [List.allM, tested]
      cases answer with
      | false => exact ⟨false, rfl, by simp [← answer_iff]⟩
      | true => exact (ih answered.2).congr (by simp [← answer_iff])

/-- A test for some element of a list. -/
theorem anyM (answered : ∀ element ∈ elements, Answers (tests element) (claims element)) :
    Answers (elements.anyM tests) (∃ element ∈ elements, claims element) := by
  induction elements with
  | nil => exact ⟨false, rfl, by simp⟩
  | cons element rest ih =>
      rw [List.forall_mem_cons] at answered
      obtain ⟨answer, tested, answer_iff⟩ := answered.1
      rw [List.anyM, tested]
      cases answer with
      | true => exact ⟨true, rfl, by simp [← answer_iff]⟩
      | false => exact (ih answered.2).congr (by simp [← answer_iff])

end Lists

end Answers

/-- When the test succeeds, its answer decides the claim. -/
def Decides (test : Except Fault Bool) (claim : Prop) : Prop :=
  ∀ answer, test = .ok answer → (answer = true ↔ claim)

theorem Answers.decides {test : Except Fault Bool} {claim : Prop} (answers : Answers test claim) :
    Decides test claim := by
  obtain ⟨_, rfl, answer_iff⟩ := answers
  intro answer same
  obtain rfl := Except.ok.inj same
  exact answer_iff

namespace Decides

variable {test : Except Fault Bool} {claim other : Prop}

theorem congr (decides : Decides test claim) (same : claim ↔ other) : Decides test other :=
  fun answer tested => (decides answer tested).trans same

theorem refl (test : Except Fault Bool) : Decides test (test = .ok true) := by
  rintro answer rfl
  rw [Except.ok.injEq]

section Lists

variable {Element : Type} {tests : Element → Except Fault Bool} {claims : Element → Prop}

/-- A test for some element of a list. -/
theorem anyM {elements : List Element}
    (decides : ∀ element ∈ elements, Decides (tests element) (claims element)) :
    Decides (elements.anyM tests) (∃ element ∈ elements, claims element) := by
  induction elements with
  | nil => exact (Answers.anyM (List.forall_mem_nil _)).decides
  | cons element rest ih =>
      rw [List.forall_mem_cons] at decides
      intro answer tested
      obtain ⟨found, first, later⟩ := (bind_eq_ok_iff ..).mp tested
      have found_iff := decides.1 found first
      rw [List.exists_mem_cons_iff, ← found_iff]
      cases found with
      | true =>
          obtain rfl := Except.ok.inj later
          exact iff_of_true rfl (.inl rfl)
      | false => exact (ih decides.2 answer later).trans (or_iff_right Bool.false_ne_true).symm

/-- A test of all elements of two lists. -/
theorem allM_append {first second : List Element} (decides : Decides (first.allM tests) claim)
    (others : Decides (second.allM tests) other) :
    Decides ((first ++ second).allM tests) (claim ∧ other) := by
  have both (elements : List Element) : (elements ++ second).allM tests =
      elements.allM tests >>= fun all => if all then second.allM tests else pure false := by
    induction elements with
    | nil => rfl
    | cons element rest ih =>
        rw [List.cons_append, List.allM, List.allM, ih, bind_assoc]
        refine bind_congr fun answer => ?_
        cases answer <;> rfl
  intro answer tested
  rw [both] at tested
  obtain ⟨all, checked, later⟩ := (bind_eq_ok_iff ..).mp tested
  rw [← decides all checked]
  cases all with
  | true => exact (others answer later).trans (and_iff_right rfl).symm
  | false =>
      obtain rfl := Except.ok.inj later
      exact iff_of_false Bool.false_ne_true fun both => Bool.false_ne_true both.1

/-- A test of an element that is in the list under a condition. -/
theorem allM_ite {element : Element} (skipped : Prop) [Decidable skipped]
    (decides : Decides (tests element) claim) :
    Decides ((if skipped then [] else [element]).allM tests) (¬skipped → claim) := by
  split
  next skips =>
      intro answer tested
      obtain rfl := Except.ok.inj tested
      exact iff_of_true rfl fun kept => absurd skips kept
  next kept =>
      intro answer tested
      obtain ⟨all, checked, later⟩ := (bind_eq_ok_iff ..).mp tested
      refine .trans ?_ ((decides all checked).trans (imp_iff_right kept).symm)
      cases all <;> (obtain rfl := Except.ok.inj later; rfl)

end Lists

end Decides

section Lists

variable {Element : Type} {tests : Element → Except Fault Bool}

/-- A test of all elements goes on behind an element for which it holds. -/
theorem exists_allM_cons_iff {element : Element} {rest : List Element} :
    (∃ answer, (element :: rest).allM tests = .ok answer) ↔
      (∃ answer, tests element = .ok answer) ∧
        (tests element = .ok true → ∃ answer, rest.allM tests = .ok answer) := by
  rw [List.allM]
  cases tests element with
  | error fault => simp [bind, Except.bind]
  | ok answer => cases answer <;> simp [bind, Except.bind, Pure.pure, Except.pure]

/-- A test for some element goes on behind an element for which it does not hold. -/
theorem exists_anyM_cons_iff {element : Element} {rest : List Element} :
    (∃ answer, (element :: rest).anyM tests = .ok answer) ↔
      (∃ answer, tests element = .ok answer) ∧
        (tests element = .ok false → ∃ answer, rest.anyM tests = .ok answer) := by
  rw [List.anyM]
  cases tests element with
  | error fault => simp [bind, Except.bind]
  | ok answer => cases answer <;> simp [bind, Except.bind, Pure.pure, Except.pure]

/-- A test for some element that finds none holds for none. -/
theorem eq_ok_false_of_anyM {elements : List Element} (tested : elements.anyM tests = .ok false) :
    ∀ element ∈ elements, tests element = .ok false := by
  induction elements with
  | nil => exact fun _ member => absurd member List.not_mem_nil
  | cons element rest ih =>
      obtain ⟨answer, answered, later⟩ := (bind_eq_ok_iff ..).mp tested
      cases answer with
      | true => cases later
      | false => exact List.forall_mem_cons.mpr ⟨answered, ih later⟩

/-- An element that a test treats like one of the list changes nothing behind the list. -/
theorem anyM_append_of_mem {elements : List Element} {old new : Element} (member : old ∈ elements)
    (same : tests new = tests old) : (elements ++ [new]).anyM tests = elements.anyM tests := by
  -- the new element is tested only when none of the others passed
  have reached (elements : List Element) : (elements ++ [new]).anyM tests =
      elements.anyM tests >>= fun found => if found then pure true else tests new := by
    induction elements with
    | nil =>
        rw [List.nil_append, List.anyM, List.anyM, pure_bind]
        cases tests new with
        | error fault => rfl
        | ok answer => cases answer <;> rfl
    | cons element rest ih =>
        rw [List.cons_append, List.anyM, List.anyM, ih, bind_assoc]
        cases tests element with
        | error fault => rfl
        | ok answer => cases answer <;> rfl
  have absorbed {found : Bool} (tested : elements.anyM tests = .ok found) :
      (if found then pure true else tests new) = .ok found := by
    cases found with
    | true => rfl
    | false => exact same.trans (eq_ok_false_of_anyM tested old member)
  rw [reached]
  cases tested : elements.anyM tests with
  | error fault => rfl
  | ok found => exact absorbed tested

/-- A test for some element answers unless it fails for an element behind others for which it does
not hold. -/
theorem exists_anyM_iff {elements : List Element} :
    (∃ answer, elements.anyM tests = .ok answer) ↔
      ∀ before element after, elements = before ++ element :: after →
        (∀ earlier ∈ before, tests earlier = .ok false) →
          ∃ answer, tests element = .ok answer := by
  induction elements with
  | nil =>
      refine iff_of_true ⟨false, rfl⟩ fun before element after same => ?_
      exact absurd same.symm (List.append_ne_nil_of_right_ne_nil _ (List.cons_ne_nil _ _))
  | cons first rest ih =>
      rw [exists_anyM_cons_iff, ih]
      refine ⟨fun answered before element after same earlier => ?_, fun answered => ⟨?_, ?_⟩⟩
      · cases before with
        | nil =>
            obtain ⟨rfl, _⟩ := List.cons.inj same
            exact answered.1
        | cons other before =>
            obtain ⟨rfl, later⟩ := List.cons.inj same
            rw [List.forall_mem_cons] at earlier
            exact answered.2 earlier.1 before element after later earlier.2
      · exact answered [] first rest rfl fun _ member => absurd member List.not_mem_nil
      · intro passed before element after same earlier
        refine answered (first :: before) element after (by rw [same, List.cons_append]) ?_
        exact List.forall_mem_cons.mpr ⟨passed, earlier⟩

end Lists

end Fallible
