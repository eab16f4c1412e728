import LogProcess.Foundation.Runs

/-! # Feeds

A consumer asks a feed for one package after the other and takes the items of a package in order
before it asks for the next one. A request that failed is repeated (`Feed.requested_of_failed`),
so the packages that are accepted have consecutive ids (`Feed.Consumes.accepted_eq_iterate`), and
their items are taken once and in order (`Feed.Consumes.taken_append_left`).
-/

namespace Feed

/-- What a consumer does. -/
inductive Event (Id Item Output : Type*) where
  | requested (id : Id)
  | failed (id : Id)
  | accepted (id : Id) (items : List Item)
  | taken (id : Id) (item : Item) (output : Output)
  | finished (id : Id)

inductive Phase (Item : Type*) where
  | asking
  | waiting
  | taking (items : List Item)
  deriving DecidableEq

/-- The package that is asked for or taken. -/
structure Consumer (Id Item : Type*) where
  current : Id
  phase : Phase Item

variable {Id Item Output : Type*}

def start (first : Id) : Consumer Id Item := ⟨first, .asking⟩

/-! ### Projections of a log -/

namespace Event

def package? : Event Id Item Output → Option (Id × List Item)
  | accepted id items => some (id, items)
  | _ => none

def item? : Event Id Item Output → Option (Id × Item)
  | taken id item _ => some (id, item)
  | _ => none

def isFinished : Event Id Item Output → Bool
  | finished _ => true
  | _ => false

end Event

/-- The accepted packages. -/
def accepted (log : List (Event Id Item Output)) : List (Id × List Item) :=
  log.filterMap Event.package?

/-- The items that were taken, with the ids of their packages. -/
def taken (log : List (Event Id Item Output)) : List (Id × Item) := log.filterMap Event.item?

/-- The number of packages all of whose items were taken. -/
def finishedCount (log : List (Event Id Item Output)) : Nat := log.countP Event.isFinished

/-- The items of some packages. -/
def items (packages : List (Id × List Item)) : List (Id × Item) :=
  packages.flatMap fun package => package.2.map (package.1, ·)

/-- The number of packages that are being taken. -/
def Phase.openCount : Phase Item → Nat
  | .asking => 0
  | .waiting => 0
  | .taking _ => 1

/-- The items of the current package that are left. -/
def Consumer.left (consumer : Consumer Id Item) : List (Id × Item) :=
  match consumer.phase with
  | .taking items => items.map (consumer.current, ·)
  | _ => []

@[simp] theorem accepted_concat (log : List (Event Id Item Output)) (event : Event Id Item Output) :
    accepted (log ++ [event]) = accepted log ++ event.package?.toList := by
  rw [accepted, List.filterMap_append, List.filterMap_cons, List.filterMap_nil, accepted]
  cases event.package? <;> rfl

@[simp] theorem taken_concat (log : List (Event Id Item Output)) (event : Event Id Item Output) :
    taken (log ++ [event]) = taken log ++ event.item?.toList := by
  rw [taken, List.filterMap_append, List.filterMap_cons, List.filterMap_nil, taken]
  cases event.item? <;> rfl

@[simp] theorem finishedCount_concat (log : List (Event Id Item Output))
    (event : Event Id Item Output) :
    finishedCount (log ++ [event]) = finishedCount log + if event.isFinished then 1 else 0 := by
  rw [finishedCount, List.countP_append, List.countP_singleton, finishedCount]

theorem items_concat (packages : List (Id × List Item)) (id : Id) (rest : List Item) :
    items (packages ++ [(id, rest)]) = items packages ++ rest.map (id, ·) := by
  rw [items, List.flatMap_append, List.flatMap_singleton, items]

theorem iterate_concat (succ : Id → Id) (first : Id) (count : Nat) :
    List.iterate succ first (count + 1) = List.iterate succ first count ++ [succ^[count] first] :=
  List.iterate_add ..

/-- What a log and the state that it leads to have in common. -/
structure Consumes (succ : Id → Id) (first : Id) (log : List (Event Id Item Output))
    (consumer : Consumer Id Item) : Prop where
  current_eq : consumer.current = succ^[finishedCount log] first
  ids_eq : (accepted log).map Prod.fst =
    List.iterate succ first (finishedCount log + consumer.phase.openCount)
  taken_append_left : taken log ++ consumer.left = items (accepted log)

/-- Requests and failures do not change what the description speaks of. -/
theorem Consumes.of_silent {succ : Id → Id} {first : Id} {log : List (Event Id Item Output)}
    {event : Event Id Item Output} {consumer next : Consumer Id Item}
    (consumes : Consumes succ first log consumer) (package : event.package? = none)
    (item : event.item? = none) (finished : event.isFinished = false)
    (current : next.current = consumer.current)
    (phase : next.phase.openCount = consumer.phase.openCount)
    (left : next.left = consumer.left) : Consumes succ first (log ++ [event]) next := by
  obtain ⟨current_eq, ids_eq, taken_append_left⟩ := consumes
  refine ⟨?_, ?_, ?_⟩
  · rw [current, current_eq, finishedCount_concat, finished, if_neg Bool.false_ne_true, add_zero]
  · rw [accepted_concat, package, Option.toList_none, List.append_nil, ids_eq, phase,
      finishedCount_concat, finished, if_neg Bool.false_ne_true, add_zero]
  · rw [taken_concat, accepted_concat, package, item, Option.toList_none, Option.toList_none,
      List.append_nil, List.append_nil, left, taken_append_left]

/-- The ids of the accepted packages follow each other. -/
theorem Consumes.accepted_eq_iterate {succ : Id → Id} {first : Id}
    {log : List (Event Id Item Output)} {consumer : Consumer Id Item}
    (consumes : Consumes succ first log consumer) :
    (accepted log).map Prod.fst = List.iterate succ first (accepted log).length := by
  have count := congrArg List.length consumes.ids_eq
  rw [List.length_map, List.length_iterate] at count
  rw [consumes.ids_eq, count]

/-! ### Steps -/

variable [DecidableEq Id] [DecidableEq Item] (succ : Id → Id)

def step (consumer : Consumer Id Item) :
    Event Id Item Output → Option (Consumer Id Item)
  | .requested id =>
      if consumer.phase = .asking ∧ id = consumer.current then
        some { consumer with phase := .waiting }
      else none
  | .failed id =>
      if consumer.phase = .waiting ∧ id = consumer.current then
        some { consumer with phase := .asking }
      else none
  | .accepted id items =>
      if consumer.phase = .waiting ∧ id = consumer.current then
        some { consumer with phase := .taking items }
      else none
  | .taken id item _ =>
      match consumer.phase with
      | .taking (first :: rest) =>
          if item = first ∧ id = consumer.current then
            some { consumer with phase := .taking rest }
          else none
      | _ => none
  | .finished id =>
      if consumer.phase = .taking [] ∧ id = consumer.current then
        some ⟨succ consumer.current, .asking⟩
      else none

variable {succ}

/-- The same package is asked for again. -/
theorem requested_of_failed {first id : Id} {before after : List (Event Id Item Output)}
    {event : Event Id Item Output} {final : Consumer Id Item}
    (reached : Runs.run (step succ) (start first) (before ++ .failed id :: event :: after) =
      some final) : event = .requested id := by
  obtain ⟨consumer, _, reached⟩ := Runs.run_append_eq_some_iff.mp reached
  obtain ⟨asking, failed, reached⟩ := Runs.run_cons_eq_some_iff.mp reached
  obtain ⟨next, stepped, _⟩ := Runs.run_cons_eq_some_iff.mp reached
  rw [step, Option.ite_none_right_eq_some, Option.some.injEq] at failed
  obtain ⟨⟨_, rfl⟩, rfl⟩ := failed
  cases event with
  | requested other =>
      rw [step, Option.ite_none_right_eq_some] at stepped
      rw [stepped.1.2]
  | _ => simp [step] at stepped

/-- Every event keeps the description. -/
theorem Consumes.step {first : Id} {log : List (Event Id Item Output)}
    {event : Event Id Item Output} {consumer next : Consumer Id Item}
    (consumes : Consumes succ first log consumer)
    (stepped : Feed.step succ consumer event = some next) :
    Consumes succ first (log ++ [event]) next := by
  obtain ⟨current, phase⟩ := consumer
  cases event with
  | requested id =>
      rw [Feed.step, Option.ite_none_right_eq_some, Option.some.injEq] at stepped
      obtain ⟨⟨rfl, rfl⟩, rfl⟩ := stepped
      exact consumes.of_silent rfl rfl rfl rfl rfl rfl
  | failed id =>
      rw [Feed.step, Option.ite_none_right_eq_some, Option.some.injEq] at stepped
      obtain ⟨⟨rfl, rfl⟩, rfl⟩ := stepped
      exact consumes.of_silent rfl rfl rfl rfl rfl rfl
  | accepted id data =>
      rw [Feed.step, Option.ite_none_right_eq_some, Option.some.injEq] at stepped
      obtain ⟨⟨rfl, rfl⟩, rfl⟩ := stepped
      obtain ⟨current_eq, ids_eq, taken_append_left⟩ := consumes
      refine ⟨?_, ?_, ?_⟩
      · simpa [Event.isFinished] using current_eq
      · rw [accepted_concat, List.map_append, ids_eq]
        simp only [Event.isFinished, Event.package?, Phase.openCount, finishedCount_concat,
          Bool.false_eq_true, ↓reduceIte, add_zero, iterate_concat, ← current_eq,
          Option.toList_some, List.map_cons, List.map_nil]
      · rw [taken_concat, accepted_concat, Event.package?, Option.toList_some, items_concat]
        simpa [Event.item?, Consumer.left] using taken_append_left
  | taken id item output =>
      rw [Feed.step] at stepped
      split at stepped
      · rename_i first rest taking
        rw [Option.ite_none_right_eq_some, Option.some.injEq] at stepped
        obtain ⟨⟨rfl, rfl⟩, rfl⟩ := stepped
        obtain rfl := taking
        obtain ⟨current_eq, ids_eq, taken_append_left⟩ := consumes
        refine ⟨?_, ?_, ?_⟩
        · simpa [Event.isFinished] using current_eq
        · simpa [Event.package?, Event.isFinished, Phase.openCount] using ids_eq
        · simpa [Event.package?, Event.item?, Consumer.left] using taken_append_left
      · cases stepped
  | finished id =>
      rw [Feed.step, Option.ite_none_right_eq_some, Option.some.injEq] at stepped
      obtain ⟨⟨rfl, rfl⟩, rfl⟩ := stepped
      obtain ⟨current_eq, ids_eq, taken_append_left⟩ := consumes
      refine ⟨?_, ?_, ?_⟩
      · simp [Event.isFinished, Function.iterate_succ_apply', ← current_eq]
      · simpa [Event.package?, Event.isFinished, Phase.openCount] using ids_eq
      · simpa [Event.package?, Event.item?, Consumer.left] using taken_append_left

variable {first : Id} {log : List (Event Id Item Output)} {consumer : Consumer Id Item}

/-- Whatever a consumer has done is described. -/
theorem consumes_of_run (reached : Runs.run (step succ) (start first) log = some consumer) :
    Consumes succ first log consumer :=
  Runs.invariant_of_actions (Consumes succ first) ⟨rfl, rfl, rfl⟩
    (fun consumes stepped => consumes.step stepped) reached

/-- A package that is asked for comes after the ones that were accepted. -/
theorem eq_iterate_of_requested {id : Id} {before after : List (Event Id Item Output)}
    (reached : Runs.run (step succ) (start first) (before ++ .requested id :: after) =
      some consumer) : id = succ^[(accepted before).length] first := by
  obtain ⟨asking, earlier, reached⟩ := Runs.run_append_eq_some_iff.mp reached
  obtain ⟨next, stepped, _⟩ := Runs.run_cons_eq_some_iff.mp reached
  rw [step, Option.ite_none_right_eq_some] at stepped
  obtain ⟨⟨phase, rfl⟩, _⟩ := stepped
  have consumes := consumes_of_run earlier
  have count := congrArg List.length consumes.ids_eq
  rw [List.length_map, List.length_iterate, phase] at count
  rw [consumes.current_eq, count, Phase.openCount, add_zero]

end Feed
