import LogProcess.Foundation.Sorting
import LogProcess.Preprocess.DataPreProcess

/-! # From the queues to the workers

The two agents of `preprocess/data_preprocess.cc` hand the records of the two queues to the workers.
In every run the records of a queue are handed over in the order in which they were accepted, and a
record that was handed over waits as a task, was dropped or was transmitted, and only once
(`Ledger.balanced_run`). Both agents look at the queue of the old topic, so that nothing of the new
topic is handed over while nothing of the old topic is accepted (`Ledger.starved_run`).
-/

namespace LogProcess

namespace Access

variable {len : Nat} (access : Access len)

theorem queue_setQueue (type other : Bool) (queue : BoundedQueue Str len) :
    (access.setQueue type queue).queue other =
      if other = type then queue else access.queue other := by
  cases type <;> cases other <;> rfl

/-- A body is stored behind the others when there is room. -/
theorem entries_push (type other : Bool) (body : Str) :
    ((access.push type body).2.queue other).entries =
      (access.queue other).entries ++
        if other = type ∧ (access.push type body).1 = true then [body] else [] := by
  rw [push, queue_setQueue]
  by_cases same : other = type
  · subst same
    by_cases room : (access.queue other).HasRoom
    · rw [if_pos rfl, BoundedQueue.entries_push room,
        if_pos ⟨rfl, (BoundedQueue.push_fst_iff ..).mpr room⟩]
    · rw [if_pos rfl, BoundedQueue.push_of_full room, if_neg (fun both => nomatch both.2),
        List.append_nil]
  · rw [if_neg same, if_neg fun both => same both.1, List.append_nil]

/-- The first body is taken, if there is one. -/
theorem entries_pop (type other : Bool) :
    (access.queue other).entries =
      (if other = type then (access.pop type).1.toList else []) ++
        ((access.pop type).2.queue other).entries := by
  by_cases same : other = type
  · subst same
    rw [if_pos rfl, pop, queue_setQueue, if_pos rfl]
    exact (BoundedQueue.toList_pop_append _).symm
  · rw [if_neg same, pop, queue_setQueue, if_neg same, List.nil_append]

end Access

namespace DataPreProcess

/-- The threads with what was accepted, handed over and dropped so far, which the code does not
keep. -/
structure Ledger (len : Nat) where
  pipeline : Pipeline len
  accepted : List (Bool × Str)
  handed : List Task
  dropped : List Task

namespace Ledger

section Model

variable {len : Nat} (regexec : RegExec) (ledger : Ledger len)

/-- The body that a push stores. -/
def accept : Action → List (Bool × Str)
  | .push type body => if (ledger.pipeline.access.push type body).1 then [(type, body)] else []
  | _ => []

/-- The task for the body that is popped from a queue, if there is one. -/
def popped (type : Bool) : List Task :=
  (ledger.pipeline.access.pop type).1.toList.map fun msg => ⟨.preProcess, msg, type⟩

/-- The task that an agent adds. -/
def hand : Action → List Task
  | .agentPop => ledger.popped false
  | .agentNewPop => ledger.popped true
  | _ => []

/-- The task that a worker takes and does not transmit. -/
def drop : Action → List Task
  | .work index answers => ledger.pipeline.tasks[index]?.toList.filter fun task =>
      (task.handler.run regexec answers task.msg).sent.isNone
  | _ => []

def step (action : Action) : Option (Ledger len) :=
  (DataPreProcess.step regexec ledger.pipeline action).map fun pipeline => {
    pipeline := pipeline
    accepted := ledger.accepted ++ ledger.accept action
    handed := ledger.handed ++ ledger.hand action
    dropped := ledger.dropped ++ ledger.drop regexec action }

/-- The threads have just been started. -/
def start (access : Access len) : Ledger len := ⟨DataPreProcess.start access, [], [], []⟩

/-- The bodies of a queue among what was accepted. -/
def acceptedOf (type : Bool) : List Str :=
  (ledger.accepted.filter fun entry => entry.1 = type).map Prod.snd

/-- The bodies of a queue among what was handed over. -/
def handedOf (type : Bool) : List Str :=
  (ledger.handed.filter fun task => task.queue = type).map Task.msg

/-- Where the loop of the agent of a queue is. -/
def agentOf (type : Bool) : Agent :=
  if type then ledger.pipeline.agentNew else ledger.pipeline.agent

end Model

variable {len : Nat} {regexec : RegExec} {access : Access len} {ledger next : Ledger len}

/-- Every run of the threads is one with a ledger. -/
theorem exists_run {actions : List Action} {pipeline : Pipeline len}
    (reached : Runs.run (DataPreProcess.step regexec) (DataPreProcess.start access) actions =
      some pipeline) :
    ∃ ledger, Runs.run (step regexec) (start access) actions = some ledger ∧
      ledger.pipeline = pipeline := by
  refine Runs.invariant_of_actions (fun actions pipeline => ∃ ledger,
    Runs.run (step regexec) (start access) actions = some ledger ∧ ledger.pipeline = pipeline)
    ⟨start access, rfl, rfl⟩ ?_ reached
  rintro actions _ action pipeline ⟨ledger, ran, rfl⟩ stepped
  exact ⟨_, Runs.run_append_singleton ran (by rw [step, stepped, Option.map_some]), rfl⟩

/-! ### Steps -/

/-- What a step does. -/
inductive Effect (regexec : RegExec) (ledger : Ledger len) : Action → Ledger len → Prop where
  | pushed {type body} : Effect regexec ledger (.push type body) { ledger with
      pipeline := { ledger.pipeline with access := (ledger.pipeline.access.push type body).2 }
      accepted := ledger.accepted ++
        if (ledger.pipeline.access.push type body).1 then [(type, body)] else [] }
  | handed {action} (type : Bool) (pops : ledger.agentOf type = .popping) :
      Effect regexec ledger action { ledger with
        pipeline := { ledger.pipeline with
          access := (ledger.pipeline.access.pop type).2
          tasks := ledger.pipeline.tasks ++ ledger.popped type
          agent := if type then ledger.pipeline.agent else .checking
          agentNew := if type then .checking else ledger.pipeline.agentNew }
        handed := ledger.handed ++ ledger.popped type }
  | dropped {index answers task} (taken : ledger.pipeline.tasks[index]? = some task)
      (unsent : (task.handler.run regexec answers task.msg).sent = none) :
      Effect regexec ledger (.work index answers) { ledger with
        pipeline := { ledger.pipeline with tasks := ledger.pipeline.tasks.eraseIdx index }
        dropped := ledger.dropped ++ [task] }
  | transmitted {index answers task kv istrans}
      (taken : ledger.pipeline.tasks[index]? = some task)
      (sent : (task.handler.run regexec answers task.msg).sent = some (kv, istrans)) :
      Effect regexec ledger (.work index answers) { ledger with
        pipeline := { ledger.pipeline with
          tasks := ledger.pipeline.tasks.eraseIdx index
          transmitted := ledger.pipeline.transmitted ++ [⟨task, kv, istrans⟩] } }
  | checked {notified} : Effect regexec ledger (.agentCheck notified) { ledger with
      pipeline := { ledger.pipeline with agent := check ledger.pipeline notified } }
  | checkedNew : Effect regexec ledger .agentNewCheck { ledger with
      pipeline := { ledger.pipeline with agentNew := check ledger.pipeline false } }
  | stopped : Effect regexec ledger .stop { ledger with
      pipeline := { ledger.pipeline with stop := true } }

/-- The task of an agent is behind the others. -/
theorem addTask_eq (ledger : Ledger len) (type : Bool) :
    addTask .preProcess type ledger.pipeline = { ledger.pipeline with
      access := (ledger.pipeline.access.pop type).2
      tasks := ledger.pipeline.tasks ++ ledger.popped type } := by
  rw [addTask, popped]
  dsimp only
  cases (ledger.pipeline.access.pop type).1 <;> rfl

/-- Behind its check a round of an agent goes on when it is not stopped, and there is a body unless
the agent was notified. -/
theorem check_eq_popping {pipeline : Pipeline len} {notified : Bool}
    (pops : check pipeline notified = .popping) : pipeline.stop = false ∧
      (notified = false → (pipeline.access.queue false).entries ≠ []) := by
  rw [check] at pops
  split_ifs at pops with waits stops
  have runs := Bool.eq_false_iff.mpr stops
  exact ⟨runs, fun quiet drained => waits ⟨drained, runs, quiet⟩⟩

theorem effect_step {action : Action} (stepped : step regexec ledger action = some next) :
    Effect regexec ledger action next := by
  obtain ⟨pipeline, acted, rfl⟩ := Option.map_eq_some_iff.mp stepped
  cases action with
  | push type body =>
      obtain rfl := Option.some.inj acted
      simp only [accept, hand, drop, List.append_nil]
      exact .pushed
  | agentPop =>
      rw [DataPreProcess.step, Option.ite_none_right_eq_some, Option.some.injEq,
        addTask_eq] at acted
      obtain ⟨pops, rfl⟩ := acted
      simp only [accept, hand, drop, List.append_nil]
      exact .handed false pops
  | agentNewPop =>
      rw [DataPreProcess.step, Option.ite_none_right_eq_some, Option.some.injEq,
        addTask_eq] at acted
      obtain ⟨pops, rfl⟩ := acted
      simp only [accept, hand, drop, List.append_nil]
      exact .handed true pops
  | agentCheck notified =>
      rw [DataPreProcess.step, Option.ite_none_right_eq_some, Option.some.injEq] at acted
      obtain ⟨_, rfl⟩ := acted
      simp only [accept, hand, drop, List.append_nil]
      exact .checked
  | agentNewCheck =>
      rw [DataPreProcess.step, Option.ite_none_right_eq_some, Option.some.injEq] at acted
      obtain ⟨_, rfl⟩ := acted
      simp only [accept, hand, drop, List.append_nil]
      exact .checkedNew
  | work index answers =>
      obtain ⟨task, taken, rfl⟩ := Option.map_eq_some_iff.mp acted
      simp only [accept, hand, drop, List.append_nil, taken, Option.toList_some,
        List.filter_singleton]
      cases sent : (task.handler.run regexec answers task.msg).sent with
      | none =>
          simp only [Option.map_none, Option.toList_none, List.append_nil, Option.isNone_none,
            cond_true]
          exact .dropped taken sent
      | some both =>
          simp only [Option.map_some, Option.toList_some, Option.isNone_some, cond_false,
            List.append_nil]
          exact .transmitted taken sent
  | stop =>
      obtain rfl := Option.some.inj acted
      simp only [accept, hand, drop, List.append_nil]
      exact .stopped

/-! ### Balance -/

variable (access) in
/-- Nothing is lost, doubled or overtaken on the way from the queues. -/
structure Balanced (ledger : Ledger len) : Prop where
  order : ∀ type, (access.queue type).entries ++ ledger.acceptedOf type =
    ledger.handedOf type ++ (ledger.pipeline.access.queue type).entries
  places : (ledger.pipeline.tasks ++ (ledger.dropped ++
    ledger.pipeline.transmitted.map Transmitted.task)).Perm ledger.handed

/-- What is popped from a queue, and what stays in both. -/
theorem entries_popped (ledger : Ledger len) (type other : Bool) :
    ((ledger.popped type).filter fun task => task.queue = other).map Task.msg ++
      ((ledger.pipeline.access.pop type).2.queue other).entries =
        (ledger.pipeline.access.queue other).entries := by
  rw [Access.entries_pop ledger.pipeline.access type other, popped]
  congr 1
  generalize (ledger.pipeline.access.pop type).1 = popped
  cases popped <;> cases type <;> cases other <;> rfl

/-- What a push adds to the queues. -/
theorem entries_accepted (ledger : Ledger len) (type other : Bool) (body : Str) :
    (ledger.pipeline.access.queue other).entries ++
      ((if (ledger.pipeline.access.push type body).1 then [(type, body)] else []).filter
        fun entry => entry.1 = other).map Prod.snd =
          ((ledger.pipeline.access.push type body).2.queue other).entries := by
  rw [Access.entries_push]
  congr 1
  cases (ledger.pipeline.access.push type body).1 <;> cases type <;> cases other <;> rfl

/-- **Step lemma.** Every step keeps the balance. -/
theorem Balanced.step {action : Action} (balanced : Balanced access ledger)
    (stepped : Ledger.step regexec ledger action = some next) : Balanced access next := by
  obtain ⟨order, places⟩ := balanced
  cases effect_step stepped with
  | @pushed type body =>
      refine ⟨fun other => ?_, places⟩
      have before := order other
      rw [acceptedOf, List.filter_append, List.map_append, ← acceptedOf, ← List.append_assoc,
        before, List.append_assoc, entries_accepted]
      rfl
  | handed type =>
      refine ⟨fun other => ?_, ?_⟩
      · rw [handedOf, List.filter_append, List.map_append, ← handedOf, List.append_assoc,
          entries_popped]
        exact order other
      · rw [List.append_assoc]
        refine .trans (List.perm_append_comm.append_left _) ?_
        rw [← List.append_assoc]
        exact places.append_right _
  | dropped taken unsent =>
      refine ⟨order, .trans ?_ places⟩
      refine .trans ?_ ((Sorting.perm_eraseIdx taken).append_right _)
      rw [List.append_assoc, List.singleton_append, ← List.append_assoc, List.cons_append,
        ← List.append_assoc]
      exact List.perm_middle
  | transmitted taken sent =>
      refine ⟨order, .trans ?_ places⟩
      refine .trans ?_ ((Sorting.perm_eraseIdx taken).append_right _)
      rw [List.map_append, ← List.append_assoc, ← List.append_assoc, List.cons_append,
        ← List.append_assoc]
      exact List.perm_append_singleton _ _
  | checked => exact ⟨order, places⟩
  | checkedNew => exact ⟨order, places⟩
  | stopped => exact ⟨order, places⟩

theorem balanced_start (access : Access len) : Balanced access (start access) :=
  ⟨fun _ => List.append_nil _, .refl _⟩

/-- **From the queues to the workers.** The bodies of a queue are handed over in the order in which
they were accepted. What was handed over waits as a task, was dropped or was transmitted, and only
once. -/
theorem balanced_run {actions : List Action}
    (reached : Runs.run (Ledger.step regexec) (start access) actions = some ledger) :
    Balanced access ledger :=
  Runs.invariant (Balanced access) (fun balanced stepped => balanced.step stepped)
    (balanced_start access) reached

/-! ### What was transmitted -/

/-- Every transmitted record was made of the body of its task by `PreProcess`. -/
structure Made (regexec : RegExec) (ledger : Ledger len) : Prop where
  bound : ∀ task ∈ ledger.handed, task.handler = .preProcess
  made : ∀ entry ∈ ledger.pipeline.transmitted, ∃ answers,
    (entry.task.handler.run regexec answers entry.task.msg).sent = some (entry.kv, entry.istrans)

theorem Made.step {action : Action} (made : Made regexec ledger)
    (stepped : Ledger.step regexec ledger action = some next) : Made regexec next := by
  obtain ⟨bound, made⟩ := made
  cases effect_step stepped with
  | pushed => exact ⟨bound, made⟩
  | handed type =>
      refine ⟨List.forall_mem_append.mpr ⟨bound, fun task member => ?_⟩, made⟩
      obtain ⟨msg, _, rfl⟩ := List.mem_map.mp member
      rfl
  | dropped => exact ⟨bound, made⟩
  | transmitted taken sent =>
      exact ⟨bound, List.forall_mem_append.mpr ⟨made, List.forall_mem_singleton.mpr ⟨_, sent⟩⟩⟩
  | checked => exact ⟨bound, made⟩
  | checkedNew => exact ⟨bound, made⟩
  | stopped => exact ⟨bound, made⟩

theorem made_run {actions : List Action}
    (reached : Runs.run (Ledger.step regexec) (start access) actions = some ledger) :
    Made regexec ledger :=
  Runs.invariant (Made regexec) (fun made stepped => made.step stepped)
    ⟨List.forall_mem_nil _, List.forall_mem_nil _⟩ reached

/-- What was transmitted stays at its place. -/
theorem transmitted_prefix_step {action : Action}
    (stepped : Ledger.step regexec ledger action = some next) :
    ledger.pipeline.transmitted <+: next.pipeline.transmitted := by
  cases effect_step stepped with
  | transmitted taken sent => exact List.prefix_append _ _
  | _ => exact List.prefix_rfl

/-! ### The new topic -/

/-- Nothing more of a queue was handed over, and what waits is not taken. -/
def Waits (type : Bool) (ledger later : Ledger len) : Prop :=
  later.handedOf type = ledger.handedOf type ∧
    (ledger.pipeline.access.queue type).entries <+: (later.pipeline.access.queue type).entries

theorem Waits.trans {type : Bool} {middle later : Ledger len} (first : Waits type ledger middle)
    (second : Waits type middle later) : Waits type ledger later :=
  ⟨second.1.trans first.1, first.2.trans second.2⟩

/-- What is popped from another queue. -/
theorem waits_popped {type other : Bool} (different : other ≠ type) (ledger : Ledger len) :
    ((ledger.popped type).filter fun task => task.queue = other).map Task.msg = [] ∧
      ((ledger.pipeline.access.pop type).2.queue other).entries =
        (ledger.pipeline.access.queue other).entries := by
  have parts := Access.entries_pop ledger.pipeline.access type other
  rw [if_neg different, List.nil_append] at parts
  refine ⟨?_, parts.symm⟩
  have kept := entries_popped ledger type other
  rw [← parts] at kept
  exact List.append_left_eq_self.mp kept

/-- A queue waits for its agent. -/
theorem waits_step {action : Action} {type : Bool} (calm : ledger.agentOf type ≠ .popping)
    (stepped : Ledger.step regexec ledger action = some next) : Waits type ledger next := by
  cases effect_step stepped with
  | pushed =>
      refine ⟨rfl, ?_⟩
      dsimp only
      rw [Access.entries_push]
      exact List.prefix_append _ _
  | handed other pops =>
      have different : type ≠ other := by
        rintro rfl
        exact calm pops
      obtain ⟨none, same⟩ := waits_popped different ledger
      refine ⟨?_, ?_⟩
      · rw [handedOf, List.filter_append, List.map_append, none, List.append_nil]
        rfl
      · dsimp only
        rw [same]
  | _ => exact ⟨rfl, List.prefix_rfl⟩

/-- Nothing of the old topic waits, and the agent of the new topic is not about to take a body. -/
structure Starved (ledger : Ledger len) : Prop where
  drained : (ledger.pipeline.access.queue false).entries = []
  checks : ledger.pipeline.agentNew ≠ .popping

/-- Without a push of the old topic the agent of the new one goes on checking. -/
theorem Starved.step {action : Action} (starved : Starved ledger)
    (silent : ∀ body, action ≠ .push false body)
    (stepped : Ledger.step regexec ledger action = some next) : Starved next := by
  obtain ⟨drained, checks⟩ := starved
  cases effect_step stepped with
  | @pushed type body =>
      refine ⟨?_, checks⟩
      dsimp only
      rw [Access.entries_push, drained, List.nil_append, if_neg]
      rintro ⟨rfl, _⟩
      exact silent body rfl
  | handed type pops =>
      cases type with
      | true => exact absurd pops checks
      | false =>
          have kept := entries_popped ledger false false
          rw [drained, List.append_eq_nil_iff] at kept
          exact ⟨kept.2, checks⟩
  | checkedNew => exact ⟨drained, fun pops => (check_eq_popping pops).2 rfl drained⟩
  | _ => exact ⟨drained, checks⟩

/-- **The new topic waits for the old one.** While nothing waits in the queue of the old topic and
nothing is pushed to it, nothing of the new topic is handed over, whatever waits. -/
theorem starved_run {later : Ledger len} {actions : List Action} (starved : Starved ledger)
    (silent : ∀ body, .push false body ∉ actions)
    (reached : Runs.run (Ledger.step regexec) ledger actions = some later) :
    Waits true ledger later := by
  have quiet : Runs.Meets (Ledger.step regexec)
      (fun _ action => ∀ body, action ≠ .push false body) ledger actions :=
    Runs.meets_of_forall fun action member body same => silent body (same ▸ member)
  refine (Runs.invariant_of_meets (fun later => Starved later ∧ Waits true ledger later) ?_
    ⟨starved, rfl, List.prefix_rfl⟩ quiet reached).2
  rintro later action next ⟨starved, waits⟩ silent stepped
  exact ⟨starved.step silent stepped, waits.trans (waits_step starved.checks stepped)⟩

/-- A record of the new topic is not handed over, although its agent looks again and again. -/
theorem starved_run_of_new_record :
    ∃ later, Runs.run (Ledger.step fun _ _ => none)
        (start ⟨(.empty : BoundedQueue Str 1), .empty, true, true⟩)
        [.push true (bytes "srcid[1]"), .agentNewCheck, .agentCheck true, .agentPop,
          .agentNewCheck] = some later ∧
      later.pipeline.tasks = [] ∧
      Waits true (start ⟨(.empty : BoundedQueue Str 1), .empty, true, true⟩) later := by
  obtain ⟨later, reached, none⟩ : ∃ later, Runs.run (Ledger.step fun _ _ => none)
      (start ⟨(.empty : BoundedQueue Str 1), .empty, true, true⟩)
      [.push true (bytes "srcid[1]"), .agentNewCheck, .agentCheck true, .agentPop,
        .agentNewCheck] = some later ∧ later.pipeline.tasks = [] := ⟨_, rfl, rfl⟩
  refine ⟨later, reached, none, starved_run ⟨rfl, nofun⟩ ?_ reached⟩
  simp only [List.mem_cons, Action.push.injEq, reduceCtorEq, List.not_mem_nil, Bool.false_eq_true,
    false_and, or_self, not_false_eq_true, implies_true]

end Ledger

end DataPreProcess

end LogProcess
