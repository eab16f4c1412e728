import LogProcess.Preprocess.Handover

/-! # Stopping the agents

`Stop` of `preprocess/data_preprocess.cc`. It holds the mutex that the agent of the old topic needs
for each of its rounds, and when it is graceful it waits for the queue of this topic to be drained.
A graceful `Stop` therefore only comes to stop the agents when the queue is empty as it takes the
mutex, and otherwise it waits for ever (`Stopping.stops_iff`). When the agents are stopped, nothing
of the old topic and at most one body of the new topic is still handed over
(`Stopping.handed_after_stop`).
-/

namespace LogProcess.DataPreProcess

/-- Where the call of `Stop` is: it was not made, waits with the mutex for the queue to be drained,
has the mutex and is about to set `stop_`, or has set it. -/
inductive Stopper where
  | idle
  | draining
  | stopping
  | ended
  deriving DecidableEq

/-- The call has the mutex, and `stop_` is not set. -/
def Stopper.holds : Stopper → Bool
  | .draining => true
  | .stopping => true
  | _ => false

/-- The threads, and the call of `Stop`. The agent of the old topic has the mutex while it is about
to pop. -/
structure Stopping (len : Nat) where
  ledger : Ledger len
  stopper : Stopper

namespace Stopping

/-- A step of the threads, or of `Stop`. What `Stop` does behind its assignment is left out, so that
the agents may go on at once. -/
inductive Action where
  | thread (action : DataPreProcess.Action)
  | call (graceful : Bool)
  | checkDrained
  | setStop

variable {len : Nat}

/-- The agent of the old topic needs the mutex for its check, and only `Stop` stops the agents. -/
def admits (stopper : Stopper) : DataPreProcess.Action → Bool
  | .agentCheck _ => !stopper.holds
  | .stop => false
  | _ => true

variable (regexec : RegExec)

def step (threads : Stopping len) : Action → Option (Stopping len)
  | .thread action =>
      if admits threads.stopper action then
        (Ledger.step regexec threads.ledger action).map fun ledger =>
          { threads with ledger := ledger }
      else none
  | .call graceful =>
      if threads.stopper = .idle ∧ threads.ledger.pipeline.agent ≠ .popping then
        some { threads with stopper := if graceful then .draining else .stopping }
      else none
  | .checkDrained =>
      if threads.stopper = .draining ∧
          (threads.ledger.pipeline.access.queue false).entries = [] then
        some { threads with stopper := .stopping }
      else none
  | .setStop =>
      if threads.stopper = .stopping then
        (Ledger.step regexec threads.ledger .stop).map fun ledger => ⟨ledger, .ended⟩
      else none

/-- The threads have just been started. -/
def start (access : Access len) : Stopping len := ⟨Ledger.start access, .idle⟩

variable {regexec} {threads next : Stopping len}

/-! ### The mutex -/

/-- Only one has the mutex, and only `Stop` stops the agents. -/
structure Exclusive (threads : Stopping len) : Prop where
  alone : threads.stopper ≠ .idle → threads.ledger.pipeline.agent ≠ .popping
  runs : threads.ledger.pipeline.stop = true ↔ threads.stopper = .ended

theorem Exclusive.thread {action : DataPreProcess.Action} (exclusive : Exclusive threads)
    (stepped : step regexec threads (.thread action) = some next) : Exclusive next := by
  obtain ⟨alone, runs⟩ := exclusive
  rw [step, Option.ite_none_right_eq_some, Option.map_eq_some_iff] at stepped
  obtain ⟨admitted, ledger, acted, rfl⟩ := stepped
  cases Ledger.effect_step acted with
  | handed type pops =>
      refine ⟨fun called => ?_, runs⟩
      cases type with
      | true => exact alone called
      | false => exact fun again => by cases again
  | checked =>
      refine ⟨fun called pops => ?_, runs⟩
      -- the mutex is free again when `stop_` has been set
      have free : threads.stopper.holds = false := by simpa only [admits, Bool.not_eq_true'] using
        admitted
      have ended : threads.stopper = .ended := by
        cases place : threads.stopper with
        | idle => exact absurd place called
        | draining => rw [place] at free; cases free
        | stopping => rw [place] at free; cases free
        | ended => rfl
      have stopped := runs.mpr ended
      rw [(Ledger.check_eq_popping pops).1] at stopped
      cases stopped
  | stopped => cases admitted
  | _ => exact ⟨alone, runs⟩

/-- Every step keeps the mutex exclusive. -/
theorem Exclusive.step {action : Action} (exclusive : Exclusive threads)
    (stepped : Stopping.step regexec threads action = some next) : Exclusive next := by
  cases action with
  | thread action => exact exclusive.thread stepped
  | call graceful =>
      rw [Stopping.step, Option.ite_none_right_eq_some, Option.some.injEq] at stepped
      obtain ⟨⟨idle, calm⟩, rfl⟩ := stepped
      refine ⟨fun _ => calm, exclusive.runs.trans ?_⟩
      rw [idle]
      cases graceful <;> simp only [reduceCtorEq, ↓reduceIte, Bool.false_eq_true]
  | checkDrained =>
      rw [Stopping.step, Option.ite_none_right_eq_some, Option.some.injEq] at stepped
      obtain ⟨⟨draining, _⟩, rfl⟩ := stepped
      refine ⟨fun _ => exclusive.alone (by rw [draining]; decide), exclusive.runs.trans ?_⟩
      simp only [draining, reduceCtorEq]
  | setStop =>
      rw [Stopping.step, Option.ite_none_right_eq_some] at stepped
      obtain ⟨stopping, stepped⟩ := stepped
      obtain rfl := Option.some.inj stepped
      exact ⟨fun _ => exclusive.alone (by rw [stopping]; decide), iff_of_true rfl rfl⟩

theorem exclusive_run {access : Access len} {actions : List Action}
    (reached : Runs.run (step regexec) (start access) actions = some threads) :
    Exclusive threads :=
  Runs.invariant Exclusive (fun exclusive stepped => exclusive.step stepped)
    ⟨fun called => absurd rfl called, iff_of_false Bool.false_ne_true fun ended => by cases ended⟩
    reached

/-! ### A graceful stop -/

/-- `Stop` waits for the queue to be drained, and it is not. -/
structure Hangs (threads : Stopping len) : Prop where
  exclusive : Exclusive threads
  draining : threads.stopper = .draining
  left : (threads.ledger.pipeline.access.queue false).entries ≠ []

/-- The agent that would drain the queue waits for the mutex. -/
theorem Hangs.step {action : Action} (hangs : Hangs threads)
    (stepped : Stopping.step regexec threads action = some next) :
    Hangs next ∧ Ledger.Waits false threads.ledger next.ledger := by
  obtain ⟨exclusive, draining, left⟩ := hangs
  have kept := exclusive.step stepped
  have calm := exclusive.alone (by rw [draining]; decide)
  cases action with
  | thread action =>
      rw [Stopping.step, Option.ite_none_right_eq_some, Option.map_eq_some_iff] at stepped
      obtain ⟨_, ledger, acted, rfl⟩ := stepped
      have waits : Ledger.Waits false threads.ledger ledger := Ledger.waits_step calm acted
      exact ⟨⟨kept, draining, waits.2.ne_nil left⟩, waits⟩
  | call graceful =>
      rw [Stopping.step, if_neg fun both => by rw [draining] at both; cases both.1] at stepped
      cases stepped
  | checkDrained =>
      rw [Stopping.step, if_neg fun both => left both.2] at stepped
      cases stepped
  | setStop =>
      rw [Stopping.step, if_neg fun stopping => by rw [draining] at stopping; cases stopping]
        at stepped
      cases stepped

/-- What waits as a graceful `Stop` is called waits for ever. -/
theorem hangs_run {later : Stopping len} {actions : List Action} (hangs : Hangs threads)
    (reached : Runs.run (step regexec) threads actions = some later) :
    Hangs later ∧ Ledger.Waits false threads.ledger later.ledger := by
  refine Runs.invariant (fun later => Hangs later ∧ Ledger.Waits false threads.ledger later.ledger)
    ?_ ⟨hangs, rfl, List.prefix_rfl⟩ reached
  rintro later action next ⟨hangs, waits⟩ stepped
  obtain ⟨still, more⟩ := hangs.step stepped
  exact ⟨still, waits.trans more⟩

/-- **Graceful stops.** A graceful `Stop` can come to stop the agents exactly when the queue of the
old topic is empty as it takes the mutex. Otherwise nothing of this queue is ever handed over. -/
theorem stops_iff {access : Access len} {actions : List Action} {waiting : Stopping len}
    (reached : Runs.run (step regexec) (start access) actions = some threads)
    (called : step regexec threads (.call true) = some waiting) :
    ((∃ later final, Runs.run (step regexec) waiting later = some final ∧
        final.ledger.pipeline.stop = true) ↔
      (threads.ledger.pipeline.access.queue false).entries = []) ∧
    ((threads.ledger.pipeline.access.queue false).entries ≠ [] →
      ∀ later final, Runs.run (step regexec) waiting later = some final →
        Ledger.Waits false waiting.ledger final.ledger) := by
  have exclusive := (exclusive_run reached).step called
  rw [step, Option.ite_none_right_eq_some, Option.some.injEq] at called
  obtain ⟨_, rfl⟩ := called
  have hangs (left : (threads.ledger.pipeline.access.queue false).entries ≠ []) :
      Hangs (⟨threads.ledger, .draining⟩ : Stopping len) := ⟨exclusive, rfl, left⟩
  refine ⟨⟨?_, fun drained => ?_⟩, fun left later final ran => (hangs_run (hangs left) ran).2⟩
  · rintro ⟨later, final, ran, stopped⟩
    by_contra left
    obtain ⟨still, _⟩ := hangs_run (hangs left) ran
    have ended := still.exclusive.runs.mp stopped
    rw [still.draining] at ended
    cases ended
  · refine ⟨[.checkDrained, .setStop], _, Runs.run_cons_eq_some_iff.mpr
      ⟨⟨threads.ledger, .stopping⟩, if_pos ⟨rfl, drained⟩, rfl⟩, rfl⟩

/-- With one record in the queue a graceful `Stop` does not stop the agents. -/
theorem stops_iff_of_waiting_record :
    ∃ threads waiting : Stopping 1, Runs.run (step fun _ _ => none)
        (start ⟨.empty, .empty, true, true⟩) [.thread (.push false (bytes "srcid[1]"))] =
          some threads ∧
      step (fun _ _ => none) threads (.call true) = some waiting ∧
      ¬∃ later final, Runs.run (step fun _ _ => none) waiting later = some final ∧
        final.ledger.pipeline.stop = true := by
  obtain ⟨threads, waiting, reached, called, left⟩ :
      ∃ threads waiting : Stopping 1, Runs.run (step fun _ _ => none)
          (start ⟨.empty, .empty, true, true⟩) [.thread (.push false (bytes "srcid[1]"))] =
            some threads ∧
        step (fun _ _ => none) threads (.call true) = some waiting ∧
        (threads.ledger.pipeline.access.queue false).entries = [bytes "srcid[1]"] :=
    ⟨_, _, rfl, rfl, rfl⟩
  refine ⟨threads, waiting, reached, called, fun stops => ?_⟩
  have drained := (stops_iff reached called).1.mp stops
  rw [left] at drained
  cases drained

/-! ### After the stop -/

/-- The agents are stopped, and that of the old topic is not about to pop. What was handed over of
the new topic, with what its agent is about to take, is bounded. -/
structure Stopped (bound : Nat) (threads : Stopping len) : Prop where
  exclusive : Exclusive threads
  ended : threads.stopper = .ended
  bounded : (threads.ledger.handedOf true).length +
    (if threads.ledger.pipeline.agentNew = .popping then 1 else 0) ≤ bound

/-- At most one body is popped. -/
theorem length_popped_le (ledger : Ledger len) (type other : Bool) :
    (((ledger.popped type).filter fun task => task.queue = other).map Task.msg).length ≤ 1 := by
  rw [List.length_map]
  refine (List.length_filter_le _ _).trans ?_
  rw [Ledger.popped, List.length_map]
  exact Option.length_toList_le

theorem Stopped.thread {bound : Nat} {action : DataPreProcess.Action}
    (stopped : Stopped bound threads)
    (stepped : Stopping.step regexec threads (.thread action) = some next) :
    Stopped bound next ∧ Ledger.Waits false threads.ledger next.ledger := by
  obtain ⟨exclusive, ended, bounded⟩ := stopped
  have kept := exclusive.step stepped
  have calm := exclusive.alone (by rw [ended]; decide)
  rw [Stopping.step, Option.ite_none_right_eq_some, Option.map_eq_some_iff] at stepped
  obtain ⟨admitted, ledger, acted, rfl⟩ := stepped
  refine ⟨⟨kept, ended, ?_⟩, Ledger.waits_step calm acted⟩
  cases Ledger.effect_step acted with
  | handed type pops =>
      dsimp only
      rw [Ledger.handedOf, List.filter_append, List.map_append, ← Ledger.handedOf]
      cases type with
      | true =>
          have one := length_popped_le threads.ledger true true
          have taken : threads.ledger.pipeline.agentNew = .popping := pops
          rw [if_pos taken] at bounded
          rw [List.length_append, if_pos rfl, if_neg (by decide)]
          omega
      | false =>
          rw [(Ledger.waits_popped (by decide) threads.ledger).1, List.append_nil]
          exact bounded
  | checkedNew =>
      -- a round that begins behind the stop does not go on
      have checks : check threads.ledger.pipeline false ≠ .popping := by
        intro pops
        have runs := (Ledger.check_eq_popping pops).1
        rw [exclusive.runs.mpr ended] at runs
        cases runs
      dsimp only
      rw [if_neg checks]
      exact (Nat.add_le_add_left (Nat.zero_le _) _).trans bounded
  | stopped => cases admitted
  | _ => exact bounded

theorem Stopped.step {bound : Nat} {action : Action} (stopped : Stopped bound threads)
    (stepped : Stopping.step regexec threads action = some next) :
    Stopped bound next ∧ Ledger.Waits false threads.ledger next.ledger := by
  have ended := stopped.ended
  cases action with
  | thread action => exact stopped.thread stepped
  | call graceful =>
      rw [Stopping.step, if_neg fun both => by rw [ended] at both; cases both.1] at stepped
      cases stepped
  | checkDrained =>
      rw [Stopping.step, if_neg fun both => by rw [ended] at both; cases both.1] at stepped
      cases stepped
  | setStop =>
      rw [Stopping.step, if_neg fun stopping => by rw [ended] at stopping; cases stopping]
        at stepped
      cases stepped

/-- **After the stop.** Once `stop_` is set, nothing of the old topic and at most one body of the
new topic is handed over. -/
theorem handed_after_stop {access : Access len} {actions later : List Action}
    {final : Stopping len}
    (reached : Runs.run (step regexec) (start access) actions = some threads)
    (ended : threads.stopper = .ended)
    (ran : Runs.run (step regexec) threads later = some final) :
    Ledger.Waits false threads.ledger final.ledger ∧
      (final.ledger.handedOf true).length ≤ (threads.ledger.handedOf true).length + 1 := by
  have stopped : Stopped ((threads.ledger.handedOf true).length + 1) threads := by
    refine ⟨exclusive_run reached, ended, Nat.add_le_add_left ?_ _⟩
    split
    · exact le_rfl
    · exact Nat.zero_le _
  obtain ⟨still, waits⟩ := Runs.invariant (fun final =>
    Stopped ((threads.ledger.handedOf true).length + 1) final ∧
      Ledger.Waits false threads.ledger final.ledger) (by
        rintro state action next ⟨stopped, waits⟩ stepped
        obtain ⟨still, more⟩ := stopped.step stepped
        exact ⟨still, waits.trans more⟩) ⟨stopped, rfl, List.prefix_rfl⟩ ran
  exact ⟨waits, (Nat.le_add_right _ _).trans still.bounded⟩

/-- The agent of the new topic takes a record behind the stop when it was about to. -/
theorem handed_after_stop_of_new_record :
    ∃ threads final : Stopping 1, Runs.run (step fun _ _ => none)
        (start ⟨.empty, .empty, true, true⟩)
        [.thread (.push true (bytes "srcid[2]")), .thread (.push false (bytes "srcid[1]")),
          .thread .agentNewCheck, .call false, .setStop] = some threads ∧
      Runs.run (step fun _ _ => none) threads [.thread .agentNewPop, .thread .agentNewCheck] =
        some final ∧
      threads.ledger.handedOf true = [] ∧ final.ledger.handedOf true = [bytes "srcid[2]"] ∧
      Ledger.Waits false threads.ledger final.ledger := by
  obtain ⟨threads, final, reached, ended, ran, none, one⟩ :
      ∃ threads final : Stopping 1, Runs.run (step fun _ _ => none)
          (start ⟨.empty, .empty, true, true⟩)
          [.thread (.push true (bytes "srcid[2]")), .thread (.push false (bytes "srcid[1]")),
            .thread .agentNewCheck, .call false, .setStop] = some threads ∧
        threads.stopper = .ended ∧
        Runs.run (step fun _ _ => none) threads [.thread .agentNewPop, .thread .agentNewCheck] =
          some final ∧
        threads.ledger.handedOf true = [] ∧ final.ledger.handedOf true = [bytes "srcid[2]"] :=
    ⟨_, _, rfl, rfl, rfl, rfl, rfl⟩
  exact ⟨threads, final, reached, ran, none, one, (handed_after_stop reached ended ran).1⟩

end Stopping

end LogProcess.DataPreProcess
