import LogProcess.Foundation.Runs

/-! # Atomic objects

Threads call an object and are answered. On an atomic object a call takes effect at one moment
between the two, so that the calls of all threads act on the object one after the other. Calls that
are carried out step by step give the histories of an atomic object when every step is matched by
steps of it (`AtomicObject.linearizable_of_meets`). What a call can add to the object bounds what
calls can take out of it, however they interleave (`AtomicObject.Linearizable.count_le`).
-/

namespace AtomicObject

/-- What can be seen of the calls. -/
inductive Event (Thread Call Answer : Type*) where
  | call (thread : Thread) (call : Call)
  | answer (thread : Thread) (answer : Answer)
  deriving DecidableEq

/-- How far a thread has got. -/
inductive Status (Call Answer : Type*) where
  | idle
  | called (call : Call)
  | answered (answer : Answer)

/-- An object and the threads that call it. -/
structure Config (Thread Call Answer Object : Type*) where
  object : Object
  status : Thread → Status Call Answer

/-- A thread calls, is answered, or its call takes effect. -/
inductive Action (Thread Call Answer : Type*) where
  | visible (event : Event Thread Call Answer)
  | commit (thread : Thread)

variable {Thread Call Answer Object : Type*} [DecidableEq Thread]

/-- No thread has called yet. -/
def start (object : Object) : Config Thread Call Answer Object := ⟨object, fun _ => .idle⟩

/-- A thread takes up another status. -/
def Config.turn (config : Config Thread Call Answer Object) (thread : Thread)
    (status : Status Call Answer) : Config Thread Call Answer Object :=
  { config with status := Function.update config.status thread status }

variable (apply : Call → Object → Answer × Object)

/-- A step of an atomic object. -/
inductive Step : Config Thread Call Answer Object → Action Thread Call Answer →
    Config Thread Call Answer Object → Prop where
  | call {config thread call} (idle : config.status thread = .idle) :
      Step config (.visible (.call thread call)) (config.turn thread (.called call))
  | commit {config thread call} (called : config.status thread = .called call) :
      Step config (.commit thread) ⟨(apply call config.object).2,
        (config.turn thread (.answered (apply call config.object).1)).status⟩
  | answer {config thread answer} (answered : config.status thread = .answered answer) :
      Step config (.visible (.answer thread answer)) (config.turn thread .idle)

/-- The events of some steps. -/
inductive Steps : Config Thread Call Answer Object → List (Event Thread Call Answer) →
    Config Thread Call Answer Object → Prop where
  | refl (config) : Steps config [] config
  | commit {config thread next events final} (stepped : Step apply config (.commit thread) next)
      (rest : Steps next events final) : Steps config events final
  | visible {config event next events final} (stepped : Step apply config (.visible event) next)
      (rest : Steps next events final) : Steps config (event :: events) final

/-- The events are those of calls that take effect at one moment each. -/
def Linearizable (object : Object) (events : List (Event Thread Call Answer)) : Prop :=
  ∃ final, Steps apply (start object) events final

variable {apply}

theorem Steps.trans {first second third : Config Thread Call Answer Object}
    {before after : List (Event Thread Call Answer)} (here : Steps apply first before second)
    (there : Steps apply second after third) : Steps apply first (before ++ after) third := by
  induction here with
  | refl => exact there
  | commit stepped _ ih => exact .commit stepped (ih there)
  | visible stepped _ ih => exact .visible stepped (ih there)

theorem Step.steps_commit {config next : Config Thread Call Answer Object} {thread : Thread}
    (stepped : Step apply config (.commit thread) next) : Steps apply config [] next :=
  .commit stepped (.refl next)

theorem Step.steps_visible {config next : Config Thread Call Answer Object}
    {event : Event Thread Call Answer} (stepped : Step apply config (.visible event) next) :
    Steps apply config [event] next :=
  .visible stepped (.refl next)

/-! ### Simulations -/

/-- **Linearizability by simulation.** When the steps of a machine that meet a condition are matched
by steps of the atomic object with the same events, the events of a run of such steps are those of
an atomic object, and the states at their ends match. -/
theorem linearizable_of_meets {State Act : Type*} {machine : State → Act → Option State}
    {condition : State → Act → Prop} (events : State → List (Event Thread Call Answer))
    (matched : State → Config Thread Call Answer Object → Prop)
    (simulates : ∀ {state act next config}, matched state config → condition state act →
      machine state act = some next → ∃ later final, Steps apply config later final ∧
        events next = events state ++ later ∧ matched next final)
    {initial final : State} {object : Object} {acts : List Act} (silent : events initial = [])
    (initially : matched initial (start object))
    (meets : Runs.Meets machine condition initial acts)
    (reached : Runs.run machine initial acts = some final) :
    Linearizable apply object (events final) ∧ ∃ config, matched final config := by
  obtain ⟨config, steps, kept⟩ := Runs.invariant_of_meets
    (fun state => ∃ config, Steps apply (start object) (events state) config ∧
      matched state config)
    (by
      rintro state act next ⟨config, steps, kept⟩ met stepped
      obtain ⟨later, after, further, more, still⟩ := simulates kept met stepped
      exact ⟨after, more ▸ steps.trans further, still⟩)
    ⟨start object, silent ▸ .refl _, initially⟩ meets reached
  exact ⟨⟨config, steps⟩, config, kept⟩

/-! ### Conservation -/

section Conservation

variable (added : Call → Nat) (taken : Answer → Nat)

/-- What the calls of some events can add. -/
def totalAdded (events : List (Event Thread Call Answer)) : Nat :=
  (events.map fun event => match event with
    | .call _ call => added call
    | .answer _ _ => 0).sum

/-- What their answers show to have been taken out. -/
def totalTaken (events : List (Event Thread Call Answer)) : Nat :=
  (events.map fun event => match event with
    | .call _ _ => 0
    | .answer _ answer => taken answer).sum

omit [DecidableEq Thread] in
theorem totalAdded_append (before after : List (Event Thread Call Answer)) :
    totalAdded added (before ++ after) = totalAdded added before + totalAdded added after := by
  rw [totalAdded, List.map_append, List.sum_append, totalAdded, totalAdded]

omit [DecidableEq Thread] in
theorem totalTaken_append (before after : List (Event Thread Call Answer)) :
    totalTaken taken (before ++ after) = totalTaken taken before + totalTaken taken after := by
  rw [totalTaken, List.map_append, List.sum_append, totalTaken, totalTaken]

/-- What a thread still has to add, or has taken out. -/
def Status.weight : Status Call Answer → Nat
  | .idle => 0
  | .called call => added call
  | .answered answer => taken answer

/-- The weight of all threads changes with that of one. -/
theorem weight_turn (config : Config Thread Call Answer Object) {busy : Finset Thread}
    {thread : Thread} (member : thread ∈ busy) (status : Status Call Answer) :
    (∑ other ∈ busy, ((config.turn thread status).status other).weight added taken) +
        (config.status thread).weight added taken =
      (∑ other ∈ busy, (config.status other).weight added taken) + status.weight added taken := by
  have apart : ∀ other ∈ busy.erase thread, ((config.turn thread status).status other).weight
      added taken = (config.status other).weight added taken := fun other elsewhere =>
    congrArg _ (Function.update_of_ne (Finset.ne_of_mem_erase elsewhere) _ _)
  have here : (config.turn thread status).status thread = status := Function.update_self ..
  rw [← Finset.add_sum_erase _ _ member, Finset.sum_congr rfl apart, here,
    ← Finset.add_sum_erase _ (fun other => (config.status other).weight added taken) member]
  omega

variable {added taken}

theorem mem_of_ne {config : Config Thread Call Answer Object} {busy : Finset Thread}
    {thread : Thread} (idle : ∀ thread ∉ busy, config.status thread = .idle)
    (other : config.status thread ≠ .idle) : thread ∈ busy :=
  Decidable.by_contra fun outside => other (idle thread outside)

theorem idle_turn {config : Config Thread Call Answer Object} {busy : Finset Thread}
    {thread : Thread} (idle : ∀ thread ∉ busy, config.status thread = .idle)
    (member : thread ∈ busy) (status : Status Call Answer) :
    ∀ other ∉ busy, (config.turn thread status).status other = .idle := by
  intro other outside
  have elsewhere : other ≠ thread := by
    rintro rfl
    exact outside member
  exact (Function.update_of_ne elsewhere _ _).trans (idle other outside)

/-- What is taken out was there, is added by a thread on its way, or by a later call. -/
theorem Steps.totalTaken_le {stock : Object → Nat} (balanced : ∀ call object,
      stock (apply call object).2 + taken (apply call object).1 ≤ stock object + added call)
    {config final : Config Thread Call Answer Object} {events : List (Event Thread Call Answer)}
    (steps : Steps apply config events final) (busy : Finset Thread)
    (idle : ∀ thread ∉ busy, config.status thread = .idle) :
    totalTaken taken events ≤ stock config.object +
      (∑ thread ∈ busy, (config.status thread).weight added taken) + totalAdded added events := by
  induction steps generalizing busy with
  | refl config => exact Nat.zero_le _
  | @commit config thread next events final stepped rest ih =>
      cases stepped with
      | @commit _ call called =>
          have member : thread ∈ busy := mem_of_ne idle (by rw [called]; exact nofun)
          have counted := ih busy (idle_turn idle member _)
          have turned := weight_turn added taken config member
            (.answered (apply call config.object).1)
          have balance := balanced call config.object
          rw [called, Status.weight, Status.weight] at turned
          dsimp only at counted
          omega
  | @visible config event next events final stepped rest ih =>
      cases stepped with
      | @call thread call waits =>
          have member := Finset.mem_insert_self thread busy
          have still : ∀ other ∉ insert thread busy, config.status other = .idle := fun other out =>
            idle other fun inside => out (Finset.mem_insert_of_mem inside)
          have counted := ih (insert thread busy) (idle_turn still member _)
          have turned := weight_turn added taken config member (.called call)
          have same : (∑ other ∈ insert thread busy, (config.status other).weight added taken) =
              ∑ other ∈ busy, (config.status other).weight added taken :=
            Finset.sum_insert_of_eq_zero_if_notMem fun outside => by
              rw [idle thread outside, Status.weight]
          rw [waits, Status.weight, Status.weight, same] at turned
          have more : totalAdded added (.call thread call :: events) =
            added call + totalAdded added events := List.sum_cons
          have less : totalTaken taken (.call thread call :: events) =
            0 + totalTaken taken events := List.sum_cons
          rw [Config.turn] at counted turned
          dsimp only at counted turned
          omega
      | @answer thread answer answered =>
          have member : thread ∈ busy := mem_of_ne idle (by rw [answered]; exact nofun)
          have counted := ih busy (idle_turn idle member _)
          have turned := weight_turn added taken config member .idle
          rw [answered, Status.weight, Status.weight] at turned
          have same : totalAdded added (.answer thread answer :: events) =
            0 + totalAdded added events := List.sum_cons
          have more : totalTaken taken (.answer thread answer :: events) =
            taken answer + totalTaken taken events := List.sum_cons
          rw [Config.turn] at counted turned
          dsimp only at counted turned
          omega

variable (added taken) in
/-- **Conservation.** The answers take no more out of an atomic object than was in it and than the
calls add. -/
theorem Linearizable.totalTaken_le (stock : Object → Nat) (balanced : ∀ call object,
      stock (apply call object).2 + taken (apply call object).1 ≤ stock object + added call)
    {object : Object} {events : List (Event Thread Call Answer)}
    (linearizable : Linearizable apply object events) :
    totalTaken taken events ≤ stock object + totalAdded added events := by
  obtain ⟨final, steps⟩ := linearizable
  have bounded := steps.totalTaken_le balanced ∅ fun _ _ => rfl
  rwa [Finset.sum_empty, Nat.add_zero] at bounded

end Conservation

end AtomicObject
