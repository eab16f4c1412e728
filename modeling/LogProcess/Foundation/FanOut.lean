import LogProcess.Foundation.Runs
import LogProcess.Foundation.Sorting

/-! # Asking many and collecting the answers

A call starts one thread for each of its jobs. A thread obtains its result from a state that others
change at the same time, and sends it into a channel that has room for one result of each job. The
call receives as many results as there are jobs, closes the channel and returns. However the steps
interleave, no thread is ever blocked and none sends into the closed channel
(`FanOut.Sound.step_send`), the call goes on until it has returned, after a fixed number of steps
(`FanOut.own_run`, `FanOut.Sound.exists_own_step`), and it has then received one result of each job
(`FanOut.Sound.returned`). What holds of the results when they are obtained and is never undone
holds of the received ones (`FanOut.forall_sent`, `FanOut.forall_jobs`).
-/

namespace FanOut

open Sorting (perm_eraseIdx)

/-- A thread first obtains a result and then sends it. The list `sent` is only kept for the
proofs. -/
structure Config (Job Result State : Type*) where
  pending : List Job
  ready : List (Job × Result)
  channel : List Result
  received : List Result
  closed : Bool
  panicked : Bool
  sent : List (Job × Result)
  state : State

/-- What may happen next. -/
inductive Action (Reply Event : Type*) where
  | answer (index : Nat) (reply : Reply)
  | send (index : Nat)
  | receive
  | close
  | event (event : Event)

/-- The threads have been started. -/
def start {Job Result State : Type*} (jobs : List Job) (state : State) :
    Config Job Result State where
  pending := jobs
  ready := []
  channel := []
  received := []
  closed := false
  panicked := false
  sent := []
  state := state

variable {Job Reply Result State Event : Type*} (jobs : List Job)
  (answer : Job → Reply → State → Option (Result × State))
  (environment : Event → State → Option State)

/-- A step while no thread has panicked. A thread that obtains no result panics, and so does one
that sends into the closed channel. -/
def act (config : Config Job Result State) :
    Action Reply Event → Option (Config Job Result State)
  | .answer index reply => config.pending[index]?.map fun job =>
      match answer job reply config.state with
      | some (result, state) => { config with
          pending := config.pending.eraseIdx index
          ready := config.ready ++ [(job, result)]
          state := state }
      | none => { config with panicked := true }
  | .send index => config.ready[index]?.bind fun entry =>
      if config.closed then some { config with panicked := true }
      else if config.channel.length < jobs.length then
        some { config with
          ready := config.ready.eraseIdx index
          channel := config.channel ++ [entry.2]
          sent := config.sent ++ [entry] }
      else none
  | .receive =>
      if config.received.length < jobs.length then
        match config.channel with
        | [] => none
        | result :: rest => some { config with
            channel := rest, received := config.received ++ [result] }
      else none
  | .close =>
      if config.received.length = jobs.length ∧ config.closed = false then
        some { config with closed := true }
      else none
  | .event event => (environment event config.state).map fun state => { config with state := state }

/-- A panic ends the program. -/
def step (config : Config Job Result State) (action : Action Reply Event) :
    Option (Config Job Result State) :=
  if config.panicked then none else act jobs answer environment config action

/-- A step of the call or of one of its threads. -/
def Action.Own : Action Reply Event → Bool
  | .event _ => false
  | _ => true

/-- How many steps of its own the call still has to take. -/
def remaining (config : Config Job Result State) : Nat :=
  3 * config.pending.length + 2 * config.ready.length + config.channel.length +
    if config.closed then 0 else 1

/-- What holds of the threads and the channel in every run. -/
structure Sound (config : Config Job Result State) : Prop where
  parts : (config.pending ++ (config.ready ++ config.sent).map Prod.fst).Perm jobs
  order : config.sent.map Prod.snd = config.received ++ config.channel
  returned : config.closed = true → config.received.length = jobs.length
  calm : config.panicked = true → ∃ job ∈ config.pending, ∃ reply state,
    answer job reply state = none

variable {jobs answer environment} {config next : Config Job Result State}

theorem sound_start (state : State) :
    Sound jobs answer (start jobs state : Config Job Result State) where
  parts := by
    rw [start, List.append_nil, List.map_nil, List.append_nil]
  order := rfl
  returned := nofun
  calm := nofun

/-- All results are somewhere on their way. -/
theorem Sound.length_eq (sound : Sound jobs answer config) :
    config.pending.length + config.ready.length + config.received.length +
      config.channel.length = jobs.length := by
  have parts := sound.parts.length_eq
  have order := congrArg List.length sound.order
  simp only [List.length_append, List.length_map] at parts order
  omega

theorem step_of_runs (runs : config.panicked = false) (action : Action Reply Event) :
    step jobs answer environment config action = act jobs answer environment config action :=
  if_neg (Bool.eq_false_iff.mp runs)

/-- A thread that is ready finds the channel open and room in it. -/
theorem Sound.opened (sound : Sound jobs answer config) {index : Nat} {entry : Job × Result}
    (present : config.ready[index]? = some entry) :
    config.closed = false ∧ config.channel.length < jobs.length := by
  have parts := sound.length_eq
  have one := List.length_pos_of_mem (List.mem_of_getElem? present)
  refine ⟨?_, by omega⟩
  by_contra closed
  have all := sound.returned (Bool.not_eq_false _ ▸ closed)
  omega

/-- **No thread is blocked.** A thread that is ready sends its result, and does not panic. -/
theorem Sound.step_send (sound : Sound jobs answer config) (runs : config.panicked = false)
    {index : Nat} {entry : Job × Result} (present : config.ready[index]? = some entry) :
    step jobs answer environment config (.send index) = some { config with
      ready := config.ready.eraseIdx index
      channel := config.channel ++ [entry.2]
      sent := config.sent ++ [entry] } := by
  obtain ⟨opened, room⟩ := sound.opened present
  rw [step_of_runs runs, act, present, Option.bind_some, if_neg (Bool.eq_false_iff.mp opened),
    if_pos room]

/-! ### Steps -/

/-- What a step that is possible does. -/
inductive Effect (jobs : List Job) (answer : Job → Reply → State → Option (Result × State))
    (environment : Event → State → Option State) (config : Config Job Result State) :
    Action Reply Event → Config Job Result State → Prop where
  | answered {index reply job result state} (present : config.pending[index]? = some job)
      (obtained : answer job reply config.state = some (result, state)) :
      Effect jobs answer environment config (.answer index reply) { config with
        pending := config.pending.eraseIdx index
        ready := config.ready ++ [(job, result)]
        state := state }
  | panicked {index reply job} (present : config.pending[index]? = some job)
      (failed : answer job reply config.state = none) :
      Effect jobs answer environment config (.answer index reply) { config with panicked := true }
  | sent {index entry} (present : config.ready[index]? = some entry) :
      Effect jobs answer environment config (.send index) { config with
        ready := config.ready.eraseIdx index
        channel := config.channel ++ [entry.2]
        sent := config.sent ++ [entry] }
  | received {result rest} (first : config.channel = result :: rest) :
      Effect jobs answer environment config .receive { config with
        channel := rest, received := config.received ++ [result] }
  | closed (all : config.received.length = jobs.length) (opened : config.closed = false) :
      Effect jobs answer environment config .close { config with closed := true }
  | event {event state} (changed : environment event config.state = some state) :
      Effect jobs answer environment config (.event event) { config with state := state }

theorem Sound.effect (sound : Sound jobs answer config) {action : Action Reply Event}
    (stepped : step jobs answer environment config action = some next) :
    config.panicked = false ∧ Effect jobs answer environment config action next := by
  have runs : config.panicked = false := by
    by_contra panicked
    rw [step, if_pos (Bool.not_eq_false _ ▸ panicked)] at stepped
    cases stepped
  refine ⟨runs, ?_⟩
  have acted := stepped
  rw [step_of_runs runs] at acted
  cases action with
  | answer index reply =>
      obtain ⟨job, present, rfl⟩ := Option.map_eq_some_iff.mp acted
      cases obtained : answer job reply config.state with
      | none => exact .panicked present obtained
      | some both => exact .answered present obtained
  | send index =>
      cases present : config.ready[index]? with
      | none =>
          rw [act, present] at acted
          cases acted
      | some entry =>
          rw [sound.step_send runs present] at stepped
          obtain rfl := Option.some.inj stepped
          exact .sent present
  | receive =>
      rw [act, Option.ite_none_right_eq_some] at acted
      obtain ⟨_, acted⟩ := acted
      cases first : config.channel with
      | nil =>
          rw [first] at acted
          cases acted
      | cons result rest =>
          rw [first] at acted
          obtain rfl := Option.some.inj acted
          exact .received first
  | close =>
      rw [act, Option.ite_none_right_eq_some, Option.some.injEq] at acted
      obtain ⟨⟨all, opened⟩, rfl⟩ := acted
      exact .closed all opened
  | event event =>
      obtain ⟨state, changed, rfl⟩ := Option.map_eq_some_iff.mp acted
      exact .event changed

/-- Every step keeps the threads and the channel sound. -/
theorem Sound.step {action : Action Reply Event} (sound : Sound jobs answer config)
    (stepped : FanOut.step jobs answer environment config action = some next) :
    Sound jobs answer next := by
  obtain ⟨runs, effect⟩ := sound.effect stepped
  have calm : config.panicked = true → False := fun panicked => by
    rw [runs] at panicked
    cases panicked
  cases effect with
  | answered present obtained =>
      refine { sound with parts := ?_, calm := fun panicked => (calm panicked).elim }
      refine .trans ?_ (((perm_eraseIdx present).append_right _).trans sound.parts)
      simp only [List.map_append, List.map_cons, List.append_assoc, List.cons_append,
        List.nil_append]
      rw [← List.append_assoc, ← List.append_assoc]
      exact List.perm_middle
  | panicked present failed =>
      exact { sound with
        calm := fun _ => ⟨_, List.mem_of_getElem? present, _, _, failed⟩ }
  | sent present =>
      refine { sound with
        parts := ?_, order := ?_, calm := fun panicked => (calm panicked).elim }
      · refine .trans (List.Perm.append_left _ (List.Perm.map _ ?_)) sound.parts
        rw [← List.append_assoc]
        exact List.perm_append_singleton _ _ |>.trans
          ((perm_eraseIdx present).append_right _)
      · rw [List.map_append, sound.order, List.append_assoc]
        rfl
  | received first =>
      refine { sound with
        order := ?_, returned := ?_, calm := fun panicked => (calm panicked).elim }
      · rw [sound.order, first, List.append_assoc, List.singleton_append]
      · intro closed
        have all := sound.returned closed
        have parts := sound.length_eq
        rw [first, List.length_cons] at parts
        omega
  | closed all opened =>
      exact { sound with
        returned := fun _ => all, calm := fun panicked => (calm panicked).elim }
  | event changed => exact { sound with calm := fun panicked => (calm panicked).elim }

/-- The threads and the channel are sound in every run. -/
theorem sound_run {state : State} {actions : List (Action Reply Event)}
    (reached : Runs.run (FanOut.step jobs answer environment) (start jobs state) actions =
      some config) : Sound jobs answer config :=
  Runs.invariant (Sound jobs answer) (fun sound stepped => sound.step stepped) (sound_start state)
    reached

/-! ### The call returns -/

/-- Nothing is left to do for a call that has returned. -/
theorem Sound.eq_nil_of_closed (sound : Sound jobs answer config) (closed : config.closed = true) :
    config.pending = [] ∧ config.ready = [] ∧ config.channel = [] := by
  have all := sound.returned closed
  have parts := sound.length_eq
  refine ⟨?_, ?_, ?_⟩ <;> (refine List.eq_nil_of_length_eq_zero ?_; omega)

/-- **One result of each job.** A call that has returned has received them all. -/
theorem Sound.received_eq (sound : Sound jobs answer config) (closed : config.closed = true) :
    config.received = config.sent.map Prod.snd ∧ (config.sent.map Prod.fst).Perm jobs := by
  obtain ⟨pending, ready, channel⟩ := sound.eq_nil_of_closed closed
  refine ⟨?_, ?_⟩
  · rw [sound.order, channel, List.append_nil]
  · have threads := sound.parts
    rwa [pending, ready, List.nil_append, List.nil_append] at threads

variable (environment) in
/-- **No deadlock.** Until the call has returned one of its steps is possible. -/
theorem Sound.exists_own_step [Inhabited Reply] (sound : Sound jobs answer config)
    (runs : config.panicked = false) (opened : config.closed = false) :
    ∃ action : Action Reply Event, action.Own ∧
      (FanOut.step jobs answer environment config action).isSome := by
  have parts := sound.length_eq
  cases pending : config.pending with
  | cons job rest =>
      refine ⟨.answer 0 default, rfl, ?_⟩
      rw [step_of_runs runs, act, pending, List.getElem?_cons_zero, Option.isSome_map]
      rfl
  | nil =>
      cases ready : config.ready with
      | cons entry rest =>
          refine ⟨.send 0, rfl, ?_⟩
          rw [sound.step_send runs (by rw [ready]; rfl)]
          rfl
      | nil =>
          rw [pending, ready, List.length_nil, List.length_nil] at parts
          cases channel : config.channel with
          | cons result rest =>
              rw [channel, List.length_cons] at parts
              refine ⟨.receive, rfl, ?_⟩
              rw [step_of_runs runs, act, if_pos (by omega), channel]
              rfl
          | nil =>
              rw [channel, List.length_nil] at parts
              refine ⟨.close, rfl, ?_⟩
              rw [step_of_runs runs, act, if_pos ⟨by omega, opened⟩]
              rfl

/-- A step of the call or its threads brings it nearer to its end, unless a thread panics. -/
theorem Sound.remaining_step {action : Action Reply Event} (sound : Sound jobs answer config)
    (stepped : FanOut.step jobs answer environment config action = some next) :
    next.panicked = true ∨
      remaining next + (if action.Own then 1 else 0) = remaining config := by
  obtain ⟨_, effect⟩ := sound.effect stepped
  cases effect with
  | answered present obtained =>
      have erased := (perm_eraseIdx present).length_eq
      rw [List.length_cons] at erased
      refine .inr ?_
      simp only [remaining, Action.Own, List.length_append, List.length_singleton, ↓reduceIte]
      omega
  | panicked present failed => exact .inl rfl
  | sent present =>
      have erased := (perm_eraseIdx present).length_eq
      rw [List.length_cons] at erased
      refine .inr ?_
      simp only [remaining, Action.Own, List.length_append, List.length_singleton, ↓reduceIte]
      omega
  | received first =>
      refine .inr ?_
      simp only [remaining, Action.Own, first, List.length_cons, ↓reduceIte]
      omega
  | closed all opened =>
      refine .inr ?_
      simp only [remaining, Action.Own, opened, Bool.false_eq_true, ↓reduceIte]
  | event changed => exact .inr rfl

/-- Without a panic the call takes three steps for each job, and a last one. -/
theorem own_run {state : State} {actions : List (Action Reply Event)}
    (reached : Runs.run (FanOut.step jobs answer environment) (start jobs state) actions =
      some config) :
    config.panicked = true ∨
      actions.countP Action.Own + remaining config = 3 * jobs.length + 1 := by
  refine (Runs.invariant_of_actions (fun actions (config : Config Job Result State) =>
    Sound jobs answer config ∧ (config.panicked = true ∨
      actions.countP Action.Own + remaining config = 3 * jobs.length + 1)) ?_ ?_ reached).2
  · refine ⟨sound_start state, .inr ?_⟩
    simp only [List.countP_nil, remaining, start, List.length_nil, Bool.false_eq_true, ↓reduceIte]
    omega
  · rintro actions config action next ⟨sound, counted⟩ stepped
    refine ⟨sound.step stepped, ?_⟩
    obtain ⟨runs, _⟩ := sound.effect stepped
    refine (sound.remaining_step stepped).imp_right fun nearer => ?_
    have before := counted.resolve_left (by rw [runs]; exact Bool.false_ne_true)
    rw [List.countP_append, List.countP_singleton]
    omega

/-- A call that has returned has taken all its steps. -/
theorem own_of_closed {state : State} {actions : List (Action Reply Event)}
    (reached : Runs.run (FanOut.step jobs answer environment) (start jobs state) actions =
      some config) (closed : config.closed = true) :
    actions.countP Action.Own = 3 * jobs.length + 1 := by
  have sound := sound_run reached
  obtain ⟨pending, ready, channel⟩ := sound.eq_nil_of_closed closed
  have done : remaining config = 0 := by
    rw [remaining, pending, ready, channel, if_pos closed]
    rfl
  rcases own_run reached with panicked | counted
  · obtain ⟨job, waits, _⟩ := sound.calm panicked
    rw [pending] at waits
    cases waits
  · rwa [done] at counted

/-- Where every thread obtains a result, none panics. -/
theorem Sound.panicked_eq_false (sound : Sound jobs answer config)
    (total : ∀ job ∈ jobs, ∀ reply state, (answer job reply state).isSome) :
    config.panicked = false := by
  by_contra panicked
  obtain ⟨job, waits, reply, state, failed⟩ := sound.calm (Bool.not_eq_false _ ▸ panicked)
  have obtained := total job (sound.parts.subset (List.mem_append_left _ waits)) reply state
  rw [failed] at obtained
  cases obtained

variable (environment) in
/-- **The call can return.** Where every thread obtains a result, steps of the call and its threads
bring it to its end. -/
theorem Sound.exists_return [Inhabited Reply]
    (total : ∀ job ∈ jobs, ∀ reply state, (answer job reply state).isSome)
    (sound : Sound jobs answer config) :
    ∃ actions : List (Action Reply Event), ∃ final,
      Runs.run (FanOut.step jobs answer environment) config actions = some final ∧
        final.closed = true := by
  induction left : remaining config using Nat.strong_induction_on generalizing config with
  | _ count ih =>
      cases closed : config.closed with
      | true => exact ⟨[], config, rfl, closed⟩
      | false =>
          obtain ⟨action, own, possible⟩ :=
            sound.exists_own_step environment (sound.panicked_eq_false total) closed
          obtain ⟨next, stepped⟩ := Option.isSome_iff_exists.mp possible
          have kept := sound.step stepped
          have nearer := (sound.remaining_step stepped).resolve_left
            (Bool.eq_false_iff.mp (kept.panicked_eq_false total))
          rw [if_pos own] at nearer
          obtain ⟨actions, final, reached, returned⟩ := ih _ (by omega) kept rfl
          exact ⟨action :: actions, final,
            Runs.run_cons_eq_some_iff.mpr ⟨next, stepped, reached⟩, returned⟩

/-! ### What the results say -/

/-- A thread that sends has its result before and after. -/
theorem mem_of_mem_send {ready sent : List (Job × Result)} {index : Nat}
    {entry other : Job × Result} (present : ready[index]? = some entry)
    (member : other ∈ ready.eraseIdx index ++ (sent ++ [entry])) : other ∈ ready ++ sent := by
  rw [List.mem_append, List.mem_append, List.mem_singleton] at member
  rcases member with later | earlier | rfl
  · exact List.mem_append_left _ (List.mem_of_mem_eraseIdx later)
  · exact List.mem_append_right _ earlier
  · exact List.mem_append_left _ (List.mem_of_getElem? present)

/-- What holds of a result when it is obtained, and is not undone by what others do, holds of all
results. -/
theorem forall_sent (good : State → Prop) (claim : State → Job → Result → Prop)
    (answers : ∀ {job reply state result after}, good state → job ∈ jobs →
      answer job reply state = some (result, after) →
        good after ∧ claim after job result ∧ ∀ other outcome, claim state other outcome →
          claim after other outcome)
    (keeps : ∀ {event state after}, good state → environment event state = some after →
      good after ∧ ∀ job result, claim state job result → claim after job result)
    {state : State} (initially : good state) {actions : List (Action Reply Event)}
    (reached : Runs.run (FanOut.step jobs answer environment) (start jobs state) actions =
      some config) :
    good config.state ∧ ∀ entry ∈ config.ready ++ config.sent,
      claim config.state entry.1 entry.2 := by
  refine (Runs.invariant (fun config : Config Job Result State => Sound jobs answer config ∧
    good config.state ∧ ∀ entry ∈ config.ready ++ config.sent, claim config.state entry.1 entry.2)
    ?_ ⟨sound_start state, initially, List.forall_mem_nil _⟩ reached).2
  rintro config action next ⟨sound, held, claimed⟩ stepped
  refine ⟨sound.step stepped, ?_⟩
  obtain ⟨_, effect⟩ := sound.effect stepped
  cases effect with
  | answered present obtained =>
      have listed := sound.parts.subset
        (List.mem_append_left _ (List.mem_of_getElem? present))
      obtain ⟨kept, now, stays⟩ := answers held listed obtained
      refine ⟨kept, fun entry member => ?_⟩
      rw [List.append_assoc, List.mem_append, List.singleton_append, List.mem_cons] at member
      rcases member with earlier | rfl | earlier
      · exact stays _ _ (claimed entry (List.mem_append_left _ earlier))
      · exact now
      · exact stays _ _ (claimed entry (List.mem_append_right _ earlier))
  | panicked present failed => exact ⟨held, claimed⟩
  | sent present =>
      exact ⟨held, fun entry member => claimed entry (mem_of_mem_send present member)⟩
  | received first => exact ⟨held, claimed⟩
  | closed all opened => exact ⟨held, claimed⟩
  | event changed =>
      obtain ⟨kept, stays⟩ := keeps held changed
      exact ⟨kept, fun entry member => stays _ _ (claimed entry member)⟩

/-- Where each job has its own thread, what holds for a job until its thread has a result, and what
then holds of this result, are only changed by the thread of the job and by others that keep
them. -/
theorem forall_jobs (nodup : jobs.Nodup) (waits : State → Job → Prop)
    (claim : State → Job → Result → Prop)
    (answers : ∀ {job reply state result after}, job ∈ jobs → waits state job →
      answer job reply state = some (result, after) →
        claim after job result ∧ ∀ other, other ≠ job →
          (waits state other → waits after other) ∧
          ∀ outcome, claim state other outcome → claim after other outcome)
    (keeps : ∀ {event state after}, environment event state = some after → ∀ job,
      (waits state job → waits after job) ∧
        ∀ result, claim state job result → claim after job result)
    {state : State} (initially : ∀ job ∈ jobs, waits state job)
    {actions : List (Action Reply Event)}
    (reached : Runs.run (FanOut.step jobs answer environment) (start jobs state) actions =
      some config) :
    (∀ job ∈ config.pending, waits config.state job) ∧
      ∀ entry ∈ config.ready ++ config.sent, claim config.state entry.1 entry.2 := by
  refine (Runs.invariant (fun config : Config Job Result State => Sound jobs answer config ∧
    (∀ job ∈ config.pending, waits config.state job) ∧
    ∀ entry ∈ config.ready ++ config.sent, claim config.state entry.1 entry.2)
    ?_ ⟨sound_start state, initially, List.forall_mem_nil _⟩ reached).2
  rintro config action next ⟨sound, waiting, claimed⟩ stepped
  refine ⟨sound.step stepped, ?_⟩
  obtain ⟨_, effect⟩ := sound.effect stepped
  cases effect with
  | @answered index reply job result after present obtained =>
      have listed := sound.parts.subset
        (List.mem_append_left _ (List.mem_of_getElem? present))
      -- the job stands nowhere else
      have apart := sound.parts.nodup_iff.mpr nodup
      rw [← ((perm_eraseIdx present).append_right _).nodup_iff, List.cons_append,
        List.nodup_cons, List.mem_append, not_or] at apart
      obtain ⟨⟨gone, elsewhere⟩, _⟩ := apart
      obtain ⟨now, others⟩ := answers listed
        (waiting _ (List.mem_of_getElem? present)) obtained
      refine ⟨fun other member => ?_, fun entry member => ?_⟩
      · refine (others other ?_).1 (waiting _ (List.mem_of_mem_eraseIdx member))
        rintro rfl
        exact gone member
      · rw [List.append_assoc, List.mem_append, List.singleton_append, List.mem_cons] at member
        have kept (before : entry ∈ config.ready ++ config.sent) :
            claim after entry.1 entry.2 := by
          refine (others entry.1 ?_).2 _ (claimed entry before)
          rintro rfl
          exact elsewhere (List.mem_map_of_mem before)
        rcases member with earlier | rfl | earlier
        · exact kept (List.mem_append_left _ earlier)
        · exact now
        · exact kept (List.mem_append_right _ earlier)
  | panicked present failed => exact ⟨waiting, claimed⟩
  | sent present =>
      exact ⟨waiting, fun entry member => claimed entry (mem_of_mem_send present member)⟩
  | received first => exact ⟨waiting, claimed⟩
  | closed all opened => exact ⟨waiting, claimed⟩
  | event changed =>
      exact ⟨fun job member => (keeps changed job).1 (waiting job member),
        fun entry member => (keeps changed entry.1).2 _ (claimed entry member)⟩

end FanOut
