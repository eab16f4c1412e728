import LogProcess.Foundation.Runs

/-! # Calls that are repeated until they succeed

Senders call a server until a call returns a reply. Requests and replies may be lost, and a call
may fail at any time, also when its request is handled later. When a sender has ended, its
request was handled (`RetryRpc.Sound.handled_of_ended`). It was handled at most once, unless a
call failed whose request was handled (`RetryRpc.Sound.handledCount_le_one`). What the requests
that are waited for establish holds of the senders that have ended (`RetryRpc.done_of_ended`),
and what is kept of the handled requests is a fold over them (`RetryRpc.view_run`). A sender whose
request can be handled can end (`RetryRpc.exists_ended_of_handles`).
-/

namespace RetryRpc

inductive Phase where
  | idle
  | waiting (attempt : Nat)
  | ended
  deriving DecidableEq

/-- A call is named by its sender and the number of earlier calls of the sender. The lists
`handled` and `failed` are only kept for the proofs. -/
structure Config (Sender State : Type*) where
  phase : Sender → Phase
  calls : Sender → Nat
  requests : List (Sender × Nat)
  replies : List (Sender × Nat)
  handled : List (Sender × Nat)
  failed : List (Sender × Nat)
  state : State

/-- What may happen next. -/
inductive Action (Sender Internal : Type*) where
  | send (sender : Sender)
  | deliver (sender : Sender) (attempt : Nat)
  | loseRequest (sender : Sender) (attempt : Nat)
  | loseReply (sender : Sender) (attempt : Nat)
  | receive (sender : Sender) (attempt : Nat)
  | fail (sender : Sender) (attempt : Nat)
  | internal (event : Internal)

variable {Sender State Internal : Type*} [DecidableEq Sender]

/-- No sender has made a call. -/
def start (state : State) : Config Sender State where
  phase := fun _ => .idle
  calls := fun _ => 0
  requests := []
  replies := []
  handled := []
  failed := []
  state := state

variable (handle : Sender → State → Option State) (internal : Internal → State → Option State)

/-- A request whose handler fails is not handled. -/
def step (config : Config Sender State) : Action Sender Internal → Option (Config Sender State)
  | .send sender =>
      if config.phase sender = .idle then
        some { config with
          phase := Function.update config.phase sender (.waiting (config.calls sender))
          calls := Function.update config.calls sender (config.calls sender + 1)
          requests := (sender, config.calls sender) :: config.requests }
      else none
  | .deliver sender attempt =>
      if (sender, attempt) ∈ config.requests then
        (handle sender config.state).map fun state => { config with
          requests := config.requests.erase (sender, attempt)
          replies := (sender, attempt) :: config.replies
          handled := config.handled ++ [(sender, attempt)]
          state := state }
      else none
  | .loseRequest sender attempt =>
      some { config with requests := config.requests.erase (sender, attempt) }
  | .loseReply sender attempt =>
      some { config with replies := config.replies.erase (sender, attempt) }
  | .receive sender attempt =>
      if (sender, attempt) ∈ config.replies ∧ config.phase sender = .waiting attempt then
        some { config with phase := Function.update config.phase sender .ended }
      else none
  | .fail sender attempt =>
      if config.phase sender = .waiting attempt then
        some { config with
          phase := Function.update config.phase sender .idle
          failed := (sender, attempt) :: config.failed }
      else none
  | .internal event => (internal event config.state).map fun state => { config with state := state }

/-! ### The calls -/

/-- What holds of the calls in every run. -/
structure Sound (config : Config Sender State) : Prop where
  requests_nodup : config.requests.Nodup
  handled_nodup : config.handled.Nodup
  fresh : ∀ call ∈ config.requests, call ∉ config.handled
  begun : ∀ call ∈ config.requests ++ config.handled, call.2 < config.calls call.1
  replied : ∀ call ∈ config.replies, call ∈ config.handled
  waiting : ∀ sender attempt, config.phase sender = .waiting attempt →
    attempt + 1 = config.calls sender
  ended : ∀ sender, config.phase sender = .ended → ∃ attempt, (sender, attempt) ∈ config.handled
  last : ∀ sender attempt, attempt < config.calls sender →
    (sender, attempt) ∈ config.failed ∨
      attempt + 1 = config.calls sender ∧ config.phase sender ≠ .idle

omit [DecidableEq Sender] in
theorem sound_start (state : State) : Sound (start state : Config Sender State) where
  requests_nodup := List.nodup_nil
  handled_nodup := List.nodup_nil
  fresh := List.forall_mem_nil _
  begun := List.forall_mem_nil _
  replied := List.forall_mem_nil _
  waiting := nofun
  ended := nofun
  last := nofun

/-- A phase that is not the new one of the sender is an old one. -/
theorem eq_of_update {phase : Sender → Phase} {sender other : Sender} {new old : Phase}
    (updated : Function.update phase sender new other = old) (different : new ≠ old) :
    phase other = old := by
  by_cases same : other = sender
  · rw [same, Function.update_self] at updated
    exact absurd updated different
  · rwa [Function.update_of_ne same] at updated

variable {handle internal} {config next : Config Sender State}

theorem Sound.send {sender : Sender} (sound : Sound config)
    (stepped : step handle internal config (.send sender) = some next) : Sound next := by
  rw [step, Option.ite_none_right_eq_some, Option.some.injEq] at stepped
  obtain ⟨idle, rfl⟩ := stepped
  have new (call : Sender × Nat) (old : call ∈ config.requests ++ config.handled) :
      call ≠ (sender, config.calls sender) := by
    rintro rfl
    exact absurd (sound.begun _ old) (lt_irrefl _)
  have grows (other : Sender) : config.calls other ≤
      Function.update config.calls sender (config.calls sender + 1) other := by
    by_cases same : other = sender
    · rw [same, Function.update_self]
      exact Nat.le_succ _
    · rw [Function.update_of_ne same]
  refine { sound with
    requests_nodup := List.nodup_cons.mpr
      ⟨fun old => new _ (List.mem_append_left _ old) rfl, sound.requests_nodup⟩
    fresh := List.forall_mem_cons.mpr
      ⟨fun old => new _ (List.mem_append_right _ old) rfl, sound.fresh⟩
    begun := ?_, waiting := ?_, ended := ?_, last := ?_ }
  · refine List.forall_mem_cons.mpr ⟨?_, fun call old => (sound.begun call old).trans_le (grows _)⟩
    simp only [Function.update_self]
    exact Nat.lt_succ_self _
  · intro other attempt waiting
    by_cases same : other = sender
    · simp only [same, Function.update_self, Phase.waiting.injEq] at waiting ⊢
      rw [waiting]
    · simp only [Function.update_of_ne same] at waiting ⊢
      exact sound.waiting other attempt waiting
  · exact fun other ended => sound.ended other (eq_of_update ended nofun)
  · intro other attempt begun
    by_cases same : other = sender
    · -- the earlier calls of an idle sender have failed
      simp only [same, Function.update_self] at begun ⊢
      by_cases latest : attempt = config.calls sender
      · exact .inr ⟨by rw [latest], nofun⟩
      · exact .inl ((sound.last sender attempt (by omega)).resolve_right fun last => last.2 idle)
    · simp only [Function.update_of_ne same] at begun ⊢
      exact sound.last other attempt begun

theorem Sound.deliver {sender : Sender} {attempt : Nat} (sound : Sound config)
    (stepped : step handle internal config (.deliver sender attempt) = some next) :
    Sound next := by
  rw [step, Option.ite_none_right_eq_some, Option.map_eq_some_iff] at stepped
  obtain ⟨flying, state, _, rfl⟩ := stepped
  refine { sound with
    requests_nodup := sound.requests_nodup.erase _
    handled_nodup := ?_, fresh := ?_, begun := ?_, replied := ?_, ended := ?_ }
  · rw [List.nodup_append]
    refine ⟨sound.handled_nodup, List.nodup_singleton _, fun call handled other same => ?_⟩
    rw [List.mem_singleton.mp same]
    rintro rfl
    exact sound.fresh _ flying handled
  · intro call remaining handled
    rw [sound.requests_nodup.mem_erase_iff] at remaining
    rcases List.mem_append.mp handled with earlier | now
    · exact sound.fresh call remaining.2 earlier
    · exact remaining.1 (List.mem_singleton.mp now)
  · intro call member
    rw [← List.append_assoc, List.mem_append, List.mem_append, List.mem_singleton] at member
    rcases member with (remaining | handled) | rfl
    · exact sound.begun call (List.mem_append_left _ (List.mem_of_mem_erase remaining))
    · exact sound.begun call (List.mem_append_right _ handled)
    · exact sound.begun _ (List.mem_append_left _ flying)
  · refine List.forall_mem_cons.mpr ⟨List.mem_append_right _ (List.mem_singleton_self _), ?_⟩
    exact fun call replied => List.mem_append_left _ (sound.replied call replied)
  · intro other ended
    obtain ⟨earlier, handled⟩ := sound.ended other ended
    exact ⟨earlier, List.mem_append_left _ handled⟩

theorem Sound.receive {sender : Sender} {attempt : Nat} (sound : Sound config)
    (stepped : step handle internal config (.receive sender attempt) = some next) :
    Sound next := by
  rw [step, Option.ite_none_right_eq_some, Option.some.injEq] at stepped
  obtain ⟨⟨replied, waiting⟩, rfl⟩ := stepped
  refine { sound with waiting := ?_, ended := ?_, last := ?_ }
  · exact fun other earlier still => sound.waiting other earlier (eq_of_update still nofun)
  · intro other ended
    by_cases same : other = sender
    · exact ⟨attempt, by rw [same]; exact sound.replied _ replied⟩
    · simp only [Function.update_of_ne same] at ended
      exact sound.ended other ended
  · intro other earlier begun
    by_cases same : other = sender
    · simp only [same, Function.update_self] at begun ⊢
      exact (sound.last sender earlier begun).imp_right fun last => ⟨last.1, nofun⟩
    · simp only [Function.update_of_ne same]
      exact sound.last other earlier begun

theorem Sound.fail {sender : Sender} {attempt : Nat} (sound : Sound config)
    (stepped : step handle internal config (.fail sender attempt) = some next) :
    Sound next := by
  rw [step, Option.ite_none_right_eq_some, Option.some.injEq] at stepped
  obtain ⟨waiting, rfl⟩ := stepped
  have latest := sound.waiting sender attempt waiting
  refine { sound with waiting := ?_, ended := ?_, last := ?_ }
  · exact fun other earlier still => sound.waiting other earlier (eq_of_update still nofun)
  · exact fun other ended => sound.ended other (eq_of_update ended nofun)
  · intro other earlier begun
    by_cases same : other = sender
    · rw [same] at begun ⊢
      rcases sound.last sender earlier begun with failed | last
      · exact .inl (List.mem_cons_of_mem _ failed)
      · obtain rfl : earlier = attempt := by omega
        exact .inl List.mem_cons_self
    · simp only [Function.update_of_ne same]
      exact (sound.last other earlier begun).imp_left (List.mem_cons_of_mem _)

/-- Every step keeps the calls sound. -/
theorem Sound.step {action : Action Sender Internal} (sound : Sound config)
    (stepped : step handle internal config action = some next) : Sound next := by
  cases action with
  | send sender => exact sound.send stepped
  | deliver sender attempt => exact sound.deliver stepped
  | loseRequest sender attempt =>
      obtain rfl := Option.some.inj stepped
      exact { sound with
        requests_nodup := sound.requests_nodup.erase _
        fresh := fun call remaining => sound.fresh call (List.mem_of_mem_erase remaining)
        begun := fun call member => sound.begun call (List.mem_append.mpr
          ((List.mem_append.mp member).imp_left List.mem_of_mem_erase)) }
  | loseReply sender attempt =>
      obtain rfl := Option.some.inj stepped
      exact { sound with
        replied := fun call remaining => sound.replied call (List.mem_of_mem_erase remaining) }
  | receive sender attempt => exact sound.receive stepped
  | fail sender attempt => exact sound.fail stepped
  | internal event =>
      obtain ⟨state, _, rfl⟩ := Option.map_eq_some_iff.mp stepped
      exact { sound with }

/-- The calls are sound in every run. -/
theorem sound_run {state : State} {actions : List (Action Sender Internal)}
    (reached : Runs.run (RetryRpc.step handle internal) (start state) actions = some config) :
    Sound config :=
  Runs.invariant Sound (fun sound stepped => sound.step stepped) (sound_start state) reached

/-! ### How often a request is handled -/

/-- How often requests of the sender were handled. -/
def handledCount (config : Config Sender State) (sender : Sender) : Nat :=
  (config.handled.map Prod.fst).count sender

/-- A sender that has ended was handled. -/
theorem Sound.handled_of_ended (sound : Sound config) {sender : Sender}
    (ended : config.phase sender = .ended) : 1 ≤ handledCount config sender := by
  obtain ⟨attempt, handled⟩ := sound.ended sender ended
  exact List.count_pos_iff.mpr (List.mem_map.mpr ⟨_, handled, rfl⟩)

/-- Without a failed call whose request was handled, requests of the sender are handled once. -/
theorem Sound.handledCount_le_one (sound : Sound config) {sender : Sender}
    (lost : ∀ attempt, (sender, attempt) ∈ config.failed → (sender, attempt) ∉ config.handled) :
    handledCount config sender ≤ 1 := by
  have latest : ∀ call ∈ config.handled.filter (·.1 = sender),
      call = (sender, config.calls sender - 1) := by
    intro call member
    obtain ⟨other, attempt⟩ := call
    rw [List.mem_filter, decide_eq_true_eq] at member
    obtain ⟨handled, rfl⟩ := member
    rcases sound.last other attempt (sound.begun _ (List.mem_append_right _ handled)) with
      failed | last
    · exact absurd handled (lost attempt failed)
    · rw [← last.1, Nat.add_sub_cancel]
  have nodup := sound.handled_nodup.filter (·.1 = sender)
  rw [List.eq_replicate_of_mem latest, List.nodup_replicate] at nodup
  rw [handledCount, List.count_eq_countP, List.countP_map, List.countP_eq_length_filter]
  exact nodup

/-! ### What a waited request establishes -/

section Established

variable (handle) (done : State → Sender → Prop)

/-- A request that is handled while its sender waits for it is done with. -/
def Establishes (config : Config Sender State) : Action Sender Internal → Prop
  | .deliver sender attempt => config.phase sender = .waiting attempt →
      ∀ state ∈ handle sender config.state, done state sender
  | _ => True

/-- What holds when such requests are done with. -/
structure Established (config : Config Sender State) : Prop where
  sound : Sound config
  replied : ∀ sender attempt, (sender, attempt) ∈ config.replies →
    config.phase sender = .waiting attempt → done config.state sender
  ended : ∀ sender, config.phase sender = .ended → done config.state sender

variable {handle done}

theorem Established.send {sender : Sender} (established : Established done config)
    (stepped : step handle internal config (.send sender) = some next) :
    Established done next := by
  have sound := established.sound.send stepped
  rw [step, Option.ite_none_right_eq_some, Option.some.injEq] at stepped
  obtain ⟨_, rfl⟩ := stepped
  refine ⟨sound, fun other attempt replied waiting => ?_,
    fun other ended => established.ended other (eq_of_update ended nofun)⟩
  by_cases same : other = sender
  · -- a new call has no reply yet
    simp only [same, Function.update_self, Phase.waiting.injEq] at waiting
    have begun := established.sound.begun _
      (List.mem_append_right _ (established.sound.replied _ replied))
    simp only [same, ← waiting, lt_self_iff_false] at begun
  · simp only [Function.update_of_ne same] at waiting
    exact established.replied other attempt replied waiting

variable (handles : ∀ {sender other : Sender} {state next : State},
    handle sender state = some next → done state other → done next other)
  (keeps : ∀ {event : Internal} {other : Sender} {state next : State},
    internal event state = some next → done state other → done next other)

include handles in
theorem Established.deliver {sender : Sender} {attempt : Nat}
    (established : Established done config)
    (establishes : Establishes handle done config
      (.deliver sender attempt : Action Sender Internal))
    (stepped : step handle internal config (.deliver sender attempt) = some next) :
    Established done next := by
  have sound := established.sound.deliver stepped
  rw [step, Option.ite_none_right_eq_some, Option.map_eq_some_iff] at stepped
  obtain ⟨_, state, handled, rfl⟩ := stepped
  refine ⟨sound, fun other earlier replied waiting => ?_,
    fun other ended => handles handled (established.ended other ended)⟩
  rcases List.mem_cons.mp replied with now | before
  · obtain ⟨rfl, rfl⟩ := Prod.mk.inj now
    exact establishes waiting state handled
  · exact handles handled (established.replied other earlier before waiting)

include handles keeps

theorem Established.step {action : Action Sender Internal}
    (established : Established done config) (establishes : Establishes handle done config action)
    (stepped : RetryRpc.step handle internal config action = some next) :
    Established done next := by
  have sound := established.sound.step stepped
  cases action with
  | send sender => exact established.send stepped
  | deliver sender attempt => exact established.deliver handles establishes stepped
  | loseRequest sender attempt =>
      obtain rfl := Option.some.inj stepped
      exact { established with sound := sound }
  | loseReply sender attempt =>
      obtain rfl := Option.some.inj stepped
      exact { established with
        sound := sound
        replied := fun other earlier remaining =>
          established.replied other earlier (List.mem_of_mem_erase remaining) }
  | receive sender attempt =>
      rw [RetryRpc.step, Option.ite_none_right_eq_some, Option.some.injEq] at stepped
      obtain ⟨⟨received, waited⟩, rfl⟩ := stepped
      refine ⟨sound, fun other earlier replied waiting =>
        established.replied other earlier replied (eq_of_update waiting nofun),
        fun other ended => ?_⟩
      by_cases same : other = sender
      · exact same ▸ established.replied sender attempt received waited
      · simp only [Function.update_of_ne same] at ended
        exact established.ended other ended
  | fail sender attempt =>
      rw [RetryRpc.step, Option.ite_none_right_eq_some, Option.some.injEq] at stepped
      obtain ⟨_, rfl⟩ := stepped
      exact ⟨sound, fun other earlier replied waiting =>
        established.replied other earlier replied (eq_of_update waiting nofun),
        fun other ended => established.ended other (eq_of_update ended nofun)⟩
  | internal event =>
      obtain ⟨state, changed, rfl⟩ := Option.map_eq_some_iff.mp stepped
      exact ⟨sound, fun other earlier replied waiting =>
        keeps changed (established.replied other earlier replied waiting),
        fun other ended => keeps changed (established.ended other ended)⟩

variable (done) in
/-- A sender that has ended is done with when all requests that were waited for are. -/
theorem done_of_ended {state : State} {actions : List (Action Sender Internal)}
    (meets : Runs.Meets (RetryRpc.step handle internal) (Establishes handle done) (start state)
      actions)
    (reached : Runs.run (RetryRpc.step handle internal) (start state) actions = some config)
    {sender : Sender} (ended : config.phase sender = .ended) : done config.state sender :=
  (Runs.invariant_of_meets (Established done)
    (fun established establishes stepped => established.step handles keeps establishes stepped)
    ⟨sound_start state, nofun, nofun⟩ meets reached).ended sender ended

end Established

/-! ### What the server keeps -/

/-- What an action does to the state of the server: the handling of a request, or an event. -/
def acts : Action Sender Internal → Option (Sender ⊕ Internal)
  | .deliver sender _ => some (.inl sender)
  | .internal event => some (.inr event)
  | _ => none

/-- A step handles one request, or leaves the handled requests as they are and changes the state
by an internal event at most. -/
theorem handled_step {action : Action Sender Internal}
    (stepped : step handle internal config action = some next) :
    (∃ sender attempt, acts action = some (.inl sender) ∧
        handle sender config.state = some next.state ∧
        next.handled = config.handled ++ [(sender, attempt)]) ∨
      next.handled = config.handled ∧ (acts action = none ∧ next.state = config.state ∨
        ∃ event, acts action = some (.inr event) ∧
          internal event config.state = some next.state) := by
  cases action with
  | send sender =>
      rw [RetryRpc.step, Option.ite_none_right_eq_some, Option.some.injEq] at stepped
      exact .inr (stepped.2 ▸ ⟨rfl, .inl ⟨rfl, rfl⟩⟩)
  | deliver sender attempt =>
      rw [RetryRpc.step, Option.ite_none_right_eq_some, Option.map_eq_some_iff] at stepped
      obtain ⟨_, state, handled, rfl⟩ := stepped
      exact .inl ⟨sender, attempt, rfl, handled, rfl⟩
  | loseRequest sender attempt =>
      exact .inr (Option.some.inj stepped ▸ ⟨rfl, .inl ⟨rfl, rfl⟩⟩)
  | loseReply sender attempt =>
      exact .inr (Option.some.inj stepped ▸ ⟨rfl, .inl ⟨rfl, rfl⟩⟩)
  | receive sender attempt =>
      rw [RetryRpc.step, Option.ite_none_right_eq_some, Option.some.injEq] at stepped
      exact .inr (stepped.2 ▸ ⟨rfl, .inl ⟨rfl, rfl⟩⟩)
  | fail sender attempt =>
      rw [RetryRpc.step, Option.ite_none_right_eq_some, Option.some.injEq] at stepped
      exact .inr (stepped.2 ▸ ⟨rfl, .inl ⟨rfl, rfl⟩⟩)
  | internal event =>
      obtain ⟨state, changed, rfl⟩ := Option.map_eq_some_iff.mp stepped
      exact .inr ⟨rfl, .inr ⟨event, rfl, changed⟩⟩

/-- What only handling changes is a fold over the handled requests. -/
theorem view_run {View : Type*} (view : State → View) {effect : View → Sender → View}
    (handles : ∀ {sender state next}, handle sender state = some next →
      view next = effect (view state) sender)
    (keeps : ∀ {event state next}, internal event state = some next → view next = view state)
    {state : State} {actions : List (Action Sender Internal)}
    (reached : Runs.run (RetryRpc.step handle internal) (start state) actions = some config) :
    view config.state = (config.handled.map Prod.fst).foldl effect (view state) := by
  refine Runs.invariant (fun config : Config Sender State =>
    view config.state = (config.handled.map Prod.fst).foldl effect (view state)) ?_ rfl reached
  intro config action next kept stepped
  rcases handled_step stepped with ⟨sender, attempt, _, handled, added⟩ |
    ⟨same, ⟨_, unchanged⟩ | ⟨event, _, changed⟩⟩
  · rw [handles handled, kept, added, List.map_append, List.foldl_append]
    rfl
  · rw [unchanged, same]
    exact kept
  · rw [keeps changed, same]
    exact kept

/-- What holds of the state and of all that was done to it. -/
theorem invariant_of_acts (holds : List (Sender ⊕ Internal) → State → Prop)
    (handles : ∀ {done sender state next}, holds done state → handle sender state = some next →
      holds (done ++ [.inl sender]) next)
    (changes : ∀ {done event state next}, holds done state → internal event state = some next →
      holds (done ++ [.inr event]) next)
    {state : State} (initially : holds [] state) {actions : List (Action Sender Internal)}
    (reached : Runs.run (RetryRpc.step handle internal) (start state) actions = some config) :
    holds (actions.filterMap acts) config.state := by
  refine Runs.invariant_of_actions (fun actions (config : Config Sender State) =>
    holds (actions.filterMap acts) config.state) (by exact initially) ?_ reached
  intro actions config action next held stepped
  rw [List.filterMap_append]
  rcases handled_step stepped with ⟨sender, attempt, acted, handled, _⟩ |
    ⟨_, ⟨idle, unchanged⟩ | ⟨event, acted, changed⟩⟩
  · rw [List.filterMap_cons_some acted]
    exact handles held handled
  · rw [List.filterMap_cons_none idle, List.filterMap_nil, List.append_nil, unchanged]
    exact held
  · rw [List.filterMap_cons_some acted]
    exact changes held changed

/-- The handled requests are those among what was done to the state. -/
theorem handled_eq_acts {state : State} {actions : List (Action Sender Internal)}
    (reached : Runs.run (RetryRpc.step handle internal) (start state) actions = some config) :
    (actions.filterMap acts).filterMap Sum.getLeft? = config.handled.map Prod.fst := by
  refine Runs.invariant_of_actions (fun actions (config : Config Sender State) =>
    (actions.filterMap acts).filterMap Sum.getLeft? = config.handled.map Prod.fst) rfl ?_ reached
  intro actions config action next same stepped
  rw [List.filterMap_append, List.filterMap_append, same]
  rcases handled_step stepped with ⟨sender, attempt, acted, _, added⟩ |
    ⟨kept, ⟨idle, _⟩ | ⟨event, acted, _⟩⟩
  · rw [List.filterMap_cons_some acted, added, List.map_append]
    rfl
  · rw [List.filterMap_cons_none idle, kept]
    exact List.append_nil _
  · rw [List.filterMap_cons_some acted, kept]
    exact List.append_nil _

variable (internal) in
/-- A call that was sent is answered when its request can be handled. -/
theorem exists_run_of_waiting {sender : Sender} {attempt : Nat} {state : State}
    (waits : config.phase sender = .waiting attempt)
    (requested : (sender, attempt) ∈ config.requests)
    (handled : handle sender config.state = some state) :
    ∃ final, Runs.run (RetryRpc.step handle internal) config
        [.deliver sender attempt, .receive sender attempt] = some final ∧
      final.phase sender = .ended := by
  obtain ⟨answered, delivered, replied, same⟩ : ∃ answered,
      RetryRpc.step handle internal config (.deliver sender attempt) = some answered ∧
        (sender, attempt) ∈ answered.replies ∧ answered.phase = config.phase :=
    ⟨_, (if_pos requested).trans (congrArg (Option.map _) handled), List.mem_cons_self, rfl⟩
  obtain ⟨final, received, ended⟩ : ∃ final,
      RetryRpc.step handle internal answered (.receive sender attempt) = some final ∧
        final.phase sender = .ended :=
    ⟨_, if_pos ⟨replied, same ▸ waits⟩, Function.update_self ..⟩
  exact ⟨final, Runs.run_cons_eq_some_iff.mpr
    ⟨answered, delivered, Runs.run_cons_eq_some_iff.mpr ⟨final, received, rfl⟩⟩, ended⟩

variable (internal) in
/-- A sender that does not wait makes a call. -/
theorem exists_run_of_idle {sender : Sender} {state : State}
    (idle : config.phase sender = .idle) (handled : handle sender config.state = some state) :
    ∃ final, Runs.run (RetryRpc.step handle internal) config
        [.send sender, .deliver sender (config.calls sender),
          .receive sender (config.calls sender)] = some final ∧
      final.phase sender = .ended := by
  obtain ⟨sent, called, waits, requested, same⟩ : ∃ sent,
      RetryRpc.step handle internal config (.send sender) = some sent ∧
        sent.phase sender = .waiting (config.calls sender) ∧
        (sender, config.calls sender) ∈ sent.requests ∧ sent.state = config.state :=
    ⟨_, if_pos idle, Function.update_self .., List.mem_cons_self, rfl⟩
  obtain ⟨final, ran, ended⟩ := exists_run_of_waiting internal waits requested (same ▸ handled)
  exact ⟨final, Runs.run_cons_eq_some_iff.mpr ⟨sent, called, ran⟩, ended⟩

/-- Without internal events a sender can be answered when its request can be handled. -/
theorem exists_ended_of_handles {sender : Sender} {state : State}
    (unanswered : config.phase sender ≠ .ended)
    (handled : handle sender config.state = some state) :
    ∃ (later : List (Action Sender Internal)) (final : Config Sender State),
      (∀ action ∈ later, ∀ event, action ≠ .internal event) ∧
      Runs.run (RetryRpc.step handle internal) config later = some final ∧
      final.phase sender = .ended := by
  cases place : config.phase sender with
  | idle =>
      obtain ⟨final, ran, ended⟩ := exists_run_of_idle internal place handled
      exact ⟨_, final, by simp, ran, ended⟩
  | waiting attempt =>
      -- the call fails, and the sender makes another one
      obtain ⟨failed, fails, idle, same⟩ : ∃ failed,
          RetryRpc.step handle internal config (.fail sender attempt) = some failed ∧
            failed.phase sender = .idle ∧ failed.state = config.state :=
        ⟨_, if_pos place, Function.update_self .., rfl⟩
      obtain ⟨final, ran, ended⟩ := exists_run_of_idle internal idle (same ▸ handled)
      exact ⟨_, final, by simp, Runs.run_cons_eq_some_iff.mpr ⟨failed, fails, ran⟩, ended⟩
  | ended => exact absurd place unanswered

/-- A request is made by its sender. -/
theorem begun_step {action : Action Sender Internal}
    (stepped : step handle internal config action = some next) {call : Sender × Nat}
    (member : call ∈ next.requests ++ next.handled) :
    call ∈ config.requests ++ config.handled ∨ action = .send call.1 := by
  rw [List.mem_append] at member ⊢
  cases action with
  | send sender =>
      rw [RetryRpc.step, Option.ite_none_right_eq_some, Option.some.injEq] at stepped
      obtain ⟨_, rfl⟩ := stepped
      rcases member with made | handled
      · rcases List.mem_cons.mp made with rfl | earlier
        · exact .inr rfl
        · exact .inl (.inl earlier)
      · exact .inl (.inr handled)
  | deliver sender attempt =>
      rw [RetryRpc.step, Option.ite_none_right_eq_some, Option.map_eq_some_iff] at stepped
      obtain ⟨flying, state, _, rfl⟩ := stepped
      rcases member with remaining | handled
      · exact .inl (.inl (List.mem_of_mem_erase remaining))
      · rcases List.mem_append.mp handled with earlier | now
        · exact .inl (.inr earlier)
        · obtain rfl := List.mem_singleton.mp now
          exact .inl (.inl flying)
  | loseRequest sender attempt =>
      obtain rfl := Option.some.inj stepped
      exact .inl (member.imp_left List.mem_of_mem_erase)
  | loseReply sender attempt =>
      obtain rfl := Option.some.inj stepped
      exact .inl member
  | receive sender attempt =>
      rw [RetryRpc.step, Option.ite_none_right_eq_some, Option.some.injEq] at stepped
      obtain ⟨_, rfl⟩ := stepped
      exact .inl member
  | fail sender attempt =>
      rw [RetryRpc.step, Option.ite_none_right_eq_some, Option.some.injEq] at stepped
      obtain ⟨_, rfl⟩ := stepped
      exact .inl member
  | internal event =>
      obtain ⟨state, _, rfl⟩ := Option.map_eq_some_iff.mp stepped
      exact .inl member

/-- What holds of every sender whose request can be handled holds of the handled ones. -/
theorem forall_handled (property : Sender → Prop)
    (handles : ∀ {sender state next}, handle sender state = some next → property sender)
    {state : State} {actions : List (Action Sender Internal)}
    (reached : Runs.run (RetryRpc.step handle internal) (start state) actions = some config) :
    ∀ sender ∈ config.handled.map Prod.fst, property sender := by
  refine Runs.invariant (fun config : Config Sender State =>
    ∀ sender ∈ config.handled.map Prod.fst, property sender)
    (fun {config action next} held stepped => ?_) (List.forall_mem_nil _) reached
  rcases handled_step stepped with ⟨sender, attempt, _, handled, added⟩ | ⟨same, _⟩
  · rw [added, List.map_append, List.forall_mem_append]
    exact ⟨held, List.forall_mem_singleton.mpr (handles handled)⟩
  · rwa [same]

end RetryRpc
