import LogProcess.Preprocess.AccessFilter
import LogProcess.Preprocess.AccessImpl
import LogProcess.Preprocess.PvInterference

/-! # Calls of an access server

The handlers of `preprocess/data_access_impl.cc` with their closures, next to the threads that
preprocess records. The one thread of the server runs one handler after another. Every call is
completed but two kinds: `PullSwitchConfig` never sets the status, and `GetLogTransmitStat` has
nothing to reply for an application without counters (`AccessServer.completesExactly_startup`).
-/

namespace LogProcess

namespace AccessImpl

variable {len : Nat}

/-- `PullSwitchConfig` with its closure. -/
def pullSwitchConfigRpc (request : PullSwitchConfigRequest) (access : Access len)
    (reply : RpcReply StatusResponse) : Access len × RpcReply StatusResponse :=
  (pullSwitchConfig request access, reply.run)

/-- `Retransmit` with its closure. -/
def retransmitRpc (request : RetransmitRequest) (access : Access len)
    (reply : RpcReply StatusResponse) : Access len × RpcReply StatusResponse :=
  ((access.push request.type request.package).2,
    (reply.modify fun response => { response with status := some .succeed }).run)

end AccessImpl

/-- What the handlers and the other threads share. -/
structure AccessServer (Worker : Type) (len : Nat) where
  accessfilter : AccessFilter
  fields : FieldWorkers.State Worker
  pvstater : PvStater
  access : Access len

namespace AccessServer

open AccessImpl RpcReply

/-! ### Steps -/

/-- The requests that are handled in one piece. -/
inductive Request where
  | setLogFilterConfig (request : SetLogFilterConfigRequest)
  | getLogFilterConfig
  | getLogTransmitStat (request : GetLogTransmitStatRequest)
  | addLogTransmitStat (request : AddLogTransmitStatRequest)
  | pullSwitchConfig (request : PullSwitchConfigRequest)
  | retransmit (request : RetransmitRequest)

/-- Besides the requests, the steps of the requests for the fields and of the workers that read
them, the counted records, and the calls on the queues. -/
inductive Action (Worker : Type) where
  | request (request : Request)
  | fields (action : FieldWorkers.Action Worker)
  | inc (insertLevel : Fin maxLevel) (application srcid : Str) (issucc : Bool) (strTime : Str)
  | push (type : Bool) (body : Str)
  | pop (type : Bool)

section Model

variable {Worker : Type} [DecidableEq Worker] {len : Nat}

/-- What `main` makes of the configuration. -/
def startup (cfg : FieldCfg) (supportTypes : List Str) (access : Access len) :
    Option (AccessServer Worker len) :=
  (Management.startup cfg supportTypes).map fun management =>
    { accessfilter := management.accessfilter
      fields := FieldWorkers.start management.datafieldruler
      pvstater := management.pvstater
      access := access }

variable (server : AccessServer Worker len)

def handle : Request → AccessServer Worker len × Outcome ResStatus
  | .setLogFilterConfig request =>
      let (accessfilter, reply) := setLogFilterConfig request server.accessfilter ⟨{}, []⟩
      ({ server with accessfilter := accessfilter }, outcome StatusResponse.status reply)
  | .getLogFilterConfig =>
      (server, outcome GetLogFilterConfigResponse.status
        (getLogFilterConfig server.accessfilter ⟨{}, []⟩))
  | .getLogTransmitStat request =>
      (server, (getLogTransmitStat request server.pvstater ⟨{}, []⟩).bind
        (outcome GetLogTransmitStatResponse.status))
  | .addLogTransmitStat request =>
      let (pvstater, reply) := addLogTransmitStat request server.pvstater ⟨{}, []⟩
      ({ server with pvstater := pvstater }, outcome StatusResponse.status reply)
  | .pullSwitchConfig request =>
      let (access, reply) := pullSwitchConfigRpc request server.access ⟨{}, []⟩
      ({ server with access := access }, outcome StatusResponse.status reply)
  | .retransmit request =>
      let (access, reply) := retransmitRpc request server.access ⟨{}, []⟩
      ({ server with access := access }, outcome StatusResponse.status reply)

/-- The calls about the fields that end in a step. -/
def fieldOutcomes (state : FieldWorkers.State Worker) :
    FieldWorkers.Action Worker → List (Outcome ResStatus)
  | .setLogFieldConfig request =>
      [outcome StatusResponse.status (setLogFieldConfig request state.ruler ⟨{}, []⟩).2]
  | .finishGetLogFieldConfig =>
      match state.handler with
      | .idle => []
      | .querying request regexmap =>
          [(replyFields (askedField request) regexmap
            (state.ruler.getIsTrans request.application).1 ⟨{}, []⟩).bind
              (outcome GetLogFieldConfigResponse.status)]
  | _ => []

def step (strTime2Unixtime : Str → Int) :
    Action Worker → Option (AccessServer Worker len × List (Outcome ResStatus))
  | .request request =>
      match server.fields.handler with
      | .idle => some ((server.handle request).1, [(server.handle request).2])
      | .querying .. => none
  | .fields action =>
      (FieldWorkers.step server.fields action).map fun fields =>
        ({ server with fields := fields }, fieldOutcomes server.fields action)
  | .inc insertLevel application srcid issucc strTime =>
      (server.pvstater.inc strTime2Unixtime insertLevel application srcid issucc
        strTime).toOption.map fun pvstater => ({ server with pvstater := pvstater }, [])
  | .push type body => some ({ server with access := (server.access.push type body).2 }, [])
  | .pop type => some ({ server with access := (server.access.pop type).2 }, [])

/-- The call that ends in the step can be completed. -/
def Answerable : Action Worker → Prop
  | .request (.pullSwitchConfig _) => False
  | .request (.getLogTransmitStat request) =>
      (server.pvstater.srcidcfg.find? request.application).isSome
  | _ => True

end Model

/-! ### Replies -/

theorem isSome_status_fieldsResponse (field : Str) (regexmap : OrderedMap Str Str)
    (istransmap : OrderedMap Str Bool) :
    (fieldsResponse field regexmap istransmap).status.isSome := by
  rw [fieldsResponse]
  split
  · rfl
  · split <;> rfl

/-- The counters are listed exactly for an application that is in the table. -/
theorem completed_getLogTransmitStat_iff {support : OrderedMap Str (List Str)}
    {calls : List PvStater.Call} {pvstater : PvStater}
    (counters : PvStater.Sound support calls pvstater) (request : GetLogTransmitStatRequest) :
    Completed ((getLogTransmitStat request pvstater ⟨{}, []⟩).bind
        (outcome GetLogTransmitStatResponse.status)) ↔
      (pvstater.srcidcfg.find? request.application).isSome := by
  cases found : pvstater.srcidcfg.find? request.application with
  | none =>
      have nothing : pvstater.cnt request.application request.startime.toInt
          request.endtime.toInt = .ok none := by rw [PvStater.cnt, found]
      rw [getLogTransmitStat, nothing]
      exact iff_of_false not_completed_none Bool.false_ne_true
  | some srcids =>
      obtain ⟨cnt, counted, _⟩ := counters.exists_cnt_views found request.startime.toInt
        request.endtime.toInt
      rw [getLogTransmitStat, counted]
      exact iff_of_true ((completed_run_iff (sent_foldl_modify ..)).mpr rfl) rfl

/-! ### The invariant -/

section Runs

variable {Worker : Type} [DecidableEq Worker] {len : Nat} {support : OrderedMap Str (List Str)}
  {server next : AccessServer Worker len}

/-- **Invariant.** The tables of the fields and those of the counters are sound. -/
structure Sound (support : OrderedMap Str (List Str)) (server : AccessServer Worker len) :
    Prop where
  fields : FieldWorkers.Sound server.fields
  counters : ∃ calls, PvStater.Sound support calls server.pvstater

omit [DecidableEq Worker] in
theorem sound_startup {cfg : FieldCfg} {supportTypes : List Str} {access : Access len}
    (started : startup cfg supportTypes access = some server) :
    Sound (Management.supportTable cfg.srcidCfg supportTypes) server := by
  obtain ⟨_, begun, rfl⟩ := Option.map_eq_some_iff.mp started
  obtain ⟨ruler, load, rfl⟩ := Option.map_eq_some_iff.mp begun
  exact ⟨FieldWorkers.sound_start load, [], PvStater.new_sound _⟩

omit [DecidableEq Worker] in
/-- A request that is handled in one piece. -/
theorem Sound.handle (sound : Sound support server) (request : Request) :
    Sound support (server.handle request).1 ∧
      (Completed (server.handle request).2 ↔
        server.Answerable (.request request)) := by
  obtain ⟨calls, counters⟩ := sound.counters
  cases request with
  | setLogFilterConfig request =>
      exact ⟨⟨sound.fields, calls, counters⟩, iff_of_true ((completed_run_iff rfl).mpr rfl) trivial⟩
  | getLogFilterConfig =>
      exact ⟨sound, iff_of_true ((completed_run_iff (sent_foldl_modify ..)).mpr rfl) trivial⟩
  | getLogTransmitStat request =>
      exact ⟨sound, completed_getLogTransmitStat_iff counters request⟩
  | addLogTransmitStat request =>
      exact ⟨⟨sound.fields, _, counters.addSupportType ..⟩,
        iff_of_true ((completed_run_iff rfl).mpr rfl) trivial⟩
  | pullSwitchConfig request =>
      -- the response has no status
      exact ⟨⟨sound.fields, calls, counters⟩,
        iff_of_false (mt (completed_run_iff rfl).mp Bool.false_ne_true) id⟩
  | retransmit request =>
      exact ⟨⟨sound.fields, calls, counters⟩, iff_of_true ((completed_run_iff rfl).mpr rfl) trivial⟩

omit [DecidableEq Worker] in
/-- A call about the fields is completed when it ends. -/
theorem completed_fieldOutcomes {state : FieldWorkers.State Worker}
    (sound : FieldWorkers.Sound state) (action : FieldWorkers.Action Worker) :
    ∀ outcome ∈ fieldOutcomes state action, Completed outcome := by
  intro outcome member
  cases action with
  | setLogFieldConfig request =>
      rw [List.mem_singleton.mp member]
      exact (completed_run_iff rfl).mpr rfl
  | finishGetLogFieldConfig =>
      have tables := sound.tables
      cases phase : state.handler with
      | idle =>
          simp only [fieldOutcomes, phase] at member
          cases member
      | querying request regexmap =>
          rw [phase] at tables
          simp only [fieldOutcomes, phase, List.mem_singleton] at member
          obtain ⟨reply, replied, sent⟩ :
              ∃ reply, replyFields (askedField request) regexmap
                (state.ruler.getIsTrans request.application).1 ⟨{}, []⟩ = some reply ∧ _ :=
            replyFields_eq tables.2
          rw [member, replied, Option.bind_some, completed_outcome_iff]
          exact ⟨_, isSome_status_fieldsResponse .., sent⟩
  | _ => cases member

/-- One step. -/
theorem Sound.step (sound : Sound support server) {strTime2Unixtime : Str → Int}
    {action : Action Worker} {ended : List (Outcome ResStatus)}
    (stepped : server.step strTime2Unixtime action = some (next, ended)) :
    Sound support next ∧
      ((∀ outcome ∈ ended, Completed outcome) ↔ server.Answerable action) := by
  cases action with
  | request request =>
      cases phase : server.fields.handler with
      | querying asked regexmap =>
          simp only [AccessServer.step, phase, reduceCtorEq] at stepped
      | idle =>
          simp only [AccessServer.step, phase, Option.some.injEq, Prod.mk.injEq] at stepped
          obtain ⟨rfl, rfl⟩ := stepped
          rw [List.forall_mem_singleton]
          exact sound.handle request
  | fields action =>
      obtain ⟨fields, worked, same⟩ := Option.map_eq_some_iff.mp stepped
      obtain ⟨rfl, rfl⟩ := Prod.mk.inj same
      exact ⟨⟨sound.fields.step worked, sound.counters⟩,
        iff_of_true (completed_fieldOutcomes sound.fields action) trivial⟩
  | inc insertLevel application srcid issucc strTime =>
      obtain ⟨calls, counters⟩ := sound.counters
      obtain ⟨after, counted, soundAfter⟩ :=
        counters.inc strTime2Unixtime insertLevel application srcid issucc strTime
      simp only [AccessServer.step, counted, Except.toOption, Option.map_some, Option.some.injEq,
        Prod.mk.injEq] at stepped
      obtain ⟨rfl, rfl⟩ := stepped
      exact ⟨⟨sound.fields, _, soundAfter⟩,
        iff_of_true (fun _ member => absurd member List.not_mem_nil) trivial⟩
  | push type body =>
      obtain ⟨rfl, rfl⟩ := Prod.mk.inj (Option.some.inj stepped)
      exact ⟨⟨sound.fields, sound.counters⟩,
        iff_of_true (fun _ member => absurd member List.not_mem_nil) trivial⟩
  | pop type =>
      obtain ⟨rfl, rfl⟩ := Prod.mk.inj (Option.some.inj stepped)
      exact ⟨⟨sound.fields, sound.counters⟩,
        iff_of_true (fun _ member => absurd member List.not_mem_nil) trivial⟩

/-- **Calls of an access server** are completed but for those that pull a switch, and those that ask
for the counters of an application without any. -/
theorem completesExactly_startup {cfg : FieldCfg} {supportTypes : List Str} {access : Access len}
    (started : startup cfg supportTypes access = some server) (strTime2Unixtime : Str → Int) :
    CompletesExactly (fun server : AccessServer Worker len => server.step strTime2Unixtime)
      Answerable server :=
  completesExactly (Sound (Management.supportTable cfg.srcidCfg supportTypes))
    (fun sound stepped => sound.step stepped) (sound_startup started)

end Runs

end AccessServer

end LogProcess
