import LogProcess.Foundation.Feed
import LogProcess.Foundation.MachineInt
import LogProcess.Preprocess.AccessImpl
import LogProcess.Preprocess.LogFields
import LogProcess.Preprocess.PvStater

/-! # Subscribing

`Subscribe` and `InitMinosPipe` of `preprocess/data_access.cc`, with the requests that switch the
topics on and off. When the broker reports the package that it was asked for, the loop is a
consumer of a feed, so the packages come one after the other, a failed request is repeated, and
the records that pass the filter are dispatched once (`Subscribe.packages_in_order`). The loop only
rests when its topic is switched off. An iteration that is off throughout sends a request all the
same (`Subscribe.quiet_iff`).
-/

namespace LogProcess

inductive SubscribeStatus where
  | succeed
  | noDataLeft
  | recordIdTooSmall
  | noSuchPartitionGroup
  | failed
  deriving DecidableEq

structure PbRecordHeader where
  bodyLength : Int := 0
  deriving DecidableEq

structure PbRecord where
  header : PbRecordHeader := {}
  body : Str := []
  deriving DecidableEq

structure SubscribeRecordRequest where
  dataPackageId : Int

structure SubscribeRecordResponse where
  status : SubscribeStatus := .succeed
  data : List PbRecord := []
  curDataPackageId : Int := 0

inductive InitStatus where
  | succeed
  | failed
  | starting
  deriving DecidableEq

namespace Subscribe

/-! ### The parts of an iteration -/

/-- The package id after `minos_arg_parse`, from the `int` that was looked up. -/
def firstPackageId (packageId : BitVec 32) : Int :=
  if 0 < packageId.toInt then packageId.toInt else 1

/-- The body of a record. A character behind the null byte at the end of the received one is
whatever is found there. -/
def bodyText (outside : Str → Nat → UInt8) (record : PbRecord) : Str :=
  (List.range (int32 record.header.bodyLength).toNat).map fun i =>
    let char := record.body[i]?.getD (if i = record.body.length then 0 else outside record.body i)
    if char = 10 ∨ char = 0 then 32 else char

/-- What the filter, the field rules, the health check and the counters answer for a record. -/
structure Lookups where
  judge : Str → Bool
  getType : Str → Str
  mem : BitVec 32
  insertLevel : Fin maxLevel

/-- The page view of a record. -/
def pvStat (regexec : RegExec) (strTime2Unixtime : Str → Int) (type : Bool) (lookups : Lookups)
    (pvstater : PvStater) (body : Str) : Except MemoryFault PvStater :=
  let srcid := DataAccesser.getSrcid body
  let pvstatType := lookups.getType srcid
  if pvstatType = [] then .ok pvstater
  else
    pvstater.inc strTime2Unixtime lookups.insertLevel pvstatType srcid
      (DataAccesser.getResno type body) (DataAccesser.getTimestamp regexec body)

/-- Where the loop is. -/
inductive Location where
  | checkingSwitch
  | sleeping
  | calling
  | waiting
  | initMinosPipe
  | records (rest : List PbRecord)
  | pushing (record : PbRecord) (rest : List PbRecord)
  | ended
  deriving DecidableEq

/-- What becomes of a record. -/
inductive Outcome where
  | skipped
  | pushed
  | resent
  deriving DecidableEq

/-- Whether the switch of the topic was on at some time in an iteration, and what was done. -/
structure Iteration where
  on : Bool
  requests : Nat := 0
  dispatched : Nat := 0
  deriving DecidableEq

/-- The state of a loop. The last three fields are only kept for the proofs. -/
structure Subscriber (len : Nat) where
  access : Access len
  pvstater : PvStater
  defaultPackageId : Int
  request : SubscribeRecordRequest
  response : SubscribeRecordResponse
  location : Location
  log : List (Feed.Event Int PbRecord Outcome)
  iteration : Iteration
  iterations : List Iteration

/-- What may happen next. The last four actions are those of other threads. -/
inductive Action where
  | checkSwitch
  | wake
  | subscribe
  | reply (res : Bool) (response : SubscribeRecordResponse)
  | initSub (res : Bool) (status : InitStatus)
  | record (lookups : Lookups)
  | push
  | update
  | again
  | pullSwitchConfig (request : PullSwitchConfigRequest)
  | pushOther (type : Bool) (body : Str)
  | pop (type : Bool)
  | addLogTransmitStat (application srcid : Str)

variable {len : Nat} (outside : Str → Nat → UInt8) (regexec : RegExec)
  (strTime2Unixtime : Str → Int) (type : Bool)

def call (subscriber : Subscriber len) : Subscriber len :=
  { subscriber with
    log := subscriber.log ++ [.requested subscriber.request.dataPackageId]
    location := .waiting
    iteration := { subscriber.iteration with requests := subscriber.iteration.requests + 1 } }

/-- The call has returned. -/
def receive (res : Bool) (response : SubscribeRecordResponse) (subscriber : Subscriber len) :
    Subscriber len :=
  if res = false ∨ response.status ≠ .succeed then
    { subscriber with
      response := response
      log := subscriber.log ++ [.failed subscriber.request.dataPackageId]
      location :=
        if response.status ≠ .succeed ∧ response.status ≠ .noDataLeft then .initMinosPipe
        else .ended }
  else
    { subscriber with
      response := response
      log := subscriber.log ++ [.accepted response.curDataPackageId response.data]
      location := .records response.data }

/-- The loop goes on to the next record. -/
def finishRecord (record : PbRecord) (rest : List PbRecord) (outcome : Outcome)
    (subscriber : Subscriber len) : Subscriber len :=
  { subscriber with
    log := subscriber.log ++ [.taken subscriber.response.curDataPackageId record outcome]
    location := .records rest
    iteration := { subscriber.iteration with
      dispatched := subscriber.iteration.dispatched + if outcome = .skipped then 0 else 1 } }

/-- A record, up to the attempts to push it. Behind a memory fault there is no next state. -/
def handleRecord (lookups : Lookups) (record : PbRecord) (rest : List PbRecord)
    (subscriber : Subscriber len) : Option (Subscriber len) :=
  let body := bodyText outside record
  if int32 record.header.bodyLength ≠ 0 ∧ DataAccesser.filter lookups.judge body then
    (pvStat regexec strTime2Unixtime type lookups subscriber.pvstater body).toOption.map
      fun pvstater =>
        if 1000 * 1024 ≤ lookups.mem.toNat then
          finishRecord record rest .resent { subscriber with pvstater := pvstater }
        else { subscriber with pvstater := pvstater, location := .pushing record rest }
  else some (finishRecord record rest .skipped subscriber)

/-- One attempt to push a record. -/
def pushRecord (record : PbRecord) (rest : List PbRecord) (subscriber : Subscriber len) :
    Subscriber len :=
  let (status, access) := subscriber.access.push type (bodyText outside record)
  if status then finishRecord record rest .pushed { subscriber with access := access }
  else { subscriber with access := access }

/-- Behind the last record. -/
def update (subscriber : Subscriber len) : Subscriber len :=
  let packageId := int64 (subscriber.response.curDataPackageId + 1)
  { subscriber with
    defaultPackageId := packageId
    request := { subscriber.request with dataPackageId := packageId }
    response := {}
    log := subscriber.log ++ [.finished subscriber.response.curDataPackageId]
    location := .ended }

/-- The next iteration begins. -/
def again (subscriber : Subscriber len) : Subscriber len :=
  { subscriber with
    location := .checkingSwitch
    iteration := { on := subscriber.access.pullswitch type }
    iterations := subscriber.iterations ++ [subscriber.iteration] }

def pullSwitchConfig (request : PullSwitchConfigRequest) (subscriber : Subscriber len) :
    Subscriber len :=
  let access := AccessImpl.pullSwitchConfig request subscriber.access
  { subscriber with
    access := access
    iteration := { subscriber.iteration with
      on := subscriber.iteration.on || access.pullswitch type } }

/-! ### The loop -/

def step (subscriber : Subscriber len) : Action → Option (Subscriber len)
  | .checkSwitch =>
      if subscriber.location = .checkingSwitch then
        some { subscriber with
          location := if subscriber.access.pullswitch type then .calling else .sleeping }
      else none
  | .wake =>
      if subscriber.location = .sleeping then some { subscriber with location := .calling }
      else none
  | .subscribe =>
      if subscriber.location = .calling then some (call subscriber) else none
  | .reply res response =>
      if subscriber.location = .waiting then some (receive res response subscriber) else none
  | .initSub res status =>
      if subscriber.location = .initMinosPipe then
        some (if res = true ∧ status = .succeed then { subscriber with location := .ended }
          else subscriber)
      else none
  | .record lookups =>
      match subscriber.location with
      | .records (record :: rest) =>
          handleRecord outside regexec strTime2Unixtime type lookups record rest subscriber
      | _ => none
  | .push =>
      match subscriber.location with
      | .pushing record rest => some (pushRecord outside type record rest subscriber)
      | _ => none
  | .update =>
      if subscriber.location = .records [] then some (update subscriber) else none
  | .again => if subscriber.location = .ended then some (again type subscriber) else none
  | .pullSwitchConfig request => some (pullSwitchConfig type request subscriber)
  | .pushOther type body =>
      some { subscriber with access := (subscriber.access.push type body).2 }
  | .pop type => some { subscriber with access := (subscriber.access.pop type).2 }
  | .addLogTransmitStat application srcid =>
      some { subscriber with pvstater := subscriber.pvstater.addSupportType application srcid }

/-- The loop has just been entered. -/
def start (access : Access len) (pvstater : PvStater) (packageId : BitVec 32) : Subscriber len where
  access := access
  pvstater := pvstater
  defaultPackageId := firstPackageId packageId
  request := ⟨firstPackageId packageId⟩
  response := {}
  location := .checkingSwitch
  log := []
  iteration := { on := access.pullswitch type }
  iterations := []

/-! ### What a step does -/

def Location.phase : Location → Feed.Phase PbRecord
  | .checkingSwitch => .asking
  | .sleeping => .asking
  | .calling => .asking
  | .waiting => .waiting
  | .initMinosPipe => .asking
  | .records rest => .taking rest
  | .pushing record rest => .taking (record :: rest)
  | .ended => .asking

/-- The calls of an iteration up to a place in it. -/
def Location.requestCount : Location → Nat
  | .checkingSwitch => 0
  | .sleeping => 0
  | .calling => 0
  | .waiting => 1
  | .initMinosPipe => 1
  | .records _ => 1
  | .pushing _ _ => 1
  | .ended => 1

/-- The record has a body, which the filter lets through. -/
def Passes (outside : Str → Nat → UInt8) (lookups : Lookups) (record : PbRecord) : Prop :=
  int32 record.header.bodyLength ≠ 0 ∧
    DataAccesser.filter lookups.judge (bodyText outside record) = true

/-- What a step does to the request, the log and the iteration. Other threads and most steps of the
loop change none of them. -/
inductive Effect (outside : Str → Nat → UInt8) (type : Bool) (subscriber : Subscriber len) :
    Action → Subscriber len → Prop where
  | silent {action : Action} {next : Subscriber len} (inside : action ≠ .again)
      (log : next.log = subscriber.log) (request : next.request = subscriber.request)
      (response : next.response = subscriber.response)
      (phase : next.location.phase = subscriber.location.phase)
      (count : next.location.requestCount = subscriber.location.requestCount)
      (requests : next.iteration.requests = subscriber.iteration.requests)
      (iterations : next.iterations = subscriber.iterations)
      (pushing : ∀ record rest, next.location = .pushing record rest →
        subscriber.location = .pushing record rest ∨
          ∃ lookups, action = .record lookups ∧
            subscriber.location = .records (record :: rest) ∧ Passes outside lookups record) :
      Effect outside type subscriber action next
  | requested (calling : subscriber.location = .calling) :
      Effect outside type subscriber .subscribe (call subscriber)
  | replied {res : Bool} {response : SubscribeRecordResponse}
      (waiting : subscriber.location = .waiting) :
      Effect outside type subscriber (.reply res response) (receive res response subscriber)
  | handled {lookups : Lookups} {record : PbRecord} {rest : List PbRecord} (outcome : Outcome)
      (pvstater : PvStater) (records : subscriber.location = .records (record :: rest))
      (skipped : outcome = .skipped ↔ ¬Passes outside lookups record) :
      Effect outside type subscriber (.record lookups)
        (finishRecord record rest outcome { subscriber with pvstater := pvstater })
  | pushed {record : PbRecord} {rest : List PbRecord} (access : Access len)
      (pushing : subscriber.location = .pushing record rest) :
      Effect outside type subscriber .push
        (finishRecord record rest .pushed { subscriber with access := access })
  | updated (records : subscriber.location = .records []) :
      Effect outside type subscriber .update (update subscriber)
  | repeated (ended : subscriber.location = .ended) :
      Effect outside type subscriber .again (again type subscriber)

section Effects

variable {outside : Str → Nat → UInt8} {regexec : RegExec} {strTime2Unixtime : Str → Int}
  {type : Bool} {subscriber next : Subscriber len}

/-- Most steps of the loop only change the place in it. -/
theorem effect_of_location {action : Action} {location next : Location}
    (at_location : subscriber.location = location) (inside : action ≠ .again)
    (phase : next.phase = location.phase) (count : next.requestCount = location.requestCount)
    (place : ∀ record rest, next ≠ .pushing record rest) :
    Effect outside type subscriber action { subscriber with location := next } :=
  .silent inside rfl rfl rfl (at_location ▸ phase) (at_location ▸ count) rfl rfl
    fun record rest pushing => absurd pushing (place record rest)

/-- Other threads do not change the place in the loop. -/
theorem effect_of_same {action : Action} (inside : action ≠ .again)
    (log : next.log = subscriber.log) (request : next.request = subscriber.request)
    (response : next.response = subscriber.response)
    (location : next.location = subscriber.location)
    (requests : next.iteration.requests = subscriber.iteration.requests)
    (iterations : next.iterations = subscriber.iterations) :
    Effect outside type subscriber action next :=
  .silent inside log request response (congrArg _ location) (congrArg _ location) requests
    iterations fun _ _ pushing => .inl (location.symm.trans pushing)

theorem effect_handleRecord {lookups : Lookups} {record : PbRecord} {rest : List PbRecord}
    (records : subscriber.location = .records (record :: rest))
    (handled : handleRecord outside regexec strTime2Unixtime type lookups record rest subscriber =
      some next) : Effect outside type subscriber (.record lookups) next := by
  simp only [handleRecord] at handled
  split_ifs at handled with passes full
  · obtain ⟨pvstater, _, rfl⟩ := Option.map_eq_some_iff.mp handled
    exact .handled .resent pvstater records
      (iff_of_false Outcome.noConfusion (not_not_intro passes))
  · obtain ⟨pvstater, _, rfl⟩ := Option.map_eq_some_iff.mp handled
    refine .silent Action.noConfusion rfl rfl rfl ?_ ?_ rfl rfl fun other others pushing => ?_
    · rw [records]
      rfl
    · rw [records]
      rfl
    · obtain ⟨rfl, rfl⟩ := Location.pushing.inj pushing
      exact .inr ⟨lookups, rfl, records, passes⟩
  · obtain rfl := Option.some.inj handled
    exact .handled .skipped subscriber.pvstater records (iff_of_true rfl passes)

theorem effect_pushRecord {record : PbRecord} {rest : List PbRecord}
    (pushing : subscriber.location = .pushing record rest) :
    Effect outside type subscriber .push (pushRecord outside type record rest subscriber) := by
  simp only [pushRecord]
  split_ifs
  · exact .pushed _ pushing
  · exact effect_of_same Action.noConfusion rfl rfl rfl rfl rfl rfl

theorem effect_of_step {action : Action}
    (stepped : step outside regexec strTime2Unixtime type subscriber action = some next) :
    Effect outside type subscriber action next := by
  cases action with
  | checkSwitch =>
      rw [step, Option.ite_none_right_eq_some, Option.some.injEq] at stepped
      obtain ⟨checking, rfl⟩ := stepped
      split
      · exact effect_of_location checking Action.noConfusion rfl rfl fun _ _ => Location.noConfusion
      · exact effect_of_location checking Action.noConfusion rfl rfl fun _ _ => Location.noConfusion
  | wake =>
      rw [step, Option.ite_none_right_eq_some, Option.some.injEq] at stepped
      obtain ⟨sleeping, rfl⟩ := stepped
      exact effect_of_location sleeping Action.noConfusion rfl rfl fun _ _ => Location.noConfusion
  | subscribe =>
      rw [step, Option.ite_none_right_eq_some, Option.some.injEq] at stepped
      obtain ⟨calling, rfl⟩ := stepped
      exact .requested calling
  | reply res response =>
      rw [step, Option.ite_none_right_eq_some, Option.some.injEq] at stepped
      obtain ⟨waiting, rfl⟩ := stepped
      exact .replied waiting
  | initSub res status =>
      rw [step, Option.ite_none_right_eq_some, Option.some.injEq] at stepped
      obtain ⟨initialising, rfl⟩ := stepped
      split
      · exact effect_of_location initialising Action.noConfusion rfl rfl
          fun _ _ => Location.noConfusion
      · exact effect_of_same Action.noConfusion rfl rfl rfl rfl rfl rfl
  | record lookups =>
      rw [step] at stepped
      split at stepped
      · rename_i record rest records
        exact effect_handleRecord records stepped
      · cases stepped
  | push =>
      rw [step] at stepped
      split at stepped
      · rename_i record rest pushing
        obtain rfl := Option.some.inj stepped
        exact effect_pushRecord pushing
      · cases stepped
  | update =>
      rw [step, Option.ite_none_right_eq_some, Option.some.injEq] at stepped
      obtain ⟨records, rfl⟩ := stepped
      exact .updated records
  | again =>
      rw [step, Option.ite_none_right_eq_some, Option.some.injEq] at stepped
      obtain ⟨ended, rfl⟩ := stepped
      exact .repeated ended
  | pullSwitchConfig request =>
      obtain rfl := Option.some.inj stepped
      exact effect_of_same Action.noConfusion rfl rfl rfl rfl rfl rfl
  | pushOther type body =>
      obtain rfl := Option.some.inj stepped
      exact effect_of_same Action.noConfusion rfl rfl rfl rfl rfl rfl
  | pop type =>
      obtain rfl := Option.some.inj stepped
      exact effect_of_same Action.noConfusion rfl rfl rfl rfl rfl rfl
  | addLogTransmitStat application srcid =>
      obtain rfl := Option.some.inj stepped
      exact effect_of_same Action.noConfusion rfl rfl rfl rfl rfl rfl

end Effects

/-! ### The loop as a consumer -/

/-- The next package id. -/
def nextPackage (id : Int) : Int := int64 (id + 1)

/-- The loop as a consumer of the feed. -/
def Subscriber.consumer (subscriber : Subscriber len) : Feed.Consumer Int PbRecord :=
  ⟨subscriber.request.dataPackageId, subscriber.location.phase⟩

/-- The broker reports the package that it was asked for. -/
def Reports (subscriber : Subscriber len) : Action → Prop
  | .reply res response => res = true → response.status = .succeed →
      response.curDataPackageId = subscriber.request.dataPackageId
  | _ => True

/-- The package whose records are handled is the requested one. -/
def Reported (subscriber : Subscriber len) : Prop :=
  ∀ items, subscriber.location.phase = .taking items →
    subscriber.response.curDataPackageId = subscriber.request.dataPackageId

/-- The log says what the consumer does. -/
def Moves (subscriber next : Subscriber len) : Prop :=
  next.log = subscriber.log ∧ next.consumer = subscriber.consumer ∨
    ∃ event, next.log = subscriber.log ++ [event] ∧
      Feed.step nextPackage subscriber.consumer event = some next.consumer

section Moving

variable {outside : Str → Nat → UInt8} {type : Bool} {subscriber next : Subscriber len}

theorem moves_receive (res : Bool) (response : SubscribeRecordResponse)
    (waiting : subscriber.location = .waiting)
    (reports : Reports subscriber (.reply res response)) :
    Reported (receive res response subscriber) ∧
      Moves subscriber (receive res response subscriber) := by
  rw [receive]
  split
  · refine ⟨fun items taking => ?_, .inr ⟨_, rfl, ?_⟩⟩
    · dsimp only at taking
      split at taking <;> cases taking
    · rw [Feed.step, if_pos ⟨congrArg Location.phase waiting, rfl⟩, Subscriber.consumer,
        Subscriber.consumer]
      dsimp only
      split <;> rfl
  · rename_i succeeded
    rw [not_or, Bool.not_eq_false, not_not] at succeeded
    have reported := reports succeeded.1 succeeded.2
    refine ⟨fun _ _ => reported, .inr ⟨_, rfl, ?_⟩⟩
    rw [Feed.step, if_pos ⟨congrArg Location.phase waiting, reported⟩]
    rfl

theorem moves_finishRecord {record : PbRecord} {rest : List PbRecord} (outcome : Outcome)
    (taking : subscriber.location.phase = .taking (record :: rest))
    (reported : Reported subscriber) :
    Reported (finishRecord record rest outcome subscriber) ∧
      Moves subscriber (finishRecord record rest outcome subscriber) := by
  have same := reported _ taking
  refine ⟨fun _ _ => same, .inr ⟨_, rfl, ?_⟩⟩
  rw [Feed.step]
  simp only [Subscriber.consumer, taking, same, and_self, ↓reduceIte]
  rfl

theorem moves_update (records : subscriber.location = .records [])
    (reported : Reported subscriber) :
    Reported (update subscriber) ∧ Moves subscriber (update subscriber) := by
  have taking := congrArg Location.phase records
  have same := reported _ taking
  refine ⟨fun _ taking => (nomatch taking), .inr ⟨_, rfl, ?_⟩⟩
  rw [Feed.step, if_pos ⟨taking, same⟩, Subscriber.consumer, update, same]
  rfl

/-- Every step that meets the assumption is one of a consumer, or is none of its business. -/
theorem moves_of_effect {action : Action} (effect : Effect outside type subscriber action next)
    (reported : Reported subscriber) (reports : Reports subscriber action) :
    Reported next ∧ Moves subscriber next := by
  cases effect with
  | silent _ log request response phase =>
      refine ⟨fun items taking => ?_, .inl ⟨log, ?_⟩⟩
      · rw [request, response]
        exact reported items (phase ▸ taking)
      · rw [Subscriber.consumer, Subscriber.consumer, request, phase]
  | requested calling =>
      refine ⟨fun _ taking => (nomatch taking), .inr ⟨_, rfl, ?_⟩⟩
      exact if_pos ⟨congrArg Location.phase calling, rfl⟩
  | replied waiting => exact moves_receive _ _ waiting reports
  | handled outcome _ records =>
      exact moves_finishRecord outcome (congrArg Location.phase records) reported
  | pushed _ pushing =>
      exact moves_finishRecord .pushed (congrArg Location.phase pushing) reported
  | updated records => exact moves_update records reported
  | repeated ended =>
      refine ⟨fun _ taking => (nomatch taking), .inl ⟨rfl, ?_⟩⟩
      rw [Subscriber.consumer, Subscriber.consumer, ended]
      rfl

end Moving

theorem firstPackageId_bounds (packageId : BitVec 32) :
    0 < firstPackageId packageId ∧ firstPackageId packageId < 2 ^ 31 := by
  have bound := BitVec.two_mul_toInt_lt (x := packageId)
  rw [firstPackageId]
  split <;> omega

section Running

variable {packageId : BitVec 32} {access : Access len} {pvstater : PvStater}
  {actions : List Action} {subscriber : Subscriber len}

/-- The loop is a consumer. -/
theorem consumer_of_run {outside : Str → Nat → UInt8} {regexec : RegExec}
    {strTime2Unixtime : Str → Int} {type : Bool}
    (reports : Runs.Meets (step outside regexec strTime2Unixtime type) Reports
      (start type access pvstater packageId) actions)
    (reached : Runs.run (step outside regexec strTime2Unixtime type)
      (start type access pvstater packageId) actions = some subscriber) :
    Runs.run (Feed.step nextPackage) (Feed.start (firstPackageId packageId)) subscriber.log =
      some subscriber.consumer := by
  have initially : Reported (start type access pvstater packageId) := fun _ taking => nomatch taking
  refine (Runs.invariant_of_meets (fun subscriber : Subscriber len => Reported subscriber ∧
    Runs.run (Feed.step nextPackage) (Feed.start (firstPackageId packageId)) subscriber.log =
      some subscriber.consumer) ?_ ⟨initially, rfl⟩ reports reached).2
  intro subscriber action next both reports stepped
  obtain ⟨reported, moves⟩ := moves_of_effect (effect_of_step stepped) both.1 reports
  refine ⟨reported, ?_⟩
  rcases moves with ⟨log, consumer⟩ | ⟨event, log, stepped⟩
  · rw [log, consumer]
    exact both.2
  · rw [log]
    exact Runs.run_append_singleton both.2 stepped

end Running

theorem iterate_nextPackage (packageId : BitVec 32) (count : Nat) :
    nextPackage^[count] (firstPackageId packageId) = int64 (firstPackageId packageId + count) := by
  obtain ⟨low, high⟩ := firstPackageId_bounds packageId
  rw [← iterate_int64_eq, int64_eq_self (by omega) (by omega)]
  rfl

/-! ### What is dispatched -/

def skips : Feed.Event Int PbRecord Outcome → Bool
  | .taken _ _ .skipped => true
  | _ => false

/-- The records that were pushed or are to be resent, with the ids of their packages. -/
def dispatched (log : List (Feed.Event Int PbRecord Outcome)) : List (Int × PbRecord) :=
  Feed.taken (log.filter fun event => !skips event)

/-- While a record is handled, the filter agrees with a predicate of records. -/
def Agrees (outside : Str → Nat → UInt8) (passes : PbRecord → Bool) (subscriber : Subscriber len) :
    Action → Prop
  | .record lookups => ∀ record rest, subscriber.location = .records (record :: rest) →
      (Passes outside lookups record ↔ passes record = true)
  | _ => True

/-- The records that pass are dispatched, the one that is being pushed included. -/
structure Filtered (passes : PbRecord → Bool) (subscriber : Subscriber len) : Prop where
  dispatched_eq : dispatched subscriber.log =
    (Feed.taken subscriber.log).filter fun handled => passes handled.2
  pushing : ∀ record rest, subscriber.location = .pushing record rest → passes record = true

theorem dispatched_sublist_taken (log : List (Feed.Event Int PbRecord Outcome)) :
    (dispatched log).Sublist (Feed.taken log) :=
  List.filter_sublist.filterMap _

theorem dispatched_concat_of_skips {log : List (Feed.Event Int PbRecord Outcome)}
    {event : Feed.Event Int PbRecord Outcome} (skipped : skips event = true) :
    dispatched (log ++ [event]) = dispatched log := by
  rw [dispatched, List.filter_append, List.filter_singleton, skipped]
  exact congrArg Feed.taken (List.append_nil _)

theorem dispatched_concat_of_not_skips {log : List (Feed.Event Int PbRecord Outcome)}
    {event : Feed.Event Int PbRecord Outcome} (taken : skips event = false) :
    dispatched (log ++ [event]) = dispatched log ++ event.item?.toList := by
  rw [dispatched, List.filter_append, List.filter_singleton, taken]
  exact Feed.taken_concat ..

section Filtering

variable {outside : Str → Nat → UInt8} {type : Bool} {passes : PbRecord → Bool}
  {subscriber next : Subscriber len}

/-- A request or a reply says nothing about records. -/
theorem filtered_of_item? {event : Feed.Event Int PbRecord Outcome}
    (filtered : Filtered passes subscriber) (log : next.log = subscriber.log ++ [event])
    (item : event.item? = none)
    (place : ∀ record rest, next.location ≠ .pushing record rest) : Filtered passes next := by
  refine ⟨?_, fun record rest pushing => absurd pushing (place record rest)⟩
  have taken : skips event = false := by
    cases event <;> first | rfl | cases item
  rw [log, dispatched_concat_of_not_skips taken, Feed.taken_concat, item, Option.toList_none,
    List.append_nil, List.append_nil, filtered.dispatched_eq]

/-- A record is dispatched exactly when it passes. -/
theorem filtered_finishRecord {record : PbRecord} {rest : List PbRecord} {outcome : Outcome}
    (filtered : Filtered passes subscriber)
    (skipped : outcome = .skipped ↔ passes record = false) :
    Filtered passes (finishRecord record rest outcome subscriber) := by
  refine ⟨?_, fun other others pushing => nomatch pushing⟩
  rw [finishRecord, Feed.taken_concat, List.filter_append, ← filtered.dispatched_eq]
  by_cases passed : passes record = true
  · have kept : skips (.taken subscriber.response.curDataPackageId record outcome) = false := by
      cases outcome with
      | skipped => exact absurd passed (Bool.eq_false_iff.mp (skipped.mp rfl))
      | pushed => rfl
      | resent => rfl
    rw [dispatched_concat_of_not_skips kept]
    simp only [Feed.Event.item?, Option.toList_some, List.filter_singleton, passed, cond_true]
  · obtain rfl := skipped.mpr (Bool.eq_false_iff.mpr passed)
    rw [dispatched_concat_of_skips rfl]
    simp [Feed.Event.item?, passed]

theorem filtered_of_effect {action : Action} (effect : Effect outside type subscriber action next)
    (filtered : Filtered passes subscriber) (agrees : Agrees outside passes subscriber action) :
    Filtered passes next := by
  cases effect with
  | silent _ log _ _ _ _ _ _ pushing =>
      refine ⟨log ▸ filtered.dispatched_eq, fun record rest place => ?_⟩
      rcases pushing record rest place with place | ⟨lookups, rfl, records, passed⟩
      · exact filtered.pushing record rest place
      · exact (agrees record rest records).mp passed
  | requested calling =>
      exact filtered_of_item? filtered rfl rfl fun _ _ => Location.noConfusion
  | replied waiting =>
      rw [receive]
      split
      · refine filtered_of_item? filtered rfl rfl fun _ _ => ?_
        dsimp only
        split <;> exact Location.noConfusion
      · exact filtered_of_item? filtered rfl rfl fun _ _ => Location.noConfusion
  | handled outcome pvstater records skipped =>
      refine filtered_finishRecord ⟨filtered.dispatched_eq, filtered.pushing⟩ (skipped.trans ?_)
      rw [agrees _ _ records, Bool.not_eq_true]
  | pushed access pushing =>
      refine filtered_finishRecord ⟨filtered.dispatched_eq, filtered.pushing⟩
        (iff_of_false Outcome.noConfusion ?_)
      rw [filtered.pushing _ _ pushing]
      exact Bool.noConfusion
  | updated records => exact filtered_of_item? filtered rfl rfl fun _ _ => Location.noConfusion
  | repeated ended => exact ⟨filtered.dispatched_eq, fun _ _ pushing => nomatch pushing⟩

end Filtering

/-! ### Packages in order -/

/-- The packages come one after the other, and so do their records. -/
structure Progress (first : Int) (subscriber : Subscriber len) : Prop where
  ids_eq : (Feed.accepted subscriber.log).map Prod.fst =
    (List.range (Feed.accepted subscriber.log).length).map fun index : Nat => int64 (first + index)
  ids_eq_of_le : first + (Feed.accepted subscriber.log).length ≤ 2 ^ 63 →
    (Feed.accepted subscriber.log).map Prod.fst =
      (List.range (Feed.accepted subscriber.log).length).map fun index : Nat => first + index
  handled_append_left :
    Feed.taken subscriber.log ++ subscriber.consumer.left =
      Feed.items (Feed.accepted subscriber.log)
  dispatched_sublist :
    (dispatched subscriber.log).Sublist (Feed.items (Feed.accepted subscriber.log))
  requested_eq : ∀ before id after, subscriber.log = before ++ .requested id :: after →
    id = int64 (first + (Feed.accepted before).length)
  requested_of_failed : ∀ before id event after,
    subscriber.log = before ++ .failed id :: event :: after → event = .requested id

theorem progress_of_run {outside : Str → Nat → UInt8} {regexec : RegExec}
    {strTime2Unixtime : Str → Int} {type : Bool} {access : Access len} {pvstater : PvStater}
    {packageId : BitVec 32} {actions : List Action} {subscriber : Subscriber len}
    (reached : Runs.run (step outside regexec strTime2Unixtime type)
      (start type access pvstater packageId) actions = some subscriber)
    (reports : Runs.Meets (step outside regexec strTime2Unixtime type) Reports
      (start type access pvstater packageId) actions) :
    Progress (firstPackageId packageId) subscriber := by
  have run := consumer_of_run reports reached
  have consumes := Feed.consumes_of_run run
  have ids := consumes.accepted_eq_iterate
  rw [← List.range_map_iterate] at ids
  simp only [iterate_nextPackage] at ids
  refine ⟨ids, fun bound => ids.trans (List.map_congr_left fun index member => ?_),
    consumes.taken_append_left, ?_, ?_, ?_⟩
  · obtain ⟨low, high⟩ := firstPackageId_bounds packageId
    rw [List.mem_range] at member
    exact int64_eq_self (by omega) (by omega)
  · rw [← consumes.taken_append_left]
    exact (dispatched_sublist_taken _).trans (List.sublist_append_left ..)
  · intro before id after log
    rw [log] at run
    rw [Feed.eq_iterate_of_requested run, iterate_nextPackage]
  · intro before id event after log
    rw [log] at run
    exact Feed.requested_of_failed run

/-- **Progress.** When every successful reply reports the package that was asked for, the accepted
packages have consecutive ids from the first one on, their records are handled once and in order,
and a failed request is repeated. Exactly the records that pass the filter are dispatched. -/
theorem packages_in_order (outside : Str → Nat → UInt8) (regexec : RegExec)
    (strTime2Unixtime : Str → Int) (type : Bool) (access : Access len) (pvstater : PvStater)
    (packageId : BitVec 32) (actions : List Action) (subscriber : Subscriber len)
    (reached : Runs.run (step outside regexec strTime2Unixtime type)
      (start type access pvstater packageId) actions = some subscriber)
    (reports : Runs.Meets (step outside regexec strTime2Unixtime type) Reports
      (start type access pvstater packageId) actions) :
    Progress (firstPackageId packageId) subscriber ∧
      ∀ passes, Runs.Meets (step outside regexec strTime2Unixtime type) (Agrees outside passes)
          (start type access pvstater packageId) actions →
        dispatched subscriber.log =
          (Feed.taken subscriber.log).filter fun handled => passes handled.2 := by
  refine ⟨?_, fun passes agrees => ?_⟩
  · exact progress_of_run reached reports
  · have initially : Filtered passes (start type access pvstater packageId) :=
      ⟨rfl, fun _ _ pushing => nomatch pushing⟩
    exact (Runs.invariant_of_meets (Filtered passes)
      (fun filtered agrees stepped => filtered_of_effect (effect_of_step stepped) filtered agrees)
      initially agrees reached).dispatched_eq

/-- A record of the topic, with a line break. -/
def sampleRecord : PbRecord := ⟨⟨9⟩, bytes "srcid[1]" ++ [10]⟩

/-- The filter lets every record through, no application counts it, and there is memory. -/
def sampleLookups : Lookups where
  judge := fun _ => true
  getType := fun _ => []
  mem := 0
  insertLevel := ⟨0, by decide⟩

/-- The old topic is switched on. -/
def sampleStart : Subscriber 1 :=
  start false ⟨.empty, .empty, true, true⟩ (PvStater.new OrderedMap.empty) 7

def sampleStep : Subscriber 1 → Action → Option (Subscriber 1) :=
  step (fun _ _ => 0) (fun _ _ => none) (fun _ => 0) false

/-- A package comes after a failed call. -/
def sampleActions : List Action :=
  [.checkSwitch, .subscribe, .reply false {}, .again, .checkSwitch, .subscribe,
    .reply true { data := [sampleRecord], curDataPackageId := 7 }, .record sampleLookups, .push,
    .update]

theorem packages_in_order_after_failure :
    ∃ subscriber, Runs.run sampleStep sampleStart sampleActions = some subscriber ∧
      subscriber.access.lockfreequeue.entries = [bytes "srcid[1] "] ∧ Progress 7 subscriber ∧
      dispatched subscriber.log = (Feed.taken subscriber.log).filter fun _ => true := by
  have reports : Runs.Meets sampleStep Reports sampleStart sampleActions := by
    refine .cons trivial rfl (.cons trivial rfl (.cons ?_ rfl (.cons trivial rfl
      (.cons trivial rfl (.cons trivial rfl (.cons ?_ rfl (.cons trivial rfl (.cons trivial rfl
        (.cons trivial rfl trivial)))))))))
    · exact fun failed => nomatch failed
    · exact fun _ _ => rfl
  have agrees : Runs.Meets sampleStep (Agrees (fun _ _ => 0) fun _ => true) sampleStart
      sampleActions := by
    refine .cons trivial rfl (.cons trivial rfl (.cons trivial rfl (.cons trivial rfl
      (.cons trivial rfl (.cons trivial rfl (.cons trivial rfl (.cons ?_ rfl (.cons trivial rfl
        (.cons trivial rfl trivial)))))))))
    intro record rest records
    obtain ⟨rfl, _⟩ := List.cons.inj (Location.records.inj records)
    exact iff_of_true ⟨by decide, by decide⟩ rfl
  obtain ⟨progress, filtered⟩ := packages_in_order (fun _ _ => 0) (fun _ _ => none) (fun _ => 0)
    false ⟨.empty, .empty, true, true⟩ (PvStater.new OrderedMap.empty) 7 sampleActions _ rfl reports
  exact ⟨_, rfl, rfl, progress, filtered _ agrees⟩

/-! ### The switch -/

/-- An iteration during which the switch was off throughout did nothing. -/
def Quiet (subscriber : Subscriber len) : Prop :=
  ∀ iteration ∈ subscriber.iterations, iteration.on = false →
    iteration.requests = 0 ∧ iteration.dispatched = 0

/-- The switch was on at some time in the iteration that ends. -/
def SwitchedOn (subscriber : Subscriber len) : Action → Prop
  | .again => subscriber.iteration.on = true
  | _ => True

/-- The iteration has called as often as the place in it says. -/
def Counted (subscriber : Subscriber len) : Prop :=
  subscriber.iteration.requests = subscriber.location.requestCount

/-- A reply belongs to the iteration that called. -/
theorem receive_iteration (res : Bool) (response : SubscribeRecordResponse)
    (subscriber : Subscriber len) :
    (receive res response subscriber).iteration = subscriber.iteration ∧
      (receive res response subscriber).iterations = subscriber.iterations ∧
      (receive res response subscriber).location.requestCount = 1 := by
  rw [receive]
  split
  · refine ⟨rfl, rfl, ?_⟩
    dsimp only
    split <;> rfl
  · exact ⟨rfl, rfl, rfl⟩

/-- A step inside an iteration does not say anything about the iterations that have ended. -/
theorem quiet_of_inside {subscriber next : Subscriber len} {action : Action}
    (inside : action ≠ .again) (iterations : next.iterations = subscriber.iterations) :
    Quiet next ↔ Quiet subscriber ∧ SwitchedOn subscriber action := by
  have silent : SwitchedOn subscriber action := by
    cases action <;> trivial
  rw [Quiet, iterations, and_iff_left silent, Quiet]

/-- An iteration calls once, so it is quiet only when the switch was on. -/
theorem quiet_of_effect {outside : Str → Nat → UInt8} {type : Bool}
    {subscriber next : Subscriber len} {action : Action}
    (effect : Effect outside type subscriber action next) (counted : Counted subscriber) :
    Counted next ∧ (Quiet next ↔ Quiet subscriber ∧ SwitchedOn subscriber action) := by
  cases effect with
  | silent inside _ _ _ _ count requests iterations _ =>
      exact ⟨requests.trans (counted.trans count.symm), quiet_of_inside inside iterations⟩
  | requested calling =>
      refine ⟨congrArg (· + 1) (counted.trans ?_), quiet_of_inside Action.noConfusion rfl⟩
      rw [calling]
      rfl
  | replied waiting =>
      obtain ⟨iteration, iterations, count⟩ := receive_iteration ..
      refine ⟨?_, quiet_of_inside Action.noConfusion iterations⟩
      rw [Counted, iteration, count, counted, waiting]
      rfl
  | handled _ _ records =>
      refine ⟨counted.trans ?_, quiet_of_inside Action.noConfusion rfl⟩
      rw [records]
      rfl
  | pushed _ pushing =>
      refine ⟨counted.trans ?_, quiet_of_inside Action.noConfusion rfl⟩
      rw [pushing]
      rfl
  | updated records =>
      refine ⟨counted.trans ?_, quiet_of_inside Action.noConfusion rfl⟩
      rw [records]
      rfl
  | repeated ended =>
      have once : subscriber.iteration.requests = 1 :=
        counted.trans (congrArg Location.requestCount ended)
      refine ⟨rfl, ?_⟩
      rw [Quiet, again, List.forall_mem_append, List.forall_mem_singleton, once]
      simp only [Nat.one_ne_zero, false_and, imp_false, Bool.not_eq_false]
      rfl

/-- **The switch.** An iteration during the whole of which the topic is switched off does nothing
exactly in the runs in which there is none, since every iteration that ends has sent a request. -/
theorem quiet_iff (outside : Str → Nat → UInt8) (regexec : RegExec)
    (strTime2Unixtime : Str → Int) (type : Bool) (access : Access len) (pvstater : PvStater)
    (packageId : BitVec 32) (actions : List Action) (subscriber : Subscriber len)
    (reached : Runs.run (step outside regexec strTime2Unixtime type)
      (start type access pvstater packageId) actions = some subscriber) :
    Quiet subscriber ↔ Runs.Meets (step outside regexec strTime2Unixtime type) SwitchedOn
      (start type access pvstater packageId) actions := by
  have counted : Counted (start type access pvstater packageId) := rfl
  have quiet : Quiet (start type access pvstater packageId) := List.forall_mem_nil _
  have preserved {subscriber next : Subscriber len} {action : Action}
      (counted : Counted subscriber)
      (stepped : step outside regexec strTime2Unixtime type subscriber action = some next) :=
    quiet_of_effect (effect_of_step stepped) counted
  rw [Runs.holds_iff_meets Counted Quiet preserved counted reached, and_iff_right quiet]

/-- The topic is on while a package is asked for. -/
theorem quiet_when_on :
    ∃ subscriber, Runs.run sampleStep sampleStart [.checkSwitch, .subscribe, .reply false {},
        .again] = some subscriber ∧ Quiet subscriber := by
  refine ⟨_, rfl, (quiet_iff (fun _ _ => 0) (fun _ _ => none) (fun _ => 0) false
    ⟨.empty, .empty, true, true⟩ (PvStater.new OrderedMap.empty) 7
    [.checkSwitch, .subscribe, .reply false {}, .again] _ rfl).mpr ?_⟩
  exact .cons trivial rfl (.cons trivial rfl (.cons trivial rfl (.cons rfl rfl trivial)))

/-- The topic is switched off in the first iteration. The second one dispatches a record. -/
theorem not_quiet_when_off :
    ¬∀ subscriber, Runs.run sampleStep sampleStart [.pullSwitchConfig ⟨false, 0⟩, .checkSwitch,
        .wake, .subscribe, .reply false {}, .again, .checkSwitch, .wake, .subscribe,
        .reply true { data := [sampleRecord], curDataPackageId := 7 }, .record sampleLookups,
        .push, .update, .again] = some subscriber → Quiet subscriber := by
  intro quiet
  have second := quiet _ rfl ⟨false, 1, 1⟩ (by decide) rfl
  exact absurd second.2 Nat.one_ne_zero

end Subscribe

end LogProcess
