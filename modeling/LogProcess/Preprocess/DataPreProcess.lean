import LogProcess.Common.FnvHash
import LogProcess.Foundation.Decimal
import LogProcess.Preprocess.AccessImpl
import LogProcess.Preprocess.LogFields

/-! # Preprocessing

`preprocess/data_preprocess.cc`. Two agents take records from the queues of the old and the new
topic and hand them to workers, both with `PreProcess`, so that a record of the new topic that
is transmitted was never preprocessed with the rules of this topic
(`DataPreProcess.tagged_iff`).
-/

namespace LogProcess.DataPreProcess

/-! ### The rules for one record -/

/-- What the field rules and Redis answer while a record is preprocessed. -/
structure Answers where
  getType : Str → Str
  getRule : Str → OrderedMap Str Str
  getIsTrans : Str → OrderedMap Str Bool
  redisExists : Str → Bool

/-- What is set in Redis, with the time to live, and what is transmitted. -/
structure PreProcessed where
  sets : List (Str × Str × Int) := []
  sent : Option (OrderedMap Str Str × OrderedMap Str Bool) := none

/-- The fields of a record after `GetFields`. Reading a missing one makes it an empty one. -/
def recordOf (regexec : RegExec) (answers : Answers) (type : Bool) (tag curType body : Str) :
    OrderedMap Str Str :=
  let kv := getFields regexec body (answers.getRule curType) type
  let kv := (kv.assign (bytes "application") curType).assign (bytes "type") tag
  ((kv.insertNew (bytes "query") []).insertNew (bytes "qid") []).insertNew (bytes "resno") []

/-- `PreProcess` and `PreProcess_new` with the last argument of `GetFields`, the value of the
field `type` and the text that is hashed. -/
def preProcessWith (type : Bool) (tag : Str) (rawstr : Str → Str → Str) (regexec : RegExec)
    (answers : Answers) (body : Str) : PreProcessed :=
  let srcid := getSrcid body
  let curType := answers.getType srcid
  if curType = [] then {}
  else
    let kv := recordOf regexec answers type tag curType body
    let query := (kv.find? (bytes "query")).getD []
    let qid := (kv.find? (bytes "qid")).getD []
    let hashcode := Decimal.text (fnv1Hash32 (rawstr query srcid)).toNat
    if (kv.find? (bytes "resno")).getD [] ≠ [] then
      if answers.redisExists qid ∨ answers.redisExists hashcode then {}
      else { sent := some (kv, answers.getIsTrans curType) }
    else
      { sets := [(hashcode, bytes "OK", -1), (qid, bytes "OK", 500)]
        sent := some (kv, answers.getIsTrans curType) }

/-- `PreProcess` -/
def preProcess : RegExec → Answers → Str → PreProcessed :=
  preProcessWith false (bytes "old") fun query _ => query

/-- `PreProcess_new` -/
def preProcessNew : RegExec → Answers → Str → PreProcessed :=
  preProcessWith true (bytes "new") fun query srcid => query ++ bytes "|" ++ srcid

/-- The entries of a request: the fields that are to be transmitted, the type and the
application. -/
def kv2request (kv : OrderedMap Str Str) (istrans : OrderedMap Str Bool) : TransmitRequest where
  values := (kv.entries.filter fun field => field.1 = bytes "type" ∨
    field.1 = bytes "application" ∨ istrans.find? field.1 = some true).map
      fun field => ⟨field.1, field.2⟩

/-! ### Agents and workers -/

/-- The functions that a task can be bound to. -/
inductive Handler where
  | preProcess
  | preProcessNew
  deriving DecidableEq

def Handler.run : Handler → RegExec → Answers → Str → PreProcessed
  | .preProcess => DataPreProcess.preProcess
  | .preProcessNew => DataPreProcess.preProcessNew

/-- A task of the workers, with the type of the queue that its record came from. -/
structure Task where
  handler : Handler
  msg : Str
  queue : Bool

/-- A record that was passed to `Transmit`, with the task that did so. -/
structure Transmitted where
  task : Task
  kv : OrderedMap Str Str
  istrans : OrderedMap Str Bool

/-- Where the loop of an agent is. -/
inductive Agent where
  | checking
  | popping
  | exited
  deriving DecidableEq

structure Pipeline (len : Nat) where
  access : Access len
  stop : Bool
  agent : Agent
  agentNew : Agent
  tasks : List Task
  transmitted : List Transmitted

/-- What may happen next: a push by `Subscribe` or `Retransmit`, a step of an agent, a worker
that takes some task, or `Stop`. -/
inductive Action where
  | push (type : Bool) (body : Str)
  | agentCheck (notified : Bool)
  | agentPop
  | agentNewCheck
  | agentNewPop
  | work (index : Nat) (answers : Answers)
  | stop

variable {len : Nat}

/-- The agent hands the record that it pops, if there is one, to the workers. -/
def addTask (handler : Handler) (type : Bool) (pipeline : Pipeline len) : Pipeline len :=
  let (msg, access) := pipeline.access.pop type
  { pipeline with
    access := access
    tasks := pipeline.tasks ++ (msg.map fun msg => ⟨handler, msg, type⟩).toList }

/-- The check at the top of an agent's loop. Both agents look at the queue of the old topic. -/
def check (pipeline : Pipeline len) (notified : Bool) : Agent :=
  if (pipeline.access.queue false).entries = [] ∧ pipeline.stop = false ∧ notified = false then
    .checking
  else if pipeline.stop then .exited
  else .popping

variable (regexec : RegExec)

def step (pipeline : Pipeline len) : Action → Option (Pipeline len)
  | .push type body => some { pipeline with access := (pipeline.access.push type body).2 }
  | .agentCheck notified =>
      if pipeline.agent = .checking then some { pipeline with agent := check pipeline notified }
      else none
  | .agentPop =>
      if pipeline.agent = .popping then
        some { addTask .preProcess false pipeline with agent := .checking }
      else none
  | .agentNewCheck =>
      if pipeline.agentNew = .checking then
        some { pipeline with agentNew := check pipeline false }
      else none
  | .agentNewPop =>
      if pipeline.agentNew = .popping then
        some { addTask .preProcess true pipeline with agentNew := .checking }
      else none
  | .work index answers =>
      pipeline.tasks[index]?.map fun task => { pipeline with
        tasks := pipeline.tasks.eraseIdx index
        transmitted := pipeline.transmitted ++
          ((task.handler.run regexec answers task.msg).sent.map fun sent =>
            ⟨task, sent.1, sent.2⟩).toList }
  | .stop => some { pipeline with stop := true }

/-- The threads have just been started. -/
def start (access : Access len) : Pipeline len where
  access := access
  stop := false
  agent := .checking
  agentNew := .checking
  tasks := []
  transmitted := []

/-! ### Tags -/

/-- A record of the new topic was preprocessed as such and says so, one of the old topic says
that it is old. -/
def Transmitted.Tagged (transmitted : Transmitted) : Prop :=
  if transmitted.task.queue then
    transmitted.task.handler = .preProcessNew ∧
      transmitted.kv.find? (bytes "type") = some (bytes "new")
  else transmitted.kv.find? (bytes "type") = some (bytes "old")

/-- Every transmitted record is tagged rightly. -/
def Tagged (pipeline : Pipeline len) : Prop := ∀ sent ∈ pipeline.transmitted, sent.Tagged

/-- A record is not transmitted: its srcid has no type, or it has a resno and its qid or the
hash of its query is known to Redis. -/
def Dropped (answers : Answers) (body : Str) : Prop :=
  let curType := answers.getType (getSrcid body)
  let value field := ((getFields regexec body (answers.getRule curType) false).find? field).getD []
  curType = [] ∨ value (bytes "resno") ≠ [] ∧
    (answers.redisExists (value (bytes "qid")) ∨
      answers.redisExists (Decimal.text (fnv1Hash32 (value (bytes "query"))).toNat))

/-- A worker drops the record it takes when it is of the new topic. -/
def DropsNew (pipeline : Pipeline len) : Action → Prop
  | .work index answers => ∀ task ∈ pipeline.tasks[index]?, task.queue = true →
      Dropped regexec answers task.msg
  | _ => True

variable {regexec}

variable (regexec) in
/-- The tags and the defaults do not change the other fields. -/
theorem find?_recordOf (answers : Answers) (type : Bool) (tag curType body : Str) {field : Str}
    (read : field ∈ [bytes "query", bytes "qid", bytes "resno"]) :
    ((recordOf regexec answers type tag curType body).find? field).getD [] =
      ((getFields regexec body (answers.getRule curType) type).find? field).getD [] := by
  have application : field ≠ bytes "application" := by
    rintro rfl
    exact absurd read (by decide)
  have type : field ≠ bytes "type" := by
    rintro rfl
    exact absurd read (by decide)
  have defaults (kv : OrderedMap Str Str) (key : Str) :
      ((kv.insertNew key []).find? field).getD [] = (kv.find? field).getD [] := by
    rw [OrderedMap.find?_insertNew]
    split
    · rename_i same
      rw [Option.getD_some, same]
    · rfl
  rw [recordOf, defaults, defaults, defaults, OrderedMap.find?_assign_of_ne _ _ type,
    OrderedMap.find?_assign_of_ne _ _ application]

theorem find?_type_recordOf (answers : Answers) (type : Bool) (tag curType body : Str) :
    (recordOf regexec answers type tag curType body).find? (bytes "type") = some tag := by
  rw [recordOf, OrderedMap.find?_insertNew, if_neg (by decide), OrderedMap.find?_insertNew,
    if_neg (by decide), OrderedMap.find?_insertNew, if_neg (by decide),
    OrderedMap.find?_assign_self]

/-- What is sent has the tag. -/
theorem find?_type_of_sent {type : Bool} {tag body : Str} {rawstr : Str → Str → Str}
    {answers : Answers} {kv : OrderedMap Str Str} {istrans : OrderedMap Str Bool}
    (sent : (preProcessWith type tag rawstr regexec answers body).sent = some (kv, istrans)) :
    kv.find? (bytes "type") = some tag := by
  simp only [preProcessWith] at sent
  split_ifs at sent
  · obtain ⟨rfl, rfl⟩ := Prod.mk.inj (Option.some.inj sent)
    exact find?_type_recordOf ..
  · obtain ⟨rfl, rfl⟩ := Prod.mk.inj (Option.some.inj sent)
    exact find?_type_recordOf ..

/-- `PreProcess` sends what is not dropped. -/
theorem sent_eq_none_iff (answers : Answers) (body : Str) :
    (preProcess regexec answers body).sent = none ↔ Dropped regexec answers body := by
  have query := find?_recordOf regexec answers false (bytes "old")
    (answers.getType (getSrcid body)) body (show bytes "query" ∈ _ by decide)
  have qid := find?_recordOf regexec answers false (bytes "old")
    (answers.getType (getSrcid body)) body (show bytes "qid" ∈ _ by decide)
  have resno := find?_recordOf regexec answers false (bytes "old")
    (answers.getType (getSrcid body)) body (show bytes "resno" ∈ _ by decide)
  simp only [preProcess, preProcessWith, Dropped, query, qid, resno]
  split_ifs <;> simp_all

/-- Every task is bound to `PreProcess`. -/
def BoundOld (pipeline : Pipeline len) : Prop := ∀ task ∈ pipeline.tasks, task.handler = .preProcess

theorem boundOld_addTask {type : Bool} {pipeline : Pipeline len} (bound : BoundOld pipeline) :
    BoundOld (addTask .preProcess type pipeline) := by
  intro task member
  rw [addTask, List.mem_append, Option.mem_toList,
    Option.map_eq_some_iff] at member
  rcases member with earlier | added
  · exact bound task earlier
  · obtain ⟨msg, _, rfl⟩ := added
    rfl

/-- What a worker transmits with `PreProcess` is tagged rightly unless it is of the new topic. -/
theorem tagged_sent_iff (answers : Answers) {task : Task} (bound : task.handler = .preProcess) :
    (∀ transmitted ∈ ((task.handler.run regexec answers task.msg).sent.map fun sent =>
        (⟨task, sent.1, sent.2⟩ : Transmitted)).toList, transmitted.Tagged) ↔
      (task.queue = true → Dropped regexec answers task.msg) := by
  rw [bound, Handler.run, ← sent_eq_none_iff]
  cases sent : (preProcess regexec answers task.msg).sent with
  | none => simp only [Option.map_none, Option.toList_none, List.not_mem_nil, false_implies,
      implies_true]
  | some both =>
      obtain ⟨kv, istrans⟩ := both
      have tag := find?_type_of_sent sent
      simp only [Option.map_some, Option.toList_some, List.mem_singleton, forall_eq, reduceCtorEq,
        imp_false, Bool.not_eq_true, Transmitted.Tagged, bound, false_and]
      cases task.queue with
      | false => simp only [Bool.false_eq_true, ↓reduceIte, tag]
      | true => simp only [↓reduceIte, Bool.true_eq_false]

/-- A step keeps the tags right exactly when no record of the new topic is transmitted. -/
theorem tagged_step {pipeline next : Pipeline len} {action : Action} (bound : BoundOld pipeline)
    (stepped : step regexec pipeline action = some next) :
    BoundOld next ∧ (Tagged next ↔ Tagged pipeline ∧ DropsNew regexec pipeline action) := by
  cases action with
  | push type body =>
      obtain rfl := Option.some.inj stepped
      exact ⟨bound, (and_iff_left trivial).symm⟩
  | agentCheck notified =>
      rw [step, Option.ite_none_right_eq_some, Option.some.injEq] at stepped
      obtain ⟨_, rfl⟩ := stepped
      exact ⟨bound, (and_iff_left trivial).symm⟩
  | agentPop =>
      rw [step, Option.ite_none_right_eq_some, Option.some.injEq] at stepped
      obtain ⟨_, rfl⟩ := stepped
      exact ⟨boundOld_addTask bound, (and_iff_left trivial).symm⟩
  | agentNewCheck =>
      rw [step, Option.ite_none_right_eq_some, Option.some.injEq] at stepped
      obtain ⟨_, rfl⟩ := stepped
      exact ⟨bound, (and_iff_left trivial).symm⟩
  | agentNewPop =>
      rw [step, Option.ite_none_right_eq_some, Option.some.injEq] at stepped
      obtain ⟨_, rfl⟩ := stepped
      exact ⟨boundOld_addTask bound, (and_iff_left trivial).symm⟩
  | work index answers =>
      obtain ⟨task, taken, rfl⟩ := Option.map_eq_some_iff.mp stepped
      refine ⟨fun other member => bound other (List.mem_of_mem_eraseIdx member), ?_⟩
      rw [Tagged, List.forall_mem_append,
        tagged_sent_iff answers (bound task (List.mem_of_getElem? taken))]
      simp only [DropsNew, taken, Option.mem_def, Option.some.injEq, forall_eq', Tagged]
  | stop =>
      obtain rfl := Option.some.inj stepped
      exact ⟨bound, (and_iff_left trivial).symm⟩

/-- **Tags.** The transmitted records are tagged rightly exactly in the runs in which every
record of the new topic that a worker takes is dropped. -/
theorem tagged_iff (regexec : RegExec) (access : Access len) (actions : List Action)
    (pipeline : Pipeline len)
    (reached : Runs.run (step regexec) (start access) actions = some pipeline) :
    Tagged pipeline ↔ Runs.Meets (step regexec) (DropsNew regexec) (start access) actions := by
  have bound : BoundOld (start access) := List.forall_mem_nil _
  have tagged : Tagged (start access) := List.forall_mem_nil _
  rw [Runs.holds_iff_meets BoundOld Tagged tagged_step bound reached, and_iff_right tagged]

/-- Answers for one srcid, with a rule that transmits the query. -/
def sampleAnswers : Answers where
  getType := fun srcid => if srcid = bytes "1" then bytes "weather" else []
  getRule := fun _ => OrderedMap.ofList [(bytes "query", [])]
  getIsTrans := fun _ => OrderedMap.ofList [(bytes "query", true)]
  redisExists := fun _ => false

/-- A record of the old topic is transmitted as an old one. -/
theorem tagged_old_record :
    ∃ pipeline, Runs.run (step fun _ _ => none)
        (start ⟨(.empty : BoundedQueue Str 1), .empty, true, true⟩)
        [.push false (bytes "srcid[1] query[a]"), .agentCheck false, .agentPop,
          .work 0 sampleAnswers] = some pipeline ∧
      pipeline.transmitted.length = 1 ∧ Tagged pipeline := by
  refine ⟨_, rfl, rfl, (tagged_iff (fun _ _ => none) ⟨.empty, .empty, true, true⟩
    [.push false (bytes "srcid[1] query[a]"), .agentCheck false, .agentPop, .work 0 sampleAnswers]
    _ rfl).mpr ?_⟩
  refine .cons trivial rfl (.cons trivial rfl (.cons trivial rfl (.cons ?_ rfl trivial)))
  intro task taken new
  obtain rfl := Option.some.inj taken
  exact absurd new (by decide)

/-- A record of the new topic is transmitted as an old one while one of the old topic waits. -/
theorem not_tagged_new_record :
    ¬∀ pipeline, Runs.run (step fun _ _ => none)
        (start ⟨(.empty : BoundedQueue Str 1), .empty, true, true⟩)
        [.push true (bytes "srcid[1] query[a]"), .push false (bytes "srcid[1] query[b]"),
          .agentNewCheck, .agentNewPop, .work 0 sampleAnswers] = some pipeline →
      Tagged pipeline := by
  intro tagged
  have new := (tagged _ rfl _ List.mem_cons_self).1
  exact absurd new (by decide)

end LogProcess.DataPreProcess
