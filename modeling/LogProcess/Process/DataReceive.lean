import LogProcess.Preprocess.DataPreProcess
import LogProcess.Process.ChecklistConfig
import LogProcess.Process.QueryFreqStat
import LogProcess.Process.Storage
import LogProcess.Process.Topk

/-! # Receiving records

`DataReceive` of `process/process_impl.cc` with the loop of `Transmit` that calls it. The handler
calls `Storage` and `UpdataQueryFreqStat` once for every request that it handles, so at least once
for a record when the loop has ended, and at most once unless a call fails although its request is
handled (`Transmission.stored_once`).
-/

namespace LogProcess

structure TransmitResponse where
  status : ResStatus
  error : Option Str := none

/-- What is handed to the threads that send alarms. -/
inductive Alarm where
  | abnormal (kv : Kvpairs) (description : Str)
  | kuozhao (query : Str)

/-- What the handlers of a process node share. -/
structure ProcessNode (Database : Type) where
  checklists : Checklists
  storager : OrderedMap Str (StorageImpl Database)
  qftree : Trie
  alarms : List Alarm

namespace ProcessImpl

/-! ### The handler -/

def request2kv (request : TransmitRequest) : Kvpairs :=
  request.values.foldl (fun result kv => result.insertNew kv.key kv.value) OrderedMap.empty

/-- `CheckAbnormal`, which fails when a check throws. -/
def checkAbnormal (checklists : Checklists) (type : Str) (request : TransmitRequest)
    (kv : Kvpairs) : Except CheckFault (List Alarm) :=
  (getCheckList checklists type).foldlM (fun alarms i => do
    let (abnormal, description) ← i.check request
    pure (if abnormal then alarms ++ [.abnormal kv description] else alarms)) []

section Model

variable {Database : Type} (rocksdb : RocksDB Database) (cjson : CJson)
  (strTime2Unixtime : Str → Int)

/-- The fields of a request after the application and the timestamp were read. -/
def receivedKv (request : TransmitRequest) : Kvpairs :=
  ((request2kv request).insertNew (bytes "application") []).insertNew (bytes "timestamp") []

/-- What is stored and counted for a record. -/
def keep (kept : OrderedMap Str (StorageImpl Database) × Trie) (kv : Kvpairs) :
    OrderedMap Str (StorageImpl Database) × Trie :=
  let application := (kv.find? (bytes "application")).getD []
  let timestamp := (kv.find? (bytes "timestamp")).getD []
  (storage rocksdb cjson kept.1 application (Decimal.intText (strTime2Unixtime timestamp)) kv,
    QueryFreqStat.updataQueryFreqStat kept.2 kv)

/-- What is handed over when the query of a record was not counted. The search fails when it reads
behind the end of the query. -/
def searchKuozhao (qftree : Trie) (kv : Kvpairs) : Except CheckFault (List Alarm) :=
  let srcid := (kv.find? (bytes "srcid")).getD []
  let resno := (kv.find? (bytes "resno")).getD []
  let query := (kv.find? (bytes "query")).getD []
  if srcid = bytes "4514" ∧ resno = [] then
    if QueryFreqStat.HashesInside query then
      pure (if (QueryFreqStat.searchExists qftree query srcid).2 = 0 then [.kuozhao query] else [])
    else throw .outOfRange
  else pure []

/-- `DataReceive`, which fails when a check throws or the search reads behind the end. -/
def dataReceive (node : ProcessNode Database) (request : TransmitRequest) :
    Except CheckFault (ProcessNode Database × TransmitResponse) := do
  let kv := (request2kv request).insertNew (bytes "application") []
  let alarms ← checkAbnormal node.checklists ((kv.find? (bytes "application")).getD []) request kv
  let kv := kv.insertNew (bytes "timestamp") []
  let (storager, qftree) := keep rocksdb cjson strTime2Unixtime (node.storager, node.qftree) kv
  let kuozhao ← searchKuozhao qftree kv
  pure ({ node with
    storager := storager, qftree := qftree, alarms := node.alarms ++ (alarms ++ kuozhao) },
    { status := .succeed })

/-- The application of a request as the handler reads it. -/
def receivedApplication (request : TransmitRequest) : Str :=
  (((request2kv request).insertNew (bytes "application") []).find? (bytes "application")).getD []

/-- A record whose query is searched has one that is hashed inside. -/
def SearchesInside (kv : Kvpairs) : Prop :=
  (kv.find? (bytes "srcid")).getD [] = bytes "4514" → (kv.find? (bytes "resno")).getD [] = [] →
    QueryFreqStat.HashesInside ((kv.find? (bytes "query")).getD [])

/-- A search that is inside reports the query when it was not counted. -/
theorem searchKuozhao_eq_ok_iff {qftree : Trie} {kv : Kvpairs} {kuozhao : List Alarm} :
    searchKuozhao qftree kv = .ok kuozhao ↔ SearchesInside kv ∧
      kuozhao =
        if ((kv.find? (bytes "srcid")).getD [] = bytes "4514" ∧
            (kv.find? (bytes "resno")).getD [] = []) ∧
          (QueryFreqStat.searchExists qftree ((kv.find? (bytes "query")).getD [])
            ((kv.find? (bytes "srcid")).getD [])).2 = 0 then
          [.kuozhao ((kv.find? (bytes "query")).getD [])]
        else [] := by
  rw [searchKuozhao, SearchesInside, ← and_imp]
  split
  next asks =>
    rw [forall_prop_of_true asks]
    split
    next inside =>
      rw [Fallible.pure_eq_ok_iff, and_iff_right inside, eq_comm]
      simp only [asks, true_and]
    next outside => exact iff_of_false (fun found => by cases found) fun found => outside found.1
  next silent =>
    rw [Fallible.pure_eq_ok_iff, and_iff_right fun asks => absurd asks silent, eq_comm,
      if_neg fun reports => silent reports.1]

theorem exists_searchKuozhao_iff (qftree : Trie) (kv : Kvpairs) :
    (∃ kuozhao, searchKuozhao qftree kv = .ok kuozhao) ↔ SearchesInside kv := by
  simp only [searchKuozhao_eq_ok_iff, exists_and_left, exists_eq, and_true]

variable {rocksdb cjson strTime2Unixtime} {node next : ProcessNode Database}
  {request : TransmitRequest} {response : TransmitResponse}

/-- What a handled record does to its node. -/
theorem dataReceive_eq_ok
    (received : dataReceive rocksdb cjson strTime2Unixtime node request = .ok (next, response)) :
    ∃ alarms kuozhao, checkAbnormal node.checklists (receivedApplication request) request
        ((request2kv request).insertNew (bytes "application") []) = .ok alarms ∧
      searchKuozhao next.qftree (receivedKv request) = .ok kuozhao ∧
      (next.storager, next.qftree) =
        keep rocksdb cjson strTime2Unixtime (node.storager, node.qftree) (receivedKv request) ∧
      next.checklists = node.checklists ∧ next.alarms = node.alarms ++ (alarms ++ kuozhao) := by
  obtain ⟨alarms, checked, received⟩ := (Fallible.bind_eq_ok_iff ..).mp received
  obtain ⟨kuozhao, searched, received⟩ := (Fallible.bind_eq_ok_iff ..).mp received
  obtain ⟨rfl, _⟩ := Prod.mk.inj ((Fallible.pure_eq_ok_iff ..).mp received)
  exact ⟨alarms, kuozhao, checked, searched, rfl, rfl, rfl⟩

/-- The handler calls `Storage` and `UpdataQueryFreqStat` once. -/
theorem keep_of_dataReceive
    (received : dataReceive rocksdb cjson strTime2Unixtime node request = .ok (next, response)) :
    (next.storager, next.qftree) =
      keep rocksdb cjson strTime2Unixtime (node.storager, node.qftree) (receivedKv request) := by
  obtain ⟨_, _, _, _, kept, _⟩ := dataReceive_eq_ok received
  exact kept

/-- A record leaves the rules of its node alone. -/
theorem checklists_of_dataReceive
    (received : dataReceive rocksdb cjson strTime2Unixtime node request = .ok (next, response)) :
    next.checklists = node.checklists := by
  obtain ⟨_, _, _, _, _, same, _⟩ := dataReceive_eq_ok received
  exact same

end Model

end ProcessImpl

/-! ### The protocol -/

namespace Transmission

open RetryRpc

variable {Database Sender : Type} [DecidableEq Sender] (rocksdb : RocksDB Database) (cjson : CJson)
  (strTime2Unixtime : Str → Int) (regex : Regex)
  (records : Sender → OrderedMap Str Str × OrderedMap Str Bool)

/-- The request of a call of `Transmit`. -/
def request (sender : Sender) : TransmitRequest :=
  DataPreProcess.kv2request (records sender).1 (records sender).2

/-- The calls `while (!(res = client_->Transmit(...)))` with a process node, whose rules may be
changed. An exception in the handler leaves the node as it was, and there is no reply. A run ends
before a request whose handler reads behind the end of the query. -/
def step : Config Sender (ProcessNode Database) → Action Sender SetCheckListConfigRequest →
    Option (Config Sender (ProcessNode Database)) :=
  RetryRpc.step
    (fun sender node => ((ProcessImpl.dataReceive rocksdb cjson strTime2Unixtime node
      (request records sender)).toOption).map Prod.fst)
    fun change node => some { node with
      checklists := (ProcessImpl.setCheckListConfig regex node.checklists change).2 }

/-- **At least once.** What is stored and counted comes from one call of `Storage` and one of
`UpdataQueryFreqStat` for each request that is handled. There is at least one such request of a
record when its call of `Transmit` has returned, and at most one unless one of the requests is
handled although its call fails. -/
theorem stored_once (node : ProcessNode Database)
    (actions : List (Action Sender SetCheckListConfigRequest))
    (config : Config Sender (ProcessNode Database))
    (reached : Runs.run (step rocksdb cjson strTime2Unixtime regex records) (start node) actions =
      some config) :
    (config.state.storager, config.state.qftree) = (config.handled.map Prod.fst).foldl
        (fun kept sender => ProcessImpl.keep rocksdb cjson strTime2Unixtime kept
          (ProcessImpl.receivedKv (request records sender))) (node.storager, node.qftree) ∧
      ∀ sender, (config.phase sender = .ended → 1 ≤ handledCount config sender) ∧
        ((∀ attempt, (sender, attempt) ∈ config.failed → (sender, attempt) ∉ config.handled) →
          handledCount config sender ≤ 1) := by
  have sound := sound_run reached
  refine ⟨?_, fun sender => ⟨sound.handled_of_ended, sound.handledCount_le_one⟩⟩
  refine view_run (fun node : ProcessNode Database => (node.storager, node.qftree)) ?_ ?_ reached
  · intro sender node next handled
    cases received : ProcessImpl.dataReceive rocksdb cjson strTime2Unixtime node
        (request records sender) with
    | error fault => simp only [received, Except.toOption, Option.map_none, reduceCtorEq] at handled
    | ok reply =>
        simp only [received, Except.toOption, Option.map_some, Option.some.injEq] at handled
        exact handled ▸ ProcessImpl.keep_of_dataReceive received
  · intro change node next changed
    obtain rfl := Option.some.inj changed
    rfl

/-- A node for one application. -/
def weatherNode : ProcessNode (Option Nat → OrderedMap Str (List Str)) where
  checklists := OrderedMap.empty
  storager := ProcessImpl.storagerInit RocksDB.table [bytes "weather"]
  qftree := Trie.new
  alarms := []

/-- A record without a result, of which every field is transmitted. -/
def weatherRecord : OrderedMap Str Str × OrderedMap Str Bool :=
  (OrderedMap.ofList [(bytes "application", bytes "weather"), (bytes "type", bytes "old"),
      (bytes "query", bytes "a"), (bytes "srcid", bytes "1"), (bytes "resno", [])],
    OrderedMap.ofList [(bytes "query", true), (bytes "srcid", true), (bytes "resno", true)])

/-- One sender calls a node whose clock is fixed. -/
def weatherStep : Config Unit (ProcessNode (Option Nat → OrderedMap Str (List Str))) →
    Action Unit SetCheckListConfigRequest →
      Option (Config Unit (ProcessNode (Option Nat → OrderedMap Str (List Str)))) :=
  step RocksDB.table CJson.flat (fun _ => 1500000000) ⟨fun _ => true, fun _ _ => none⟩
    fun _ => weatherRecord

/-- A call that succeeds at once. -/
theorem stored_once_without_failure :
    ∃ config, Runs.run weatherStep (start weatherNode)
        [.send (), .deliver () 0, .receive () 0] = some config ∧
      1 ≤ handledCount config () ∧ handledCount config () ≤ 1 := by
  have kept := stored_once RocksDB.table CJson.flat (fun _ => 1500000000)
    ⟨fun _ => true, fun _ _ => none⟩ (fun _ : Unit => weatherRecord) weatherNode
    [.send (), .deliver () 0, .receive () 0] _ rfl
  exact ⟨_, rfl, (kept.2 ()).1 rfl, (kept.2 ()).2 fun _ failed => absurd failed List.not_mem_nil⟩

/-- A record is stored and counted twice when the first reply is lost and the call repeated. -/
theorem stored_twice_after_lost_reply :
    ¬∀ config, Runs.run weatherStep (start weatherNode)
        [.send (), .deliver () 0, .loseReply () 0, .fail () 0, .send (), .deliver () 1,
          .receive () 1] = some config →
      (QueryFreqStat.searchExists config.state.qftree (bytes "a") (bytes "1")).2 ≤ 1 ∧
        ∀ storage ∈ config.state.storager.find? (bytes "weather"),
          ((storage.rdb.db none).find? (bytes "1500000000")).elim 0 List.length ≤ 1 := by
  intro once
  have counted := (once _ rfl).1
  exact absurd counted (by decide +kernel)

end Transmission

end LogProcess
