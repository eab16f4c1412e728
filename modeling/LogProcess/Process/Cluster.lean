import LogProcess.Common.ConsistentHash
import LogProcess.Process.ProcessServer
import LogProcess.Process.StoredRows
import LogProcess.Process.TransmitCodec

/-! # The cluster of process nodes

`Transmit` of `preprocess/data_preprocess.cc` asks the ring for the server of a record once, and
calls this server until a call succeeds. In every run a node keeps the handled records that are
routed to it, in the order in which they were handled (`Cluster.kept_run`). A range is therefore
read from a node as the records of this node, and from all nodes as every record that was handled,
so that no record whose `Transmit` has returned is missing (`Cluster.rows_run`).
-/

namespace LogProcess

/-- What is read from a request is the part of the record that leaves the node. -/
theorem request2kv_eq_transmitted (kv : OrderedMap Str Str) (istrans : OrderedMap Str Bool) :
    ProcessImpl.request2kv (DataPreProcess.kv2request kv istrans) = transmitted kv istrans := by
  rw [ProcessImpl.request2kv, values_kv2request, List.foldl_map]
  exact OrderedMap.foldl_insertNew_entries _

namespace Cluster

open RetryRpc ProcessImpl

/-- The nodes by their addresses. -/
abbrev Nodes (Database : Type) := Str → ProcessNode Database

section Model

variable {Database Sender : Type} [DecidableEq Sender] (rocksdb : RocksDB Database) (cjson : CJson)
  (strTime2Unixtime : Str → Int) (regex : Regex) (ring : ConsistentHash)
  (records : Sender → OrderedMap Str Str × OrderedMap Str Bool) (draws : Sender → BitVec 32)

omit [DecidableEq Sender] in
/-- `GetProcessSerer` for the query of a record, with the value that `std::random_device` yields.
A preprocessed record has a query. -/
def getProcessSerer (sender : Sender) : Option Str :=
  ring.getServerNode ConsistentHash.fnv1Hash32 (((records sender).1.find? (bytes "query")).getD [])
    (draws sender)

/-- One request of a sender at the node to which its record is routed. -/
def handle (sender : Sender) (nodes : Nodes Database) : Option (Nodes Database) := do
  let server ← getProcessSerer ring records draws sender
  let (next, _) ← (dataReceive rocksdb cjson strTime2Unixtime (nodes server)
    (Transmission.request records sender)).toOption
  some (Function.update nodes server next)

/-- A change of the rules of one node. -/
def change (event : Str × SetCheckListConfigRequest) (nodes : Nodes Database) :
    Option (Nodes Database) :=
  some (Function.update nodes event.1 { nodes event.1 with
    checklists := (setCheckListConfig regex (nodes event.1).checklists event.2).2 })

/-- The calls of all senders with the nodes of the cluster. -/
def step : Config Sender (Nodes Database) → Action Sender (Str × SetCheckListConfigRequest) →
    Option (Config Sender (Nodes Database)) :=
  RetryRpc.step (handle rocksdb cjson strTime2Unixtime ring records draws) (change regex)

omit [DecidableEq Sender] in
/-- The record of a sender as it arrives at a node. -/
def received (sender : Sender) : Kvpairs := receivedKv (Transmission.request records sender)

/-- The senders whose requests were handled, in this order and with repetitions. -/
def handledSenders (config : Config Sender (Nodes Database)) : List Sender :=
  config.handled.map Prod.fst

/-- Those of them whose records are routed to a server. -/
def handledAt (config : Config Sender (Nodes Database)) (server : Str) : List Sender :=
  (handledSenders config).filter fun sender =>
    getProcessSerer ring records draws sender = some server

end Model

/-! ### Received records -/

section Received

variable {Sender : Type} (records : Sender → OrderedMap Str Str × OrderedMap Str Bool)

theorem received_eq (sender : Sender) : received records sender =
    ((transmitted (records sender).1 (records sender).2).insertNew
      (bytes "application") []).insertNew (bytes "timestamp") [] := by
  rw [received, receivedKv, Transmission.request, request2kv_eq_transmitted]

/-- What holds of the entries of a record holds of the received one. -/
theorem forall_mem_received {property : Str × Str → Prop} {sender : Sender}
    (given : ∀ entry ∈ (records sender).1.entries, property entry)
    (application : property (bytes "application", []))
    (timestamp : property (bytes "timestamp", [])) :
    ∀ entry ∈ (received records sender).entries, property entry := by
  intro entry member
  rw [received_eq] at member
  rcases OrderedMap.mem_of_mem_insertNew member with earlier | rfl
  · rcases OrderedMap.mem_of_mem_insertNew earlier with first | rfl
    · exact given entry (List.mem_filter.mp first).1
    · exact application
  · exact timestamp

/-- A field other than the ones with defaults arrives when it may leave the node. -/
theorem find?_received (sender : Sender) {field : Str} (application : field ≠ bytes "application")
    (timestamp : field ≠ bytes "timestamp") :
    (received records sender).find? field =
      if IsTransmitted (records sender).2 field then (records sender).1.find? field else none := by
  rw [received_eq, OrderedMap.find?_insertNew_of_ne _ _ timestamp,
    OrderedMap.find?_insertNew_of_ne _ _ application, find?_transmitted]

end Received

/-! ### What the nodes keep -/

section Kept

variable {Database Sender : Type} [DecidableEq Sender] {rocksdb : RocksDB Database}
  {operands : Database → Option Nat → Str → List Str} {cjson : CJson}
  {strTime2Unixtime : Str → Int} {regex : Regex} {ring : ConsistentHash}
  {records : Sender → OrderedMap Str Str × OrderedMap Str Bool} {draws : Sender → BitVec 32}

omit [DecidableEq Sender] in
/-- A handled request changes the node to which its record is routed, and no other one. -/
theorem handle_eq_some {sender : Sender} {nodes next : Nodes Database}
    (handled : handle rocksdb cjson strTime2Unixtime ring records draws sender nodes = some next) :
    ∃ server node response, getProcessSerer ring records draws sender = some server ∧
      dataReceive rocksdb cjson strTime2Unixtime (nodes server)
        (Transmission.request records sender) = .ok (node, response) ∧
      next = Function.update nodes server node := by
  simp only [handle, Option.bind_eq_bind, Option.bind_eq_some_iff, Option.some.injEq] at handled
  obtain ⟨server, routed, ⟨node, response⟩, received, same⟩ := handled
  exact ⟨server, node, response, routed, Fallible.toOption_eq_some_iff.mp received, same.symm⟩

/-- What only the records of a node change there is a fold over the handled ones. -/
theorem view_run {View : Type*} (view : ProcessNode Database → View) (effect : View → Sender → View)
    (handles : ∀ {sender node next response}, dataReceive rocksdb cjson strTime2Unixtime node
      (Transmission.request records sender) = .ok (next, response) →
        view next = effect (view node) sender)
    (keeps : ∀ node checklists, view { node with checklists := checklists } = view node)
    {nodes : Nodes Database} {actions : List (Action Sender (Str × SetCheckListConfigRequest))}
    {config : Config Sender (Nodes Database)}
    (reached : Runs.run (step rocksdb cjson strTime2Unixtime regex ring records draws)
      (start nodes) actions = some config) (server : Str) :
    view (config.state server) =
      (handledAt ring records draws config server).foldl effect (view (nodes server)) := by
  rw [handledAt, handledSenders, List.foldl_filter]
  refine RetryRpc.view_run (fun nodes : Nodes Database => view (nodes server)) ?_ ?_ reached
  · intro sender nodes next handled
    obtain ⟨target, node, response, routed, received, rfl⟩ := handle_eq_some handled
    by_cases here : target = server
    · subst here
      simp only [routed, decide_true, ↓reduceIte, Function.update_self]
      exact handles received
    · have elsewhere : some target ≠ some server := fun same => here (Option.some.inj same)
      simp only [routed, decide_eq_false elsewhere, Bool.false_eq_true, ↓reduceIte,
        Function.update_of_ne (Ne.symm here)]
  · intro event nodes next changed
    obtain rfl := Option.some.inj changed
    by_cases here : event.1 = server
    · simp only [← here, Function.update_self]
      exact keeps _ _
    · simp only [Function.update_of_ne (Ne.symm here)]

variable {types : List Str} {actions : List (Action Sender (Str × SetCheckListConfigRequest))}
  {config : Config Sender (Nodes Database)}
  (reached : Runs.run (step rocksdb cjson strTime2Unixtime regex ring records draws)
    (start fun _ => ProcessServer.startup rocksdb types) actions = some config)
include reached

/-- **Run lemma.** A node keeps the handled records that are routed to it. -/
theorem kept_run (server : Str) :
    ((config.state server).storager, (config.state server).qftree) =
      ((handledAt ring records draws config server).map (received records)).foldl
        (keep rocksdb cjson strTime2Unixtime) (storagerInit rocksdb types, Trie.new) := by
  rw [List.foldl_map]
  exact view_run (fun node => (node.storager, node.qftree)) _ keep_of_dataReceive
    (fun _ _ => rfl) reached server

/-- A sender whose `Transmit` has returned was handled. -/
theorem mem_handledSenders_of_ended {sender : Sender} (ended : config.phase sender = .ended) :
    sender ∈ handledSenders config :=
  List.count_pos_iff.mp ((sound_run reached).handled_of_ended ended)

/-- A handled record was routed. -/
theorem exists_route_of_mem {sender : Sender} (handled : sender ∈ handledSenders config) :
    ∃ server, getProcessSerer ring records draws sender = some server := by
  refine forall_handled (fun sender => ∃ server, getProcessSerer ring records draws sender =
    some server) (fun handled => ?_) reached sender handled
  obtain ⟨server, _, _, routed, _⟩ := handle_eq_some handled
  exact ⟨server, routed⟩

/-- The handled records of the servers of the ring are all handled records. -/
theorem flatMap_handledAt_perm (closed : ring.Closed) (nodup : ring.servers.Nodup) :
    (ring.servers.flatMap (handledAt ring records draws config)).Perm (handledSenders config) := by
  have covered : ∀ sender ∈ handledSenders config,
      getProcessSerer ring records draws sender ∈ ring.servers.map some := by
    intro sender handled
    obtain ⟨server, routed⟩ := exists_route_of_mem reached handled
    rw [routed]
    exact List.mem_map_of_mem (ConsistentHash.mem_servers_of_getServerNode _ closed routed)
  have parts := Sorting.flatMap_filter_perm (nodup.map (Option.some_injective Str)) covered
  rwa [List.flatMap_map] at parts

/-- A record that can be stored and read again. -/
structure Storable (strTime2Unixtime : Str → Int)
    (records : Sender → OrderedMap Str Str × OrderedMap Str Bool) (sender : Sender) : Prop where
  free : NulFree (records sender).1
  bars : BarFree (records sender).1
  dated : Dated (keptTime strTime2Unixtime (received records sender))

section Rows

variable (lawful : rocksdb.Lawful operands) (json : cjson.Lawful) {type : Str}
  (registered : type ∈ types)
  (storable : ∀ sender ∈ handledSenders config, Storable strTime2Unixtime records sender)
  {st ed : Int} (low : 10 ^ 9 ≤ st) (high : st < 10 ^ 10) (bounded : ed ≠ -1)
  (readable : -2 ^ 63 ≤ ed ∧ ed < 2 ^ 63)
include lawful json registered storable low high bounded readable

/-- What a node answers for a range. -/
theorem readFromRocksdb_run (server : Str) :
    readFromRocksdb rocksdb cjson (config.state server).storager type st ed =
      some (sortedRows strTime2Unixtime type st ed
        ((handledAt ring records draws config server).map (received records))) := by
  have kept := congrArg Prod.fst (kept_run reached server)
  have here : ∀ sender ∈ handledAt ring records draws config server,
      Storable strTime2Unixtime records sender :=
    fun sender member => storable sender (List.mem_filter.mp member).1
  dsimp only at kept
  rw [kept]
  refine readFromRocksdb_foldl_keep lawful json registered Trie.new ?_ ?_ ?_ low high bounded
    readable <;> (rw [List.forall_mem_map]; intro sender member)
  · exact forall_mem_received records (here sender member).free (by decide) (by decide)
  · exact forall_mem_received records (here sender member).bars (by decide) (by decide)
  · exact (here sender member).dated

/-- What all nodes of the ring answer. -/
theorem flatMap_rows_perm (closed : ring.Closed) (nodup : ring.servers.Nodup) :
    (ring.servers.flatMap fun server =>
        (readFromRocksdb rocksdb cjson (config.state server).storager type st ed).getD []).Perm
      (sortedRows strTime2Unixtime type st ed
        ((handledSenders config).map (received records))) := by
  simp only [readFromRocksdb_run reached lawful json registered storable low high bounded readable,
    Option.getD_some]
  refine (List.Perm.flatMap_left _ fun server _ => sortedRows_perm ..).trans ?_
  refine .trans ?_ (sortedRows_perm ..).symm
  rw [← List.map_flatMap, ← List.filter_flatMap, ← List.map_flatMap]
  exact (((flatMap_handledAt_perm reached closed nodup).map _).filter _).map _

/-- A record whose `Transmit` has returned is in the answer of some node. -/
theorem exists_row_of_ended (closed : ring.Closed) (nodup : ring.servers.Nodup) {sender : Sender}
    (ended : config.phase sender = .ended)
    (application : keptApplication (received records sender) = type)
    (first : st ≤ keptTime strTime2Unixtime (received records sender))
    (last : keptTime strTime2Unixtime (received records sender) ≤ ed) :
    ∃ server ∈ ring.servers, ∃ rows,
      readFromRocksdb rocksdb cjson (config.state server).storager type st ed = some rows ∧
        (received records sender).mapValues FlatJson.escape ∈ rows := by
  have member : (received records sender).mapValues FlatJson.escape ∈
      sortedRows strTime2Unixtime type st ed
        ((handledSenders config).map (received records)) := by
    refine (sortedRows_perm ..).mem_iff.mpr (List.mem_map_of_mem (List.mem_filter.mpr ⟨?_, ?_⟩))
    · exact List.mem_map_of_mem (mem_handledSenders_of_ended reached ended)
    · exact decide_eq_true ⟨application, first, last⟩
  have all := flatMap_rows_perm reached lawful json registered storable low high bounded readable
    closed nodup
  obtain ⟨server, listed, shown⟩ := List.mem_flatMap.mp (all.mem_iff.mpr member)
  have rows := readFromRocksdb_run reached lawful json registered storable low high bounded
    readable server
  exact ⟨server, listed, _, rows, by rwa [rows, Option.getD_some] at shown⟩

end Rows

end Kept

/-! ### A cluster of two nodes -/

/-- Two servers that receive records of the weather. -/
def weatherRing : ConsistentHash :=
  ConsistentHash.build ConsistentHash.fnv1Hash32 [bytes "a", bytes "b"] 1 []

/-- One record, which is handled twice since the first reply is lost. -/
def weatherActions : List (Action Unit (Str × SetCheckListConfigRequest)) :=
  [.send (), .deliver () 0, .loseReply () 0, .fail () 0, .send (), .deliver () 1, .receive () 1]

/-- The calls of the sender of this record. -/
def weatherStep : Config Unit (Nodes (Option Nat → OrderedMap Str (List Str))) →
    Action Unit (Str × SetCheckListConfigRequest) →
      Option (Config Unit (Nodes (Option Nat → OrderedMap Str (List Str)))) :=
  step RocksDB.table CJson.flat (fun _ => 1500000000) ⟨fun _ => true, fun _ _ => none⟩ weatherRing
    (fun _ => Transmission.weatherRecord) fun _ => 0

end Cluster

end LogProcess
