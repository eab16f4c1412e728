import LogProcess.Foundation.Decisions
import LogProcess.Process.Cluster

/-! # Queries in the cluster

Records are routed by their queries, and the ring uses the hash under which a node counts a query.
A query that the ring covers is therefore counted on one node, which has counted what a single node
would have counted that had handled all records, and the counters of all nodes add up to the number
of counted records however they were routed, if the query has no null characters
(`Cluster.searchExists_run`). In the same way each node reports the queries that a single node would
have reported (`Cluster.kuozhaos_run`).
-/

namespace LogProcess.Cluster

open RetryRpc ProcessImpl QueryFreqStat

/-! ### Counted and asking records -/

section Records

variable {Sender : Type} (ring : ConsistentHash)
  (records : Sender → OrderedMap Str Str × OrderedMap Str Bool) (draws : Sender → BitVec 32)

/-- A query whose hashes agree on the preprocessing and on the process nodes, and whose hash is not
above all virtual nodes. -/
structure Located (query : Str) : Prop where
  free : 0 ∉ query
  short : query.length < 2 ^ 31
  covered : ∃ vnode ∈ ring.serverNodesVnodes.entries,
    ConsistentHash.hashcode ConsistentHash.fnv1Hash32 query ≤ vnode.1

/-- The queries of the records have lengths of type `int`. -/
def Short : Prop := ∀ sender, ∀ query ∈ (records sender).1.find? (bytes "query"),
  query.length < 2 ^ 31

/-- The code under which the record of a sender is counted. -/
def codeOf (sender : Sender) : Option (BitVec 32) := countedCode (received records sender)

/-- The code under which a query is searched. -/
def searchedCode (query : Str) : BitVec 32 :=
  QueryFreqStat.fnv1Hash32 query.cstr (int32 query.length)

variable {ring records}

theorem fnv1Hash32_of_short {query : Str} (short : query.length < 2 ^ 31) :
    QueryFreqStat.fnv1Hash32 query (int32 query.length) = ConsistentHash.fnv1Hash32 query := by
  rw [QueryFreqStat.fnv1Hash32, int32_eq_self (by omega) (by omega), Int.toNat_natCast]
  rfl

/-- A query without null characters is searched under the code of the records that have it. -/
theorem searchedCode_of_free {query : Str} (free : 0 ∉ query) :
    searchedCode query = QueryFreqStat.fnv1Hash32 query (int32 query.length) := by
  rw [searchedCode, Str.cstr_eq_self free]

theorem Located.searchedCode_eq {query : Str} (located : Located ring query) :
    searchedCode query = ConsistentHash.fnv1Hash32 query := by
  rw [searchedCode_of_free located.free, fnv1Hash32_of_short located.short]

theorem find?_query_received (sender : Sender) : (received records sender).find? (bytes "query") =
    if IsTransmitted (records sender).2 (bytes "query") then
      (records sender).1.find? (bytes "query") else none :=
  find?_received records sender (by decide) (by decide)

/-- A counted record is routed by the query that it is counted for. -/
theorem codeOf_eq_some (short : Short records) {sender : Sender} {code : BitVec 32}
    (counted : codeOf records sender = some code) :
    code = ConsistentHash.fnv1Hash32 (((records sender).1.find? (bytes "query")).getD []) := by
  obtain ⟨query, found, hashed, _⟩ := (countedCode_eq_some_iff ..).mp counted
  rw [find?_query_received, Option.ite_none_right_eq_some] at found
  rw [found.2, Option.getD_some, ← hashed, fnv1Hash32_of_short (short sender query found.2)]

/-- Records that are counted under the code of a located query are routed like this query. -/
theorem Located.getProcessSerer_eq {query : Str} (located : Located ring query)
    (short : Short records) {sender : Sender}
    (counted : codeOf records sender = some (searchedCode query)) (rd : BitVec 32) :
    getProcessSerer ring records draws sender =
      ring.getServerNode ConsistentHash.fnv1Hash32 query rd := by
  have same := located.searchedCode_eq.symm.trans (codeOf_eq_some short counted)
  exact (ConsistentHash.getServerNode_congr _ same located.covered rd (draws sender)).symm

variable (records) in
/-- What a node finds that has handled the records of some senders. -/
theorem searchExists_foldl (senders : List Sender) (query srcid : Str) :
    (searchExists ((senders.map (received records)).foldl updataQueryFreqStat Trie.new)
      query srcid).2 =
        senders.countP (fun sender => codeOf records sender = some (searchedCode query)) %
          2 ^ 32 := by
  rw [searchExists, foldl_updataQueryFreqStat, Trie.search_foldl_insert_snd, List.filterMap_map,
    List.count_filterMap]
  refine congrArg (· % 2 ^ 32) (List.countP_congr fun sender _ => ?_)
  rw [beq_iff_eq, decide_eq_true_eq]
  rfl

end Records

/-! ### Counters -/

section Counters

variable {Database Sender : Type} [DecidableEq Sender] {rocksdb : RocksDB Database}
  {cjson : CJson} {strTime2Unixtime : Str → Int} {regex : Regex} {ring : ConsistentHash}
  {records : Sender → OrderedMap Str Str × OrderedMap Str Bool} {draws : Sender → BitVec 32}

variable {types : List Str} {actions : List (Action Sender (Str × SetCheckListConfigRequest))}
  {config : Config Sender (Nodes Database)}
  (reached : Runs.run (step rocksdb cjson strTime2Unixtime regex ring records draws)
    (start fun _ => ProcessServer.startup rocksdb types) actions = some config)
include reached

theorem searchExists_handledAt (server query srcid : Str) :
    (searchExists (config.state server).qftree query srcid).2 =
      (handledAt ring records draws config server).countP
        (fun sender => codeOf records sender = some (searchedCode query)) % 2 ^ 32 := by
  have kept := view_run (fun node => node.qftree)
    (fun tree sender => updataQueryFreqStat tree (received records sender))
    (fun received => congrArg Prod.snd (keep_of_dataReceive received)) (fun _ _ => rfl) reached
    server
  rw [kept, ← List.foldl_map]
  exact searchExists_foldl records _ query srcid

/-- **Counters of the cluster.** For a located query its server finds the number of all handled
records that are counted under the hash of the query, and every other server finds none. For any
query without null characters the servers of the ring together find this number. -/
theorem searchExists_run (short : Short records) (few : (handledSenders config).length < 2 ^ 32)
    {query : Str} (free : 0 ∉ query) (srcid : Str) :
    (Located ring query → ∀ server, (searchExists (config.state server).qftree query srcid).2 =
      if ring.getServerNode ConsistentHash.fnv1Hash32 query 0 = some server then
        (handledSenders config).countP (fun sender => codeOf records sender =
          some (QueryFreqStat.fnv1Hash32 query (int32 query.length)))
      else 0) ∧
    (ring.Closed → ring.servers.Nodup →
      (ring.servers.map fun server =>
        (searchExists (config.state server).qftree query srcid).2).sum =
          (handledSenders config).countP (fun sender => codeOf records sender =
            some (QueryFreqStat.fnv1Hash32 query (int32 query.length)))) := by
  rw [← searchedCode_of_free free]
  have exact (server : Str) : (searchExists (config.state server).qftree query srcid).2 =
      (handledAt ring records draws config server).countP
        fun sender => codeOf records sender = some (searchedCode query) := by
    rw [searchExists_handledAt reached, Nat.mod_eq_of_lt]
    exact (List.countP_le_length.trans (List.length_filter_le ..)).trans_lt few
  refine ⟨fun located server => ?_, fun closed nodup => ?_⟩
  · rw [exact, handledAt, List.countP_filter]
    split_ifs with here
    · refine List.countP_congr fun sender _ => ?_
      rw [Bool.and_eq_true, decide_eq_true_eq, decide_eq_true_eq]
      refine and_iff_left_of_imp fun counted => ?_
      rw [located.getProcessSerer_eq draws short counted 0, here]
    · refine List.countP_eq_zero.mpr fun sender _ both => here ?_
      rw [Bool.and_eq_true, decide_eq_true_eq, decide_eq_true_eq] at both
      rw [← located.getProcessSerer_eq draws short both.1 0, both.2]
  · simp only [exact]
    rw [← (flatMap_handledAt_perm reached closed nodup).countP_eq, List.countP_flatMap]
    rfl

end Counters

/-- A record that was handled twice is counted twice. -/
theorem searchExists_run_of_weather :
    ∃ config, Runs.run weatherStep
        (start fun _ => ProcessServer.startup RocksDB.table [bytes "weather"]) weatherActions =
          some config ∧
      (weatherRing.servers.map fun server =>
        (searchExists (config.state server).qftree (bytes "a") []).2).sum = 2 := by
  obtain ⟨config, reached, twice⟩ : ∃ config, Runs.run weatherStep
      (start fun _ => ProcessServer.startup RocksDB.table [bytes "weather"]) weatherActions =
        some config ∧ handledSenders config = [(), ()] := ⟨_, rfl, rfl⟩
  refine ⟨config, reached, ((searchExists_run reached (fun _ => by decide)
    (twice ▸ by decide) (by decide : 0 ∉ bytes "a") []).2 (ConsistentHash.closed_build _ _ _ _)
      (by decide)).trans ?_⟩
  rw [twice]
  decide

/-! ### Reports -/

section Reports

variable {Sender : Type} (records : Sender → OrderedMap Str Str × OrderedMap Str Bool)

/-- The queries that are handed to the threads that report them. -/
def kuozhaos (alarms : List Alarm) : List Str :=
  alarms.filterMap fun alarm => match alarm with
    | .kuozhao query => some query
    | .abnormal _ _ => none

/-- The query of a record. -/
def queryOf (sender : Sender) : Str := ((received records sender).find? (bytes "query")).getD []

/-- The record of a sender is one of those whose queries are reported when they were not
counted. -/
def Asks (sender : Sender) : Prop :=
  ((received records sender).find? (bytes "srcid")).getD [] = bytes "4514" ∧
    ((received records sender).find? (bytes "resno")).getD [] = []

instance : DecidablePred (Asks records) := fun _ => inferInstanceAs (Decidable (_ ∧ _))

/-- The counters after the record of a sender. -/
def count (qftree : Trie) (sender : Sender) : Trie :=
  updataQueryFreqStat qftree (received records sender)

/-- What a node reports that has counted the earlier records. -/
def report (qftree : Trie) (sender : Sender) : Option Str :=
  if Asks records sender ∧ (searchExists (count records qftree sender) (queryOf records sender)
      (((received records sender).find? (bytes "srcid")).getD [])).2 = 0 then
    some (queryOf records sender)
  else none

/-- The report for a record behind some earlier ones: its query, when it asks and none of the
earlier records was counted under the code of the query. -/
def reportOf (earlier : List Sender) (sender : Sender) : Option Str :=
  if Asks records sender ∧ ∀ other ∈ earlier,
      codeOf records other ≠ some (searchedCode (queryOf records sender)) then
    some (queryOf records sender)
  else none

variable {records}

/-- A record that asks is not counted. -/
theorem Asks.codeOf_eq_none {sender : Sender} (asks : Asks records sender) :
    codeOf records sender = none := by
  rw [Option.eq_none_iff_forall_ne_some]
  intro code counted
  obtain ⟨_, _, _, ⟨srcid, found, other⟩, _⟩ := (countedCode_eq_some_iff ..).mp counted
  have same := asks.1
  rw [found, Option.getD_some] at same
  exact other same

/-- What a node decides with its counters. -/
theorem report_foldl {earlier : List Sender} (few : earlier.length < 2 ^ 32) (sender : Sender) :
    report records (earlier.foldl (count records) Trie.new) sender =
      reportOf records earlier sender := by
  rw [report, reportOf]
  refine if_congr (and_congr_right fun asks => ?_) rfl rfl
  have uncounted := asks.codeOf_eq_none
  have folded : earlier.foldl (count records) Trie.new =
      (earlier.map (received records)).foldl updataQueryFreqStat Trie.new := by
    rw [List.foldl_map]
    rfl
  rw [codeOf] at uncounted
  rw [count, updataQueryFreqStat_eq, uncounted, Option.elim_none, folded,
    searchExists_foldl records, Nat.mod_eq_of_lt (List.countP_le_length.trans_lt few),
    List.countP_eq_zero]
  exact forall₂_congr fun other _ => not_congr decide_eq_true_iff

end Reports

section ReportRuns

variable {Database Sender : Type} [DecidableEq Sender] {rocksdb : RocksDB Database}
  {cjson : CJson} {strTime2Unixtime : Str → Int} {regex : Regex} {ring : ConsistentHash}
  {records : Sender → OrderedMap Str Str × OrderedMap Str Bool} {draws : Sender → BitVec 32}

theorem kuozhaos_append (first second : List Alarm) :
    kuozhaos (first ++ second) = kuozhaos first ++ kuozhaos second := List.filterMap_append

/-- The rules report no queries. -/
theorem kuozhaos_checkAbnormal {checklists : Checklists} {type : Str} {request : TransmitRequest}
    {kv : Kvpairs} {alarms : List Alarm}
    (checked : checkAbnormal checklists type request kv = .ok alarms) : kuozhaos alarms = [] := by
  refine Fallible.invariant_of_foldlM (fun alarms => kuozhaos alarms = []) ?_ rfl checked
  intro alarms i next none stepped
  obtain ⟨⟨abnormal, description⟩, _, same⟩ := (Fallible.bind_eq_ok_iff ..).mp stepped
  obtain rfl := (Fallible.pure_eq_ok_iff ..).mp same
  split
  · rw [kuozhaos_append, none]
    rfl
  · exact none

omit [DecidableEq Sender] in
/-- A search that is inside reports the query under the condition of a report. -/
theorem kuozhaos_searchKuozhao {sender : Sender} {qftree : Trie} {kuozhao : List Alarm}
    (searched : searchKuozhao (count records qftree sender) (received records sender) =
      .ok kuozhao) :
    kuozhaos kuozhao = (report records qftree sender).toList := by
  obtain ⟨_, rfl⟩ := searchKuozhao_eq_ok_iff.mp searched
  rw [report]
  split
  next reports =>
    rw [if_pos (by exact reports)]
    rfl
  next silent =>
    rw [if_neg (by exact silent)]
    rfl

omit [DecidableEq Sender] in
/-- What a handled record does to the counters and the reports of its node. -/
theorem kuozhaos_dataReceive {sender : Sender} {node next : ProcessNode Database}
    {response : TransmitResponse} (answered : dataReceive rocksdb cjson strTime2Unixtime node
      (Transmission.request records sender) = .ok (next, response)) :
    (next.qftree, kuozhaos next.alarms) = (count records node.qftree sender,
      kuozhaos node.alarms ++ (report records node.qftree sender).toList) := by
  obtain ⟨alarms, kuozhao, checked, searched, kept, _, added⟩ := dataReceive_eq_ok answered
  have counted : next.qftree = count records node.qftree sender := congrArg Prod.snd kept
  rw [counted] at searched ⊢
  rw [added, kuozhaos_append, kuozhaos_append, kuozhaos_checkAbnormal checked, List.nil_append,
    kuozhaos_searchKuozhao searched]

variable {types : List Str} {actions : List (Action Sender (Str × SetCheckListConfigRequest))}
  {config : Config Sender (Nodes Database)}
  (reached : Runs.run (step rocksdb cjson strTime2Unixtime regex ring records draws)
    (start fun _ => ProcessServer.startup rocksdb types) actions = some config)
include reached

/-- The reports of a node are those for its own records. -/
theorem kuozhaos_handledAt (few : (handledSenders config).length < 2 ^ 32) (server : Str) :
    kuozhaos (config.state server).alarms =
      Decisions.outputs (reportOf records) [] (handledAt ring records draws config server) := by
  have kept := view_run (fun node => (node.qftree, kuozhaos node.alarms))
    (fun kept sender => (count records kept.1 sender,
      kept.2 ++ (report records kept.1 sender).toList))
    kuozhaos_dataReceive (fun _ _ => rfl) reached server
  refine (congrArg Prod.snd kept).trans (congrArg Prod.snd (Decisions.foldl_eq _ ?_))
  intro before sender after split
  refine report_foldl ?_ sender
  have shorter : before.length ≤ (handledAt ring records draws config server).length := by
    rw [split, List.length_append]
    exact Nat.le_add_right _ _
  exact (shorter.trans (List.length_filter_le ..)).trans_lt few

/-- **Reports of the cluster.** A node reports the queries that a single node would report, of the
records that are routed to it: those that ask for a query under whose code no record was counted
before on any node. -/
theorem kuozhaos_run (short : Short records) (few : (handledSenders config).length < 2 ^ 32)
    (located : ∀ sender, Asks records sender →
      IsTransmitted (records sender).2 (bytes "query") ∧
        Located ring (queryOf records sender)) (server : Str) :
    kuozhaos (config.state server).alarms =
      Decisions.outputs (fun earlier sender =>
        if getProcessSerer ring records draws sender = some server then
          reportOf records earlier sender
        else none) [] (handledSenders config) := by
  rw [kuozhaos_handledAt reached few, handledAt]
  refine Decisions.outputs_filter [] fun before sender after _ here => ?_
  rw [List.nil_append, reportOf, reportOf]
  refine if_congr (and_congr_right fun asks => ?_) rfl rfl
  obtain ⟨leaves, query⟩ := located sender asks
  refine ⟨fun uncounted other member counted => uncounted other (List.mem_filter.mpr
    ⟨member, decide_eq_true ?_⟩) counted, fun uncounted other member =>
      uncounted other (List.mem_filter.mp member).1⟩
  -- a record with the code of the query is routed to the same server
  rw [query.getProcessSerer_eq draws short counted (draws sender), ← here, getProcessSerer,
    queryOf, find?_query_received, if_pos leaves]

end ReportRuns

/-- A record that asks for a query that the ring covers. -/
def kuozhaoRecord : OrderedMap Str Str × OrderedMap Str Bool :=
  (OrderedMap.ofList [(bytes "application", bytes "weather"), (bytes "type", bytes "old"),
      (bytes "query", bytes "k"), (bytes "srcid", bytes "4514"), (bytes "resno", [])],
    OrderedMap.ofList [(bytes "query", true), (bytes "srcid", true), (bytes "resno", true)])

/-- The query of a single record is reported. -/
theorem kuozhaos_run_of_one_record :
    ∃ config, Runs.run (step RocksDB.table CJson.flat (fun _ => 1500000000)
        ⟨fun _ => true, fun _ _ => none⟩ weatherRing (fun _ : Unit => kuozhaoRecord) fun _ => 0)
        (start fun _ => ProcessServer.startup RocksDB.table [bytes "weather"])
          [.send (), .deliver () 0] = some config ∧
      kuozhaos (config.state (bytes "a")).alarms = [bytes "k"] := by
  obtain ⟨config, reached, once⟩ : ∃ config, Runs.run (step RocksDB.table CJson.flat
      (fun _ => 1500000000) ⟨fun _ => true, fun _ _ => none⟩ weatherRing
      (fun _ : Unit => kuozhaoRecord) fun _ => 0)
        (start fun _ => ProcessServer.startup RocksDB.table [bytes "weather"])
          [.send (), .deliver () 0] = some config ∧ handledSenders config = [()] := ⟨_, rfl, rfl⟩
  refine ⟨config, reached, (kuozhaos_run reached (fun _ => by decide) (once ▸ by decide)
    (fun () _ => ⟨by decide, by decide, by decide, (1705625969, bytes "a"), by decide,
      by decide⟩) (bytes "a")).trans ?_⟩
  rw [once]
  decide

end LogProcess.Cluster
