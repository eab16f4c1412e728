import LogProcess.Platform.Transmit
import LogProcess.Process.ClusterQueries

/-! # Judging a query

`JudgeQueryTrie` of `controllers/alarm.go` asks all process nodes how often a query was counted,
adds up the counters and sends a mail when there are any, while the nodes go on handling records.
For a query without null characters, a mail is only sent when some node has counted the query, and
it is sent when a record that was handled before the call is counted under the code of the query on
one of the nodes, unless a node was asked in vain (`JudgeQueryTrie.judges`).
-/

namespace LogProcess

/-- The texts between the nodes and the platform: the response as JSON, and the number that
`json.Unmarshal` finds for the counter, which is zero for a text without one. -/
structure CountJson where
  body : GetLogProcessStatResponse → Str
  count : Str → Nat

/-- The counter of a response without rows, which is a `uint64`, is found, and there is none in the
error messages. -/
structure CountJson.Lawful (json : CountJson) : Prop where
  count_body : ∀ count < 2 ^ 64,
    json.count (json.body { status := .succeed, count := count }) = count
  count_requestErrmsg : json.count Transmit.requestErrmsg = 0
  count_readErrmsg : json.count Transmit.readErrmsg = 0

namespace JudgeQueryTrie

open RetryRpc Cluster FanOut ProcessImpl QueryFreqStat Transmit

section Model

variable {Database Sender : Type} [DecidableEq Sender] (rocksdb : RocksDB Database) (cjson : CJson)
  (strTime2Unixtime : Str → Int) (regex : Regex) (std : Sorting.StdSort Kvpairs)
  (searchCookie : Str → Int → Int → Option (List (Int × Str))) (unixTime2Str : Int → Str)
  (ring : ConsistentHash) (records : Sender → OrderedMap Str Str × OrderedMap Str Bool)
  (draws : Sender → BitVec 32) (json : CountJson) (parses : Str → Bool) (query srcid : Str)

/-- The request of `JudgeFromQueryTrie`. -/
def postarg : GetLogProcessStatRequest where
  querystr := some query
  srcid := some srcid
  getfrom := .queryTrie
  startime := 1501841400
  endtime := 1501841400

/-- The reply of the node at an address, which does not change it. -/
def serve (addr : Str) (state : RetryRpc.Config Sender (Nodes Database)) :
    Option (Str × RetryRpc.Config Sender (Nodes Database)) :=
  (getLogProcessStat rocksdb cjson regex std (state.state addr).storager (state.state addr).qftree
    searchCookie unixTime2Str (postarg query srcid)).map fun response => (json.body response, state)

/-- The addresses in the configuration of the platform. -/
def addresses (dataprocessAddrs : Str) : List Str := Str.fields 44 dataprocessAddrs

/-- The calls of `JudgeFromQueryTrie` for all addresses, while the nodes handle records. -/
def step (dataprocessAddrs : Str) :
    FanOut.Config Str RemoteResult (RetryRpc.Config Sender (Nodes Database)) →
      FanOut.Action Reply (RetryRpc.Action Sender (Str × SetCheckListConfigRequest)) →
        Option (FanOut.Config Str RemoteResult (RetryRpc.Config Sender (Nodes Database))) :=
  multi (bytes "process.ProcessService.") (bytes "GetLogProcessStat") parses
    (serve rocksdb cjson regex std searchCookie unixTime2Str json query srcid)
    (fun _ state => state)
    (fun event config =>
      Cluster.step rocksdb cjson strTime2Unixtime regex ring records draws config event)
    (addresses dataprocessAddrs)

/-- The sum of the counters, which is a `uint64`. -/
def cnt (received : List RemoteResult) : BitVec 64 :=
  received.foldl (fun cnt res => cnt + BitVec.ofNat 64 (json.count res.result)) 0

/-- What is returned, and whether a mail is sent. -/
def judge (received : List RemoteResult) : Bool := 0 < cnt json received

end Model

/-! ### The sum of the counters -/

section Sum

variable {json : CountJson}

theorem toNat_cnt (received : List RemoteResult) :
    (cnt json received).toNat = (received.map fun res => json.count res.result).sum % 2 ^ 64 := by
  induction received using List.reverseRecOn with
  | nil => rfl
  | append_singleton received res ih =>
      rw [cnt, List.foldl_concat, ← cnt, BitVec.toNat_add, ih, BitVec.toNat_ofNat, List.map_append,
        List.sum_append, List.map_singleton, List.sum_singleton, ← Nat.add_mod]

theorem judge_eq_true_iff {received : List RemoteResult}
    (small : ∀ res ∈ received, json.count res.result < 2 ^ 32) (few : received.length ≤ 2 ^ 32) :
    judge json received = true ↔ ∃ res ∈ received, json.count res.result ≠ 0 := by
  have bounded : (received.map fun res => json.count res.result).sum < 2 ^ 64 := by
    have most := List.sum_le_card_nsmul (received.map fun res => json.count res.result)
      (2 ^ 32 - 1) fun count member => by
        obtain ⟨res, listed, rfl⟩ := List.mem_map.mp member
        exact Nat.le_sub_one_of_lt (small res listed)
    rw [List.length_map, smul_eq_mul] at most
    have product : received.length * (2 ^ 32 - 1) ≤ 2 ^ 32 * (2 ^ 32 - 1) :=
      Nat.mul_le_mul_right _ few
    omega
  rw [judge, decide_eq_true_eq, BitVec.lt_def, toNat_cnt, Nat.mod_eq_of_lt bounded]
  refine Nat.pos_iff_ne_zero.trans ?_
  rw [ne_eq, List.sum_eq_zero_iff, List.forall_mem_map]
  push Not
  rfl

end Sum

/-! ### Handled records -/

section Handled

variable {Database Sender : Type} [DecidableEq Sender] {rocksdb : RocksDB Database} {cjson : CJson}
  {strTime2Unixtime : Str → Int} {regex : Regex} {std : Sorting.StdSort Kvpairs}
  {searchCookie : Str → Int → Int → Option (List (Int × Str))} {unixTime2Str : Int → Str}
  {ring : ConsistentHash} {records : Sender → OrderedMap Str Str × OrderedMap Str Bool}
  {draws : Sender → BitVec 32} {json : CountJson} {parses : Str → Bool} {query srcid : Str}
  {types : List Str}

variable (rocksdb cjson strTime2Unixtime regex ring records draws types) in
/-- The nodes have been started and have handled records since. -/
def Running (state : RetryRpc.Config Sender (Nodes Database)) : Prop :=
  ∃ actions, Runs.run (Cluster.step rocksdb cjson strTime2Unixtime regex ring records draws)
    (RetryRpc.start fun _ => ProcessServer.startup rocksdb types) actions = some state

/-- Handled records stay handled. -/
theorem Running.step {state after : RetryRpc.Config Sender (Nodes Database)}
    {event : RetryRpc.Action Sender (Str × SetCheckListConfigRequest)}
    (running : Running rocksdb cjson strTime2Unixtime regex ring records draws types state)
    (stepped : Cluster.step rocksdb cjson strTime2Unixtime regex ring records draws state event =
      some after) :
    Running rocksdb cjson strTime2Unixtime regex ring records draws types after ∧
      handledSenders state <+: handledSenders after := by
  obtain ⟨actions, reached⟩ := running
  refine ⟨⟨actions ++ [event], Runs.run_append_singleton reached stepped⟩, ?_⟩
  rcases RetryRpc.handled_step stepped with ⟨sender, attempt, _, _, added⟩ | ⟨same, _⟩
  · rw [handledSenders, handledSenders, added, List.map_append]
    exact List.prefix_append _ _
  · rw [handledSenders, handledSenders, same]

/-- A counter of a node is a `uint32_t`. -/
theorem Running.searchExists_lt {state : RetryRpc.Config Sender (Nodes Database)}
    (running : Running rocksdb cjson strTime2Unixtime regex ring records draws types state)
    (addr query srcid : Str) :
    (searchExists (state.state addr).qftree query srcid).2 < 2 ^ 64 := by
  obtain ⟨_, ran⟩ := running
  rw [searchExists_handledAt ran]
  exact (Nat.mod_lt _ (Nat.two_pow_pos 32)).trans (by decide)

omit [DecidableEq Sender] in
/-- The reply of a node is its counter. -/
theorem serve_eq (inside : HashesInside query) (addr : Str)
    (state : RetryRpc.Config Sender (Nodes Database)) :
    serve rocksdb cjson regex std searchCookie unixTime2Str json query srcid addr state =
      some (json.body
        { status := .succeed, count := (searchExists (state.state addr).qftree query srcid).2 },
          state) := by
  rw [serve, getLogProcessStat, postarg]
  dsimp only
  rw [if_pos inside, Option.map_some]

omit [DecidableEq Sender] in
/-- What is found in a result, and that asking changes nothing. -/
theorem count_answer (lawful : json.Lawful) (inside : HashesInside query)
    {service method addr : Str} {reply : Reply}
    {state after : RetryRpc.Config Sender (Nodes Database)} {res : RemoteResult}
    (small : (searchExists (state.state addr).qftree query srcid).2 < 2 ^ 64)
    (answered : answer service method parses
      (serve rocksdb cjson regex std searchCookie unixTime2Str json query srcid)
      (fun _ state => state) addr reply state = some (res, after)) :
    after = state ∧ (json.count res.result = 0 ∧ ¬Succeeded res ∨
      json.count res.result = (searchExists (state.state addr).qftree query srcid).2) := by
  obtain ⟨_, ⟨failed, unchanged⟩ | served⟩ := answer_eq_some answered
  · refine ⟨?_, .inl ⟨?_, ?_⟩⟩
    · rcases unchanged with same | ⟨body, served⟩
      · exact same
      · rw [serve_eq inside] at served
        exact (Prod.mk.inj (Option.some.inj served)).2.symm
    · rcases failed with text | text
      · rw [text, lawful.count_requestErrmsg]
      · rw [text, lawful.count_readErrmsg]
    · exact fun succeeded => failed.elim succeeded.1 succeeded.2
  · rw [serve_eq inside] at served
    obtain ⟨body, same⟩ := Prod.mk.inj (Option.some.inj served)
    exact ⟨same.symm, .inr (by rw [← body, lawful.count_body _ small])⟩

variable (records query) in
/-- A record that was handled is counted under the code of the query. -/
def CountedIn (state : RetryRpc.Config Sender (Nodes Database)) : Prop :=
  ∃ sender ∈ handledSenders state, codeOf records sender = some (searchedCode query)

variable {dataprocessAddrs : Str} {state : RetryRpc.Config Sender (Nodes Database)}
  {actions : List (FanOut.Action Reply (RetryRpc.Action Sender (Str × SetCheckListConfigRequest)))}
  {config : FanOut.Config Str RemoteResult (RetryRpc.Config Sender (Nodes Database))}
  (running : Running rocksdb cjson strTime2Unixtime regex ring records draws types state)
  (lawful : json.Lawful) (free : 0 ∉ query)
  (reached : Runs.run (step rocksdb cjson strTime2Unixtime regex std searchCookie unixTime2Str ring
    records draws json parses query srcid dataprocessAddrs)
      (FanOut.start (addresses dataprocessAddrs) state) actions = some config)
include running lawful free reached

/-- A counter that is found belongs to a record that was handled by then. -/
theorem countedIn_of_count : ∀ entry ∈ config.sent, json.count entry.2.result < 2 ^ 32 ∧
    (json.count entry.2.result ≠ 0 → CountedIn records query config.state) := by
  have claimed := (FanOut.forall_sent
    (Running rocksdb cjson strTime2Unixtime regex ring records draws types)
    (fun state _ res => json.count res.result < 2 ^ 32 ∧
      (json.count res.result ≠ 0 → CountedIn records query state)) ?_ ?_ running reached).2
  · exact fun entry member => claimed entry (List.mem_append_right _ member)
  · intro addr reply state res after held _ answered
    obtain ⟨rfl, ⟨zero, _⟩ | counted⟩ :=
      count_answer lawful (hashesInside_of_free free) (held.searchExists_lt ..) answered
    · refine ⟨held, ⟨?_, fun some => absurd zero some⟩, fun _ _ => id⟩
      rw [zero]
      exact Nat.two_pow_pos 32
    · obtain ⟨_, ran⟩ := id held
      rw [searchExists_handledAt ran] at counted
      refine ⟨held, ⟨counted ▸ Nat.mod_lt _ (Nat.two_pow_pos 32), fun some => ?_⟩, fun _ _ => id⟩
      have positive : 0 < (handledAt ring records draws after addr).countP
          fun sender => codeOf records sender = Option.some (searchedCode query) := by
        by_contra zero
        rw [counted, Nat.eq_zero_of_not_pos zero] at some
        exact some rfl
      obtain ⟨sender, member, code⟩ := List.countP_pos_iff.mp positive
      exact ⟨sender, (List.mem_filter.mp member).1, of_decide_eq_true code⟩
  · intro event state after held stepped
    obtain ⟨next, grows⟩ := held.step stepped
    refine ⟨next, fun _ _ => And.imp_right fun counted some => ?_⟩
    obtain ⟨sender, member, code⟩ := counted some
    exact ⟨sender, grows.subset member, code⟩

/-- A node that has counted the query before it is asked finds a counter, unless it is asked in
vain. -/
theorem count_ne_zero {sender : Sender} {server : Str}
    (handled : sender ∈ handledSenders state)
    (counted : codeOf records sender = some (searchedCode query))
    (routed : getProcessSerer ring records draws sender = some server)
    (few : (handledSenders config.state).length < 2 ^ 32) :
    ∀ entry ∈ config.sent, entry.1 = server → Succeeded entry.2 →
      json.count entry.2.result ≠ 0 := by
  have claimed := (FanOut.forall_sent
    (fun state => Running rocksdb cjson strTime2Unixtime regex ring records draws types state ∧
      sender ∈ handledSenders state)
    (fun state addr res => (handledSenders state).length < 2 ^ 32 → addr = server →
      Succeeded res → json.count res.result ≠ 0) ?_ ?_ ⟨running, handled⟩ reached).2
  · exact fun entry member => claimed entry (List.mem_append_right _ member) few
  · rintro addr reply state res after ⟨held, member⟩ _ answered
    obtain ⟨rfl, ⟨_, failed⟩ | found⟩ :=
      count_answer lawful (hashesInside_of_free free) (held.searchExists_lt ..) answered
    · exact ⟨⟨held, member⟩, fun _ _ succeeded => absurd succeeded failed, fun _ _ => id⟩
    · refine ⟨⟨held, member⟩, fun few same _ => ?_, fun _ _ => id⟩
      obtain ⟨_, ran⟩ := held
      have small := (List.countP_le_length
        (p := fun sender => codeOf records sender = some (searchedCode query))
        (l := handledAt ring records draws after addr)).trans (List.length_filter_le ..)
      rw [found, searchExists_handledAt ran, Nat.mod_eq_of_lt (small.trans_lt few)]
      refine (List.countP_pos_iff.mpr ⟨sender, List.mem_filter.mpr ⟨member, ?_⟩, ?_⟩).ne'
      · rw [same]
        exact decide_eq_true routed
      · exact decide_eq_true counted
  · rintro event state after ⟨held, member⟩ stepped
    obtain ⟨next, grows⟩ := held.step stepped
    exact ⟨⟨next, grows.subset member⟩, fun _ _ claimed few => claimed
      (grows.length_le.trans_lt few)⟩

end Handled

/-! ### A query of the weather -/

/-- What stands before the counter of a response that succeeds. -/
def countHeader : Str := bytes "\x7b\"status\":\"SUCCEED\",\"count\":"

/-- Responses that succeed and have no rows. -/
def plainJson : CountJson where
  body := fun response => countHeader ++ (Decimal.text response.count ++ bytes "\x7d")
  count := fun text =>
    if countHeader.isPrefixOf text then
      Decimal.value ((text.drop countHeader.length).takeWhile Decimal.isDigit)
    else 0

theorem plainJson_lawful : plainJson.Lawful where
  count_body := by
    intro count _
    have header : countHeader.isPrefixOf
        (countHeader ++ (Decimal.text count ++ bytes "\x7d")) = true :=
      List.isPrefixOf_iff_prefix.mpr (List.prefix_append _ _)
    have digits : (Decimal.text count ++ bytes "\x7d").takeWhile Decimal.isDigit =
        Decimal.text count := by
      rw [List.takeWhile_append_of_pos fun char member => Decimal.isDigit_of_mem_text member]
      exact List.append_nil _
    rw [plainJson]
    dsimp only
    rw [if_pos header, List.drop_left, digits, Decimal.value_text]
  count_requestErrmsg := by decide
  count_readErrmsg := by decide

/-- The nodes that are asked for a query that was counted twice. -/
def weatherJudge : FanOut.Config Str RemoteResult (RetryRpc.Config Unit
    (Nodes (Option Nat → OrderedMap Str (List Str)))) →
      FanOut.Action Reply (RetryRpc.Action Unit (Str × SetCheckListConfigRequest)) →
        Option (FanOut.Config Str RemoteResult (RetryRpc.Config Unit
          (Nodes (Option Nat → OrderedMap Str (List Str))))) :=
  step RocksDB.table CJson.flat (fun _ => 1500000000) ⟨fun _ => true, fun _ _ => none⟩
    (Sorting.StdSort.insertion Kvpairs) (fun _ _ _ => some []) (fun _ => []) weatherRing
    (fun _ : Unit => Transmission.weatherRecord) (fun _ => 0) plainJson (fun _ => true)
    (bytes "a") [] (bytes "a,b")

end JudgeQueryTrie

end LogProcess
