import LogProcess.Foundation.RpcReply
import LogProcess.Preprocess.FieldConfig
import LogProcess.Process.DataReceive
import LogProcess.Process.LogProcessStat

/-! # Calls of a process server

The handlers of `process/process_impl.cc` with their closures. The one thread of the server runs
one handler after another. A call is completed unless an exception or an undefined read ends its
handler, or it asks for a rule at the last index or behind it, which is never answered
(`ProcessServer.completesExactly_startup`). A handler ends so for a pattern that `std::regex`
refuses, a list of sids that is too short for the conditions, rows that cannot be sorted, a query
that is hashed behind its end, or a search for a cookie that is not defined.
-/

namespace LogProcess

/-- A response of `GetCheckListConfig` while it is filled in. -/
structure PendingCheckListConfig where
  status : Option ResStatus := none
  cond : List CheckListCond := []

/-- A response of `GetLogProcessStat` while it is filled in. -/
structure PendingLogProcessStat where
  status : Option ResStatus := none
  error : Option Str := none
  count : Nat := 0
  iteminfos : List (List MapEntry) := []

namespace ProcessImpl

/-! ### The handlers with their closures -/

section Handlers

variable {Database : Type} (rocksdb : RocksDB Database) (cjson : CJson)
  (strTime2Unixtime : Str → Int) (regex : Regex) (std : Sorting.StdSort Kvpairs)
  (searchCookie : Str → Int → Int → Option (List (Int × Str))) (unixTime2Str : Int → Str)

/-- `set_status` and `set_error`. -/
def setFailed (text : Str) (response : StatusResponse) : StatusResponse :=
  { response with status := some .failed, error := some text }

def dataReceiveRpc (node : ProcessNode Database) (request : TransmitRequest)
    (reply : RpcReply StatusResponse) :
    Except CheckFault (ProcessNode Database × RpcReply StatusResponse) := do
  let (next, _) ← dataReceive rocksdb cjson strTime2Unixtime node request
  pure (next, (reply.modify fun response => { response with status := some .succeed }).run)

def setCheckListConfigRpc (checklists : Checklists) (request : SetCheckListConfigRequest)
    (reply : RpcReply StatusResponse) : Checklists × RpcReply StatusResponse :=
  let (checklists, reply) :=
    if !request.op then
      match request.index with
      | some index =>
          if 0 < index then
            (delCheckList checklists request.application (index - 1),
              reply.modify fun response => { response with status := some .succeed })
          else (checklists, reply.modify (setFailed (bytes "invalid index")))
      | none => (checklists, reply.modify (setFailed (bytes "missing index")))
    else
      let newitem := makeCheckListItem regex request.cond
      if (getCheckList checklists request.application).any fun i => i.equals newitem then
        (checklists, reply.modify (setFailed (bytes "item already exist")))
      else
        (addCheckList checklists request.application newitem,
          reply.modify fun response => { response with status := some .succeed })
  (checklists, reply.run)

/-- The call of `add_cond` for a rule. -/
def addCond (item : ChecklistItem) (response : PendingCheckListConfig) : PendingCheckListConfig :=
  { response with cond := response.cond ++ [fillCondition item {}] }

/-- `GetCheckListConfig`, which runs the closure in two of its three branches. -/
def getCheckListConfigRpc (checklists : Checklists) (request : GetCheckListConfigRequest)
    (reply : RpcReply PendingCheckListConfig) : RpcReply PendingCheckListConfig :=
  let checklists := getCheckList checklists request.application
  if inside : 0 < request.index ∧ request.index.toNat < checklists.length then
    let item := checklists[request.index.toNat - 1]
    let reply := reply.modify (addCond item)
    (reply.modify fun response => { response with status := some .succeed }).run
  else if request.index = 0 then
    let reply := checklists.foldl (fun reply i => reply.modify (addCond i)) reply
    (reply.modify fun response => { response with status := some .succeed }).run
  else reply

/-- The call of `add_iteminfos` for a row. -/
def addIteminfos (entries : List MapEntry) (response : PendingLogProcessStat) :
    PendingLogProcessStat :=
  { response with iteminfos := response.iteminfos ++ [entries] }

/-- The branch for the tree of queries, before the closure. -/
def fillQueryTrie (qftree : Trie) (request : GetLogProcessStatRequest)
    (reply : RpcReply PendingLogProcessStat) : Option (RpcReply PendingLogProcessStat) :=
  match request.querystr, request.srcid with
  | some query, some srcid =>
      if QueryFreqStat.HashesInside query then
        some (reply.modify fun response =>
          { response with
            count := (QueryFreqStat.searchExists qftree query srcid).2, status := some .succeed })
      else none
  | _, _ => some (reply.modify fun response =>
      { response with status := some .failed, error := some (bytes "has not querystr or srcid") })

/-- The branch for Redis, before the closure. -/
def fillRedis (request : GetLogProcessStatRequest) (reply : RpcReply PendingLogProcessStat) :
    Option (RpcReply PendingLogProcessStat) :=
  match request.cookieid with
  | some cookieid => do
      let records ← searchCookie cookieid request.startime.toInt request.endtime.toInt
      let reply := records.foldl (fun reply i =>
        reply.modify (addIteminfos [⟨unixTime2Str i.1, i.2⟩])) reply
      some (reply.modify fun response =>
        { response with count := records.length, status := some .succeed })
  | none => some (reply.modify fun response =>
      { response with status := some .failed, error := some (bytes "has not cookieid") })

/-- `GetLogProcessStat`, without a result when an exception leaves it or a search is not
defined. -/
def getLogProcessStatRpc (storager : OrderedMap Str (StorageImpl Database)) (qftree : Trie)
    (request : GetLogProcessStatRequest) (reply : RpcReply PendingLogProcessStat) :
    Option (RpcReply PendingLogProcessStat) :=
  match request.getfrom with
  | .rocksdb => do
      let raw ← readFromRocksdb rocksdb cjson storager request.application request.startime.toInt
        request.endtime.toInt
      if raw.length = 0 then
        some (reply.modify fun response =>
          { response with count := 0, status := some .succeed }).run
      else
        let res ← selectByConds regex request.cond request.selectfields raw
        let sorted ← sortAndLimit std request res
        let reply := reply.modify fun response =>
          { response with count := sorted.length, status := some .succeed }
        some (sorted.foldl (fun reply i => reply.modify (addIteminfos (mapEntries i))) reply).run
  | .queryTrie => (fillQueryTrie qftree request reply).map RpcReply.run
  | .redis => (fillRedis searchCookie unixTime2Str request reply).map RpcReply.run

end Handlers

/-! ### The replies of the handlers -/

section Replies

/-- The items of a loop are appended. -/
theorem response_foldl_addIteminfos {Item : Type} (entries : Item → List MapEntry)
    (items : List Item) (reply : RpcReply PendingLogProcessStat) :
    (items.foldl (fun reply i => reply.modify (addIteminfos (entries i))) reply).response =
      { reply.response with iteminfos := reply.response.iteminfos ++ items.map entries } := by
  refine RpcReply.response_foldl_append
    (fun more response => { response with iteminfos := response.iteminfos ++ more })
    (fun response => ?_) (fun first rest response => ?_) entries items reply
  · rw [List.append_nil]
  · simp only [List.append_assoc, List.singleton_append]

theorem response_foldl_addCond (items : List ChecklistItem)
    (reply : RpcReply PendingCheckListConfig) :
    (items.foldl (fun reply i => reply.modify (addCond i)) reply).response =
      { reply.response with
        cond := reply.response.cond ++ items.map fun i => fillCondition i {} } := by
  refine RpcReply.response_foldl_append
    (fun more response => { response with cond := response.cond ++ more })
    (fun response => ?_) (fun first rest response => ?_) (fillCondition · {}) items reply
  · rw [List.append_nil]
  · simp only [List.append_assoc, List.singleton_append]

/-- `SetCheckListConfig` sends its response once, in every branch. -/
theorem setCheckListConfigRpc_eq (regex : Regex) (checklists : Checklists)
    (request : SetCheckListConfigRequest) :
    (setCheckListConfigRpc regex checklists request ⟨{}, []⟩).1 =
        (setCheckListConfig regex checklists request).2 ∧
      (setCheckListConfigRpc regex checklists request ⟨{}, []⟩).2.sent =
        [⟨some (setCheckListConfig regex checklists request).1.status,
          (setCheckListConfig regex checklists request).1.error⟩] := by
  obtain ⟨op, index, application, cond⟩ := request
  rw [setCheckListConfigRpc, setCheckListConfig]
  cases op with
  | false =>
      cases index with
      | none => exact ⟨rfl, rfl⟩
      | some index =>
          simp only [Bool.not_false, ↓reduceIte]
          split <;> exact ⟨rfl, rfl⟩
  | true =>
      simp only [Bool.not_true, Bool.false_eq_true, ↓reduceIte]
      split <;> exact ⟨rfl, rfl⟩

/-- `GetCheckListConfig` sends its response once, or never when it has none. -/
theorem sent_getCheckListConfigRpc (checklists : Checklists)
    (request : GetCheckListConfigRequest) :
    (getCheckListConfigRpc checklists request ⟨{}, []⟩).sent =
      ((getCheckListConfig checklists request).map fun response =>
        (⟨some response.status, response.cond⟩ : PendingCheckListConfig)).toList := by
  rw [getCheckListConfigRpc, getCheckListConfig]
  dsimp only
  split
  next inside =>
    rw [List.getElem?_eq_getElem, Option.map_some, Option.map_some,
      Option.toList_some]
    rfl
  next outside =>
    split
    · simp only [RpcReply.sent_run, RpcReply.sent_modify, RpcReply.sent_foldl_modify,
        RpcReply.response_modify, response_foldl_addCond, List.nil_append, Option.map_some,
        Option.toList_some]
    · rfl

/-- The number for a query is sent. -/
theorem sent_fillQueryTrie (qftree : Trie) {request : GetLogProcessStatRequest}
    {query srcid : Str} (named : request.querystr = some query)
    (given : request.srcid = some srcid) (inside : QueryFreqStat.HashesInside query) :
    (fillQueryTrie qftree request ⟨{}, []⟩).map (RpcReply.sent ∘ RpcReply.run) =
      some [⟨some .succeed, none, (QueryFreqStat.searchExists qftree query srcid).2, []⟩] := by
  simp only [fillQueryTrie, named, given, if_pos inside, Option.map_some,
    Function.comp_apply, RpcReply.sent_run, RpcReply.sent_modify, RpcReply.response_modify,
    List.nil_append]

/-- The items of a cookie are sent with their number. -/
theorem sent_fillRedis {searchCookie : Str → Int → Int → Option (List (Int × Str))}
    {request : GetLogProcessStatRequest} {cookieid : Str} {records : List (Int × Str)}
    (named : request.cookieid = some cookieid)
    (found : searchCookie cookieid request.startime.toInt request.endtime.toInt = some records)
    (unixTime2Str : Int → Str) :
    (fillRedis searchCookie unixTime2Str request ⟨{}, []⟩).map (RpcReply.sent ∘ RpcReply.run) =
      some [⟨some .succeed, none, records.length,
        records.map fun i => [⟨unixTime2Str i.1, i.2⟩]⟩] := by
  simp only [fillRedis, named, found, Option.bind_eq_bind, Option.bind_some, Option.map_some,
    Function.comp_apply, RpcReply.sent_run, RpcReply.sent_modify, RpcReply.sent_foldl_modify,
    RpcReply.response_modify, response_foldl_addIteminfos, List.nil_append]

/-- `GetLogProcessStat` sends its response once unless it is left before. -/
theorem getLogProcessStatRpc_eq {Database : Type} (rocksdb : RocksDB Database) (cjson : CJson)
    (regex : Regex) (std : Sorting.StdSort Kvpairs)
    (searchCookie : Str → Int → Int → Option (List (Int × Str))) (unixTime2Str : Int → Str)
    (storager : OrderedMap Str (StorageImpl Database)) (qftree : Trie)
    (request : GetLogProcessStatRequest) :
    (getLogProcessStatRpc rocksdb cjson regex std searchCookie unixTime2Str storager qftree request
        ⟨{}, []⟩).map RpcReply.sent =
      (getLogProcessStat rocksdb cjson regex std storager qftree searchCookie unixTime2Str
        request).map fun response =>
          [⟨some response.status, response.error, response.count, response.iteminfos⟩] := by
  cases source : request.getfrom with
  | rocksdb =>
      rw [getLogProcessStatRpc, getLogProcessStat, source]
      dsimp only
      cases readFromRocksdb rocksdb cjson storager request.application request.startime.toInt
        request.endtime.toInt with
      | none => rfl
      | some raw =>
          simp only [Option.bind_eq_bind, Option.bind_some]
          split
          · rfl
          · cases selectByConds regex request.cond request.selectfields raw with
            | none => rfl
            | some res =>
                simp only [Option.bind_some]
                cases sortAndLimit std request res with
                | none => rfl
                | some sorted =>
                    simp only [Option.bind_some, Option.map_some, RpcReply.sent_run,
                      RpcReply.sent_foldl_modify, RpcReply.sent_modify,
                      response_foldl_addIteminfos, RpcReply.response_modify, List.nil_append]
  | queryTrie =>
      rw [getLogProcessStatRpc, getLogProcessStat, source, Option.map_map]
      dsimp only
      cases named : request.querystr with
      | none => rw [fillQueryTrie, named]; rfl
      | some query =>
          -- a variable for the count keeps the search folded
          have sent (count : Nat) : some [PendingLogProcessStat.mk (some .succeed) none count []] =
              (some (GetLogProcessStatResponse.mk .succeed none count [])).map fun response =>
                [⟨some response.status, response.error, response.count, response.iteminfos⟩] := rfl
          cases given : request.srcid with
          | none => rw [fillQueryTrie, named, given]; rfl
          | some srcid =>
              dsimp only
              by_cases inside : QueryFreqStat.HashesInside query
              · rw [if_pos inside, sent_fillQueryTrie qftree named given inside]
                exact sent _
              · simp only [fillQueryTrie, named, given, if_neg inside, Option.map_none]
  | redis =>
      rw [getLogProcessStatRpc, getLogProcessStat, source, Option.map_map]
      dsimp only
      cases named : request.cookieid with
      | none => rw [fillRedis, named]; rfl
      | some cookieid =>
          cases found : searchCookie cookieid request.startime.toInt request.endtime.toInt with
          | none => rw [fillRedis, named]; simp only [found]; rfl
          | some records =>
              simp only [found, Option.bind_eq_bind, Option.bind_some, Option.map_some]
              exact sent_fillRedis named found unixTime2Str

end Replies

end ProcessImpl

/-! ### Rules that throw -/

namespace ChecklistItem

/-- The check of the srcid passes, and the check of the query reaches a condition whose pattern is
needed and refused by `std::regex`. -/
def Throws (regex : Regex) (item : ChecklistItem) (request : TransmitRequest) : Prop :=
  (item.srcidDesc ≠ [] → Checklist.checkSrcid item.srcidDesc request = .ok true) ∧
    ∃ query ≠ [], Checklist.firstValue (bytes "query") request.values = query ∧
      ∃ before i after, item.sewordDesc = before ++ i :: after ∧
        (∀ earlier ∈ before, sewordCheck regex query earlier = .ok false) ∧
          (Str.find query i.searchword 0).isSome ∧ ¬i.Compiles regex

theorem exists_check_iff_chk (item : ChecklistItem) (request : TransmitRequest) :
    (∃ verdict, item.check request = .ok verdict) ↔
      ∃ abnormal, (item.chk.allM fun i => i request) = .ok abnormal := by
  refine ⟨fun checked => ?_, fun tested => ?_⟩
  · obtain ⟨verdict, checked⟩ := checked
    obtain ⟨abnormal, tested, _⟩ := (Fallible.bind_eq_ok_iff ..).mp checked
    exact ⟨abnormal, tested⟩
  · obtain ⟨abnormal, tested⟩ := tested
    exact ⟨_, (Fallible.bind_eq_ok_iff ..).mpr ⟨abnormal, tested, rfl⟩⟩

/-- A rule answers unless it throws. -/
theorem exists_check_iff (regex : Regex) (conds : CheckListCond) (request : TransmitRequest) :
    (∃ verdict, (ProcessImpl.makeCheckListItem regex conds).check request = .ok verdict) ↔
      ¬Throws regex (ProcessImpl.makeCheckListItem regex conds) request := by
  obtain ⟨others, chk, answered⟩ := ProcessImpl.exists_chk_eq regex conds request
  have rules := ProcessImpl.rules_makeCheckListItem regex conds
  have srcidDesc : (ProcessImpl.makeCheckListItem regex conds).srcidDesc = conds.srcids :=
    congrArg CheckListCond.srcids rules
  have sewordDesc : (ProcessImpl.makeCheckListItem regex conds).sewordDesc = conds.sewords :=
    congrArg CheckListCond.sewords rules
  have total : ∃ answer, (others.allM fun i => i request) = .ok answer :=
    (Fallible.Answers.allM fun check member => .of_exists (answered check member)).succeeds
  have behind : (∃ answer, (((if conds.sewords = [] then [] else
      [Checklist.checkSeword regex conds.sewords]) ++ others).allM fun i => i request) =
        .ok answer) ↔ ∃ answer, Checklist.checkSeword regex conds.sewords request = .ok answer := by
    by_cases skipped : conds.sewords = []
    · rw [if_pos skipped, List.nil_append, skipped]
      refine iff_of_true total ?_
      rw [Checklist.checkSeword, Checklist.checkField]
      split <;> exact ⟨false, rfl⟩
    · rw [if_neg skipped, List.singleton_append, Fallible.exists_allM_cons_iff]
      exact and_iff_left fun _ => total
  rw [exists_check_iff_chk, chk, Throws, srcidDesc, sewordDesc, not_and,
    ← Checklist.exists_checkSeword_iff]
  by_cases skipped : conds.srcids = []
  · rw [if_pos skipped, List.nil_append, behind]
    exact ⟨fun checked _ => checked, fun checked => checked fun some => absurd skipped some⟩
  · rw [if_neg skipped, List.singleton_append, Fallible.exists_allM_cons_iff, behind]
    have first : ∃ answer, Checklist.checkSrcid conds.srcids request = .ok answer :=
      Checklist.exists_checkField_pure ..
    exact ⟨fun checked passed => checked.2 (passed skipped),
      fun checked => ⟨first, fun passed => checked fun _ => passed⟩⟩

end ChecklistItem

namespace ProcessImpl

/-- The rules of the application are checked one after another. -/
theorem exists_checkAbnormal_iff (checklists : Checklists) (type : Str)
    (request : TransmitRequest) (kv : Kvpairs) :
    (∃ alarms, checkAbnormal checklists type request kv = .ok alarms) ↔
      ∀ i ∈ getCheckList checklists type, ∃ verdict, i.check request = .ok verdict := by
  refine Fallible.exists_foldlM_iff (fun alarms i => ?_) []
  refine ⟨fun stepped => ?_, fun checked => ?_⟩
  · obtain ⟨next, stepped⟩ := stepped
    obtain ⟨verdict, checked, _⟩ := (Fallible.bind_eq_ok_iff ..).mp stepped
    exact ⟨verdict, checked⟩
  · obtain ⟨verdict, checked⟩ := checked
    exact ⟨_, (Fallible.bind_eq_ok_iff ..).mpr ⟨verdict, checked, rfl⟩⟩

/-- A record is handled when no rule of its application throws and its query is not searched behind
its end. -/
theorem exists_dataReceive_iff {Database : Type} (rocksdb : RocksDB Database) (cjson : CJson)
    (strTime2Unixtime : Str → Int) (node : ProcessNode Database) (request : TransmitRequest) :
    (∃ result, dataReceive rocksdb cjson strTime2Unixtime node request = .ok result) ↔
      (∀ i ∈ getCheckList node.checklists (receivedApplication request),
        ∃ verdict, i.check request = .ok verdict) ∧ SearchesInside (receivedKv request) := by
  rw [← exists_checkAbnormal_iff node.checklists (receivedApplication request) request
    ((request2kv request).insertNew (bytes "application") [])]
  refine ⟨fun received => ?_, fun ⟨checked, inside⟩ => ?_⟩
  · obtain ⟨⟨next, response⟩, received⟩ := received
    obtain ⟨alarms, kuozhao, checked, searched, _⟩ := dataReceive_eq_ok received
    exact ⟨⟨alarms, checked⟩, (exists_searchKuozhao_iff ..).mp ⟨kuozhao, searched⟩⟩
  · obtain ⟨alarms, checked⟩ := checked
    obtain ⟨kuozhao, searched⟩ := (exists_searchKuozhao_iff (keep rocksdb cjson strTime2Unixtime
      (node.storager, node.qftree) (receivedKv request)).2 _).mpr inside
    exact ⟨_, (Fallible.bind_eq_ok_iff ..).mpr ⟨alarms, checked,
      (Fallible.bind_eq_ok_iff ..).mpr ⟨kuozhao, searched, rfl⟩⟩⟩

theorem exists_dataReceiveRpc_iff {Database : Type} (rocksdb : RocksDB Database) (cjson : CJson)
    (strTime2Unixtime : Str → Int) (node : ProcessNode Database) (request : TransmitRequest)
    (reply : RpcReply StatusResponse) :
    (∃ result, dataReceiveRpc rocksdb cjson strTime2Unixtime node request reply = .ok result) ↔
      (∀ i ∈ getCheckList node.checklists (receivedApplication request),
        ∃ verdict, i.check request = .ok verdict) ∧ SearchesInside (receivedKv request) := by
  rw [← exists_dataReceive_iff rocksdb cjson strTime2Unixtime]
  refine ⟨fun received => ?_, fun handled => ?_⟩
  · obtain ⟨result, received⟩ := received
    obtain ⟨kept, received, _⟩ := (Fallible.bind_eq_ok_iff ..).mp received
    exact ⟨kept, received⟩
  · obtain ⟨kept, received⟩ := handled
    exact ⟨_, (Fallible.bind_eq_ok_iff ..).mpr ⟨kept, received, rfl⟩⟩

/-! ### Statistics that throw -/

section Statistics

/-- The filter comes to its end for a row: no pattern that is needed is refused, and the loop over
the sid list stays inside it. -/
def Filterable (regex : Regex) (conds : CheckListCond) (row : Kvpairs) : Prop :=
  (∀ query ∈ row.find? (bytes "query"), ∀ cfg ∈ conds.sewords,
      (Str.find query cfg.searchword 0).isSome → cfg.Compiles regex) ∧
    ∀ sid ∈ row.find? (bytes "sid"), conds.sid ≠ [] → conds.resno.length ≤ conds.sid.length

/-- What a row becomes in the result, if it is selected. -/
def selectRow (regex : Regex) (conds : CheckListCond) (selectfield : List Str) (row : Kvpairs) :
    Option Kvpairs :=
  if allCheck regex conds row = .ok true then
    if selectfield.length ≠ 0 then
      let newitem := selectItem selectfield row
      if newitem.entries.length = selectfield.length then some newitem else none
    else if row.entries.length ≠ 0 then some row else none
  else none

/-- The bound of the page, which is only read together with its start. -/
def lastRow (request : GetLogProcessStatRequest) : BitVec 32 :=
  match request.start, request.last with
  | some _, some last => last
  | _, _ => -1

/-- Rows can be sorted: a plain sort needs the field in all of two or more rows, and the heap for
many rows needs it in those up to the bound, which must be there. -/
def Sortable (selectfields : List Str) (sortfield : Str) (last : BitVec 32)
    (rows : List Kvpairs) : Prop :=
  sortfield ∈ sortFields → (selectfields ≠ [] → sortfield ∈ selectfields) →
    if 100000 < last.toNat ∧ 100000 < rows.length then
      last.toNat + 1 < 2 ^ 31 ∧ last.toNat < rows.length ∧
        ∀ row ∈ rows.take (last.toNat + 1), (row.find? sortfield).isSome
    else rows.length < 2 ∨ ∀ row ∈ rows, (row.find? sortfield).isSome

variable {regex : Regex} {conds : CheckListCond} {selectfield : List Str}

/-- The rows are selected one after another. -/
theorem selectByConds_eq {raw : List Kvpairs} (ends : ∀ row ∈ raw, Filterable regex conds row) :
    selectByConds regex conds selectfield raw =
      some (raw.filterMap (selectRow regex conds selectfield)) := by
  induction raw with
  | nil => rfl
  | cons row rest ih =>
      rw [List.forall_mem_cons] at ends
      obtain ⟨selected, answered⟩ := (AllCheck.exists_allCheck_iff regex conds row).mpr ends.1
      rw [selectByConds, answered, ih ends.2, List.filterMap_cons, selectRow, answered]
      cases selected with
      | false => rfl
      | true =>
          simp only [Except.toOption, Option.bind_eq_bind, Option.bind_some, ↓reduceIte]
          by_cases all : selectfield.length ≠ 0
          · rw [if_pos all, if_pos all]
            split <;> rfl
          · rw [if_neg all, if_neg all]
            split <;> rfl

theorem forall_filterable_of_isSome {raw : List Kvpairs}
    (ends : (selectByConds regex conds selectfield raw).isSome) :
    ∀ row ∈ raw, Filterable regex conds row := by
  induction raw with
  | nil => exact fun _ member => absurd member List.not_mem_nil
  | cons row rest ih =>
      rw [List.forall_mem_cons]
      rw [selectByConds] at ends
      cases answered : allCheck regex conds row with
      | error fault =>
          rw [answered] at ends
          exact absurd ends Bool.false_ne_true
      | ok selected =>
          refine ⟨(AllCheck.exists_allCheck_iff regex conds row).mp ⟨selected, answered⟩, ih ?_⟩
          cases later : selectByConds regex conds selectfield rest with
          | none =>
              rw [answered, later] at ends
              exact absurd ends Bool.false_ne_true
          | some res => rfl

/-- The bound as an `int` is fit for the heap when it is small. -/
theorem int32_fits_iff (last : BitVec 32) :
    (0 ≤ int32 last.toNat ∧ int32 last.toNat + 1 < 2 ^ 31) ↔ last.toNat + 1 < 2 ^ 31 := by
  have bounded := last.isLt
  rw [int32, Int.bmod_def]
  split <;> omega

theorem isSome_sortResult_iff (std : Sorting.StdSort Kvpairs) (selectfields : List Str)
    (sortfield : Str) (last : BitVec 32) (rows : List Kvpairs) :
    (sortResult std selectfields sortfield last rows).isSome ↔
      Sortable selectfields sortfield last rows := by
  rw [sortResult, Sortable]
  by_cases unselected : selectfields.length ≠ 0 ∧ sortfield ∉ selectfields
  · rw [if_pos unselected]
    refine iff_of_true rfl fun _ selected => absurd (selected fun empty => ?_) unselected.2
    exact unselected.1 (empty ▸ rfl)
  · rw [if_neg unselected]
    have selected : selectfields ≠ [] → sortfield ∈ selectfields := fun present => by
      by_contra lacks
      exact unselected ⟨fun zero => present (List.length_eq_zero_iff.mp zero), lacks⟩
    by_cases known : sortfield ∈ sortFields
    · rw [forall_prop_of_true known, forall_prop_of_true selected]
      by_cases many : 100000 < last.toNat ∧ 100000 < rows.length
      · rw [if_pos many, if_pos many, topkRows_eq known, Topk.isSome_run_iff, int32_fits_iff]
        refine and_congr_right fun small => ?_
        rw [int32_eq_self (by omega) (by omega), Int.toNat_natCast]
      · rw [if_neg many, if_neg many, sortRows_eq std known, Option.isSome_map, sortBy]
        split
        next sorts => exact iff_of_true rfl sorts
        next fails => exact iff_of_false Bool.false_ne_true fails
    · refine iff_of_true ?_ fun sorted => absurd sorted known
      simp only [sortFields, List.mem_cons, List.not_mem_nil, or_false, not_or] at known
      split
      · rw [topkRows, if_neg known.1, if_neg known.2.1, if_neg known.2.2]
        rfl
      · rw [sortRows, if_neg known.1, if_neg known.2.1, if_neg known.2.2]
        rfl

theorem isSome_sortAndLimit_iff (std : Sorting.StdSort Kvpairs)
    (request : GetLogProcessStatRequest) (rows : List Kvpairs) :
    (sortAndLimit std request rows).isSome ↔ ∀ sortfield ∈ request.sortfield,
      Sortable request.selectfields sortfield (lastRow request) rows := by
  rw [sortAndLimit]
  cases request.sortfield with
  | none => exact iff_of_true rfl fun _ member => absurd member (Option.not_mem_none _)
  | some sortfield =>
      simp only [Option.mem_def, Option.some.injEq, forall_eq', ← isSome_sortResult_iff std]
      rw [lastRow]
      cases request.start with
      | none => exact iff_of_eq (congrArg (· = true) Option.isSome_map)
      | some start =>
          cases request.last <;> exact iff_of_eq (congrArg (· = true) Option.isSome_map)

theorem sortable_nil (selectfields : List Str) (sortfield : Str) (last : BitVec 32) :
    Sortable selectfields sortfield last [] := by
  intro _ _
  rw [if_neg fun many => Nat.not_lt_zero _ many.2]
  exact .inl Nat.zero_lt_two

/-- Rows are selected and sorted when they can be filtered and those that are selected can be
sorted. -/
theorem isSome_select_bind_iff (std : Sorting.StdSort Kvpairs)
    (request : GetLogProcessStatRequest) (raw : List Kvpairs) :
    ((selectByConds regex request.cond request.selectfields raw).bind
        (sortAndLimit std request)).isSome ↔
      (∀ row ∈ raw, Filterable regex request.cond row) ∧
        ∀ sortfield ∈ request.sortfield,
          Sortable request.selectfields sortfield (lastRow request)
            (raw.filterMap (selectRow regex request.cond request.selectfields)) := by
  by_cases ends : ∀ row ∈ raw, Filterable regex request.cond row
  · rw [and_iff_right ends, selectByConds_eq ends, Option.bind_some, isSome_sortAndLimit_iff]
  · exact iff_of_false
      (fun sorted => ends (forall_filterable_of_isSome (Option.isSome_of_isSome_bind sorted)))
      fun both => ends both.1

end Statistics

end ProcessImpl

/-! ### Steps -/

namespace ProcessServer

open ProcessImpl RpcReply

/-- A request of one of the four kinds. -/
inductive Request where
  | dataReceive (request : TransmitRequest)
  | setCheckListConfig (request : SetCheckListConfigRequest)
  | getCheckListConfig (request : GetCheckListConfigRequest)
  | getLogProcessStat (request : GetLogProcessStatRequest)

section Model

variable {Database : Type} (rocksdb : RocksDB Database) (cjson : CJson)
  (strTime2Unixtime : Str → Int) (regex : Regex) (std : Sorting.StdSort Kvpairs)
  (searchCookie : Str → Int → Int → Option (List (Int × Str))) (unixTime2Str : Int → Str)
  (node : ProcessNode Database)

/-- What the constructor makes of the types. -/
def startup (types : List Str) : ProcessNode Database where
  checklists := OrderedMap.empty
  storager := storagerInit rocksdb types
  qftree := Trie.new
  alarms := []

/-- One request. An exception leaves the node as it was, and its handler does not return. After an
undefined read nothing is known of the node, which is left as it was here too. -/
def handle : Request → ProcessNode Database × Outcome ResStatus
  | .dataReceive request =>
      match dataReceiveRpc rocksdb cjson strTime2Unixtime node request ⟨{}, []⟩ with
      | .ok (next, reply) => (next, outcome StatusResponse.status reply)
      | .error _ => (node, none)
  | .setCheckListConfig request =>
      let (checklists, reply) := setCheckListConfigRpc regex node.checklists request ⟨{}, []⟩
      ({ node with checklists := checklists }, outcome StatusResponse.status reply)
  | .getCheckListConfig request =>
      (node, outcome PendingCheckListConfig.status
        (getCheckListConfigRpc node.checklists request ⟨{}, []⟩))
  | .getLogProcessStat request =>
      (node, (getLogProcessStatRpc rocksdb cjson regex std searchCookie unixTime2Str node.storager
        node.qftree request ⟨{}, []⟩).bind (outcome PendingLogProcessStat.status))

def step (request : Request) :
    Option (ProcessNode Database × List (Outcome ResStatus)) :=
  let (next, outcome) :=
    handle rocksdb cjson strTime2Unixtime regex std searchCookie unixTime2Str node request
  some (next, [outcome])

/-- The rows that are stored for the range of a request. -/
def storedRows (request : GetLogProcessStatRequest) : List Kvpairs :=
  (readFromRocksdb rocksdb cjson node.storager request.application request.startime.toInt
    request.endtime.toInt).getD []

/-- The request can be answered. The searches for cookies that are defined are `searchable`. -/
def Answerable (searchable : Str → Int → Int → Prop) (node : ProcessNode Database) :
    Request → Prop
  | .dataReceive request =>
      (∀ i ∈ getCheckList node.checklists (receivedApplication request), ¬i.Throws regex request) ∧
        SearchesInside (receivedKv request)
  | .setCheckListConfig _ => True
  | .getCheckListConfig request =>
      request.index = 0 ∨
        request.index.toNat < (getCheckList node.checklists request.application).length
  | .getLogProcessStat request =>
      match request.getfrom with
      | .rocksdb =>
          (∀ row ∈ storedRows rocksdb cjson node request, Filterable regex request.cond row) ∧
            ∀ sortfield ∈ request.sortfield,
              Sortable request.selectfields sortfield (lastRow request)
                ((storedRows rocksdb cjson node request).filterMap
                  (selectRow regex request.cond request.selectfields))
      | .queryTrie =>
          ∀ query ∈ request.querystr, request.srcid.isSome → QueryFreqStat.HashesInside query
      | .redis =>
          ∀ cookieid ∈ request.cookieid,
            searchable cookieid request.startime.toInt request.endtime.toInt

end Model

/-! ### The invariant -/

section Runs

variable {Database : Type} {rocksdb : RocksDB Database}
  {operands : Database → Option Nat → Str → List Str} {cjson : CJson}
  {strTime2Unixtime : Str → Int} {regex : Regex} {std : Sorting.StdSort Kvpairs}
  {searchCookie : Str → Int → Int → Option (List (Int × Str))} {unixTime2Str : Int → Str}
  {searchable : Str → Int → Int → Prop} {node next : ProcessNode Database}

/-- **Invariant.** The rules were made of conditions, and the keys of the stores are times. -/
structure Sound (operands : Database → Option Nat → Str → List Str) (regex : Regex)
    (node : ProcessNode Database) : Prop where
  made : ∀ app, ∀ i ∈ getCheckList node.checklists app,
    ∃ conds, i = makeCheckListItem regex conds
  timed : Timed operands node.storager

theorem sound_startup (lawful : rocksdb.Lawful operands) (regex : Regex) (types : List Str) :
    Sound operands regex (startup rocksdb types) :=
  ⟨fun _ _ member => absurd member List.not_mem_nil, timed_storagerInit lawful types⟩

/-- A received record keeps the rules and is stored under a time. -/
theorem Sound.dataReceive (sound : Sound operands regex node) (lawful : rocksdb.Lawful operands)
    (times : ∀ text, -2 ^ 63 ≤ strTime2Unixtime text ∧ strTime2Unixtime text < 2 ^ 63)
    {request : TransmitRequest} {response : TransmitResponse}
    (received : dataReceive rocksdb cjson strTime2Unixtime node request = .ok (next, response)) :
    Sound operands regex next := by
  refine ⟨checklists_of_dataReceive received ▸ sound.made, ?_⟩
  have kept : next.storager = _ := congrArg Prod.fst (keep_of_dataReceive received)
  rw [kept]
  exact sound.timed.storage cjson lawful (times _) _ _

/-- The rules of a sound node answer unless they throw. -/
theorem Sound.forall_check_iff (sound : Sound operands regex node) (request : TransmitRequest) :
    (∀ i ∈ getCheckList node.checklists (receivedApplication request),
      ∃ verdict, i.check request = .ok verdict) ↔
      ∀ i ∈ getCheckList node.checklists (receivedApplication request),
        ¬i.Throws regex request := by
  refine forall₂_congr fun i member => ?_
  obtain ⟨conds, rfl⟩ := sound.made _ i member
  exact ChecklistItem.exists_check_iff regex conds request

theorem isSome_getCheckListConfig_iff (checklists : Checklists)
    (request : GetCheckListConfigRequest) :
    (getCheckListConfig checklists request).isSome ↔ request.index = 0 ∨
      request.index.toNat < (getCheckList checklists request.application).length := by
  rw [getCheckListConfig]
  by_cases all : request.index = 0
  · rw [if_neg fun inside => BitVec.lt_irrefl _ (all ▸ inside.1), if_pos all]
    exact iff_of_true rfl (.inl all)
  · have positive : 0 < request.index := by
      rw [BitVec.lt_def]
      exact Nat.pos_of_ne_zero fun zero => all (BitVec.eq_of_toNat_eq zero)
    rw [or_iff_right all, if_neg all]
    split
    next inside =>
      rw [List.getElem?_eq_getElem (by omega)]
      exact iff_of_true rfl inside.2
    next outside => exact iff_of_false Bool.false_ne_true fun inside => outside ⟨positive, inside⟩

/-- The rows of a request can always be read from sound stores. -/
theorem Sound.readFromRocksdb_eq (sound : Sound operands regex node)
    (lawful : rocksdb.Lawful operands) (cjson : CJson) (request : GetLogProcessStatRequest) :
    readFromRocksdb rocksdb cjson node.storager request.application request.startime.toInt
      request.endtime.toInt = some (storedRows rocksdb cjson node request) := by
  obtain ⟨texts, read⟩ := Option.isSome_iff_exists.mp <|
    sound.timed.isSome_read lawful request.application request.startime.toInt
      ⟨request.endtime.le_toInt, request.endtime.toInt_lt⟩
  rw [storedRows, readFromRocksdb, read]
  rfl

variable (std unixTime2Str) in
/-- The statistics end when the rows that are read can be filtered and sorted, or the search for a
query or a cookie is defined. -/
theorem Sound.isSome_getLogProcessStat_iff (sound : Sound operands regex node)
    (lawful : rocksdb.Lawful operands)
    (searches : ∀ cookie st ed, (searchCookie cookie st ed).isSome ↔ searchable cookie st ed)
    (request : GetLogProcessStatRequest) :
    (getLogProcessStat rocksdb cjson regex std node.storager node.qftree searchCookie unixTime2Str
        request).isSome ↔
      Answerable rocksdb cjson regex searchable node (.getLogProcessStat request) := by
  rw [Answerable, getLogProcessStat, sound.readFromRocksdb_eq lawful]
  cases request.getfrom with
  | rocksdb =>
      dsimp only
      rw [← isSome_select_bind_iff std]
      simp only [Option.bind_eq_bind, Option.bind_some]
      generalize storedRows rocksdb cjson node request = raw
      split
      next empty =>
        rw [List.length_eq_zero_iff.mp empty, isSome_select_bind_iff]
        exact iff_of_true rfl ⟨fun _ member => absurd member List.not_mem_nil,
          fun _ _ => sortable_nil _ _ _⟩
      next =>
        cases selectByConds regex request.cond request.selectfields raw with
        | none => rfl
        | some res =>
            simp only [Option.bind_some]
            cases sortAndLimit std request res <;> rfl
  | queryTrie =>
      dsimp only
      cases request.querystr with
      | none => exact iff_of_true rfl fun _ member => absurd member (Option.not_mem_none _)
      | some query =>
          cases request.srcid with
          | none => exact iff_of_true rfl fun _ _ named => absurd named Bool.false_ne_true
          | some srcid =>
              simp only [Option.mem_def, Option.some.injEq, forall_eq', Option.isSome_some,
                forall_const]
              split
              next inside => exact iff_of_true rfl inside
              next outside => exact iff_of_false Bool.false_ne_true outside
  | redis =>
      dsimp only
      cases request.cookieid with
      | none => exact iff_of_true rfl fun _ member => absurd member (Option.not_mem_none _)
      | some cookieid =>
          simp only [Option.mem_def, Option.some.injEq, forall_eq', ← searches]
          cases searchCookie cookieid request.startime.toInt request.endtime.toInt <;> rfl

/-- One request. -/
theorem Sound.handle (sound : Sound operands regex node) (lawful : rocksdb.Lawful operands)
    (times : ∀ text, -2 ^ 63 ≤ strTime2Unixtime text ∧ strTime2Unixtime text < 2 ^ 63)
    (searches : ∀ cookie st ed, (searchCookie cookie st ed).isSome ↔ searchable cookie st ed)
    (request : Request) :
    Sound operands regex (handle rocksdb cjson strTime2Unixtime regex std searchCookie unixTime2Str
        node request).1 ∧
      (Completed (handle rocksdb cjson strTime2Unixtime regex std searchCookie unixTime2Str
        node request).2 ↔ Answerable rocksdb cjson regex searchable node request) := by
  cases request with
  | dataReceive request =>
      have answered := (exists_dataReceiveRpc_iff rocksdb cjson strTime2Unixtime node request
        ⟨{}, []⟩).trans (and_congr_left' (sound.forall_check_iff request))
      cases received : dataReceiveRpc rocksdb cjson strTime2Unixtime node request ⟨{}, []⟩ with
      | error fault =>
          simp only [ProcessServer.handle, received]
          refine ⟨sound, iff_of_false not_completed_none fun answerable => ?_⟩
          obtain ⟨result, success⟩ := answered.mpr answerable
          rw [received] at success
          cases success
      | ok result =>
          obtain ⟨⟨kept, response⟩, stored, same⟩ := (Fallible.bind_eq_ok_iff ..).mp received
          obtain rfl := (Fallible.pure_eq_ok_iff ..).mp same
          simp only [ProcessServer.handle, received]
          exact ⟨sound.dataReceive lawful times stored,
            iff_of_true ((completed_run_iff rfl).mpr rfl) (answered.mp ⟨_, received⟩)⟩
  | setCheckListConfig request =>
      obtain ⟨changed, sent⟩ := setCheckListConfigRpc_eq regex node.checklists request
      refine ⟨⟨fun app i member => ?_, sound.timed⟩,
        iff_of_true (completed_outcome_iff.mpr ⟨_, rfl, sent⟩) trivial⟩
      rw [ProcessServer.handle] at member
      dsimp only at member
      rw [changed] at member
      rcases mem_getCheckList_setCheckListConfig regex _ member with earlier | rfl
      · exact sound.made app i earlier
      · exact ⟨_, rfl⟩
  | getCheckListConfig request =>
      refine ⟨sound, ?_⟩
      rw [Answerable, ← isSome_getCheckListConfig_iff, ProcessServer.handle, completed_outcome_iff,
        Answered, sent_getCheckListConfigRpc]
      cases getCheckListConfig node.checklists request with
      | none => exact iff_of_false (fun answered => by simp at answered) Bool.false_ne_true
      | some response => exact iff_of_true ⟨_, rfl, rfl⟩ rfl
  | getLogProcessStat request =>
      refine ⟨sound, ?_⟩
      have replied := getLogProcessStatRpc_eq rocksdb cjson regex std searchCookie unixTime2Str
        node.storager node.qftree request
      rw [← sound.isSome_getLogProcessStat_iff std unixTime2Str lawful searches request,
        ProcessServer.handle]
      cases ended : getLogProcessStat rocksdb cjson regex std node.storager node.qftree searchCookie
        unixTime2Str request with
      | none =>
          rw [ended, Option.map_none, Option.map_eq_none_iff] at replied
          rw [replied]
          exact iff_of_false not_completed_none Bool.false_ne_true
      | some response =>
          rw [ended, Option.map_some, Option.map_eq_some_iff] at replied
          obtain ⟨reply, called, sent⟩ := replied
          rw [called, Option.bind_some, completed_outcome_iff]
          exact iff_of_true ⟨_, rfl, sent⟩ rfl

/-- **Calls of a process server** are completed exactly when they can be answered. -/
theorem completesExactly_startup (lawful : rocksdb.Lawful operands)
    (times : ∀ text, -2 ^ 63 ≤ strTime2Unixtime text ∧ strTime2Unixtime text < 2 ^ 63)
    (searches : ∀ cookie st ed, (searchCookie cookie st ed).isSome ↔ searchable cookie st ed)
    (types : List Str) :
    CompletesExactly (step rocksdb cjson strTime2Unixtime regex std searchCookie unixTime2Str)
      (Answerable rocksdb cjson regex searchable) (startup rocksdb types) := by
  refine completesExactly (Sound operands regex) (fun sound stepped => ?_)
    (sound_startup lawful regex types)
  obtain ⟨rfl, rfl⟩ := Prod.mk.inj (Option.some.inj stepped)
  rw [List.forall_mem_singleton]
  exact sound.handle lawful times searches _

end Runs

end ProcessServer

end LogProcess
