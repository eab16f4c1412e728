import LogProcess.Foundation.Decisions
import LogProcess.Process.ChecklistDuplicates
import LogProcess.Process.Cluster

/-! # The alarms of the cluster

`CheckAbnormal` of `process/process_impl.cc` hands over an alarm for each rule of the application
that a record meets. The rules of a node change while it handles records. In every run a node
hands over, for each handled record, an alarm for each rule that the changes before it have left
and that the record meets (`Cluster.abnormals_run`).
-/

namespace LogProcess

/-- The conditions of each application with their descriptions, in the order of their additions. -/
abbrev Rulebook : Type := Str → List CheckListCond

namespace Rulebook

/-- The conditions without the description, which alone are compared and listed. -/
def bare (conds : CheckListCond) : CheckListCond := { conds with description := [] }

/-- An addition appends the conditions unless the same ones are there, also with another
description. A deletion with an index from 1 on removes that entry. -/
def apply (rules : Rulebook) (request : SetCheckListConfigRequest) : Rulebook :=
  Function.update rules request.application <|
    if request.op then
      if bare request.cond ∈ (rules request.application).map bare then rules request.application
      else rules request.application ++ [request.cond]
    else
      match request.index with
      | some index =>
          if 1 ≤ index.toNat then (rules request.application).eraseIdx (index.toNat - 1)
          else rules request.application
      | none => rules request.application

/-- The rules after some requests. -/
def after (requests : List SetCheckListConfigRequest) : Rulebook :=
  requests.foldl apply fun _ => []

theorem after_concat (requests : List SetCheckListConfigRequest)
    (request : SetCheckListConfigRequest) :
    after (requests ++ [request]) = (after requests).apply request := by
  rw [after, List.foldl_concat]
  rfl

end Rulebook

namespace ProcessImpl

/-! ### The rules of a node -/

/-- The rules of a node are made of the conditions of a rule book. -/
def MadeOf (regex : Regex) (checklists : Checklists) (rules : Rulebook) : Prop :=
  ∀ app, getCheckList checklists app = (rules app).map (makeCheckListItem regex)

variable {regex : Regex} {checklists : Checklists} {rules : Rulebook}

/-- What is listed are the conditions without their descriptions. -/
theorem MadeOf.listed_eq (made : MadeOf regex checklists rules) (app : Str) :
    listed checklists app = (rules app).map Rulebook.bare := by
  rw [ProcessImpl.listed_eq, made, List.map_map]
  exact List.map_congr_left fun conds _ => rules_makeCheckListItem regex conds

/-- **Step lemma.** A request does to the rules what it does to the rule book. -/
theorem MadeOf.setCheckListConfig (made : MadeOf regex checklists rules)
    (request : SetCheckListConfigRequest) :
    MadeOf regex (setCheckListConfig regex checklists request).2 (rules.apply request) := by
  have known : (∃ item ∈ getCheckList checklists request.application,
      item.equals (makeCheckListItem regex request.cond) = true) ↔
        Rulebook.bare request.cond ∈ (rules request.application).map Rulebook.bare := by
    rw [exists_equals_iff, made.listed_eq]
    rfl
  have keeps : MadeOf regex checklists
      (Function.update rules request.application (rules request.application)) := by
    rwa [Function.update_eq_self]
  have changes {changed : Checklists} {items : List ChecklistItem} {list : List CheckListCond}
      (change : getCheckList changed =
        Function.update (getCheckList checklists) request.application items)
      (same : items = list.map (makeCheckListItem regex)) :
      MadeOf regex changed (Function.update rules request.application list) := by
    intro app
    rw [change]
    by_cases own : app = request.application
    · rw [own, Function.update_self, Function.update_self, same]
    · rw [Function.update_of_ne own, Function.update_of_ne own, made]
  have handled := handled_setCheckListConfig regex checklists request
  generalize ProcessImpl.setCheckListConfig regex checklists request = result at handled ⊢
  rw [Rulebook.apply]
  cases handled with
  | duplicate adds found =>
      rw [if_pos adds, if_pos (known.mp found)]
      exact keeps
  | added adds new =>
      rw [if_pos adds, if_neg fun there => new (known.mpr there)]
      refine changes (getCheckList_addCheckList ..) ?_
      rw [made, List.map_append, List.map_singleton]
  | @deleted deletes index given position =>
      have before : (index - 1).toNat = index.toNat - 1 :=
        BitVec.toNat_sub_of_le (BitVec.le_def.mpr position)
      simp only [deletes, given, position, Bool.false_eq_true, ↓reduceIte]
      refine changes (getCheckList_delCheckList ..) ?_
      rw [made, before, List.eraseIdx_map]
  | invalid deletes given zero =>
      simp only [deletes, given, zero, Bool.false_eq_true, ↓reduceIte]
      exact keeps
  | missing deletes absent =>
      simp only [deletes, absent, Bool.false_eq_true, ↓reduceIte]
      exact keeps

/-! ### The alarms of a record -/

/-- The rules that a request meets. -/
noncomputable def met (regex : Regex) (rules : List CheckListCond) (request : TransmitRequest) :
    List CheckListCond :=
  open Classical in rules.filter fun conds => ChecklistItem.Alarms regex conds request

theorem mem_met_iff {rules : List CheckListCond} {request : TransmitRequest}
    {conds : CheckListCond} : conds ∈ met regex rules request ↔
      conds ∈ rules ∧ ChecklistItem.Alarms regex conds request := by
  classical
  rw [met, List.mem_filter, decide_eq_true_iff]

/-- A record that is checked without an exception raises an alarm for each rule that it meets. -/
theorem MadeOf.checkAbnormal_eq (made : MadeOf regex checklists rules) {type : Str}
    {request : TransmitRequest} {kv : Kvpairs} {alarms : List Alarm}
    (unique : request.UniqueKeys)
    (checked : checkAbnormal checklists type request kv = .ok alarms) :
    alarms = (met regex (rules type) request).map fun conds =>
      .abnormal kv conds.description := by
  have loop (rules : List CheckListCond) (before : List Alarm)
      (folded : (rules.map (makeCheckListItem regex)).foldlM (fun alarms i =>
        i.check request >>= fun answer =>
          pure (if answer.1 then alarms ++ [.abnormal kv answer.2] else alarms)) before =
            .ok alarms) :
      alarms = before ++ (met regex rules request).map fun conds =>
        .abnormal kv conds.description := by
    induction rules generalizing before with
    | nil =>
        obtain rfl := Except.ok.inj folded
        exact (List.append_nil _).symm
    | cons conds rest ih =>
        obtain ⟨next, stepped, folded⟩ := (Fallible.bind_eq_ok_iff ..).mp folded
        obtain ⟨answer, answered, updated⟩ := (Fallible.bind_eq_ok_iff ..).mp stepped
        obtain rfl := Except.ok.inj updated
        obtain ⟨abnormal, tested, same⟩ := (Fallible.bind_eq_ok_iff ..).mp answered
        obtain rfl := Except.ok.inj same
        have decided := ChecklistItem.chk_decides regex conds unique abnormal tested
        classical
        rw [ih _ folded, met, met, List.filter_cons]
        cases abnormal with
        | true =>
            rw [if_pos (decide_eq_true (decided.mp rfl)), List.map_cons, if_pos rfl,
              List.append_assoc, List.singleton_append, if_pos rfl,
              ChecklistItem.description_makeCheckListItem]
        | false =>
            rw [if_neg fun meets => Bool.false_ne_true (decided.mpr (of_decide_eq_true meets)),
              if_neg Bool.false_ne_true]
  rw [checkAbnormal, made] at checked
  exact loop _ [] checked

end ProcessImpl

namespace Cluster

open RetryRpc ProcessImpl

/-! ### What happens at a node -/

/-- A node handles a record, or changes its rules. -/
inductive Occurrence (Sender : Type) where
  | received (sender : Sender)
  | changed (request : SetCheckListConfigRequest)

/-- The changes of the rules among what happened. -/
def changes {Sender : Type} (occurrences : List (Occurrence Sender)) :
    List SetCheckListConfigRequest :=
  occurrences.filterMap fun occurrence => match occurrence with
    | .changed request => some request
    | .received _ => none

/-- The abnormal records that are handed to the threads that send alarms, with the descriptions of
the rules. -/
def abnormals (alarms : List Alarm) : List (Kvpairs × Str) :=
  alarms.filterMap fun alarm => match alarm with
    | .abnormal kv description => some (kv, description)
    | .kuozhao _ => none

section Model

variable {Sender : Type} (regex : Regex) (ring : ConsistentHash)
  (records : Sender → OrderedMap Str Str × OrderedMap Str Bool) (draws : Sender → BitVec 32)

/-- Whether something happens at a node. -/
def occursAt (server : Str) :
    Sender ⊕ (Str × SetCheckListConfigRequest) → Option (Occurrence Sender)
  | .inl sender =>
      if getProcessSerer ring records draws sender = some server then some (.received sender)
      else none
  | .inr event => if event.1 = server then some (.changed event.2) else none

/-- What happens at a node in a run, in this order. -/
def occurrences (actions : List (Action Sender (Str × SetCheckListConfigRequest))) (server : Str) :
    List (Occurrence Sender) :=
  (actions.filterMap acts).filterMap (occursAt ring records draws server)

/-- The record of a sender as it is checked. -/
def checkedKv (sender : Sender) : Kvpairs :=
  (request2kv (Transmission.request records sender)).insertNew (bytes "application") []

/-- Its application. -/
def applicationOf (sender : Sender) : Str :=
  ((checkedKv records sender).find? (bytes "application")).getD []

/-- The alarms for a record: one for each rule that it meets. -/
noncomputable def raisedBy (rules : Rulebook) (sender : Sender) : List (Kvpairs × Str) :=
  (met regex (rules (applicationOf records sender)) (Transmission.request records sender)).map
    fun conds => (checkedKv records sender, conds.description)

/-- A record meets the rules that the changes before it have left. -/
noncomputable def raised (earlier : List (Occurrence Sender)) :
    Occurrence Sender → Option (List (Kvpairs × Str))
  | .received sender => some (raisedBy regex records (Rulebook.after (changes earlier)) sender)
  | .changed _ => none

end Model

section Runs

variable {Database Sender : Type} [DecidableEq Sender] {rocksdb : RocksDB Database}
  {cjson : CJson} {strTime2Unixtime : Str → Int} {regex : Regex} {ring : ConsistentHash}
  {records : Sender → OrderedMap Str Str × OrderedMap Str Bool} {draws : Sender → BitVec 32}

theorem abnormals_append (first second : List Alarm) :
    abnormals (first ++ second) = abnormals first ++ abnormals second := List.filterMap_append

theorem abnormals_map (kv : Kvpairs) (rules : List CheckListCond) :
    abnormals (rules.map fun conds => .abnormal kv conds.description) =
      rules.map fun conds => (kv, conds.description) := by
  rw [abnormals, List.filterMap_map]
  exact congrFun (List.filterMap_eq_map (f := fun conds : CheckListCond =>
    (kv, conds.description))) rules

omit [DecidableEq Sender] in
/-- A transmitted record has different keys. -/
theorem uniqueKeys_request (sender : Sender) :
    (Transmission.request records sender).UniqueKeys := by
  rw [TransmitRequest.UniqueKeys, Transmission.request, values_kv2request, List.map_map]
  exact OrderedMap.nodup_keys _

/-- What a node has handed over, with the rules it has. -/
structure Alarmed (regex : Regex) (records : Sender → OrderedMap Str Str × OrderedMap Str Bool)
    (occurrences : List (Occurrence Sender)) (node : ProcessNode Database) : Prop where
  made : MadeOf regex node.checklists (Rulebook.after (changes occurrences))
  abnormals_eq : abnormals node.alarms =
    (Decisions.outputs (raised regex records) [] occurrences).flatten

/-- The search for a query raises no alarms of the rules. -/
theorem abnormals_searchKuozhao {qftree : Trie} {kv : Kvpairs} {kuozhao : List Alarm}
    (searched : searchKuozhao qftree kv = .ok kuozhao) : abnormals kuozhao = [] := by
  obtain ⟨_, rfl⟩ := searchKuozhao_eq_ok_iff.mp searched
  split <;> rfl

omit [DecidableEq Sender] in
/-- A handled record raises its alarms and leaves the rules as they are. -/
theorem Alarmed.dataReceive {occurrences : List (Occurrence Sender)} {sender : Sender}
    {node next : ProcessNode Database} {response : TransmitResponse}
    (alarmed : Alarmed regex records occurrences node)
    (answered : dataReceive rocksdb cjson strTime2Unixtime node
      (Transmission.request records sender) = .ok (next, response)) :
    Alarmed regex records (occurrences ++ [.received sender]) next := by
  obtain ⟨made, abnormals_eq⟩ := alarmed
  obtain ⟨alarms, kuozhao, checked, searched, _, same, added⟩ := dataReceive_eq_ok answered
  have raises := made.checkAbnormal_eq (uniqueKeys_request sender) checked
  have own : abnormals alarms =
      raisedBy regex records (Rulebook.after (changes occurrences)) sender := by
    rw [raises, abnormals_map]
    rfl
  refine ⟨?_, ?_⟩
  · rw [changes, List.filterMap_append, same]
    exact (List.append_nil _).symm ▸ made
  · rw [Decisions.outputs_concat, List.nil_append, List.flatten_append, ← abnormals_eq, added,
      abnormals_append, abnormals_append, abnormals_searchKuozhao searched, List.append_nil,
      raised, Option.toList_some, List.flatten_singleton, ← own]

omit [DecidableEq Sender] in
/-- A change of the rules raises no alarms. -/
theorem Alarmed.change {occurrences : List (Occurrence Sender)} {node : ProcessNode Database}
    (alarmed : Alarmed regex records occurrences node) (request : SetCheckListConfigRequest) :
    Alarmed regex records (occurrences ++ [.changed request])
      { node with checklists := (setCheckListConfig regex node.checklists request).2 } := by
  refine ⟨?_, ?_⟩
  · rw [changes, List.filterMap_append]
    exact (Rulebook.after_concat ..).symm ▸ alarmed.made.setCheckListConfig request
  · rw [Decisions.outputs_concat, raised, Option.toList_none, List.append_nil]
    exact alarmed.abnormals_eq

variable {types : List Str} {actions : List (Action Sender (Str × SetCheckListConfigRequest))}
  {config : Config Sender (Nodes Database)}
  (reached : Runs.run (step rocksdb cjson strTime2Unixtime regex ring records draws)
    (start fun _ => ProcessServer.startup rocksdb types) actions = some config)
include reached

/-- **Run lemma.** -/
theorem alarmed_run (server : Str) :
    Alarmed regex records (occurrences ring records draws actions server)
      (config.state server) := by
  refine invariant_of_acts (fun done nodes => Alarmed regex records
    (done.filterMap (occursAt ring records draws server)) (nodes server)) ?_ ?_ ?_ reached
  · intro done sender nodes next alarmed handled
    obtain ⟨target, node, response, routed, received, rfl⟩ := handle_eq_some handled
    rw [List.filterMap_append]
    by_cases here : target = server
    · subst here
      have occurs : occursAt ring records draws target (.inl sender) = some (.received sender) :=
        if_pos routed
      rw [List.filterMap_cons_some occurs, Function.update_self]
      exact alarmed.dataReceive received
    · have elsewhere : occursAt ring records draws server (.inl sender) = none :=
        if_neg fun same => here (Option.some.inj (routed.symm.trans same))
      rw [List.filterMap_cons_none elsewhere, Function.update_of_ne (Ne.symm here),
        List.filterMap_nil, List.append_nil]
      exact alarmed
  · intro done event nodes next alarmed changed
    obtain rfl := Option.some.inj changed
    rw [List.filterMap_append]
    by_cases here : event.1 = server
    · subst here
      have occurs : occursAt ring records draws event.1 (.inr event) = some (.changed event.2) :=
        if_pos rfl
      rw [List.filterMap_cons_some occurs, Function.update_self]
      exact alarmed.change event.2
    · have elsewhere : occursAt ring records draws server (.inr event) = none := if_neg here
      rw [List.filterMap_cons_none elsewhere, Function.update_of_ne (Ne.symm here),
        List.filterMap_nil, List.append_nil]
      exact alarmed
  · exact ⟨fun _ => rfl, rfl⟩

/-- A record whose `Transmit` has returned was received by its node. -/
theorem exists_received_of_ended {sender : Sender} (ended : config.phase sender = .ended) :
    ∃ server, getProcessSerer ring records draws sender = some server ∧
      .received sender ∈ occurrences ring records draws actions server := by
  have handled := mem_handledSenders_of_ended reached ended
  obtain ⟨server, routed⟩ := exists_route_of_mem reached handled
  rw [handledSenders, ← handled_eq_acts reached, List.mem_filterMap] at handled
  obtain ⟨act, done, left⟩ := handled
  obtain rfl := Sum.getLeft?_eq_some_iff.mp left
  exact ⟨server, routed, List.mem_filterMap.mpr ⟨_, done, if_pos routed⟩⟩

/-- **The alarms of the cluster.** For the records that it handled a node hands over an alarm for
each rule that the changes before the record have left and that the record meets, in this order,
and no other ones. The rules that it lists are those that all changes have left. A record whose
`Transmit` has returned was handled by its node. What a request hands over before one of its checks
throws is left out, since it is not handled. -/
theorem abnormals_run :
    (∀ server, abnormals (config.state server).alarms =
        (Decisions.outputs (raised regex records) []
          (occurrences ring records draws actions server)).flatten ∧
      (∀ alarm, alarm ∈ abnormals (config.state server).alarms ↔
        ∃ before sender after, occurrences ring records draws actions server =
            before ++ .received sender :: after ∧
          ∃ conds ∈ Rulebook.after (changes before) (applicationOf records sender),
            ChecklistItem.Alarms regex conds (Transmission.request records sender) ∧
              alarm = (checkedKv records sender, conds.description)) ∧
      ∀ app, getCheckListConfig (config.state server).checklists { application := app } =
        some ⟨.succeed, (Rulebook.after (changes
          (occurrences ring records draws actions server)) app).map Rulebook.bare⟩) ∧
    ∀ sender, config.phase sender = .ended → ∃ server,
      getProcessSerer ring records draws sender = some server ∧
        .received sender ∈ occurrences ring records draws actions server := by
  refine ⟨fun server => ?_, fun sender => exists_received_of_ended reached⟩
  obtain ⟨made, abnormals_eq⟩ := alarmed_run reached server
  refine ⟨abnormals_eq, fun alarm => ?_, fun app => ?_⟩
  · rw [abnormals_eq, List.mem_flatten]
    simp only [Decisions.mem_outputs_iff, List.nil_append]
    refine ⟨?_, ?_⟩
    · rintro ⟨alarms, ⟨before, occurrence, after, split, raises⟩, member⟩
      cases occurrence with
      | changed request => cases raises
      | received sender =>
          obtain rfl := Option.some.inj raises
          obtain ⟨conds, listed, same⟩ := List.mem_map.mp member
          obtain ⟨there, meets⟩ := mem_met_iff.mp listed
          exact ⟨before, sender, after, split, conds, there, meets, same.symm⟩
    · rintro ⟨before, sender, after, split, conds, there, meets, rfl⟩
      exact ⟨_, ⟨before, .received sender, after, split, rfl⟩,
        List.mem_map_of_mem (mem_met_iff.mpr ⟨there, meets⟩)⟩
  · rw [getCheckListConfig_zero, made.listed_eq]

end Runs

/-- A rule for the srcid of the weather. -/
def weatherRule : SetCheckListConfigRequest where
  op := true
  application := bytes "weather"
  cond := { srcids := [⟨bytes "1", .condEqual⟩], description := bytes "warm" }

/-- A record that is handled before and behind the addition of the rule raises one alarm. -/
theorem abnormals_run_of_new_rule :
    ∃ config, Runs.run weatherStep
        (start fun _ => ProcessServer.startup RocksDB.table [bytes "weather"])
        [.send (), .deliver () 0, .loseReply () 0, .fail () 0, .internal (bytes "a", weatherRule),
          .internal (bytes "b", weatherRule), .send (), .deliver () 1, .receive () 1] =
          some config ∧
      (weatherRing.servers.flatMap fun server =>
        (abnormals (config.state server).alarms).map Prod.snd) = [bytes "warm"] ∧
      ∃ conds, ChecklistItem.Alarms ⟨fun _ => true, fun _ _ => none⟩ conds
          (Transmission.request (fun _ => Transmission.weatherRecord) ()) ∧
        conds.description = bytes "warm" := by
  obtain ⟨config, reached, warm⟩ : ∃ config, Runs.run weatherStep
      (start fun _ => ProcessServer.startup RocksDB.table [bytes "weather"])
      [.send (), .deliver () 0, .loseReply () 0, .fail () 0, .internal (bytes "a", weatherRule),
        .internal (bytes "b", weatherRule), .send (), .deliver () 1, .receive () 1] =
        some config ∧
      (weatherRing.servers.flatMap fun server =>
        (abnormals (config.state server).alarms).map Prod.snd) = [bytes "warm"] :=
    ⟨_, rfl, by decide +kernel⟩
  refine ⟨config, reached, warm, ?_⟩
  obtain ⟨server, _, shown⟩ := List.mem_flatMap.mp (warm ▸ List.mem_singleton_self (bytes "warm"))
  obtain ⟨alarm, raises, same⟩ := List.mem_map.mp shown
  obtain ⟨_, _, _, _, conds, _, meets, rfl⟩ := (((abnormals_run reached).1 server).2.1 alarm).mp
    raises
  exact ⟨conds, meets, same⟩

end Cluster

end LogProcess
