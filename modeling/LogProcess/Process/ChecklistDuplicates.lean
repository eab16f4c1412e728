import LogProcess.Process.DataReceive

/-! # Duplicate rules

`SetCheckListConfig` of `process/process_impl.cc` rejects a rule when `operator==` finds it among
the rules of the application. The comparison leaves out the descriptions, on which no check
depends (`ChecklistItem.verdict_eq_of_equals`). So a record raises an alarm with the rejected rule
exactly when it does without it (`ProcessImpl.duplicates_lose_no_alarm`).
-/

namespace LogProcess

namespace ChecklistItem

/-- The answer of `check` without the description. -/
def verdict (item : ChecklistItem) (request : TransmitRequest) : Except CheckFault Bool :=
  (item.check request).map Prod.fst

theorem verdict_eq (item : ChecklistItem) (request : TransmitRequest) :
    item.verdict request = item.chk.allM fun i => i request := by
  rw [verdict, check]
  cases item.chk.allM fun i => i request with
  | error fault => rfl
  | ok abnormal => rfl

/-- A new rule has the checks of its eight lists. -/
theorem chk_eq_of_rules_eq {regex : Regex} {conds other : CheckListCond}
    (same : (ProcessImpl.makeCheckListItem regex conds).rules =
      (ProcessImpl.makeCheckListItem regex other).rules) :
    (ProcessImpl.makeCheckListItem regex conds).chk =
      (ProcessImpl.makeCheckListItem regex other).chk := by
  rw [ProcessImpl.rules_makeCheckListItem, ProcessImpl.rules_makeCheckListItem,
    CheckListCond.mk.injEq] at same
  obtain ⟨srcids, sewords, lbs, cookie, cluster, sid, resno, type, _⟩ := same
  rw [ProcessImpl.chk_makeCheckListItem, ProcessImpl.chk_makeCheckListItem, srcids, sewords, lbs,
    cookie, cluster, resno, sid, type]

/-- **Equal rules answer alike.** -/
theorem verdict_eq_of_equals {regex : Regex} {conds other : CheckListCond}
    (equal : (ProcessImpl.makeCheckListItem regex conds).equals
      (ProcessImpl.makeCheckListItem regex other) = true) (request : TransmitRequest) :
    (ProcessImpl.makeCheckListItem regex conds).verdict request =
      (ProcessImpl.makeCheckListItem regex other).verdict request := by
  rw [verdict_eq, verdict_eq, chk_eq_of_rules_eq ((equals_iff _ _).mp equal)]

end ChecklistItem

namespace ProcessImpl

/-! ### The alarms of a record -/

/-- The alarms that the loop of `CheckAbnormal` hands over. A check that throws ends the loop, but
not the alarms that were handed over before it. -/
def handOver (request : TransmitRequest) (kv : Kvpairs) : List ChecklistItem → List Alarm
  | [] => []
  | i :: rest =>
      match i.check request with
      | .ok (abnormal, description) =>
          if abnormal then .abnormal kv description :: handOver request kv rest
          else handOver request kv rest
      | .error _ => []

/-- Without an exception these are the alarms that `CheckAbnormal` returns. -/
theorem checkAbnormal_eq_ok {checklists : Checklists} {type : Str} {request : TransmitRequest}
    {kv : Kvpairs} {alarms : List Alarm}
    (checked : checkAbnormal checklists type request kv = .ok alarms) :
    handOver request kv (getCheckList checklists type) = alarms := by
  have loop (items : List ChecklistItem) (before : List Alarm)
      (folded : items.foldlM (fun alarms i => i.check request >>= fun answer =>
        pure (if answer.1 then alarms ++ [.abnormal kv answer.2] else alarms)) before =
          .ok alarms) :
      before ++ handOver request kv items = alarms := by
    induction items generalizing before with
    | nil =>
        rw [handOver, List.append_nil]
        exact Except.ok.inj folded
    | cons item rest ih =>
        obtain ⟨next, stepped, folded⟩ := (Fallible.bind_eq_ok_iff ..).mp folded
        obtain ⟨answer, answered, updated⟩ := (Fallible.bind_eq_ok_iff ..).mp stepped
        rw [Fallible.pure_eq_ok_iff] at updated
        rw [handOver, answered, ← ih next folded, ← updated]
        simp only
        split
        · rw [List.append_assoc, List.singleton_append]
        · rfl
  exact loop _ [] checked

/-- The record raises an alarm of the application. -/
def Raises (checklists : Checklists) (app : Str) (request : TransmitRequest) (kv : Kvpairs) :
    Prop :=
  handOver request kv (getCheckList checklists app) ≠ []

/-- An alarm is handed over when some rule says so before any check throws. -/
theorem handOver_ne_nil_iff (request : TransmitRequest) (kv : Kvpairs)
    (items : List ChecklistItem) :
    handOver request kv items ≠ [] ↔ items.anyM (fun i => i.verdict request) = .ok true := by
  induction items with
  | nil => exact iff_of_false (fun some => some rfl) (fun none => by cases none)
  | cons item rest ih =>
      rw [handOver, List.anyM, ChecklistItem.verdict]
      cases item.check request with
      | error fault => exact iff_of_false (fun some => some rfl) (fun none => by cases none)
      | ok answer =>
          obtain ⟨abnormal, description⟩ := answer
          cases abnormal with
          | true => exact iff_of_true (List.cons_ne_nil _ _) rfl
          | false => exact ih

/-! ### The rules of the registry -/

section Registry

variable {regex : Regex} {checklists : Checklists} {request : SetCheckListConfigRequest}

/-- Every rule in the registry was made of conditions. -/
theorem exists_makeCheckListItem_of_mem {requests : List SetCheckListConfigRequest} {app : Str}
    {item : ChecklistItem} (member : item ∈ getCheckList (afterRequests regex requests) app) :
    ∃ conds, item = makeCheckListItem regex conds := by
  rw [afterRequests] at member
  induction requests using List.reverseRecOn with
  | nil => cases member
  | append_singleton requests request ih =>
      rw [List.foldl_concat] at member
      rcases mem_getCheckList_setCheckListConfig regex _ member with earlier | rfl
      · exact ih earlier
      · exact ⟨_, rfl⟩

/-- A rule is rejected as an existing one when it is found in the registry, which stays as it is. -/
theorem exists_equals_of_rejected
    (rejected : (setCheckListConfig regex checklists request).1.error =
      some (bytes "item already exist")) :
    (setCheckListConfig regex checklists request).2 = checklists ∧
      ∃ item ∈ getCheckList checklists request.application,
        item.equals (makeCheckListItem regex request.cond) = true := by
  have handled := handled_setCheckListConfig regex checklists request
  generalize setCheckListConfig regex checklists request = result at handled rejected ⊢
  cases handled with
  | duplicate adds found => exact ⟨rfl, found⟩
  | added => cases rejected
  | deleted => cases rejected
  | invalid => exact absurd (Option.some.inj rejected) (by decide)
  | missing => exact absurd (Option.some.inj rejected) (by decide)

end Registry

/-- **Duplicate rejection loses no alarm.** Rules that are equal give the same answer to every
request. So when a rule is rejected as already existing, the same records raise an alarm as if
it had been added. -/
theorem duplicates_lose_no_alarm (regex : Regex) :
    (∀ conds other, (makeCheckListItem regex conds).equals (makeCheckListItem regex other) = true →
      ∀ request, (makeCheckListItem regex conds).verdict request =
        (makeCheckListItem regex other).verdict request) ∧
    ∀ requests request,
      (setCheckListConfig regex (afterRequests regex requests) request).1.error =
          some (bytes "item already exist") →
        ∀ app transmit kv,
          Raises (setCheckListConfig regex (afterRequests regex requests) request).2 app
              transmit kv ↔
            Raises (addCheckList (afterRequests regex requests) request.application
              (makeCheckListItem regex request.cond)) app transmit kv := by
  refine ⟨fun conds other equal => ChecklistItem.verdict_eq_of_equals equal, ?_⟩
  intro requests request rejected app transmit kv
  obtain ⟨unchanged, item, member, equal⟩ := exists_equals_of_rejected rejected
  obtain ⟨conds, rfl⟩ := exists_makeCheckListItem_of_mem member
  have same := ChecklistItem.verdict_eq_of_equals equal transmit
  rw [Raises, Raises, unchanged, getCheckList_addCheckList, handOver_ne_nil_iff,
    handOver_ne_nil_iff]
  by_cases own : app = request.application
  · rw [own, Function.update_self, Fallible.anyM_append_of_mem member same.symm]
  · rw [Function.update_of_ne own]

/-- A rule that is rejected although its description is new. -/
theorem duplicates_lose_no_alarm_of_new_description :
    (setCheckListConfig ⟨fun _ => true, fun _ _ => none⟩
        (afterRequests ⟨fun _ => true, fun _ _ => none⟩
          [{ op := true, application := bytes "weather"
             cond := { srcids := [⟨bytes "1", .condEqual⟩] } }])
        { op := true, application := bytes "weather"
          cond := { srcids := [⟨bytes "1", .condEqual⟩], description := bytes "new" } }).1.error =
          some (bytes "item already exist") ∧
      Raises (addCheckList (afterRequests ⟨fun _ => true, fun _ _ => none⟩
          [{ op := true, application := bytes "weather"
             cond := { srcids := [⟨bytes "1", .condEqual⟩] } }]) (bytes "weather")
          (makeCheckListItem ⟨fun _ => true, fun _ _ => none⟩
            { srcids := [⟨bytes "1", .condEqual⟩], description := bytes "new" }))
        (bytes "weather") ⟨[⟨bytes "srcid", bytes "1"⟩]⟩ OrderedMap.empty := by
  have rejected : (setCheckListConfig ⟨fun _ => true, fun _ _ => none⟩
      (afterRequests ⟨fun _ => true, fun _ _ => none⟩
        [{ op := true, application := bytes "weather"
           cond := { srcids := [⟨bytes "1", .condEqual⟩] } }])
      { op := true, application := bytes "weather"
        cond := { srcids := [⟨bytes "1", .condEqual⟩], description := bytes "new" } }).1.error =
        some (bytes "item already exist") := by decide +kernel
  refine ⟨rejected, ((duplicates_lose_no_alarm _).2 _ _ rejected _ _ _).mp ?_⟩
  rw [Raises, handOver_ne_nil_iff]
  decide +kernel

end ProcessImpl

end LogProcess
