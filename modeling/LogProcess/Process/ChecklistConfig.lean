import LogProcess.Process.Checklist
import LogProcess.Foundation.OrderedMap

/-! # The registry of alarm rules

The handlers of `process/process_impl.cc` that add, delete and list the rules of an
application. Over any requests the listed rules are those of one list for each application, to
which an addition appends its lists unless they are there already, and from which a deletion
removes one entry (`ProcessImpl.getCheckListConfig_afterRequests`). A request for the rule at
the last index gets no reply (`ProcessImpl.getDeleteAgree_iff`), and a deletion behind it is
reported as a success (`ProcessImpl.reflectsEffect_iff`). The descriptions are never listed
(`ProcessImpl.roundTrips_iff`).
-/

namespace LogProcess

/-- A request to add a rule, with `op`, or to delete one. -/
structure SetCheckListConfigRequest where
  op : Bool
  index : Option (BitVec 32) := none
  application : Str
  cond : CheckListCond := {}

structure SetCheckListConfigResponse where
  status : ResStatus
  error : Option Str := none

/-- The `startime` and the `endime` of the message are never read. -/
structure GetCheckListConfigRequest where
  application : Str
  index : BitVec 32 := 0

structure GetCheckListConfigResponse where
  status : ResStatus
  cond : List CheckListCond
  deriving DecidableEq

namespace ChecklistItem

/-- The loop over two lists of the same length, with the comparison of two entries. -/
def sameRules {Config : Type} (differ : Config → Config → Bool) : List Config → List Config → Bool
  | o1 :: other, o2 :: desc => if differ o1 o2 then false else sameRules differ other desc
  | _, _ => true

/-- `operator==`, which does not compare the descriptions. -/
def equals (item other : ChecklistItem) : Bool :=
  if other.srcidDesc.length ≠ item.srcidDesc.length ∨
      other.sewordDesc.length ≠ item.sewordDesc.length ∨
      other.lbsDesc.length ≠ item.lbsDesc.length ∨
      other.cookieDesc.length ≠ item.cookieDesc.length ∨
      other.clusterDesc.length ≠ item.clusterDesc.length ∨
      other.sidDesc.length ≠ item.sidDesc.length ∨
      other.resnoDesc.length ≠ item.resnoDesc.length ∨
      other.typeDesc.length ≠ item.typeDesc.length then
    false
  else
    sameRules (fun o1 o2 => o1.srcid ≠ o2.srcid ∨ o1.cond ≠ o2.cond)
        other.srcidDesc item.srcidDesc &&
      sameRules (fun o1 o2 => o1.searchword ≠ o2.searchword ∨ o1.cond ≠ o2.cond)
        other.sewordDesc item.sewordDesc &&
      sameRules (fun o1 o2 => o1.province ≠ o2.province ∨ o1.city ≠ o2.city ∨ o1.cond ≠ o2.cond)
        other.lbsDesc item.lbsDesc &&
      sameRules (fun o1 o2 => o1.cookie ≠ o2.cookie ∨ o1.cond ≠ o2.cond)
        other.cookieDesc item.cookieDesc &&
      sameRules (fun o1 o2 => o1.cluster ≠ o2.cluster ∨ o1.cond ≠ o2.cond)
        other.clusterDesc item.clusterDesc &&
      sameRules (fun o1 o2 => o1.sid ≠ o2.sid ∨ o1.cond ≠ o2.cond)
        other.sidDesc item.sidDesc &&
      sameRules (fun o1 o2 => o1.resno ≠ o2.resno ∨ o1.cond ≠ o2.cond)
        other.resnoDesc item.resnoDesc &&
      sameRules (fun o1 o2 => o1.type ≠ o2.type ∨ o1.cond ≠ o2.cond)
        other.typeDesc item.typeDesc

end ChecklistItem

/-- The member `checklists`: the rules of each application. -/
abbrev Checklists : Type := OrderedMap Str (List ChecklistItem)

namespace ProcessImpl

/-! ### The handlers -/

section Handlers

variable (regex : Regex) (checklists : Checklists)

def addCheckList (app : Str) (newitem : ChecklistItem) : Checklists :=
  match checklists.find? app with
  | some cur => checklists.assign app (cur ++ [newitem])
  | none => checklists.assign app [newitem]

/-- The loop of `DelCheckList`, in which `i` counts on behind the erased item. -/
def delItems (index : Nat) : Nat → List ChecklistItem → List ChecklistItem
  | _, [] => []
  | i, item :: rest =>
      if i = index then delItems index (i + 1) rest else item :: delItems index (i + 1) rest

def delCheckList (app : Str) (index : BitVec 32) : Checklists :=
  match checklists.find? app with
  | some cur => checklists.assign app (delItems index.toNat 0 cur)
  | none => checklists

def getCheckList (app : Str) : List ChecklistItem := (checklists.find? app).getD []

/-- `SetCheckListConfig`: the reply and the rules after it. -/
def setCheckListConfig (request : SetCheckListConfigRequest) :
    SetCheckListConfigResponse × Checklists :=
  if !request.op then
    match request.index with
    | some index =>
        if 0 < index then
          (⟨.succeed, none⟩, delCheckList checklists request.application (index - 1))
        else
          (⟨.failed, some (bytes "invalid index")⟩, checklists)
    | none => (⟨.failed, some (bytes "missing index")⟩, checklists)
  else
    let newitem := makeCheckListItem regex request.cond
    if (getCheckList checklists request.application).any fun i => i.equals newitem then
      (⟨.failed, some (bytes "item already exist")⟩, checklists)
    else
      (⟨.succeed, none⟩, addCheckList checklists request.application newitem)

/-- `FillCondition`, which leaves the description of the condition alone. -/
def fillCondition (item : ChecklistItem) (cond : CheckListCond) : CheckListCond where
  srcids := cond.srcids ++ item.srcidDesc.map fun i => ⟨i.srcid, i.cond⟩
  sewords := cond.sewords ++ item.sewordDesc.map fun i => ⟨i.searchword, i.cond⟩
  lbs := cond.lbs ++ item.lbsDesc.map fun i => ⟨i.province, i.city, i.cond⟩
  cookie := cond.cookie ++ item.cookieDesc.map fun i => ⟨i.cookie, i.cond⟩
  cluster := cond.cluster ++ item.clusterDesc.map fun i => ⟨i.cluster, i.cond⟩
  sid := cond.sid ++ item.sidDesc.map fun i => ⟨i.sid, i.cond⟩
  resno := cond.resno ++ item.resnoDesc.map fun i => ⟨i.resno, i.cond⟩
  type := cond.type ++ item.typeDesc.map fun i => ⟨i.type, i.cond⟩
  description := cond.description

/-- `GetCheckListConfig`, without a result when the request is never answered. -/
def getCheckListConfig (request : GetCheckListConfigRequest) :
    Option GetCheckListConfigResponse :=
  let checklists := getCheckList checklists request.application
  if 0 < request.index ∧ request.index.toNat < checklists.length then
    (checklists[request.index.toNat - 1]?).map fun item => ⟨.succeed, [fillCondition item {}]⟩
  else if request.index = 0 then
    some ⟨.succeed, checklists.map fun i => fillCondition i {}⟩
  else
    none

end Handlers

/-! ### Equality of rules -/

end ProcessImpl

namespace ChecklistItem

theorem sameRules_iff {Config : Type} {differ : Config → Config → Bool}
    (decides : ∀ o1 o2, differ o1 o2 = false ↔ o1 = o2) {other desc : List Config}
    (same : other.length = desc.length) : sameRules differ other desc = true ↔ other = desc := by
  induction other generalizing desc with
  | nil =>
      rw [List.eq_nil_of_length_eq_zero same.symm, sameRules]
      · simp only
      · exact nofun
  | cons o1 other ih =>
      cases desc with
      | nil => cases same
      | cons o2 desc =>
          rw [sameRules, List.cons.injEq, ← decides, ← ih (Nat.succ.inj same)]
          cases differ o1 o2 <;> simp

/-- The eight lists of a rule. -/
def rules (item : ChecklistItem) : CheckListCond where
  srcids := item.srcidDesc
  sewords := item.sewordDesc
  lbs := item.lbsDesc
  cookie := item.cookieDesc
  cluster := item.clusterDesc
  sid := item.sidDesc
  resno := item.resnoDesc
  type := item.typeDesc

theorem fillCondition_empty (item : ChecklistItem) :
    ProcessImpl.fillCondition item {} = item.rules := by
  simp only [ProcessImpl.fillCondition, List.nil_append, List.map_id', rules]

/-- Rules are equal when they list the same conditions. -/
theorem equals_iff (item other : ChecklistItem) :
    item.equals other = true ↔ item.rules = other.rules := by
  rw [rules, rules, equals]
  by_cases sizes : other.srcidDesc.length ≠ item.srcidDesc.length ∨
      other.sewordDesc.length ≠ item.sewordDesc.length ∨
      other.lbsDesc.length ≠ item.lbsDesc.length ∨
      other.cookieDesc.length ≠ item.cookieDesc.length ∨
      other.clusterDesc.length ≠ item.clusterDesc.length ∨
      other.sidDesc.length ≠ item.sidDesc.length ∨
      other.resnoDesc.length ≠ item.resnoDesc.length ∨
      other.typeDesc.length ≠ item.typeDesc.length
  · rw [if_pos sizes, CheckListCond.mk.injEq]
    refine ⟨nofun, fun same => ?_⟩
    obtain ⟨srcids, sewords, lbs, cookie, cluster, sid, resno, type, _⟩ := same
    simp only [srcids, sewords, lbs, cookie, cluster, sid, resno, type, ne_eq, not_true_eq_false,
      or_self] at sizes
  · rw [if_neg sizes]
    push Not at sizes
    obtain ⟨srcids, sewords, lbs, cookie, cluster, sid, resno, type⟩ := sizes
    simp only [Bool.and_eq_true, CheckListCond.mk.injEq]
    rw [sameRules_iff _ srcids, sameRules_iff _ sewords, sameRules_iff _ lbs,
      sameRules_iff _ cookie, sameRules_iff _ cluster, sameRules_iff _ sid, sameRules_iff _ resno,
      sameRules_iff _ type]
    · simp only [eq_comm, and_assoc, and_true]
    all_goals
      intro o1 o2
      cases o1
      cases o2
      simp

end ChecklistItem

namespace ProcessImpl

/-! ### New rules -/

/-- A list of conditions that is not empty becomes a list of the rule. -/
theorem rules_withRule {Config : Type} {item : ChecklistItem} {rules : CheckListCond}
    (before : item.rules = rules) (conds : List Config)
    (addrule : ChecklistItem → List Config → ChecklistItem)
    (set : CheckListCond → List Config → CheckListCond)
    (adds : ∀ item, (addrule item conds).rules = set item.rules conds)
    (unset : set rules [] = rules) : (withRule conds addrule item).rules = set rules conds := by
  rw [withRule]
  by_cases empty : conds = []
  · rw [if_neg (not_not_intro (List.length_eq_zero_iff.mpr empty)), before, empty, unset]
  · rw [if_pos fun zero => empty (List.length_eq_zero_iff.mp zero), adds, before]

/-- A new rule has the lists of the request. -/
theorem rules_makeCheckListItem (regex : Regex) (conds : CheckListCond) :
    (makeCheckListItem regex conds).rules = { conds with description := [] } := by
  have new : (ChecklistItem.new conds.description).rules = {} := rfl
  have srcids := rules_withRule new conds.srcids ChecklistItem.addruleSrcid
    (fun rules list => { rules with srcids := list }) (fun _ => rfl) rfl
  have sewords := rules_withRule srcids conds.sewords (ChecklistItem.addruleSeword regex)
    (fun rules list => { rules with sewords := list }) (fun _ => rfl) rfl
  have lbs := rules_withRule sewords conds.lbs ChecklistItem.addruleLbs
    (fun rules list => { rules with lbs := list }) (fun _ => rfl) rfl
  have cookie := rules_withRule lbs conds.cookie ChecklistItem.addruleCookie
    (fun rules list => { rules with cookie := list }) (fun _ => rfl) rfl
  have cluster := rules_withRule cookie conds.cluster ChecklistItem.addruleCluster
    (fun rules list => { rules with cluster := list }) (fun _ => rfl) rfl
  have resno := rules_withRule cluster conds.resno ChecklistItem.addruleResno
    (fun rules list => { rules with resno := list }) (fun _ => rfl) rfl
  have sid := rules_withRule resno conds.sid ChecklistItem.addruleSid
    (fun rules list => { rules with sid := list }) (fun _ => rfl) rfl
  exact rules_withRule sid conds.type ChecklistItem.addruleType
    (fun rules list => { rules with type := list }) (fun _ => rfl) rfl

/-! ### The loop of the deletion -/

/-- The loop erases the item at the index. -/
theorem delItems_eq_eraseIdx {index i : Nat} (before : i ≤ index) (items : List ChecklistItem) :
    delItems index i items = items.eraseIdx (index - i) := by
  have behind {index i : Nat} (later : index < i) (items : List ChecklistItem) :
      delItems index i items = items := by
    induction items generalizing i with
    | nil => rfl
    | cons item rest ih => rw [delItems, if_neg (by omega), ih (by omega)]
  induction items generalizing i with
  | nil => rfl
  | cons item rest ih =>
      rw [delItems]
      by_cases reached : i = index
      · rw [if_pos reached, behind (by omega), reached, Nat.sub_self, List.eraseIdx_cons_zero]
      · obtain ⟨later, distance⟩ := Nat.exists_eq_add_of_lt (show i < index by omega)
        rw [if_neg reached, ih (by omega), show index - i = index - (i + 1) + 1 by omega,
          List.eraseIdx_cons_succ]

/-! ### The abstract registry -/

end ProcessImpl

/-- What the registry is for: the conditions of each application, in the order of their
additions. -/
abbrev Registry : Type := Str → List CheckListCond

namespace Registry

/-- An addition appends the eight lists of the request unless they are there, and a deletion
with an index from 1 on removes that entry. -/
def apply (registry : Registry) (request : SetCheckListConfigRequest) : Registry :=
  Function.update registry request.application <|
    if request.op then
      if { request.cond with description := [] } ∈ registry request.application then
        registry request.application
      else
        registry request.application ++ [{ request.cond with description := [] }]
    else
      match request.index with
      | some index =>
          if 1 ≤ index.toNat then (registry request.application).eraseIdx (index.toNat - 1)
          else registry request.application
      | none => registry request.application

/-- The registry after some requests. -/
def after (requests : List SetCheckListConfigRequest) : Registry :=
  requests.foldl apply fun _ => []

/-- Only the application of the request changes. -/
theorem apply_of_ne (registry : Registry) {request : SetCheckListConfigRequest} {app : Str}
    (other : app ≠ request.application) : registry.apply request app = registry app :=
  Function.update_of_ne other ..

/-- No application lists the same conditions twice. -/
theorem nodup_apply {registry : Registry} (nodup : ∀ app, (registry app).Nodup)
    (request : SetCheckListConfigRequest) (app : Str) : (registry.apply request app).Nodup := by
  by_cases same : app = request.application
  · rw [same, apply, Function.update_self]
    by_cases adds : request.op
    · rw [if_pos adds]
      split
      · exact nodup _
      · exact List.nodup_append.mpr ⟨nodup _, List.nodup_singleton _, by
          intro listed member added
          rw [List.mem_singleton]
          rintro rfl rfl
          contradiction⟩
    · rw [if_neg adds]
      split
      · split
        · exact (nodup _).sublist (List.eraseIdx_sublist ..)
        · exact nodup _
      · exact nodup _
  · rw [apply_of_ne registry same]
    exact nodup app

end Registry

namespace ProcessImpl

/-! ### Refinement -/

section Refinement

variable (regex : Regex) (checklists : Checklists)

/-- What a request can do: the reply and the rules after it. -/
inductive Handled (request : SetCheckListConfigRequest) :
    SetCheckListConfigResponse × Checklists → Prop where
  | duplicate (adds : request.op = true)
      (found : ∃ item ∈ getCheckList checklists request.application,
        item.equals (makeCheckListItem regex request.cond) = true) :
      Handled request (⟨.failed, some (bytes "item already exist")⟩, checklists)
  | added (adds : request.op = true)
      (new : ¬∃ item ∈ getCheckList checklists request.application,
        item.equals (makeCheckListItem regex request.cond) = true) :
      Handled request (⟨.succeed, none⟩,
        addCheckList checklists request.application (makeCheckListItem regex request.cond))
  | deleted (deletes : request.op = false) {index : BitVec 32}
      (given : request.index = some index) (position : 1 ≤ index.toNat) :
      Handled request (⟨.succeed, none⟩,
        delCheckList checklists request.application (index - 1))
  | invalid (deletes : request.op = false) {index : BitVec 32}
      (given : request.index = some index) (zero : ¬1 ≤ index.toNat) :
      Handled request (⟨.failed, some (bytes "invalid index")⟩, checklists)
  | missing (deletes : request.op = false) (absent : request.index = none) :
      Handled request (⟨.failed, some (bytes "missing index")⟩, checklists)

theorem handled_setCheckListConfig (request : SetCheckListConfigRequest) :
    Handled regex checklists request (setCheckListConfig regex checklists request) := by
  rw [setCheckListConfig]
  cases operation : request.op with
  | false =>
      rw [Bool.not_false, if_pos rfl]
      cases given : request.index with
      | none => exact .missing operation given
      | some index =>
          dsimp only
          split
          next positive => exact .deleted operation given (BitVec.lt_def.mp positive)
          next zero =>
              exact .invalid operation given fun position => zero (BitVec.lt_def.mpr position)
  | true =>
      rw [Bool.not_true, if_neg Bool.false_ne_true]
      dsimp only
      split
      next found => exact .duplicate operation (List.any_eq_true.mp found)
      next new => exact .added operation fun found => new (List.any_eq_true.mpr found)

/-- The conditions that a request with index 0 lists. -/
def listed (app : Str) : List CheckListCond :=
  (getCheckListConfig checklists { application := app }).elim [] GetCheckListConfigResponse.cond

/-- The rules after some requests. -/
def afterRequests (requests : List SetCheckListConfigRequest) : Checklists :=
  requests.foldl (fun checklists request => (setCheckListConfig regex checklists request).2)
    OrderedMap.empty

theorem listed_eq (app : Str) :
    listed checklists app = (getCheckList checklists app).map ChecklistItem.rules := by
  rw [listed, getCheckListConfig, if_neg (not_and_of_not_left _ (BitVec.lt_irrefl _)), if_pos rfl,
    Option.elim_some]
  simp only [ChecklistItem.fillCondition_empty]

theorem getCheckList_addCheckList (app : Str) (newitem : ChecklistItem) :
    getCheckList (addCheckList checklists app newitem) =
      Function.update (getCheckList checklists) app (getCheckList checklists app ++ [newitem]) := by
  funext query
  rw [Function.update_apply, addCheckList, getCheckList, getCheckList, getCheckList]
  cases stored : checklists.find? app with
  | none =>
      simp only [OrderedMap.find?_assign, Option.getD_none, List.nil_append]
      split <;> rfl
  | some cur =>
      simp only [OrderedMap.find?_assign, Option.getD_some]
      split <;> rfl

theorem getCheckList_delCheckList (app : Str) (index : BitVec 32) :
    getCheckList (delCheckList checklists app index) =
      Function.update (getCheckList checklists) app
        ((getCheckList checklists app).eraseIdx index.toNat) := by
  funext query
  rw [Function.update_apply, delCheckList, getCheckList, getCheckList, getCheckList]
  cases stored : checklists.find? app with
  | none =>
      simp only [Option.getD_none, List.eraseIdx_nil]
      split
      · rename_i same
        rw [same, stored, Option.getD_none]
      · rfl
  | some cur =>
      simp only [delItems_eq_eraseIdx (Nat.zero_le _), Nat.sub_zero, OrderedMap.find?_assign,
        Option.getD_some]
      split <;> rfl

theorem listed_update {changed : Checklists} {app : Str} {items : List ChecklistItem}
    (change : getCheckList changed = Function.update (getCheckList checklists) app items) :
    listed changed = Function.update (listed checklists) app (items.map ChecklistItem.rules) := by
  funext query
  rw [listed_eq, change, Function.update_apply, Function.update_apply, listed_eq]
  split <;> rfl

/-- A rule is in the list when its conditions are listed. -/
theorem exists_equals_iff (app : Str) (conds : CheckListCond) :
    (∃ item ∈ getCheckList checklists app,
        item.equals (makeCheckListItem regex conds) = true) ↔
      { conds with description := [] } ∈ listed checklists app := by
  rw [listed_eq, List.mem_map]
  simp only [ChecklistItem.equals_iff, rules_makeCheckListItem]

/-- One request does to the listed conditions what it does to the abstract registry. -/
theorem listed_setCheckListConfig (request : SetCheckListConfigRequest) :
    listed (setCheckListConfig regex checklists request).2 =
      Registry.apply (listed checklists) request := by
  have handled := handled_setCheckListConfig regex checklists request
  generalize setCheckListConfig regex checklists request = result at handled ⊢
  rw [Registry.apply]
  cases handled with
  | duplicate adds found =>
      rw [if_pos adds, if_pos ((exists_equals_iff ..).mp found), Function.update_eq_self]
  | added adds new =>
      rw [if_pos adds, if_neg fun known => new ((exists_equals_iff ..).mpr known),
        listed_update checklists (getCheckList_addCheckList ..), List.map_append, listed_eq,
        List.map_singleton, rules_makeCheckListItem]
  | @deleted deletes index given position =>
      have before : (index - 1).toNat = index.toNat - 1 :=
        BitVec.toNat_sub_of_le (BitVec.le_def.mpr position)
      simp only [deletes, given, position, Bool.false_eq_true, ↓reduceIte]
      rw [listed_update checklists (getCheckList_delCheckList ..), ← List.eraseIdx_map, listed_eq,
        before]
  | invalid deletes given zero =>
      simp only [deletes, given, zero, Bool.false_eq_true, ↓reduceIte, Function.update_eq_self]
  | missing deletes absent =>
      simp only [deletes, absent, Bool.false_eq_true, ↓reduceIte, Function.update_eq_self]

/-- A rule is there after a request when it was there before, or was made of its conditions. -/
theorem mem_getCheckList_setCheckListConfig {request : SetCheckListConfigRequest} {app : Str}
    {i : ChecklistItem}
    (member : i ∈ getCheckList (setCheckListConfig regex checklists request).2 app) :
    i ∈ getCheckList checklists app ∨ i = makeCheckListItem regex request.cond := by
  have handled := handled_setCheckListConfig regex checklists request
  generalize setCheckListConfig regex checklists request = result at handled member
  cases handled with
  | duplicate => exact .inl member
  | added =>
      rw [getCheckList_addCheckList, Function.update_apply] at member
      split at member
      next same => exact (List.mem_append.mp member).imp (same ▸ ·) List.mem_singleton.mp
      next => exact .inl member
  | deleted =>
      rw [getCheckList_delCheckList, Function.update_apply] at member
      split at member
      next same => exact .inl (same ▸ List.mem_of_mem_eraseIdx member)
      next => exact .inl member
  | invalid => exact .inl member
  | missing => exact .inl member

/-- The listed conditions after some requests are those of the abstract registry. -/
theorem listed_afterRequests (requests : List SetCheckListConfigRequest) :
    listed (afterRequests regex requests) = Registry.after requests := by
  rw [afterRequests, Registry.after]
  induction requests using List.reverseRecOn with
  | nil => rfl
  | append_singleton requests request ih =>
      rw [List.foldl_append, List.foldl_append, List.foldl_cons, List.foldl_cons, List.foldl_nil,
        List.foldl_nil, listed_setCheckListConfig, ih]

theorem getCheckListConfig_zero (app : Str) :
    getCheckListConfig checklists { application := app } =
      some ⟨.succeed, listed checklists app⟩ := by
  rw [listed, getCheckListConfig, if_neg (not_and_of_not_left _ (BitVec.lt_irrefl _)), if_pos rfl,
    Option.elim_some]

end Refinement

end ProcessImpl

namespace Registry

theorem nodup_after (requests : List SetCheckListConfigRequest) (app : Str) :
    (after requests app).Nodup := by
  rw [after]
  induction requests using List.reverseRecOn generalizing app with
  | nil => exact List.nodup_nil
  | append_singleton requests request ih =>
      rw [List.foldl_concat]
      exact nodup_apply ih request app

/-- A condition that is in the registry after a request was there before, or is the one that
the request adds. -/
theorem mem_apply {registry : Registry} {request : SetCheckListConfigRequest} {app : Str}
    {cond : CheckListCond} (member : cond ∈ registry.apply request app) :
    cond ∈ registry app ∨ request.op = true ∧ request.application = app ∧
      cond = { request.cond with description := [] } := by
  by_cases same : app = request.application
  · rw [same, apply, Function.update_self] at member
    rw [same]
    by_cases adds : request.op
    · rw [if_pos adds] at member
      split at member
      · exact .inl member
      · rcases List.mem_append.mp member with earlier | added
        · exact .inl earlier
        · exact .inr ⟨adds, rfl, List.mem_singleton.mp added⟩
    · rw [if_neg adds] at member
      split at member
      · split at member
        · exact .inl (List.mem_of_mem_eraseIdx member)
        · exact .inl member
      · exact .inl member
  · rw [apply_of_ne registry same] at member
    exact .inl member

/-- Every condition in the registry was added as it is. -/
theorem exists_request_of_mem {requests : List SetCheckListConfigRequest} {app : Str}
    {cond : CheckListCond} (member : cond ∈ after requests app) :
    ∃ request ∈ requests, request.op = true ∧ request.application = app ∧
      cond = { request.cond with description := [] } := by
  rw [after] at member
  induction requests using List.reverseRecOn with
  | nil => cases member
  | append_singleton requests request ih =>
      rw [List.foldl_concat] at member
      rcases mem_apply member with earlier | added
      · obtain ⟨request, made, adds⟩ := ih earlier
        exact ⟨request, List.mem_append_left _ made, adds⟩
      · exact ⟨request, List.mem_append_right _ (List.mem_singleton_self _), added⟩

end Registry

namespace ProcessImpl

/-- **Registry refinement.** The rules listed for an application are those of the abstract
registry, each as it was submitted and no two alike, and a request leaves other applications
alone. -/
theorem getCheckListConfig_afterRequests (regex : Regex)
    (requests : List SetCheckListConfigRequest) :
    (∀ app, getCheckListConfig (afterRequests regex requests) { application := app } =
        some ⟨.succeed, Registry.after requests app⟩) ∧
      (∀ app, (Registry.after requests app).Nodup) ∧
      (∀ app, ∀ cond ∈ Registry.after requests app, ∃ request ∈ requests,
        request.op = true ∧ request.application = app ∧
          cond = { request.cond with description := [] }) ∧
      ∀ request app, app ≠ request.application →
        getCheckListConfig (afterRequests regex (requests ++ [request])) { application := app } =
          getCheckListConfig (afterRequests regex requests) { application := app } := by
  have listing (requests : List SetCheckListConfigRequest) (app : Str) :
      getCheckListConfig (afterRequests regex requests) { application := app } =
        some ⟨.succeed, Registry.after requests app⟩ := by
    rw [getCheckListConfig_zero, listed_afterRequests]
  refine ⟨listing requests, Registry.nodup_after requests, fun app cond member =>
    Registry.exists_request_of_mem member, fun request app other => ?_⟩
  rw [listing, listing, Registry.after, Registry.after, List.foldl_append, List.foldl_cons,
    List.foldl_nil, Registry.apply_of_ne _ other]

/-! ### Indexes -/

/-- The index selects one rule of the list: it is the only condition of the reply to the index,
and a deletion with the index removes it from the list. -/
def GetDeleteAgree (regex : Regex) (checklists : Checklists) (app : Str) (index : BitVec 32) :
    Prop :=
  ∃ cond, (listed checklists app)[index.toNat - 1]? = some cond ∧
    getCheckListConfig checklists { application := app, index := index } =
      some ⟨.succeed, [cond]⟩ ∧
    listed (setCheckListConfig regex checklists
        { op := false, index := some index, application := app }).2 app =
      (listed checklists app).eraseIdx (index.toNat - 1)

/-- **Getting and deleting agree on every index but the last one.** -/
theorem getDeleteAgree_iff (regex : Regex) (requests : List SetCheckListConfigRequest) (app : Str)
    (index : BitVec 32) (positive : 1 ≤ index.toNat) :
    GetDeleteAgree regex (afterRequests regex requests) app index ↔
      index.toNat < (listed (afterRequests regex requests) app).length := by
  generalize afterRequests regex requests = checklists
  have valid : 0 < index := BitVec.lt_def.mpr positive
  have nonzero : index ≠ 0 := fun zero => absurd (zero ▸ positive) (by decide)
  rw [listed_eq, List.length_map]
  refine ⟨?_, fun bounded => ?_⟩
  · intro agree
    obtain ⟨cond, _, replied, _⟩ := agree
    by_contra last
    rw [getCheckListConfig, if_neg (not_and_of_not_right _ last), if_neg nonzero] at replied
    cases replied
  · obtain ⟨item, found⟩ : ∃ item, (getCheckList checklists app)[index.toNat - 1]? = some item :=
      ⟨_, List.getElem?_eq_getElem (by omega)⟩
    refine ⟨item.rules, ?_, ?_, ?_⟩
    · rw [listed_eq, List.getElem?_map, found, Option.map_some]
    · rw [getCheckListConfig, if_pos ⟨valid, bounded⟩]
      simp only [found, Option.map_some, ChecklistItem.fillCondition_empty]
    · rw [listed_setCheckListConfig, Registry.apply, Function.update_self, if_neg nofun]
      simp only [positive, ↓reduceIte]

/-- With two rules the first index works. -/
theorem getDeleteAgree_first_of_two :
    GetDeleteAgree ⟨fun _ => true, fun _ _ => none⟩
      (afterRequests ⟨fun _ => true, fun _ _ => none⟩
        [{ op := true, application := bytes "weather"
           cond := { srcids := [⟨bytes "1", .condEqual⟩] } },
          { op := true, application := bytes "weather" }]) (bytes "weather") 1 :=
  (getDeleteAgree_iff _ _ _ 1 (by decide)).mpr (by rw [listed_afterRequests]; decide +kernel)

/-- The only rule of an application is at index 1, and a request for it gets no reply. -/
theorem getDeleteAgree_fails_on_only_rule :
    (listed (afterRequests ⟨fun _ => true, fun _ _ => none⟩
        [{ op := true, application := bytes "weather" }]) (bytes "weather")).length = 1 ∧
      getCheckListConfig (afterRequests ⟨fun _ => true, fun _ _ => none⟩
        [{ op := true, application := bytes "weather" }])
          { application := bytes "weather", index := 1 } = none ∧
      ¬GetDeleteAgree ⟨fun _ => true, fun _ _ => none⟩
        (afterRequests ⟨fun _ => true, fun _ _ => none⟩
          [{ op := true, application := bytes "weather" }]) (bytes "weather") 1 := by
  have silent : getCheckListConfig (afterRequests ⟨fun _ => true, fun _ _ => none⟩
      [{ op := true, application := bytes "weather" }])
        { application := bytes "weather", index := 1 } = none := by decide +kernel
  refine ⟨by decide +kernel, silent, fun agree => ?_⟩
  obtain ⟨cond, _, replied, _⟩ := agree
  rw [silent] at replied
  cases replied

/-! ### Replies -/

/-- A failure leaves the registry as it was. A success appends the rule of the request to the list
of its application, or removes one rule from it, and leaves the other applications alone. -/
def ReflectsEffect (regex : Regex) (checklists : Checklists)
    (request : SetCheckListConfigRequest) : Prop :=
  let (response, changed) := setCheckListConfig regex checklists request
  let rules := getCheckList checklists request.application
  (response.status = .failed → changed = checklists) ∧
    (response.status = .succeed →
      (if request.op then
          getCheckList changed request.application =
            rules ++ [makeCheckListItem regex request.cond]
        else
          ∃ i < rules.length, getCheckList changed request.application = rules.eraseIdx i) ∧
        ∀ app, app ≠ request.application → changed.find? app = checklists.find? app)

/-- The rules and the keys of other applications stay. -/
theorem find?_addCheckList_of_ne (checklists : Checklists) {app query : Str}
    (newitem : ChecklistItem) (other : query ≠ app) :
    (addCheckList checklists app newitem).find? query = checklists.find? query := by
  rw [addCheckList]
  split <;> exact OrderedMap.find?_assign_of_ne _ _ other

theorem find?_delCheckList_of_ne (checklists : Checklists) {app query : Str} (index : BitVec 32)
    (other : query ≠ app) :
    (delCheckList checklists app index).find? query = checklists.find? query := by
  rw [delCheckList]
  split
  · exact OrderedMap.find?_assign_of_ne _ _ other
  · rfl

/-- An addition is always reported as what it did. -/
theorem reflectsEffect_of_add (regex : Regex) (checklists : Checklists)
    {request : SetCheckListConfigRequest} (adds : request.op = true) :
    ReflectsEffect regex checklists request := by
  have handled := handled_setCheckListConfig regex checklists request
  rw [ReflectsEffect]
  generalize setCheckListConfig regex checklists request = result at handled ⊢
  cases handled with
  | duplicate => exact ⟨fun _ => rfl, fun status => by cases status⟩
  | added =>
      refine ⟨(fun status => by cases status), fun _ => ⟨?_, fun app other =>
        find?_addCheckList_of_ne _ _ other⟩⟩
      rw [if_pos adds, getCheckList_addCheckList, Function.update_self]
  | deleted deletes => exact absurd (adds.symm.trans deletes) Bool.noConfusion
  | invalid deletes => exact absurd (adds.symm.trans deletes) Bool.noConfusion
  | missing deletes => exact absurd (adds.symm.trans deletes) Bool.noConfusion

/-- A deletion is reported as what it did when its index is not behind the list. -/
theorem reflectsEffect_of_delete (regex : Regex) (checklists : Checklists)
    {request : SetCheckListConfigRequest} (deletes : request.op = false) :
    ReflectsEffect regex checklists request ↔ ∀ index ∈ request.index,
      index.toNat ≤ (getCheckList checklists request.application).length := by
  have handled := handled_setCheckListConfig regex checklists request
  rw [ReflectsEffect]
  generalize setCheckListConfig regex checklists request = result at handled ⊢
  cases handled with
  | duplicate adds => exact absurd (adds.symm.trans deletes) Bool.noConfusion
  | added adds => exact absurd (adds.symm.trans deletes) Bool.noConfusion
  | @deleted _ index given position =>
      have before : (index - 1).toNat = index.toNat - 1 :=
        BitVec.toNat_sub_of_le (BitVec.le_def.mpr position)
      rw [given]
      simp only [Option.mem_some_iff, forall_eq', deletes, Bool.false_eq_true, ↓reduceIte,
        reduceCtorEq, false_imp_iff, true_and, forall_const]
      rw [getCheckList_delCheckList, Function.update_self, before]
      refine ⟨?_, fun inside => ?_⟩
      · rintro ⟨⟨i, below, removed⟩, _⟩
        by_contra behind
        -- nothing is erased behind the list, but the list without an entry is shorter
        rw [List.eraseIdx_of_length_le (by omega)] at removed
        have shorter := congrArg List.length removed
        rw [List.length_eraseIdx_of_lt below] at shorter
        omega
      · exact ⟨⟨_, by omega, rfl⟩, fun app other => find?_delCheckList_of_ne _ _ other⟩
  | @invalid _ index given zero =>
      rw [given]
      refine iff_of_true ⟨fun _ => rfl, fun status => by cases status⟩ fun other same => ?_
      obtain rfl := Option.some.inj same
      omega
  | missing _ absent =>
      rw [absent]
      exact iff_of_true ⟨fun _ => rfl, fun status => by cases status⟩
        fun other same => by cases same

/-- **Reply status.** After any requests a reply reflects the effect of its request, except for
the success of a deletion behind the last rule. -/
theorem reflectsEffect_iff (regex : Regex) (requests : List SetCheckListConfigRequest)
    (request : SetCheckListConfigRequest) :
    ReflectsEffect regex (afterRequests regex requests) request ↔
      (request.op = false → ∀ index ∈ request.index,
        index.toNat ≤
          (getCheckList (afterRequests regex requests) request.application).length) := by
  cases operation : request.op with
  | true => exact ⟨fun _ => nofun, fun _ => reflectsEffect_of_add regex _ operation⟩
  | false =>
      rw [reflectsEffect_of_delete regex _ operation]
      exact ⟨fun inside _ => inside, fun inside => inside rfl⟩

/-- A deletion for an application without rules is reported as a success. -/
theorem not_reflectsEffect_behind_list :
    (setCheckListConfig ⟨fun _ => true, fun _ _ => none⟩
        (afterRequests ⟨fun _ => true, fun _ _ => none⟩ [])
        { op := false, index := some 1, application := bytes "weather" }).1.status = .succeed ∧
      ¬ReflectsEffect ⟨fun _ => true, fun _ _ => none⟩
        (afterRequests ⟨fun _ => true, fun _ _ => none⟩ [])
        { op := false, index := some 1, application := bytes "weather" } := by
  refine ⟨rfl, fun reflects => ?_⟩
  obtain ⟨⟨i, below, _⟩, _⟩ := reflects.2 rfl
  exact absurd below (Nat.not_lt_zero i)

/-! ### Round trip -/

section RoundTrip

variable (regex : Regex) (checklists : Checklists) (request : SetCheckListConfigRequest)

/-- `FillCondition` makes the submitted condition of the rule that was stored for the request, which
is the last one of its application. -/
def RoundTrips : Prop :=
  ∃ item, (getCheckList (setCheckListConfig regex checklists request).2
      request.application).getLast? = some item ∧
    fillCondition item {} = request.cond

/-- The eight lists come back as they were submitted, and the description is left out. -/
theorem fillCondition_makeCheckListItem (conds : CheckListCond) :
    fillCondition (makeCheckListItem regex conds) {} = { conds with description := [] } := by
  rw [ChecklistItem.fillCondition_empty, rules_makeCheckListItem]

variable {regex checklists request}

/-- An accepted rule is stored behind the others. -/
theorem getLast?_of_accepted (adds : request.op = true)
    (accepted : (setCheckListConfig regex checklists request).1.status = .succeed) :
    (getCheckList (setCheckListConfig regex checklists request).2
      request.application).getLast? = some (makeCheckListItem regex request.cond) := by
  have handled := handled_setCheckListConfig regex checklists request
  generalize setCheckListConfig regex checklists request = result at handled accepted ⊢
  cases handled with
  | added => rw [getCheckList_addCheckList, Function.update_self, List.getLast?_concat]
  | deleted deletes => exact absurd (adds.symm.trans deletes) Bool.noConfusion
  | duplicate => cases accepted
  | invalid => cases accepted
  | missing => cases accepted

/-- **Configuration round trip.** An accepted condition comes back exactly when it has no
description. -/
theorem roundTrips_iff (adds : request.op = true)
    (accepted : (setCheckListConfig regex checklists request).1.status = .succeed) :
    RoundTrips regex checklists request ↔ request.cond.description = [] := by
  rw [RoundTrips, getLast?_of_accepted adds accepted]
  simp only [Option.some.injEq, exists_eq_left', fillCondition_makeCheckListItem]
  refine ⟨fun same => ?_, fun empty => ?_⟩
  · exact (congrArg CheckListCond.description same).symm
  · rw [← empty]

end RoundTrip

/-- A rule without a description comes back as it was submitted. -/
theorem roundTrips_without_description :
    RoundTrips ⟨fun _ => true, fun _ _ => none⟩ OrderedMap.empty
      { op := true, application := bytes "weather"
        cond := { srcids := [⟨bytes "4514", .condEqual⟩], type := [⟨bytes "new", .condEqual⟩] } } :=
  (roundTrips_iff rfl rfl).mpr rfl

/-- The description of an accepted rule does not come back. -/
theorem not_roundTrips_with_description :
    (setCheckListConfig ⟨fun _ => true, fun _ _ => none⟩ OrderedMap.empty
        { op := true, application := bytes "weather"
          cond := { srcids := [⟨bytes "4514", .condEqual⟩]
                    description := bytes "new weather" } }).1.status = .succeed ∧
      ¬RoundTrips ⟨fun _ => true, fun _ _ => none⟩ OrderedMap.empty
        { op := true, application := bytes "weather"
          cond := { srcids := [⟨bytes "4514", .condEqual⟩]
                    description := bytes "new weather" } } := by
  refine ⟨rfl, fun same => ?_⟩
  obtain ⟨item, stored, filled⟩ := same
  obtain rfl := Option.some.inj ((getLast?_of_accepted rfl rfl).symm.trans stored)
  rw [fillCondition_makeCheckListItem] at filled
  exact absurd (congrArg CheckListCond.description filled) (by decide)

end ProcessImpl

end LogProcess
