import LogProcess.Foundation.Fallible
import LogProcess.Process.CheckAction

/-! # Alarm rules

The classes of `process/process_chklist.cc` and `process/process_chklist_item.cc`, and
`MakeCheckListItem` of `process/process_impl.cc`. A rule collects one check for each list of
its conditions that is not empty. A request raises an alarm when every check finds a
condition that holds, whatever the order of the entries and of the conditions
(`ChecklistItem.check_eq_alarms`).
-/

namespace LogProcess

/-! ### The checks of one list -/

namespace Checklist

/-- The loop over the entries of a request up to the first one with the name. -/
def firstValue (fieldname : Str) : List MapEntry → Str
  | [] => []
  | kv :: rest => if kv.key = fieldname then kv.value else firstValue fieldname rest

/-- A check of one field. Some of the lists never match an empty value. -/
def checkField {Config : Type} (fieldname : Str) (needsValue : Bool)
    (check : Str → Config → Except CheckFault Bool) (cfg : List Config)
    (request : TransmitRequest) : Except CheckFault Bool :=
  let value := firstValue fieldname request.values
  if needsValue ∧ value = [] then pure false else cfg.anyM (check value)

def checkSrcid : List SrcidConfig → TransmitRequest → Except CheckFault Bool :=
  checkField (bytes "srcid") true fun srcid cfg => pure (srcidCheck srcid cfg)

def checkSeword (regex : Regex) :
    List ScanCondSeWord → TransmitRequest → Except CheckFault Bool :=
  checkField (bytes "query") true fun query cfg => sewordCheck regex query cfg

/-- One step of the loop over the entries, which does not stop at a match. -/
def locate (found : Str × Str) (kv : MapEntry) : Str × Str :=
  (if kv.key = bytes "province_name" then kv.value else found.1,
    if kv.key = bytes "city_name" then kv.value else found.2)

def checkLbs (cfg : List LocationInfo) (request : TransmitRequest) : Except CheckFault Bool :=
  let (prov, city) := request.values.foldl locate ([], [])
  cfg.anyM fun i => pure (lbsCheck prov city i)

def checkCookie : List CookieConfig → TransmitRequest → Except CheckFault Bool :=
  checkField (bytes "cookie") false fun cookie cfg => pure (cookieCheck cookie cfg)

def checkCluster : List ClusterConfig → TransmitRequest → Except CheckFault Bool :=
  checkField (bytes "cluster") true fun cluster cfg => pure (clusterCheck cluster cfg)

def checkResno : List ResnoConfig → TransmitRequest → Except CheckFault Bool :=
  checkField (bytes "resno") false fun resno cfg => pure (resnoCheck resno cfg)

def checkSid : List SidConfig → TransmitRequest → Except CheckFault Bool :=
  checkField (bytes "sid") false fun sid cfg => pure (sidCheck sid cfg)

def checkType : List TypeConfig → TransmitRequest → Except CheckFault Bool :=
  checkField (bytes "type") false fun type cfg => pure (typeCheck type cfg)

end Checklist

/-! ### Rules -/

/-- A rule: the bound checks, and the lists they were made of. -/
structure ChecklistItem where
  chk : List (TransmitRequest → Except CheckFault Bool)
  description : Str
  srcidDesc : List SrcidConfig
  sewordDesc : List ScanCondSeWord
  lbsDesc : List LocationInfo
  cookieDesc : List CookieConfig
  clusterDesc : List ClusterConfig
  sidDesc : List SidConfig
  resnoDesc : List ResnoConfig
  typeDesc : List TypeConfig

namespace ChecklistItem

def new (description : Str) : ChecklistItem where
  chk := []
  description := description
  srcidDesc := []
  sewordDesc := []
  lbsDesc := []
  cookieDesc := []
  clusterDesc := []
  sidDesc := []
  resnoDesc := []
  typeDesc := []

section Rules

variable (regex : Regex) (item : ChecklistItem)

def addruleSrcid (srcCfg : List SrcidConfig) : ChecklistItem :=
  { item with chk := item.chk ++ [Checklist.checkSrcid srcCfg], srcidDesc := srcCfg }

def addruleSeword (sewordCfg : List ScanCondSeWord) : ChecklistItem :=
  { item with chk := item.chk ++ [Checklist.checkSeword regex sewordCfg], sewordDesc := sewordCfg }

def addruleLbs (lbsCfg : List LocationInfo) : ChecklistItem :=
  { item with chk := item.chk ++ [Checklist.checkLbs lbsCfg], lbsDesc := lbsCfg }

def addruleCookie (cookieCfg : List CookieConfig) : ChecklistItem :=
  { item with chk := item.chk ++ [Checklist.checkCookie cookieCfg], cookieDesc := cookieCfg }

def addruleCluster (clusterCfg : List ClusterConfig) : ChecklistItem :=
  { item with chk := item.chk ++ [Checklist.checkCluster clusterCfg], clusterDesc := clusterCfg }

def addruleSid (sidCfg : List SidConfig) : ChecklistItem :=
  { item with chk := item.chk ++ [Checklist.checkSid sidCfg], sidDesc := sidCfg }

def addruleResno (resnoCfg : List ResnoConfig) : ChecklistItem :=
  { item with chk := item.chk ++ [Checklist.checkResno resnoCfg], resnoDesc := resnoCfg }

def addruleType (typeCfg : List TypeConfig) : ChecklistItem :=
  { item with chk := item.chk ++ [Checklist.checkType typeCfg], typeDesc := typeCfg }

/-- The verdict on a request and the description of the rule, which is empty without an alarm. -/
def check (request : TransmitRequest) : Except CheckFault (Bool × Str) := do
  let abnormal ← item.chk.allM fun i => i request
  pure (abnormal, if abnormal then item.description else [])

end Rules

end ChecklistItem

namespace ProcessImpl

/-- Add a rule for a list of conditions that is not empty. -/
def withRule {Config : Type} (conds : List Config)
    (addrule : ChecklistItem → List Config → ChecklistItem) (item : ChecklistItem) :
    ChecklistItem :=
  if conds.length ≠ 0 then addrule item conds else item

/-- `MakeCheckListItem`, where the allocation succeeds. -/
def makeCheckListItem (regex : Regex) (conds : CheckListCond) : ChecklistItem :=
  let newitem := ChecklistItem.new conds.description
  let newitem := withRule conds.srcids ChecklistItem.addruleSrcid newitem
  let newitem := withRule conds.sewords (ChecklistItem.addruleSeword regex) newitem
  let newitem := withRule conds.lbs ChecklistItem.addruleLbs newitem
  let newitem := withRule conds.cookie ChecklistItem.addruleCookie newitem
  let newitem := withRule conds.cluster ChecklistItem.addruleCluster newitem
  let newitem := withRule conds.resno ChecklistItem.addruleResno newitem
  let newitem := withRule conds.sid ChecklistItem.addruleSid newitem
  withRule conds.type ChecklistItem.addruleType newitem

end ProcessImpl

/-! ### What a request says -/

namespace TransmitRequest

/-- A value of a field: one that the request gives to it, or the empty one when the request
does not have it. -/
def Reads (request : TransmitRequest) (field value : Str) : Prop :=
  ⟨field, value⟩ ∈ request.values ∨ field ∉ request.values.map MapEntry.key ∧ value = []

/-- Every key occurs at most once. -/
def UniqueKeys (request : TransmitRequest) : Prop := (request.values.map MapEntry.key).Nodup

theorem UniqueKeys.reads_unique {request : TransmitRequest} (unique : request.UniqueKeys)
    {field first second : Str} (reads_first : request.Reads field first)
    (reads_second : request.Reads field second) : first = second := by
  rcases reads_first with given | ⟨missing, rfl⟩ <;>
    rcases reads_second with given' | ⟨missing', rfl⟩
  · exact (MapEntry.mk.inj (List.inj_on_of_nodup_map unique given given' rfl)).2
  · exact absurd (List.mem_map_of_mem given) missing'
  · exact absurd (List.mem_map_of_mem given') missing
  · rfl

/-- The values of the fields do not depend on the order of the entries. -/
theorem reads_iff_of_perm {request other : TransmitRequest}
    (perm : request.values.Perm other.values) (field value : Str) :
    request.Reads field value ↔ other.Reads field value := by
  rw [Reads, Reads, perm.mem_iff, (perm.map MapEntry.key).mem_iff]

/-- One more entry gives its value to its field, and leaves the other fields alone. -/
theorem Reads.more {request other : TransmitRequest} {kv : MapEntry}
    (more : ∀ entry, entry ∈ other.values ↔ entry = kv ∨ entry ∈ request.values)
    {field value : Str} (reads : request.Reads field value) :
    other.Reads field (if kv.key = field then kv.value else value) := by
  by_cases same : kv.key = field
  · rw [if_pos same]
    exact .inl ((more _).mpr (.inl (by rw [← same])))
  · rw [if_neg same]
    rcases reads with given | ⟨missing, rfl⟩
    · exact .inl ((more _).mpr (.inr given))
    · refine .inr ⟨fun given => ?_, rfl⟩
      obtain ⟨entry, member, entry_key⟩ := List.mem_map.mp given
      rcases (more entry).mp member with rfl | earlier
      · exact same entry_key
      · exact missing (entry_key ▸ List.mem_map_of_mem earlier)

end TransmitRequest

namespace Checklist

theorem reads_firstValue (request : TransmitRequest) (field : Str) :
    request.Reads field (firstValue field request.values) := by
  obtain ⟨values⟩ := request
  induction values with
  | nil => exact .inr ⟨List.not_mem_nil, rfl⟩
  | cons kv rest ih => exact ih.more fun entry => List.mem_cons

theorem reads_locate (request : TransmitRequest) :
    request.Reads (bytes "province_name") (request.values.foldl locate ([], [])).1 ∧
      request.Reads (bytes "city_name") (request.values.foldl locate ([], [])).2 := by
  obtain ⟨values⟩ := request
  induction values using List.reverseRecOn with
  | nil => exact ⟨.inr ⟨List.not_mem_nil, rfl⟩, .inr ⟨List.not_mem_nil, rfl⟩⟩
  | append_singleton values kv ih =>
      have more (entry : MapEntry) : entry ∈ values ++ [kv] ↔ entry = kv ∨ entry ∈ values := by
        rw [List.mem_append, List.mem_singleton, or_comm]
      rw [List.foldl_concat]
      exact ⟨ih.1.more more, ih.2.more more⟩

/-! ### What a check answers -/

/-- A condition of the list holds for the value of the field, which must not be empty if the
list needs a value. -/
def Alarmed {Config : Type} (request : TransmitRequest) (field : Str) (needsValue : Bool)
    (conds : List Config) (check : Str → Config → Prop) : Prop :=
  ∃ value, request.Reads field value ∧ (needsValue = true → value ≠ []) ∧
    ∃ cfg ∈ conds, check value cfg

/-- The value of the field is the one that the checks read. -/
theorem alarmed_iff {Config : Type} {field : Str} {needsValue : Bool}
    {holds : Str → Config → Prop} {cfg : List Config} {request : TransmitRequest}
    (unique : request.UniqueKeys) : Alarmed request field needsValue cfg holds ↔
      (needsValue = true → firstValue field request.values ≠ []) ∧
        ∃ i ∈ cfg, holds (firstValue field request.values) i := by
  have reads := reads_firstValue request field
  refine ⟨?_, ?_⟩
  · intro alarm
    obtain ⟨value, reads_value, alarmed⟩ := alarm
    obtain rfl := unique.reads_unique reads reads_value
    exact alarmed
  · intro alarmed
    exact ⟨_, reads, alarmed⟩

/-- The check of one field decides whether a condition holds for the value of the field. -/
theorem checkField_decides {Config : Type} {field : Str} {needsValue : Bool}
    {check : Str → Config → Except CheckFault Bool} {holds : Str → Config → Prop}
    {cfg : List Config} {request : TransmitRequest} (unique : request.UniqueKeys)
    (decides : ∀ value, ∀ i ∈ cfg, Fallible.Decides (check value i) (holds value i)) :
    Fallible.Decides (checkField field needsValue check cfg request)
      (Alarmed request field needsValue cfg holds) := by
  rw [alarmed_iff unique, checkField]
  by_cases refused : needsValue ∧ firstValue field request.values = []
  · rw [if_pos refused]
    apply (Fallible.Answers.pure false).decides.congr
    simp only [Bool.false_eq_true, false_iff, not_and]
    exact fun present => absurd refused.2 (present refused.1)
  · rw [if_neg refused]
    refine (Fallible.Decides.anyM (decides _)).congr (and_iff_right ?_).symm
    exact fun needed empty => refused ⟨needed, empty⟩

/-- The check of one field with a test that does not fail. -/
theorem checkField_pure_decides {Config : Type} {field : Str} {needsValue : Bool}
    {check : Str → Config → Bool} {cfg : List Config} {request : TransmitRequest}
    (unique : request.UniqueKeys) :
    Fallible.Decides
      (checkField field needsValue (fun value i => pure (check value i)) cfg request)
      (Alarmed request field needsValue cfg fun value i => check value i = true) :=
  checkField_decides unique fun _ _ _ => (Fallible.Answers.pure _).decides

/-- The check of one field with a test that does not fail always answers. -/
theorem exists_checkField_pure {Config : Type} (field : Str) (needsValue : Bool)
    (check : Str → Config → Bool) (cfg : List Config) (request : TransmitRequest) :
    ∃ answer, checkField field needsValue (fun value i => pure (check value i)) cfg request =
      .ok answer := by
  rw [checkField]
  split
  · exact ⟨false, rfl⟩
  · exact (Fallible.Answers.anyM fun _ _ => .pure _).succeeds

/-- The check of the query fails when it reaches a condition whose pattern is needed and refused. -/
theorem exists_checkSeword_iff (regex : Regex) (cfg : List ScanCondSeWord)
    (request : TransmitRequest) :
    (∃ answer, checkSeword regex cfg request = .ok answer) ↔
      ¬∃ query ≠ [], firstValue (bytes "query") request.values = query ∧
        ∃ before i after, cfg = before ++ i :: after ∧
          (∀ earlier ∈ before, sewordCheck regex query earlier = .ok false) ∧
            (Str.find query i.searchword 0).isSome ∧ ¬i.Compiles regex := by
  rw [checkSeword, checkField]
  generalize firstValue (bytes "query") request.values = query
  by_cases missing : query = []
  · rw [if_pos ⟨rfl, missing⟩]
    refine iff_of_true ⟨false, rfl⟩ ?_
    rintro ⟨_, present, rfl, _⟩
    exact present missing
  · rw [if_neg (not_and_of_not_right _ missing), Fallible.exists_anyM_iff]
    simp only [exists_sewordCheck_iff]
    refine ⟨fun answered => ?_, fun unreached before i after same earlier found => ?_⟩
    · rintro ⟨_, _, rfl, before, i, after, same, earlier, found, refused⟩
      exact refused (answered before i after same earlier found)
    · by_contra refused
      exact unreached ⟨query, missing, rfl, before, i, after, same, earlier, found, refused⟩

theorem checkLbs_answers (cfg : List LocationInfo) {request : TransmitRequest}
    (unique : request.UniqueKeys) :
    Fallible.Answers (checkLbs cfg request)
      (∃ prov city, request.Reads (bytes "province_name") prov ∧
        request.Reads (bytes "city_name") city ∧ ∃ i ∈ cfg, lbsCheck prov city i = true) := by
  obtain ⟨reads_prov, reads_city⟩ := reads_locate request
  apply (Fallible.Answers.anyM fun i _ => Fallible.Answers.pure _).congr
  refine ⟨?_, ?_⟩
  · intro alarm
    obtain ⟨i, member, holds⟩ := alarm
    exact ⟨_, _, reads_prov, reads_city, i, member, holds⟩
  · intro alarm
    obtain ⟨prov, city, reads, reads', i, member, holds⟩ := alarm
    obtain rfl := unique.reads_unique reads_prov reads
    obtain rfl := unique.reads_unique reads_city reads'
    exact ⟨i, member, holds⟩

end Checklist

/-! ### What a rule answers -/

namespace ProcessImpl

/-- A list of conditions adds its check when it is not empty. -/
theorem chk_withRule {Config : Type} {conds : List Config}
    {addrule : ChecklistItem → List Config → ChecklistItem}
    {check : TransmitRequest → Except CheckFault Bool}
    (adds : ∀ item, (addrule item conds).chk = item.chk ++ [check]) (item : ChecklistItem) :
    (withRule conds addrule item).chk = item.chk ++ if conds = [] then [] else [check] := by
  rw [withRule]
  by_cases empty : conds = []
  · rw [if_neg (not_not_intro (List.length_eq_zero_iff.mpr empty)), if_pos empty,
      List.append_nil]
  · rw [if_pos fun zero => empty (List.length_eq_zero_iff.mp zero), if_neg empty, adds]

/-- The checks of a rule are those of the lists that are not empty. -/
theorem chk_makeCheckListItem (regex : Regex) (conds : CheckListCond) :
    (makeCheckListItem regex conds).chk =
      (if conds.srcids = [] then [] else [Checklist.checkSrcid conds.srcids]) ++
      ((if conds.sewords = [] then [] else [Checklist.checkSeword regex conds.sewords]) ++
      ((if conds.lbs = [] then [] else [Checklist.checkLbs conds.lbs]) ++
      ((if conds.cookie = [] then [] else [Checklist.checkCookie conds.cookie]) ++
      ((if conds.cluster = [] then [] else [Checklist.checkCluster conds.cluster]) ++
      ((if conds.resno = [] then [] else [Checklist.checkResno conds.resno]) ++
      ((if conds.sid = [] then [] else [Checklist.checkSid conds.sid]) ++
      if conds.type = [] then [] else [Checklist.checkType conds.type])))))) := by
  rw [makeCheckListItem, chk_withRule fun _ => rfl, chk_withRule fun _ => rfl,
    chk_withRule fun _ => rfl, chk_withRule fun _ => rfl, chk_withRule fun _ => rfl,
    chk_withRule fun _ => rfl, chk_withRule fun _ => rfl, chk_withRule fun _ => rfl]
  simp only [ChecklistItem.new, List.nil_append, List.append_assoc]

theorem forall_chk_iff (regex : Regex) (conds : CheckListCond)
    (property : (TransmitRequest → Except CheckFault Bool) → Prop) :
    (∀ check ∈ (makeCheckListItem regex conds).chk, property check) ↔
      (conds.srcids ≠ [] → property (Checklist.checkSrcid conds.srcids)) ∧
      (conds.sewords ≠ [] → property (Checklist.checkSeword regex conds.sewords)) ∧
      (conds.lbs ≠ [] → property (Checklist.checkLbs conds.lbs)) ∧
      (conds.cookie ≠ [] → property (Checklist.checkCookie conds.cookie)) ∧
      (conds.cluster ≠ [] → property (Checklist.checkCluster conds.cluster)) ∧
      (conds.resno ≠ [] → property (Checklist.checkResno conds.resno)) ∧
      (conds.sid ≠ [] → property (Checklist.checkSid conds.sid)) ∧
      (conds.type ≠ [] → property (Checklist.checkType conds.type)) := by
  have forall_check (empty : Prop) [Decidable empty]
      (check : TransmitRequest → Except CheckFault Bool) :
      (∀ i ∈ if empty then [] else [check], property i) ↔ (¬empty → property check) := by
    by_cases skipped : empty <;> simp [skipped]
  simp only [chk_makeCheckListItem, List.forall_mem_append, forall_check, ne_eq]

/-- The first two checks of a rule, in front of those that do not fail. -/
theorem exists_chk_eq (regex : Regex) (conds : CheckListCond) (request : TransmitRequest) :
    ∃ others, (makeCheckListItem regex conds).chk =
        (if conds.srcids = [] then [] else [Checklist.checkSrcid conds.srcids]) ++
          ((if conds.sewords = [] then [] else [Checklist.checkSeword regex conds.sewords]) ++
            others) ∧
      ∀ check ∈ others, ∃ answer, check request = .ok answer := by
  have answers (skipped : Prop) [Decidable skipped]
      {check : TransmitRequest → Except CheckFault Bool}
      (answered : ∃ answer, check request = .ok answer) :
      ∀ i ∈ if skipped then [] else [check], ∃ answer, i request = .ok answer := by
    intro i member
    split at member
    · cases member
    · rwa [List.mem_singleton.mp member]
  refine ⟨_, chk_makeCheckListItem regex conds, ?_⟩
  simp only [List.forall_mem_append]
  exact ⟨answers _ (Fallible.Answers.anyM fun _ _ => .pure _).succeeds,
    answers _ (Checklist.exists_checkField_pure ..),
    answers _ (Checklist.exists_checkField_pure ..),
    answers _ (Checklist.exists_checkField_pure ..),
    answers _ (Checklist.exists_checkField_pure ..),
    answers _ (Checklist.exists_checkField_pure ..)⟩

end ProcessImpl

namespace ChecklistItem

section Meaning

variable (regex : Regex) (conds : CheckListCond) (request : TransmitRequest)

/-- What a rule is for: for each list that is not empty, one of its conditions holds for the
value of the field. The srcid, the query and the cluster need a value. -/
structure Alarms : Prop where
  srcids : conds.srcids ≠ [] → Checklist.Alarmed request (bytes "srcid") true conds.srcids
    fun srcid cfg => srcidCheck srcid cfg = true
  sewords : conds.sewords ≠ [] → Checklist.Alarmed request (bytes "query") true conds.sewords
    fun query cfg => sewordCheck regex query cfg = .ok true
  lbs : conds.lbs ≠ [] → ∃ prov city, request.Reads (bytes "province_name") prov ∧
    request.Reads (bytes "city_name") city ∧ ∃ cfg ∈ conds.lbs, lbsCheck prov city cfg = true
  cookie : conds.cookie ≠ [] → Checklist.Alarmed request (bytes "cookie") false conds.cookie
    fun cookie cfg => cookieCheck cookie cfg = true
  cluster : conds.cluster ≠ [] → Checklist.Alarmed request (bytes "cluster") true conds.cluster
    fun cluster cfg => clusterCheck cluster cfg = true
  resno : conds.resno ≠ [] → Checklist.Alarmed request (bytes "resno") false conds.resno
    fun resno cfg => resnoCheck resno cfg = true
  sid : conds.sid ≠ [] → Checklist.Alarmed request (bytes "sid") false conds.sid
    fun sid cfg => sidCheck sid cfg = true
  type : conds.type ≠ [] → Checklist.Alarmed request (bytes "type") false conds.type
    fun type cfg => typeCheck type cfg = true

variable {regex conds request}

/-- When no check of a rule fails, they decide its meaning. -/
theorem chk_decides (regex : Regex) (conds : CheckListCond) (unique : request.UniqueKeys) :
    Fallible.Decides ((ProcessImpl.makeCheckListItem regex conds).chk.allM fun i => i request)
      (Alarms regex conds request) := by
  have rule {skipped : Prop} [Decidable skipped] {check : TransmitRequest → Except CheckFault Bool}
      {claim : Prop} (decides : Fallible.Decides (check request) claim) :
      Fallible.Decides ((if skipped then [] else [check]).allM fun i => i request)
        (¬skipped → claim) := Fallible.Decides.allM_ite skipped decides
  have srcids : Fallible.Decides (Checklist.checkSrcid conds.srcids request) _ :=
    Checklist.checkField_pure_decides unique
  have sewords : Fallible.Decides (Checklist.checkSeword regex conds.sewords request) _ :=
    Checklist.checkField_decides unique fun _ _ _ => Fallible.Decides.refl _
  have lbs := (Checklist.checkLbs_answers conds.lbs unique).decides
  have cookie : Fallible.Decides (Checklist.checkCookie conds.cookie request) _ :=
    Checklist.checkField_pure_decides unique
  have cluster : Fallible.Decides (Checklist.checkCluster conds.cluster request) _ :=
    Checklist.checkField_pure_decides unique
  have resno : Fallible.Decides (Checklist.checkResno conds.resno request) _ :=
    Checklist.checkField_pure_decides unique
  have sid : Fallible.Decides (Checklist.checkSid conds.sid request) _ :=
    Checklist.checkField_pure_decides unique
  have type : Fallible.Decides (Checklist.checkType conds.type request) _ :=
    Checklist.checkField_pure_decides unique
  rw [ProcessImpl.chk_makeCheckListItem]
  refine ((rule srcids).allM_append ((rule sewords).allM_append ((rule lbs).allM_append
    ((rule cookie).allM_append ((rule cluster).allM_append ((rule resno).allM_append
      ((rule sid).allM_append (rule type)))))))).congr ⟨?_, ?_⟩
  · intro answers
    obtain ⟨srcids, sewords, lbs, cookie, cluster, resno, sid, type⟩ := answers
    exact ⟨srcids, sewords, lbs, cookie, cluster, resno, sid, type⟩
  · intro alarms
    obtain ⟨srcids, sewords, lbs, cookie, cluster, resno, sid, type⟩ := alarms
    exact ⟨srcids, sewords, lbs, cookie, cluster, resno, sid, type⟩

/-- They answer when the patterns of the rule compile. -/
theorem chk_answers (unique : request.UniqueKeys)
    (compiles : ∀ cfg ∈ conds.sewords, cfg.Compiles regex) :
    Fallible.Answers ((ProcessImpl.makeCheckListItem regex conds).chk.allM fun i => i request)
      (Alarms regex conds request) := by
  have sewords : ∃ answer, Checklist.checkSeword regex conds.sewords request = .ok answer := by
    rw [Checklist.exists_checkSeword_iff]
    rintro ⟨_, _, _, before, i, after, same, _, _, refused⟩
    exact refused (compiles i (same ▸ List.mem_append_right _ List.mem_cons_self))
  have answered : ∀ check ∈ (ProcessImpl.makeCheckListItem regex conds).chk,
      ∃ answer, check request = .ok answer :=
    (ProcessImpl.forall_chk_iff regex conds fun check => ∃ answer, check request = .ok answer).mpr
      ⟨fun _ => Checklist.exists_checkField_pure .., fun _ => sewords,
        fun _ => (Checklist.checkLbs_answers conds.lbs unique).succeeds,
        fun _ => Checklist.exists_checkField_pure .., fun _ => Checklist.exists_checkField_pure ..,
        fun _ => Checklist.exists_checkField_pure .., fun _ => Checklist.exists_checkField_pure ..,
        fun _ => Checklist.exists_checkField_pure ..⟩
  obtain ⟨abnormal, tested⟩ := (Fallible.Answers.allM fun check member =>
    Fallible.Answers.of_exists (answered check member)).succeeds
  exact ⟨abnormal, tested, chk_decides regex conds unique abnormal tested⟩

end Meaning

/-! ### The order of entries and conditions -/

theorem ne_nil_iff_of_perm {Config : Type} {conds other : List Config}
    (perm : conds.Perm other) : conds ≠ [] ↔ other ≠ [] :=
  not_congr ⟨fun empty => (empty ▸ perm).nil_eq.symm, fun empty => (empty ▸ perm).eq_nil⟩

theorem alarmed_iff_of_perm {Config : Type} {request other : TransmitRequest}
    {conds conds' : List Config} (entries : request.values.Perm other.values)
    (perm : conds.Perm conds') (field : Str) (needsValue : Bool) (check : Str → Config → Prop) :
    Checklist.Alarmed request field needsValue conds check ↔
      Checklist.Alarmed other field needsValue conds' check := by
  simp only [Checklist.Alarmed, TransmitRequest.reads_iff_of_perm entries, perm.mem_iff]

/-- The same conditions in every list, in any order. -/
structure SameConds (conds other : CheckListCond) : Prop where
  srcids : conds.srcids.Perm other.srcids
  sewords : conds.sewords.Perm other.sewords
  lbs : conds.lbs.Perm other.lbs
  cookie : conds.cookie.Perm other.cookie
  cluster : conds.cluster.Perm other.cluster
  sid : conds.sid.Perm other.sid
  resno : conds.resno.Perm other.resno
  type : conds.type.Perm other.type

/-- The meaning of a rule depends on no order. -/
theorem alarms_iff_of_perm (regex : Regex) {conds conds' : CheckListCond}
    {request other : TransmitRequest} (same : SameConds conds conds')
    (entries : request.values.Perm other.values) :
    Alarms regex conds request ↔ Alarms regex conds' other := by
  have alarmed {Config : Type} {list list' : List Config} (perm : list.Perm list')
      (field : Str) (needsValue : Bool) (check : Str → Config → Prop) :
      (list ≠ [] → Checklist.Alarmed request field needsValue list check) ↔
        (list' ≠ [] → Checklist.Alarmed other field needsValue list' check) :=
    imp_congr (ne_nil_iff_of_perm perm) (alarmed_iff_of_perm entries perm field needsValue check)
  have lbs : (conds.lbs ≠ [] → ∃ prov city, request.Reads (bytes "province_name") prov ∧
        request.Reads (bytes "city_name") city ∧
          ∃ cfg ∈ conds.lbs, lbsCheck prov city cfg = true) ↔
      (conds'.lbs ≠ [] → ∃ prov city, other.Reads (bytes "province_name") prov ∧
        other.Reads (bytes "city_name") city ∧
          ∃ cfg ∈ conds'.lbs, lbsCheck prov city cfg = true) := by
    simp only [ne_nil_iff_of_perm same.lbs, TransmitRequest.reads_iff_of_perm entries,
      same.lbs.mem_iff]
  refine ⟨?_, ?_⟩
  · intro alarms
    exact ⟨(alarmed same.srcids ..).mp alarms.srcids, (alarmed same.sewords ..).mp alarms.sewords,
      lbs.mp alarms.lbs, (alarmed same.cookie ..).mp alarms.cookie,
      (alarmed same.cluster ..).mp alarms.cluster, (alarmed same.resno ..).mp alarms.resno,
      (alarmed same.sid ..).mp alarms.sid, (alarmed same.type ..).mp alarms.type⟩
  · intro alarms
    exact ⟨(alarmed same.srcids ..).mpr alarms.srcids,
      (alarmed same.sewords ..).mpr alarms.sewords, lbs.mpr alarms.lbs,
      (alarmed same.cookie ..).mpr alarms.cookie, (alarmed same.cluster ..).mpr alarms.cluster,
      (alarmed same.resno ..).mpr alarms.resno, (alarmed same.sid ..).mpr alarms.sid,
      (alarmed same.type ..).mpr alarms.type⟩

theorem description_withRule {Config : Type} {conds : List Config}
    {addrule : ChecklistItem → List Config → ChecklistItem}
    (keeps : ∀ item, (addrule item conds).description = item.description) (item : ChecklistItem) :
    (ProcessImpl.withRule conds addrule item).description = item.description := by
  rw [ProcessImpl.withRule]
  split
  · exact keeps item
  · rfl

theorem description_makeCheckListItem (regex : Regex) (conds : CheckListCond) :
    (ProcessImpl.makeCheckListItem regex conds).description = conds.description := by
  rw [ProcessImpl.makeCheckListItem, description_withRule fun _ => rfl,
    description_withRule fun _ => rfl, description_withRule fun _ => rfl,
    description_withRule fun _ => rfl, description_withRule fun _ => rfl,
    description_withRule fun _ => rfl, description_withRule fun _ => rfl,
    description_withRule fun _ => rfl, new]

/-- What a rule answers to a request with different keys. -/
theorem check_eq (regex : Regex) (conds : CheckListCond) (request : TransmitRequest)
    (unique : request.UniqueKeys) (compiles : ∀ cfg ∈ conds.sewords, cfg.Compiles regex) :
    ∃ abnormal, (ProcessImpl.makeCheckListItem regex conds).check request =
        .ok (abnormal, if abnormal then conds.description else []) ∧
      (abnormal = true ↔ Alarms regex conds request) := by
  obtain ⟨abnormal, tested, abnormal_iff⟩ := chk_answers unique compiles
  refine ⟨abnormal, (Fallible.bind_eq_ok_iff ..).mpr ⟨abnormal, tested, ?_⟩, abnormal_iff⟩
  rw [description_makeCheckListItem, Fallible.pure_eq_ok_iff]

/-- **A rule raises an alarm exactly when each of its lists that is not empty has a condition
that holds for the request, in any order of the entries and of the conditions.** -/
theorem check_eq_alarms (regex : Regex) (conds : CheckListCond) (request : TransmitRequest)
    (unique : request.UniqueKeys) (compiles : ∀ cfg ∈ conds.sewords, cfg.Compiles regex) :
    ∃ abnormal, (ProcessImpl.makeCheckListItem regex conds).check request =
        .ok (abnormal, if abnormal then conds.description else []) ∧
      (abnormal = true ↔ Alarms regex conds request) ∧
      ∀ conds' request', SameConds conds conds' → request.values.Perm request'.values →
        (ProcessImpl.makeCheckListItem regex conds').check request' =
          .ok (abnormal, if abnormal then conds'.description else []) := by
  obtain ⟨abnormal, checked, abnormal_iff⟩ := check_eq regex conds request unique compiles
  refine ⟨abnormal, checked, abnormal_iff, fun conds' request' same entries => ?_⟩
  obtain ⟨answer, checked', answer_iff⟩ := check_eq regex conds' request'
    ((entries.map MapEntry.key).nodup_iff.mp unique)
    fun cfg member => compiles cfg (same.sewords.mem_iff.mpr member)
  have equal : answer = abnormal := Bool.eq_iff_iff.mpr
    (answer_iff.trans ((alarms_iff_of_perm regex same entries).symm.trans abnormal_iff.symm))
  rw [checked', equal]

/-- A request with two keys raises an alarm, and also with its entries and the conditions of
the srcid the other way round. -/
theorem check_alarms_either_way :
    (ProcessImpl.makeCheckListItem
        ⟨fun _ => true, fun regstr query => some (regstr = bytes "^ab.+" ∧ query = bytes "abc")⟩
        { srcids := [⟨bytes "2", .condEqual⟩, ⟨bytes "1", .condEqual⟩]
          sewords := [⟨bytes "ab", .condIsFront⟩]
          description := bytes "d" }).check
      ⟨[⟨bytes "srcid", bytes "1"⟩, ⟨bytes "query", bytes "abc"⟩]⟩ = .ok (true, bytes "d") := by
  obtain ⟨abnormal, checked, _, ordered⟩ := check_eq_alarms
    ⟨fun _ => true, fun regstr query => some (regstr = bytes "^ab.+" ∧ query = bytes "abc")⟩
    { srcids := [⟨bytes "1", .condEqual⟩, ⟨bytes "2", .condEqual⟩]
      sewords := [⟨bytes "ab", .condIsFront⟩]
      description := bytes "d" }
    ⟨[⟨bytes "query", bytes "abc"⟩, ⟨bytes "srcid", bytes "1"⟩]⟩
    (by unfold TransmitRequest.UniqueKeys; decide +kernel) fun _ _ => ⟨fun _ => rfl, fun _ => rfl⟩
  have alarm : abnormal = true := by
    cases abnormal with
    | true => rfl
    | false => exact absurd checked (by decide +kernel)
  rw [alarm] at ordered
  exact ordered _ _
    ⟨.swap .., .refl _, .refl _, .refl _, .refl _, .refl _, .refl _, .refl _⟩ (.swap ..)

end ChecklistItem

end LogProcess
