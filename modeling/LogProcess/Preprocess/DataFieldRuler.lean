import LogProcess.Foundation.Bytes
import LogProcess.Foundation.OrderedMap
import LogProcess.Foundation.Runs

/-! # Field rules

`DataFieldRuler` of `preprocess/data_preprocess_action.cc` keeps the rules of the fields of each
application in one table and their flags in another one. Reading an application that is missing
from a table makes an empty entry in this table, and an update that finds an entry in only one of
them is lost (`DataFieldRuler.updates_iff`).
-/

namespace LogProcess

/-- The variables of one field after their lookups. The flag of a field without the setting
`trans` is what its variable held before. -/
structure FieldSetting where
  field : Str := []
  regex : Str := []
  trans : Bool

/-- The groups `preprocess_action` and `srcid_cfg` of the configuration. -/
structure FieldCfg where
  preprocessAction : OrderedMap Str (List FieldSetting)
  srcidCfg : OrderedMap Str Str

structure DataFieldRuler where
  appFieldRegexes : OrderedMap Str (OrderedMap Str Str)
  appFieldIstrans : OrderedMap Str (OrderedMap Str Bool)
  srcidType : OrderedMap Str Str

namespace DataFieldRuler

/-! ### The methods -/

/-- The constructor. -/
def new : DataFieldRuler := ⟨.empty, .empty, .empty⟩

/-- Let the srcids belong to a type. -/
def setTypes (srcidType : OrderedMap Str Str) (srcids : List Str) (type : Str) :
    OrderedMap Str Str :=
  srcids.foldl (fun types i => types.assign i type) srcidType

/-- One round of the loop of `LoadConfig`, which throws when the type has no fields. -/
def loadType (cfg : FieldCfg) (ruler : DataFieldRuler) (tp : Str) : Option DataFieldRuler :=
  (cfg.preprocessAction.find? tp.cstr).map fun tpcfg =>
    let srcids := (cfg.srcidCfg.find? tp.cstr).getD []
    { appFieldRegexes := ruler.appFieldRegexes.assign tp <|
        tpcfg.foldl (fun regexes i => regexes.assign i.field i.regex)
          ((ruler.appFieldRegexes.find? tp).getD .empty)
      appFieldIstrans := ruler.appFieldIstrans.assign tp <|
        tpcfg.foldl (fun istrans i => istrans.assign i.field i.trans)
          ((ruler.appFieldIstrans.find? tp).getD .empty)
      srcidType := setTypes ruler.srcidType (Str.splitAt 124 srcids) tp }

def loadConfig (cfg : FieldCfg) (types : List Str) (ruler : DataFieldRuler) :
    Option DataFieldRuler :=
  types.foldlM (loadType cfg) ruler

variable (ruler : DataFieldRuler)

/-- `GetRule`, with the entry that `operator[]` makes for an application that is missing. -/
def getRule (app : Str) : OrderedMap Str Str × DataFieldRuler :=
  ((ruler.appFieldRegexes.find? app).getD .empty,
    { ruler with appFieldRegexes := ruler.appFieldRegexes.insertNew app .empty })

/-- `GetIsTrans`, with the entry that `operator[]` makes for an application that is missing. -/
def getIsTrans (app : Str) : OrderedMap Str Bool × DataFieldRuler :=
  ((ruler.appFieldIstrans.find? app).getD .empty,
    { ruler with appFieldIstrans := ruler.appFieldIstrans.insertNew app .empty })

def getType (srcid : Str) : Str := (ruler.srcidType.find? srcid).getD []

/-- The deletion of a field from two entries of one application. -/
def deleteField (type field : Str) (fieldRegexes : OrderedMap Str Str)
    (fieldIstrans : OrderedMap Str Bool) : DataFieldRuler :=
  if (fieldRegexes.find? field).isSome ∧ (fieldIstrans.find? field).isSome then
    { ruler with
      appFieldRegexes := ruler.appFieldRegexes.assign type (fieldRegexes.erase field)
      appFieldIstrans := ruler.appFieldIstrans.assign type (fieldIstrans.erase field) }
  else ruler

/-- The update of a field in two entries of one application, and its insertion when there is no
rule for it. -/
def setField (type field regex : Str) (istrans : Bool) (fieldRegexes : OrderedMap Str Str)
    (fieldIstrans : OrderedMap Str Bool) : DataFieldRuler :=
  if (fieldRegexes.find? field).isSome then
    { ruler with
      appFieldRegexes := ruler.appFieldRegexes.assign type (fieldRegexes.assign field regex)
      appFieldIstrans := ruler.appFieldIstrans.assign type (fieldIstrans.assign field istrans) }
  else
    { ruler with
      appFieldRegexes := ruler.appFieldRegexes.assign type (fieldRegexes.insertNew field regex)
      appFieldIstrans := ruler.appFieldIstrans.assign type (fieldIstrans.insertNew field istrans) }

/-- The branch for a type that is missing from one of the tables. The method `insert` of a table
leaves an entry that is there alone. -/
def insertType (type field regex : Str) (istrans : Bool) (newsrcids : List Str) :
    DataFieldRuler where
  appFieldRegexes := ruler.appFieldRegexes.insertNew type (OrderedMap.empty.insertNew field regex)
  appFieldIstrans := ruler.appFieldIstrans.insertNew type (OrderedMap.empty.insertNew field istrans)
  srcidType := setTypes ruler.srcidType newsrcids type

def updateConfig (type field : Str) (action : Bool) (regex : Str) (istrans : Bool)
    (newsrcids : List Str) : DataFieldRuler :=
  if !action then
    match ruler.appFieldRegexes.find? type, ruler.appFieldIstrans.find? type with
    | some fieldRegexes, some fieldIstrans => ruler.deleteField type field fieldRegexes fieldIstrans
    | _, _ => ruler
  else
    match ruler.appFieldRegexes.find? type, ruler.appFieldIstrans.find? type with
    | some fieldRegexes, some fieldIstrans =>
        ruler.setField type field regex istrans fieldRegexes fieldIstrans
    | _, _ => ruler.insertType type field regex istrans newsrcids

/-- A call of a public method. -/
inductive Call where
  | getRule (app : Str)
  | getIsTrans (app : Str)
  | getType (srcid : Str)
  | updateConfig (type field : Str) (action : Bool) (regex : Str) (istrans : Bool)
      (newsrcids : List Str)

def Call.apply (ruler : DataFieldRuler) : Call → DataFieldRuler
  | .getRule app => (ruler.getRule app).2
  | .getIsTrans app => (ruler.getIsTrans app).2
  | .getType _ => ruler
  | .updateConfig type field action regex istrans newsrcids =>
      ruler.updateConfig type field action regex istrans newsrcids

theorem find?_setTypes (srcidType : OrderedMap Str Str) (srcids : List Str) (type srcid : Str) :
    (setTypes srcidType srcids type).find? srcid =
      if srcid ∈ srcids then some type else srcidType.find? srcid := by
  induction srcids generalizing srcidType with
  | nil => rfl
  | cons i rest ih =>
      rw [setTypes, List.foldl_cons, ← setTypes, ih, OrderedMap.find?_assign]
      simp only [List.mem_cons]
      split_ifs <;> simp_all

/-! ### Entries in one table -/

section Tables

variable {First Second : Type} {first first' : OrderedMap Str (OrderedMap Str First)}
  {second second' : OrderedMap Str (OrderedMap Str Second)}

/-- An entry of the first table that the second one lacks is empty. -/
def EmptyWithout (first : OrderedMap Str (OrderedMap Str First))
    (second : OrderedMap Str (OrderedMap Str Second)) : Prop :=
  ∀ app fields, first.find? app = some fields → second.find? app = none → fields = .empty

/-- A change at an application that the second table has. -/
theorem EmptyWithout.change (without : EmptyWithout first second) {type : Str}
    (kept : ∀ app, app ≠ type → first'.find? app = first.find? app)
    (kept' : ∀ app, app ≠ type → second'.find? app = second.find? app)
    (present : (second'.find? type).isSome) : EmptyWithout first' second' := by
  intro app fields found missing
  by_cases same : app = type
  · rw [← same, missing] at present
    exact absurd present Bool.false_ne_true
  · exact without app fields (kept app same ▸ found) (kept' app same ▸ missing)

/-- A read of an application that is missing. -/
theorem EmptyWithout.insertNew (without : EmptyWithout first second) (type : Str) :
    EmptyWithout (first.insertNew type .empty) second := by
  intro app fields found missing
  rw [OrderedMap.find?_insertNew] at found
  split at found
  · rename_i same
    cases earlier : first.find? type with
    | none =>
        rw [earlier, Option.getD_none, Option.some.injEq] at found
        exact found.symm
    | some old =>
        rw [earlier, Option.getD_some, Option.some.injEq] at found
        exact without type fields (found ▸ earlier) (same ▸ missing)
  · exact without app fields found missing

end Tables

section Reached

variable {ruler : DataFieldRuler}

/-- An update changes nothing, writes back both entries of its type, or inserts the type. -/
theorem updateConfig_cases (holds : DataFieldRuler → Prop) {type field : Str} {action : Bool}
    {regex : Str} {istrans : Bool} {newsrcids : List Str} (unchanged : holds ruler)
    (assigned : ∀ fieldRegexes fieldIstrans, holds { ruler with
      appFieldRegexes := ruler.appFieldRegexes.assign type fieldRegexes
      appFieldIstrans := ruler.appFieldIstrans.assign type fieldIstrans })
    (inserted : action = true → holds (ruler.insertType type field regex istrans newsrcids)) :
    holds (ruler.updateConfig type field action regex istrans newsrcids) := by
  rw [updateConfig]
  split
  next =>
    split
    next =>
      rw [deleteField]
      split
      · exact assigned ..
      · exact unchanged
    next => exact unchanged
  next set =>
    split
    next =>
      rw [setField]
      split <;> exact assigned ..
    next => exact inserted (by simpa using set)

/-- An entry that only one of the tables has is empty. -/
structure HalfEmpty (ruler : DataFieldRuler) : Prop where
  regexes : EmptyWithout ruler.appFieldRegexes ruler.appFieldIstrans
  istrans : EmptyWithout ruler.appFieldIstrans ruler.appFieldRegexes

theorem halfEmpty_new : HalfEmpty new := ⟨nofun, nofun⟩

/-- Both tables get an entry for one type. -/
theorem HalfEmpty.change {changed : DataFieldRuler} (half : HalfEmpty ruler) (type : Str)
    (regexes : ∀ app, app ≠ type →
      changed.appFieldRegexes.find? app = ruler.appFieldRegexes.find? app)
    (istrans : ∀ app, app ≠ type →
      changed.appFieldIstrans.find? app = ruler.appFieldIstrans.find? app)
    (present : (changed.appFieldRegexes.find? type).isSome)
    (present' : (changed.appFieldIstrans.find? type).isSome) : HalfEmpty changed :=
  ⟨half.regexes.change regexes istrans present', half.istrans.change istrans regexes present⟩

theorem HalfEmpty.loadType (half : HalfEmpty ruler) {cfg : FieldCfg} {tp : Str}
    {loaded : DataFieldRuler} (load : DataFieldRuler.loadType cfg ruler tp = some loaded) :
    HalfEmpty loaded := by
  obtain ⟨tpcfg, _, rfl⟩ := Option.map_eq_some_iff.mp load
  exact half.change tp (fun _ => OrderedMap.find?_assign_of_ne _ _)
    (fun _ => OrderedMap.find?_assign_of_ne _ _) (by simp) (by simp)

theorem HalfEmpty.getRule (half : HalfEmpty ruler) (app : Str) :
    HalfEmpty (ruler.getRule app).2 :=
  ⟨half.regexes.insertNew app, half.istrans.change (fun _ _ => rfl)
    (fun _ => OrderedMap.find?_insertNew_of_ne _ _) (by simp [DataFieldRuler.getRule])⟩

theorem HalfEmpty.getIsTrans (half : HalfEmpty ruler) (app : Str) :
    HalfEmpty (ruler.getIsTrans app).2 :=
  ⟨half.regexes.change (fun _ _ => rfl) (fun _ => OrderedMap.find?_insertNew_of_ne _ _)
    (by simp [DataFieldRuler.getIsTrans]), half.istrans.insertNew app⟩

theorem HalfEmpty.updateConfig (half : HalfEmpty ruler) (type field : Str) (action : Bool)
    (regex : Str) (istrans : Bool) (newsrcids : List Str) :
    HalfEmpty (ruler.updateConfig type field action regex istrans newsrcids) :=
  updateConfig_cases HalfEmpty half
    (fun _ _ => half.change type (fun _ => OrderedMap.find?_assign_of_ne _ _)
      (fun _ => OrderedMap.find?_assign_of_ne _ _) (by simp) (by simp))
    fun _ => half.change type (fun _ => OrderedMap.find?_insertNew_of_ne _ _)
      (fun _ => OrderedMap.find?_insertNew_of_ne _ _) (by simp [insertType]) (by simp [insertType])

end Reached

/-! ### Updates -/

/-- What an update of a field is for: the rule and the flag that are read afterwards, with the
other fields and the other applications as before. -/
structure Updates (before after : DataFieldRuler) (type field : Str) (regex : Option Str)
    (istrans : Option Bool) : Prop where
  rule : (after.getRule type).1.find? field = regex
  flag : (after.getIsTrans type).1.find? field = istrans
  rules : ∀ other, other ≠ field →
    (after.getRule type).1.find? other = (before.getRule type).1.find? other
  flags : ∀ other, other ≠ field →
    (after.getIsTrans type).1.find? other = (before.getIsTrans type).1.find? other
  regexes : ∀ app, app ≠ type → after.appFieldRegexes.find? app = before.appFieldRegexes.find? app
  istrans : ∀ app, app ≠ type → after.appFieldIstrans.find? app = before.appFieldIstrans.find? app

/-- An update takes effect when the type is in both tables or in neither, and when a flag that
is there without a rule is the new one already. -/
def Settable (ruler : DataFieldRuler) (type field : Str) (istrans : Bool) : Prop :=
  match ruler.appFieldRegexes.find? type, ruler.appFieldIstrans.find? type with
  | some fieldRegexes, some fieldIstrans =>
      fieldRegexes.find? field = none → ∀ flag ∈ fieldIstrans.find? field, flag = istrans
  | none, none => True
  | _, _ => False

/-- A deletion takes effect when both tables have the field, or neither has. -/
def Deletable (ruler : DataFieldRuler) (type field : Str) : Prop :=
  ∀ fieldRegexes ∈ ruler.appFieldRegexes.find? type,
    ∀ fieldIstrans ∈ ruler.appFieldIstrans.find? type,
      (fieldRegexes.find? field).isSome ↔ (fieldIstrans.find? field).isSome

section Updating

variable {ruler : DataFieldRuler} {type field regex : Str} {istrans : Bool}
  {fieldRegexes newRegexes : OrderedMap Str Str} {fieldIstrans newIstrans : OrderedMap Str Bool}

/-- Writing back two entries changes what is read for their type. -/
theorem updates_assign_iff (found : ruler.appFieldRegexes.find? type = some fieldRegexes)
    (found' : ruler.appFieldIstrans.find? type = some fieldIstrans) (rule : Option Str)
    (flag : Option Bool) :
    Updates ruler { ruler with
        appFieldRegexes := ruler.appFieldRegexes.assign type newRegexes
        appFieldIstrans := ruler.appFieldIstrans.assign type newIstrans } type field rule flag ↔
      newRegexes.find? field = rule ∧ newIstrans.find? field = flag ∧
        (∀ other, other ≠ field → newRegexes.find? other = fieldRegexes.find? other) ∧
        ∀ other, other ≠ field → newIstrans.find? other = fieldIstrans.find? other := by
  refine ⟨?_, ?_⟩
  · rintro ⟨rule, flag, rules, flags, _, _⟩
    simp only [getRule, getIsTrans, OrderedMap.find?_assign_self, Option.getD_some, found,
      found'] at rule flag rules flags
    exact ⟨rule, flag, rules, flags⟩
  · rintro ⟨rule, flag, rules, flags⟩
    refine ⟨?_, ?_, ?_, ?_, fun _ => OrderedMap.find?_assign_of_ne _ _,
      fun _ => OrderedMap.find?_assign_of_ne _ _⟩
    all_goals
      simp only [getRule, getIsTrans, OrderedMap.find?_assign_self, Option.getD_some, found,
        found']
      assumption

theorem updates_setField_iff (found : ruler.appFieldRegexes.find? type = some fieldRegexes)
    (found' : ruler.appFieldIstrans.find? type = some fieldIstrans) :
    Updates ruler (ruler.setField type field regex istrans fieldRegexes fieldIstrans) type field
        (some regex) (some istrans) ↔
      (fieldRegexes.find? field = none → ∀ flag ∈ fieldIstrans.find? field, flag = istrans) := by
  rw [setField]
  cases rule : fieldRegexes.find? field with
  | some earlier =>
      simp only [Option.isSome_some, ↓reduceIte, reduceCtorEq, false_imp_iff, iff_true]
      exact (updates_assign_iff found found' ..).mpr ⟨OrderedMap.find?_assign_self ..,
        OrderedMap.find?_assign_self .., fun _ => OrderedMap.find?_assign_of_ne _ _,
        fun _ => OrderedMap.find?_assign_of_ne _ _⟩
  | none =>
      simp only [Option.isSome_none, Bool.false_eq_true, ↓reduceIte, forall_const]
      rw [updates_assign_iff found found', OrderedMap.find?_insertNew_self,
        OrderedMap.find?_insertNew_self, rule, Option.getD_none, Option.some.injEq,
        and_iff_right rfl, and_iff_left ⟨fun _ => OrderedMap.find?_insertNew_of_ne _ _,
          fun _ => OrderedMap.find?_insertNew_of_ne _ _⟩]
      -- the method `insert` keeps a flag that is there
      cases fieldIstrans.find? field with
      | none => exact ⟨fun _ => nofun, fun _ => rfl⟩
      | some flag => simp only [Option.getD_some, Option.mem_def, Option.some.injEq, forall_eq']

theorem updates_deleteField_iff (found : ruler.appFieldRegexes.find? type = some fieldRegexes)
    (found' : ruler.appFieldIstrans.find? type = some fieldIstrans) :
    Updates ruler (ruler.deleteField type field fieldRegexes fieldIstrans) type field none none ↔
      ((fieldRegexes.find? field).isSome ↔ (fieldIstrans.find? field).isSome) := by
  rw [deleteField]
  by_cases both : (fieldRegexes.find? field).isSome ∧ (fieldIstrans.find? field).isSome
  · rw [if_pos both, updates_assign_iff found found']
    exact ⟨fun _ => iff_of_true both.1 both.2, fun _ => ⟨OrderedMap.find?_erase_self ..,
      OrderedMap.find?_erase_self .., fun _ => OrderedMap.find?_erase_of_ne _,
      fun _ => OrderedMap.find?_erase_of_ne _⟩⟩
  · rw [if_neg both]
    refine ⟨fun updates => ?_, fun same => ?_⟩
    · have rule := updates.rule
      have flag := updates.flag
      simp only [getRule, getIsTrans, found, found', Option.getD_some] at rule flag
      rw [rule, flag]
      rfl
    · have rule : fieldRegexes.find? field = none := by
        rw [← Option.not_isSome_iff_eq_none]
        exact fun present => both ⟨present, same.mp present⟩
      have flag : fieldIstrans.find? field = none := by
        rw [← Option.not_isSome_iff_eq_none]
        exact fun present => both ⟨same.mpr present, present⟩
      refine ⟨?_, ?_, fun _ _ => rfl, fun _ _ => rfl, fun _ _ => rfl, fun _ _ => rfl⟩
      · simp only [getRule, found, Option.getD_some, rule]
      · simp only [getIsTrans, found', Option.getD_some, flag]

/-- A type that is missing from both tables is inserted into both. -/
theorem updates_insertType (missing : ruler.appFieldRegexes.find? type = none)
    (missing' : ruler.appFieldIstrans.find? type = none) (newsrcids : List Str) :
    Updates ruler (ruler.insertType type field regex istrans newsrcids) type field (some regex)
      (some istrans) := by
  refine ⟨?_, ?_, fun other ne => ?_, fun other ne => ?_,
    fun _ => OrderedMap.find?_insertNew_of_ne _ _, fun _ => OrderedMap.find?_insertNew_of_ne _ _⟩
  all_goals
    simp only [getRule, getIsTrans, insertType, OrderedMap.find?_insertNew_self, missing, missing',
      Option.getD_none, Option.getD_some, OrderedMap.find?_empty]
  · exact OrderedMap.find?_insertNew_of_ne _ _ ne
  · exact OrderedMap.find?_insertNew_of_ne _ _ ne

/-- An update of a type that only one of the tables has is lost in this table. -/
theorem updates_updateConfig_iff (half : HalfEmpty ruler) (newsrcids : List Str) :
    Updates ruler (ruler.updateConfig type field true regex istrans newsrcids) type field
      (some regex) (some istrans) ↔ Settable ruler type field istrans := by
  rw [updateConfig, Settable, Bool.not_true, if_neg Bool.false_ne_true]
  cases found : ruler.appFieldRegexes.find? type with
  | some fieldRegexes =>
      cases found' : ruler.appFieldIstrans.find? type with
      | some fieldIstrans => exact updates_setField_iff found found'
      | none =>
          refine iff_of_false (fun updates => ?_) not_false
          have rule := updates.rule
          simp only [getRule, insertType, OrderedMap.find?_insertNew_self, found, Option.getD_some,
            half.regexes type fieldRegexes found found', OrderedMap.find?_empty, reduceCtorEq]
            at rule
  | none =>
      cases found' : ruler.appFieldIstrans.find? type with
      | some fieldIstrans =>
          refine iff_of_false (fun updates => ?_) not_false
          have flag := updates.flag
          simp only [getIsTrans, insertType, OrderedMap.find?_insertNew_self, found',
            Option.getD_some, half.istrans type fieldIstrans found' found, OrderedMap.find?_empty,
            reduceCtorEq] at flag
      | none => exact iff_of_true (updates_insertType found found' newsrcids) trivial

/-- A deletion of a field that one table has is lost. -/
theorem deletes_updateConfig_iff (half : HalfEmpty ruler) (newsrcids : List Str) :
    Updates ruler (ruler.updateConfig type field false regex istrans newsrcids) type field none
      none ↔ Deletable ruler type field := by
  rw [updateConfig, Deletable, Bool.not_false, if_pos rfl]
  -- where an entry is missing, the other table has no fields of the type
  have unchanged (rule : (ruler.getRule type).1.find? field = none)
      (flag : (ruler.getIsTrans type).1.find? field = none) :
      Updates ruler ruler type field none none :=
    ⟨rule, flag, fun _ _ => rfl, fun _ _ => rfl, fun _ _ => rfl, fun _ _ => rfl⟩
  cases found : ruler.appFieldRegexes.find? type with
  | some fieldRegexes =>
      cases found' : ruler.appFieldIstrans.find? type with
      | some fieldIstrans =>
          simp only [Option.mem_def, Option.some.injEq, forall_eq']
          exact updates_deleteField_iff found found'
      | none =>
          refine iff_of_true (unchanged ?_ ?_) (fun _ _ => nofun)
          · rw [getRule, found, Option.getD_some, half.regexes type fieldRegexes found found']
            rfl
          · rw [getIsTrans, found']
            rfl
  | none =>
      refine iff_of_true (unchanged ?_ ?_) nofun
      · rw [getRule, found]
        rfl
      · rw [getIsTrans]
        cases found' : ruler.appFieldIstrans.find? type with
        | some fieldIstrans =>
            rw [Option.getD_some, half.istrans type fieldIstrans found' found]
            rfl
        | none => rfl

theorem srcidType_delete (newsrcids : List Str) :
    (ruler.updateConfig type field false regex istrans newsrcids).srcidType =
      ruler.srcidType :=
  updateConfig_cases (fun after => after.srcidType = ruler.srcidType) rfl (fun _ _ => rfl)
    fun set => absurd set Bool.false_ne_true

end Updating

/-! ### Any calls -/

/-- What every round keeps holds of a loaded configuration. -/
theorem loadConfig_invariant {holds : DataFieldRuler → Prop} {cfg : FieldCfg}
    (kept : ∀ {ruler tp loaded}, holds ruler → loadType cfg ruler tp = some loaded → holds loaded)
    {types : List Str} {ruler loaded : DataFieldRuler} (initially : holds ruler)
    (load : loadConfig cfg types ruler = some loaded) : holds loaded :=
  Runs.invariant holds kept initially load

theorem halfEmpty_foldl {ruler : DataFieldRuler} (half : HalfEmpty ruler) (calls : List Call) :
    HalfEmpty (calls.foldl Call.apply ruler) := by
  refine List.foldlRecOn calls Call.apply half fun ruler half call _ => ?_
  cases call with
  | getRule app => exact half.getRule app
  | getIsTrans app => exact half.getIsTrans app
  | getType srcid => exact half
  | updateConfig type field action regex istrans newsrcids => exact half.updateConfig ..

/-- **Updates.** After any calls an update is read back exactly when the type is in both tables
or in neither and a flag without a rule is the new one already, and a deletion takes effect
exactly when both tables have the field of the type, or not both have the type, or neither has
the field. -/
theorem updates_iff (cfg : FieldCfg) (types : List Str) {loaded : DataFieldRuler}
    (load : loadConfig cfg types new = some loaded) (calls : List Call) (type field regex : Str)
    (istrans : Bool) (newsrcids : List Str) :
    let ruler := calls.foldl Call.apply loaded
    let set := ruler.updateConfig type field true regex istrans newsrcids
    let deleted := ruler.updateConfig type field false [] false []
    (Updates ruler set type field (some regex) (some istrans) ↔
        Settable ruler type field istrans) ∧
      (Updates ruler deleted type field none none ∧ deleted.srcidType = ruler.srcidType ↔
        Deletable ruler type field) := by
  have half := halfEmpty_foldl
    (loadConfig_invariant (fun half round => half.loadType round) halfEmpty_new load) calls
  exact ⟨updates_updateConfig_iff half newsrcids,
    (and_iff_left (srcidType_delete _)).trans (deletes_updateConfig_iff half [])⟩

/-- A configuration with one field of the weather. -/
def weatherFields : FieldCfg where
  preprocessAction := OrderedMap.ofList [(bytes "weather", [⟨bytes "qid", bytes "q", true⟩])]
  srcidCfg := OrderedMap.ofList [(bytes "weather", bytes "4178")]

/-- A field is added, and the rules and flags are read. -/
def weatherCalls : List Call :=
  [.updateConfig (bytes "weather") (bytes "page") true (bytes "p") false [bytes "4179"],
    .getRule (bytes "weather"), .getIsTrans (bytes "weather"), .getType (bytes "4179")]

/-- The field of the configuration is changed after these calls, and the added one is deleted. -/
theorem updates_of_loaded_application :
    ∃ loaded, loadConfig weatherFields [bytes "weather"] new = some loaded ∧
      let ruler := weatherCalls.foldl Call.apply loaded
      Updates ruler (ruler.updateConfig (bytes "weather") (bytes "qid") true (bytes "r") false [])
          (bytes "weather") (bytes "qid") (some (bytes "r")) (some false) ∧
        Updates ruler (ruler.updateConfig (bytes "weather") (bytes "page") false [] false [])
          (bytes "weather") (bytes "page") none none := by
  refine ⟨_, rfl, ?_⟩
  have changed := updates_iff weatherFields [bytes "weather"] rfl weatherCalls (bytes "weather")
    (bytes "qid") (bytes "r") false []
  have added := updates_iff weatherFields [bytes "weather"] rfl weatherCalls (bytes "weather")
    (bytes "page") (bytes "r") false []
  refine ⟨changed.1.mpr fun missing => absurd missing (by decide), (added.2.mpr ?_).1⟩
  intro fieldRegexes rules fieldIstrans flags
  obtain rfl := Option.some.inj rules
  obtain rfl := Option.some.inj flags
  decide

/-- The first rule of an application is lost when its rules were read before. -/
theorem not_updates_after_getRule :
    let ruler := [Call.getRule (bytes "spider")].foldl Call.apply new
    ¬Updates ruler
      (ruler.updateConfig (bytes "spider") (bytes "qid") true (bytes "r") true [])
      (bytes "spider") (bytes "qid") (some (bytes "r")) (some true) := by
  intro ruler updates
  exact absurd updates.rule (by decide)

end DataFieldRuler

end LogProcess
