import LogProcess.Process.DataReceive

/-! # The fields that alarm rules read

The eight checks of `process/process_chklist.cc` look for their fields in the entries of a
request, and `request2kv` of `process/process_impl.cc` makes the stored record of them. The record
keeps the first entry of a key, and so do the checks, except that of the location, which keeps the
last one (`RuleKind.seesStored_iff`).
-/

namespace LogProcess

/-- A check of one field looks at the first value of the field only. -/
theorem Checklist.checkField_congr {fieldname : Str} {needsValue : Bool} {Config : Type}
    {test : Str → Config → Except CheckFault Bool} {request other : TransmitRequest}
    (same : [firstValue fieldname request.values] = [firstValue fieldname other.values])
    (cfg : List Config) :
    checkField fieldname needsValue test cfg request =
      checkField fieldname needsValue test cfg other := by
  rw [checkField, checkField, (List.cons_eq_cons.mp same).1]

/-- The classes of checks. -/
inductive RuleKind where
  | srcid
  | seword
  | lbs
  | cookie
  | cluster
  | resno
  | sid
  | type
deriving DecidableEq

namespace RuleKind

/-- The conditions of a check. -/
def Config : RuleKind → Type
  | srcid => SrcidConfig
  | seword => ScanCondSeWord
  | lbs => LocationInfo
  | cookie => CookieConfig
  | cluster => ClusterConfig
  | resno => ResnoConfig
  | sid => SidConfig
  | type => TypeConfig

/-- The field names that `init` sets. -/
def fieldname : RuleKind → List Str
  | srcid => [bytes "srcid"]
  | seword => [bytes "query"]
  | lbs => [bytes "province_name", bytes "city_name"]
  | cookie => [bytes "cookie"]
  | cluster => [bytes "cluster"]
  | resno => [bytes "resno"]
  | sid => [bytes "sid"]
  | type => [bytes "type"]

/-- `check` with the conditions that `init` was given. -/
def check (regex : Regex) :
    (kind : RuleKind) → List kind.Config → TransmitRequest → Except CheckFault Bool
  | srcid => Checklist.checkSrcid
  | seword => Checklist.checkSeword regex
  | lbs => Checklist.checkLbs
  | cookie => Checklist.checkCookie
  | cluster => Checklist.checkCluster
  | resno => Checklist.checkResno
  | sid => Checklist.checkSid
  | type => Checklist.checkType

/-- The values of the fields that the loop over the entries leaves. -/
def evaluated (request : TransmitRequest) : RuleKind → List Str
  | lbs =>
      let (prov, city) := request.values.foldl Checklist.locate ([], [])
      [prov, city]
  | kind => kind.fieldname.map fun field => Checklist.firstValue field request.values

/-- A check looks at these values only. -/
theorem check_congr (regex : Regex) (kind : RuleKind) {request other : TransmitRequest}
    (same : kind.evaluated request = kind.evaluated other) :
    ∀ cfg : List kind.Config, kind.check regex cfg request = kind.check regex cfg other := by
  cases kind with
  | srcid =>
      intro cfg
      change Checklist.checkSrcid cfg request = Checklist.checkSrcid cfg other
      exact Checklist.checkField_congr same cfg
  | seword =>
      intro cfg
      change Checklist.checkSeword regex cfg request = Checklist.checkSeword regex cfg other
      exact Checklist.checkField_congr same cfg
  | lbs =>
      intro cfg
      obtain ⟨prov, city⟩ := List.cons_eq_cons.mp same
      change Checklist.checkLbs cfg request = Checklist.checkLbs cfg other
      unfold Checklist.checkLbs
      rw [Prod.ext prov (List.cons_eq_cons.mp city).1]
  | cookie =>
      intro cfg
      change Checklist.checkCookie cfg request = Checklist.checkCookie cfg other
      exact Checklist.checkField_congr same cfg
  | cluster =>
      intro cfg
      change Checklist.checkCluster cfg request = Checklist.checkCluster cfg other
      exact Checklist.checkField_congr same cfg
  | resno =>
      intro cfg
      change Checklist.checkResno cfg request = Checklist.checkResno cfg other
      exact Checklist.checkField_congr same cfg
  | sid =>
      intro cfg
      change Checklist.checkSid cfg request = Checklist.checkSid cfg other
      exact Checklist.checkField_congr same cfg
  | type =>
      intro cfg
      change Checklist.checkType cfg request = Checklist.checkType cfg other
      exact Checklist.checkField_congr same cfg

end RuleKind

/-! ### Repeated keys -/

namespace TransmitRequest

/-- The values that the request gives to a field, in their order. -/
def valuesOf (request : TransmitRequest) (field : Str) : List Str :=
  (request.values.filter fun kv => kv.key = field).map MapEntry.value

/-- The first and the last value of the field are equal. -/
def EndsAgree (request : TransmitRequest) (field : Str) : Prop :=
  (request.valuesOf field).head? = (request.valuesOf field).getLast?

theorem firstValue_eq (request : TransmitRequest) (field : Str) :
    Checklist.firstValue field request.values = (request.valuesOf field).head?.getD [] := by
  obtain ⟨values⟩ := request
  rw [valuesOf]
  induction values with
  | nil => rfl
  | cons kv rest ih =>
      rw [Checklist.firstValue]
      by_cases same : kv.key = field
      · rw [if_pos same, List.filter_cons_of_pos (by simpa using same)]
        rfl
      · rw [if_neg same, List.filter_cons_of_neg (by simpa using same), ih]

theorem locate_eq (request : TransmitRequest) :
    request.values.foldl Checklist.locate ([], []) =
      ((request.valuesOf (bytes "province_name")).getLast?.getD [],
        (request.valuesOf (bytes "city_name")).getLast?.getD []) := by
  obtain ⟨values⟩ := request
  have last (field : Str) (values : List MapEntry) (kv : MapEntry) :
      (valuesOf ⟨values ++ [kv]⟩ field).getLast?.getD [] =
        if kv.key = field then kv.value else (valuesOf ⟨values⟩ field).getLast?.getD [] := by
    rw [valuesOf, valuesOf, List.filter_append, List.map_append]
    by_cases same : kv.key = field
    · simp [same]
    · simp [same]
  induction values using List.reverseRecOn with
  | nil => rfl
  | append_singleton values kv ih =>
      rw [List.foldl_concat, ih, last, last]
      rfl

/-- The stored record has the first value of a field. -/
theorem find?_request2kv (request : TransmitRequest) (field : Str) :
    (ProcessImpl.request2kv request).find? field = (request.valuesOf field).head? := by
  obtain ⟨values⟩ := request
  rw [ProcessImpl.request2kv]
  induction values using List.reverseRecOn with
  | nil => rfl
  | append_singleton values kv ih =>
      rw [List.foldl_concat, OrderedMap.find?_insertNew]
      by_cases same : kv.key = field
      · rw [if_pos same.symm, same, ih, valuesOf, valuesOf, List.filter_append, List.map_append,
          List.head?_append]
        cases ((values.filter fun kv => kv.key = field).map MapEntry.value).head? <;> simp [same]
      · rw [if_neg (Ne.symm same), ih, valuesOf, valuesOf, List.filter_append,
          List.filter_cons_of_neg (by simpa using same), List.filter_nil, List.append_nil]

end TransmitRequest

namespace RuleKind

/-- The check evaluates the values of its fields that are stored. -/
def SeesStored (kind : RuleKind) (request : TransmitRequest) : Prop :=
  kind.evaluated request = kind.fieldname.map fun field =>
    ((ProcessImpl.request2kv request).find? field).getD []

/-- **Agreement.** A check evaluates what is stored, except that of the location when the first
and the last value of one of its fields are different. -/
theorem seesStored_iff (kind : RuleKind) (request : TransmitRequest) :
    kind.SeesStored request ↔
      (kind = lbs → ∀ field ∈ kind.fieldname, request.EndsAgree field) := by
  have oneField (name : Str) : [name].map (fun field =>
      Checklist.firstValue field request.values) = [name].map fun field =>
        ((ProcessImpl.request2kv request).find? field).getD [] := by
    simp only [TransmitRequest.firstValue_eq, TransmitRequest.find?_request2kv]
  cases kind with
  | lbs =>
      have ends (field : Str) : (request.valuesOf field).getLast?.getD [] =
          (request.valuesOf field).head?.getD [] ↔ request.EndsAgree field := by
        rw [TransmitRequest.EndsAgree]
        cases request.valuesOf field with
        | nil => simp
        | cons value rest => simp [List.getLast?_cons, eq_comm]
      rw [SeesStored, evaluated, TransmitRequest.locate_eq, fieldname]
      simp only [TransmitRequest.find?_request2kv, List.map_cons, List.map_nil, List.cons.injEq,
        and_true, ends, List.forall_mem_cons, List.not_mem_nil, IsEmpty.forall_iff, implies_true,
        forall_const]
  | _ => exact iff_of_true (oneField _) fun other => by cases other

/-- A province that is given twice. -/
theorem not_seesStored_two_provinces :
    ¬lbs.SeesStored
      ⟨[⟨bytes "province_name", bytes "a"⟩, ⟨bytes "province_name", bytes "b"⟩]⟩ := by
  intro sees
  exact absurd (List.cons_eq_cons.mp sees).1 (by decide)

end RuleKind

end LogProcess
