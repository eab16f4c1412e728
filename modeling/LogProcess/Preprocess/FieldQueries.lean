import LogProcess.Preprocess.FieldConfig

/-! # Asking for one field

`GetLogFieldConfig` of `preprocess/data_access_impl.cc` lists all fields of an application, or one
field that is asked for. The entries agree, but the branch for one field replies `FAILED` also when
it finds the field, so that its status is right exactly when there is no such field
(`DataFieldRuler.singleAgrees_iff`).
-/

namespace LogProcess.DataFieldRuler

open AccessImpl

/-- The responses that are sent for a request, when no entry is missing. -/
def replies (ruler : DataFieldRuler) (request : GetLogFieldConfigRequest) :
    Option (List GetLogFieldConfigResponse) :=
  (getLogFieldConfig request ruler ⟨{}, []⟩).map fun answer => answer.2.sent

/-- The query for a field succeeds with its entry of the list of all fields, or fails without an
entry when it is not listed. -/
def SingleAgrees (ruler : DataFieldRuler) (application field : Str) : Prop :=
  ∃ full single, ruler.replies ⟨application, none⟩ = some [full] ∧
    ruler.replies ⟨application, some field⟩ = some [single] ∧ full.status = some .succeed ∧
    (∀ entry ∈ full.fieldconfigs, entry.field = field →
      single.status = some .succeed ∧ single.fieldconfigs = [entry]) ∧
    ((∀ entry ∈ full.fieldconfigs, entry.field ≠ field) →
      single.status = some .failed ∧ single.fieldconfigs = [])

/-- The rules of an application. -/
def rules (ruler : DataFieldRuler) (application : Str) : OrderedMap Str Str :=
  (ruler.appFieldRegexes.find? application).getD .empty

/-- Tables in step reply once, with what is in them. -/
theorem InStep.replies_eq {ruler : DataFieldRuler} (inStep : InStep ruler)
    (request : GetLogFieldConfigRequest) :
    ruler.replies request = some [fieldsResponse (askedField request)
      (ruler.rules request.application)
      ((ruler.appFieldIstrans.find? request.application).getD .empty)] := by
  obtain ⟨reply, answered, sent⟩ := replyFields_eq (inStep.keys_eq request.application)
  have read : getLogFieldConfig request ruler ⟨{}, []⟩ =
      some (((ruler.getRule request.application).2.getIsTrans request.application).2, reply) := by
    rw [getLogFieldConfig]
    exact congrArg (Option.map _) answered
  rw [replies, read, Option.map_some, sent, rules]

/-- The entry of a field is listed exactly when there is a rule for it. -/
theorem mem_fieldconfigs_iff (regexmap : OrderedMap Str Str) (istransmap : OrderedMap Str Bool)
    (entry : FiledConfig) :
    entry ∈ (fieldsResponse [] regexmap istransmap).fieldconfigs ↔
      ∃ regex, regexmap.find? entry.field = some regex ∧
        entry = filedConfig istransmap (entry.field, regex) := by
  rw [fieldsResponse, if_pos rfl]
  simp only [List.mem_map, OrderedMap.find?_eq_some_iff]
  refine ⟨fun listed => ?_, fun found => ?_⟩
  · obtain ⟨it, member, rfl⟩ := listed
    exact ⟨it.2, member, rfl⟩
  · obtain ⟨regex, member, same⟩ := found
    exact ⟨_, member, same.symm⟩

/-- A field that is found is replied with `FAILED`. -/
theorem not_singleAgrees_of_found {ruler : DataFieldRuler} (inStep : InStep ruler)
    {application field regex : Str} (named : field ≠ [])
    (found : (ruler.rules application).find? field = some regex) :
    ¬ruler.SingleAgrees application field := by
  intro agrees
  obtain ⟨full, single, listed, asked, _, succeeds, _⟩ := agrees
  rw [inStep.replies_eq, Option.some.injEq, List.singleton_inj] at listed asked
  subst listed asked
  have member := (mem_fieldconfigs_iff (ruler.rules application)
    ((ruler.appFieldIstrans.find? application).getD .empty) (filedConfig _ (field, regex))).mpr
      ⟨regex, found, rfl⟩
  have status := (succeeds _ member rfl).1
  rw [fieldsResponse, askedField, if_neg named] at status
  dsimp only at status
  rw [found] at status
  cases status

/-- **Queries.** From tables in step the query for one field agrees with the list of all fields
exactly when the field is not listed. -/
theorem singleAgrees_iff {ruler : DataFieldRuler} (inStep : InStep ruler)
    {application field : Str} (named : field ≠ []) :
    ruler.SingleAgrees application field ↔ (ruler.rules application).find? field = none := by
  cases found : (ruler.rules application).find? field with
  | some regex =>
      exact iff_of_false (not_singleAgrees_of_found inStep named found) (Option.some_ne_none _)
  | none =>
      refine iff_of_true ⟨_, _, inStep.replies_eq _, inStep.replies_eq _, rfl, ?_, ?_⟩ rfl
      · intro entry member same
        obtain ⟨regex, present, _⟩ := (mem_fieldconfigs_iff ..).mp member
        rw [same, found] at present
        cases present
      · intro _
        rw [fieldsResponse, askedField, if_neg named]
        dsimp only
        rw [found]
        exact ⟨rfl, rfl⟩

/-- A rule for one field. -/
def weatherRuler : DataFieldRuler :=
  new.updateConfig (bytes "weather") (bytes "query") true (bytes " query\\[(.+?)\\] ") true []

theorem inStep_weatherRuler : InStep weatherRuler := inStep_new.updateConfig _ _ _ _ _ _

/-- A query for a field without a rule. -/
theorem singleAgrees_iff_weather :
    weatherRuler.SingleAgrees (bytes "weather") (bytes "qid") ↔
      (weatherRuler.rules (bytes "weather")).find? (bytes "qid") = none :=
  singleAgrees_iff inStep_weatherRuler (by decide)

/-- The field with a rule is found, and the status is `FAILED`. -/
theorem not_singleAgrees_weather :
    ¬weatherRuler.SingleAgrees (bytes "weather") (bytes "query") :=
  not_singleAgrees_of_found inStep_weatherRuler (by decide)
    (show (weatherRuler.rules (bytes "weather")).find? (bytes "query") =
      some (bytes " query\\[(.+?)\\] ") by decide +kernel)

end LogProcess.DataFieldRuler
