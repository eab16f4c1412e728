import LogProcess.Foundation.RpcReply
import LogProcess.Preprocess.DataFieldRuler
import LogProcess.Process.Transmit

/-! # Requests for field rules

The handlers `SetLogFieldConfig` and `GetLogFieldConfig` of `preprocess/data_access_impl.cc`, next
to workers that read the rules while they preprocess records. One thread runs the handlers, so
the tables of the rules and of the flags have the same applications and fields whenever no
handler is at work, and every request is answered from tables that agree
(`FieldWorkers.replies_agree`).
-/

namespace LogProcess

/-- A response without content. -/
structure StatusResponse where
  status : Option ResStatus := none
  error : Option Str := none
  deriving DecidableEq

/-- An entry that is not set reads as empty. -/
structure FiledConfig where
  field : Str := []
  regex : Str := []
  istrans : Bool := false
  deriving DecidableEq

structure SetLogFieldConfigRequest where
  application : Str
  op : Bool
  fieldconfigs : FiledConfig := {}

structure GetLogFieldConfigRequest where
  application : Str
  field : Option Str := none

structure GetLogFieldConfigResponse where
  status : Option ResStatus := none
  error : Option Str := none
  fieldconfigs : List FiledConfig := []
  deriving DecidableEq

namespace AccessImpl

/-! ### The handlers -/

/-- `SetLogFieldConfig`, which always replies success. -/
def setLogFieldConfig (request : SetLogFieldConfigRequest) (datafieldruler : DataFieldRuler)
    (reply : RpcReply StatusResponse) : DataFieldRuler × RpcReply StatusResponse :=
  let item := request.fieldconfigs
  (datafieldruler.updateConfig request.application item.field request.op item.regex item.istrans [],
    (reply.modify fun response => { response with status := some .succeed }).run)

/-- The field that is asked for, empty when all of them are. -/
def askedField (request : GetLogFieldConfigRequest) : Str :=
  match request.field with
  | some field => field
  | none => []

/-- The call of `add_fieldconfigs` for a rule. -/
def addFieldconfigs (it : Str × Str) (istrans : Bool) (response : GetLogFieldConfigResponse) :
    GetLogFieldConfigResponse :=
  { response with fieldconfigs := response.fieldconfigs ++ [⟨it.1, it.2, istrans⟩] }

/-- The loop that lists all fields. It has no result when a flag is missing. -/
def listFields (istransmap : OrderedMap Str Bool) :
    List (Str × Str) → RpcReply GetLogFieldConfigResponse →
      Option (RpcReply GetLogFieldConfigResponse)
  | [], reply => some reply
  | it :: rest, reply => do
      let istrans ← istransmap.find? it.1
      listFields istransmap rest (reply.modify (addFieldconfigs it istrans))

/-- The loop that looks for one field. It replies `FAILED` when it finds it, and goes on. -/
def findField (field : Str) (istransmap : OrderedMap Str Bool) :
    List (Str × Str) → Bool → RpcReply GetLogFieldConfigResponse →
      Option (Bool × RpcReply GetLogFieldConfigResponse)
  | [], flag, reply => some (flag, reply)
  | it :: rest, flag, reply =>
      if field ≠ it.1 then findField field istransmap rest flag reply
      else do
        let istrans ← istransmap.find? it.1
        let reply := reply.modify (addFieldconfigs it istrans)
        findField field istransmap rest true
          (reply.modify fun response => { response with status := some .failed }).run

/-- The error of tables of different sizes. -/
def sizeError : Str := bytes "istransmap size not equal regexmap size"

/-- `GetLogFieldConfig` behind its calls of `GetRule` and `GetIsTrans`. -/
def replyFields (field : Str) (regexmap : OrderedMap Str Str) (istransmap : OrderedMap Str Bool)
    (reply : RpcReply GetLogFieldConfigResponse) : Option (RpcReply GetLogFieldConfigResponse) :=
  if regexmap.entries.length ≠ istransmap.entries.length then
    some (reply.modify fun response =>
      { response with status := some .failed, error := some sizeError }).run
  else if field = [] then
    (listFields istransmap regexmap.entries reply).map fun reply =>
      (reply.modify fun response => { response with status := some .succeed }).run
  else
    (findField field istransmap regexmap.entries false reply).map fun (flag, reply) =>
      if !flag then
        (reply.modify fun response =>
          { response with
            status := some .failed, error := some (bytes "wrong field name " ++ field) }).run
      else reply

def getLogFieldConfig (request : GetLogFieldConfigRequest) (datafieldruler : DataFieldRuler)
    (reply : RpcReply GetLogFieldConfigResponse) :
    Option (DataFieldRuler × RpcReply GetLogFieldConfigResponse) :=
  let (regexmap, datafieldruler) := datafieldruler.getRule request.application
  let (istransmap, datafieldruler) := datafieldruler.getIsTrans request.application
  (replyFields (askedField request) regexmap istransmap reply).map fun reply =>
    (datafieldruler, reply)

/-! ### What is replied -/

section Replies

variable {field : Str} {regexmap : OrderedMap Str Str} {istransmap : OrderedMap Str Bool}

/-- The entry for a rule. -/
def filedConfig (istransmap : OrderedMap Str Bool) (it : Str × Str) : FiledConfig :=
  ⟨it.1, it.2, (istransmap.find? it.1).getD false⟩

/-- What is replied from tables with the same fields. -/
def fieldsResponse (field : Str) (regexmap : OrderedMap Str Str)
    (istransmap : OrderedMap Str Bool) : GetLogFieldConfigResponse :=
  if field = [] then
    { status := some .succeed, fieldconfigs := regexmap.entries.map (filedConfig istransmap) }
  else
    match regexmap.find? field with
    | some regex =>
        { status := some .failed, fieldconfigs := [filedConfig istransmap (field, regex)] }
    | none => { status := some .failed, error := some (bytes "wrong field name " ++ field) }

theorem listFields_eq {entries : List (Str × Str)}
    (flagged : ∀ it ∈ entries, (istransmap.find? it.1).isSome)
    (reply : RpcReply GetLogFieldConfigResponse) :
    listFields istransmap entries reply = some (reply.modify fun response =>
      { response with
        fieldconfigs := response.fieldconfigs ++ entries.map (filedConfig istransmap) }) := by
  induction entries generalizing reply with
  | nil => simp only [listFields, List.map_nil, List.append_nil, RpcReply.modify]
  | cons it rest ih =>
      obtain ⟨istrans, found⟩ := Option.isSome_iff_exists.mp (flagged it List.mem_cons_self)
      rw [listFields, found, Option.bind_eq_bind, Option.bind_some,
        ih fun other member => flagged other (List.mem_cons_of_mem _ member)]
      simp only [RpcReply.modify, addFieldconfigs, List.append_assoc, List.singleton_append,
        List.map_cons, filedConfig, found, Option.getD_some]

/-- Rules of other fields are skipped. -/
theorem findField_skip {entries : List (Str × Str)} (others : ∀ it ∈ entries, it.1 ≠ field)
    (rest : List (Str × Str)) (flag : Bool) (reply : RpcReply GetLogFieldConfigResponse) :
    findField field istransmap (entries ++ rest) flag reply =
      findField field istransmap rest flag reply := by
  induction entries with
  | nil => rfl
  | cons it entries ih =>
      rw [List.cons_append, findField, if_pos (others it List.mem_cons_self).symm,
        ih fun other member => others other (List.mem_cons_of_mem _ member)]

/-- A field is found once. -/
theorem findField_eq (regexmap : OrderedMap Str Str)
    (flagged : ∀ regex ∈ regexmap.find? field, (istransmap.find? field).isSome)
    (reply : RpcReply GetLogFieldConfigResponse) :
    findField field istransmap regexmap.entries false reply =
      some (match regexmap.find? field with
        | some regex => (true, (reply.modify fun response =>
            { response with
              status := some .failed
              fieldconfigs := response.fieldconfigs ++ [filedConfig istransmap (field, regex)]
              }).run)
        | none => (false, reply)) := by
  obtain ⟨below, above, entries, smaller, greater⟩ := regexmap.exists_split field
  have later (flag : Bool) (reply : RpcReply GetLogFieldConfigResponse) :
      findField field istransmap above flag reply = some (flag, reply) := by
    rw [← List.append_nil above, findField_skip (fun it member => (greater it member).ne') [],
      findField]
  rw [entries, List.append_assoc, findField_skip fun it member => (smaller it member).ne]
  cases found : regexmap.find? field with
  | none => rw [Option.toList_none, List.map_nil, List.nil_append, later]
  | some regex =>
      obtain ⟨istrans, flag⟩ := Option.isSome_iff_exists.mp (flagged regex found)
      rw [Option.toList_some, List.map_singleton, List.singleton_append, findField,
        if_neg (not_not_intro rfl), flag, Option.bind_eq_bind, Option.bind_some, later]
      simp only [RpcReply.modify, addFieldconfigs, filedConfig, flag, Option.getD_some]

/-- Tables with the same fields answer the call. -/
theorem replyFields_eq (same : regexmap.keys = istransmap.keys) :
    ∃ reply, replyFields field regexmap istransmap ⟨{}, []⟩ = some reply ∧
      reply.sent = [fieldsResponse field regexmap istransmap] := by
  have sizes : regexmap.entries.length = istransmap.entries.length := by
    rw [← List.length_map Prod.fst, ← List.length_map Prod.fst]
    exact congrArg List.length same
  have flagged {field : Str} (present : (regexmap.find? field).isSome) :
      (istransmap.find? field).isSome := (OrderedMap.keys_eq_iff ..).mp same field |>.mp present
  rw [replyFields, if_neg (not_not_intro sizes), fieldsResponse]
  by_cases all : field = []
  · rw [if_pos all, if_pos all, listFields_eq fun it member => flagged <| by
      rw [(regexmap.find?_eq_some_iff it.1 it.2).mpr member, Option.isSome_some]]
    exact ⟨_, rfl, rfl⟩
  · rw [if_neg all, if_neg all, findField_eq regexmap fun regex found =>
      flagged (Option.isSome_of_mem found)]
    cases regexmap.find? field with
    | some regex => exact ⟨_, rfl, rfl⟩
    | none => exact ⟨_, rfl, rfl⟩

/-- The error of tables of different sizes is not replied from tables with the same fields. -/
theorem error_fieldsResponse_ne : (fieldsResponse field regexmap istransmap).error ≠
    some sizeError := by
  rw [fieldsResponse]
  split
  · exact nofun
  · split
    · exact nofun
    · intro same
      have heads := congrArg List.head? (Option.some.inj same)
      rw [List.head?_append, show (bytes "wrong field name ").head? = some 119 from rfl,
        Option.some_or] at heads
      exact absurd heads (by decide)

end Replies

end AccessImpl

namespace DataFieldRuler

/-! ### Tables in step -/

/-- The tables have the same applications, and the same fields for each of them. -/
def InStep (ruler : DataFieldRuler) : Prop :=
  ∀ app, (ruler.appFieldRegexes.find? app).map OrderedMap.keys =
    (ruler.appFieldIstrans.find? app).map OrderedMap.keys

/-- Both tables have the application. -/
def Known (ruler : DataFieldRuler) (app : Str) : Prop :=
  (ruler.appFieldRegexes.find? app).isSome ∧ (ruler.appFieldIstrans.find? app).isSome

section InStep

variable {ruler : DataFieldRuler}

theorem inStep_new : InStep new := fun _ => rfl

/-- Entries with the same fields for one application. -/
theorem InStep.assign (inStep : InStep ruler) (type : Str) {fieldRegexes : OrderedMap Str Str}
    {fieldIstrans : OrderedMap Str Bool} (same : fieldRegexes.keys = fieldIstrans.keys)
    (srcidType : OrderedMap Str Str) :
    InStep ⟨ruler.appFieldRegexes.assign type fieldRegexes,
      ruler.appFieldIstrans.assign type fieldIstrans, srcidType⟩ := by
  intro app
  rw [OrderedMap.find?_assign, OrderedMap.find?_assign]
  split
  · exact congrArg some same
  · exact inStep app

/-- What is read of an application has the same fields in both tables. -/
theorem InStep.keys_eq (inStep : InStep ruler) (app : Str) :
    ((ruler.appFieldRegexes.find? app).getD .empty).keys =
      ((ruler.appFieldIstrans.find? app).getD .empty).keys := by
  have same := inStep app
  cases found : ruler.appFieldRegexes.find? app with
  | some fieldRegexes =>
      cases found' : ruler.appFieldIstrans.find? app with
      | some fieldIstrans =>
          rw [found, found'] at same
          exact Option.some.inj same
      | none =>
          rw [found, found'] at same
          cases same
  | none =>
      cases found' : ruler.appFieldIstrans.find? app with
      | some fieldIstrans =>
          rw [found, found'] at same
          cases same
      | none => rfl

theorem InStep.loadType (inStep : InStep ruler) {cfg : FieldCfg} {tp : Str}
    {loaded : DataFieldRuler} (load : DataFieldRuler.loadType cfg ruler tp = some loaded) :
    InStep loaded := by
  obtain ⟨tpcfg, _, rfl⟩ := Option.map_eq_some_iff.mp load
  exact inStep.assign tp (OrderedMap.keys_foldl_assign_congr (inStep.keys_eq tp) ..) _

theorem InStep.updateConfig (inStep : InStep ruler) (type field : Str) (action : Bool) (regex : Str)
    (istrans : Bool) (newsrcids : List Str) :
    InStep (ruler.updateConfig type field action regex istrans newsrcids) := by
  have entry := inStep type
  rw [DataFieldRuler.updateConfig]
  cases found : ruler.appFieldRegexes.find? type with
  | some fieldRegexes =>
      cases found' : ruler.appFieldIstrans.find? type with
      | some fieldIstrans =>
          rw [found, found', Option.map_some, Option.map_some, Option.some.injEq] at entry
          dsimp only
          split
          · rw [deleteField]
            split
            · exact inStep.assign type (OrderedMap.keys_erase_congr entry field) _
            · exact inStep
          · rw [setField]
            split
            · exact inStep.assign type (OrderedMap.keys_assign_congr entry ..) _
            · exact inStep.assign type (OrderedMap.keys_insertNew_congr entry ..) _
      | none =>
          rw [found, found'] at entry
          cases entry
  | none =>
      cases found' : ruler.appFieldIstrans.find? type with
      | some fieldIstrans =>
          rw [found, found'] at entry
          cases entry
      | none =>
          dsimp only
          split
          · exact inStep
          · rw [insertType, OrderedMap.insertNew_of_find?_eq_none found,
              OrderedMap.insertNew_of_find?_eq_none found']
            have empty : (OrderedMap.empty : OrderedMap Str Str).keys =
                (OrderedMap.empty : OrderedMap Str Bool).keys := rfl
            exact inStep.assign type (OrderedMap.keys_insertNew_congr empty ..) _

/-- Reading both entries of an application keeps the tables in step. -/
theorem InStep.reads (inStep : InStep ruler) (app : Str) :
    InStep ((ruler.getRule app).2.getIsTrans app).2 := by
  intro query
  rw [DataFieldRuler.getRule, DataFieldRuler.getIsTrans]
  dsimp only
  rw [OrderedMap.find?_insertNew, OrderedMap.find?_insertNew]
  split
  · exact congrArg some (inStep.keys_eq app)
  · exact inStep query

/-- Reading an application that both tables have changes nothing. -/
theorem getRule_snd_of_known {app : Str} (known : Known ruler app) :
    (ruler.getRule app).2 = ruler := by
  rw [getRule, OrderedMap.insertNew_eq_self known.1]

theorem getIsTrans_snd_of_known {app : Str} (known : Known ruler app) :
    (ruler.getIsTrans app).2 = ruler := by
  rw [getIsTrans, OrderedMap.insertNew_eq_self known.2]

/-- An application stays known. -/
theorem Known.assign {app : Str} (known : Known ruler app) (type : Str)
    (fieldRegexes : OrderedMap Str Str) (fieldIstrans : OrderedMap Str Bool)
    (srcidType : OrderedMap Str Str) :
    Known ⟨ruler.appFieldRegexes.assign type fieldRegexes,
      ruler.appFieldIstrans.assign type fieldIstrans, srcidType⟩ app :=
  ⟨OrderedMap.isSome_find?_assign known.1 .., OrderedMap.isSome_find?_assign known.2 ..⟩

theorem Known.updateConfig {app : Str} (known : Known ruler app) (type field : Str)
    (action : Bool) (regex : Str) (istrans : Bool) (newsrcids : List Str) :
    Known (ruler.updateConfig type field action regex istrans newsrcids) app :=
  updateConfig_cases (Known · app) known (fun _ _ => known.assign ..) fun _ =>
    ⟨OrderedMap.isSome_find?_insertNew known.1 .., OrderedMap.isSome_find?_insertNew known.2 ..⟩

theorem Known.reads {app : Str} (known : Known ruler app) (type : Str) :
    Known (ruler.getRule type).2 app ∧ Known (ruler.getIsTrans type).2 app :=
  ⟨⟨OrderedMap.isSome_find?_insertNew known.1 .., known.2⟩,
    ⟨known.1, OrderedMap.isSome_find?_insertNew known.2 ..⟩⟩

/-- An update without srcids leaves the types of the srcids alone. -/
theorem srcidType_updateConfig (type field : Str) (action : Bool) (regex : Str) (istrans : Bool) :
    (ruler.updateConfig type field action regex istrans []).srcidType = ruler.srcidType :=
  updateConfig_cases (fun after => after.srcidType = ruler.srcidType) rfl (fun _ _ => rfl)
    fun _ => rfl

end InStep

/-- Every srcid has a known type. -/
def TypesKnown (ruler : DataFieldRuler) : Prop :=
  ∀ srcid, ∀ type ∈ ruler.srcidType.find? srcid, Known ruler type

theorem TypesKnown.loadType {ruler loaded : DataFieldRuler} (known : TypesKnown ruler)
    {cfg : FieldCfg} {tp : Str} (load : DataFieldRuler.loadType cfg ruler tp = some loaded) :
    TypesKnown loaded := by
  obtain ⟨tpcfg, _, rfl⟩ := Option.map_eq_some_iff.mp load
  intro srcid type found
  dsimp only at found
  rw [find?_setTypes] at found
  split at found
  · obtain rfl := Option.some.inj found
    exact ⟨by simp, by simp⟩
  · exact (known srcid type found).assign ..

end DataFieldRuler

/-! ### Handlers and workers -/

namespace FieldWorkers

open AccessImpl DataFieldRuler

/-- What the thread of the handlers does: it may be between the calls of `GetRule` and
`GetIsTrans`. -/
inductive HandlerPhase where
  | idle
  | querying (request : GetLogFieldConfigRequest) (regexmap : OrderedMap Str Str)

/-- How far a worker is with its record. -/
inductive WorkerPhase where
  | idle
  | typed (curType : Str)
  | ruled (curType : Str)

/-- The type of the record at work. -/
def WorkerPhase.curType? : WorkerPhase → Option Str
  | .idle => none
  | .typed curType | .ruled curType => some curType

/-- The outcomes are those of the requests `GetLogFieldConfig`, without a result where the end
of the flags is dereferenced. -/
structure State (Worker : Type) where
  ruler : DataFieldRuler
  handler : HandlerPhase
  workers : Worker → WorkerPhase
  outcomes : List (Option (RpcReply GetLogFieldConfigResponse))

/-- A whole `SetLogFieldConfig`, or one call of a method of the rules. -/
inductive Action (Worker : Type) where
  | setLogFieldConfig (request : SetLogFieldConfigRequest)
  | getLogFieldConfig (request : GetLogFieldConfigRequest)
  | finishGetLogFieldConfig
  | getType (worker : Worker) (srcid : Str)
  | getRule (worker : Worker)
  | getIsTrans (worker : Worker)

variable {Worker : Type} [DecidableEq Worker]

def start (ruler : DataFieldRuler) : State Worker := ⟨ruler, .idle, fun _ => .idle, []⟩

def step (state : State Worker) : Action Worker → Option (State Worker)
  | .setLogFieldConfig request =>
      match state.handler with
      | .idle => some { state with
          ruler := (AccessImpl.setLogFieldConfig request state.ruler ⟨{}, []⟩).1 }
      | .querying .. => none
  | .getLogFieldConfig request =>
      match state.handler with
      | .idle =>
          let (regexmap, ruler) := state.ruler.getRule request.application
          some { state with ruler := ruler, handler := .querying request regexmap }
      | .querying .. => none
  | .finishGetLogFieldConfig =>
      match state.handler with
      | .idle => none
      | .querying request regexmap =>
          let (istransmap, ruler) := state.ruler.getIsTrans request.application
          some { state with
            ruler := ruler
            handler := .idle
            outcomes := state.outcomes ++
              [replyFields (askedField request) regexmap istransmap ⟨{}, []⟩] }
  | .getType worker srcid =>
      match state.workers worker with
      | .idle =>
          let curType := state.ruler.getType srcid
          some (if curType = [] then state
            else { state with workers := Function.update state.workers worker (.typed curType) })
      | _ => none
  | .getRule worker =>
      match state.workers worker with
      | .typed curType => some { state with
          ruler := (state.ruler.getRule curType).2
          workers := Function.update state.workers worker (.ruled curType) }
      | _ => none
  | .getIsTrans worker =>
      match state.workers worker with
      | .ruled curType => some { state with
          ruler := (state.ruler.getIsTrans curType).2
          workers := Function.update state.workers worker .idle }
      | _ => none

/-- A query whose two steps follow each other is one call of the handler. -/
theorem run_getLogFieldConfig {state : State Worker} (waits : state.handler = .idle)
    (request : GetLogFieldConfigRequest) :
    (Runs.run step state [.getLogFieldConfig request, .finishGetLogFieldConfig]).map
        State.outcomes =
      some (state.outcomes ++
        [(getLogFieldConfig request state.ruler ⟨{}, []⟩).map Prod.snd]) := by
  have handled : (getLogFieldConfig request state.ruler ⟨{}, []⟩).map Prod.snd =
      replyFields (askedField request) (state.ruler.getRule request.application).1
        ((state.ruler.getRule request.application).2.getIsTrans request.application).1
        ⟨{}, []⟩ := by
    simp only [getLogFieldConfig, Option.map_map, Function.comp_def, Option.map_id']
  rw [handled]
  simp only [Runs.run, List.foldlM_cons, List.foldlM_nil, step, waits, Option.bind_eq_bind,
    Option.bind_some, Option.pure_def, Option.map_some]

/-- The tables are in step, or the flags that are read next bring them in step. -/
def TablesAgree (ruler : DataFieldRuler) : HandlerPhase → Prop
  | .idle => ruler.InStep
  | .querying request regexmap =>
      (ruler.getIsTrans request.application).2.InStep ∧
        regexmap.keys = (ruler.getIsTrans request.application).1.keys

/-- The call was answered, not with the error of tables of different sizes. -/
def Agrees (outcome : Option (RpcReply GetLogFieldConfigResponse)) : Prop :=
  ∃ reply response, outcome = some reply ∧ reply.sent = [response] ∧
    response.error ≠ some sizeError

/-- **Invariant.** Workers only read types that both tables have. -/
structure Sound (state : State Worker) : Prop where
  tables : TablesAgree state.ruler state.handler
  types : state.ruler.TypesKnown
  workers : ∀ worker, ∀ type ∈ (state.workers worker).curType?, state.ruler.Known type
  outcomes : ∀ outcome ∈ state.outcomes, Agrees outcome

omit [DecidableEq Worker] in
theorem sound_start {cfg : FieldCfg} {types : List Str} {loaded : DataFieldRuler}
    (load : loadConfig cfg types new = some loaded) : Sound (start loaded : State Worker) where
  tables := loadConfig_invariant (fun inStep round => inStep.loadType round) inStep_new load
  types := loadConfig_invariant (fun known round => known.loadType round)
    (fun _ _ found => absurd found (Option.not_mem_none _)) load
  workers := fun _ _ member => absurd member (Option.not_mem_none _)
  outcomes := fun _ member => absurd member List.not_mem_nil

/-- A worker that reads a type leaves the tables alone. -/
theorem Sound.work {state : State Worker} (sound : Sound state) (worker : Worker)
    {phase : WorkerPhase} (known : ∀ type ∈ phase.curType?, state.ruler.Known type) :
    Sound { state with workers := Function.update state.workers worker phase } := by
  refine ⟨sound.tables, sound.types, fun other type member => ?_, sound.outcomes⟩
  dsimp only at member
  by_cases same : other = worker
  · rw [same, Function.update_self] at member
    exact known type member
  · rw [Function.update_of_ne same] at member
    exact sound.workers other type member

omit [DecidableEq Worker] in
/-- A request changes the tables under the workers, who still find their types. -/
theorem Sound.change {state : State Worker} (sound : Sound state) {ruler : DataFieldRuler}
    {handler : HandlerPhase} {outcomes : List (Option (RpcReply GetLogFieldConfigResponse))}
    (tables : TablesAgree ruler handler) (srcids : ruler.srcidType = state.ruler.srcidType)
    (kept : ∀ {app}, state.ruler.Known app → ruler.Known app)
    (answered : ∀ outcome ∈ outcomes, Agrees outcome) :
    Sound { state with ruler := ruler, handler := handler, outcomes := outcomes } where
  tables := tables
  types srcid type found := kept (sound.types srcid type (srcids ▸ found))
  workers worker type member := kept (sound.workers worker type member)
  outcomes := answered

theorem Sound.step {state next : State Worker} {action : Action Worker} (sound : Sound state)
    (stepped : step state action = some next) : Sound next := by
  cases action with
  | setLogFieldConfig request =>
      cases phase : state.handler with
      | querying asked regexmap => simp only [FieldWorkers.step, phase, reduceCtorEq] at stepped
      | idle =>
          simp only [FieldWorkers.step, phase, Option.some.injEq] at stepped
          subst stepped
          have tables := sound.tables
          rw [phase] at tables
          exact sound.change (tables.updateConfig _ _ _ _ _ _) (srcidType_updateConfig ..)
            (fun known => known.updateConfig ..) sound.outcomes
  | getLogFieldConfig request =>
      cases phase : state.handler with
      | querying asked regexmap => simp only [FieldWorkers.step, phase, reduceCtorEq] at stepped
      | idle =>
          simp only [FieldWorkers.step, phase, Option.some.injEq] at stepped
          subst stepped
          have tables := sound.tables
          rw [phase] at tables
          exact sound.change ⟨tables.reads _, tables.keys_eq _⟩ rfl
            (fun known => (known.reads _).1) sound.outcomes
  | finishGetLogFieldConfig =>
      cases phase : state.handler with
      | idle => simp only [FieldWorkers.step, phase, reduceCtorEq] at stepped
      | querying request regexmap =>
          simp only [FieldWorkers.step, phase, Option.some.injEq] at stepped
          subst stepped
          have tables := sound.tables
          rw [phase] at tables
          obtain ⟨inStep, same⟩ := tables
          refine sound.change inStep rfl (fun known => (known.reads _).2) ?_
          intro outcome member
          rcases List.mem_append.mp member with earlier | last
          · exact sound.outcomes outcome earlier
          · obtain ⟨reply, answered, sent⟩ := replyFields_eq same
            rw [List.mem_singleton.mp last]
            exact ⟨reply, _, answered, sent, error_fieldsResponse_ne⟩
  | getType worker srcid =>
      cases phase : state.workers worker with
      | typed curType => simp only [FieldWorkers.step, phase, reduceCtorEq] at stepped
      | ruled curType => simp only [FieldWorkers.step, phase, reduceCtorEq] at stepped
      | idle =>
          simp only [FieldWorkers.step, phase, Option.some.injEq] at stepped
          subst stepped
          split
          · exact sound
          · rename_i known
            refine sound.work worker fun type member => ?_
            obtain rfl := Option.some.inj member
            rw [DataFieldRuler.getType] at known ⊢
            cases found : state.ruler.srcidType.find? srcid with
            | none =>
                rw [found] at known
                exact absurd rfl known
            | some type => exact sound.types srcid type found
  | getRule worker =>
      cases phase : state.workers worker with
      | idle => simp only [FieldWorkers.step, phase, reduceCtorEq] at stepped
      | ruled curType => simp only [FieldWorkers.step, phase, reduceCtorEq] at stepped
      | typed curType =>
          simp only [FieldWorkers.step, phase, Option.some.injEq] at stepped
          subst stepped
          have known := sound.workers worker curType (by rw [phase]; rfl)
          rw [getRule_snd_of_known known]
          refine sound.work worker fun type member => ?_
          obtain rfl := Option.some.inj member
          exact known
  | getIsTrans worker =>
      cases phase : state.workers worker with
      | idle => simp only [FieldWorkers.step, phase, reduceCtorEq] at stepped
      | typed curType => simp only [FieldWorkers.step, phase, reduceCtorEq] at stepped
      | ruled curType =>
          simp only [FieldWorkers.step, phase, Option.some.injEq] at stepped
          subst stepped
          rw [getIsTrans_snd_of_known (sound.workers worker curType (by rw [phase]; rfl))]
          exact sound.work worker fun _ => nofun

/-- **Tables in step.** Whenever no request for the fields is at work, both tables have the same
applications and fields, and every such request was answered from tables that agree. -/
theorem replies_agree (cfg : FieldCfg) (types : List Str) {loaded : DataFieldRuler}
    (load : loadConfig cfg types new = some loaded) (actions : List (Action Worker))
    {state : State Worker} (reached : Runs.run step (start loaded) actions = some state) :
    (state.handler = .idle → state.ruler.InStep) ∧
      ∀ outcome ∈ state.outcomes, Agrees outcome := by
  have sound := Runs.invariant Sound Sound.step (sound_start load) reached
  refine ⟨fun idle => ?_, sound.outcomes⟩
  have tables := sound.tables
  rw [idle] at tables
  exact tables

/-- The configuration of one type with one srcid and one field. -/
def weatherCfg : FieldCfg where
  preprocessAction := OrderedMap.ofList [(bytes "weather", [⟨bytes "qid", bytes "q", true⟩])]
  srcidCfg := OrderedMap.ofList [(bytes "weather", bytes "4178")]

/-- A worker reads the rules of its type while the fields of an unknown application are asked
for. -/
theorem replies_agree_during_query :
    ∃ loaded, loadConfig weatherCfg [bytes "weather"] new = some loaded ∧
      ∃ state, Runs.run step (start loaded : State Unit)
          [.getType () (bytes "4178"), .getLogFieldConfig ⟨bytes "spider", none⟩, .getRule (),
            .finishGetLogFieldConfig, .getIsTrans ()] = some state ∧
        state.outcomes.length = 1 ∧ state.ruler.InStep ∧
          ∀ outcome ∈ state.outcomes, Agrees outcome := by
  refine ⟨_, rfl, _, rfl, rfl, ?_⟩
  have agree := replies_agree weatherCfg [bytes "weather"] rfl
    [.getType () (bytes "4178"), .getLogFieldConfig ⟨bytes "spider", none⟩, .getRule (),
      .finishGetLogFieldConfig, .getIsTrans ()] rfl
  exact ⟨agree.1 rfl, agree.2⟩

end FieldWorkers

end LogProcess
