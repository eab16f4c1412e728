import LogProcess.Foundation.Decimal
import LogProcess.Preprocess.FieldConfig
import LogProcess.Preprocess.PvStater

/-! # Which records are accepted

`AccessFilter` of `preprocess/data_access_filter.h`, with the handlers of
`preprocess/data_access_impl.cc` that change or list the filter and the counters. The filter, the
types of the srcids and the counters are made of one configuration. A request can make the filter
accept a srcid without a type, and nothing gives a type to a srcid afterwards, so the records of
such a srcid are dropped (`Management.routable_iff`).
-/

namespace LogProcess

/-- The set `useful_srcids` is a map without values. -/
structure AccessFilter where
  usefulSrcids : OrderedMap Str Unit
  err : Bool

namespace AccessFilter

def add (filter : AccessFilter) (srcid : Str) : AccessFilter :=
  { filter with usefulSrcids := filter.usefulSrcids.insertNew srcid () }

def del (filter : AccessFilter) (srcid : Str) : AccessFilter :=
  if (filter.usefulSrcids.find? srcid).isSome then
    { filter with usefulSrcids := filter.usefulSrcids.erase srcid }
  else filter

def get (filter : AccessFilter) : List Str := filter.usefulSrcids.keys

def judge (filter : AccessFilter) (srcid : Str) : Bool :=
  (filter.usefulSrcids.find? srcid).isSome

/-- One round of the loop of the constructor. -/
def addType (filterCfg : OrderedMap Str Str) (filter : AccessFilter) (i : Str) : AccessFilter :=
  let srcids := (filterCfg.find? i.cstr).getD []
  if srcids ≠ [] then (Str.splitAt 124 srcids).foldl add filter
  else { filter with err := true }

/-- The constructor. -/
def new (filterCfg : OrderedMap Str Str) (supportType : List Str) : AccessFilter :=
  supportType.foldl (addType filterCfg) ⟨.empty, false⟩

theorem judge_add_iff (filter : AccessFilter) (srcid query : Str) :
    (filter.add srcid).judge query = true ↔ query = srcid ∨ filter.judge query = true := by
  rw [judge, add, OrderedMap.find?_insertNew]
  split
  · rename_i same
    exact iff_of_true rfl (.inl same)
  · rename_i other
    exact (or_iff_right other).symm

theorem judge_of_judge_del {filter : AccessFilter} {srcid query : Str}
    (accepted : (filter.del srcid).judge query = true) : filter.judge query = true := by
  rw [judge, del] at accepted
  split at accepted
  · rw [OrderedMap.find?_erase] at accepted
    split at accepted
    · cases accepted
    · exact accepted
  · exact accepted

theorem judge_foldl_add_iff (filter : AccessFilter) (srcids : List Str) (query : Str) :
    (srcids.foldl add filter).judge query = true ↔
      query ∈ srcids ∨ filter.judge query = true := by
  induction srcids generalizing filter with
  | nil => simp only [List.foldl_nil, List.not_mem_nil, false_or]
  | cons srcid rest ih =>
      rw [List.foldl_cons, ih, judge_add_iff, List.mem_cons, or_left_comm, or_assoc]

/-- The filter of a configuration accepts the srcids that are listed for a type. -/
theorem exists_type_of_judge_new {filterCfg : OrderedMap Str Str} {supportType : List Str}
    {query : Str} (accepted : (new filterCfg supportType).judge query = true) :
    ∃ type ∈ supportType, query ∈ Str.splitAt 124 ((filterCfg.find? type.cstr).getD []) := by
  induction supportType using List.reverseRecOn with
  | nil => cases accepted
  | append_singleton types type ih =>
      rw [new, List.foldl_concat, addType] at accepted
      split at accepted
      · rcases (judge_foldl_add_iff ..).mp accepted with listed | earlier
        · exact ⟨type, by simp, listed⟩
        · obtain ⟨other, member, listed⟩ := ih earlier
          exact ⟨other, List.mem_append_left _ member, listed⟩
      · obtain ⟨other, member, listed⟩ := ih accepted
        exact ⟨other, List.mem_append_left _ member, listed⟩

end AccessFilter

structure SetLogFilterConfigRequest where
  op : Bool
  srcid : Str

structure GetLogFilterConfigResponse where
  status : Option ResStatus := none
  error : Option Str := none
  srcids : List Str := []

structure GetLogTransmitStatRequest where
  application : Str := []
  startime : BitVec 64
  endtime : BitVec 64

structure GetLogTransmitStatResponse where
  status : Option ResStatus := none
  error : Option Str := none
  cnt : List MapEntry := []

structure AddLogTransmitStatRequest where
  application : Str
  srcid : Str

namespace AccessImpl

/-! ### The handlers -/

def setLogFilterConfig (request : SetLogFilterConfigRequest) (accessfilter : AccessFilter)
    (reply : RpcReply StatusResponse) : AccessFilter × RpcReply StatusResponse :=
  let accessfilter :=
    if !request.op then accessfilter.del request.srcid else accessfilter.add request.srcid
  (accessfilter, (reply.modify fun response => { response with status := some .succeed }).run)

def getLogFilterConfig (accessfilter : AccessFilter)
    (reply : RpcReply GetLogFilterConfigResponse) : RpcReply GetLogFilterConfigResponse :=
  let reply := accessfilter.get.foldl (fun reply i => reply.modify fun response =>
    { response with srcids := response.srcids ++ [i] }) reply
  (reply.modify fun response => { response with status := some .succeed }).run

/-- `GetLogTransmitStat`. It has no result for an application without counters, for which `Cnt`
does not return a map. -/
def getLogTransmitStat (request : GetLogTransmitStatRequest) (pvstater : PvStater)
    (reply : RpcReply GetLogTransmitStatResponse) :
    Option (RpcReply GetLogTransmitStatResponse) :=
  match pvstater.cnt request.application request.startime.toInt request.endtime.toInt with
  | .ok (some cnt) =>
      let reply := cnt.entries.foldl (fun reply it => reply.modify fun response =>
        { response with cnt := response.cnt ++ [⟨it.1, Decimal.intText it.2⟩] }) reply
      some (reply.modify fun response => { response with status := some .succeed }).run
  | _ => none

def addLogTransmitStat (request : AddLogTransmitStatRequest) (pvstater : PvStater)
    (reply : RpcReply StatusResponse) : PvStater × RpcReply StatusResponse :=
  (pvstater.addSupportType request.application request.srcid,
    (reply.modify fun response => { response with status := some .succeed }).run)

end AccessImpl

/-! ### Management requests -/

/-- What the management requests change. -/
structure Management where
  accessfilter : AccessFilter
  datafieldruler : DataFieldRuler
  pvstater : PvStater

namespace Management

/-- The table of types for the counters, which is filled in once for every entry of the group
`srcid_cfg`. -/
def supportTable (srcidCfg : OrderedMap Str Str) (supportTypes : List Str) :
    OrderedMap Str (List Str) :=
  srcidCfg.entries.foldl (fun types _ => supportTypes.foldl (fun types j =>
    types.insertNew j (Str.splitAt 124 ((srcidCfg.find? j.cstr).getD []))) types) .empty

/-- What `main` makes of the configuration. -/
def startup (cfg : FieldCfg) (supportTypes : List Str) : Option Management :=
  (DataFieldRuler.loadConfig cfg supportTypes .new).map fun ruler =>
    { accessfilter := .new cfg.srcidCfg supportTypes
      datafieldruler := ruler
      pvstater := .new (supportTable cfg.srcidCfg supportTypes) }

inductive Request where
  | setLogFilterConfig (request : SetLogFilterConfigRequest)
  | setLogFieldConfig (request : SetLogFieldConfigRequest)
  | addLogTransmitStat (request : AddLogTransmitStatRequest)

def handle (management : Management) : Request → Management
  | .setLogFilterConfig request => { management with
      accessfilter :=
        (AccessImpl.setLogFilterConfig request management.accessfilter ⟨{}, []⟩).1 }
  | .setLogFieldConfig request => { management with
      datafieldruler :=
        (AccessImpl.setLogFieldConfig request management.datafieldruler ⟨{}, []⟩).1 }
  | .addLogTransmitStat request => { management with
      pvstater := (AccessImpl.addLogTransmitStat request management.pvstater ⟨{}, []⟩).1 }

/-- Every srcid that is accepted has a type. -/
def Routable (management : Management) : Prop :=
  ∀ srcid, management.accessfilter.judge srcid = true →
    management.datafieldruler.getType srcid ≠ []

/-- Every listed srcid of a loaded type has one of the types. -/
theorem exists_srcidType {cfg : FieldCfg} {types : List Str} {loaded : DataFieldRuler}
    (load : DataFieldRuler.loadConfig cfg types .new = some loaded) :
    ∀ type ∈ types, ∀ srcid ∈ Str.splitAt 124 ((cfg.srcidCfg.find? type.cstr).getD []),
      ∃ found ∈ types, loaded.srcidType.find? srcid = some found := by
  refine Runs.invariant_of_actions (fun types ruler => ∀ type ∈ types,
      ∀ srcid ∈ Str.splitAt 124 ((cfg.srcidCfg.find? type.cstr).getD []),
        ∃ found ∈ types, ruler.srcidType.find? srcid = some found)
    (fun _ member => absurd member List.not_mem_nil) ?_ load
  intro types ruler tp loaded earlier round type member srcid listed
  obtain ⟨tpcfg, _, rfl⟩ := Option.map_eq_some_iff.mp round
  dsimp only
  rw [DataFieldRuler.find?_setTypes]
  split
  · exact ⟨tp, by simp, rfl⟩
  · rename_i unlisted
    rcases List.mem_append.mp member with before | last
    · obtain ⟨found, member, same⟩ := earlier type before srcid listed
      exact ⟨found, List.mem_append_left _ member, same⟩
    · obtain rfl := List.mem_singleton.mp last
      exact absurd listed unlisted

/-- What the filter accepts at first has a type. -/
theorem routable_startup {cfg : FieldCfg} {supportTypes : List Str} {management : Management}
    (started : startup cfg supportTypes = some management)
    (named : ∀ type ∈ supportTypes, type ≠ []) : management.Routable := by
  obtain ⟨ruler, load, rfl⟩ := Option.map_eq_some_iff.mp started
  intro srcid accepted
  obtain ⟨type, member, listed⟩ := AccessFilter.exists_type_of_judge_new accepted
  obtain ⟨found, known, same⟩ := exists_srcidType load type member srcid listed
  rw [DataFieldRuler.getType, same, Option.getD_some]
  exact named found known

/-- No request gives a type to a srcid or takes it away. -/
theorem getType_handle (management : Management) (request : Request) (srcid : Str) :
    (management.handle request).datafieldruler.getType srcid =
      management.datafieldruler.getType srcid := by
  cases request with
  | setLogFieldConfig request =>
      rw [DataFieldRuler.getType, DataFieldRuler.getType, handle, AccessImpl.setLogFieldConfig,
        DataFieldRuler.srcidType_updateConfig]
  | _ => rfl

theorem getType_foldl (management : Management) (requests : List Request) (srcid : Str) :
    (requests.foldl handle management).datafieldruler.getType srcid =
      management.datafieldruler.getType srcid := by
  induction requests generalizing management with
  | nil => rfl
  | cons request rest ih => rw [List.foldl_cons, ih, getType_handle]

/-- A srcid is accepted after a request when it was before, or when the request adds it. -/
theorem judge_of_judge_handle {management : Management} {request : Request} {srcid : Str}
    (accepted : (management.handle request).accessfilter.judge srcid = true) :
    management.accessfilter.judge srcid = true ∨ request = .setLogFilterConfig ⟨true, srcid⟩ := by
  cases request with
  | setLogFilterConfig request =>
      obtain ⟨op, added⟩ := request
      cases op with
      | true =>
          rcases (AccessFilter.judge_add_iff ..).mp accepted with rfl | earlier
          · exact .inr rfl
          · exact .inl earlier
      | false => exact .inl (AccessFilter.judge_of_judge_del accepted)
  | setLogFieldConfig request => exact .inl accepted
  | addLogTransmitStat request => exact .inl accepted

theorem judge_of_judge_foldl {management : Management} {requests : List Request} {srcid : Str}
    (accepted : (requests.foldl handle management).accessfilter.judge srcid = true) :
    management.accessfilter.judge srcid = true ∨
      .setLogFilterConfig ⟨true, srcid⟩ ∈ requests := by
  induction requests generalizing management with
  | nil => exact .inl accepted
  | cons request rest ih =>
      rcases ih accepted with earlier | later
      · rcases judge_of_judge_handle earlier with before | rfl
        · exact .inl before
        · exact .inr List.mem_cons_self
      · exact .inr (List.mem_cons_of_mem _ later)

/-- **Accepted records.** In every state on the way through some requests the accepted srcids have
types, exactly when the requests only add srcids that have one from the configuration. -/
theorem routable_iff (cfg : FieldCfg) (supportTypes : List Str) {management : Management}
    (started : startup cfg supportTypes = some management)
    (named : ∀ type ∈ supportTypes, type ≠ []) (requests : List Request) :
    (∀ earlier, earlier <+: requests → (earlier.foldl handle management).Routable) ↔
      ∀ srcid, .setLogFilterConfig ⟨true, srcid⟩ ∈ requests →
        management.datafieldruler.getType srcid ≠ [] := by
  refine ⟨fun routable srcid added => ?_, fun typed earlier first srcid accepted => ?_⟩
  · obtain ⟨earlier, later, rfl⟩ := List.append_of_mem added
    rw [← getType_foldl management (earlier ++ [.setLogFilterConfig ⟨true, srcid⟩])]
    apply routable _ ⟨later, by rw [List.append_assoc, List.singleton_append]⟩
    rw [List.foldl_concat]
    exact (AccessFilter.judge_add_iff ..).mpr (.inl rfl)
  · rw [getType_foldl]
    rcases judge_of_judge_foldl accepted with initial | added
    · exact routable_startup started named srcid initial
    · exact typed srcid (first.subset added)

/-- A configured srcid can be taken out of the filter and added again. -/
theorem routable_after_readding :
    ∃ management, startup FieldWorkers.weatherCfg [bytes "weather"] = some management ∧
      ∀ earlier, earlier <+: [Request.setLogFilterConfig ⟨false, bytes "4178"⟩,
        .setLogFilterConfig ⟨true, bytes "4178"⟩] →
          (earlier.foldl handle management).Routable := by
  refine ⟨_, rfl, (routable_iff FieldWorkers.weatherCfg [bytes "weather"] rfl (by decide) _).mpr
    fun srcid added => ?_⟩
  have readded : srcid = bytes "4178" := by
    simpa only [List.mem_cons, List.not_mem_nil, or_false, Request.setLogFilterConfig.injEq,
      SetLogFilterConfigRequest.mk.injEq, reduceCtorEq, false_and, true_and, false_or] using added
  rw [readded]
  decide

/-- A srcid that the configuration lacks is accepted after a request, and has no type. -/
theorem not_routable_after_new_srcid :
    ∃ management, startup FieldWorkers.weatherCfg [bytes "weather"] = some management ∧
      ¬([Request.setLogFilterConfig ⟨true, bytes "4515"⟩].foldl handle management).Routable :=
  ⟨_, rfl, fun routable => routable (bytes "4515") (by decide) (by decide)⟩

end Management

end LogProcess
