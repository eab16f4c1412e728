import LogProcess.Foundation.ComparisonSort
import LogProcess.Process.Selection

/-! # The comparisons of the plain sort

`GetLogProcessStat` sorts the selected rows with `std::sort` and a comparison of
`process/process_sort.cc`, which reads the field of both rows without checking that they have
it. Since sorting compares every one of two or more rows, only rows with the field are compared
exactly when the request lists fields, fewer than two rows are selected, or all of them have
the field (`ProcessImpl.comparesPresent_iff`).
-/

namespace LogProcess.ProcessImpl

/-- The branch of the plain sort is taken. -/
structure PlainSort (request : GetLogProcessStatRequest) (sortfield : Str) (res : List Kvpairs) :
    Prop where
  sorting : request.sortfield = some sortfield
  listed : request.selectfields ≠ [] → sortfield ∈ request.selectfields
  small : ¬(100000 < (lastRow request).toNat ∧ 100000 < res.length)

/-- The comparisons of the three fields on rows that have them. On other rows they read behind
the end and may answer anything. -/
def ReadsFields (cmp : Str → Kvpairs → Kvpairs → Int) : Prop :=
  ∀ field item1 item2, (item1.find? field).isSome → (item2.find? field).isSome →
    cmp field item1 item2 = fieldCmp field item1 item2

section Calls

variable (sorter : ComparisonSort) (cmp : Str → Kvpairs → Kvpairs → Int)

/-- The pairs of rows that `std::sort` compares in the branch of the plain sort. -/
def sortCalls (sortfield : Str) (res : List Kvpairs) : List (Kvpairs × Kvpairs) :=
  if sortfield = bytes "query" then
    sorter.comparisons (fun item1 item2 => cmp (bytes "query") item1 item2 ≠ 0) res
  else if sortfield = bytes "srcid" then
    sorter.comparisons (fun item1 item2 => cmp (bytes "srcid") item1 item2 ≠ 0) res
  else if sortfield = bytes "timestamp" then
    sorter.comparisons (fun item1 item2 => cmp (bytes "timestamp") item1 item2 ≠ 0) res
  else
    []

/-- Only rows with the field are compared. -/
def ComparesPresent (sortfield : Str) (res : List Kvpairs) : Prop :=
  ∀ call ∈ sortCalls sorter cmp sortfield res,
    (call.1.find? sortfield).isSome ∧ (call.2.find? sortfield).isSome

theorem sortCalls_eq {sortfield : Str} (known : sortfield ∈ sortFields) (res : List Kvpairs) :
    sortCalls sorter cmp sortfield res =
      sorter.comparisons (fun item1 item2 => cmp sortfield item1 item2 ≠ 0) res := by
  simp only [sortFields, List.mem_cons, List.not_mem_nil, or_false] at known
  rcases known with rfl | rfl | rfl
  · rw [sortCalls, if_pos rfl]
  · rw [sortCalls, if_neg (by decide), if_pos rfl]
  · rw [sortCalls, if_neg (by decide), if_neg (by decide), if_pos rfl]

end Calls

theorem fieldCmp_ne_zero_iff (field : Str) (item1 item2 : Kvpairs) :
    fieldCmp field item1 item2 ≠ 0 ↔ fieldText field item2 < fieldText field item1 := by
  rw [fieldCmp]
  split
  · exact iff_of_true one_ne_zero ‹_›
  · exact iff_of_false (not_not_intro rfl) ‹_›

theorem strictWeak_fieldCmp (field : Str) :
    StrictWeak fun item1 item2 => decide (fieldCmp field item1 item2 ≠ 0) := by
  refine ⟨fun first second => ?_, fun first second third => ?_⟩
  · rw [decide_eq_true_eq, decide_eq_false_iff_not, fieldCmp_ne_zero_iff, fieldCmp_ne_zero_iff,
      not_lt]
    exact le_of_lt
  · rw [decide_eq_false_iff_not, decide_eq_false_iff_not, decide_eq_false_iff_not,
      fieldCmp_ne_zero_iff, fieldCmp_ne_zero_iff, fieldCmp_ne_zero_iff, not_lt, not_lt, not_lt]
    exact fun low high => low.trans high

section Compares

variable (sorter : ComparisonSort) {cmp : Str → Kvpairs → Kvpairs → Int}
  (reads : ReadsFields cmp) {sortfield : Str} (known : sortfield ∈ sortFields)

include reads known

/-- Every one of two or more rows is compared. -/
theorem comparesPresent_iff_forall (res : List Kvpairs) :
    ComparesPresent sorter cmp sortfield res ↔
      res.length < 2 ∨ ∀ row ∈ res, (row.find? sortfield).isSome := by
  rw [ComparesPresent, sortCalls_eq sorter cmp known]
  apply sorter.forall_comparisons_iff (fun row => (row.find? sortfield).isSome)
    (strictWeak_fieldCmp sortfield)
  intro item1 item2 first second
  rw [reads sortfield item1 item2 first second]

/-- The branch of the plain sort comes to its end when only rows with the field are compared. -/
theorem isSome_sortRows_iff (std : Sorting.StdSort Kvpairs) (res : List Kvpairs) :
    (sortRows std sortfield res).isSome ↔ ComparesPresent sorter cmp sortfield res := by
  rw [comparesPresent_iff_forall sorter reads known, sortRows_eq std known, Option.isSome_map,
    sortBy]
  split
  next sorts => exact iff_of_true rfl sorts
  next fails => exact iff_of_false Bool.false_ne_true fails

/-- **Comparisons of the plain sort.** Only rows with the field are compared exactly when the
request lists fields, or fewer than two stored rows satisfy its conditions and are not empty, or
all of these have the field. -/
theorem comparesPresent_iff {regex : Regex} {request : GetLogProcessStatRequest}
    {raw res : List Kvpairs}
    (select : selectByConds regex request.cond request.selectfields raw = some res)
    (plain : PlainSort request sortfield res) :
    ComparesPresent sorter cmp sortfield res ↔
      request.selectfields ≠ [] ∨
      raw.countP (fun row => allCheck regex request.cond row = .ok true ∧ row.entries ≠ []) < 2 ∨
      ∀ row ∈ raw, allCheck regex request.cond row = .ok true → row.entries ≠ [] →
        (row.find? sortfield).isSome := by
  rw [comparesPresent_iff_forall sorter reads known]
  by_cases everything : request.selectfields = []
  · rw [everything] at select
    rw [or_iff_right (not_not_intro everything), selectByConds_nil select,
      List.countP_eq_length_filter]
    simp only [List.mem_filter, decide_eq_true_eq, and_imp]
  · have listed := plain.listed everything
    exact iff_of_true (.inr (isSome_find?_of_selectByConds select listed)) (.inl everything)

end Compares

/-! ### Requests -/

theorem readsFields_fieldCmp : ReadsFields fieldCmp := fun _ _ _ _ _ => rfl

/-- All records of an application in the order of their queries. -/
def queryRequest : GetLogProcessStatRequest where
  application := bytes "sp"
  startime := 1500000000
  endtime := -1
  sortfield := some (bytes "query")
  getfrom := .rocksdb

theorem plainSort_queryRequest {res : List Kvpairs} (few : res.length ≤ 100000) :
    PlainSort queryRequest (bytes "query") res :=
  ⟨rfl, fun listed => absurd rfl listed, fun many => absurd many.2 (not_lt.mpr few)⟩

/-- Two queries. -/
theorem comparesPresent_of_two_queries :
    ComparesPresent ComparisonSort.insertion fieldCmp (bytes "query")
      [Topk.queryRow "b", Topk.queryRow "a"] :=
  have select : selectByConds ⟨fun _ => true, fun _ _ => none⟩ queryRequest.cond
      queryRequest.selectfields [Topk.queryRow "b", Topk.queryRow "a"] =
        some [Topk.queryRow "b", Topk.queryRow "a"] := by decide
  (comparesPresent_iff ComparisonSort.insertion readsFields_fieldCmp (by decide) select
    (plainSort_queryRequest (by decide))).mpr (.inr (.inr (by decide)))

/-- A record without the query next to one with it. -/
theorem not_comparesPresent_of_missing_query :
    ∃ raw res, readFromRocksdb RocksDB.table CJson.flat (storeAll RocksDB.table CJson.flat
        (bytes "sp") (storagerInit RocksDB.table [bytes "sp"])
        [(1500000000, Topk.queryRow "a"),
          (1500000000, OrderedMap.ofList [(bytes "srcid", bytes "1")])])
        queryRequest.application queryRequest.startime.toInt queryRequest.endtime.toInt =
          some raw ∧
      selectByConds ⟨fun _ => true, fun _ _ => none⟩ queryRequest.cond queryRequest.selectfields
        raw = some res ∧
      PlainSort queryRequest (bytes "query") res ∧
      ¬ComparesPresent ComparisonSort.insertion fieldCmp (bytes "query") res := by
  refine ⟨[Topk.queryRow "a", OrderedMap.ofList [(bytes "srcid", bytes "1")]],
    [Topk.queryRow "a", OrderedMap.ofList [(bytes "srcid", bytes "1")]], by decide +kernel,
    by decide +kernel, plainSort_queryRequest (by decide), ?_⟩
  rw [comparesPresent_iff_forall _ readsFields_fieldCmp (by decide)]
  decide

end LogProcess.ProcessImpl
