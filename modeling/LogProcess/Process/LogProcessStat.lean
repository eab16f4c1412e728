import LogProcess.Process.AllCheck
import LogProcess.Process.QueryFreqStat
import LogProcess.Process.ReadFromRocksdb
import LogProcess.Process.Topk

/-! # Reading statistics

`GetLogProcessStat` of `process/process_impl.cc`. Stored rows are selected by conditions,
reduced to some fields, sorted, and cut to a page. The heap for large results shows the
page of the sorted rows only under a condition (`ProcessImpl.topkUnobservable_iff`), and the pages
of a result are a partition of it only when the last one is full
(`ProcessImpl.pagesPartition_iff`). -/

namespace LogProcess

inductive SourceFrom where
  | rocksdb
  | queryTrie
  | redis
  deriving DecidableEq

/-- The field `end` of the message is called `last` here. -/
structure GetLogProcessStatRequest where
  application : Str := []
  querystr : Option Str := none
  cookieid : Option Str := none
  srcid : Option Str := none
  startime : BitVec 64 := 0
  endtime : BitVec 64 := 0
  cond : CheckListCond := {}
  selectfields : List Str := []
  sortfield : Option Str := none
  getfrom : SourceFrom
  start : Option (BitVec 32) := none
  last : Option (BitVec 32) := none

structure GetLogProcessStatResponse where
  status : ResStatus
  error : Option Str := none
  count : Nat := 0
  iteminfos : List (List MapEntry) := []

namespace ProcessImpl

/-! ### Selecting -/

/-- The loop over the fields to select. -/
def selectItem (selectfield : List Str) (i : Kvpairs) : Kvpairs :=
  selectfield.foldl (fun newitem j =>
    match i.find? j with
    | some value => newitem.insertNew j value
    | none => newitem) OrderedMap.empty

/-- `SelectByConds`, without a result when a check throws. -/
def selectByConds (regex : Regex) (conds : CheckListCond) (selectfield : List Str) :
    List Kvpairs → Option (List Kvpairs)
  | [] => some []
  | i :: rest => do
      let selected ← (allCheck regex conds i).toOption
      let res ← selectByConds regex conds selectfield rest
      if selected then
        if selectfield.length ≠ 0 then
          let newitem := selectItem selectfield i
          some (if newitem.entries.length = selectfield.length then newitem :: res else res)
        else
          some (if i.entries.length ≠ 0 then i :: res else res)
      else
        some res

/-! ### Sorting and cutting -/

section Page

variable (std : Sorting.StdSort Kvpairs)

/-- `std::sort` with one of the comparisons, which read the field of every one of two or more
rows. -/
def sortBy (field : Str) (cmp : Kvpairs → Kvpairs → Int) (res : List Kvpairs) :
    Option (List Kvpairs) :=
  if res.length < 2 ∨ ∀ row ∈ res, (row.find? field).isSome then
    some (std.sort (fun item1 item2 => cmp item1 item2 ≠ 0) res)
  else
    none

/-- The branch of the plain sort. -/
def sortRows (sortfield : Str) (res : List Kvpairs) : Option (List Kvpairs) :=
  let res :=
    if sortfield = bytes "query" then sortBy std (bytes "query") queryCmp res
    else if sortfield = bytes "srcid" then sortBy std (bytes "srcid") srcidCmp res
    else if sortfield = bytes "timestamp" then sortBy std (bytes "timestamp") timestampCmp res
    else some res
  res.map List.reverse

/-- The branch of the heap. For another field nothing is assigned to the result. -/
def topkRows (sortfield : Str) (last : BitVec 32) (res : List Kvpairs) : Option (List Kvpairs) :=
  if sortfield = bytes "query" then Topk.run ⟨res, int32 last.toNat, queryCmp⟩ (bytes "query")
  else if sortfield = bytes "srcid" then Topk.run ⟨res, int32 last.toNat, srcidCmp⟩ (bytes "srcid")
  else if sortfield = bytes "timestamp" then
    Topk.run ⟨res, int32 last.toNat, timestampCmp⟩ (bytes "timestamp")
  else some []

def sortResult (selectfields : List Str) (sortfield : Str) (last : BitVec 32)
    (res : List Kvpairs) : Option (List Kvpairs) :=
  if selectfields.length ≠ 0 ∧ sortfield ∉ selectfields then some res
  else if 100000 < last.toNat ∧ 100000 < res.length then topkRows sortfield last res
  else sortRows std sortfield res

/-- The limit. The value -1 means that there is none. -/
def limit (start last : BitVec 32) (sorted : List Kvpairs) : List Kvpairs :=
  if start ≠ -1 ∧ last ≠ -1 then
    if start ≤ last ∧ last.toNat < sorted.length then
      (sorted.drop start.toNat).take (last.toNat + 1 - start.toNat)
    else
      sorted
  else
    sorted

/-- The steps 3.5 and 3.6. The bounds are only read for a request that sorts. -/
def sortAndLimit (request : GetLogProcessStatRequest) (res : List Kvpairs) :
    Option (List Kvpairs) :=
  match request.sortfield with
  | none => some res
  | some sortfield =>
      let (start, last) := match request.start, request.last with
        | some start, some last => (start, last)
        | _, _ => (-1, -1)
      (sortResult std request.selectfields sortfield last res).map (limit start last)

end Page

section Model

variable {Database : Type} (rocksdb : RocksDB Database) (cjson : CJson) (regex : Regex)
  (std : Sorting.StdSort Kvpairs) (storager : OrderedMap Str (StorageImpl Database))
  (qftree : Trie) (searchCookie : Str → Int → Int → Option (List (Int × Str)))
  (unixTime2Str : Int → Str)

def mapEntries (item : Kvpairs) : List MapEntry :=
  item.entries.map fun field => ⟨field.1, field.2⟩

/-- `GetLogProcessStat`, without a result when an exception leaves it or a search is not defined.
What Redis has stored for a cookie is given by `searchCookie`. -/
def getLogProcessStat (request : GetLogProcessStatRequest) : Option GetLogProcessStatResponse :=
  match request.getfrom with
  | .rocksdb => do
      let raw ← readFromRocksdb rocksdb cjson storager request.application request.startime.toInt
        request.endtime.toInt
      if raw.length = 0 then
        some { status := .succeed }
      else
        let res ← selectByConds regex request.cond request.selectfields raw
        let sorted ← sortAndLimit std request res
        some { status := .succeed, count := sorted.length, iteminfos := sorted.map mapEntries }
  | .queryTrie =>
      match request.querystr, request.srcid with
      | some query, some srcid =>
          if QueryFreqStat.HashesInside query then
            some { status := .succeed, count := (QueryFreqStat.searchExists qftree query srcid).2 }
          else none
      | _, _ => some { status := .failed, error := some (bytes "has not querystr or srcid") }
  | .redis =>
      match request.cookieid with
      | some cookieid => do
          let records ← searchCookie cookieid request.startime.toInt request.endtime.toInt
          some { status := .succeed, count := records.length
                 iteminfos := records.map fun i => [⟨unixTime2Str i.1, i.2⟩] }
      | none => some { status := .failed, error := some (bytes "has not cookieid") }

end Model

/-! ### Pages of sorted rows -/

section Limit

variable (std : Sorting.StdSort Kvpairs)

/-- Bounds within the rows select a part of them. -/
theorem limit_inside {start last : BitVec 32} {sorted : List Kvpairs} (ordered : start ≤ last)
    (inside : last.toNat < sorted.length) (limited : last ≠ -1) :
    limit start last sorted = (sorted.drop start.toNat).take (last.toNat + 1 - start.toNat) := by
  have below : start ≠ -1 := by
    intro none
    have most : (-1 : BitVec 32).toNat = 2 ^ 32 - 1 := rfl
    have above := BitVec.le_def.mp (none ▸ ordered)
    exact limited (BitVec.eq_of_toNat_eq (by omega))
  rw [limit, if_pos ⟨below, limited⟩, if_pos ⟨ordered, inside⟩]

/-- Bounds behind the rows select all of them. -/
theorem limit_outside {start last : BitVec 32} {sorted : List Kvpairs}
    (outside : sorted.length ≤ last.toNat) : limit start last sorted = sorted := by
  rw [limit]
  split
  · rw [if_neg (not_and_of_not_right _ (not_lt.mpr outside))]
  · rfl

/-- The fields that rows can be sorted by. -/
def sortFields : List Str := [bytes "query", bytes "srcid", bytes "timestamp"]

/-- For these fields both branches compare the field. -/
theorem sortRows_eq {sortfield : Str} (known : sortfield ∈ sortFields) (res : List Kvpairs) :
    sortRows std sortfield res =
      (sortBy std sortfield (fieldCmp sortfield) res).map List.reverse := by
  simp only [sortFields, List.mem_cons, List.not_mem_nil, or_false] at known
  rcases known with rfl | rfl | rfl
  · rw [sortRows, if_pos rfl, queryCmp]
  · rw [sortRows, if_neg (by decide), if_pos rfl, srcidCmp]
  · rw [sortRows, if_neg (by decide), if_neg (by decide), if_pos rfl, timestampCmp]

theorem topkRows_eq {sortfield : Str} (known : sortfield ∈ sortFields) (last : BitVec 32)
    (res : List Kvpairs) :
    topkRows sortfield last res =
      Topk.run ⟨res, int32 last.toNat, fieldCmp sortfield⟩ sortfield := by
  simp only [sortFields, List.mem_cons, List.not_mem_nil, or_false] at known
  rcases known with rfl | rfl | rfl
  · rw [topkRows, if_pos rfl, queryCmp]
  · rw [topkRows, if_neg (by decide), if_pos rfl, srcidCmp]
  · rw [topkRows, if_neg (by decide), if_neg (by decide), if_pos rfl, timestampCmp]

/-- The plain sort arranges the rows in ascending order. -/
theorem exists_sortRows {sortfield : Str} (known : sortfield ∈ sortFields) {res : List Kvpairs}
    (present : ∀ row ∈ res, (row.find? sortfield).isSome) :
    ∃ plain, sortRows std sortfield res = some plain ∧ plain.Perm res ∧
      Sorting.Ascending (fieldText sortfield) plain := by
  rw [sortRows_eq std known, sortBy, if_pos (.inr present)]
  refine ⟨_, rfl, (List.reverse_perm _).trans (std.perm ..), std.ascending_reverse _ ?_ res⟩
  intro first second
  rw [decide_eq_true_eq, Topk.compares_fieldCmp]
  by_cases larger : fieldText sortfield second < fieldText sortfield first
  · simp only [larger, ↓reduceIte, ne_eq, one_ne_zero, not_false_eq_true]
  · simp only [larger, ↓reduceIte, ne_eq, not_true_eq_false]

/-! ### The page from the heap -/

/-- The page from the branch of the heap and the page from the sorted rows show the same texts
of the field. -/
def TopkUnobservable (selectfields : List Str) (sortfield : Str) (start last : BitVec 32)
    (rows : List Kvpairs) : Prop :=
  ∃ fast plain, sortResult std selectfields sortfield last rows = some fast ∧
    sortRows std sortfield rows = some plain ∧
    (limit start last fast).map (fieldText sortfield) =
      (limit start last plain).map (fieldText sortfield)

/-- Pages show the same texts when the texts at their positions agree. -/
theorem map_limit_eq_iff {Text : Type} (text : Kvpairs → Text) {first second : List Kvpairs}
    {start last : BitVec 32} (ordered : start ≤ last) (limited : last ≠ -1)
    (inside : last.toNat < first.length) (inside' : last.toNat < second.length) :
    (limit start last first).map text = (limit start last second).map text ↔
      ∀ j, start.toNat ≤ j → j ≤ last.toNat → (first.map text)[j]? = (second.map text)[j]? := by
  rw [limit_inside ordered inside limited, limit_inside ordered inside' limited, List.map_take,
    List.map_take, List.map_drop, List.map_drop]
  refine ⟨fun same j low high => ?_, fun same => List.ext_getElem? fun i => ?_⟩
  · have shown : j - start.toNat < last.toNat + 1 - start.toNat := by omega
    have read := congrArg (fun list => list[j - start.toNat]?) same
    simp only [List.getElem?_take_of_lt shown, List.getElem?_drop] at read
    rwa [Nat.add_sub_cancel' low] at read
  · by_cases shown : i < last.toNat + 1 - start.toNat
    · rw [List.getElem?_take_of_lt shown, List.getElem?_take_of_lt shown, List.getElem?_drop,
        List.getElem?_drop]
      exact same _ (by omega) (by omega)
    · rw [List.getElem?_take_eq_none (by omega), List.getElem?_take_eq_none (by omega)]

/-- A page of some rows is not empty. -/
theorem limit_ne_nil {start last : BitVec 32} {sorted : List Kvpairs} (ordered : start ≤ last)
    (present : sorted ≠ []) : limit start last sorted ≠ [] := by
  by_cases inside : last.toNat < sorted.length
  · by_cases unlimited : last = -1
    · rw [limit, if_neg (not_and_of_not_right _ (not_not_intro unlimited))]
      exact present
    · have below := BitVec.le_def.mp ordered
      rw [limit_inside ordered inside unlimited, ← List.length_pos_iff, List.length_take,
        List.length_drop]
      omega
  · rw [limit_outside (not_lt.mp inside)]
    exact present

theorem ne_of_small {last : BitVec 32} (small : last.toNat + 1 < 2 ^ 31) : last ≠ -1 := by
  rintro rfl
  exact absurd small (by decide)

section Heap

variable {selectfields : List Str} {sortfield : Str} {start last : BitVec 32}
  {rows : List Kvpairs} (many : 100000 < rows.length) (ordered : start ≤ last)
  (large : 100000 < last.toNat) (inside : last.toNat < rows.length)
  (selected : selectfields ≠ [] → sortfield ∈ selectfields)
  (present : ∀ row ∈ rows, (row.find? sortfield).isSome)

include many large selected

/-- Many rows and a large bound take the branch of the heap. -/
theorem sortResult_eq_topkRows :
    sortResult std selectfields sortfield last rows = topkRows sortfield last rows := by
  rw [sortResult, if_neg, if_pos ⟨large, many⟩]
  exact fun lacks => lacks.2 (selected fun empty => lacks.1 (empty ▸ rfl))

/-- For a field that is compared, the heap keeps the rows up to the bound. -/
theorem sortResult_eq_run (known : sortfield ∈ sortFields) (small : last.toNat + 1 < 2 ^ 31) :
    sortResult std selectfields sortfield last rows =
      Topk.run ⟨rows, last.toNat, fieldCmp sortfield⟩ sortfield := by
  rw [sortResult_eq_topkRows std many large selected, topkRows_eq known,
    int32_eq_self (by omega) (by omega)]

include ordered

/-- For a field that is not compared, the page from the heap is empty. -/
theorem not_topkUnobservable_of_unknown (unknown : sortfield ∉ sortFields) :
    ¬TopkUnobservable std selectfields sortfield start last rows := by
  intro shown
  obtain ⟨fast, plain, ran, sorted, same⟩ := shown
  simp only [sortFields, List.mem_cons, List.not_mem_nil, or_false, not_or] at unknown
  rw [sortResult_eq_topkRows std many large selected, topkRows, if_neg unknown.1,
    if_neg unknown.2.1, if_neg unknown.2.2, Option.some.injEq] at ran
  rw [sortRows, if_neg unknown.1, if_neg unknown.2.1, if_neg unknown.2.2, Option.map_some,
    Option.some.injEq] at sorted
  subst ran sorted
  rw [limit_outside (Nat.zero_le _), List.map_nil, eq_comm, List.map_eq_nil_iff] at same
  refine limit_ne_nil ordered (fun empty => ?_) same
  rw [List.reverse_eq_nil_iff] at empty
  rw [empty, List.length_nil] at many
  exact Nat.not_lt_zero _ many

omit ordered in
/-- The heap cannot keep 2 ^ 31 rows: their number is negative as an `int`, or overflows. -/
theorem not_topkUnobservable_of_huge (known : sortfield ∈ sortFields)
    (huge : ¬last.toNat + 1 < 2 ^ 31) :
    ¬TopkUnobservable std selectfields sortfield start last rows := by
  intro shown
  have bounded := last.isLt
  have refused : ¬(0 ≤ int32 last.toNat ∧ int32 last.toNat + 1 < 2 ^ 31) := by
    rw [int32, Int.bmod_def]
    split <;> omega
  obtain ⟨fast, _, ran, _⟩ := shown
  rw [sortResult_eq_topkRows std many large selected, topkRows_eq known] at ran
  simp only [Topk.run, refused, ↓reduceIte, reduceCtorEq] at ran

include inside present

/-- The page from the heap is right when the heap holds an even number of rows or its last row
is early. -/
theorem topkUnobservable_of_good (known : sortfield ∈ sortFields)
    (small : last.toNat + 1 < 2 ^ 31)
    (good : last.toNat % 2 = 1 ∨ Topk.Early sortfield rows last.toNat) :
    TopkUnobservable std selectfields sortfield start last rows := by
  obtain ⟨plain, sorted, perm, ascending⟩ := exists_sortRows std known present
  have inside' : last.toNat < plain.length := perm.length_eq ▸ inside
  obtain ⟨out, ran, texts⟩ := Topk.map_run_eq_take (by omega) small inside present ascending
    perm good
  have length : out.length = last.toNat + 1 := by
    rw [← List.length_map (fieldText sortfield), texts, List.length_take, List.length_map,
      Nat.min_eq_left (Nat.succ_le_of_lt inside')]
  refine ⟨out, plain, (sortResult_eq_run std many large selected known small).trans ran, sorted,
    (map_limit_eq_iff _ ordered (ne_of_small small) (by omega) inside').mpr fun j _ high => ?_⟩
  rw [texts]
  exact List.getElem?_take_of_lt (by omega)

/-- Otherwise it is only right when it is a single row with the text of the row before it. -/
theorem topkUnobservable_iff_of_bad (known : sortfield ∈ sortFields)
    (small : last.toNat + 1 < 2 ^ 31) (even : last.toNat % 2 = 0)
    (late : ¬Topk.Early sortfield rows last.toNat) :
    TopkUnobservable std selectfields sortfield start last rows ↔
      start = last ∧ Topk.Tied sortfield rows last.toNat := by
  obtain ⟨plain, sorted, perm, ascending⟩ := exists_sortRows std known present
  have inside' : last.toNat < plain.length := perm.length_eq ▸ inside
  obtain ⟨out, ran, length, before, tied_iff⟩ := Topk.exists_run_wrong (by omega) small inside
    present ascending perm even late
  have fast : sortResult std selectfields sortfield last rows = some out :=
    (sortResult_eq_run std many large selected known small).trans ran
  have same_iff := map_limit_eq_iff (fieldText sortfield) ordered (ne_of_small small)
    (show last.toNat < out.length by omega) inside'
  refine ⟨fun shown => ?_, fun tied => ?_⟩
  · obtain ⟨_, _, out_eq, plain_eq, same⟩ := shown
    obtain rfl := Option.some.inj (fast.symm.trans out_eq)
    obtain rfl := Option.some.inj (sorted.symm.trans plain_eq)
    rw [same_iff] at same
    have below := BitVec.le_def.mp ordered
    have single : start = last := by
      by_contra several
      have different : start.toNat ≠ last.toNat := fun same => several (BitVec.eq_of_toNat_eq same)
      exact before (same _ (by omega) (by omega))
    exact ⟨single, tied_iff.mp (same _ below le_rfl)⟩
  · obtain ⟨rfl, tied⟩ := tied
    refine ⟨out, plain, fast, sorted, same_iff.mpr fun j low high => ?_⟩
    obtain rfl : j = start.toNat := by omega
    exact tied_iff.mpr tied

end Heap

/-- **The page from the heap is that of the sorted rows when the last row number of the page is
odd, or the row with that number in the unsorted list comes early, or the page is one row that
is right by a tie.** -/
theorem topkUnobservable_iff (selectfields : List Str) (sortfield : Str) (start last : BitVec 32)
    (rows : List Kvpairs) (many : 100000 < rows.length) (ordered : start ≤ last)
    (large : 100000 < last.toNat) (inside : last.toNat < rows.length)
    (selected : selectfields ≠ [] → sortfield ∈ selectfields)
    (present : ∀ row ∈ rows, (row.find? sortfield).isSome) :
    TopkUnobservable std selectfields sortfield start last rows ↔
      sortfield ∈ sortFields ∧ last.toNat + 1 < 2 ^ 31 ∧
        (last.toNat % 2 = 1 ∨ Topk.Early sortfield rows last.toNat ∨
          start = last ∧ Topk.Tied sortfield rows last.toNat) := by
  by_cases known : sortfield ∈ sortFields
  · by_cases small : last.toNat + 1 < 2 ^ 31
    · by_cases good : last.toNat % 2 = 1 ∨ Topk.Early sortfield rows last.toNat
      · exact iff_of_true
          (topkUnobservable_of_good std many ordered large inside selected present known small good)
          ⟨known, small, good.imp_right .inl⟩
      · obtain ⟨even, late⟩ := not_or.mp good
        rw [topkUnobservable_iff_of_bad std many ordered large inside selected present known small
          (by omega) late]
        simp only [known, small, even, late, true_and, false_or]
    · exact iff_of_false (not_topkUnobservable_of_huge std many large selected known small)
        fun condition => small condition.2.1
  · exact iff_of_false (not_topkUnobservable_of_unknown std many ordered large selected known)
      fun condition => known condition.1

/-- A row for each of some numbers. -/
def numberedRows (count : Nat) : List Kvpairs :=
  (List.range count).map fun number =>
    OrderedMap.ofList [(bytes "timestamp", Decimal.text number)]

theorem length_numberedRows (count : Nat) : (numberedRows count).length = count := by
  rw [numberedRows, List.length_map, List.length_range]

/-- A page of different rows that ends at an odd number. -/
theorem topkUnobservable_of_numbered_rows :
    TopkUnobservable (Sorting.StdSort.insertion Kvpairs) [] (bytes "timestamp") 0 100001
      (numberedRows 100003) :=
  (topkUnobservable_iff _ [] (bytes "timestamp") 0 100001 (numberedRows 100003)
    (by rw [length_numberedRows]; omega) (by decide) (by decide)
    (by rw [length_numberedRows]; decide) (fun present => absurd rfl present)
    (by rw [numberedRows, List.forall_mem_map]; exact fun number _ => rfl)).mpr
    ⟨by decide, by decide, .inl (by decide)⟩

/-- A row behind equal rows with a smaller text is late. -/
theorem not_early_of_last_row {first last : Kvpairs} (count : Nat)
    (larger : fieldText sortfield first < fieldText sortfield last) :
    ¬Topk.Early sortfield (List.replicate count first ++ [last]) count := by
  intro early
  obtain ⟨row, shown, early⟩ := early
  rw [List.getElem?_append_right (by rw [List.length_replicate]), List.length_replicate,
    Nat.sub_self, List.getElem?_cons_zero, Option.some.injEq] at shown
  subst shown
  rw [Topk.rowsBelow, List.countP_append, List.countP_replicate,
    if_pos (decide_eq_true larger)] at early
  omega

/-- A page that ends at an even number, when the row with that number comes last. -/
theorem not_topkUnobservable_of_last_row :
    ¬TopkUnobservable (Sorting.StdSort.insertion Kvpairs) [] (bytes "timestamp") 0 100002
      (List.replicate 100002 (OrderedMap.ofList [(bytes "timestamp", bytes "1")]) ++
        [OrderedMap.ofList [(bytes "timestamp", bytes "2")]]) := by
  have length (first last : Kvpairs) :
      (List.replicate 100002 first ++ [last]).length = 100003 := by
    rw [List.length_append, List.length_replicate, List.length_singleton]
  have present (count : Nat) : ∀ row ∈ List.replicate count (OrderedMap.ofList
      [(bytes "timestamp", bytes "1")] : Kvpairs), (row.find? (bytes "timestamp")).isSome := by
    intro row member
    rw [List.eq_of_mem_replicate member]
    decide
  have number : (100002 : BitVec 32).toNat = 100002 := by decide
  rw [topkUnobservable_iff_of_bad _ (by rw [length]; omega) (by decide) (by decide)
    (by rw [length]; decide) (fun present => absurd rfl present) ?_ (by decide) (by decide)
    (by decide) (number ▸ not_early_of_last_row 100002 (by decide))]
  · exact fun tied => absurd tied.1 (by decide)
  · exact List.forall_mem_append.mpr ⟨present _, List.forall_mem_singleton.mpr (by decide)⟩

end Limit

/-! ### Pages of a result -/

/-- The full pages, one behind the other. -/
theorem flatMap_pages {Element : Type} (p count : Nat) (rows : List Element) :
    ((List.range count).flatMap fun i => (rows.drop (i * p)).take p) = rows.take (count * p) := by
  induction count with
  | zero => rw [Nat.zero_mul, List.take_zero, List.range_zero, List.flatMap_nil]
  | succ count ih =>
      rw [List.range_succ, List.flatMap_append, ih, List.flatMap_singleton, Nat.succ_mul,
        List.take_add]

/-- The page that has the row with the number `n - 1` is the last one. -/
def pageCount (n p : Nat) : Nat := (n - 1) / p + 1

theorem pageCount_of_dvd {n p : Nat} (rows : 1 ≤ n) (divides : p ∣ n) : pageCount n p = n / p := by
  obtain ⟨count, rfl⟩ := divides
  have size : 0 < p := Nat.pos_of_mul_pos_right rows
  have some : 0 < count := Nat.pos_of_mul_pos_left rows
  obtain ⟨before, rfl⟩ := Nat.exists_eq_add_of_le' some
  have split : p * (before + 1) - 1 = (p - 1) + p * before := by
    rw [Nat.mul_succ]
    omega
  rw [pageCount, split, Nat.add_mul_div_left _ _ size, Nat.div_eq_of_lt (by omega), Nat.zero_add,
    Nat.mul_div_cancel_left _ size]

theorem pageCount_of_not_dvd {n p : Nat} (size : 1 ≤ p) (divides : ¬p ∣ n) :
    pageCount n p = n / p + 1 := by
  have rest : 0 < n % p := Nat.pos_of_ne_zero fun none => divides (Nat.dvd_of_mod_eq_zero none)
  have split : n - 1 = (n % p - 1) + p * (n / p) := by
    have := Nat.mod_add_div n p
    omega
  have below := Nat.mod_lt n size
  rw [pageCount, split, Nat.add_mul_div_left _ _ size, Nat.div_eq_of_lt (by omega), Nat.zero_add]

section Pages

variable {Database : Type} (rocksdb : RocksDB Database) (cjson : CJson) (regex : Regex)
  (std : Sorting.StdSort Kvpairs) (storager : OrderedMap Str (StorageImpl Database))
  (qftree : Trie) (searchCookie : Str → Int → Int → Option (List (Int × Str)))
  (unixTime2Str : Int → Str)

/-- The request for a page. -/
def pageRequest (request : GetLogProcessStatRequest) (p i : Nat) : GetLogProcessStatRequest :=
  { request with
    start := some (BitVec.ofNat 32 (i * p))
    last := some (BitVec.ofNat 32 (i * p + p - 1)) }

/-- The rows of the pages, one behind the other, are the sorted rows. -/
def PagesPartition (request : GetLogProcessStatRequest) (p : Nat) (sorted : List Kvpairs) : Prop :=
  ∃ responses, (List.range (pageCount sorted.length p)).mapM (fun i =>
      getLogProcessStat rocksdb cjson regex std storager qftree searchCookie unixTime2Str
        (pageRequest request p i)) = some responses ∧
    responses.flatMap (·.iteminfos) = sorted.map mapEntries

/-- The rows in the order of the request, without the heap. -/
def plainResult (selectfields : List Str) (sortfield : Str) (res : List Kvpairs) :
    Option (List Kvpairs) :=
  if selectfields.length ≠ 0 ∧ sortfield ∉ selectfields then some res
  else sortRows std sortfield res

variable {std}

theorem perm_sortBy {field : Str} {cmp : Kvpairs → Kvpairs → Int} {res sorted : List Kvpairs}
    (sorts : sortBy std field cmp res = some sorted) : sorted.Perm res := by
  rw [sortBy, Option.ite_none_right_eq_some, Option.some.injEq] at sorts
  exact sorts.2 ▸ std.perm ..

theorem perm_sortRows {sortfield : Str} {res sorted : List Kvpairs}
    (sorts : sortRows std sortfield res = some sorted) : sorted.Perm res := by
  rw [sortRows, Option.map_eq_some_iff] at sorts
  obtain ⟨ascending, sorts, rfl⟩ := sorts
  refine (List.reverse_perm _).trans ?_
  split_ifs at sorts
  · exact perm_sortBy sorts
  · exact perm_sortBy sorts
  · exact perm_sortBy sorts
  · exact .of_eq (Option.some.inj sorts).symm

theorem perm_plainResult {selectfields : List Str} {sortfield : Str} {res sorted : List Kvpairs}
    (sorts : plainResult std selectfields sortfield res = some sorted) : sorted.Perm res := by
  rw [plainResult] at sorts
  split at sorts
  · exact .of_eq (Option.some.inj sorts).symm
  · exact perm_sortRows sorts

/-- The plain sort is taken for small results and for small bounds. -/
theorem sortResult_eq_plainResult {last : BitVec 32} {res : List Kvpairs}
    (small : res.length ≤ 100000 ∨ last.toNat ≤ 100000) (selectfields : List Str)
    (sortfield : Str) :
    sortResult std selectfields sortfield last res =
      plainResult std selectfields sortfield res := by
  have plain : ¬(100000 < last.toNat ∧ 100000 < res.length) := by omega
  rw [sortResult, plainResult, if_neg plain]

/-- A page of the sorted rows as it is shown. -/
def page (p : Nat) (sorted : List Kvpairs) (i : Nat) : List Kvpairs :=
  if (i + 1) * p ≤ sorted.length then (sorted.drop (i * p)).take p else sorted

/-- A page that is not full shows all rows. -/
theorem limit_eq_page {p i : Nat} {sorted : List Kvpairs} (size : 1 ≤ p)
    (fits : (i + 1) * p ≤ 2 ^ 32) (small : sorted.length < 2 ^ 32) :
    limit (BitVec.ofNat 32 (i * p)) (BitVec.ofNat 32 (i * p + p - 1)) sorted =
      page p sorted i := by
  rw [Nat.succ_mul] at fits
  have start : (BitVec.ofNat 32 (i * p)).toNat = i * p := by
    rw [BitVec.toNat_ofNat, Nat.mod_eq_of_lt (by omega)]
  have last : (BitVec.ofNat 32 (i * p + p - 1)).toNat = i * p + p - 1 := by
    rw [BitVec.toNat_ofNat, Nat.mod_eq_of_lt (by omega)]
  rw [page, Nat.succ_mul]
  split
  case isTrue inside =>
    rw [limit_inside (BitVec.le_def.mpr (by omega)) (by omega), start, last]
    · congr 1
      omega
    · intro none
      have none := congrArg BitVec.toNat none
      rw [last, show (-1 : BitVec 32).toNat = 2 ^ 32 - 1 from rfl] at none
      omega
  case isFalse outside => exact limit_outside (by omega)

variable {rocksdb cjson regex storager}

/-- The response for a page. -/
theorem getLogProcessStat_page {request : GetLogProcessStatRequest} {sortfield : Str}
    {raw res sorted : List Kvpairs} {p i : Nat} (source : request.getfrom = .rocksdb)
    (sorting : request.sortfield = some sortfield)
    (read : readFromRocksdb rocksdb cjson storager request.application request.startime.toInt
      request.endtime.toInt = some raw)
    (select : selectByConds regex request.cond request.selectfields raw = some res)
    (sorts : plainResult std request.selectfields sortfield res = some sorted)
    (present : 1 ≤ sorted.length) (size : 1 ≤ p)
    (small : sorted.length ≤ 100000 ∨ (i + 1) * p ≤ 100001) (fits : (i + 1) * p ≤ 2 ^ 32)
    (bounded : sorted.length < 2 ^ 32) :
    getLogProcessStat rocksdb cjson regex std storager qftree searchCookie unixTime2Str
        (pageRequest request p i) =
      some { status := .succeed, count := (page p sorted i).length
             iteminfos := (page p sorted i).map mapEntries } := by
  have length := (perm_plainResult sorts).length_eq
  have some : raw.length ≠ 0 := by
    intro none
    rw [List.length_eq_zero_iff.mp none, selectByConds] at select
    rw [length, ← Option.some.inj select] at present
    exact Nat.not_lt_zero _ present
  have plain : sortResult std request.selectfields sortfield
      (BitVec.ofNat 32 (i * p + p - 1)) res = Option.some sorted := by
    rw [sortResult_eq_plainResult _ request.selectfields sortfield, sorts]
    rw [Nat.succ_mul] at small fits
    rw [BitVec.toNat_ofNat, Nat.mod_eq_of_lt (by omega)]
    omega
  simp only [getLogProcessStat, pageRequest, source, read, select, sorting, sortAndLimit, plain,
    some, limit_eq_page size fits bounded, Option.map_some, Option.bind_eq_bind, Option.bind_some,
    ↓reduceIte]

/-- The last page shows all rows again, unless it is full. -/
theorem flatMap_page {p : Nat} {sorted : List Kvpairs} (size : 1 ≤ p)
    (present : 1 ≤ sorted.length) :
    (List.range (pageCount sorted.length p)).flatMap (page p sorted) =
      if p ∣ sorted.length then sorted
      else sorted.take (sorted.length / p * p) ++ sorted := by
  have full (count : Nat) (low : count ≤ sorted.length / p) :
      (List.range count).flatMap (page p sorted) = sorted.take (count * p) := by
    rw [← flatMap_pages]
    apply List.flatMap_congr
    intro i member
    have below : (i + 1) * p ≤ sorted.length :=
      (Nat.mul_le_mul_right p (List.mem_range.mp member)).trans
        ((Nat.le_div_iff_mul_le size).mp low)
    rw [page, if_pos below]
  split
  case isTrue divides =>
    rw [pageCount_of_dvd present divides, full _ le_rfl, Nat.div_mul_cancel divides,
      List.take_length]
  case isFalse divides =>
    have beyond : ¬(sorted.length / p + 1) * p ≤ sorted.length :=
      fun inside => absurd ((Nat.le_div_iff_mul_le size).mpr inside) (Nat.not_succ_le_self _)
    rw [pageCount_of_not_dvd size divides, List.range_succ, List.flatMap_append, full _ le_rfl,
      List.flatMap_singleton, page, if_neg beyond]

/-- The pages are read one by one. -/
theorem pagesPartition_iff_flatMap (request : GetLogProcessStatRequest) (p : Nat) (sortfield : Str)
    (raw res sorted : List Kvpairs) (source : request.getfrom = .rocksdb)
    (sorting : request.sortfield = some sortfield)
    (read : readFromRocksdb rocksdb cjson storager request.application request.startime.toInt
      request.endtime.toInt = some raw)
    (select : selectByConds regex request.cond request.selectfields raw = some res)
    (sorts : plainResult std request.selectfields sortfield res = some sorted)
    (present : 1 ≤ sorted.length) (size : 1 ≤ p)
    (small : sorted.length ≤ 100000 ∨ pageCount sorted.length p * p ≤ 100001)
    (fits : pageCount sorted.length p * p ≤ 2 ^ 32) :
    PagesPartition rocksdb cjson regex std storager qftree searchCookie unixTime2Str request p
        sorted ↔ ((List.range (pageCount sorted.length p)).flatMap (page p sorted)).map
          mapEntries = sorted.map mapEntries := by
  have covered : sorted.length ≤ pageCount sorted.length p * p := by
    have split := Nat.div_add_mod (sorted.length - 1) p
    have below := Nat.mod_lt (sorted.length - 1) size
    rw [pageCount, Nat.succ_mul, Nat.mul_comm _ p]
    omega
  have shown : (List.range (pageCount sorted.length p)).mapM (fun i =>
      getLogProcessStat rocksdb cjson regex std storager qftree searchCookie unixTime2Str
        (pageRequest request p i)) = some _ := Fallible.mapM_eq_pure fun i member =>
    have below : (i + 1) * p ≤ pageCount sorted.length p * p :=
      Nat.mul_le_mul_right p (List.mem_range.mp member)
    getLogProcessStat_page qftree searchCookie unixTime2Str source sorting read select sorts present
      size (small.imp_right below.trans) (below.trans fits) (by omega)
  simp only [PagesPartition, shown, Option.some.injEq, exists_eq_left', List.flatMap_map,
    List.map_flatMap]

/-- **The pages of a result partition it exactly when the page size divides the number of rows
or one page has all of them.** -/
theorem pagesPartition_iff (request : GetLogProcessStatRequest) (p : Nat) (sortfield : Str)
    (raw res sorted : List Kvpairs) (source : request.getfrom = .rocksdb)
    (sorting : request.sortfield = some sortfield)
    (read : readFromRocksdb rocksdb cjson storager request.application request.startime.toInt
      request.endtime.toInt = some raw)
    (select : selectByConds regex request.cond request.selectfields raw = some res)
    (sorts : plainResult std request.selectfields sortfield res = some sorted)
    (present : 1 ≤ sorted.length) (size : 1 ≤ p)
    (small : sorted.length ≤ 100000 ∨ pageCount sorted.length p * p ≤ 100001)
    (fits : pageCount sorted.length p * p ≤ 2 ^ 32) :
    PagesPartition rocksdb cjson regex std storager qftree searchCookie unixTime2Str request p
        sorted ↔ p ∣ sorted.length ∨ sorted.length ≤ p := by
  rw [pagesPartition_iff_flatMap qftree searchCookie unixTime2Str request p sortfield raw res sorted
    source sorting read select sorts present size small fits, flatMap_page size present]
  split
  case isTrue divides => exact iff_of_true rfl (.inl divides)
  case isFalse divides =>
    rw [List.map_append, List.append_left_eq_self, List.map_eq_nil_iff, List.take_eq_nil_iff,
      Nat.mul_eq_zero, Nat.div_eq_zero_iff]
    have different : sorted.length ≠ p := fun same => divides (same ▸ dvd_rfl)
    have some : sorted ≠ [] := List.ne_nil_of_length_pos present
    simp only [divides, some, or_false, false_or]
    omega

/-- Four queries on two pages. -/
theorem pagesPartition_of_full_pages :
    PagesPartition RocksDB.table CJson.flat ⟨fun _ => true, fun _ _ => none⟩
      (Sorting.StdSort.insertion Kvpairs) (storeAll RocksDB.table CJson.flat (bytes "sp")
        (storagerInit RocksDB.table [bytes "sp"])
        ([OrderedMap.ofList [(bytes "query", bytes "b")],
          OrderedMap.ofList [(bytes "query", bytes "d")],
          OrderedMap.ofList [(bytes "query", bytes "c")],
          OrderedMap.ofList [(bytes "query", bytes "a")]].map fun kv => (1500000000, kv)))
      Trie.new (fun _ _ _ => some []) (fun _ => [])
      { application := bytes "sp", startime := 1500000000, endtime := -1
        sortfield := some (bytes "query"), getfrom := .rocksdb } 2
      [OrderedMap.ofList [(bytes "query", bytes "a")],
        OrderedMap.ofList [(bytes "query", bytes "b")],
        OrderedMap.ofList [(bytes "query", bytes "c")],
        OrderedMap.ofList [(bytes "query", bytes "d")]] :=
  (pagesPartition_iff _ _ _ _ 2 (bytes "query")
    [OrderedMap.ofList [(bytes "query", bytes "b")],
      OrderedMap.ofList [(bytes "query", bytes "d")],
      OrderedMap.ofList [(bytes "query", bytes "c")],
      OrderedMap.ofList [(bytes "query", bytes "a")]]
    [OrderedMap.ofList [(bytes "query", bytes "b")],
      OrderedMap.ofList [(bytes "query", bytes "d")],
      OrderedMap.ofList [(bytes "query", bytes "c")],
      OrderedMap.ofList [(bytes "query", bytes "a")]]
    _ rfl rfl (by decide +kernel) (by decide +kernel) (by decide +kernel) (by decide) (by decide)
    (by decide) (by decide)).mpr (.inl (by decide))

/-- The second of two pages of three queries shows all of them. -/
theorem not_pagesPartition_of_two_pages :
    ¬PagesPartition RocksDB.table CJson.flat ⟨fun _ => true, fun _ _ => none⟩
      (Sorting.StdSort.insertion Kvpairs) (storeAll RocksDB.table CJson.flat (bytes "sp")
        (storagerInit RocksDB.table [bytes "sp"])
        ([OrderedMap.ofList [(bytes "query", bytes "c")],
          OrderedMap.ofList [(bytes "query", bytes "b")],
          OrderedMap.ofList [(bytes "query", bytes "a")]].map fun kv => (1500000000, kv)))
      Trie.new (fun _ _ _ => some []) (fun _ => [])
      { application := bytes "sp", startime := 1500000000, endtime := -1
        sortfield := some (bytes "query"), getfrom := .rocksdb } 2
      [OrderedMap.ofList [(bytes "query", bytes "a")],
        OrderedMap.ofList [(bytes "query", bytes "b")],
        OrderedMap.ofList [(bytes "query", bytes "c")]] := by
  rw [pagesPartition_iff_flatMap _ _ _ _ 2 (bytes "query")
    [OrderedMap.ofList [(bytes "query", bytes "c")],
      OrderedMap.ofList [(bytes "query", bytes "b")],
      OrderedMap.ofList [(bytes "query", bytes "a")]]
    [OrderedMap.ofList [(bytes "query", bytes "c")],
      OrderedMap.ofList [(bytes "query", bytes "b")],
      OrderedMap.ofList [(bytes "query", bytes "a")]]
    _ rfl rfl (by decide +kernel) (by decide +kernel) (by decide +kernel) (by decide) (by decide)
    (by decide) (by decide)]
  decide +kernel

end Pages

end ProcessImpl

end LogProcess
