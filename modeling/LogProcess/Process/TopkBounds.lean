import LogProcess.Process.Selection

/-! # The first loop of the selection

`Topk::Run` fills its heap with a loop that ends at row number `k`, compared with an unsigned
index, and that stays at a row without the field. So it ends inside the rows only when `k` is
not negative, that many rows are there, and the first of them have the field
(`Topk.terminates_iff`). For a request this means that it gives a page within the
selected rows, and lists fields or finds the field in the first rows
(`ProcessImpl.topk_terminates_iff`).
-/

namespace LogProcess

namespace Topk

/-- The first loop of `Run` between two rounds. -/
inductive Fill where
  | running (i : Nat) (topdata : List Kvpairs)
  | finished (topdata : List Kvpairs)
  | outside

/-- `i <= k` for a `size_t` and an `int`. A negative `k` becomes a number that no vector is as
large as. -/
def within (i : Nat) (k : Int) : Bool := k < 0 ∨ (i : Int) ≤ k

/-- One round of the first loop, which reads row number `i`. -/
def fillRound (topk : Topk) (field : Str) : Fill → Fill
  | .running i topdata =>
      if within i topk.k then
        topk.data[i]?.elim .outside fun item =>
          if (item.find? field).isSome then .running (i + 1) (topdata ++ [item])
          else .running i topdata
      else
        .finished topdata
  | .finished topdata => .finished topdata
  | .outside => .outside

/-- `Run` comes to its end and reads existing rows only. The second loop starts at `k + 1`, which
must not overflow, and ends at the last row. -/
def Terminates (topk : Topk) (field : Str) : Prop :=
  (∃ rounds topdata, (fillRound topk field)^[rounds] (.running 0 []) = .finished topdata) ∧
    topk.k + 1 < 2 ^ 31

section Fill

variable (topk : Topk) (field : Str)

/-- What is known between two rounds: the rows that were read have the field, and a loop that
has finished has read row number `k`. -/
def Filled : Fill → Prop
  | .running i _ => i ≤ topk.data.length ∧ ∀ row ∈ topk.data.take i, (row.find? field).isSome
  | .finished _ => 0 ≤ topk.k ∧ topk.k.toNat < topk.data.length ∧
      ∀ row ∈ topk.data.take (topk.k.toNat + 1), (row.find? field).isSome
  | .outside => True

theorem filled_fillRound {fill : Fill} (filled : Filled topk field fill) :
    Filled topk field (fillRound topk field fill) := by
  cases fill with
  | finished topdata => exact filled
  | outside => exact filled
  | running i topdata =>
      rw [fillRound]
      split
      · cases read : topk.data[i]? with
        | none => exact trivial
        | some item =>
            rw [Option.elim_some]
            split
            · rename_i present
              obtain ⟨inside, rfl⟩ := List.getElem?_eq_some_iff.mp read
              refine ⟨inside, ?_⟩
              rw [List.take_add_one, read, Option.toList_some, List.forall_mem_append]
              exact ⟨filled.2, List.forall_mem_singleton.mpr present⟩
            · exact filled
      · rename_i beyond
        simp only [within, decide_eq_true_eq, not_or, not_lt, not_le] at beyond
        have enough : topk.k.toNat + 1 ≤ i := by omega
        refine ⟨beyond.1, enough.trans filled.1, fun row member => ?_⟩
        exact filled.2 row (List.take_subset_take_left _ enough member)

/-- The rows up to number `k` are read one after another. -/
theorem iterate_fillRound {count : Nat} (nonnegative : 0 ≤ topk.k)
    (bounded : count ≤ topk.k.toNat + 1) (inside : topk.k.toNat < topk.data.length)
    (present : ∀ row ∈ topk.data.take (topk.k.toNat + 1), (row.find? field).isSome) :
    (fillRound topk field)^[count] (.running 0 []) = .running count (topk.data.take count) := by
  induction count with
  | zero => rfl
  | succ i ih =>
      have there : i < topk.data.length := by omega
      have has : (topk.data[i].find? field).isSome :=
        present _ (List.mem_take_iff_getElem.mpr ⟨i, by omega, rfl⟩)
      have under : within i topk.k = true := by
        rw [within, decide_eq_true_eq]
        omega
      rw [Function.iterate_succ_apply', ih (Nat.le_of_succ_le bounded), fillRound, if_pos under,
        List.getElem?_eq_getElem there, Option.elim_some, if_pos has, List.take_add_one,
        List.getElem?_eq_getElem there, Option.toList_some]

/-- **The loops end inside the rows exactly when there is a result.** -/
theorem terminates_iff : Terminates topk field ↔ (run topk field).isSome := by
  rw [show topk = ⟨topk.data, topk.k, topk.cmpFunc⟩ from rfl, isSome_run_iff, Terminates]
  refine ⟨fun ends => ?_, fun condition => ?_⟩
  · obtain ⟨⟨rounds, topdata, finished⟩, small⟩ := ends
    have start : Filled topk field (.running 0 []) :=
      ⟨Nat.zero_le _, fun row member => absurd member List.not_mem_nil⟩
    have filled := Function.Iterate.rec (Filled topk field) start
      (fun _ => filled_fillRound topk field) rounds
    rw [finished] at filled
    exact ⟨⟨filled.1, small⟩, filled.2⟩
  · obtain ⟨⟨nonnegative, small⟩, inside, present⟩ := condition
    refine ⟨⟨topk.k.toNat + 2, topk.data.take (topk.k.toNat + 1), ?_⟩, small⟩
    rw [Function.iterate_succ_apply',
      iterate_fillRound topk field nonnegative le_rfl inside present, fillRound, if_neg]
    simp only [within, decide_eq_true_eq, not_or, not_lt, not_le]
    omega

end Fill

end Topk

namespace ProcessImpl

/-- The branch of the heap is taken. -/
structure HeapSelection (request : GetLogProcessStatRequest) (sortfield : Str)
    (res : List Kvpairs) : Prop where
  sorting : request.sortfield = some sortfield
  listed : request.selectfields ≠ [] → sortfield ∈ request.selectfields
  large : 100000 < (lastRow request).toNat
  many : 100000 < res.length

/-- The `Topk` of a request. The bound becomes an `int`. -/
def topkOf (request : GetLogProcessStatRequest) (sortfield : Str) (res : List Kvpairs) : Topk :=
  ⟨res, int32 (lastRow request).toNat, fieldCmp sortfield⟩

/-- The request gives a page that ends within the rows, and lists fields or finds the field in all
rows up to the end of the page. -/
def PageInside (request : GetLogProcessStatRequest) (sortfield : Str) (res : List Kvpairs) :
    Prop :=
  request.start.isSome ∧ ∃ last, request.last = some last ∧ last.toNat + 1 < 2 ^ 31 ∧
    last.toNat < res.length ∧ (request.selectfields = [] →
      ∀ row ∈ res.take (last.toNat + 1), (row.find? sortfield).isSome)

section Requests

variable {request : GetLogProcessStatRequest} {sortfield : Str} {raw res : List Kvpairs}
  (taken : HeapSelection request sortfield res) (known : sortfield ∈ sortFields)

include taken known

/-- The branch of the heap runs the `Topk` of the request. -/
theorem sortResult_eq_topkOf (std : Sorting.StdSort Kvpairs) :
    sortResult std request.selectfields sortfield (lastRow request) res =
      (topkOf request sortfield res).run sortfield := by
  rw [sortResult_eq_topkRows std taken.many taken.large taken.listed, topkRows_eq known, topkOf]

/-- The request is answered when its `Topk` comes to its end. -/
theorem isSome_sortAndLimit_iff_terminates (std : Sorting.StdSort Kvpairs) :
    (sortAndLimit std request res).isSome ↔
      (topkOf request sortfield res).Terminates sortfield := by
  rw [isSome_sortAndLimit_iff, taken.sorting, Topk.terminates_iff,
    ← sortResult_eq_topkOf taken known std, isSome_sortResult_iff]
  simp only [Option.mem_some_iff, forall_eq']

omit taken known in
/-- The bound of a request is small when both bounds are given and the last one is small. -/
theorem lastRow_small_iff :
    (lastRow request).toNat + 1 < 2 ^ 31 ↔
      request.start.isSome ∧ ∃ last, request.last = some last ∧ last.toNat + 1 < 2 ^ 31 := by
  have unlimited : ¬(-1 : BitVec 32).toNat + 1 < 2 ^ 31 := by decide
  rw [lastRow]
  cases request.start with
  | none => exact iff_of_false unlimited fun given => absurd given.1 Bool.false_ne_true
  | some start =>
      cases request.last with
      | none =>
          refine iff_of_false unlimited fun given => ?_
          obtain ⟨_, last, absent, _⟩ := given
          cases absent
      | some last => simp only [Option.isSome_some, true_and, Option.some.injEq, exists_eq_left']

omit taken known in
theorem lastRow_eq {last : BitVec 32} (starts : request.start.isSome)
    (ends : request.last = some last) : lastRow request = last := by
  obtain ⟨start, starts⟩ := Option.isSome_iff_exists.mp starts
  rw [lastRow, starts, ends]

omit known in
/-- **Bounds of the selection.** For many rows and a large bound `Topk` comes to its end inside the
rows exactly when the request gives a page within them, and lists fields or finds the field in
all rows up to the end of the page. -/
theorem topk_terminates_iff {regex : Regex}
    (select : selectByConds regex request.cond request.selectfields raw = some res) :
    (topkOf request sortfield res).Terminates sortfield ↔ PageInside request sortfield res := by
  rw [Topk.terminates_iff, topkOf, Topk.isSome_run_iff, int32_fits_iff, PageInside]
  refine ⟨fun ends => ?_, fun page => ?_⟩
  · obtain ⟨small, inside, present⟩ := ends
    obtain ⟨starts, last, given, bounded⟩ := lastRow_small_iff.mp small
    rw [lastRow_eq starts given, int32_eq_self (by omega) (by omega), Int.toNat_natCast]
      at inside present
    exact ⟨starts, last, given, bounded, inside, fun _ => present⟩
  · obtain ⟨starts, last, given, small, inside, present⟩ := page
    rw [lastRow_eq starts given, int32_eq_self (by omega) (by omega), Int.toNat_natCast]
    refine ⟨small, inside, ?_⟩
    by_cases everything : request.selectfields = []
    · exact present everything
    · intro row member
      have listed := taken.listed everything
      exact isSome_find?_of_selectByConds select listed row (List.mem_of_mem_take member)

end Requests

/-! ### Pages of many rows -/

/-- Many equal rows in the order of their queries. -/
def manyRows : List Kvpairs := List.replicate 100002 (Topk.queryRow "a")

theorem length_manyRows : manyRows.length = 100002 := List.length_replicate

/-- Every row is selected when nothing is asked of it. -/
theorem selectByConds_manyRows :
    selectByConds ⟨fun _ => true, fun _ _ => none⟩ {} [] manyRows = some manyRows := by
  have ends : ∀ row ∈ manyRows, Filterable ⟨fun _ => true, fun _ _ => none⟩ {} row := by
    intro row member
    rw [List.eq_of_mem_replicate member]
    exact ⟨fun _ _ cfg listed => absurd listed List.not_mem_nil, by decide⟩
  rw [selectByConds_eq ends, manyRows, List.filterMap_replicate]
  rfl

/-- The request for the rows from `start` to `last` in the order of their queries. -/
def rowsRequest (start last : Option (BitVec 32)) : GetLogProcessStatRequest where
  application := bytes "app"
  sortfield := some (bytes "query")
  getfrom := .rocksdb
  start := start
  last := last

theorem heapSelection_manyRows {start last : Option (BitVec 32)}
    (large : 100000 < (lastRow (rowsRequest start last)).toNat) :
    HeapSelection (rowsRequest start last) (bytes "query") manyRows where
  sorting := rfl
  listed everything := absurd rfl everything
  large := large
  many := by
    rw [length_manyRows]
    exact Nat.lt_add_of_pos_right Nat.two_pos

/-- All rows of a page that ends at the last one are read. -/
theorem topk_terminates_last_row :
    (topkOf (rowsRequest (some 0) (some 100001)) (bytes "query") manyRows).Terminates
      (bytes "query") := by
  refine (topk_terminates_iff (heapSelection_manyRows (by decide)) selectByConds_manyRows).mpr ?_
  refine ⟨rfl, 100001, rfl, by decide, ?_, fun _ row member => ?_⟩
  · rw [length_manyRows]
    decide
  · rw [List.eq_of_mem_replicate (List.mem_of_mem_take member)]
    rfl

/-- Without a page the loop does not end inside the rows. -/
theorem not_topk_terminates_without_page :
    HeapSelection (rowsRequest none none) (bytes "query") manyRows ∧
      selectByConds ⟨fun _ => true, fun _ _ => none⟩ {} [] manyRows = some manyRows ∧
      ¬(topkOf (rowsRequest none none) (bytes "query") manyRows).Terminates (bytes "query") := by
  refine ⟨heapSelection_manyRows (by decide), selectByConds_manyRows, fun ends => ?_⟩
  rw [Topk.terminates_iff, topkOf, Topk.isSome_run_iff] at ends
  exact absurd ends.1.1 (by decide)

end ProcessImpl

end LogProcess
