import LogProcess.Common.Heap
import LogProcess.Foundation.Bytes
import LogProcess.Foundation.MachineInt
import LogProcess.Foundation.OrderedMap

/-! # Selecting the first rows

The comparisons of `process/process_sort.cc` and the class `Topk` of `process/process_top.cc`,
which keeps `k + 1` rows in a heap. They are the first rows of the sorted ones when `k` is odd
or row number `k` is not in its last place by chance (`Topk.map_run_eq_take`), and otherwise
the last two of them are wrong (`Topk.exists_run_wrong`). With the case of a single
row this says when the selection is right (`Topk.selects_iff`).
-/

namespace LogProcess

/-- A row: its fields and their texts. -/
abbrev Kvpairs : Type := OrderedMap Str Str

/-- The text of a field that the row has. The source does not check that it has it. -/
def fieldText (field : Str) (item : Kvpairs) : Str := (item.find? field).getD []

/-- The comparison of two rows that the three functions make. -/
def fieldCmp (field : Str) (item1 item2 : Kvpairs) : Int :=
  if fieldText field item1 > fieldText field item2 then 1 else 0

def queryCmp : Kvpairs → Kvpairs → Int := fieldCmp (bytes "query")

def srcidCmp : Kvpairs → Kvpairs → Int := fieldCmp (bytes "srcid")

def timestampCmp : Kvpairs → Kvpairs → Int := fieldCmp (bytes "timestamp")

structure Topk where
  data : List Kvpairs
  k : Int
  cmpFunc : Kvpairs → Kvpairs → Int

namespace Topk

/-- The first loop of `Run`. It reads behind the end of a short list, and never gets past a row
without the field. -/
def topdata (field : Str) : Nat → List Kvpairs → Option (List Kvpairs)
  | 0, _ => some []
  | _ + 1, [] => none
  | count + 1, item :: rest =>
      if (item.find? field).isSome then (topdata field count rest).map (item :: ·) else none

/-- `Run`, without a result when it reads behind the end or never ends. A negative `k` becomes
a huge index, and `k + 1` must not overflow. -/
def run (topk : Topk) (field : Str) : Option (List Kvpairs) :=
  if 0 ≤ topk.k ∧ topk.k + 1 < 2 ^ 31 then do
    let topdata ← topdata field (topk.k.toNat + 1) topk.data
    if nonempty : 0 < topdata.length then
      let hp := Heap.new topk.cmpFunc ⟨topdata.toArray, List.size_toArray⟩
      let hp := (topk.data.drop (topk.k.toNat + 1)).foldl
        (fun hp item =>
          if (item.find? field).isSome then Heap.setop topk.cmpFunc hp nonempty item else hp) hp
      some (Heap.sort topk.cmpFunc hp).toList
    else
      none
  else
    none

theorem compares_fieldCmp (field : Str) : Heap.Compares (fieldCmp field) (fieldText field) := by
  intro first second
  rw [fieldCmp]
  by_cases larger : fieldText field second < fieldText field first
  · rw [if_pos larger, if_pos larger]
  · rw [if_neg larger, if_neg larger]

/-- When every row has the field, the first rows are taken. -/
theorem topdata_eq {field : Str} {rows : List Kvpairs} {count : Nat}
    (present : ∀ row ∈ rows, (row.find? field).isSome) (inside : count ≤ rows.length) :
    topdata field count rows = some (rows.take count) := by
  induction rows generalizing count with
  | nil =>
      obtain rfl := Nat.le_zero.mp inside
      rfl
  | cons row rest ih =>
      cases count with
      | zero => rfl
      | succ count =>
          rw [topdata, if_pos (present row List.mem_cons_self),
            ih (fun other member => present other (List.mem_cons_of_mem row member))
              (Nat.le_of_succ_le_succ inside), Option.map_some, List.take_succ_cons]

/-- The first loop comes to its end exactly when the first rows are there and have the field. -/
theorem isSome_topdata_iff {field : Str} {rows : List Kvpairs} {count : Nat} :
    (topdata field count rows).isSome ↔
      count ≤ rows.length ∧ ∀ row ∈ rows.take count, (row.find? field).isSome := by
  induction rows generalizing count with
  | nil => cases count <;> simp [topdata]
  | cons row rest ih =>
      cases count with
      | zero => simp [topdata]
      | succ count =>
          rw [topdata, List.take_succ_cons, List.forall_mem_cons, List.length_cons,
            Nat.succ_le_succ_iff]
          by_cases present : (row.find? field).isSome
          · rw [if_pos present, Option.isSome_map, ih, and_iff_right present]
          · rw [if_neg present]
            exact iff_of_false Bool.false_ne_true fun all => present all.2.1

theorem length_of_topdata {field : Str} {rows taken : List Kvpairs} {count : Nat}
    (run : topdata field count rows = some taken) : taken.length = count := by
  induction rows generalizing count taken with
  | nil =>
      cases count with
      | zero => rw [← Option.some.inj run, List.length_nil]
      | succ count => cases run
  | cons row rest ih =>
      cases count with
      | zero => rw [← Option.some.inj run, List.length_nil]
      | succ count =>
          rw [topdata, Option.ite_none_right_eq_some, Option.map_eq_some_iff] at run
          obtain ⟨_, later, run, rfl⟩ := run
          rw [List.length_cons, ih run]

/-- A run comes to its end exactly when the bound is not too large and the rows up to it are there
and have the field. -/
theorem isSome_run_iff {rows : List Kvpairs} {k : Int} {cmpFunc : Kvpairs → Kvpairs → Int}
    {field : Str} :
    (run ⟨rows, k, cmpFunc⟩ field).isSome ↔ (0 ≤ k ∧ k + 1 < 2 ^ 31) ∧ k.toNat < rows.length ∧
      ∀ row ∈ rows.take (k.toNat + 1), (row.find? field).isSome := by
  rw [run]
  by_cases bounded : 0 ≤ k ∧ k + 1 < 2 ^ 31
  · rw [if_pos bounded, and_iff_right bounded, ← Nat.succ_le_iff, ← isSome_topdata_iff]
    cases taken : topdata field (k.toNat + 1) rows with
    | none => rfl
    | some top =>
        have nonempty : 0 < top.length := by rw [length_of_topdata taken]; omega
        simp only [Option.bind_eq_bind, Option.bind_some, nonempty, ↓reduceDIte, Option.isSome_some]
  · rw [if_neg bounded]
    exact iff_of_false Bool.false_ne_true fun all => bounded all.1

/-- What is in the heap before it is sorted: a selection of the smallest rows, with an odd last
row that has been there from the start. -/
structure Selected (field : Str) (rows : List Kvpairs) (k : Nat) (hp : Vector Kvpairs (k + 1))
    (dropped : List Kvpairs) : Prop where
  selection : Heap.Selection (fieldText field) hp dropped rows
  last : k % 2 = 0 → rows[k]? = some hp[k]

/-- A run sorts a selection of the smallest rows. -/
theorem exists_selected {field : Str} {rows : List Kvpairs} {k : Nat} (positive : 0 < k)
    (small : k + 1 < 2 ^ 31) (inside : k < rows.length)
    (present : ∀ row ∈ rows, (row.find? field).isSome) :
    ∃ hp dropped, Selected field rows k hp dropped ∧
      run ⟨rows, k, fieldCmp field⟩ field = some (Heap.sort (fieldCmp field) hp).toList := by
  have taken := topdata_eq present (Nat.succ_le_of_lt inside)
  have shape : rows = rows.take (k + 1) ++ rows.drop (k + 1) := (List.take_append_drop ..).symm
  have length : (rows.take (k + 1)).length = k + 1 :=
    List.length_take_of_le (Nat.succ_le_of_lt inside)
  generalize rows.take (k + 1) = top at taken shape length
  generalize behind : rows.drop (k + 1) = rest at shape
  cases top with
  | nil => cases length
  | cons item top =>
      obtain rfl : top.length = k := Nat.succ.inj length
      have ordered := Heap.ordered_new (compares_fieldCmp field)
        (⟨(item :: top).toArray, List.size_toArray⟩ : Vector Kvpairs (top.length + 1))
      obtain ⟨dropped, selection⟩ := Heap.exists_selection (compares_fieldCmp field)
        (Nat.succ_lt_succ positive) _ ordered rest
      refine ⟨_, dropped, ⟨⟨selection.ordered, ?_, selection.low⟩, ?_⟩, ?_⟩
      · rw [shape]
        exact selection.perm.trans ((Heap.perm_new ..).toList.append_right rest)
      · intro even
        rw [Heap.getElem_foldl_setop _ (Nat.succ_lt_succ positive) _ _ _ (by omega),
          Heap.getElem_new _ _ _ (by omega), shape,
          List.getElem?_append_left (by simp only [List.length_cons, Nat.lt_succ_self])]
        exact List.getElem?_eq_getElem _
      · have bounded : (0 : Int) ≤ top.length ∧ (top.length : Int) + 1 < 2 ^ 31 := by omega
        rw [run, if_pos bounded]
        simp only [Int.toNat_natCast, taken, Option.bind_eq_bind, Option.bind_some]
        rw [dif_pos (by simp), behind]
        congr 3
        apply List.foldl_ext
        intro hp row member
        rw [if_pos (present row (shape ▸ List.mem_append_right _ member))]

/-! ### Which rows are selected -/

section Selection

variable (field : Str) (rows : List Kvpairs)

/-- The number of rows whose text is smaller than that of the row. -/
def rowsBelow (row : Kvpairs) : Nat :=
  rows.countP fun other => fieldText field other < fieldText field row

/-- The number of rows whose text is not larger than that of the row. -/
def rowsUpTo (row : Kvpairs) : Nat :=
  rows.countP fun other => fieldText field other ≤ fieldText field row

/-- Row number `k` does not come behind the first `k` sorted rows. -/
def Early (k : Nat) : Prop := ∃ row, rows[k]? = some row ∧ rowsBelow field rows row < k

/-- The sorted rows number `k - 1` and `k` have the same text. -/
def Tied (k : Nat) : Prop :=
  ∃ row ∈ rows, rowsBelow field rows row < k ∧ k < rowsUpTo field rows row

variable {field rows} {k : Nat} {hp : Vector Kvpairs (k + 1)} {dropped : List Kvpairs}

/-- The rows of the heap without an odd last one. -/
theorem take_toList_le (even : k % 2 = 0) (selected : Selected field rows k hp dropped) :
    ∀ row ∈ hp.toList.take k, fieldText field row ≤ fieldText field hp[0] := by
  intro row member
  obtain ⟨j, bound, rfl⟩ := List.mem_take_iff_getElem.mp member
  rw [Vector.length_toList] at bound
  rw [Vector.getElem_toList]
  exact selected.selection.ordered.le_root _ (by omega)

/-- At least `k` rows are not larger than the root. -/
theorem le_rowsUpTo_root (even : k % 2 = 0) (selected : Selected field rows k hp dropped) :
    k ≤ rowsUpTo field rows hp[0] := by
  have all : (hp.toList.take k).countP
      (fun other => fieldText field other ≤ fieldText field hp[0]) = k := by
    rw [List.countP_eq_length.mpr fun row member =>
      decide_eq_true (take_toList_le even selected row member), List.length_take,
      Vector.length_toList, Nat.min_eq_left (Nat.le_succ k)]
  calc k = _ := all.symm
    _ ≤ hp.toList.countP _ := (List.take_sublist ..).countP_le
    _ ≤ (hp.toList ++ dropped).countP _ := (List.sublist_append_left ..).countP_le
    _ = rowsUpTo field rows hp[0] := selected.selection.perm.countP_eq _

/-- At least `k` rows are below a row that is above the root. -/
theorem le_rowsBelow_of_root_lt (even : k % 2 = 0) (selected : Selected field rows k hp dropped)
    {row : Kvpairs} (above : fieldText field hp[0] < fieldText field row) :
    k ≤ rowsBelow field rows row := by
  refine (le_rowsUpTo_root even selected).trans (List.countP_mono_left fun other _ low => ?_)
  rw [decide_eq_true_eq] at low ⊢
  exact low.trans_lt above

/-- Fewer than `k` rows are below a row that is neither above the root nor above the last. -/
theorem rowsBelow_lt (even : k % 2 = 0) (positive : 0 < k)
    (selected : Selected field rows k hp dropped) {row : Kvpairs}
    (root : fieldText field row ≤ fieldText field hp[0])
    (last : fieldText field row ≤ fieldText field hp[k]) : rowsBelow field rows row < k := by
  have size : k < hp.toList.length := hp.length_toList.symm ▸ Nat.lt_succ_self k
  have split : hp.toList = hp.toList.take k ++ [hp[k]] := by
    rw [← Vector.getElem_toList size, List.take_append_getElem size,
      List.take_of_length_le hp.length_toList.le]
  have above : (hp[k] :: dropped).countP
      (fun other => fieldText field other < fieldText field row) = 0 := by
    rw [List.countP_eq_zero]
    intro other member
    rw [decide_eq_true_eq, not_lt]
    rcases List.mem_cons.mp member with rfl | out
    · exact last
    · exact root.trans (selected.selection.low 0 (by omega) (by omega) other out)
  have length : (hp.toList.take k).length = k := by
    rw [List.length_take, Vector.length_toList, Nat.min_eq_left (Nat.le_succ k)]
  have first : (hp.toList.take k).countP
      (fun other => fieldText field other < fieldText field row) < k := by
    refine Nat.lt_of_le_of_ne (List.countP_le_length.trans_eq length) fun all => ?_
    have member : hp[0] ∈ hp.toList.take k :=
      List.mem_take_iff_getElem.mpr ⟨0, by omega, Vector.getElem_toList _⟩
    exact root.not_gt (of_decide_eq_true
      (List.countP_eq_length.mp (all.trans length.symm) hp[0] member))
  rw [rowsBelow, ← selected.selection.perm.countP_eq, split, List.append_assoc,
    List.singleton_append, List.countP_append, above, Nat.add_zero]
  exact first

/-- An early row leaves nothing above the root. -/
theorem le_root_of_early (early : Early field rows k) (selected : Selected field rows k hp dropped)
    {j : Nat} (inside : j < k + 1) (behind : 2 * ((k + 1) / 2) ≤ j) :
    fieldText field hp[j] ≤ fieldText field hp[0] := by
  have even : k % 2 = 0 := by omega
  obtain rfl : j = k := by omega
  obtain ⟨row, found, few⟩ := early
  obtain rfl := Option.some.inj (found.symm.trans (selected.last even))
  by_contra above
  exact absurd few (not_lt.mpr (le_rowsBelow_of_root_lt even selected (not_le.mp above)))

/-- A late row is above the root. -/
theorem root_lt_of_not_early (even : k % 2 = 0) (positive : 0 < k) (late : ¬Early field rows k)
    (selected : Selected field rows k hp dropped) :
    fieldText field hp[0] < fieldText field hp[k] := by
  by_contra below
  exact late ⟨hp[k], selected.last even,
    rowsBelow_lt even positive selected (not_lt.mp below) le_rfl⟩

/-- With a late row, the rows number `k - 1` and `k` are tied when more than `k` rows are not
above the root. -/
theorem tied_iff (even : k % 2 = 0) (positive : 0 < k) (late : ¬Early field rows k)
    (selected : Selected field rows k hp dropped) :
    Tied field rows k ↔ k < rowsUpTo field rows hp[0] := by
  refine ⟨fun tied => ?_, fun many => ?_⟩
  · obtain ⟨row, _, few, many⟩ := tied
    refine many.trans_le (List.countP_mono_left fun other _ low => ?_)
    rw [decide_eq_true_eq] at low ⊢
    apply low.trans
    by_contra above
    exact absurd few (not_lt.mpr (le_rowsBelow_of_root_lt even selected (not_le.mp above)))
  · refine ⟨hp[0], ?_, ?_, many⟩
    · exact selected.selection.perm.mem_iff.mp
        (List.mem_append_left _ (Vector.mem_toList_iff.mpr (Vector.getElem_mem _)))
    · exact rowsBelow_lt even positive selected le_rfl
        (root_lt_of_not_early even positive late selected).le

end Selection

/-! ### The selected texts -/

section Run

variable {field : Str} {rows sorted : List Kvpairs} {k : Nat}

/-- The sorted rows that are not above a row. -/
theorem getElem_le_iff (ascending : Sorting.Ascending (fieldText field) sorted)
    (perm : sorted.Perm rows) (row : Kvpairs) {j : Nat} (inside : j < sorted.length) :
    fieldText field sorted[j] ≤ fieldText field row ↔ j < rowsUpTo field rows row := by
  have counted := ascending.getElem_iff (fun text => text ≤ fieldText field row)
    (fun low high less below => decide_eq_true (less.trans (of_decide_eq_true below))) inside
  rwa [decide_eq_true_eq, perm.countP_eq] at counted

/-- The sorted rows that are below a row. -/
theorem getElem_lt_iff (ascending : Sorting.Ascending (fieldText field) sorted)
    (perm : sorted.Perm rows) (row : Kvpairs) {j : Nat} (inside : j < sorted.length) :
    fieldText field sorted[j] < fieldText field row ↔ j < rowsBelow field rows row := by
  have counted := ascending.getElem_iff (fun text => text < fieldText field row)
    (fun low high less below => decide_eq_true (less.trans_lt (of_decide_eq_true below))) inside
  rwa [decide_eq_true_eq, perm.countP_eq] at counted

/-- A run that keeps an even number of rows, or whose last row is early, gives the first
texts of the sorted rows. -/
theorem map_run_eq_take (positive : 0 < k) (small : k + 1 < 2 ^ 31) (inside : k < rows.length)
    (present : ∀ row ∈ rows, (row.find? field).isSome)
    (ascending : Sorting.Ascending (fieldText field) sorted) (perm : sorted.Perm rows)
    (good : k % 2 = 1 ∨ Early field rows k) :
    ∃ out, run ⟨rows, k, fieldCmp field⟩ field = some out ∧
      out.map (fieldText field) = (sorted.map (fieldText field)).take (k + 1) := by
  obtain ⟨hp, dropped, selected, ran⟩ := exists_selected positive small inside present
  have below {j : Nat} (bound : j < k + 1) (behind : 2 * ((k + 1) / 2) ≤ j) :
      fieldText field hp[j] ≤ fieldText field hp[0] := by
    rcases good with odd | early
    · omega
    · exact le_root_of_early early selected bound behind
  have sorts := Heap.sorted_sort (compares_fieldCmp field) selected.selection.ordered
    fun j bound behind => below bound behind
  refine ⟨_, ran, ?_⟩
  have length : (Heap.sort (fieldCmp field) hp).toList.length = k + 1 := Vector.length_toList
  refine (Sorting.Ascending.map_key_eq_take dropped ?_ ascending ?_ ?_).trans
    (by rw [length])
  · refine List.pairwise_iff_getElem.mpr fun i j _ bound less => ?_
    rw [Vector.getElem_toList, Vector.getElem_toList]
    exact sorts i j (by rwa [length] at bound) less.le
  · exact ((Heap.perm_sort ..).toList.append_right _).trans
      (selected.selection.perm.trans perm.symm)
  · intro first member second out
    obtain ⟨j, bound, rfl⟩ := List.getElem_of_mem
      ((Heap.perm_sort (fieldCmp field) hp).toList.mem_iff.mp member)
    rw [Vector.length_toList] at bound
    rw [Vector.getElem_toList]
    by_cases compared : j < 2 * ((k + 1) / 2)
    · exact selected.selection.low j bound compared second out
    · exact (below bound (not_lt.mp compared)).trans
        (selected.selection.low 0 (by omega) (by omega) second out)

/-- A run that keeps an odd number of rows, and whose last row is late, gets the last two
texts wrong, unless the last one is right by a tie. -/
theorem exists_run_wrong (positive : 0 < k) (small : k + 1 < 2 ^ 31) (inside : k < rows.length)
    (present : ∀ row ∈ rows, (row.find? field).isSome)
    (ascending : Sorting.Ascending (fieldText field) sorted) (perm : sorted.Perm rows)
    (even : k % 2 = 0) (late : ¬Early field rows k) :
    ∃ out, run ⟨rows, k, fieldCmp field⟩ field = some out ∧ out.length = k + 1 ∧
      (out.map (fieldText field))[k - 1]? ≠ (sorted.map (fieldText field))[k - 1]? ∧
      ((out.map (fieldText field))[k]? = (sorted.map (fieldText field))[k]? ↔
        Tied field rows k) := by
  obtain ⟨hp, dropped, selected, ran⟩ := exists_selected positive small inside present
  obtain ⟨sorts, last⟩ := Heap.sorted_sort_odd (compares_fieldCmp field)
    (show (k + 1) % 2 = 1 by omega) (by omega) selected.selection.ordered
  have above := root_lt_of_not_early even positive late selected
  have bound : k < sorted.length := perm.length_eq ▸ inside
  have not_below : ¬fieldText field sorted[k] < fieldText field hp[0] := by
    rw [getElem_lt_iff ascending perm hp[0] bound]
    exact (rowsBelow_lt even positive selected le_rfl above.le).not_gt
  have out_getElem? {j : Nat} (inside : j < k + 1) :
      ((Heap.sort (fieldCmp field) hp).toList.map (fieldText field))[j]? =
        some (fieldText field (Heap.sort (fieldCmp field) hp)[j]) := by
    rw [List.getElem?_map, Vector.getElem?_toList, Vector.getElem?_eq_getElem inside,
      Option.map_some]
  have sorted_getElem? {j : Nat} (inside : j < sorted.length) :
      (sorted.map (fieldText field))[j]? = some (fieldText field sorted[j]) := by
    rw [List.getElem?_map, List.getElem?_eq_getElem inside, Option.map_some]
  refine ⟨_, ran, Vector.length_toList, ?_, ?_⟩
  · -- the late row is among the rows before the last one, so the largest of them is late
    rw [out_getElem? (by omega), sorted_getElem? (by omega), Ne, Option.some.injEq]
    have member : hp[k] ∈ (Heap.sort (fieldCmp field) hp).toList :=
      (Heap.perm_sort ..).toList.mem_iff.mpr (Vector.mem_toList_iff.mpr (Vector.getElem_mem _))
    obtain ⟨p, place, found⟩ := List.getElem_of_mem member
    rw [Vector.length_toList] at place
    rw [Vector.getElem_toList] at found
    have before : p ≤ k - 1 := by
      by_contra behind
      obtain rfl : p = k := by omega
      rw [← found] at above
      exact above.ne' (congrArg (fieldText field) last)
    have largest := sorts p (k - 1) (by omega) before (by omega)
    rw [found] at largest
    have low := (getElem_le_iff ascending perm hp[0] (by omega)).mpr
      (Nat.sub_one_lt_of_le positive (le_rowsUpTo_root even selected))
    intro same
    exact absurd (above.trans_le largest) (not_lt_of_ge (same ▸ low))
  · rw [out_getElem? (Nat.lt_succ_self k), sorted_getElem? bound, Option.some.injEq,
      tied_iff even positive late selected, ← getElem_le_iff ascending perm hp[0] bound]
    have root : fieldText field (Heap.sort (fieldCmp field) hp)[k] = fieldText field hp[0] :=
      congrArg (fieldText field) last
    rw [root]
    exact ⟨fun same => same.ge, fun low => le_antisymm (not_lt.mp not_below) low⟩

/-- A heap of one row ends with a smallest row. -/
theorem exists_run_zero (inside : 0 < rows.length)
    (present : ∀ row ∈ rows, (row.find? field).isSome) :
    ∃ least ∈ rows, run ⟨rows, 0, fieldCmp field⟩ field = some [least] ∧
      ∀ row ∈ rows, fieldText field least ≤ fieldText field row := by
  cases rows with
  | nil => cases inside
  | cons first rest =>
      have taken : topdata field 1 (first :: rest) = some [first] := topdata_eq present inside
      obtain ⟨least, kept, member, low⟩ := Heap.exists_least (compares_fieldCmp field)
        (Heap.new (fieldCmp field) #v[first]) rest
      have alone : (Heap.new (fieldCmp field) #v[first])[0] = first := by
        rw [Heap.getElem_new _ _ _ (by decide)]
        rfl
      rw [alone] at member low
      have all : rest.foldl (fun hp item => if (item.find? field).isSome then
            Heap.setop (fieldCmp field) hp Nat.one_pos item else hp)
          (Heap.new (fieldCmp field) #v[first]) = #v[least] := by
        rw [← kept]
        apply List.foldl_ext
        intro hp row among
        rw [if_pos (present row (List.mem_cons_of_mem first among))]
      refine ⟨least, member, ?_, low⟩
      have bounded : (0 : Int) ≤ 0 ∧ (0 : Int) + 1 < 2 ^ 31 := by decide
      have nonempty : 0 < [first].length := Nat.one_pos
      rw [run, if_pos bounded]
      simp only [Int.toNat_zero, Nat.zero_add, taken, Option.bind_eq_bind, Option.bind_some]
      rw [dif_pos nonempty, List.drop_one, List.tail_cons, Option.some.injEq]
      exact (congrArg (fun hp => (Heap.sort (fieldCmp field) hp).toList) all).trans rfl

end Run

/-! ### The whole selection -/

section Selects

variable {field : Str} {rows : List Kvpairs}

/-- `Run` returns `k + 1` rows whose texts are the first ones of all texts in ascending order. -/
def Selects (field : Str) (rows : List Kvpairs) (k : Int) : Prop :=
  ∃ out, run ⟨rows, k, fieldCmp field⟩ field = some out ∧ out.length = k.toNat + 1 ∧
    out.map (fieldText field) =
      ((rows.map (fieldText field)).mergeSort fun first second => first ≤ second).take
        (k.toNat + 1)

theorem selects_zero (inside : 0 < rows.length)
    (present : ∀ row ∈ rows, (row.find? field).isSome) : Selects field rows 0 := by
  obtain ⟨least, member, ran, low⟩ := exists_run_zero inside present
  refine ⟨[least], ran, rfl, ?_⟩
  have ascending := Sorting.Ascending.mergeSort (fieldText field) rows
  have perm := List.mergeSort_perm rows fun first second =>
    fieldText field first ≤ fieldText field second
  obtain ⟨before, after, shape⟩ := List.append_of_mem member
  rw [← ascending.map_key_eq_mergeSort perm]
  refine Sorting.Ascending.map_key_eq_take (before ++ after) (List.pairwise_singleton _ _) ascending
    ?_ fun first only second other => ?_
  · have moved : (before ++ least :: after).Perm ([least] ++ (before ++ after)) := List.perm_middle
    rw [shape] at perm ⊢
    exact moved.symm.trans perm.symm
  · obtain rfl := List.mem_singleton.mp only
    apply low
    rw [shape]
    exact List.perm_middle.mem_iff.mpr (List.mem_cons_of_mem first other)

/-- Otherwise the number before the last one is wrong. -/
theorem not_selects {k : Nat} (positive : 0 < k) (inside : k < rows.length)
    (present : ∀ row ∈ rows, (row.find? field).isSome) (even : k % 2 = 0)
    (late : ¬Early field rows k) : ¬Selects field rows k := by
  intro selects
  obtain ⟨out, ran, length, texts⟩ := selects
  have small : k + 1 < 2 ^ 31 := by
    have ended := (isSome_run_iff.mp (Option.isSome_iff_exists.mpr ⟨out, ran⟩)).1
    omega
  have ascending := Sorting.Ascending.mergeSort (fieldText field) rows
  have perm := List.mergeSort_perm rows fun first second =>
    fieldText field first ≤ fieldText field second
  obtain ⟨out', ran', _, wrong, _⟩ :=
    exists_run_wrong positive small inside present ascending perm even late
  obtain rfl := Option.some.inj (ran.symm.trans ran')
  apply wrong
  rw [texts, ascending.map_key_eq_mergeSort perm, List.getElem?_take_of_lt (by omega)]

/-- **Selection.** A run gives the first texts exactly when it keeps one row, an even number
of rows, or row number `k` is early, and `k + 1` is an `int`. -/
theorem selects_iff {k : Int} (nonnegative : 0 ≤ k) (inside : k < rows.length)
    (present : ∀ row ∈ rows, (row.find? field).isSome) :
    Selects field rows k ↔
      k = 0 ∨ k + 1 < 2 ^ 31 ∧ (k % 2 = 1 ∨ Early field rows k.toNat) := by
  obtain ⟨k, rfl⟩ := Int.eq_ofNat_of_zero_le nonnegative
  rw [Nat.cast_lt] at inside
  rcases Nat.eq_zero_or_pos k with rfl | positive
  · exact iff_of_true (selects_zero inside present) (.inl rfl)
  · have ascending := Sorting.Ascending.mergeSort (fieldText field) rows
    have perm := List.mergeSort_perm rows fun first second =>
      fieldText field first ≤ fieldText field second
    refine ⟨fun selects => ?_, fun condition => ?_⟩
    · obtain ⟨out, ran, _⟩ := id selects
      have ended := (isSome_run_iff.mp (Option.isSome_iff_exists.mpr ⟨out, ran⟩)).1
      refine .inr ⟨ended.2, ?_⟩
      by_contra bad
      rw [not_or, Int.toNat_natCast] at bad
      exact not_selects positive inside present (by omega) bad.2 selects
    · obtain none | ⟨small, good⟩ := condition
      · omega
      · rw [Int.toNat_natCast] at good
        obtain ⟨out, ran, texts⟩ := map_run_eq_take positive (by omega) inside present ascending
          perm (good.imp_left fun odd => by omega)
        rw [ascending.map_key_eq_mergeSort perm] at texts
        refine ⟨out, ran, ?_, texts⟩
        rw [← List.length_map (fieldText field), texts, List.length_take, List.length_mergeSort,
          List.length_map, Int.toNat_natCast, Nat.min_eq_left (Nat.succ_le_of_lt inside)]

/-- A row with one query. -/
def queryRow (query : String) : Kvpairs := OrderedMap.ofList [(bytes "query", bytes query)]

/-- The first two of three rows. -/
theorem selects_two_rows :
    Selects (bytes "query") [queryRow "c", queryRow "a", queryRow "b"] 1 :=
  (selects_iff (by decide) (by decide) (by decide)).mpr (.inr ⟨by decide, .inl rfl⟩)

/-- All of three ascending rows. -/
theorem not_selects_three_rows :
    ¬Selects (bytes "query") [queryRow "a", queryRow "b", queryRow "c"] 2 := by
  refine not_selects Nat.two_pos (by decide) (by decide) rfl fun early => ?_
  obtain ⟨row, shown, few⟩ := early
  obtain rfl := Option.some.inj shown
  exact absurd few (by decide)

end Selects

end Topk

end LogProcess
