import LogProcess.Common.IntHeap

/-! # Sorting with the heap

What a user of `common/heap.h` expects: the top of a new heap is an extreme element, and `Sort`
sorts. The last of an odd number of elements is compared with nothing, and more
than `2 ^ 31` elements are not sorted at all, so the expectation holds under a condition on the
elements (`IntHeap.heapSorts_iff`). The comparison tests for the larger of two keys in
any linear order, and so for the smaller one in the dual order.
-/

namespace LogProcess.IntHeap

variable {Element Key : Type} [LinearOrder Key] {cmpfunc : Element → Element → Int}
  {key : Element → Key}

/-- The top of a heap with the elements is the largest, and sorting it sorts them. -/
def HeapSorts (cmpfunc : Element → Element → Int) (key : Element → Key) (data : List Element) :
    Prop :=
  ∃ heap sorted, new cmpfunc data = some heap ∧
    (data ≠ [] → ∃ top ∈ data, getop heap = some top ∧ ∀ element ∈ data, key element ≤ key top) ∧
    sort cmpfunc heap = some sorted ∧ (getData sorted).Perm data ∧
    Sorting.Ascending key (getData sorted)

/-- The last element is not larger than all others. -/
def LastLow (key : Element → Key) (data : List Element) : Prop :=
  ∃ before last, data = before ++ [last] ∧ ∃ element ∈ before, key last ≤ key element

/-- The elements cannot be told apart. -/
def AllEqual (key : Element → Key) (data : List Element) : Prop :=
  ∀ first ∈ data, ∀ second ∈ data, key first = key second

/-- Indices reach all elements, and an odd last element is not larger than all others. -/
def Sortable (key : Element → Key) (data : List Element) : Prop :=
  data.length ≤ 2 ^ 31 ∧ (data.length % 2 = 0 ∨ LastLow key data) ∨ AllEqual key data

/-- Elements that cannot be told apart are sorted. -/
theorem heapSorts_of_allEqual (cmpfunc : Element → Element → Int) {data : List Element}
    (equal : AllEqual key data) : HeapSorts cmpfunc key data := by
  obtain ⟨heap, constructed, perm⟩ := exists_adjustAll cmpfunc data
    ((BitVec.ofNat 32 (data.length / 2)).toInt + 1).toNat
  obtain ⟨sorted, ran, perm'⟩ := exists_sort cmpfunc heap
  have all := perm'.trans perm
  refine ⟨heap, sorted, constructed, fun nonempty => ?_, ran, all, ?_⟩
  · have inside : 0 < heap.length := perm.length_eq ▸ List.length_pos_iff.mpr nonempty
    have member : heap[0] ∈ data := perm.mem_iff.mp (List.getElem_mem inside)
    exact ⟨heap[0], member, getop_eq inside, fun element present =>
      (equal element present _ member).le⟩
  · apply List.pairwise_of_forall_mem_list
    intro first member second member'
    exact (equal first (all.mem_iff.mp member) second (all.mem_iff.mp member')).le

section Vectors

variable {n : Nat} {data : Vector Element n}

/-- When a heap is made of an odd number of elements, the last one stays in its place, and the
others are at the places before it. -/
theorem new_odd (cmpfunc : Element → Element → Int) {before : List Element} {last : Element}
    (odd : n % 2 = 1) (shape : data.toList = before ++ [last]) :
    (∀ j (_ : j < n), 2 * (n / 2) ≤ j → (Heap.new cmpfunc data)[j] = last) ∧
    ∀ element, element ∈ before ↔
      ∃ j, ∃ _ : j < n, j < 2 * (n / 2) ∧ (Heap.new cmpfunc data)[j] = element := by
  have length : before.length + 1 = n := by
    rw [← data.length_toList, shape, List.length_append, List.length_singleton]
  have kept : ∀ j (_ : j < n), 2 * (n / 2) ≤ j → (Heap.new cmpfunc data)[j] = last := by
    intro j inside behind
    obtain rfl : j = before.length := by omega
    have size : before.length < data.toList.length := by rwa [data.length_toList]
    rw [Heap.getElem_new cmpfunc data inside behind, ← Vector.getElem_toList size]
    simp only [shape, List.getElem_concat_length]
  refine ⟨kept, fun element => ?_⟩
  have size : before.length < (Heap.new cmpfunc data).toList.length := by
    rw [Vector.length_toList]
    omega
  have made : (Heap.new cmpfunc data).toList =
      (Heap.new cmpfunc data).toList.take before.length ++ [last] := by
    rw [← kept before.length (by omega) (by omega), ← Vector.getElem_toList size,
      List.take_append_getElem size, List.take_of_length_le]
    rw [Vector.length_toList]
    omega
  have perm := (Heap.perm_new cmpfunc data).toList
  rw [made, shape, List.perm_append_right_iff] at perm
  rw [← perm.mem_iff, List.mem_take_iff_getElem]
  refine ⟨fun taken => ?_, fun placed => ?_⟩
  · obtain ⟨j, inside, rfl⟩ := taken
    exact ⟨j, by omega, by omega, (Vector.getElem_toList _).symm⟩
  · obtain ⟨j, inside, compared, rfl⟩ := placed
    exact ⟨j, by omega, Vector.getElem_toList _⟩

/-- Elements that are not larger than the root of a heap make it sort. -/
theorem heapSorts_of_le_root (compares : Heap.Compares cmpfunc key) (small : n ≤ 2 ^ 31)
    (root : ∀ (nonempty : 0 < n) j (_ : j < n),
      key (Heap.new cmpfunc data)[j] ≤ key (Heap.new cmpfunc data)[0]) :
    HeapSorts cmpfunc key data.toList := by
  have perm := (Heap.perm_new cmpfunc data).toList
  have sorts := Heap.sorted_sort compares (Heap.ordered_new compares data)
    fun j inside _ => root (Nat.zero_lt_of_lt inside) j inside
  refine ⟨_, _, new_toList cmpfunc data small, fun nonempty => ?_, sort_toList cmpfunc _ small,
    (Heap.perm_sort ..).toList.trans perm, ?_⟩
  · have positive : 0 < n := by
      rw [← data.length_toList]
      exact List.length_pos_iff.mpr nonempty
    refine ⟨(Heap.new cmpfunc data)[0], ?_, ?_, fun element member => ?_⟩
    · exact perm.mem_iff.mp (Vector.mem_toList_iff.mpr (Vector.getElem_mem _))
    · rw [getop_eq (by rwa [Vector.length_toList]), Vector.getElem_toList]
    · obtain ⟨j, inside, rfl⟩ := List.getElem_of_mem (perm.mem_iff.mpr member)
      rw [Vector.length_toList] at inside
      rw [Vector.getElem_toList]
      exact root positive j inside
  · refine List.pairwise_iff_getElem.mpr fun i j inside inside' less => ?_
    rw [getData, Vector.length_toList] at inside'
    simp only [getData, Vector.getElem_toList]
    exact sorts i j inside' less.le

/-- An even number of elements is sorted, and an odd number with a low last element. -/
theorem heapSorts_of_lastLow (compares : Heap.Compares cmpfunc key) (data : Vector Element n)
    (small : n ≤ 2 ^ 31) (good : n % 2 = 0 ∨ LastLow key data.toList) :
    HeapSorts cmpfunc key data.toList := by
  have ordered := Heap.ordered_new compares data
  apply heapSorts_of_le_root compares small
  intro nonempty j inside
  by_cases compared : j < 2 * (n / 2)
  · exact ordered.le_root inside compared
  · -- the last element is not above a compared one, so it is not above the root
    have odd : n % 2 = 1 := by omega
    obtain even | ⟨before, last, shape, element, member, low⟩ := good
    · omega
    · obtain ⟨kept, others⟩ := new_odd cmpfunc odd shape
      obtain ⟨p, inside', compared', found⟩ := (others element).mp member
      rw [kept j inside (not_lt.mp compared)]
      calc key last
        _ ≤ key element := low
        _ = key _ := congrArg key found.symm
        _ ≤ _ := ordered.le_root inside' compared'

/-- With an odd last element above all others, the top is not the largest element. -/
theorem lastLow_of_heapSorts (data : Vector Element n) (small : n ≤ 2 ^ 31) (odd : n % 2 = 1)
    (several : 1 < n) (sorts : HeapSorts cmpfunc key data.toList) : LastLow key data.toList := by
  have nonempty : data.toList ≠ [] := by
    rw [← List.length_pos_iff, data.length_toList]
    omega
  obtain ⟨heap, _, constructed, extreme, _⟩ := sorts
  obtain rfl := Option.some.inj ((new_toList cmpfunc data small).symm.trans constructed)
  obtain ⟨top, _, read, largest⟩ := extreme nonempty
  rw [getop_eq (by rw [Vector.length_toList]; omega), Option.some.injEq,
    Vector.getElem_toList] at read
  have shape := (List.dropLast_append_getLast nonempty).symm
  obtain ⟨_, others⟩ := new_odd cmpfunc odd shape
  refine ⟨_, _, shape, top, (others top).mpr ⟨0, by omega, by omega, read⟩, ?_⟩
  exact largest _ (List.getLast_mem nonempty)

end Vectors

/-- Beyond `2 ^ 31` elements the loop of `Sort` starts at a negative index. -/
theorem sort_eq_self (cmpfunc : Element → Element → Int) {data : List Element}
    (large : 2 ^ 31 < data.length) (bounded : data.length ≤ 2 ^ 32) :
    sort cmpfunc data = some data := by
  have negative : (BitVec.ofNat 32 data.length - 1).toInt.toNat = 0 := by
    rw [BitVec.toInt_eq_toNat_cond, BitVec.toNat_sub, BitVec.toNat_ofNat,
      show (1 : BitVec 32).toNat = 1 from rfl]
    split <;> omega
  rw [sort, negative]
  rfl

/-- A heap that is not sorted at all is only right when its elements cannot be told apart. -/
theorem allEqual_of_heapSorts {data : List Element} (large : 2 ^ 31 < data.length)
    (bounded : data.length ≤ 2 ^ 32) (sorts : HeapSorts cmpfunc key data) : AllEqual key data := by
  obtain ⟨heap, sorted, constructed, extreme, ran, _, ascending⟩ := sorts
  have perm : heap.Perm data := by
    obtain ⟨heap', constructed', perm⟩ := exists_adjustAll cmpfunc data
      ((BitVec.ofNat 32 (data.length / 2)).toInt + 1).toNat
    rwa [Option.some.inj (constructed.symm.trans constructed')]
  rw [← perm.length_eq] at large bounded
  obtain rfl := Option.some.inj ((sort_eq_self cmpfunc large bounded).symm.trans ran)
  have present : 0 < heap.length := by omega
  obtain ⟨top, _, read, largest⟩ := extreme (List.ne_nil_of_length_pos (perm.length_eq ▸ present))
  rw [getop_eq present, Option.some.injEq] at read
  have least : ∀ element ∈ heap, key top ≤ key element := by
    rw [getData] at ascending
    subst read
    cases heap with
    | nil => cases present
    | cons first rest =>
        rw [List.getElem_cons_zero, List.forall_mem_cons]
        exact ⟨le_rfl, (List.pairwise_cons.mp ascending).1⟩
  have same : ∀ element ∈ data, key element = key top := fun element member =>
    le_antisymm (largest element member) (least element (perm.mem_iff.mpr member))
  exact fun first member second member' => (same first member).trans (same second member').symm

/-- **Heap sort.** The top is extreme and `Sort` sorts when the indices reach all elements and an
odd last one is not above all others, or when all elements are equal. Up to `2 ^ 32` elements
this is necessary. -/
theorem heapSorts_iff (compares : Heap.Compares cmpfunc key) (data : List Element) :
    (Sortable key data → HeapSorts cmpfunc key data) ∧
    (data.length ≤ 2 ^ 32 → (HeapSorts cmpfunc key data ↔ Sortable key data)) := by
  have enough : Sortable key data → HeapSorts cmpfunc key data := by
    rintro (⟨small, good⟩ | equal)
    · exact heapSorts_of_lastLow compares ⟨data.toArray, List.size_toArray⟩ small good
    · exact heapSorts_of_allEqual cmpfunc equal
  refine ⟨enough, fun bounded => ⟨fun sorts => ?_, enough⟩⟩
  by_cases small : data.length ≤ 2 ^ 31
  · rcases Nat.mod_two_eq_zero_or_one data.length with even | odd
    · exact .inl ⟨small, .inl even⟩
    · by_cases several : 1 < data.length
      · exact .inl ⟨small, .inr (lastLow_of_heapSorts
          ⟨data.toArray, List.size_toArray⟩ small odd several sorts)⟩
      · obtain ⟨element, rfl⟩ := List.length_eq_one_iff.mp (show data.length = 1 by omega)
        refine .inr fun first member second member' => ?_
        rw [List.mem_singleton.mp member, List.mem_singleton.mp member']
  · exact .inr (allEqual_of_heapSorts (not_le.mp small) bounded sorts)

/-- The comparison `a > b` of numbers. -/
def numberCmp (a b : Int) : Int := if b < a then 1 else 0

theorem compares_numberCmp : Heap.Compares numberCmp id := fun _ _ => rfl

/-- Four numbers. -/
theorem heapSorts_of_four : HeapSorts numberCmp id [2, 4, 1, 3] :=
  ((heapSorts_iff compares_numberCmp [2, 4, 1, 3]).2 (by decide)).mpr (.inl ⟨by decide, .inl rfl⟩)

/-- Three ascending numbers: the top of the heap is 2. -/
theorem not_heapSorts_of_three : ¬HeapSorts numberCmp id [1, 2, 3] := by
  intro sorts
  obtain ⟨before, last, shape, element, member, low⟩ :=
    lastLow_of_heapSorts #v[1, 2, 3] (by decide) rfl (by decide) sorts
  obtain ⟨rfl, rest⟩ := List.append_inj' (show [1, 2] ++ [3] = before ++ [last] from shape) rfl
  obtain rfl := List.singleton_inj.mp rest
  simp only [List.mem_cons, List.not_mem_nil, or_false] at member
  rcases member with rfl | rfl
  · exact absurd low (by decide)
  · exact absurd low (by decide)

end LogProcess.IntHeap
