import Mathlib

/-! # Sorting by a key

Lists in ascending order of a key. The keys of such a list are determined by its elements
(`Sorting.Ascending.map_key_eq`), the key at a position by how many elements have smaller ones
(`Sorting.Ascending.getElem_iff`), and its first part by any selection of elements that are
not above the others (`Sorting.Ascending.map_key_eq_take`). `Sorting.StdSort` is what the
standard library promises about sorting with a comparison. Collecting the elements key by key is
a stable sort (`Sorting.flatMap_filter_eq_mergeSort`).
-/

namespace Sorting

variable {Element Key : Type*} [LinearOrder Key]

/-- The keys ascend. -/
def Ascending (key : Element → Key) (list : List Element) : Prop :=
  list.Pairwise fun first second => key first ≤ key second

/-- What is known about `std::sort` with a comparison that tests whether one key is smaller: it
rearranges the elements such that no later one is smaller. Equal keys may come in any order. -/
structure StdSort (Element : Type) where
  sort : (Element → Element → Bool) → List Element → List Element
  perm : ∀ less list, (sort less list).Perm list
  pairwise : ∀ (less : Element → Element → Bool),
    (∀ first second third, less first second = false → less second third = false →
      less first third = false) →
    (∀ first second, less first second = true → less second first = false) →
    ∀ list, (sort less list).Pairwise fun first second => less second first = false

/-- Inserting the elements one after the other is one way to sort. -/
def StdSort.insertion (Element : Type) : StdSort Element where
  sort := fun less list => list.insertionSort fun first second => less second first = false
  perm := fun less list => List.perm_insertionSort _ list
  pairwise := by
    intro less trans asymm list
    let ordered := fun first second => less second first = false
    have : IsTrans Element ordered :=
      ⟨fun first second third low high => trans third second first high low⟩
    have : Std.Total ordered := by
      refine ⟨fun first second => ?_⟩
      cases smaller : less second first with
      | false => exact .inl smaller
      | true => exact .inr (asymm second first smaller)
    exact List.pairwise_insertionSort ordered list

namespace Ascending

variable {key : Element → Key}

/-- The keys of an ascending list do not depend on how the elements were arranged before. -/
theorem map_key_eq {first second : List Element} (sorted : Ascending key first)
    (sorted' : Ascending key second) (perm : first.Perm second) :
    first.map key = second.map key :=
  (perm.map key).eq_of_pairwise (fun _ _ _ _ low high => le_antisymm low high)
    (List.pairwise_map.mpr sorted) (List.pairwise_map.mpr sorted')

/-- The elements with a downward closed property of the key are the first ones. -/
theorem getElem_iff {list : List Element} (sorted : Ascending key list) (below : Key → Bool)
    (closed : ∀ low high, low ≤ high → below high = true → below low = true) {position : Nat}
    (inside : position < list.length) : below (key list[position]) = true ↔
      position < list.countP fun element => below (key element) := by
  induction list generalizing position with
  | nil => cases inside
  | cons element rest ih =>
      obtain ⟨least, sorted⟩ := List.pairwise_cons.mp sorted
      by_cases first : below (key element) = true
      · rw [List.countP_cons_of_pos (p := fun element => below (key element)) first]
        cases position with
        | zero => simp only [List.getElem_cons_zero, first, Nat.zero_lt_succ]
        | succ position =>
            rw [List.getElem_cons_succ, ih sorted (Nat.lt_of_succ_lt_succ inside),
              Nat.succ_lt_succ_iff]
      · have none : ∀ other ∈ element :: rest, ¬below (key other) = true := by
          intro other member holds
          rcases List.mem_cons.mp member with rfl | later
          · exact first holds
          · exact first (closed _ _ (least other later) holds)
        rw [List.countP_eq_zero.mpr none]
        exact iff_of_false (none _ (List.getElem_mem inside)) (Nat.not_lt_zero position)

/-- Merge sort with the order of the keys arranges them in ascending order. -/
theorem mergeSort (key : Element → Key) (list : List Element) :
    Ascending key (list.mergeSort fun first second => key first ≤ key second) :=
  (List.pairwise_mergeSort (fun _ _ _ first second => by
    rw [decide_eq_true_eq] at first second ⊢
    exact first.trans second) (fun first second => by
    rw [Bool.or_eq_true, decide_eq_true_eq, decide_eq_true_eq]
    exact le_total _ _) list).imp of_decide_eq_true

/-- The keys of an ascending selection are the first ones, when nothing that is left out is
below a selected element. -/
theorem map_key_eq_take {kept all : List Element} (dropped : List Element)
    (sorted : Ascending key kept)
    (sorted' : Ascending key all) (perm : (kept ++ dropped).Perm all)
    (low : ∀ first ∈ kept, ∀ second ∈ dropped, key first ≤ key second) :
    kept.map key = (all.map key).take kept.length := by
  have arranged := List.mergeSort_perm dropped fun first second => key first ≤ key second
  have ascending : Ascending key
      (kept ++ dropped.mergeSort fun first second => key first ≤ key second) := by
    exact List.pairwise_append.mpr ⟨sorted, mergeSort key dropped, fun first member second later =>
      low first member second (arranged.mem_iff.mp later)⟩
  rw [← ascending.map_key_eq sorted' ((arranged.append_left kept).trans perm), List.map_append,
    List.take_left' (List.length_map _)]

/-- The keys of an ascending list are its sorted keys. -/
theorem map_key_eq_mergeSort {sorted list : List Element} (ascending : Ascending key sorted)
    (perm : sorted.Perm list) :
    sorted.map key = (list.map key).mergeSort fun first second => first ≤ second := by
  have arranged := List.mergeSort_perm (list.map key) fun first second => first ≤ second
  exact ((perm.map key).trans arranged.symm).eq_of_pairwise
    (fun _ _ _ _ low high => le_antisymm low high) (List.pairwise_map.mpr ascending)
    (mergeSort id (list.map key))

end Ascending

/-- Sorting by the larger key and turning the result around gives an ascending list. -/
theorem StdSort.ascending_reverse {Element : Type} (std : StdSort Element) (key : Element → Key)
    {greater : Element → Element → Bool}
    (compares : ∀ first second, greater first second = true ↔ key second < key first)
    (list : List Element) : Ascending key (std.sort greater list).reverse := by
  have descending := std.pairwise greater
    (fun first second third => by
      rw [← Bool.not_eq_true, ← Bool.not_eq_true, ← Bool.not_eq_true, compares, compares, compares,
        not_lt, not_lt, not_lt]
      exact fun low high => low.trans high)
    (fun first second => by
      rw [← Bool.not_eq_true, compares, compares, not_lt]
      exact le_of_lt) list
  refine List.pairwise_reverse.mpr (descending.imp fun {first second} lower => ?_)
  rwa [← Bool.not_eq_true, compares, not_lt] at lower

/-! ### Going through an ordered list -/

section Reached

variable {before : Element → Element → Prop} {property : Element → Prop}

/-- The element is in the list, and those before it have the property. -/
def Reached (before : Element → Element → Prop) (property : Element → Prop) (list : List Element)
    (element : Element) : Prop :=
  element ∈ list ∧ ∀ other ∈ list, before other element → property other

variable [Std.Asymm before]

/-- Behind the first element those of the rest are reached when it has the property. -/
theorem reached_cons_iff {head : Element} {rest : List Element}
    (ordered : (head :: rest).Pairwise before) (element : Element) :
    Reached before property (head :: rest) element ↔
      element = head ∨ property head ∧ Reached before property rest element := by
  rw [List.pairwise_cons] at ordered
  rw [Reached, List.mem_cons, List.forall_mem_cons]
  refine ⟨fun reached => ?_, fun reached => ?_⟩
  · obtain ⟨rfl | member, first, earlier⟩ := reached
    · exact .inl rfl
    · exact .inr ⟨first (ordered.1 element member), member, earlier⟩
  · rcases reached with rfl | ⟨held, member, earlier⟩
    · refine ⟨.inl rfl, fun above => absurd above (Std.Asymm.asymm _ _ above), ?_⟩
      exact fun other member above => absurd (ordered.1 other member) (Std.Asymm.asymm _ _ above)
    · exact ⟨.inr member, fun _ => held, earlier⟩

/-- What stands before the first element without the property was reached and has it. -/
theorem mem_takeWhile_iff [DecidablePred property] {list : List Element}
    (ordered : list.Pairwise before) (element : Element) :
    element ∈ list.takeWhile (fun element => property element) ↔
      Reached before property list element ∧ property element := by
  induction list with
  | nil => simp only [List.takeWhile_nil, Reached, List.not_mem_nil, false_and]
  | cons head rest ih =>
      rw [reached_cons_iff ordered]
      by_cases held : property head
      · rw [List.takeWhile_cons_of_pos (by simpa using held), List.mem_cons,
          ih (List.pairwise_cons.mp ordered).2, and_iff_right held, or_and_right]
        exact or_congr_left (iff_self_and.mpr fun same => same ▸ held)
      · rw [List.takeWhile_cons_of_neg (by simpa using held)]
        refine iff_of_false List.not_mem_nil fun reached => ?_
        obtain ⟨rfl | ⟨first, _⟩, some⟩ := reached
        · exact held some
        · exact held first

end Reached

/-! ### Equal keys -/

section Stable

variable {key : Element → Key}

/-- Among elements that are not below a value, those that have it come first. -/
theorem Ascending.filter_eq_append_filter_ne {list : List Element} (sorted : Ascending key list)
    {value : Key} (least : ∀ element ∈ list, value ≤ key element) :
    list.filter (fun element => key element = value) ++
      list.filter (fun element => key element ≠ value) = list := by
  induction list with
  | nil => rfl
  | cons head rest ih =>
      rw [Ascending, List.pairwise_cons] at sorted
      rw [List.forall_mem_cons] at least
      by_cases same : key head = value
      · rw [List.filter_cons_of_pos (by simpa using same),
          List.filter_cons_of_neg (by simpa using same), List.cons_append, ih sorted.2 least.2]
      · have above : ∀ element ∈ head :: rest, key element ≠ value := by
          rintro element member rfl
          rcases List.mem_cons.mp member with rfl | later
          · exact same rfl
          · exact same (le_antisymm (sorted.1 element later) least.1)
        rw [List.filter_eq_nil_iff.mpr, List.filter_eq_self.mpr, List.nil_append]
        · exact fun element member => decide_eq_true (above element member)
        · exact fun element member => by simpa using above element member

/-- An ascending list consists of its elements of each key. -/
theorem Ascending.flatMap_filter {list : List Element} (sorted : Ascending key list)
    {keys : List Key} (ascending : keys.Pairwise (· < ·))
    (covered : ∀ element ∈ list, key element ∈ keys) :
    keys.flatMap (fun value => list.filter fun element => key element = value) = list := by
  induction keys generalizing list with
  | nil =>
      rw [List.eq_nil_iff_forall_not_mem.mpr fun element member =>
        List.not_mem_nil (covered element member)]
      rfl
  | cons value keys ih =>
      rw [List.pairwise_cons] at ascending
      have least : ∀ element ∈ list, value ≤ key element := by
        intro element member
        rcases List.mem_cons.mp (covered element member) with same | later
        · exact same.ge
        · exact (ascending.1 _ later).le
      have others : ∀ element ∈ list.filter (fun element => key element ≠ value),
          key element ∈ keys := by
        intro element member
        rw [List.mem_filter, decide_eq_true_eq] at member
        exact (List.mem_cons.mp (covered element member.1)).resolve_left member.2
      have kept : keys.flatMap (fun other => list.filter fun element => key element = other) =
          list.filter fun element => key element ≠ value := by
        rw [← ih (sorted.filter _) ascending.2 others]
        refine List.flatMap_congr fun other member => ?_
        rw [List.filter_filter]
        refine List.filter_congr fun element _ => ?_
        by_cases same : key element = other
        · rw [same]
          simp [(ascending.1 other member).ne']
        · simp [same]
      rw [List.flatMap_cons, kept, sorted.filter_eq_append_filter_ne least]

/-- Merge sort keeps the order of the elements of one key. -/
theorem filter_mergeSort (key : Element → Key) (list : List Element) (value : Key) :
    (list.mergeSort fun first second => key first ≤ key second).filter
        (fun element => key element = value) =
      list.filter fun element => key element = value := by
  have equal : (list.filter fun element => key element = value).Pairwise
      fun first second => decide (key first ≤ key second) = true := by
    refine List.pairwise_of_forall_mem_list fun first member second other => ?_
    rw [List.mem_filter, decide_eq_true_eq] at member other
    exact decide_eq_true (member.2.trans other.2.symm).le
  have inside := List.sublist_mergeSort (fun _ _ _ low high => by
      rw [decide_eq_true_eq] at low high ⊢
      exact low.trans high) (fun first second => by
      rw [Bool.or_eq_true, decide_eq_true_eq, decide_eq_true_eq]
      exact le_total _ _) equal List.filter_sublist
  have arranged := List.mergeSort_perm list fun first second => decide (key first ≤ key second)
  have kept := inside.filter fun element => key element = value
  rw [List.filter_filter] at kept
  simp only [Bool.and_self] at kept
  exact (kept.eq_of_length (arranged.filter _).length_eq.symm).symm

/-- **Stable sorting.** Going through the keys in ascending order and taking the elements of each
one in their order is merge sort. -/
theorem flatMap_filter_eq_mergeSort (list : List Element) {keys : List Key}
    (ascending : keys.Pairwise (· < ·)) (covered : ∀ element ∈ list, key element ∈ keys) :
    keys.flatMap (fun value => list.filter fun element => key element = value) =
      list.mergeSort fun first second => key first ≤ key second := by
  rw [← (Ascending.mergeSort key list).flatMap_filter ascending fun element member =>
    covered element ((List.mergeSort_perm ..).mem_iff.mp member)]
  exact List.flatMap_congr fun value _ => (filter_mergeSort key list value).symm

end Stable

/-- An element that is taken out of a list comes back at its front. -/
theorem perm_eraseIdx {Element : Type*} {list : List Element} {index : Nat} {element : Element}
    (present : list[index]? = some element) : (element :: list.eraseIdx index).Perm list := by
  obtain ⟨inside, rfl⟩ := List.getElem?_eq_some_iff.mp present
  exact List.getElem_cons_eraseIdx_perm inside

/-- Going through some keys in any order and taking the elements of each one rearranges the
elements. -/
theorem flatMap_filter_perm {Element Key : Type*} [DecidableEq Key] {key : Element → Key}
    {list : List Element} {keys : List Key} (nodup : keys.Nodup)
    (covered : ∀ element ∈ list, key element ∈ keys) :
    (keys.flatMap fun value => list.filter fun element => key element = value).Perm list := by
  induction keys generalizing list with
  | nil =>
      rw [List.eq_nil_iff_forall_not_mem.mpr fun element member =>
        List.not_mem_nil (covered element member)]
      exact .nil
  | cons value keys ih =>
      rw [List.nodup_cons] at nodup
      have others : ∀ element ∈ list.filter (fun element => !decide (key element = value)),
          key element ∈ keys := by
        intro element member
        rw [List.mem_filter, Bool.not_eq_true', decide_eq_false_iff_not] at member
        exact (List.mem_cons.mp (covered element member.1)).resolve_left member.2
      have kept : keys.flatMap (fun other => list.filter fun element => key element = other) =
          keys.flatMap fun other =>
            (list.filter fun element => !decide (key element = value)).filter
              fun element => key element = other := by
        refine List.flatMap_congr fun other member => ?_
        rw [List.filter_filter]
        refine List.filter_congr fun element _ => ?_
        by_cases same : key element = other
        · have distinct : other ≠ value := fun equal => nodup.1 (equal ▸ member)
          simp [same, distinct]
        · simp [same]
      rw [List.flatMap_cons, kept]
      exact ((ih nodup.2 others).append_left _).trans
        (List.filter_append_perm (fun element => decide (key element = value)) list)

end Sorting
