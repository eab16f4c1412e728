import LogProcess.Common.HeapSort
import LogProcess.Foundation.Runs

/-! # The order of an even number of elements

After the constructor or `Init` and any calls of `Setop`, no node of a heap of `common/heap.h` with
an even number of elements is beaten by its children, the top by none of the elements. Indices are
of type `int`, so that this is true of up to `2 ^ 31` elements. What lies behind is never
compared, and as soon as one of these elements is not the least there is, some calls of
`Setop` leave it below a smaller one (`IntHeap.orders_of_even`).
-/

namespace LogProcess.IntHeap

variable {Element Key : Type} [LinearOrder Key] {cmpfunc : Element → Element → Int}
  {key : Element → Key} {data next : List Element}

/-- The comparison puts the first element above the second one. -/
def Beats (cmpfunc : Element → Element → Int) (first second : Element) : Prop :=
  cmpfunc first second ≠ 0

/-- No node is beaten by a child. The only child of the top is the node 1. -/
structure HeapOrder (cmpfunc : Element → Element → Int) (data : List Element) : Prop where
  top : ∀ above ∈ data[0]?, ∀ below ∈ data[1]?, ¬Beats cmpfunc below above
  children : ∀ i, 1 ≤ i → ∀ child, child = i * 2 ∨ child = i * 2 + 1 →
    ∀ above ∈ data[i]?, ∀ below ∈ data[child]?, ¬Beats cmpfunc below above
  extreme : ∃ top, getop data = some top ∧ ∀ element ∈ data, ¬Beats cmpfunc element top

/-- A heap that is built from some elements is in order, also after any calls of `Setop`. -/
def Orders (cmpfunc : Element → Element → Int) (initial : List Element) : Prop :=
  ∀ pushed : List Element,
    (∃ data, (new cmpfunc initial).bind (Runs.run (setop cmpfunc) · pushed) = some data ∧
      HeapOrder cmpfunc data) ∧
    ∀ old, ∃ data, (init cmpfunc old initial).bind (Runs.run (setop cmpfunc) · pushed) =
      some data ∧ HeapOrder cmpfunc data

theorem beats_iff (compares : Heap.Compares cmpfunc key) (first second : Element) :
    Beats cmpfunc first second ↔ key second < key first := by
  rw [Beats, compares]
  split_ifs with less
  · exact iff_of_true one_ne_zero less
  · exact iff_of_false (not_not_intro rfl) less

/-! ### Up to `2 ^ 31` elements -/

section Small

variable {n : Nat} {vector : Vector Element n}

theorem mem_getElem?_toList {j : Nat} {element : Element} :
    element ∈ vector.toList[j]? ↔ ∃ inside : j < n, vector[j] = element := by
  rw [Option.mem_def, List.getElem?_eq_some_iff]
  simp only [Vector.length_toList, Vector.getElem_toList]

/-- A heap whose nodes are in order. -/
theorem heapOrder_of_ordered (compares : Heap.Compares cmpfunc key) (nonempty : 0 < n)
    (ordered : Heap.Ordered key vector 0 n) : HeapOrder cmpfunc vector.toList where
  top := by
    intro above first below second
    obtain ⟨-, rfl⟩ := mem_getElem?_toList.mp first
    obtain ⟨inside, rfl⟩ := mem_getElem?_toList.mp second
    rw [beats_iff compares, not_lt]
    exact ordered.le_root inside inside
  children := by
    intro i positive child family above first below second
    obtain ⟨bound, rfl⟩ := mem_getElem?_toList.mp first
    obtain ⟨inside, rfl⟩ := mem_getElem?_toList.mp second
    obtain rfl : child / 2 = i := by omega
    rw [beats_iff compares, not_lt]
    exact ordered child inside (by omega) inside (Nat.zero_le _)
  extreme := by
    have present : 0 < vector.toList.length := by rwa [Vector.length_toList]
    refine ⟨vector[0], ?_, fun element member => ?_⟩
    · rw [getop_eq present, Vector.getElem_toList]
    · obtain ⟨j, inside, rfl⟩ := List.getElem_of_mem member
      rw [Vector.length_toList] at inside
      rw [beats_iff compares, not_lt, Vector.getElem_toList]
      exact ordered.le_root inside inside

/-- The order of the nodes, for lists. -/
def InOrder (key : Element → Key) (n : Nat) (data : List Element) : Prop :=
  ∃ vector : Vector Element n, vector.toList = data ∧ Heap.Ordered key vector 0 (2 * (n / 2))

/-- `Setop` keeps the order. -/
theorem InOrder.setop (compares : Heap.Compares cmpfunc key) (small : n ≤ 2 ^ 31)
    (nonempty : 0 < n) (ordered : InOrder key n data) (element : Element) :
    ∃ next, IntHeap.setop cmpfunc data element = some next ∧ InOrder key n next := by
  obtain ⟨vector, rfl, ordered⟩ := ordered
  exact ⟨_, setop_toList cmpfunc vector small nonempty element, _, rfl,
    Heap.ordered_setop compares nonempty element ordered⟩

theorem orders_of_length_le (compares : Heap.Compares cmpfunc key) {initial : List Element}
    (nonempty : initial ≠ []) (even : initial.length % 2 = 0) (small : initial.length ≤ 2 ^ 31) :
    Orders cmpfunc initial := by
  have present := List.length_pos_iff.mpr nonempty
  have constructed := new_toList cmpfunc (⟨initial.toArray, List.size_toArray⟩ :
    Vector Element initial.length) small
  have start : InOrder key initial.length _ := ⟨_, rfl, Heap.ordered_new compares
    (⟨initial.toArray, List.size_toArray⟩ : Vector Element initial.length)⟩
  intro pushed
  obtain ⟨final, ran, vector, rfl, ordered⟩ := Runs.exists_run (InOrder key initial.length)
    (fun element ordered => ordered.setop compares small present element) start pushed
  rw [Nat.mul_div_cancel' (Nat.dvd_of_mod_eq_zero even)] at ordered
  have built : (new cmpfunc initial).bind (Runs.run (setop cmpfunc) · pushed) =
      some vector.toList := (congrArg (Option.bind · _) constructed).trans ran
  have good := heapOrder_of_ordered compares present ordered
  exact ⟨⟨_, built, good⟩, fun old => ⟨_, built, good⟩⟩

end Small

/-! ### More elements -/

section Large

/-- The elements that no index reaches are the same. -/
def SameFar (data next : List Element) : Prop := ∀ j, 2 ^ 31 ≤ j → next[j]? = data[j]?

theorem SameFar.trans {last : List Element} (first : SameFar data next)
    (second : SameFar next last) : SameFar data last :=
  fun j far => (second j far).trans (first j far)

theorem sameFar_write {i : BitVec 32} {element : Element}
    (written : write data i element = some next) : SameFar data next := by
  intro j far
  rw [write, Option.ite_none_right_eq_some] at written
  obtain ⟨inside, rfl⟩ := written.imp_right Option.some.inj
  have near := (below_iff.mp inside).1
  exact List.getElem?_set_ne (by omega)

theorem sameFar_swap {i j : BitVec 32} (swapped : swap data i j = some next) :
    SameFar data next := by
  simp only [swap, Option.bind_eq_bind, Option.bind_eq_some_iff] at swapped
  obtain ⟨tmp, -, moved, -, between, first, second⟩ := swapped
  exact (sameFar_write first).trans (sameFar_write second)

theorem sameFar_adjust {i : BitVec 32} {size : Nat}
    (adjusted : adjust cmpfunc data i size = some next) : SameFar data next := by
  induction data, i using adjust.induct cmpfunc size with
  | case1 data i inner fails =>
      rw [adjust, dif_pos inner] at adjusted
      split at adjusted
      next => exact absurd adjusted (Option.some_ne_none _).symm
      next chosen => exact absurd (fails.symm.trans chosen) (Option.some_ne_none _).symm
  | case2 data i inner max chosen moved ih =>
      rw [adjust_eq cmpfunc inner chosen, if_pos moved] at adjusted
      obtain ⟨swapped, exchanged, adjusted⟩ := Option.bind_eq_some_iff.mp adjusted
      exact (sameFar_swap exchanged).trans (ih swapped adjusted)
  | case3 data i inner max chosen stays =>
      rw [adjust_eq cmpfunc inner chosen, if_neg stays] at adjusted
      exact Option.some.inj adjusted ▸ fun _ _ => rfl
  | case4 data i outer =>
      rw [adjust, dif_neg outer] at adjusted
      exact Option.some.inj adjusted ▸ fun _ _ => rfl

theorem sameFar_adjustAll {count : Nat} (adjusted : adjustAll cmpfunc data count = some next) :
    SameFar data next := by
  induction count generalizing data with
  | zero => exact Option.some.inj adjusted ▸ fun _ _ => rfl
  | succ i ih =>
      obtain ⟨between, first, rest⟩ := Option.bind_eq_some_iff.mp adjusted
      exact (sameFar_adjust first).trans (ih rest)

/-- `Setop` with an element that is not above the top replaces it. -/
theorem exists_setop_of_le (compares : Heap.Compares cmpfunc key) {top : Element}
    (read : getop data = some top) {element : Element} (low : key element ≤ key top) :
    ∃ next, setop cmpfunc data element = some next ∧ SameFar data next ∧
      (top :: next).Perm (element :: data) := by
  cases data with
  | nil => exact absurd read (Option.some_ne_none _).symm
  | cons first rest =>
      have nonempty : 0 < (first :: rest).length := List.length_pos_of_mem List.mem_cons_self
      have inside := below_zero nonempty
      have top : IntHeap.read (first :: rest) 0#32 = some first := getop_eq nonempty
      rw [getop_eq nonempty, Option.some.injEq, List.getElem_cons_zero] at read
      subst read
      have stored : write (first :: rest) 0#32 element = some (element :: rest) := if_pos inside
      obtain ⟨next, adjusted, perm⟩ := exists_adjust cmpfunc (le_refl (element :: rest).length) 0#32
      refine ⟨next, ?_, (sameFar_write stored).trans (sameFar_adjust adjusted),
        (perm.cons first).trans (.swap element first rest)⟩
      rw [setop, top, stored]
      simp only [Option.bind_eq_bind, Option.bind_some]
      rw [if_neg]
      · exact adjusted
      · rw [compares, if_neg (not_lt.mpr low)]
        decide

/-- As long as a heap is in order, its top can be replaced by a smaller element than one of those
that no index reaches. So it does not stay in order. -/
theorem not_forall_heapOrder (compares : Heap.Compares cmpfunc key) {element far : Element}
    (less : key element < key far) {j : Nat} (behind : 2 ^ 31 ≤ j) (there : far ∈ data[j]?) :
    ¬∀ pushed, ∃ next, Runs.run (setop cmpfunc) data pushed = some next ∧
      HeapOrder cmpfunc next := by
  intro orders
  induction above : data.countP (key element < key ·) generalizing data with
  | zero =>
      exact List.countP_eq_zero.mp above far (List.mem_of_getElem? there) (decide_eq_true less)
  | succ count ih =>
      obtain ⟨final, ran, order⟩ := orders []
      obtain rfl := Option.some.inj ran
      obtain ⟨top, read, extreme⟩ := order.extreme
      have highest := extreme far (List.mem_of_getElem? there)
      rw [beats_iff compares, not_lt] at highest
      have higher := less.trans_le highest
      obtain ⟨next, stepped, same, perm⟩ := exists_setop_of_le compares read higher.le
      refine ih ((same j behind).trans there) (fun pushed => ?_) ?_
      · obtain ⟨final, ran, order⟩ := orders (element :: pushed)
        obtain ⟨between, stepped', ran⟩ := Runs.run_cons_eq_some_iff.mp ran
        obtain rfl := Option.some.inj (stepped.symm.trans stepped')
        exact ⟨final, ran, order⟩
      · have counts := perm.countP_eq (key element < key ·)
        simp only [List.countP_cons, higher, lt_irrefl, decide_true, decide_false, ↓reduceIte,
          Bool.false_eq_true, Nat.add_zero, above] at counts
        exact Nat.succ.inj counts

theorem least_of_orders (compares : Heap.Compares cmpfunc key) {initial : List Element}
    (orders : Orders cmpfunc initial) {j : Nat} (behind : 2 ^ 31 ≤ j) {far : Element}
    (there : far ∈ initial[j]?) (element : Element) : key far ≤ key element := by
  by_contra less
  obtain ⟨built, constructed, perm⟩ := exists_adjustAll cmpfunc initial
    ((BitVec.ofNat 32 (initial.length / 2)).toInt + 1).toNat
  have kept := (sameFar_adjustAll constructed j behind).trans there
  refine not_forall_heapOrder compares (not_le.mp less) behind kept fun pushed => ?_
  obtain ⟨final, ran, order⟩ := (orders pushed).1
  obtain ⟨between, constructed', ran⟩ := Option.bind_eq_some_iff.mp ran
  obtain rfl := Option.some.inj (constructed.symm.trans constructed')
  exact ⟨final, ran, order⟩

end Large

/-- **Heap order.** An even number of elements up to `2 ^ 31` stays in order. Of more elements
those that no index reaches must be the least there are. -/
theorem orders_of_even (compares : Heap.Compares cmpfunc key) {initial : List Element}
    (nonempty : initial ≠ []) (even : initial.length % 2 = 0) :
    (initial.length ≤ 2 ^ 31 → Orders cmpfunc initial) ∧
    (Orders cmpfunc initial →
      ∀ j, 2 ^ 31 ≤ j → ∀ far ∈ initial[j]?, ∀ element, key far ≤ key element) :=
  ⟨orders_of_length_le compares nonempty even, fun orders _ behind _ there =>
    least_of_orders compares orders behind there⟩

/-- Four numbers. -/
theorem orders_of_four : Orders numberCmp [2, 4, 1, 3] :=
  (orders_of_even compares_numberCmp (List.cons_ne_nil 2 [4, 1, 3]) rfl).1 (by decide)

/-- A number behind `2 ^ 31` others stays below its parent. -/
theorem not_orders_of_far : ¬Orders numberCmp (List.replicate (2 ^ 31) 0 ++ [5, 0]) := by
  intro orders
  have there : (List.replicate (2 ^ 31) (0 : Int) ++ [5, 0])[2 ^ 31]? = some 5 := by
    rw [List.getElem?_append_right (by rw [List.length_replicate]), List.length_replicate,
      Nat.sub_self]
    rfl
  exact absurd (least_of_orders compares_numberCmp orders le_rfl there 0) (by decide)

end LogProcess.IntHeap
