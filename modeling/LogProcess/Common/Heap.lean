import LogProcess.Foundation.Sorting

/-! # The heap

The heap of `common/heap.h` and `common/heap_func.h`. The children of `i` are `i * 2` and
`i * 2 + 1`, so the root is above the single node 1, and `Adjust` leaves a node alone unless
it is below `size / 2`. With an odd number of elements the last one is therefore not compared
with its parent: `Sort` sorts when it happens not to be larger than the root (`Heap.sorted_sort`),
and otherwise puts the root behind all others (`Heap.sorted_sort_odd`).
-/

namespace LogProcess.Heap

variable {Element : Type} {n : Nat}

/-! ### The functions -/

section Model

variable (cmpfunc : Element → Element → Int)

def left (i : Nat) : Nat := i * 2

def right (i : Nat) : Nat := i * 2 + 1

/-- One comparison of `Adjust`: the child replaces `max` unless `max` compares as larger. -/
def pick (data : Vector Element n) (max child : Fin n) : Fin n :=
  if cmpfunc data[max] data[child] = 0 then child else max

theorem pick_eq (data : Vector Element n) (max child : Fin n) :
    pick cmpfunc data max child = max ∨ pick cmpfunc data max child = child := by
  rw [pick]
  split
  · exact .inr rfl
  · exact .inl rfl

/-- The node that `Adjust` swaps with `i`. Both children are below `size`, as the source checks
once more. -/
def largest (data : Vector Element n) (i size : Nat) (bounded : size ≤ n)
    (inner : i < size / 2) : Fin n :=
  pick cmpfunc data
    (pick cmpfunc data ⟨i, by omega⟩ ⟨left i, by unfold left; omega⟩)
    ⟨right i, by unfold right; omega⟩

theorem largest_eq (data : Vector Element n) {i size : Nat} (bounded : size ≤ n)
    (inner : i < size / 2) :
    (largest cmpfunc data i size bounded inner).val = i ∨
      (largest cmpfunc data i size bounded inner).val = left i ∨
      (largest cmpfunc data i size bounded inner).val = right i := by
  rw [largest]
  rcases pick_eq cmpfunc data
    (pick cmpfunc data ⟨i, by omega⟩ ⟨left i, by unfold left; omega⟩)
    ⟨right i, by unfold right; omega⟩ with same | child
  · rw [same]
    rcases pick_eq cmpfunc data ⟨i, by omega⟩ ⟨left i, by unfold left; omega⟩ with same | child
    · rw [same]
      exact .inl rfl
    · rw [child]
      exact .inr (.inl rfl)
  · rw [child]
    exact .inr (.inr rfl)

def adjust (data : Vector Element n) (i size : Nat) (bounded : size ≤ n) : Vector Element n :=
  if inner : i < size / 2 then
    let max := largest cmpfunc data i size bounded inner
    if max.val ≠ i then adjust (data.swap max i) max size bounded else data
  else
    data
termination_by size - i
decreasing_by
  have moved : max.val ≠ i := by assumption
  have child := largest_eq cmpfunc data bounded inner
  unfold left right at child
  omega

/-- The loop of the constructor, from `i` down to 0. -/
def adjustAll (data : Vector Element n) : Nat → Vector Element n
  | 0 => adjust cmpfunc data 0 n le_rfl
  | i + 1 => adjustAll (adjust cmpfunc data (i + 1) n le_rfl) i

/-- The constructor. -/
def new (data : Vector Element n) : Vector Element n := adjustAll cmpfunc data (n / 2)

/-- `Setop` on a heap that is not empty. -/
def setop (data : Vector Element n) (nonempty : 0 < n) (element : Element) : Vector Element n :=
  if cmpfunc element data[0] > 0 then data
  else adjust cmpfunc (data.set 0 element) 0 n le_rfl

/-- The loop of `Sort` from `i` on. -/
def sortFrom (data : Vector Element n) : (i : Nat) → i < n → Vector Element n
  | 0, _ => data
  | i + 1, inside =>
      sortFrom (adjust cmpfunc (data.swap 0 (i + 1)) 0 (i + 1) (Nat.le_of_lt inside)) i
        (Nat.lt_of_succ_lt inside)

def sort (data : Vector Element n) : Vector Element n :=
  if nonempty : 0 < n then sortFrom cmpfunc data (n - 1) (Nat.sub_one_lt_of_lt nonempty) else data

end Model

/-! ### The order of the nodes -/

section Order

variable {Key : Type} [LinearOrder Key] {cmpfunc : Element → Element → Int} {key : Element → Key}

/-- A comparison that tests for the larger key. -/
def Compares (cmpfunc : Element → Element → Int) (key : Element → Key) : Prop :=
  ∀ first second, cmpfunc first second = if key second < key first then 1 else 0

/-- No node whose parent is `low` or behind it is larger than its parent. -/
def Ordered (key : Element → Key) (data : Vector Element n) (low size : Nat) : Prop :=
  ∀ j (_ : j < n), 1 ≤ j → j < size → low ≤ j / 2 → key data[j] ≤ key data[j / 2]

/-- The nodes are in order but for the children of `hole`, which are not larger than its
parent. -/
structure OrderedExcept (key : Element → Key) (data : Vector Element n) (low size hole : Nat) :
    Prop where
  others : ∀ j (_ : j < n), 1 ≤ j → j < size → low ≤ j / 2 → j / 2 ≠ hole →
    key data[j] ≤ key data[j / 2]
  grand : ∀ j (_ : j < n), j < size → j / 2 = hole → 1 ≤ hole → low ≤ hole / 2 →
    key data[j] ≤ key data[j / 2 / 2]

theorem le_pick (compares : Compares cmpfunc key) (data : Vector Element n) (max child : Fin n) :
    key data[max] ≤ key data[pick cmpfunc data max child] ∧
      key data[child] ≤ key data[pick cmpfunc data max child] := by
  by_cases larger : key data[child] < key data[max]
  · have stays : pick cmpfunc data max child = max := by
      rw [pick, compares, if_pos larger, if_neg one_ne_zero]
    simp only [stays]
    exact ⟨le_rfl, larger.le⟩
  · have moves : pick cmpfunc data max child = child := by
      rw [pick, compares, if_neg larger, if_pos rfl]
    simp only [moves]
    exact ⟨not_lt.mp larger, le_rfl⟩

/-- The selected node is not smaller than the node and its children. -/
theorem le_largest (compares : Compares cmpfunc key) (data : Vector Element n) {i size : Nat}
    (bounded : size ≤ n) (inner : i < size / 2) {j : Nat} (inside : j < n)
    (family : j = i ∨ j = left i ∨ j = right i) :
    key data[j] ≤ key data[(largest cmpfunc data i size bounded inner).val] := by
  obtain ⟨stays, child⟩ := le_pick compares data
    (pick cmpfunc data ⟨i, by omega⟩ ⟨left i, by unfold left; omega⟩)
    ⟨right i, by unfold right; omega⟩
  obtain ⟨stays', child'⟩ := le_pick compares data ⟨i, by omega⟩ ⟨left i, by unfold left; omega⟩
  rcases family with rfl | rfl | rfl
  · exact stays'.trans stays
  · exact child'.trans stays
  · exact child

/-- Moving the largest of a node and its children up moves the disorder down. -/
theorem OrderedExcept.swap {low hole child size : Nat} {data : Vector Element n}
    (start : OrderedExcept key data low size hole) (reached : low ≤ hole) (inside : child < n)
    (inside' : hole < n) (within : child < size) (parent : child / 2 = hole) (moved : child ≠ hole)
    (largest : ∀ j (_ : j < n), j < size → j = hole ∨ j / 2 = hole →
      key data[j] ≤ key data[child]) :
    OrderedExcept key (data.swap child hole) low size child := by
  subst parent
  have swapped (j : Nat) (bound : j < n) : (data.swap child (child / 2))[j] =
      if j = child then data[child / 2] else if j = child / 2 then data[child] else data[j] :=
    Vector.getElem_swap ..
  refine ⟨?_, ?_⟩
  · intro j bound positive small above other
    rw [swapped, swapped, if_neg other]
    by_cases down : j = child
    · rw [if_pos down, if_pos (by omega)]
      exact largest _ _ (by omega) (.inl rfl)
    · rw [if_neg down]
      by_cases up : j = child / 2
      · subst up
        rw [if_pos rfl, if_neg (by omega)]
        exact start.grand child inside within rfl positive above
      · rw [if_neg up]
        by_cases sibling : j / 2 = child / 2
        · rw [if_pos sibling]
          exact largest j bound small (.inr sibling)
        · rw [if_neg sibling]
          exact start.others j bound positive small above sibling
  · intro j bound small below positive above
    subst below
    rw [swapped, swapped, if_neg (by omega), if_neg (by omega), if_neg (by omega), if_pos rfl]
    exact start.others j bound (by omega) small (by omega) (by omega)

/-- `Adjust` repairs the order below a node. -/
theorem ordered_adjust (compares : Compares cmpfunc key) {low i size : Nat}
    {data : Vector Element n} (bounded : size ≤ n) (reached : low ≤ i)
    (start : OrderedExcept key data low (2 * (size / 2)) i) :
    Ordered key (adjust cmpfunc data i size bounded) low (2 * (size / 2)) := by
  induction data, i using adjust.induct cmpfunc size bounded with
  | case1 data i inner max moved ih =>
      rw [adjust, dif_pos inner, if_pos moved]
      have child := largest_eq cmpfunc data bounded inner
      unfold left right at child
      apply ih (by omega)
      apply start.swap reached max.isLt _ (by omega) (by omega) moved
      intro j inside small family
      apply le_largest compares data bounded inner inside
      unfold left right
      omega
  | case2 data i inner max stays =>
      rw [adjust, dif_pos inner, if_neg stays]
      intro j inside positive small above
      by_cases family : j / 2 = i
      · have largest := le_largest compares data bounded inner inside
          (by unfold left right; omega)
        exact largest.trans_eq (congrArg key (getElem_congr_idx (show max.val = j / 2 by omega)))
      · exact start.others j inside positive small above family
  | case3 data i outer =>
      rw [adjust, dif_neg outer]
      intro j inside positive small above
      exact start.others j inside positive small above (by omega)

/-- A node but the root is not larger than the node below the root. -/
theorem Ordered.le_first {data : Vector Element n} {size : Nat}
    (ordered : Ordered key data 0 size) {j : Nat} (inside : j < n) (positive : 1 ≤ j)
    (small : j < size) : key data[j] ≤ key data[1] := by
  induction j using Nat.strongRecOn with
  | ind j ih =>
      by_cases first : j = 1
      · subst first
        exact le_rfl
      · exact (ordered j inside positive small (Nat.zero_le _)).trans
          (ih (j / 2) (by omega) (by omega) (by omega) (by omega))

/-- A node is not larger than the root. -/
theorem Ordered.le_root {data : Vector Element n} {size : Nat}
    (ordered : Ordered key data 0 size) {j : Nat} (inside : j < n) (small : j < size) :
    key data[j] ≤ key data[0] := by
  rcases Nat.eq_zero_or_pos j with rfl | positive
  · exact le_rfl
  · exact (ordered.le_first inside positive small).trans
      (ordered 1 (by omega) le_rfl (by omega) (Nat.zero_le _))

/-- With another root only the node below it may be out of order. -/
theorem Ordered.replace {data other : Vector Element n} {size size' : Nat}
    (ordered : Ordered key data 0 size) (shorter : size' ≤ size)
    (same : ∀ j (_ : j < n), 1 ≤ j → j < size' → other[j] = data[j]) :
    OrderedExcept key other 0 size' 0 := by
  refine ⟨?_, fun _ _ _ _ positive => absurd positive (Nat.not_succ_le_zero 0)⟩
  intro j inside positive small _ below
  rw [same j inside positive small, same (j / 2) (by omega) (by omega) (by omega)]
  exact ordered j inside positive (by omega) (Nat.zero_le _)

end Order

/-! ### What stays -/

section Frame

variable (cmpfunc : Element → Element → Int)

theorem perm_adjust (data : Vector Element n) (i : Nat) {size : Nat} (bounded : size ≤ n) :
    (adjust cmpfunc data i size bounded).Perm data := by
  induction data, i using adjust.induct cmpfunc size bounded with
  | case1 data i inner max moved ih =>
      rw [adjust, dif_pos inner, if_pos moved]
      exact ih.trans (Vector.swap_perm ..)
  | case2 data i inner max stays =>
      rw [adjust, dif_pos inner, if_neg stays]
  | case3 data i outer =>
      rw [adjust, dif_neg outer]

/-- `Adjust` leaves the elements behind the compared ones alone. -/
theorem getElem_adjust (data : Vector Element n) (i : Nat) {size : Nat} (bounded : size ≤ n)
    {j : Nat} (inside : j < n) (behind : 2 * (size / 2) ≤ j) :
    (adjust cmpfunc data i size bounded)[j] = data[j] := by
  induction data, i using adjust.induct cmpfunc size bounded with
  | case1 data i inner max moved ih =>
      have child := largest_eq cmpfunc data bounded inner
      unfold left right at child
      rw [adjust, dif_pos inner, if_pos moved, ih]
      exact Vector.getElem_swap_of_ne (by omega) (by omega)
  | case2 data i inner max stays =>
      rw [adjust, dif_pos inner, if_neg stays]
  | case3 data i outer =>
      rw [adjust, dif_neg outer]

/-- `Adjust` rearranges the compared elements. -/
theorem forall_adjust (property : Element → Prop) (data : Vector Element n) (i : Nat)
    {size limit : Nat} (bounded : size ≤ n) (covers : 2 * (size / 2) ≤ limit)
    (all : ∀ j (_ : j < n), j < limit → property data[j]) :
    ∀ j (_ : j < n), j < limit → property (adjust cmpfunc data i size bounded)[j] := by
  induction data, i using adjust.induct cmpfunc size bounded with
  | case1 data i inner max moved ih =>
      have child := largest_eq cmpfunc data bounded inner
      unfold left right at child
      rw [adjust, dif_pos inner, if_pos moved]
      apply ih
      intro j inside small
      rw [Vector.getElem_swap]
      split
      · exact all _ _ (by omega)
      · split
        · exact all _ _ (by omega)
        · exact all _ _ small
  | case2 data i inner max stays =>
      rw [adjust, dif_pos inner, if_neg stays]
      exact all
  | case3 data i outer =>
      rw [adjust, dif_neg outer]
      exact all

/-- No compared element gets lost. -/
theorem exists_adjust (data : Vector Element n) (i : Nat) {size : Nat} (bounded : size ≤ n) :
    ∀ j (_ : j < n), j < 2 * (size / 2) → ∃ (j' : Nat) (_ : j' < n), j' < 2 * (size / 2) ∧
      (adjust cmpfunc data i size bounded)[j'] = data[j] := by
  induction data, i using adjust.induct cmpfunc size bounded with
  | case1 data i inner max moved ih =>
      have child := largest_eq cmpfunc data bounded inner
      unfold left right at child
      rw [adjust, dif_pos inner, if_pos moved]
      intro j inside small
      have swapped : ∃ (j' : Nat) (_ : j' < n), j' < 2 * (size / 2) ∧
          (data.swap max i)[j'] = data[j] := by
        by_cases down : j = i
        · subst down
          exact ⟨max, max.isLt, by omega, Vector.getElem_swap_left ..⟩
        · by_cases up : j = max.val
          · subst up
            exact ⟨i, by omega, by omega, Vector.getElem_swap_right ..⟩
          · exact ⟨j, inside, small, Vector.getElem_swap_of_ne up down⟩
      obtain ⟨j', inside', small', same⟩ := swapped
      rw [← same]
      exact ih j' inside' small'
  | case2 data i inner max stays =>
      rw [adjust, dif_pos inner, if_neg stays]
      exact fun j inside small => ⟨j, inside, small, rfl⟩
  | case3 data i outer =>
      rw [adjust, dif_neg outer]
      exact fun j inside small => ⟨j, inside, small, rfl⟩

end Frame

/-! ### Building and replacing -/

section Results

variable {Key : Type} [LinearOrder Key] {cmpfunc : Element → Element → Int} {key : Element → Key}

theorem ordered_adjustAll (compares : Compares cmpfunc key) {data : Vector Element n} {i : Nat}
    (ordered : Ordered key data (i + 1) (2 * (n / 2))) :
    Ordered key (adjustAll cmpfunc data i) 0 (2 * (n / 2)) := by
  have start {data : Vector Element n} {i : Nat}
      (ordered : Ordered key data (i + 1) (2 * (n / 2))) :
      OrderedExcept key data i (2 * (n / 2)) i := by
    refine ⟨?_, fun j inside _ _ positive above => absurd above (by omega)⟩
    intro j inside positive small above other
    exact ordered j inside positive small (by omega)
  induction i generalizing data with
  | zero => exact ordered_adjust compares le_rfl le_rfl (start ordered)
  | succ i ih => exact ih (ordered_adjust compares le_rfl le_rfl (start ordered))

/-- The constructor puts all elements in order that `Adjust` compares. -/
theorem ordered_new (compares : Compares cmpfunc key) (data : Vector Element n) :
    Ordered key (new cmpfunc data) 0 (2 * (n / 2)) := by
  apply ordered_adjustAll compares
  intro j inside positive small above
  omega

theorem perm_new (cmpfunc : Element → Element → Int) (data : Vector Element n) :
    (new cmpfunc data).Perm data := by
  rw [new]
  generalize n / 2 = i
  induction i generalizing data with
  | zero => exact perm_adjust ..
  | succ i ih => exact (ih _).trans (perm_adjust ..)

/-- The constructor leaves an odd last element alone. -/
theorem getElem_new (cmpfunc : Element → Element → Int) (data : Vector Element n) {j : Nat}
    (inside : j < n) (behind : 2 * (n / 2) ≤ j) : (new cmpfunc data)[j] = data[j] := by
  have all (i : Nat) (data : Vector Element n) : (adjustAll cmpfunc data i)[j] = data[j] := by
    induction i generalizing data with
    | zero => exact getElem_adjust _ _ _ _ inside behind
    | succ i ih => exact (ih _).trans (getElem_adjust _ _ _ _ inside behind)
  exact all _ _

theorem ordered_setop (compares : Compares cmpfunc key) {data : Vector Element n}
    (nonempty : 0 < n) (element : Element) (ordered : Ordered key data 0 (2 * (n / 2))) :
    Ordered key (setop cmpfunc data nonempty element) 0 (2 * (n / 2)) := by
  rw [setop]
  split
  · exact ordered
  · apply ordered_adjust compares le_rfl le_rfl
    apply ordered.replace le_rfl
    intro j inside positive _
    exact Vector.getElem_set_ne _ _ (by omega)

/-- The compared elements are those of a selection of the smallest: none of them is larger than
an element that was left out. -/
structure Selection (key : Element → Key) (data : Vector Element n) (dropped all : List Element) :
    Prop where
  ordered : Ordered key data 0 (2 * (n / 2))
  perm : (data.toList ++ dropped).Perm all
  low : ∀ j (_ : j < n), j < 2 * (n / 2) → ∀ element ∈ dropped, key data[j] ≤ key element

/-- Replacing the root exchanges two elements. -/
theorem perm_set (data : Vector Element n) (nonempty : 0 < n) (element : Element) :
    ((data.set 0 element).toList ++ [data[0]]).Perm (data.toList ++ [element]) := by
  have all (list : List Element) (present : 0 < list.length) :
      (list.set 0 element ++ [list[0]]).Perm (list ++ [element]) := by
    cases list with
    | nil => cases present
    | cons first rest =>
        exact ((List.perm_append_singleton ..).cons _).trans
          ((List.Perm.swap ..).trans ((List.perm_append_singleton ..).symm.cons _))
  rw [Vector.toList_set, ← Vector.getElem_toList]
  exact all data.toList (by rwa [Vector.length_toList])

open scoped List in
/-- One more element keeps the selection. -/
theorem Selection.setop (compares : Compares cmpfunc key) {data : Vector Element n}
    {dropped all : List Element} (selection : Selection key data dropped all) (several : 1 < n)
    (element : Element) :
    ∃ dropped', Selection key (setop cmpfunc data (Nat.zero_lt_of_lt several) element) dropped'
      (all ++ [element]) := by
  have ordered := ordered_setop compares (Nat.zero_lt_of_lt several) element selection.ordered
  by_cases larger : key data[0] < key element
  · have same : Heap.setop cmpfunc data (Nat.zero_lt_of_lt several) element = data := by
      rw [Heap.setop, compares, if_pos larger, if_pos (by decide)]
    refine ⟨dropped ++ [element], ordered, ?_, ?_⟩
    · rw [same, ← List.append_assoc]
      exact selection.perm.append_right _
    · rw [same]
      intro j inside small other member
      rcases List.mem_append.mp member with earlier | new
      · exact selection.low j inside small other earlier
      · rw [List.mem_singleton.mp new]
        exact (selection.ordered.le_root inside small).trans larger.le
  · have replaced : Heap.setop cmpfunc data (Nat.zero_lt_of_lt several) element =
        adjust cmpfunc (data.set 0 element) 0 n le_rfl := by
      rw [Heap.setop, compares, if_neg larger, if_neg (by decide)]
    refine ⟨dropped ++ [data[0]], ordered, ?_, ?_⟩
    · rw [replaced]
      calc (adjust cmpfunc (data.set 0 element) 0 n le_rfl).toList ++ (dropped ++ [data[0]])
        _ ~ (data.set 0 element).toList ++ (dropped ++ [data[0]]) :=
          (perm_adjust ..).toList.append_right _
        _ ~ (data.set 0 element).toList ++ ([data[0]] ++ dropped) :=
          List.perm_append_comm.append_left _
        _ = (data.set 0 element).toList ++ [data[0]] ++ dropped := (List.append_assoc ..).symm
        _ ~ data.toList ++ [element] ++ dropped :=
          (perm_set data (Nat.zero_lt_of_lt several) element).append_right _
        _ = data.toList ++ ([element] ++ dropped) := List.append_assoc ..
        _ ~ data.toList ++ (dropped ++ [element]) := List.perm_append_comm.append_left _
        _ = data.toList ++ dropped ++ [element] := (List.append_assoc ..).symm
        _ ~ all ++ [element] := selection.perm.append_right _
    · rw [replaced]
      have bounded := forall_adjust cmpfunc (fun other => key other ≤ key data[0])
        (data.set 0 element) 0 (le_refl n) le_rfl (by
          intro j inside small
          by_cases root : j = 0
          · subst root
            rw [Vector.getElem_set_self]
            exact not_lt.mp larger
          · rw [Vector.getElem_set_ne _ _ (Ne.symm root)]
            exact selection.ordered.le_root inside small)
      intro j inside small other member
      apply (bounded j inside small).trans
      rcases List.mem_append.mp member with earlier | new
      · exact selection.low 0 _ (by omega) other earlier
      · rw [List.mem_singleton.mp new]

/-- `Setop` leaves an odd last element alone. -/
theorem getElem_setop (cmpfunc : Element → Element → Int) (data : Vector Element n)
    (several : 1 < n) (element : Element) {j : Nat} (inside : j < n) (behind : 2 * (n / 2) ≤ j) :
    (setop cmpfunc data (Nat.zero_lt_of_lt several) element)[j] = data[j] := by
  by_cases larger : cmpfunc element data[0] > 0
  · rw [setop, if_pos larger]
  · rw [setop, if_neg larger, getElem_adjust _ _ _ _ inside behind]
    exact Vector.getElem_set_ne _ _ (by omega)

/-- A heap into which elements are put selects the smallest of its own and the new ones. -/
theorem exists_selection (compares : Compares cmpfunc key) (several : 1 < n)
    (data : Vector Element n) (ordered : Ordered key data 0 (2 * (n / 2)))
    (rest : List Element) :
    ∃ dropped, Selection key
      (rest.foldl (fun data => setop cmpfunc data (Nat.zero_lt_of_lt several)) data) dropped
      (data.toList ++ rest) := by
  induction rest using List.reverseRecOn with
  | nil =>
      rw [List.append_nil, List.foldl_nil]
      exact ⟨[], ordered, (List.append_nil _).symm ▸ .refl _, nofun⟩
  | append_singleton rest element ih =>
      obtain ⟨dropped, selection⟩ := ih
      rw [List.foldl_concat, ← List.append_assoc]
      exact selection.setop compares several element

theorem getElem_foldl_setop (cmpfunc : Element → Element → Int) (several : 1 < n)
    (data : Vector Element n) (rest : List Element) {j : Nat} (inside : j < n)
    (behind : 2 * (n / 2) ≤ j) :
    (rest.foldl (fun data => setop cmpfunc data (Nat.zero_lt_of_lt several)) data)[j] =
      data[j] := by
  induction rest generalizing data with
  | nil => rfl
  | cons element rest ih =>
      rw [List.foldl_cons, ih, getElem_setop cmpfunc data several element inside behind]

/-- A heap of one element keeps a smallest one of those that are put into it. -/
theorem exists_least (compares : Compares cmpfunc key) (data : Vector Element 1)
    (rest : List Element) :
    ∃ least, rest.foldl (fun data => setop cmpfunc data Nat.one_pos) data = #v[least] ∧
      least ∈ data[0] :: rest ∧ ∀ element ∈ data[0] :: rest, key least ≤ key element := by
  have single (data : Vector Element 1) : data = #v[data[0]] := by
    ext j inside
    obtain rfl := Nat.lt_one_iff.mp inside
    rfl
  induction rest using List.reverseRecOn with
  | nil =>
      refine ⟨data[0], single data, List.mem_cons_self, fun element member => ?_⟩
      rw [List.mem_singleton.mp member]
  | append_singleton rest last ih =>
      obtain ⟨least, folded, member, low⟩ := ih
      rw [List.foldl_append, folded, List.foldl_cons, List.foldl_nil, ← List.cons_append, setop]
      have root : (#v[least] : Vector Element 1)[0] = least := rfl
      rw [root, compares]
      by_cases larger : key least < key last
      · rw [if_pos larger, if_pos (by decide)]
        refine ⟨least, rfl, List.mem_append_left _ member, fun element among => ?_⟩
        rcases List.mem_append.mp among with earlier | new
        · exact low element earlier
        · rw [List.mem_singleton.mp new]
          exact larger.le
      · rw [if_neg larger, if_neg (by decide), adjust, dif_neg (by decide)]
        refine ⟨last, single _, List.mem_append_right _ List.mem_cons_self, fun element among => ?_⟩
        rcases List.mem_append.mp among with earlier | new
        · exact (not_lt.mp larger).trans (low element earlier)
        · rw [List.mem_singleton.mp new]

/-! ### Sorting -/

/-- The elements below `size` are in order under the largest of them, and those from `size`
to `top` are sorted and not smaller. -/
structure Sifted (key : Element → Key) (data : Vector Element n) (size top : Nat) : Prop where
  ordered : Ordered key data 0 (2 * (size / 2))
  root : ∀ j (_ : j < n), j < size → key data[j] ≤ key data[0]
  sorted : ∀ i j (_ : j < n) (_ : i ≤ j), size ≤ j → j < top → key data[i] ≤ key data[j]

/-- The largest element moves behind the others. -/
theorem sifted_step (compares : Compares cmpfunc key) {data : Vector Element n} {i : Nat}
    (top : Nat) (inside : i + 1 < n) (ordered : Ordered key data 0 (2 * ((i + 2) / 2)))
    (sorted : ∀ first second (_ : second < n) (_ : first ≤ second), i + 1 ≤ second → second < top →
      key (data.swap 0 (i + 1))[first] ≤ key (data.swap 0 (i + 1))[second]) :
    Sifted key (adjust cmpfunc (data.swap 0 (i + 1)) 0 (i + 1) (Nat.le_of_lt inside)) (i + 1)
      top := by
  have kept {j : Nat} (_ : j < n) (positive : j ≠ 0) (small : j ≠ i + 1) :
      (data.swap 0 (i + 1))[j] = data[j] := Vector.getElem_swap_of_ne positive small
  have ordered' : Ordered key (adjust cmpfunc (data.swap 0 (i + 1)) 0 (i + 1)
      (Nat.le_of_lt inside)) 0 (2 * ((i + 1) / 2)) :=
    ordered_adjust compares _ le_rfl (ordered.replace (by omega) fun j bound positive small =>
      kept bound (by omega) (by omega))
  refine ⟨ordered', ?_, ?_⟩
  · intro j bound small
    by_cases compared : j < 2 * ((i + 1) / 2)
    · exact ordered'.le_root bound compared
    · by_cases root : j = 0
      · subst root
        exact le_rfl
      · -- the last of an odd number of elements was below the node 1, which is still there
        obtain ⟨first, inside', small', same⟩ := exists_adjust cmpfunc (data.swap 0 (i + 1)) 0
          (Nat.le_of_lt inside) 1 (by omega) (by omega)
        rw [getElem_adjust _ _ _ _ bound (by omega), kept bound root (by omega)]
        calc key data[j] ≤ key data[1] := ordered.le_first bound (by omega) (by omega)
          _ = key _ := by rw [same, kept _ (by omega) (by omega)]
          _ ≤ _ := ordered'.le_root inside' small'
  · intro first second bound before behind small
    rw [getElem_adjust _ _ _ _ bound (by omega)]
    by_cases sifted : first < i + 1
    · exact forall_adjust cmpfunc (fun element => key element ≤ key _) _ 0 _
        (by omega) (fun j _ less => sorted j second bound (by omega) behind small) first (by omega)
        sifted
    · rw [getElem_adjust _ _ _ _ _ (by omega)]
      exact sorted first second bound before behind small

/-- The loop sorts the elements below `top` and leaves the others alone. -/
theorem sorted_sortFrom (compares : Compares cmpfunc key) {data : Vector Element n} {i top : Nat}
    (inside : i < n) (below : i < top) (sifted : Sifted key data (i + 1) top) :
    (∀ first second (_ : second < n) (_ : first ≤ second), second < top →
      key (sortFrom cmpfunc data i inside)[first] ≤ key (sortFrom cmpfunc data i inside)[second]) ∧
    ∀ j (_ : j < n), top ≤ j → (sortFrom cmpfunc data i inside)[j] = data[j] := by
  induction i generalizing data with
  | zero =>
      refine ⟨?_, fun j _ _ => rfl⟩
      intro first second bound before small
      by_cases start : second = 0
      · subst start
        obtain rfl : first = 0 := by omega
        exact le_rfl
      · exact sifted.sorted first second bound before (by omega) small
  | succ i ih =>
      have step : Sifted key (adjust cmpfunc (data.swap 0 (i + 1)) 0 (i + 1)
          (Nat.le_of_lt inside)) (i + 1) top := by
        apply sifted_step compares _ inside sifted.ordered
        intro first second bound before behind small
        have swapped (j : Nat) (bound : j < n) : (data.swap 0 (i + 1))[j] =
            if j = 0 then data[i + 1] else if j = i + 1 then data[0] else data[j] :=
          Vector.getElem_swap ..
        rw [swapped, swapped, if_neg (show second ≠ 0 by omega)]
        by_cases last : second = i + 1
        · -- the old root, which no element before it exceeds
          rw [if_pos last]
          split
          · exact sifted.root _ _ (by omega)
          · split
            · exact le_rfl
            · exact sifted.root _ _ (by omega)
        · rw [if_neg last]
          split
          · exact sifted.sorted _ _ bound (by omega) (by omega) small
          · split
            · exact sifted.sorted _ _ bound (by omega) (by omega) small
            · exact sifted.sorted _ _ bound before (by omega) small
      obtain ⟨sorted, rest⟩ := ih (by omega) (by omega) step
      refine ⟨sorted, fun j bound outside => ?_⟩
      rw [sortFrom, rest j bound outside, getElem_adjust _ _ _ _ bound (by omega)]
      exact Vector.getElem_swap_of_ne (by omega) (by omega)

/-- **Sorting.** A heap is sorted when an odd last element, with which nothing was compared,
is not larger than the root. -/
theorem sorted_sort (compares : Compares cmpfunc key) {data : Vector Element n}
    (ordered : Ordered key data 0 (2 * (n / 2)))
    (last : ∀ j (_ : j < n), 2 * (n / 2) ≤ j → key data[j] ≤ key data[0]) :
    ∀ first second (_ : second < n) (_ : first ≤ second),
      key (sort cmpfunc data)[first] ≤ key (sort cmpfunc data)[second] := by
  intro first second bound before
  have nonempty : 0 < n := by omega
  have sifted : Sifted key data (n - 1 + 1) n := by
    rw [Nat.sub_add_cancel nonempty]
    refine ⟨ordered, fun j inside _ => ?_, fun _ _ bound _ behind _ => by omega⟩
    by_cases compared : j < 2 * (n / 2)
    · exact ordered.le_root inside compared
    · exact last j inside (not_lt.mp compared)
  rw [sort, dif_pos nonempty]
  exact (sorted_sortFrom compares (Nat.sub_one_lt_of_lt nonempty) (Nat.sub_one_lt_of_lt nonempty)
    sifted).1 first second bound before bound

/-- **Sorting an odd number of elements.** The root comes last, and the other elements are
sorted. -/
theorem sorted_sort_odd (compares : Compares cmpfunc key) {data : Vector Element n}
    (odd : n % 2 = 1) (several : 1 < n) (ordered : Ordered key data 0 (2 * (n / 2))) :
    (∀ first second (_ : second < n) (_ : first ≤ second), second < n - 1 →
      key (sort cmpfunc data)[first] ≤ key (sort cmpfunc data)[second]) ∧
    (sort cmpfunc data)[n - 1] = data[0] := by
  obtain ⟨i, rfl⟩ : ∃ i, n = i + 2 := ⟨n - 2, by omega⟩
  have step := sifted_step compares (i + 1) (show i + 1 < i + 2 by omega) ordered
    fun _ _ _ _ _ _ => by omega
  obtain ⟨sorted, rest⟩ := sorted_sortFrom compares (show i < i + 2 by omega)
    (show i < i + 1 by omega) step
  have unfolded : sort cmpfunc data = sortFrom cmpfunc (adjust cmpfunc (data.swap 0 (i + 1)) 0
      (i + 1) (by omega)) i (by omega) := by
    rw [sort, dif_pos (by omega)]
    rfl
  rw [unfolded]
  have moved := getElem_adjust cmpfunc (data.swap 0 (i + 1)) 0 (show i + 1 ≤ i + 2 by omega)
    (show i + 1 < i + 2 by omega) (by omega)
  exact ⟨sorted, (rest (i + 1) _ le_rfl).trans (moved.trans (Vector.getElem_swap_right ..))⟩

theorem perm_sort (cmpfunc : Element → Element → Int) (data : Vector Element n) :
    (sort cmpfunc data).Perm data := by
  have all (i : Nat) (inside : i < n) (data : Vector Element n) :
      (sortFrom cmpfunc data i inside).Perm data := by
    induction i generalizing data with
    | zero => exact .refl _
    | succ i ih => exact (ih _ _).trans ((perm_adjust ..).trans (Vector.swap_perm ..))
  rw [sort]
  split
  · exact all _ _ data
  · exact .refl _

end Results

end LogProcess.Heap
