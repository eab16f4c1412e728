import LogProcess.Common.Heap
import LogProcess.Foundation.Runs

/-! # The heap on machine integers

The functions of `common/heap.h` and `common/heap_func.h` with indices that are wrapping 32-bit
integers, with their comparisons against sizes, and with checked accesses to the elements. No
function leaves the data or loses an element, whatever the comparison answers
(`IntHeap.conserves`). Up to `2 ^ 31` elements they are the functions on natural indices
(`IntHeap.new_toList`, `IntHeap.setop_toList`, `IntHeap.sort_toList`).
-/

namespace LogProcess.IntHeap

variable {Element : Type}

/-! ### The functions -/

/-- `i < size` for an `int` and a `size_t`. A negative `int` becomes a number that no vector is
as large as. -/
def below (i : BitVec 32) (size : Nat) : Bool := 0 ≤ i.toInt ∧ i.toInt < size

/-- `data[i]`, without a result outside the data. -/
def read (data : List Element) (i : BitVec 32) : Option Element :=
  if below i data.length then data[i.toNat]? else none

/-- An assignment to `data[i]`. -/
def write (data : List Element) (i : BitVec 32) (element : Element) : Option (List Element) :=
  if below i data.length then some (data.set i.toNat element) else none

def left (i : BitVec 32) : BitVec 32 := i * 2#32

def right (i : BitVec 32) : BitVec 32 := i * 2#32 + 1#32

def swap (data : List Element) (i j : BitVec 32) : Option (List Element) := do
  let tmp ← read data i
  let data ← write data i (← read data j)
  write data j tmp

section Model

variable (cmpfunc : Element → Element → Int)

/-- One comparison of `Adjust`. -/
def pick (data : List Element) (size : Nat) (max child : BitVec 32) : Option (BitVec 32) :=
  if below child size then do
    let first ← read data max
    let second ← read data child
    some (if cmpfunc first second = 0 then child else max)
  else
    some max

/-- The `max` of `Adjust`. -/
def largest (data : List Element) (i : BitVec 32) (size : Nat) : Option (BitVec 32) := do
  let _cur ← read data i
  let max ← pick cmpfunc data size i (left i)
  pick cmpfunc data size max (right i)

end Model

/-! ### Indices -/

theorem below_iff {i : BitVec 32} {size : Nat} :
    below i size = true ↔ i.toNat < 2 ^ 31 ∧ i.toNat < size := by
  rw [below, decide_eq_true_eq, BitVec.toInt_eq_toNat_cond]
  have bound := i.isLt
  split <;> omega

theorem toNat_left {i : BitVec 32} (small : i.toNat < 2 ^ 31) : (left i).toNat = i.toNat * 2 := by
  rw [left, BitVec.toNat_mul, BitVec.toNat_ofNat]
  omega

theorem toNat_right {i : BitVec 32} (small : i.toNat < 2 ^ 31) :
    (right i).toNat = i.toNat * 2 + 1 := by
  rw [right, BitVec.toNat_add, BitVec.toNat_mul, BitVec.toNat_ofNat, BitVec.toNat_ofNat]
  omega

theorem read_eq {data : List Element} {i : BitVec 32} (inside : below i data.length = true)
    (bounded : i.toNat < data.length) : read data i = some data[i.toNat] := by
  rw [read, if_pos inside, List.getElem?_eq_getElem]

theorem below.mono {i : BitVec 32} {size size' : Nat} (inside : below i size = true)
    (wider : size ≤ size') : below i size' = true := by
  rw [below_iff] at inside ⊢
  exact ⟨inside.1, inside.2.trans_le wider⟩

section Largest

variable {cmpfunc : Element → Element → Int} {data : List Element} {i : BitVec 32} {size : Nat}

theorem pick_eq {max child picked : BitVec 32}
    (chosen : pick cmpfunc data size max child = some picked) :
    picked = max ∨ picked = child ∧ below child size = true := by
  rw [pick] at chosen
  split at chosen
  · rename_i inside
    simp only [Option.bind_eq_bind, Option.bind_eq_some_iff, Option.some.injEq] at chosen
    obtain ⟨_, _, _, _, rfl⟩ := chosen
    split
    · exact .inr ⟨rfl, inside⟩
    · exact .inl rfl
  · exact .inl (Option.some.inj chosen).symm

/-- The selected node is the node itself or a child below `size`. -/
theorem largest_eq {max : BitVec 32} (chosen : largest cmpfunc data i size = some max) :
    max = i ∨ max = left i ∧ below (left i) size = true ∨
      max = right i ∧ below (right i) size = true := by
  rw [largest] at chosen
  simp only [Option.bind_eq_bind, Option.bind_eq_some_iff] at chosen
  obtain ⟨_, _, between, first, second⟩ := chosen
  rcases pick_eq second with rfl | child
  · exact (pick_eq first).imp_right .inl
  · exact .inr (.inr child)

/-- Another node than the node itself is behind it. -/
theorem lt_of_largest {max : BitVec 32} (inner : below i (size / 2) = true)
    (chosen : largest cmpfunc data i size = some max) (moved : max ≠ i) :
    i.toNat < max.toNat ∧ below max size = true := by
  have small := below_iff.mp inner
  rcases largest_eq chosen with rfl | ⟨rfl, inside⟩ | ⟨rfl, inside⟩
  · exact absurd rfl moved
  · refine ⟨?_, inside⟩
    rw [toNat_left small.1]
    have different : i.toNat ≠ 0 := by
      intro root
      apply moved
      apply BitVec.eq_of_toNat_eq
      rw [toNat_left small.1, root]
    omega
  · refine ⟨?_, inside⟩
    rw [toNat_right small.1]
    omega

end Largest

section Model

variable (cmpfunc : Element → Element → Int)

def adjust (data : List Element) (i : BitVec 32) (size : Nat) : Option (List Element) :=
  if _ : below i (size / 2) = true then
    match _ : largest cmpfunc data i size with
    | none => none
    | some max =>
        if _ : max ≠ i then
          (swap data max i).bind fun data => adjust data max size
        else
          some data
  else
    some data
termination_by size - i.toNat
decreasing_by
  have behind : i.toNat < max.toNat ∧ below max size = true := by
    apply lt_of_largest <;> assumption
  have bound := (below_iff.mp behind.2).2
  omega

/-- The loop of the constructor over the indices below `count`, from the last one. -/
def adjustAll (data : List Element) : Nat → Option (List Element)
  | 0 => some data
  | i + 1 => (adjust cmpfunc data (BitVec.ofNat 32 i) data.length).bind (adjustAll · i)

/-- The constructor. The loop starts at half the size as an `int`, and does not run when that is
negative. -/
def new (data : List Element) : Option (List Element) :=
  adjustAll cmpfunc data ((BitVec.ofNat 32 (data.length / 2)).toInt + 1).toNat

/-- `Init`, which clears the old elements. -/
def init (_old data : List Element) : Option (List Element) :=
  adjustAll cmpfunc data ((BitVec.ofNat 32 (data.length / 2)).toInt + 1).toNat

def setop (data : List Element) (element : Element) : Option (List Element) := do
  if cmpfunc element (← read data 0#32) > 0 then
    some data
  else
    let data ← write data 0#32 element
    adjust cmpfunc data 0#32 data.length

def getop (data : List Element) : Option Element := read data 0#32

/-- The loop of `Sort` from the index `i` on. -/
def sortFrom (data : List Element) : Nat → Option (List Element)
  | 0 => some data
  | i + 1 => do
      let data ← swap data 0#32 (BitVec.ofNat 32 (i + 1))
      let data ← adjust cmpfunc data 0#32 (i + 1)
      sortFrom data i

/-- `Sort`. The loop starts at the last index as an `int`, and does not run when that is not
positive. -/
def sort (data : List Element) : Option (List Element) :=
  sortFrom cmpfunc data (BitVec.ofNat 32 data.length - 1).toInt.toNat

def getData (data : List Element) : List Element := data

/-- Some calls of `Sort`. -/
def sortTimes (data : List Element) : Nat → Option (List Element)
  | 0 => some data
  | times + 1 => (sort cmpfunc data).bind (sortTimes · times)

/-- Constructing a heap, then calls of `Setop`, calls of `Sort`, and `GetData`. -/
def run (initial pushed : List Element) (sorts : Nat) : Option (List Element) := do
  let data ← new cmpfunc initial
  let data ← pushed.foldlM (setop cmpfunc) data
  let data ← sortTimes cmpfunc data sorts
  some (getData data)

end Model

/-! ### Nothing is lost -/

section Conservation

variable (cmpfunc : Element → Element → Int) {data : List Element}

/-- Swapping two elements rearranges them. -/
theorem exists_swap {i j : BitVec 32} (first : below i data.length = true)
    (second : below j data.length = true) :
    ∃ next, swap data i j = some next ∧ next.Perm data := by
  have kept (element : Element) : below j (data.set i.toNat element).length = true := by
    rwa [List.length_set]
  have bounded := (below_iff.mp first).2
  have bounded' := (below_iff.mp second).2
  refine ⟨_, ?_, List.set_set_perm bounded bounded'⟩
  simp only [swap, read_eq first bounded, read_eq second bounded', write, first, kept,
    Option.bind_eq_bind, Option.bind_some, ↓reduceIte]

theorem exists_pick {size : Nat} {max : BitVec 32} (bounded : size ≤ data.length)
    (inside : below max data.length = true) (child : BitVec 32) :
    ∃ picked, pick cmpfunc data size max child = some picked ∧
      below picked data.length = true := by
  rw [pick]
  split
  · rename_i small
    have inside' := below.mono small bounded
    rw [read_eq inside (below_iff.mp inside).2, read_eq inside' (below_iff.mp inside').2]
    refine ⟨_, rfl, ?_⟩
    split
    · exact inside'
    · exact inside
  · exact ⟨max, rfl, inside⟩

theorem exists_largest {size : Nat} {i : BitVec 32} (bounded : size ≤ data.length)
    (inside : below i data.length = true) :
    ∃ max, largest cmpfunc data i size = some max ∧ below max data.length = true := by
  obtain ⟨between, first, inside'⟩ := exists_pick cmpfunc bounded inside (left i)
  obtain ⟨max, second, inside''⟩ := exists_pick cmpfunc bounded inside' (right i)
  refine ⟨max, ?_, inside''⟩
  simp only [largest, read_eq inside (below_iff.mp inside).2, first, second, Option.bind_eq_bind,
    Option.bind_some]

theorem adjust_eq {i max : BitVec 32} {size : Nat} (inner : below i (size / 2) = true)
    (chosen : largest cmpfunc data i size = some max) :
    adjust cmpfunc data i size =
      if max ≠ i then (swap data max i).bind fun data => adjust cmpfunc data max size
      else some data := by
  rw [adjust, dif_pos inner]
  split
  · rename_i fails
    rw [fails] at chosen
    cases chosen
  · rename_i other chosen'
    obtain rfl := Option.some.inj (chosen.symm.trans chosen')
    rw [dite_eq_ite]

/-- `Adjust` stays inside the data and rearranges it. -/
theorem exists_adjust {size : Nat} (bounded : size ≤ data.length) (i : BitVec 32) :
    ∃ next, adjust cmpfunc data i size = some next ∧ next.Perm data := by
  have covers := (Nat.div_le_self size 2).trans bounded
  induction data, i using adjust.induct cmpfunc size with
  | case1 data i inner fails =>
      obtain ⟨max, chosen, _⟩ := exists_largest cmpfunc bounded
        (below.mono inner covers)
      rw [fails] at chosen
      cases chosen
  | case2 data i inner max chosen moved ih =>
      have inside := below.mono inner covers
      obtain ⟨_, chosen', inside'⟩ := exists_largest cmpfunc bounded inside
      obtain rfl := Option.some.inj (chosen.symm.trans chosen')
      obtain ⟨swapped, exchanged, perm⟩ := exists_swap inside' inside
      rw [← perm.length_eq] at bounded covers
      obtain ⟨next, adjusted, perm'⟩ := ih swapped bounded covers
      refine ⟨next, ?_, perm'.trans perm⟩
      rw [adjust_eq cmpfunc inner chosen, if_pos moved, exchanged, Option.bind_some, adjusted]
  | case3 data i inner max chosen stays =>
      exact ⟨data, by rw [adjust_eq cmpfunc inner chosen, if_neg stays], .refl data⟩
  | case4 data i outer =>
      exact ⟨data, by rw [adjust, dif_neg outer], .refl data⟩

theorem exists_adjustAll (data : List Element) (count : Nat) :
    ∃ next, adjustAll cmpfunc data count = some next ∧ next.Perm data := by
  induction count generalizing data with
  | zero => exact ⟨data, rfl, .refl data⟩
  | succ i ih =>
      obtain ⟨adjusted, ran, perm⟩ := exists_adjust cmpfunc (le_refl data.length)
        (BitVec.ofNat 32 i)
      obtain ⟨next, ran', perm'⟩ := ih adjusted
      exact ⟨next, by rw [adjustAll, ran, Option.bind_some, ran'], perm'.trans perm⟩

theorem below_zero (nonempty : 0 < data.length) : below 0#32 data.length = true :=
  below_iff.mpr ⟨Nat.two_pow_pos 31, nonempty⟩

theorem getop_eq (nonempty : 0 < data.length) : getop data = some data[0] :=
  read_eq (below_zero nonempty) nonempty

/-- `Setop` drops the new element, or replaces the top by it. -/
theorem exists_setop (nonempty : 0 < data.length) (element : Element) :
    ∃ next, setop cmpfunc data element = some next ∧
      (next.Perm data ∨ next.Perm (element :: data.tail)) := by
  rw [setop, read_eq (below_zero nonempty) nonempty]
  simp only [Option.bind_eq_bind, Option.bind_some]
  split
  · exact ⟨data, rfl, .inl (.refl data)⟩
  · obtain ⟨next, adjusted, perm⟩ := exists_adjust cmpfunc
      (le_refl (data.set 0 element).length) 0#32
    refine ⟨next, ?_, .inr (perm.trans ?_)⟩
    · rw [write, if_pos (below_zero nonempty), Option.bind_some]
      exact adjusted
    · cases data with
      | nil => cases nonempty
      | cons top rest => exact .refl _

theorem exists_sortFrom {i : Nat} (small : i < 2 ^ 31) (inside : i < data.length) :
    ∃ next, sortFrom cmpfunc data i = some next ∧ next.Perm data := by
  induction i generalizing data with
  | zero => exact ⟨data, rfl, .refl data⟩
  | succ i ih =>
      have last : below (BitVec.ofNat 32 (i + 1)) data.length = true := by
        rw [below_iff, BitVec.toNat_ofNat, Nat.mod_eq_of_lt (by omega)]
        exact ⟨small, inside⟩
      obtain ⟨swapped, exchanged, perm⟩ := exists_swap (below_zero (Nat.zero_lt_of_lt inside)) last
      obtain ⟨adjusted, ran, perm'⟩ := exists_adjust cmpfunc
        (perm.length_eq ▸ inside.le) 0#32
      have all := perm'.trans perm
      obtain ⟨next, ran', perm''⟩ := ih (Nat.lt_of_succ_lt small)
        (all.length_eq ▸ Nat.lt_of_succ_lt inside)
      refine ⟨next, ?_, perm''.trans all⟩
      simp only [sortFrom, exchanged, ran, ran', Option.bind_eq_bind, Option.bind_some]

/-- The index at which `Sort` starts. -/
theorem toNat_last_lt (data : List Element) :
    (BitVec.ofNat 32 data.length - 1).toInt.toNat < 2 ^ 31 ∧
    (0 < (BitVec.ofNat 32 data.length - 1).toInt.toNat →
      (BitVec.ofNat 32 data.length - 1).toInt.toNat < data.length) := by
  rw [BitVec.toInt_eq_toNat_cond, BitVec.toNat_sub, BitVec.toNat_ofNat]
  have one : (1 : BitVec 32).toNat = 1 := rfl
  rw [one]
  split <;> omega

theorem exists_sort (data : List Element) :
    ∃ next, sort cmpfunc data = some next ∧ next.Perm data := by
  obtain ⟨small, inside⟩ := toNat_last_lt data
  rw [sort]
  by_cases runs : 0 < (BitVec.ofNat 32 data.length - 1).toInt.toNat
  · exact exists_sortFrom cmpfunc small (inside runs)
  · rw [Nat.eq_zero_of_not_pos runs]
    exact ⟨data, rfl, .refl data⟩

/-- What a heap holds after some elements were put into it. -/
structure Holds (initial pushed data : List Element) : Prop where
  size : data.length = initial.length
  sub : data.Subperm (initial ++ pushed)

variable {initial pushed : List Element}

theorem Holds.perm {next : List Element} (holds : Holds initial pushed data)
    (perm : next.Perm data) : Holds initial pushed next :=
  ⟨perm.length_eq.trans holds.size, perm.subperm.trans holds.sub⟩

/-- One `Setop` keeps the size, and adds the new element at most. -/
theorem Holds.setop (holds : Holds initial pushed data) (nonempty : 0 < initial.length)
    (element : Element) :
    ∃ next, IntHeap.setop cmpfunc data element = some next ∧
      Holds initial (pushed ++ [element]) next := by
  have present : 0 < data.length := holds.size.symm ▸ nonempty
  have wider : (initial ++ pushed).Sublist (initial ++ (pushed ++ [element])) :=
    (List.sublist_append_left pushed [element]).append_left initial
  obtain ⟨next, ran, same | replaced⟩ := exists_setop cmpfunc present element
  · exact ⟨next, ran, (Holds.mk holds.size (holds.sub.trans wider.subperm)).perm same⟩
  · refine ⟨next, ran, ?_, ?_⟩
    · rw [replaced.length_eq, List.length_cons, List.length_tail, ← holds.size]
      exact Nat.sub_add_cancel present
    · have rest := (List.tail_sublist data).subperm.trans holds.sub
      have added := (List.subperm_cons element).mpr rest
      rw [← List.append_assoc]
      exact replaced.subperm.trans (added.trans (List.perm_append_singleton ..).symm.subperm)

theorem Holds.foldlM_setop (holds : Holds initial [] data) (nonempty : 0 < initial.length)
    (pushed : List Element) :
    ∃ next, pushed.foldlM (IntHeap.setop cmpfunc) data = some next ∧
      Holds initial pushed next :=
  Runs.exists_run_of_actions (Holds initial)
    (fun element holds _ => holds.setop cmpfunc nonempty element) holds fun _ _ => trivial

theorem Holds.sortTimes (holds : Holds initial pushed data) (sorts : Nat) :
    ∃ next, IntHeap.sortTimes cmpfunc data sorts = some next ∧ Holds initial pushed next := by
  induction sorts generalizing data with
  | zero => exact ⟨data, rfl, holds⟩
  | succ sorts ih =>
      obtain ⟨sorted, ran, perm⟩ := exists_sort cmpfunc data
      obtain ⟨next, ran', holds⟩ := ih (holds.perm perm)
      exact ⟨next, by rw [IntHeap.sortTimes, ran, Option.bind_some, ran'], holds⟩

/-- **The heap conserves its elements.** Whatever the comparison answers, no operation leaves
the data. The constructor, `Init` and `Sort` rearrange it, a `Setop` rearranges it or replaces
the top, and in the end the data is part of the initial and the new elements. -/
theorem conserves (nonempty : initial ≠ []) (pushed : List Element) (sorts : Nat) :
    (∃ data, new cmpfunc initial = some data ∧ data.Perm initial) ∧
    (∀ old, ∃ data, init cmpfunc old initial = some data ∧ data.Perm initial) ∧
    (∀ data : List Element, ∃ next, sort cmpfunc data = some next ∧ next.Perm data) ∧
    (∀ data : List Element, data.length = initial.length → ∀ element, ∃ top next,
      getop data = some top ∧ IntHeap.setop cmpfunc data element = some next ∧
        next.length = data.length ∧ (next.Perm data ∨ (top :: next).Perm (element :: data))) ∧
    ∃ final, run cmpfunc initial pushed sorts = some final ∧ final.length = initial.length ∧
      final.Subperm (initial ++ pushed) := by
  have present : 0 < initial.length := List.length_pos_iff.mpr nonempty
  obtain ⟨built, constructed, perm⟩ := exists_adjustAll cmpfunc initial
    ((BitVec.ofNat 32 (initial.length / 2)).toInt + 1).toNat
  refine ⟨⟨built, constructed, perm⟩, fun _ => ⟨built, constructed, perm⟩, exists_sort cmpfunc,
    fun data size element => ?_, ?_⟩
  · have inside : 0 < data.length := size.symm ▸ present
    obtain ⟨next, ran, outcome⟩ := exists_setop cmpfunc inside element
    refine ⟨data[0], next, getop_eq inside, ran, ?_, outcome.imp_right fun replaced => ?_⟩
    · rcases outcome with same | replaced
      · exact same.length_eq
      · rw [replaced.length_eq, List.length_cons, List.length_tail]
        exact Nat.sub_add_cancel inside
    · cases data with
      | nil => cases inside
      | cons top rest => exact (replaced.cons top).trans (.swap element top rest)
  · have start : Holds initial [] built := ⟨perm.length_eq, by
      rw [List.append_nil]
      exact perm.subperm⟩
    obtain ⟨filled, ran, holds⟩ := start.foldlM_setop cmpfunc present pushed
    obtain ⟨final, ran', holds⟩ := holds.sortTimes cmpfunc sorts
    refine ⟨final, ?_, holds.size, holds.sub⟩
    rw [run, new, constructed]
    simp only [Option.bind_eq_bind, Option.bind_some, ran, ran', getData]

/-- A comparison that always answers 0. -/
theorem conserves_of_zero :
    ∃ final, run (fun _ _ : Nat => 0) [3, 1, 2] [5] 2 = some final ∧ final.length = 3 ∧
      final.Subperm [3, 1, 2, 5] :=
  (conserves (fun _ _ => 0) (List.cons_ne_nil 3 [1, 2]) [5] 2).2.2.2.2

end Conservation

/-! ### The heap on natural indices -/

section Refinement

variable (cmpfunc : Element → Element → Int) {n : Nat}

theorem toNat_ofNat_of_lt {i : Nat} (small : i < 2 ^ 31) : (BitVec.ofNat 32 i).toNat = i := by
  rw [BitVec.toNat_ofNat, Nat.mod_eq_of_lt (by omega)]

theorem below_ofNat_iff {i size : Nat} (small : i < 2 ^ 31) :
    below (BitVec.ofNat 32 i) size = true ↔ i < size := by
  rw [below_iff, toNat_ofNat_of_lt small, and_iff_right small]

theorem read_toList (data : Vector Element n) {i : Nat} (small : i < 2 ^ 31) (inside : i < n) :
    read data.toList (BitVec.ofNat 32 i) = some data[i] := by
  have inside' : below (BitVec.ofNat 32 i) data.toList.length = true := by
    rwa [below_ofNat_iff small, Vector.length_toList]
  rw [read_eq inside' (below_iff.mp inside').2]
  simp only [toNat_ofNat_of_lt small, Vector.getElem_toList]

theorem swap_toList (data : Vector Element n) {i j : Nat} (small : i < 2 ^ 31) (small' : j < 2 ^ 31)
    (inside : i < n) (inside' : j < n) :
    swap data.toList (BitVec.ofNat 32 i) (BitVec.ofNat 32 j) = some (data.swap i j).toList := by
  have within {i : Nat} (small : i < 2 ^ 31) (inside : i < n) {list : List Element}
      (same : list.length = n) : below (BitVec.ofNat 32 i) list.length = true :=
    (below_ofNat_iff small).mpr (same ▸ inside)
  simp only [swap, read_toList data small inside, read_toList data small' inside',
    write, within small inside data.length_toList, toNat_ofNat_of_lt small,
    within small' inside' (List.length_set.trans data.length_toList), toNat_ofNat_of_lt small',
    Option.bind_eq_bind, Option.bind_some, ↓reduceIte, Vector.toList_swap]

theorem pick_toList (data : Vector Element n) {size : Nat} (bounded : n ≤ 2 ^ 31)
    (max child : Fin n) (inside : child.val < size) :
    pick cmpfunc data.toList size (BitVec.ofNat 32 max.val) (BitVec.ofNat 32 child.val) =
      some (BitVec.ofNat 32 (Heap.pick cmpfunc data max child).val) := by
  have small (i : Fin n) : i.val < 2 ^ 31 := i.isLt.trans_le bounded
  rw [pick, if_pos ((below_ofNat_iff (small child)).mpr inside),
    read_toList data (small max) max.isLt, read_toList data (small child) child.isLt, Heap.pick]
  simp only [Option.bind_eq_bind, Option.bind_some, Fin.getElem_fin]
  split
  · rfl
  · rfl

theorem left_ofNat (i : Nat) : left (BitVec.ofNat 32 i) = BitVec.ofNat 32 (Heap.left i) := by
  rw [left, Heap.left, BitVec.ofNat_mul]

theorem right_ofNat (i : Nat) : right (BitVec.ofNat 32 i) = BitVec.ofNat 32 (Heap.right i) := by
  rw [right, Heap.right, BitVec.ofNat_add, BitVec.ofNat_mul]

theorem largest_toList (data : Vector Element n) {i size : Nat} (small : n ≤ 2 ^ 31)
    (bounded : size ≤ n) (inner : i < size / 2) :
    largest cmpfunc data.toList (BitVec.ofNat 32 i) size =
      some (BitVec.ofNat 32 (Heap.largest cmpfunc data i size bounded inner).val) := by
  have leftInside : Heap.left i < size := by unfold Heap.left; omega
  have rightInside : Heap.right i < size := by unfold Heap.right; omega
  have first := pick_toList cmpfunc data small ⟨i, by omega⟩
    ⟨Heap.left i, leftInside.trans_le bounded⟩ leftInside
  have second := fun max => pick_toList cmpfunc data small max
    ⟨Heap.right i, rightInside.trans_le bounded⟩ rightInside
  simp only [largest, read_toList data (show i < 2 ^ 31 by omega) (show i < n by omega), left_ofNat,
    right_ofNat, first, second, Option.bind_eq_bind, Option.bind_some, Heap.largest]

theorem adjust_toList (data : Vector Element n) (i : Nat) {size : Nat} (small : n ≤ 2 ^ 31)
    (bounded : size ≤ n) (inside : i < 2 ^ 31) :
    adjust cmpfunc data.toList (BitVec.ofNat 32 i) size =
      some (Heap.adjust cmpfunc data i size bounded).toList := by
  induction data, i using Heap.adjust.induct cmpfunc size bounded with
  | case1 data i inner max moved ih =>
      rw [Heap.adjust, dif_pos inner, if_pos moved,
        adjust_eq cmpfunc ((below_ofNat_iff inside).mpr inner)
          (largest_toList cmpfunc data small bounded inner),
        if_pos, swap_toList data (max.isLt.trans_le small) inside max.isLt (by omega),
        Option.bind_some]
      · exact ih (max.isLt.trans_le small)
      · intro same
        apply moved
        rw [← toNat_ofNat_of_lt (max.isLt.trans_le small), ← toNat_ofNat_of_lt inside]
        exact congrArg BitVec.toNat same
  | case2 data i inner max stays =>
      rw [Heap.adjust, dif_pos inner, if_neg stays,
        adjust_eq cmpfunc ((below_ofNat_iff inside).mpr inner)
          (largest_toList cmpfunc data small bounded inner),
        if_neg]
      exact not_not_intro (congrArg (BitVec.ofNat 32) (not_not.mp stays))
  | case3 data i outer =>
      rw [Heap.adjust, dif_neg outer, adjust, dif_neg]
      rwa [below_ofNat_iff inside]

theorem adjustAll_toList (data : Vector Element n) {i : Nat} (small : n ≤ 2 ^ 31)
    (inside : i < 2 ^ 31) :
    adjustAll cmpfunc data.toList (i + 1) = some (Heap.adjustAll cmpfunc data i).toList := by
  induction i generalizing data with
  | zero =>
      rw [adjustAll, data.length_toList, adjust_toList cmpfunc data 0 small le_rfl inside,
        Option.bind_some]
      rfl
  | succ i ih =>
      rw [adjustAll, data.length_toList, adjust_toList cmpfunc data (i + 1) small le_rfl inside,
        Option.bind_some, ih _ (Nat.lt_of_succ_lt inside), Heap.adjustAll]

/-- Up to `2 ^ 31` elements the constructor is the one on natural indices. -/
theorem new_toList (data : Vector Element n) (small : n ≤ 2 ^ 31) :
    new cmpfunc data.toList = some (Heap.new cmpfunc data).toList := by
  have start : ((BitVec.ofNat 32 (data.toList.length / 2)).toInt + 1).toNat = n / 2 + 1 := by
    rw [data.length_toList, BitVec.toInt_eq_toNat_of_lt, toNat_ofNat_of_lt (by omega)]
    · omega
    · rw [toNat_ofNat_of_lt (by omega)]
      omega
  rw [new, start, adjustAll_toList cmpfunc data small (by omega), Heap.new]

theorem setop_toList (data : Vector Element n) (small : n ≤ 2 ^ 31) (nonempty : 0 < n)
    (element : Element) :
    setop cmpfunc data.toList element = some (Heap.setop cmpfunc data nonempty element).toList := by
  have inside : below 0#32 data.toList.length = true :=
    below_zero (data.length_toList.symm ▸ nonempty)
  rw [setop, Heap.setop, read_eq inside (below_iff.mp inside).2]
  simp only [Option.bind_eq_bind, Option.bind_some, BitVec.toNat_ofNat, Nat.zero_mod,
    Vector.getElem_toList]
  split
  · rfl
  · rw [write, if_pos inside, Option.bind_some]
    have adjusted := adjust_toList cmpfunc (data.set 0 element) 0 small le_rfl
      (Nat.two_pow_pos 31)
    rw [Vector.toList_set] at adjusted
    rw [List.length_set, data.length_toList]
    exact adjusted

theorem sortFrom_toList (data : Vector Element n) {i : Nat} (small : n ≤ 2 ^ 31) (inside : i < n) :
    sortFrom cmpfunc data.toList i = some (Heap.sortFrom cmpfunc data i inside).toList := by
  induction i generalizing data with
  | zero => rfl
  | succ i ih =>
      have swapped := swap_toList data (Nat.two_pow_pos 31) (inside.trans_le small)
        (Nat.zero_lt_of_lt inside) inside
      have adjusted := adjust_toList cmpfunc (data.swap 0 (i + 1)) 0 small inside.le
        (Nat.two_pow_pos 31)
      rw [sortFrom, swapped]
      simp only [Option.bind_eq_bind, Option.bind_some]
      rw [adjusted, Option.bind_some, ih _ (Nat.lt_of_succ_lt inside), Heap.sortFrom]

/-- Up to `2 ^ 31` elements `Sort` is the one on natural indices. -/
theorem sort_toList (data : Vector Element n) (small : n ≤ 2 ^ 31) :
    sort cmpfunc data.toList = some (Heap.sort cmpfunc data).toList := by
  rw [sort, Heap.sort, data.length_toList]
  by_cases nonempty : 0 < n
  · have last : (BitVec.ofNat 32 n - 1).toInt.toNat = n - 1 := by
      have one : BitVec.ofNat 32 n - 1 = BitVec.ofNat 32 (n - 1) := by
        apply BitVec.eq_of_toNat_eq
        rw [BitVec.toNat_sub, BitVec.toNat_ofNat, BitVec.toNat_ofNat,
          show (1 : BitVec 32).toNat = 1 from rfl]
        omega
      rw [one, BitVec.toInt_eq_toNat_of_lt, toNat_ofNat_of_lt (by omega)]
      · omega
      · rw [toNat_ofNat_of_lt (by omega)]
        omega
    rw [dif_pos nonempty, last, sortFrom_toList cmpfunc data small]
  · obtain rfl := Nat.eq_zero_of_not_pos nonempty
    rw [dif_neg nonempty]
    rfl

end Refinement

end LogProcess.IntHeap
