import Mathlib

/-! # Sorting by comparisons

A sorting algorithm that learns about the elements from comparisons alone is a tree of questions
about their positions. What it compares depends on the answers only. An algorithm that sorts for
every strict weak order has to compare each of two or more elements, as it could not tell
otherwise whether the element is the least or the greatest (`ComparisonSort.exists_call`).
So all compared elements have a property only if all elements have it
(`ComparisonSort.forall_comparisons_iff`).
-/

/-- A computation that asks about pairs of indices. -/
inductive Asking (Index Result : Type) where
  | done (result : Result)
  | ask (first second : Index) (next : Bool → Asking Index Result)

namespace Asking

variable {Index Result : Type}

/-- The result for some answers. -/
def eval (less : Index → Index → Bool) : Asking Index Result → Result
  | done result => result
  | ask first second next => (next (less first second)).eval less

/-- The questions for some answers. -/
def calls (less : Index → Index → Bool) : Asking Index Result → List (Index × Index)
  | done _ => []
  | ask first second next => (first, second) :: (next (less first second)).calls less

section Agree

variable {program : Asking Index Result} {less other : Index → Index → Bool}
  (agree : ∀ call ∈ program.calls less, less call.1 call.2 = other call.1 call.2)

include agree

/-- Answers that agree on what is asked lead to the same result. -/
theorem eval_eq_of_agree : program.eval less = program.eval other := by
  induction program with
  | done result => rfl
  | ask first second next ih =>
      rw [calls, List.forall_mem_cons] at agree
      rw [eval, eval, ← agree.1]
      exact ih _ agree.2

theorem calls_eq_of_agree : program.calls less = program.calls other := by
  induction program with
  | done result => rfl
  | ask first second next ih =>
      rw [calls, List.forall_mem_cons] at agree
      rw [calls, calls, ← agree.1, ih _ agree.2]

end Agree

end Asking

/-- The comparison is a strict weak order. -/
structure StrictWeak {Element : Type} (less : Element → Element → Bool) : Prop where
  asymm : ∀ first second, less first second = true → less second first = false
  trans : ∀ first second third, less first second = false → less second third = false →
    less first third = false

/-- The opposite order. -/
theorem StrictWeak.flip {Element : Type} {less : Element → Element → Bool}
    (ordered : StrictWeak less) : StrictWeak fun first second => less second first :=
  ⟨fun first second => ordered.asymm second first,
    fun first second third low high => ordered.trans third second first high low⟩

/-- An algorithm that sorts by comparisons: for every strict weak order it arranges the positions
such that no later one is smaller. It compares nothing when there are fewer than two. -/
structure ComparisonSort where
  program : (n : Nat) → Asking (Fin n) (List (Fin n))
  perm : ∀ n less, StrictWeak less → ((program n).eval less).Perm (List.finRange n)
  pairwise : ∀ n less, StrictWeak less →
    ((program n).eval less).Pairwise fun first second => less second first = false
  few : ∀ n less, n < 2 → (program n).calls less = []

namespace ComparisonSort

/-! ### Every element is compared -/

section Adversary

variable {Element : Type} [DecidableEq Element] {less : Element → Element → Bool}

/-- The order with one element made the least. -/
def lowered (less : Element → Element → Bool) (element first second : Element) : Bool :=
  if second = element then false else if first = element then true else less first second

theorem strictWeak_lowered (ordered : StrictWeak less) (element : Element) :
    StrictWeak (lowered less element) := by
  refine ⟨fun first second smaller => ?_, fun first second third low high => ?_⟩
  · have asymm := ordered.asymm first second
    grind [lowered]
  · have trans := ordered.trans first second third
    grind [lowered]

/-- A list that is sorted for an order with the element made the least has nothing before it. -/
theorem eq_nil_of_pairwise_lowered {before after : List Element} {element : Element}
    (nodup : (before ++ element :: after).Nodup)
    (sorted : (before ++ element :: after).Pairwise fun first second =>
      lowered less element second first = false) : before = [] := by
  rw [List.eq_nil_iff_forall_not_mem]
  intro other member
  have different : other ≠ element := by
    rintro rfl
    exact (List.nodup_append.mp nodup).2.2 other member other List.mem_cons_self rfl
  have later := (List.pairwise_append.mp sorted).2.2 other member element List.mem_cons_self
  rw [lowered, if_neg different, if_pos rfl] at later
  cases later

/-- A list that is sorted for an order with the element made the greatest has nothing behind it. -/
theorem eq_nil_of_pairwise_raised {before after : List Element} {element : Element}
    (nodup : (before ++ element :: after).Nodup)
    (sorted : (before ++ element :: after).Pairwise fun first second =>
      lowered less element first second = false) : after = [] := by
  have reversed : (before ++ element :: after).reverse =
      after.reverse ++ element :: before.reverse := by
    rw [List.reverse_append, List.reverse_cons, List.append_assoc, List.singleton_append]
  rw [← List.reverse_eq_nil_iff]
  apply eq_nil_of_pairwise_lowered
  · rw [← reversed]
    exact List.nodup_reverse.mpr nodup
  · rw [← reversed]
    exact List.pairwise_reverse.mpr sorted

end Adversary

variable (sort : ComparisonSort) {n : Nat}

/-- An element that is never asked for would be first and last. -/
theorem exists_call (several : 2 ≤ n) {less : Fin n → Fin n → Bool} (ordered : StrictWeak less)
    (position : Fin n) :
    ∃ call ∈ (sort.program n).calls less, call.1 = position ∨ call.2 = position := by
  by_contra unasked
  simp only [not_exists, not_and, not_or] at unasked
  have flipped := strictWeak_lowered ordered.flip position
  have low : (sort.program n).eval less = (sort.program n).eval (lowered less position) := by
    apply Asking.eval_eq_of_agree
    intro call member
    rw [lowered, if_neg (unasked call member).2, if_neg (unasked call member).1]
  have high : (sort.program n).eval less = (sort.program n).eval fun first second =>
      lowered (fun first second => less second first) position second first := by
    apply Asking.eval_eq_of_agree
    intro call member
    rw [lowered, if_neg (unasked call member).1, if_neg (unasked call member).2]
  have perm := sort.perm n less ordered
  have least := sort.pairwise n _ (strictWeak_lowered ordered position)
  have greatest := sort.pairwise n _ flipped.flip
  rw [← low] at least
  rw [← high] at greatest
  have nodup := perm.nodup_iff.mpr (List.nodup_finRange n)
  have member : position ∈ (sort.program n).eval less :=
    perm.mem_iff.mpr (List.mem_finRange position)
  have length := perm.length_eq
  rw [List.length_finRange] at length
  obtain ⟨before, after, shape⟩ := List.append_of_mem member
  rw [shape] at least greatest nodup length
  have first := eq_nil_of_pairwise_lowered nodup least
  have last := eq_nil_of_pairwise_raised nodup greatest
  rw [first, last] at length
  simp only [List.nil_append, List.length_singleton] at length
  omega

/-! ### Lists -/

section Lists

variable {Element : Type}

/-- The pairs of elements of a list that are compared. -/
def comparisons (less : Element → Element → Bool) (list : List Element) :
    List (Element × Element) :=
  ((sort.program list.length).calls fun i j => less (list.get i) (list.get j)).map fun call =>
    (list.get call.1, list.get call.2)

/-- **Comparisons.** All compared elements have a property exactly when there are fewer than two
or all elements have it. The answers for elements without the property do not matter. -/
theorem forall_comparisons_iff (property : Element → Prop) {less other : Element → Element → Bool}
    (ordered : StrictWeak other)
    (agree : ∀ first second, property first → property second →
      less first second = other first second) (list : List Element) :
    (∀ call ∈ sort.comparisons less list, property call.1 ∧ property call.2) ↔
      list.length < 2 ∨ ∀ element ∈ list, property element := by
  simp only [comparisons, List.forall_mem_map]
  refine ⟨fun compared => ?_, fun condition call member => ?_⟩
  · by_cases several : 2 ≤ list.length
    · right
      intro element member
      obtain ⟨position, rfl⟩ := List.get_of_mem member
      have same : (sort.program list.length).calls (fun i j => less (list.get i) (list.get j)) =
          (sort.program list.length).calls fun i j => other (list.get i) (list.get j) :=
        Asking.calls_eq_of_agree fun call asked =>
          agree _ _ (compared call asked).1 (compared call asked).2
      have positions : StrictWeak fun i j : Fin list.length => other (list.get i) (list.get j) :=
        ⟨fun _ _ => ordered.asymm _ _, fun _ _ _ => ordered.trans _ _ _⟩
      obtain ⟨call, asked, touched⟩ := sort.exists_call several positions position
      rw [← same] at asked
      rcases touched with rfl | rfl
      · exact (compared call asked).1
      · exact (compared call asked).2
    · exact .inl (not_le.mp several)
  · rcases condition with few | all
    · rw [sort.few _ _ few] at member
      cases member
    · exact ⟨all _ (List.get_mem ..), all _ (List.get_mem ..)⟩

end Lists

/-! ### Insertion -/

section Insertion

variable {Index Result : Type}

/-- Ask where an element belongs in a sorted list. -/
def insertAsking (element : Index) :
    List Index → (List Index → Asking Index Result) → Asking Index Result
  | [], next => next [element]
  | head :: rest, next => .ask head element fun smaller =>
      if smaller then insertAsking element rest fun list => next (head :: list)
      else next (element :: head :: rest)

/-- Insert the elements one after the other. -/
def sortAsking : List Index → (List Index → Asking Index Result) → Asking Index Result
  | [], next => next []
  | element :: rest, next => sortAsking rest fun sorted => insertAsking element sorted next

variable (less : Index → Index → Bool)

theorem eval_insertAsking (element : Index) (list : List Index)
    (next : List Index → Asking Index Result) :
    (insertAsking element list next).eval less =
      (next (list.orderedInsert (fun first second => less second first = false) element)).eval
        less := by
  induction list generalizing next with
  | nil => rfl
  | cons head rest ih =>
      rw [insertAsking, Asking.eval, List.orderedInsert_cons]
      cases less head element with
      | true => simp only [↓reduceIte, Bool.true_eq_false, ih]
      | false => simp only [Bool.false_eq_true, ↓reduceIte]

theorem eval_sortAsking (list : List Index) (next : List Index → Asking Index Result) :
    (sortAsking list next).eval less =
      (next (list.insertionSort fun first second => less second first = false)).eval less := by
  induction list generalizing next with
  | nil => rfl
  | cons element rest ih => rw [sortAsking, ih, eval_insertAsking, List.insertionSort_cons]

/-- Inserting the positions one after the other is one way to sort. -/
def insertion : ComparisonSort where
  program := fun n => sortAsking (List.finRange n) .done
  perm := fun n less _ => by
    rw [eval_sortAsking]
    exact List.perm_insertionSort _ _
  pairwise := fun n less ordered => by
    let lower := fun first second : Fin n => less second first = false
    have : IsTrans (Fin n) lower :=
      ⟨fun first second third low high => ordered.trans third second first high low⟩
    have : Std.Total lower := by
      refine ⟨fun first second => ?_⟩
      cases smaller : less second first with
      | false => exact .inl smaller
      | true => exact .inr (ordered.asymm second first smaller)
    rw [eval_sortAsking]
    exact List.pairwise_insertionSort lower _
  few := fun n less small => by
    obtain rfl | rfl : n = 0 ∨ n = 1 := by omega
    · rfl
    · rfl

end Insertion

end ComparisonSort
