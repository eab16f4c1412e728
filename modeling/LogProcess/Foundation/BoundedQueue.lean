import Mathlib

/-! # Queues with room for a fixed number of elements

A push succeeds when there is room, and otherwise leaves the queue as it is
(`BoundedQueue.push_fst_iff`).
-/

structure BoundedQueue (Element : Type*) (capacity : Nat) where
  entries : List Element
  bounded : entries.length ≤ capacity

namespace BoundedQueue

variable {Element : Type*} {capacity : Nat}

def empty : BoundedQueue Element capacity := ⟨[], Nat.zero_le _⟩

/-- There is room for another element. -/
def HasRoom (queue : BoundedQueue Element capacity) : Prop := queue.entries.length < capacity

instance (queue : BoundedQueue Element capacity) : Decidable queue.HasRoom :=
  inferInstanceAs (Decidable (_ < _))

/-- Whether the element was stored, and the queue after it. -/
def push (queue : BoundedQueue Element capacity) (element : Element) :
    Bool × BoundedQueue Element capacity :=
  if room : queue.HasRoom then
    (true, ⟨queue.entries ++ [element], by
      rw [List.length_append, List.length_singleton]
      exact room⟩)
  else
    (false, queue)

/-- The first element, if there is one, and the queue after it. -/
def pop (queue : BoundedQueue Element capacity) :
    Option Element × BoundedQueue Element capacity :=
  (queue.entries.head?, ⟨queue.entries.tail, by
    rw [List.length_tail]
    exact (Nat.sub_le _ _).trans queue.bounded⟩)

theorem push_fst_iff (queue : BoundedQueue Element capacity) (element : Element) :
    (queue.push element).1 = true ↔ queue.HasRoom := by
  rw [push]
  split <;> simp [*]

theorem push_of_full {queue : BoundedQueue Element capacity} (full : ¬queue.HasRoom)
    (element : Element) : queue.push element = (false, queue) := dif_neg full

theorem pop_of_nil {queue : BoundedQueue Element capacity} (empty : queue.entries = []) :
    queue.pop = (none, queue) := by
  obtain ⟨entries, bounded⟩ := queue
  obtain rfl : entries = [] := empty
  rfl

theorem entries_push {queue : BoundedQueue Element capacity} (hasRoom : queue.HasRoom)
    (element : Element) : (queue.push element).2.entries = queue.entries ++ [element] := by
  rw [push, dif_pos hasRoom]

theorem pop_fst (queue : BoundedQueue Element capacity) :
    queue.pop.1 = queue.entries.head? := rfl

theorem entries_pop (queue : BoundedQueue Element capacity) :
    queue.pop.2.entries = queue.entries.tail := rfl

/-- What is popped was the first element. -/
theorem toList_pop_append (queue : BoundedQueue Element capacity) :
    queue.pop.1.toList ++ queue.pop.2.entries = queue.entries := by
  obtain ⟨entries, bounded⟩ := queue
  cases entries <;> rfl

end BoundedQueue
