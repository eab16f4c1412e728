import Mathlib

/-! # Ledgers of tasks

Tasks are submitted, wait, are started and run until they are finished. A periodic task waits
again as soon as it is started. Whatever the order of the moves, a submitted task that is not
periodic is in one place and a periodic one is always waiting (`TaskLedger.Balanced.of_move`).
With numbered tasks this says how often each number occurs (`TaskLedger.Balanced.count_once`,
`TaskLedger.Balanced.count_started_le`, `TaskLedger.Balanced.count_periodic`).
-/

/-- Where the tasks are, and all tasks that were submitted and started. -/
structure TaskLedger (Task : Type*) where
  submitted : Multiset Task
  waiting : Multiset Task
  started : Multiset Task
  running : Multiset Task
  finished : Multiset Task

namespace TaskLedger

variable {Task : Type*} (periodic : Task → Bool)

def empty : TaskLedger Task := ⟨0, 0, 0, 0, 0⟩

/-- A move of one task. -/
inductive Move : TaskLedger Task → TaskLedger Task → Prop
  | submit (ledger : TaskLedger Task) (task : Task) :
      Move ledger { ledger with
        submitted := task ::ₘ ledger.submitted, waiting := task ::ₘ ledger.waiting }
  | start (ledger : TaskLedger Task) (task : Task) (rest : Multiset Task)
      (once : periodic task = false) (waited : ledger.waiting = task ::ₘ rest) :
      Move ledger { ledger with
        waiting := rest, started := task ::ₘ ledger.started, running := task ::ₘ ledger.running }
  | restart (ledger : TaskLedger Task) (task : Task)
      (again : periodic task = true) (waited : task ∈ ledger.waiting) :
      Move ledger { ledger with
        started := task ::ₘ ledger.started, running := task ::ₘ ledger.running }
  | finish (ledger : TaskLedger Task) (task : Task) (rest : Multiset Task)
      (ran : ledger.running = task ::ₘ rest) :
      Move ledger { ledger with running := rest, finished := task ::ₘ ledger.finished }

/-- **Nothing is lost and nothing is doubled.** -/
structure Balanced (ledger : TaskLedger Task) : Prop where
  once : (ledger.waiting + ledger.started).filter (periodic · = false) =
    ledger.submitted.filter (periodic · = false)
  again : ledger.waiting.filter (periodic · = true) = ledger.submitted.filter (periodic · = true)
  places : ledger.started = ledger.running + ledger.finished
  waits : ledger.waiting ⊆ ledger.submitted
  starts : ledger.started ⊆ ledger.submitted

theorem balanced_empty : Balanced periodic empty :=
  ⟨rfl, rfl, rfl, Multiset.Subset.refl _, Multiset.Subset.refl _⟩

variable {periodic} {ledger next : TaskLedger Task}

theorem filter_cons_of_ne {task : Task} {kind : Bool} (other : periodic task ≠ kind)
    (tasks : Multiset Task) :
    (task ::ₘ tasks).filter (periodic · = kind) = tasks.filter (periodic · = kind) :=
  Multiset.filter_cons_of_neg tasks other

/-- Each kind of move keeps the balance. -/
theorem Balanced.of_move (balanced : Balanced periodic ledger)
    (moved : Move periodic ledger next) : Balanced periodic next := by
  obtain ⟨once, again, places, waits, starts⟩ := balanced
  cases moved with
  | submit task =>
      have more : ledger.submitted ⊆ task ::ₘ ledger.submitted := Multiset.subset_cons _ _
      refine ⟨?_, ?_, places, Multiset.cons_subset_cons waits,
        fun _ started => more (starts started)⟩
      · simp only [Multiset.cons_add, Multiset.filter_cons, once]
      · simp only [Multiset.filter_cons, again]
  | start task rest first waited =>
      rw [waited] at once again waits
      obtain ⟨waited, waits⟩ := Multiset.cons_subset.mp waits
      refine ⟨?_, ?_, ?_, waits, Multiset.cons_subset.mpr ⟨waited, starts⟩⟩
      · rw [← once, Multiset.add_cons, Multiset.cons_add]
      · rw [← again, filter_cons_of_ne (by rw [first]; decide)]
      · rw [places, Multiset.cons_add]
  | restart task more waited =>
      refine ⟨?_, again, ?_, waits, Multiset.cons_subset.mpr ⟨waits waited, starts⟩⟩
      · rw [← once, Multiset.add_cons, filter_cons_of_ne (by rw [more]; decide)]
      · rw [places, Multiset.cons_add]
  | finish task rest ran =>
      refine ⟨once, again, ?_, waits, starts⟩
      rw [places, ran, Multiset.cons_add, Multiset.add_cons]

/-! ### Numbered tasks -/

section Numbers

variable {number : Task → Nat}

/-- Among tasks with distinct numbers only tasks of its kind have the number of a task. -/
theorem count_filter_eq {submitted tasks : Multiset Task} {kind : Bool}
    (distinct : (submitted.map number).Nodup) (known : tasks ⊆ submitted) {task : Task}
    (member : task ∈ submitted) (same : periodic task = kind) :
    ((tasks.filter (periodic · = kind)).map number).count (number task) =
      (tasks.map number).count (number task) := by
  rw [Multiset.count_map, Multiset.count_map, Multiset.filter_filter]
  congr 1
  refine Multiset.filter_congr fun other present => and_iff_left_of_imp fun equal => ?_
  obtain rfl := Multiset.inj_on_of_nodup_map distinct _ member _ (known present) equal
  exact same

/-- A place that has the same tasks of a kind as were submitted has each of them once. -/
theorem count_eq_one_of_filter_eq {submitted tasks : Multiset Task} {kind : Bool}
    (distinct : (submitted.map number).Nodup) (known : tasks ⊆ submitted)
    (all : tasks.filter (periodic · = kind) = submitted.filter (periodic · = kind)) {task : Task}
    (member : task ∈ submitted) (same : periodic task = kind) :
    (tasks.map number).count (number task) = 1 := by
  rw [← count_filter_eq distinct known member same, all,
    count_filter_eq distinct (Multiset.Subset.refl _) member same]
  exact Multiset.count_eq_one_of_mem distinct (Multiset.mem_map_of_mem number member)

variable (balanced : Balanced periodic ledger) (distinct : (ledger.submitted.map number).Nodup)
include balanced distinct

/-- **A task that is not periodic is waiting, running or finished**, and only once. -/
theorem Balanced.count_once {task : Task} (member : task ∈ ledger.submitted)
    (once : periodic task = false) :
    (ledger.waiting.map number).count (number task) +
      (ledger.running.map number).count (number task) +
      (ledger.finished.map number).count (number task) = 1 := by
  have known : ledger.waiting + ledger.started ⊆ ledger.submitted := fun _ present =>
    (Multiset.mem_add.mp present).elim (fun waits => balanced.waits waits)
      fun starts => balanced.starts starts
  have everywhere := count_eq_one_of_filter_eq distinct known balanced.once member once
  rw [balanced.places] at everywhere
  simpa only [Multiset.map_add, Multiset.count_add, Nat.add_assoc] using everywhere

/-- A task that is not periodic is started at most once. -/
theorem Balanced.count_started_le {task : Task} (member : task ∈ ledger.submitted)
    (once : periodic task = false) : (ledger.started.map number).count (number task) ≤ 1 := by
  have places := balanced.count_once distinct member once
  rw [balanced.places, Multiset.map_add, Multiset.count_add]
  omega

/-- **A periodic task is waiting**, and only once. -/
theorem Balanced.count_periodic {task : Task} (member : task ∈ ledger.submitted)
    (again : periodic task = true) : (ledger.waiting.map number).count (number task) = 1 :=
  count_eq_one_of_filter_eq distinct balanced.waits balanced.again member again

end Numbers

end TaskLedger
