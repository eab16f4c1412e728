import LogProcess.Common.ThreadPool

/-! # The number of pending tasks of a pool

`AddTask` and `AddPriorityTask` count a task as pending, `AddDelayTask` and `AddTimerTask` do not,
but every start counts one less. So the counter is the number of tasks that have not started as
long as a pool is only given tasks of the first kind (`throughout_exact_iff`). In general the starts
from the timer queue are missing from it (`Lagging`), and a graceful `Stop` of a pool that has run
tasks of the timer queue goes on waiting when all tasks have run (`stopWaits_iff_of_started`).
-/

namespace LogProcess.ThreadPool

variable {Task : Type} {pool : ThreadPool Task}

/-- The accepted tasks that have not started. The next round of a periodic task is one of them. -/
def notStarted (pool : ThreadPool Task) : Nat := pool.queue.length + pool.timerQueue.length

/-- The counter of pending tasks is exact. -/
def Exact (pool : ThreadPool Task) : Prop := pool.pendingNum.toNat = pool.notStarted

/-- The loop of a graceful `Stop` goes on. -/
def stopWaits (pool : ThreadPool Task) : Bool := pool.pendingNum ≠ 0

/-- An exact counter ends the wait of `Stop` when nothing is left. -/
theorem Exact.stopWaits_eq_false_iff (exact : pool.Exact) :
    pool.stopWaits = false ↔ pool.notStarted = 0 := by
  rw [← exact, stopWaits, decide_eq_false_iff_not, ne_eq, not_not, BitVec.toNat_eq]
  rfl

/-- The calls that the counter counts, while the queue is shorter than the counter reaches. -/
def Counts (pool : ThreadPool Task) : Action Task → Prop
  | .addTask _ => pool.queue.length + 1 < 2 ^ 64
  | .addPriorityTask _ => pool.queue.length + 1 < 2 ^ 64
  | .addDelayTask .. => False
  | .addTimerTask .. => False
  | .process .. => True

/-- The timer queue has not been used. -/
structure Counted (pool : ThreadPool Task) : Prop where
  timerQueue : pool.timerQueue = []
  pendingNum : pool.pendingNum = BitVec.ofNat 64 pool.queue.length
  short : pool.queue.length < 2 ^ 64

theorem Counted.exact (counted : pool.Counted) : pool.Exact := by
  rw [Exact, notStarted, counted.pendingNum, counted.timerQueue, BitVec.toNat_ofNat,
    Nat.mod_eq_of_lt counted.short]
  rfl

theorem counted_takeQueue (counted : pool.Counted) (worker : Nat) :
    (pool.takeQueue worker).Counted := by
  rw [takeQueue]
  split
  next => exact counted
  next task rest first =>
    have short := counted.short
    have pending := counted.pendingNum
    rw [first, List.length_cons] at short pending
    refine ⟨counted.timerQueue, ?_, (Nat.lt_succ_self _).trans short⟩
    change pool.pendingNum - 1 = _
    rw [pending, BitVec.ofNat_add]
    exact BitVec.add_sub_cancel _ _

theorem Counted.process (counted : pool.Counted) {worker choice : Nat} {nowtime requeued : Int}
    {next : ThreadPool Task}
    (stepped : pool.process worker choice nowtime requeued = some next) : next.Counted :=
  process_induction Counted (fun _ counted => counted_takeQueue counted _)
    (fun _ _ first counted => by
      rw [counted.timerQueue] at first
      exact absurd first (Option.some_ne_none _).symm)
    (fun _ _ counted => ⟨counted.timerQueue, counted.pendingNum, counted.short⟩) counted stepped

/-- A counted call keeps the counter. -/
theorem Counted.step (counted : pool.Counted) {action : Action Task} (counts : pool.Counts action)
    {next : ThreadPool Task} (stepped : ThreadPool.step pool action = some next) :
    next.Counted := by
  cases action with
  | addTask task =>
      obtain rfl := Option.some.inj stepped
      have longer : (pool.addTask task).queue.length = pool.queue.length + 1 :=
        List.length_append
      refine ⟨counted.timerQueue, ?_, longer ▸ counts⟩
      rw [longer, BitVec.ofNat_add, ← counted.pendingNum]
      rfl
  | addPriorityTask task =>
      obtain rfl := Option.some.inj stepped
      refine ⟨counted.timerQueue, ?_, counts⟩
      change pool.pendingNum + 1 = BitVec.ofNat 64 (pool.queue.length + 1)
      rw [BitVec.ofNat_add, ← counted.pendingNum]
      rfl
  | addDelayTask => exact counts.elim
  | addTimerTask => exact counts.elim
  | process => exact counted.process stepped

/-- The counter misses a task of the timer queue. -/
theorem Counted.not_exact_addTimertask (counted : pool.Counted) (job : Job Task)
    (timeval nowtime : Int) (flag : Bool) :
    ¬(pool.addTimertask job timeval nowtime flag).Exact := by
  intro exact
  change pool.pendingNum.toNat = pool.queue.length + (pool.timerQueue.length + 1) at exact
  rw [counted.exact, notStarted] at exact
  omega

/-- Any other call breaks the counter at once. -/
theorem Counted.not_exact_step (counted : pool.Counted) {action : Action Task}
    (uncounted : ¬pool.Counts action) {next : ThreadPool Task}
    (stepped : ThreadPool.step pool action = some next) : ¬next.Exact := by
  cases action with
  | addTask task =>
      obtain rfl := Option.some.inj stepped
      intro exact
      have below := (pool.addTask task).pendingNum.isLt
      rw [exact, notStarted, ThreadPool.addTask, List.length_append, List.length_singleton] at below
      exact uncounted (by rw [Counts]; omega)
  | addPriorityTask task =>
      obtain rfl := Option.some.inj stepped
      intro exact
      have below := (pool.addPriorityTask task).pendingNum.isLt
      rw [exact, notStarted, ThreadPool.addPriorityTask, List.length_cons] at below
      exact uncounted (by rw [Counts]; omega)
  | addDelayTask timeval nowtime task =>
      obtain rfl := Option.some.inj stepped
      exact counted.not_exact_addTimertask _ timeval nowtime false
  | addTimerTask timeval nowtime task =>
      obtain rfl := Option.some.inj stepped
      exact counted.not_exact_addTimertask _ timeval nowtime true
  | process => exact absurd trivial uncounted

theorem counted_idle {threadNum : Nat} : (idle threadNum : ThreadPool Task).Counted :=
  ⟨rfl, rfl, Nat.two_pow_pos 64⟩

/-- **The number of pending tasks** is exact in every state of a run if and only if no call of the
run uses the timer queue and the queue never gets longer than the counter reaches. -/
theorem throughout_exact_iff (threadNum : BitVec 32) {start : ThreadPool Task}
    (created : new threadNum = some start) (actions : List (Action Task))
    (reached : Runs.run step start actions = some pool) :
    Runs.Throughout step Exact start actions ↔ Runs.Meets step Counts start actions := by
  obtain rfl := eq_idle_of_new created
  exact Runs.throughout_iff_meets Counted Exact (fun counted => counted.exact)
    (fun counted counts stepped => counted.step counts stepped)
    (fun counted uncounted stepped => counted.not_exact_step uncounted stepped) counted_idle reached

/-- Two tasks of the queue and one worker. -/
theorem throughout_exact_of_queue :
    Runs.Throughout step Exact (idle 1 : ThreadPool String)
      [.addTask "first", .addPriorityTask "second", .process 0 0 5 5, .process 0 0 5 5] :=
  (throughout_exact_iff 1 rfl _ rfl).mpr
    ⟨by simp [Counts, idle], fun next stepped => by
      obtain rfl := Option.some.inj stepped
      refine ⟨by simp [Counts, idle, addTask], fun next stepped => ?_⟩
      obtain rfl := Option.some.inj stepped
      exact ⟨trivial, fun next stepped => ⟨trivial, fun next stepped => trivial⟩⟩⟩

/-- When a delayed task has run, the counter is below zero and `Stop` waits for nothing. -/
theorem not_throughout_exact_of_delay :
    ¬Runs.Throughout step Exact (idle 1 : ThreadPool String)
      [.addDelayTask 0 5 "stop", .process 0 0 5 5, .process 0 0 5 5] ∧
    ∃ pool, Runs.run step (idle 1 : ThreadPool String)
        [.addDelayTask 0 5 "stop", .process 0 0 5 5, .process 0 0 5 5] = some pool ∧
      pool.notStarted = 0 ∧ pool.pendingNum = 0 - 1 ∧ pool.stopWaits = true := by
  refine ⟨fun throughout => ?_, _, rfl, rfl, rfl, rfl⟩
  exact absurd (throughout [.addDelayTask 0 5 "stop"] ⟨_, rfl⟩ _ rfl) Nat.zero_ne_one

/-! ### Starts from the timer queue -/

/-- The task was given to `AddDelayTask` or `AddTimerTask`. -/
def isLate (job : Job Task) : Bool :=
  match job.entry with
  | .addTask => false
  | .addPriorityTask => false
  | .addDelayTask => true
  | .addTimerTask => true

/-- The starts of tasks of the timer queue. -/
def timerStarts (pool : ThreadPool Task) : Nat := pool.started.countP isLate

/-- The counter counts the tasks of the queue and all starts. -/
structure Lagging (pool : ThreadPool Task) : Prop where
  queued : ∀ job ∈ pool.queue, isLate job = false
  timed : ∀ entry ∈ pool.timerQueue, isLate entry.task = true
  pendingNum : pool.pendingNum + BitVec.ofNat 64 pool.timerStarts =
    BitVec.ofNat 64 pool.queue.length

theorem timerStarts_concat (started : List (Job Task)) (job : Job Task) :
    (started ++ [job]).countP isLate = started.countP isLate + (isLate job).toNat := by
  rw [List.countP_append]
  cases late : isLate job <;> simp only [List.countP_cons, List.countP_nil, late] <;> rfl

theorem ofNat_succ (count : Nat) : BitVec.ofNat 64 (count + 1) = BitVec.ofNat 64 count + 1 :=
  BitVec.ofNat_add count 1

theorem lagging_takeQueue (lagging : pool.Lagging) (worker : Nat) :
    (pool.takeQueue worker).Lagging := by
  rw [takeQueue]
  split
  next => exact lagging
  next task rest first =>
    have prompt : isLate task = false := lagging.queued task (first ▸ List.mem_cons_self)
    refine ⟨fun job member => lagging.queued job (first ▸ List.mem_cons_of_mem _ member),
      lagging.timed, ?_⟩
    have pending := lagging.pendingNum
    rw [first, List.length_cons, ofNat_succ, timerStarts] at pending
    simp only [timerStarts, timerStarts_concat, prompt, Bool.toNat_false, Nat.add_zero]
    linear_combination pending

theorem lagging_takeTimer (lagging : pool.Lagging) {worker choice : Nat}
    {newestask : Timertask Task} (first : pool.timerQueue[choice]? = some newestask)
    (requeued : Int) : (pool.takeTimer worker choice newestask requeued).Lagging := by
  have late := lagging.timed _ (List.mem_of_getElem? first)
  refine ⟨lagging.queued, fun entry member => ?_, ?_⟩
  · obtain ⟨before, waited, -, sameTask⟩ := exists_of_mem_takeTimer first member
    rw [sameTask]
    exact lagging.timed before waited
  · have pending := lagging.pendingNum
    rw [timerStarts] at pending
    simp only [takeTimer, timerStarts, timerStarts_concat, late, Bool.toNat_true, ofNat_succ]
    linear_combination pending

theorem lagging_addTimertask (lagging : pool.Lagging) {job : Job Task} (late : isLate job = true)
    (timeval nowtime : Int) (flag : Bool) :
    (pool.addTimertask job timeval nowtime flag).Lagging := by
  refine ⟨lagging.queued, fun entry member => ?_, lagging.pendingNum⟩
  rcases List.mem_cons.mp member with rfl | before
  · exact late
  · exact lagging.timed entry before

theorem Lagging.step (lagging : pool.Lagging) {action : Action Task} {next : ThreadPool Task}
    (stepped : ThreadPool.step pool action = some next) : next.Lagging := by
  have pending := lagging.pendingNum
  rw [timerStarts] at pending
  cases action with
  | addTask task =>
      obtain rfl := Option.some.inj stepped
      refine ⟨fun job member => ?_, lagging.timed, ?_⟩
      · rcases List.mem_append.mp member with before | new
        · exact lagging.queued job before
        · obtain rfl := List.mem_singleton.mp new
          rfl
      · simp only [ThreadPool.addTask, timerStarts, List.length_append, List.length_singleton,
          ofNat_succ]
        linear_combination pending
  | addPriorityTask task =>
      obtain rfl := Option.some.inj stepped
      refine ⟨fun job member => ?_, lagging.timed, ?_⟩
      · rcases List.mem_cons.mp member with rfl | before
        · rfl
        · exact lagging.queued job before
      · simp only [ThreadPool.addPriorityTask, timerStarts, List.length_cons, ofNat_succ]
        linear_combination pending
  | addDelayTask timeval nowtime task =>
      obtain rfl := Option.some.inj stepped
      exact lagging_addTimertask lagging rfl timeval nowtime false
  | addTimerTask timeval nowtime task =>
      obtain rfl := Option.some.inj stepped
      exact lagging_addTimertask lagging rfl timeval nowtime true
  | process =>
      exact process_induction Lagging (fun _ lagging => lagging_takeQueue lagging _)
        (fun requeued _ first lagging => lagging_takeTimer lagging first requeued)
        (fun _ _ lagging => ⟨lagging.queued, lagging.timed, lagging.pendingNum⟩) lagging stepped

/-- **Graceful stops.** When all tasks of a pool have started, `Stop` goes on waiting exactly when
the starts from the timer queue are not a multiple of the range of the counter. -/
theorem stopWaits_iff_of_started (threadNum : BitVec 32) {start : ThreadPool Task}
    (created : new threadNum = some start) (actions : List (Action Task))
    (reached : Runs.run step start actions = some pool) (all : pool.queue = []) :
    pool.stopWaits = true ↔ ¬2 ^ 64 ∣ pool.timerStarts := by
  obtain rfl := eq_idle_of_new created
  have lagging := Runs.invariant Lagging (fun lagging stepped => lagging.step stepped)
    ⟨fun _ member => absurd member List.not_mem_nil,
      fun _ member => absurd member List.not_mem_nil, rfl⟩ reached
  have pending := lagging.pendingNum
  rw [all, List.length_nil, ← eq_sub_iff_add_eq] at pending
  rw [stopWaits, decide_eq_true_iff, pending, sub_ne_zero, ne_eq, BitVec.toNat_eq,
    BitVec.toNat_ofNat, BitVec.toNat_ofNat, Nat.zero_mod, eq_comm, Nat.dvd_iff_mod_eq_zero]

end LogProcess.ThreadPool
