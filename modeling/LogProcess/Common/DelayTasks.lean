import LogProcess.Common.ThreadPool

/-! # Delayed tasks

`AddDelayTask` is meant to start a task a number of microseconds after the call. The stamps that
`getime_micros` makes of the clock count hundreds of nanoseconds within a second, so that they run
ten times too fast there and fall back at its end. Delays are kept only where the second ends before
the fast stamps reach the due time (`ThreadPool.neverEarly_iff`).
-/

namespace LogProcess

/-- What the clock shows. -/
structure Timespec where
  tvSec : Int
  tvNsec : Nat
  inSecond : tvNsec < 1000000000

namespace Timespec

/-- The nanoseconds of a reading. -/
def nanos (ts : Timespec) : Int := ts.tvSec * 1000000000 + ts.tvNsec

/-- The stamp that the code is to compute from a reading, without a bound. -/
def stamp (ts : Timespec) : Int := ts.tvSec * 1000000 + ts.tvNsec / 100

end Timespec

/-- The stamp of a reading. The division is the one of the code. -/
def getimeMicros (ts : Timespec) : Option Int := do
  let seconds ← checkedInt64 (ts.tvSec * 1000 * 1000)
  checkedInt64 (seconds + ts.tvNsec / 100)

namespace ThreadPool

variable {Task : Type}

/-- A call of any thread or a section of a worker, with what the clock shows in it. -/
inductive ClockedAction (Task : Type) where
  | addTask (task : Task)
  | addPriorityTask (task : Task)
  | addDelayTask (timeval : Int) (ts : Timespec) (task : Task)
  | addTimerTask (timeval : Int) (ts : Timespec) (task : Task)
  | process (worker choice : Nat) (ts requeued : Timespec)

namespace ClockedAction

/-- The readings of the clock. -/
def readings : ClockedAction Task → List Timespec
  | .addTask _ => []
  | .addPriorityTask _ => []
  | .addDelayTask _ ts _ => [ts]
  | .addTimerTask _ ts _ => [ts]
  | .process _ _ ts requeued => [ts, requeued]

/-- The action on the stamps. There is none when a stamp or a due time overflows. -/
def stamped : ClockedAction Task → Option (Action Task)
  | .addTask task => some (.addTask task)
  | .addPriorityTask task => some (.addPriorityTask task)
  | .addDelayTask timeval ts task => do
      let nowtime ← getimeMicros ts
      let _ ← checkedInt64 (timeval + nowtime)
      return .addDelayTask timeval nowtime task
  | .addTimerTask timeval ts task => do
      let nowtime ← getimeMicros ts
      let _ ← checkedInt64 (timeval + nowtime)
      return .addTimerTask timeval nowtime task
  | .process worker choice ts requeued => do
      let nowtime ← getimeMicros ts
      let again ← getimeMicros requeued
      return .process worker choice nowtime again

end ClockedAction

def clockedStep (pool : ThreadPool Task) (action : ClockedAction Task) :
    Option (ThreadPool Task) :=
  action.stamped.bind pool.step

/-- The clock does not go back. -/
def InOrder (actions : List (ClockedAction Task)) : Prop :=
  (actions.flatMap ClockedAction.readings).Pairwise (·.nanos ≤ ·.nanos)

/-- In no run a worker starts the task of a call earlier than it is meant to. -/
def NeverEarly (timeval : Int) (added : Timespec) (task : Task) : Prop :=
  ∀ (threadNum : Nat) (before after : List (ClockedAction Task)) (worker choice : Nat)
    (ts requeued : Timespec) (given taken next : ThreadPool Task),
    InOrder (before ++ .addDelayTask timeval added task ::
      (after ++ [.process worker choice ts requeued])) →
    Runs.run clockedStep (idle threadNum) before = some given →
    Runs.run clockedStep given (.addDelayTask timeval added task :: after) = some taken →
    clockedStep taken (.process worker choice ts requeued) = some next →
    given.nextJob .addDelayTask task ∈ next.started.drop taken.started.length →
    added.nanos + 1000 * timeval ≤ ts.nanos

end ThreadPool

/-- No later reading has a smaller stamp. -/
def GrowsFrom (first : Timespec) : Prop :=
  ∀ second : Timespec, first.nanos ≤ second.nanos →
    ∀ before ∈ getimeMicros first, ∀ after ∈ getimeMicros second, before ≤ after

/-- The stamp of a call or its due time overflows. -/
def Overflows (timeval : Nat) (added : Timespec) : Prop :=
  added.tvSec * 1000000 < -2 ^ 63 ∨
    2 ^ 63 ≤ added.stamp + timeval

/-- The stamps do not reach the due time before the end of the delay. -/
def Keeps (timeval : Nat) (added : Timespec) : Prop :=
  timeval = 0 ∨
    if 1000000 ∣ timeval then 900000000 ≤ added.tvNsec ∧ 100 ∣ added.tvNsec
    else 1000000000 ≤ added.tvNsec + 100 * (timeval % 1000000)

/-! ### Stamps -/

theorem getimeMicros_eq_some_iff {ts : Timespec} {stamp : Int} :
    getimeMicros ts = some stamp ↔
      stamp = ts.stamp ∧ -2 ^ 63 ≤ ts.tvSec * 1000000 ∧ stamp < 2 ^ 63 := by
  have inside := ts.inSecond
  simp only [getimeMicros, Option.bind_eq_bind, Option.bind_eq_some_iff, checkedInt64_eq_some_iff,
    Timespec.stamp]
  constructor
  · rintro ⟨seconds, ⟨rfl, low, -⟩, rfl, -, high⟩
    exact ⟨by omega, by omega, high⟩
  · rintro ⟨rfl, low, high⟩
    exact ⟨_, ⟨rfl, by omega, by omega⟩, by omega, by omega, by omega⟩

theorem tvSec_le_stamp (ts : Timespec) : ts.tvSec * 1000000 ≤ ts.stamp := by
  rw [Timespec.stamp]
  omega

theorem int64_of_not_overflows {timeval : Nat} {added : Timespec}
    (fits : ¬Overflows timeval added) :
    int64 (timeval + added.stamp) = timeval + added.stamp := by
  have seconds := tvSec_le_stamp added
  rw [Overflows, not_or] at fits
  exact int64_eq_self (by omega) (by omega)

/-- The stamp falls back at the end of a second that is more than a tenth of a second old. -/
theorem growsFrom_iff (first : Timespec) :
    GrowsFrom first ↔ Overflows 0 first ∨ first.tvNsec < 100000100 := by
  have inside := first.inSecond
  refine ⟨fun grows => ?_, fun good second ordered before stamped after later => ?_⟩
  · by_contra bad
    simp only [not_or, Overflows, Timespec.stamp] at bad
    have next := grows ⟨first.tvSec + 1, 0, by omega⟩ (by simp only [Timespec.nanos]; omega) _
      (getimeMicros_eq_some_iff.mpr ⟨rfl, by omega, by simp only [Timespec.stamp]; omega⟩) _
      (getimeMicros_eq_some_iff.mpr ⟨rfl, by dsimp only; omega,
        by simp only [Timespec.stamp]; omega⟩)
    simp only [Timespec.stamp] at next
    omega
  · obtain ⟨rfl, low, high⟩ := getimeMicros_eq_some_iff.mp stamped
    obtain ⟨rfl, -, -⟩ := getimeMicros_eq_some_iff.mp later
    rw [Overflows] at good
    simp only [Timespec.nanos] at ordered
    simp only [Timespec.stamp] at good high ⊢
    have nsec := second.inSecond
    omega

/-- A kept delay has passed when a later stamp reaches the due time. -/
theorem Keeps.le_nanos {timeval : Nat} {added ts : Timespec} (keeps : Keeps timeval added)
    (ordered : added.nanos ≤ ts.nanos) (due : timeval + added.stamp ≤ ts.stamp) :
    added.nanos + 1000 * timeval ≤ ts.nanos := by
  have inside := added.inSecond
  have nsec := ts.inSecond
  simp only [Timespec.nanos] at ordered ⊢
  simp only [Timespec.stamp] at due
  rw [Keeps] at keeps
  split_ifs at keeps <;> omega

/-- Another delay has not passed at some reading with the stamp of the due time. -/
theorem exists_early {timeval : Nat} {added : Timespec} (early : ¬Keeps timeval added) :
    ∃ ts : Timespec, added.nanos ≤ ts.nanos ∧ ts.stamp = timeval + added.stamp ∧
      ts.nanos < added.nanos + 1000 * timeval := by
  have inside := added.inSecond
  rw [Keeps, not_or] at early
  by_cases whole : 1000000 ∣ timeval ∧ 900000000 ≤ added.tvNsec
  · -- The delay is a number of seconds and only the rounding of the stamps is lost.
    refine ⟨⟨added.tvSec + timeval / 1000000, 100 * (added.tvNsec / 100), by omega⟩, ?_⟩
    rw [if_pos whole.1] at early
    simp only [Timespec.nanos, Timespec.stamp]
    omega
  · -- The stamps of a second go far enough for what the delay has beyond the full seconds.
    refine ⟨⟨added.tvSec + (timeval - 1) / 1000000,
      100 * (added.tvNsec / 100 + ((timeval - 1) % 1000000 + 1)), ?_⟩, ?_⟩
    · split_ifs at early <;> omega
    · simp only [Timespec.nanos, Timespec.stamp]
      omega

namespace ThreadPool

variable {Task : Type} {pool next : ThreadPool Task}

/-! ### Starts -/

theorem started_takeQueue (pool : ThreadPool Task) (worker : Nat) :
    (pool.takeQueue worker).started = pool.started ++ pool.queue.head?.toList := by
  rw [takeQueue]
  split
  next empty => rw [empty, List.head?_nil, Option.toList_none, List.append_nil]
  next first => rw [first, List.head?_cons, Option.toList_some]

/-- What a section starts was the first of the queue or due. -/
theorem started_process {worker choice : Nat} {nowtime requeued : Int}
    (stepped : pool.process worker choice nowtime requeued = some next) :
    ∃ jobs, next.started = pool.started ++ jobs ∧ ∀ job ∈ jobs, job ∈ pool.queue ∨
      ∃ entry ∈ pool.timerQueue, entry.task = job ∧ entry.execTime ≤ nowtime := by
  have queued : ∀ job ∈ pool.queue.head?.toList, job ∈ pool.queue ∨
      ∃ entry ∈ pool.timerQueue, entry.task = job ∧ entry.execTime ≤ nowtime :=
    fun job member => .inl (List.mem_of_mem_head? (Option.mem_toList.mp member))
  rw [process] at stepped
  split at stepped
  next => exact absurd stepped (Option.some_ne_none _).symm
  next =>
    rw [loopHead] at stepped
    split at stepped
    next =>
      split_ifs at stepped
      obtain rfl := Option.some.inj stepped
      exact ⟨_, started_takeQueue pool worker, queued⟩
    next =>
      obtain ⟨newestask, first, taken⟩ := Option.map_eq_some_iff.mp stepped
      obtain ⟨first, -⟩ := Option.filter_eq_some_iff.mp first
      split_ifs at taken with due <;> subst taken
      · refine ⟨[newestask.task], rfl, fun job member => .inr ⟨newestask, ?_, ?_, due⟩⟩
        · exact List.mem_of_getElem? first
        · exact (List.mem_singleton.mp member).symm
      · exact ⟨_, started_takeQueue pool worker, queued⟩
  next =>
    obtain rfl := Option.some.inj stepped
    exact ⟨_, started_takeQueue _ worker, queued⟩
  next =>
    obtain rfl := Option.some.inj stepped
    exact ⟨[], (List.append_nil _).symm, fun job member => absurd member List.not_mem_nil⟩

/-- A worker at the head of its loop starts the only task of the timer queue when it is due. -/
theorem process_single (worker : Nat) {entry : Timertask Task} {nowtime : Int} (requeued : Int)
    (alone : pool.timerQueue = [entry]) (looping : pool.workers[worker]? = some .looping)
    (due : entry.execTime ≤ nowtime) :
    pool.process worker 0 nowtime requeued = some (pool.takeTimer worker 0 entry requeued) := by
  have first : top [entry] 0 = some entry := by
    simp only [top, List.getElem?_cons_zero, List.all_cons, le_refl, decide_true, List.all_nil,
      Bool.and_self, Option.filter_some, ↓reduceIte]
  simp only [process, looping, loopHead, alone, first, Option.map_some, due, ↓reduceIte]

/-- The task of a call waits in the timer queue, for its time only. -/
structure Waits (pool : ThreadPool Task) (job : Job Task) (execTime : Int) : Prop where
  called : job.call < pool.calls.length
  queued : job ∉ pool.queue
  timed : ∀ entry ∈ pool.timerQueue, entry.task = job →
    entry.flag = false ∧ entry.execTime = execTime

variable {job : Job Task} {execTime : Int}

/-- The job of a later call is another one. -/
theorem Waits.ne_nextJob (waits : pool.Waits job execTime) (entry : Entry) (task : Task) :
    job ≠ pool.nextJob entry task := by
  rintro rfl
  exact absurd waits.called (lt_irrefl _)

theorem Waits.addTimertask (waits : pool.Waits job execTime) (entry : Entry) (task : Task)
    (timeval nowtime : Int) (flag : Bool) :
    (pool.addTimertask (pool.nextJob entry task) timeval nowtime flag).Waits job execTime where
  called := by
    rw [ThreadPool.addTimertask, List.length_append]
    exact Nat.lt_add_right _ waits.called
  queued := waits.queued
  timed := by
    intro other member same
    rcases List.mem_cons.mp member with rfl | before
    · exact absurd same.symm (waits.ne_nextJob entry task)
    · exact waits.timed other before same

theorem Waits.takeQueue (waits : pool.Waits job execTime) (worker : Nat) :
    (pool.takeQueue worker).Waits job execTime := by
  rw [ThreadPool.takeQueue]
  split
  next => exact waits
  next first =>
    refine ⟨waits.called, fun member => waits.queued ?_, waits.timed⟩
    exact first ▸ List.mem_cons_of_mem _ member

theorem Waits.takeTimer (waits : pool.Waits job execTime) {worker choice : Nat}
    {newestask : Timertask Task} (first : pool.timerQueue[choice]? = some newestask)
    (requeued : Int) : (pool.takeTimer worker choice newestask requeued).Waits job execTime := by
  refine ⟨waits.called, waits.queued, fun entry member same => ?_⟩
  simp only [ThreadPool.takeTimer] at member
  split at member
  next periodic =>
    rcases List.mem_cons.mp member with rfl | before
    · have once := (waits.timed _ (List.mem_of_getElem? first) same).1
      exact absurd periodic (Bool.eq_false_iff.mp once)
    · exact waits.timed entry (List.mem_of_mem_eraseIdx before) same
  next => exact waits.timed entry (List.mem_of_mem_eraseIdx member) same

/-- Each section keeps the time that a task waits for. -/
theorem Waits.step (waits : pool.Waits job execTime) {action : Action Task}
    (stepped : ThreadPool.step pool action = some next) : next.Waits job execTime := by
  cases action with
  | addTask task =>
      obtain rfl := Option.some.inj stepped
      refine ⟨?_, fun member => ?_, waits.timed⟩
      · rw [addTask, List.length_append]
        exact Nat.lt_add_right _ waits.called
      · rcases List.mem_append.mp member with before | new
        · exact waits.queued before
        · exact waits.ne_nextJob _ _ (List.mem_singleton.mp new)
  | addPriorityTask task =>
      obtain rfl := Option.some.inj stepped
      refine ⟨?_, fun member => ?_, waits.timed⟩
      · rw [addPriorityTask, List.length_append]
        exact Nat.lt_add_right _ waits.called
      · rcases List.mem_cons.mp member with new | before
        · exact waits.ne_nextJob _ _ new
        · exact waits.queued before
  | addDelayTask timeval nowtime task =>
      obtain rfl := Option.some.inj stepped
      exact waits.addTimertask .addDelayTask task timeval nowtime false
  | addTimerTask timeval nowtime task =>
      obtain rfl := Option.some.inj stepped
      exact waits.addTimertask .addTimerTask task timeval nowtime true
  | process =>
      exact process_induction (·.Waits job execTime) (fun _ waits => waits.takeQueue _)
        (fun requeued _ first waits => waits.takeTimer first requeued)
        (fun _ _ waits => ⟨waits.called, waits.queued, waits.timed⟩) waits stepped

/-- The task of a call waits for the time that the call computes. -/
theorem Sound.waits_addDelayTask (sound : pool.Sound) (timeval nowtime : Int) (task : Task) :
    (pool.addDelayTask timeval nowtime task).Waits (pool.nextJob .addDelayTask task)
      (int64 (timeval + nowtime)) := by
  have unknown : pool.nextJob .addDelayTask task ∉ pool.calls := by
    intro member
    have number := sound.numbered ▸ List.mem_map_of_mem member
    exact absurd (List.mem_range.mp number) (lt_irrefl _)
  have known {job : Job Task} (waits : job ∈ pool.ledger.waiting) : job ∈ pool.calls :=
    Multiset.mem_coe.mp (sound.balanced.waits waits)
  refine ⟨?_, fun member => unknown (known ?_), fun entry member same => ?_⟩
  · rw [addDelayTask, ThreadPool.addTimertask, List.length_append]
    exact Nat.lt_succ_self _
  · exact Multiset.mem_add.mpr (.inl member)
  · rcases List.mem_cons.mp member with rfl | before
    · exact ⟨rfl, rfl⟩
    · refine absurd (known ?_) (same ▸ unknown)
      exact Multiset.mem_add.mpr (.inr (List.mem_map_of_mem before))

/-! ### Runs by the clock -/

theorem clockedStep_eq_some_iff {action : ClockedAction Task} :
    clockedStep pool action = some next ↔
      ∃ stamped, action.stamped = some stamped ∧ step pool stamped = some next :=
  Option.bind_eq_some_iff

theorem stamped_addDelayTask_eq_some_iff {timeval : Nat} {ts : Timespec} {task : Task}
    {action : Action Task} :
    (ClockedAction.addDelayTask timeval ts task).stamped = some action ↔
      ¬Overflows timeval ts ∧ action = .addDelayTask timeval ts.stamp task := by
  have seconds := tvSec_le_stamp ts
  simp only [ClockedAction.stamped, Option.bind_eq_bind, Option.bind_eq_some_iff,
    getimeMicros_eq_some_iff, checkedInt64_eq_some_iff, Option.some.injEq, Option.pure_def,
    Overflows, not_or]
  constructor
  · rintro ⟨stamp, ⟨rfl, low, -⟩, due, ⟨rfl, -, high⟩, rfl⟩
    exact ⟨⟨by omega, by omega⟩, rfl⟩
  · rintro ⟨⟨low, high⟩, rfl⟩
    exact ⟨_, ⟨rfl, by omega, by omega⟩, _, ⟨rfl, by omega, by omega⟩, rfl⟩

theorem stamped_process_eq_some_iff {worker choice : Nat} {ts requeued : Timespec}
    {action : Action Task} :
    (ClockedAction.process worker choice ts requeued).stamped = some action ↔
      ∃ nowtime ∈ getimeMicros ts, ∃ again ∈ getimeMicros requeued,
        .process worker choice nowtime again = action := by
  simp only [ClockedAction.stamped, Option.bind_eq_bind, Option.bind_eq_some_iff, Option.pure_def,
    Option.some.injEq, Option.mem_def]

/-- What sections keep is kept by the clock. -/
theorem run_clocked (holds : ThreadPool Task → Prop)
    (preserved : ∀ {pool action next}, holds pool → step pool action = some next → holds next)
    {start : ThreadPool Task} {actions : List (ClockedAction Task)} (initially : holds start)
    (reached : Runs.run clockedStep start actions = some pool) : holds pool :=
  Runs.invariant holds (fun held stepped => by
    obtain ⟨stamped, -, stepped⟩ := clockedStep_eq_some_iff.mp stepped
    exact preserved held stepped) initially reached

theorem InOrder.le {before after : List (ClockedAction Task)} {first last : ClockedAction Task}
    (ordered : InOrder (before ++ first :: (after ++ [last]))) {earlier later : Timespec}
    (begun : earlier ∈ first.readings) (ended : later ∈ last.readings) :
    earlier.nanos ≤ later.nanos := by
  rw [InOrder, List.flatMap_append, List.flatMap_cons, List.flatMap_append, List.flatMap_singleton]
    at ordered
  have pairs := (List.pairwise_append.mp (List.pairwise_append.mp ordered).2.1).2.2
  exact pairs earlier begun later (List.mem_append_right _ ended)

/-- In all runs the task of a call only starts when the stamp has reached its due time. -/
theorem due_of_started {timeval : Nat} {added ts requeued : Timespec} {task : Task}
    {given taken : ThreadPool Task} {after : List (ClockedAction Task)} {worker choice : Nat}
    (sound : given.Sound)
    (reached : Runs.run clockedStep given (.addDelayTask timeval added task :: after) = some taken)
    (stepped : clockedStep taken (.process worker choice ts requeued) = some next)
    (starts : given.nextJob .addDelayTask task ∈ next.started.drop taken.started.length) :
    ¬Overflows timeval added ∧ timeval + added.stamp ≤ ts.stamp := by
  obtain ⟨begun, called, reached⟩ := Runs.run_cons_eq_some_iff.mp reached
  obtain ⟨action, stamped, called⟩ := clockedStep_eq_some_iff.mp called
  obtain ⟨fits, rfl⟩ := stamped_addDelayTask_eq_some_iff.mp stamped
  obtain rfl := Option.some.inj called
  have waits := run_clocked (·.Waits (given.nextJob .addDelayTask task) _) (·.step ·)
    (sound.waits_addDelayTask timeval added.stamp task) reached
  obtain ⟨action, stamped, stepped⟩ := clockedStep_eq_some_iff.mp stepped
  obtain ⟨nowtime, read, again, -, rfl⟩ := stamped_process_eq_some_iff.mp stamped
  obtain ⟨rfl, -, -⟩ := getimeMicros_eq_some_iff.mp read
  obtain ⟨jobs, started, causes⟩ := started_process stepped
  rw [started, List.drop_left] at starts
  refine ⟨fits, ?_⟩
  rcases causes _ starts with queued | ⟨entry, member, same, due⟩
  · exact absurd queued waits.queued
  · rw [(waits.timed entry member same).2, int64_of_not_overflows fits] at due
    exact due

/-- One worker starts the task of a call as soon as the stamp has reached its due time. -/
theorem exists_started {timeval : Nat} {added ts : Timespec} (task : Task)
    (fits : ¬Overflows timeval added) (due : ts.stamp = timeval + added.stamp)
    (ordered : added.nanos ≤ ts.nanos) :
    ∃ taken next : ThreadPool Task,
      Runs.run clockedStep (idle 1) [.addDelayTask timeval added task] = some taken ∧
      clockedStep taken (.process 0 0 ts ts) = some next ∧
      (idle 1).nextJob .addDelayTask task ∈ next.started.drop taken.started.length := by
  have read : getimeMicros ts = some ts.stamp := by
    rw [Overflows, not_or] at fits
    rw [Timespec.nanos, Timespec.nanos] at ordered
    have inside := ts.inSecond
    have nsec := added.inSecond
    exact getimeMicros_eq_some_iff.mpr ⟨rfl, by omega, by omega⟩
  have execTime : (Timertask.new ((idle 1).nextJob .addDelayTask task) timeval false
      added.stamp).execTime ≤ ts.stamp := by
    rw [due]
    exact (int64_of_not_overflows fits).le
  have called : clockedStep (idle 1) (.addDelayTask timeval added task) =
      some ((idle 1).addDelayTask timeval added.stamp task) :=
    clockedStep_eq_some_iff.mpr ⟨_, stamped_addDelayTask_eq_some_iff.mpr ⟨fits, rfl⟩, rfl⟩
  have started : ((idle 1).addDelayTask timeval added.stamp task).process 0 0 ts.stamp ts.stamp =
      some _ := process_single 0 _ rfl rfl execTime
  exact ⟨_, _, Runs.run_cons_eq_some_iff.mpr ⟨_, called, rfl⟩,
    clockedStep_eq_some_iff.mpr ⟨_, stamped_process_eq_some_iff.mpr ⟨_, read, _, read, rfl⟩,
      started⟩, List.mem_singleton_self _⟩

/-- A delay that is not kept ends early in some run. -/
theorem not_neverEarly_of_not_keeps {timeval : Nat} {added : Timespec} (task : Task)
    (fits : ¬Overflows timeval added) (early : ¬Keeps timeval added) :
    ¬NeverEarly timeval added task := by
  intro never
  obtain ⟨ts, ordered, due, early⟩ := exists_early early
  obtain ⟨taken, next, reached, stepped, starts⟩ := exists_started task fits due ordered
  have readings : InOrder [.addDelayTask timeval added task, .process 0 0 ts ts] := by
    simpa only [InOrder, ClockedAction.readings, List.flatMap_cons, List.flatMap_nil,
      List.cons_append, List.nil_append, List.pairwise_cons, List.forall_mem_cons, le_refl,
      List.not_mem_nil, IsEmpty.forall_iff, implies_true, List.Pairwise.nil, and_true, and_self]
      using ordered
  exact absurd (never 1 [] [] 0 0 ts ts (idle 1) taken next readings rfl reached stepped starts)
    (not_le.mpr early)

/-- **Delayed tasks.** In all runs the task of a call starts in time exactly when the due time
overflows or the delay is kept, and stamps grow from a reading exactly when it is early enough in
its second. -/
theorem neverEarly_iff (timeval : Nat) (added : Timespec) (task : Task) :
    (NeverEarly timeval added task ↔ Overflows timeval added ∨ Keeps timeval added) ∧
    (GrowsFrom added ↔ Overflows 0 added ∨ added.tvNsec < 100000100) := by
  refine ⟨⟨fun never => ?_, fun good => ?_⟩, growsFrom_iff added⟩
  · by_contra bad
    obtain ⟨fits, early⟩ := not_or.mp bad
    exact not_neverEarly_of_not_keeps task fits early never
  · intro threadNum before after worker choice ts requeued given taken next ordered reached later
      stepped starts
    have sound := run_clocked Sound (sound_step · ·) (sound_idle threadNum) reached
    obtain ⟨fits, due⟩ := due_of_started sound later stepped starts
    have keeps := good.resolve_left fits
    exact keeps.le_nanos (ordered.le List.mem_cons_self List.mem_cons_self) due

/-- A delay of five seconds from the start of a second is not kept. -/
theorem not_neverEarly_five_seconds :
    ¬NeverEarly (1000 * 5000 : Nat) ⟨0, 0, by decide⟩ "minos" :=
  not_neverEarly_of_not_keeps "minos" (by simp [Overflows, Timespec.stamp])
    (by simp [Keeps])

end ThreadPool

end LogProcess
