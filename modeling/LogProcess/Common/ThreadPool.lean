import LogProcess.Foundation.MachineInt
import LogProcess.Foundation.Runs
import LogProcess.Foundation.TaskLedger

/-! # Thread pools

Each section of the code that holds the mutex of a `ThreadPool` is one step, before `Stop` is
called. A worker takes a due task of the timer queue, puts it back when it is a periodic one, and
runs it outside the mutex; then, or when no timer is due, it does the same with the first task of
the queue. Sections only move tasks as a `TaskLedger` does (`step_moves`), so that no run loses a
task or starts it twice, and tasks of `AddTask` start in order (`run_orderly`).
-/

namespace LogProcess

variable {Task : Type}

/-- The call that gave a task to the pool. -/
inductive Entry where
  | addTask
  | addPriorityTask
  | addDelayTask
  | addTimerTask
  deriving DecidableEq

/-- A task in the pool. The call and its number are not in the code, which only has the function:
they tell apart what was given to the pool more than once. -/
structure Job (Task : Type) where
  task : Task
  entry : Entry
  call : Nat
  deriving DecidableEq

namespace Job

/-- The task runs again and again. -/
def isTimer (job : Job Task) : Bool := job.entry = .addTimerTask

/-- The task was given to `AddTask`. -/
def isOrdered (job : Job Task) : Bool := job.entry = .addTask

end Job

/-- An entry of the timer queue. -/
structure Timertask (Task : Type) where
  flag : Bool
  task : Job Task
  timeval : Int
  execTime : Int
  deriving DecidableEq

/-- The constructor that reads the clock. The flag in the third place selects it, not the one that
takes the time of execution there. -/
def Timertask.new (task : Job Task) (timeval : Int) (flag : Bool) (nowtime : Int) :
    Timertask Task :=
  ⟨flag, task, timeval, int64 (timeval + nowtime)⟩

/-- Where a worker is between two sections: at the head of its loop, or running a task from the
timer queue or from the queue. -/
inductive Worker (Task : Type) where
  | looping
  | runningTimer (task : Job Task)
  | runningQueued (task : Job Task)
  deriving DecidableEq

/-- The task that a worker runs. -/
def Worker.running : Worker Task → List (Job Task)
  | .looping => []
  | .runningTimer task => [task]
  | .runningQueued task => [task]

def Worker.isRunning : Worker Task → Bool
  | .looping => false
  | _ => true

/-- The members of a pool and its workers. The last three fields are the history of the pool. -/
structure ThreadPool (Task : Type) where
  pendingNum : BitVec 64
  runningNum : BitVec 64
  taskCount : BitVec 64
  queue : List (Job Task)
  timerQueue : List (Timertask Task)
  workers : List (Worker Task)
  calls : List (Job Task)
  started : List (Job Task)
  finished : List (Job Task)
  deriving DecidableEq

namespace ThreadPool

/-- A pool without tasks. -/
def idle (threadNum : Nat) : ThreadPool Task :=
  ⟨0, 0, 0, [], [], List.replicate threadNum .looping, [], [], []⟩

/-- The constructor, which starts the workers. Counting up to a negative number of threads does
not end. -/
def new (threadNum : BitVec 32) : Option (ThreadPool Task) :=
  if threadNum.toInt < 0 then none else some (idle threadNum.toInt.toNat)

/-! ### Calls -/

/-- The job of the next call. -/
def nextJob (pool : ThreadPool Task) (entry : Entry) (task : Task) : Job Task :=
  ⟨task, entry, pool.calls.length⟩

def addTask (pool : ThreadPool Task) (task : Task) : ThreadPool Task :=
  let job := pool.nextJob .addTask task
  { pool with
    queue := pool.queue ++ [job]
    pendingNum := pool.pendingNum + 1
    taskCount := pool.taskCount + 1
    calls := pool.calls ++ [job] }

def addPriorityTask (pool : ThreadPool Task) (task : Task) : ThreadPool Task :=
  let job := pool.nextJob .addPriorityTask task
  { pool with
    queue := job :: pool.queue
    pendingNum := pool.pendingNum + 1
    taskCount := pool.taskCount + 1
    calls := pool.calls ++ [job] }

/-- What `AddDelayTask` and `AddTimerTask` do: the number of pending tasks stays. -/
def addTimertask (pool : ThreadPool Task) (job : Job Task) (timeval nowtime : Int) (flag : Bool) :
    ThreadPool Task :=
  { pool with
    timerQueue := Timertask.new job timeval flag nowtime :: pool.timerQueue
    taskCount := pool.taskCount + 1
    calls := pool.calls ++ [job] }

def addDelayTask (pool : ThreadPool Task) (timeval nowtime : Int) (task : Task) :
    ThreadPool Task :=
  pool.addTimertask (pool.nextJob .addDelayTask task) timeval nowtime false

def addTimerTask (pool : ThreadPool Task) (timeval nowtime : Int) (task : Task) :
    ThreadPool Task :=
  pool.addTimertask (pool.nextJob .addTimerTask task) timeval nowtime true

/-! ### Workers -/

/-- The first entry of the timer queue: one with the least time. The choice is among entries of
the same time, whose order is not specified. -/
def top (timerQueue : List (Timertask Task)) (choice : Nat) : Option (Timertask Task) :=
  timerQueue[choice]?.filter fun first => timerQueue.all (first.execTime ≤ ·.execTime)

/-- Takes the first entry of the timer queue up to the call of its task. -/
def takeTimer (pool : ThreadPool Task) (worker choice : Nat) (newestask : Timertask Task)
    (requeued : Int) : ThreadPool Task :=
  let rest := pool.timerQueue.eraseIdx choice
  { pool with
    timerQueue :=
      if newestask.flag then Timertask.new newestask.task newestask.timeval true requeued :: rest
      else rest
    taskCount := if newestask.flag then pool.taskCount + 1 else pool.taskCount
    runningNum := pool.runningNum + 1
    pendingNum := pool.pendingNum - 1
    workers := pool.workers.set worker (.runningTimer newestask.task)
    started := pool.started ++ [newestask.task] }

/-- The second part of the loop, up to the call of the task or, without one, to the end. -/
def takeQueue (pool : ThreadPool Task) (worker : Nat) : ThreadPool Task :=
  match pool.queue with
  | [] => pool
  | task :: rest =>
      { pool with
        queue := rest
        pendingNum := pool.pendingNum - 1
        runningNum := pool.runningNum + 1
        workers := pool.workers.set worker (.runningQueued task)
        started := pool.started ++ [task] }

/-- The task of a worker has returned and the mutex is taken again. -/
def finish (pool : ThreadPool Task) (worker : Nat) (task : Job Task) : ThreadPool Task :=
  { pool with
    runningNum := pool.runningNum - 1
    workers := pool.workers.set worker .looping
    finished := pool.finished ++ [task] }

/-- The section at the head of the loop. Without any task the worker waits. -/
def loopHead (pool : ThreadPool Task) (worker choice : Nat) (nowtime requeued : Int) :
    Option (ThreadPool Task) :=
  match pool.timerQueue with
  | [] => if pool.queue.isEmpty then none else some (pool.takeQueue worker)
  | _ :: _ => (top pool.timerQueue choice).map fun newestask =>
      if newestask.execTime ≤ nowtime then pool.takeTimer worker choice newestask requeued
      else pool.takeQueue worker

/-- The next section of a worker. After a task of the timer queue it goes on to the queue, after a
task of the queue it has come to the end of the loop. -/
def process (pool : ThreadPool Task) (worker choice : Nat) (nowtime requeued : Int) :
    Option (ThreadPool Task) :=
  match pool.workers[worker]? with
  | none => none
  | some .looping => pool.loopHead worker choice nowtime requeued
  | some (.runningTimer task) => some ((pool.finish worker task).takeQueue worker)
  | some (.runningQueued task) => some (pool.finish worker task)

/-- A call of any thread or a section of a worker, with the times that it reads. -/
inductive Action (Task : Type) where
  | addTask (task : Task)
  | addPriorityTask (task : Task)
  | addDelayTask (timeval nowtime : Int) (task : Task)
  | addTimerTask (timeval nowtime : Int) (task : Task)
  | process (worker choice : Nat) (nowtime requeued : Int)

def step (pool : ThreadPool Task) : Action Task → Option (ThreadPool Task)
  | .addTask task => some (pool.addTask task)
  | .addPriorityTask task => some (pool.addPriorityTask task)
  | .addDelayTask timeval nowtime task => some (pool.addDelayTask timeval nowtime task)
  | .addTimerTask timeval nowtime task => some (pool.addTimerTask timeval nowtime task)
  | .process worker choice nowtime requeued => pool.process worker choice nowtime requeued

/-- What a call gives to the pool. -/
def Action.given? : Action Task → Option (Task × Entry)
  | .addTask task => some (task, .addTask)
  | .addPriorityTask task => some (task, .addPriorityTask)
  | .addDelayTask _ _ task => some (task, .addDelayTask)
  | .addTimerTask _ _ task => some (task, .addTimerTask)
  | .process .. => none

/-- The tasks that the calls among some actions give to the pool, numbered in order. -/
def submissions (actions : List (Action Task)) : List (Job Task) :=
  (actions.filterMap Action.given?).mapIdx fun call given => ⟨given.1, given.2, call⟩

/-- A section of a worker ends a task, takes one, or does the first and then the second. -/
theorem process_induction (holds : ThreadPool Task → Prop)
    (takesQueue : ∀ {pool : ThreadPool Task} {worker : Nat},
      pool.workers[worker]? = some .looping → holds pool → holds (pool.takeQueue worker))
    (takesTimer : ∀ {pool : ThreadPool Task} {worker choice : Nat} {newestask : Timertask Task}
      (requeued : Int), pool.workers[worker]? = some .looping →
      pool.timerQueue[choice]? = some newestask → holds pool →
        holds (pool.takeTimer worker choice newestask requeued))
    (finishes : ∀ {pool : ThreadPool Task} {worker : Nat} {before : Worker Task} {task : Job Task},
      pool.workers[worker]? = some before → before.running = [task] → holds pool →
        holds (pool.finish worker task))
    {pool next : ThreadPool Task} (initially : holds pool) {worker choice : Nat}
    {nowtime requeued : Int}
    (stepped : pool.process worker choice nowtime requeued = some next) : holds next := by
  rw [process] at stepped
  split at stepped
  next => exact absurd stepped (Option.some_ne_none _).symm
  next looping =>
    rw [loopHead] at stepped
    split at stepped
    next =>
      split_ifs at stepped
      obtain rfl := Option.some.inj stepped
      exact takesQueue looping initially
    next =>
      obtain ⟨newestask, first, taken⟩ := Option.map_eq_some_iff.mp stepped
      obtain ⟨first, -⟩ := Option.filter_eq_some_iff.mp first
      split_ifs at taken <;> subst taken
      · exact takesTimer requeued looping first initially
      · exact takesQueue looping initially
  next task runs =>
    obtain rfl := Option.some.inj stepped
    refine takesQueue ?_ (finishes runs rfl initially)
    exact List.getElem?_set_self (List.getElem?_eq_some_iff.mp runs).1
  next task runs =>
    obtain rfl := Option.some.inj stepped
    exact finishes runs rfl initially

/-! ### Where the tasks are -/

/-- The tasks that workers run. -/
def running (pool : ThreadPool Task) : List (Job Task) := pool.workers.flatMap Worker.running

/-- The places of the tasks. -/
def ledger (pool : ThreadPool Task) : TaskLedger (Job Task) where
  submitted := pool.calls
  waiting := pool.queue + pool.timerQueue.map Timertask.task
  started := pool.started
  running := pool.running
  finished := pool.finished

theorem coe_concat (jobs : List (Job Task)) (job : Job Task) :
    ((jobs ++ [job] : List (Job Task)) : Multiset (Job Task)) = job ::ₘ jobs :=
  Multiset.coe_eq_coe.mpr (List.perm_append_singleton job jobs)

/-- The running tasks change by those of the worker that moves on. -/
theorem flatMap_set_running {workers : List (Worker Task)} {worker : Nat} {before : Worker Task}
    (found : workers[worker]? = some before) (after : Worker Task) :
    (((workers.set worker after).flatMap Worker.running : List (Job Task)) :
        Multiset (Job Task)) + before.running =
      workers.flatMap Worker.running + after.running := by
  induction workers generalizing worker with
  | nil => exact absurd found (Option.some_ne_none _).symm
  | cons first rest ih =>
      cases worker with
      | zero =>
          obtain rfl := Option.some.inj found
          simp only [List.set_cons_zero, List.flatMap_cons, ← Multiset.coe_add]
          abel
      | succ worker =>
          have later := ih found
          simp only [List.set_cons_succ, List.flatMap_cons, ← Multiset.coe_add]
          rw [add_assoc, later, add_assoc]

/-- What holds of a pool at every boundary of a section. -/
structure Sound (pool : ThreadPool Task) : Prop where
  numbered : pool.calls.map Job.call = List.range pool.calls.length
  flagged : ∀ entry ∈ pool.timerQueue, entry.flag = entry.task.isTimer
  timed : ∀ entry ∈ pool.timerQueue, entry.task.isOrdered = false
  queued : ∀ job ∈ pool.queue, job.isTimer = false
  balanced : TaskLedger.Balanced Job.isTimer pool.ledger
  ordered : pool.started.filter Job.isOrdered ++ pool.queue.filter Job.isOrdered =
    pool.calls.filter Job.isOrdered
  runningNum : pool.runningNum = BitVec.ofNat 64 pool.running.length

/-! ### Sections keep the tasks together -/

theorem running_idle (threadNum : Nat) : (idle threadNum : ThreadPool Task).running = [] := by
  rw [running, List.flatMap_eq_nil_iff]
  intro worker member
  rw [List.eq_of_mem_replicate member]
  rfl

theorem sound_idle (threadNum : Nat) : (idle threadNum : ThreadPool Task).Sound where
  numbered := rfl
  flagged := nofun
  timed := nofun
  queued := nofun
  balanced := by
    rw [ledger, running_idle]
    exact TaskLedger.balanced_empty _
  ordered := rfl
  runningNum := by
    rw [running_idle]
    rfl

theorem eq_idle_of_new {threadNum : BitVec 32} {pool : ThreadPool Task}
    (created : new threadNum = some pool) : pool = idle threadNum.toInt.toNat := by
  rw [new] at created
  split_ifs at created
  exact (Option.some.inj created).symm

variable {pool : ThreadPool Task}

/-- The calls stay numbered. -/
theorem Sound.numbered_concat (sound : pool.Sound) (entry : Entry) (task : Task) :
    (pool.calls ++ [pool.nextJob entry task]).map Job.call =
      List.range (pool.calls ++ [pool.nextJob entry task]).length := by
  rw [List.map_append, sound.numbered, List.length_append, List.length_singleton, List.range_succ]
  rfl

/-- A call keeps the balance when its task comes to wait. -/
theorem Sound.balanced_submit (sound : pool.Sound) {job : Job Task} {queue : List (Job Task)}
    {timerQueue : List (Timertask Task)} {pendingNum taskCount : BitVec 64}
    (waits : (queue + timerQueue.map Timertask.task : Multiset (Job Task)) =
      job ::ₘ (pool.queue + pool.timerQueue.map Timertask.task)) :
    TaskLedger.Balanced Job.isTimer
      (ledger { pool with
        queue := queue
        timerQueue := timerQueue
        pendingNum := pendingNum
        taskCount := taskCount
        calls := pool.calls ++ [job] }) := by
  have moved := sound.balanced.of_move (.submit _ job)
  rw [ledger] at moved ⊢
  rw [waits, coe_concat]
  exact moved

theorem sound_addTask (sound : pool.Sound) (task : Task) : (pool.addTask task).Sound where
  numbered := sound.numbered_concat _ _
  flagged := sound.flagged
  timed := sound.timed
  queued := by
    intro job member
    rcases List.mem_append.mp member with before | new
    · exact sound.queued job before
    · obtain rfl := List.mem_singleton.mp new
      rfl
  balanced := sound.balanced_submit (by rw [coe_concat, Multiset.cons_add])
  ordered := by
    have last : [pool.nextJob .addTask task].filter Job.isOrdered =
      [pool.nextJob .addTask task] := rfl
    simp only [addTask, List.filter_append, last, ← List.append_assoc, sound.ordered]
  runningNum := sound.runningNum

theorem sound_addPriorityTask (sound : pool.Sound) (task : Task) :
    (pool.addPriorityTask task).Sound where
  numbered := sound.numbered_concat _ _
  flagged := sound.flagged
  timed := sound.timed
  queued := by
    intro job member
    rcases List.mem_cons.mp member with rfl | before
    · rfl
    · exact sound.queued job before
  balanced := sound.balanced_submit (by rw [← Multiset.cons_coe, Multiset.cons_add])
  ordered := by
    have other (rest : List (Job Task)) :
        (pool.nextJob .addPriorityTask task :: rest).filter Job.isOrdered =
          rest.filter Job.isOrdered := rfl
    simp only [addPriorityTask, List.filter_append, other, List.filter_nil, List.append_nil,
      sound.ordered]
  runningNum := sound.runningNum

theorem sound_addTimertask (sound : pool.Sound) (entry : Entry) (late : entry ≠ .addTask)
    (task : Task) (timeval nowtime : Int) :
    (pool.addTimertask (pool.nextJob entry task) timeval nowtime
      (pool.nextJob entry task).isTimer).Sound where
  numbered := sound.numbered_concat _ _
  flagged := by
    intro other member
    rcases List.mem_cons.mp member with rfl | before
    · rfl
    · exact sound.flagged other before
  timed := by
    intro other member
    rcases List.mem_cons.mp member with rfl | before
    · exact decide_eq_false late
    · exact sound.timed other before
  queued := sound.queued
  balanced := sound.balanced_submit (by
    rw [List.map_cons, ← Multiset.cons_coe, Multiset.add_cons, Timertask.new])
  ordered := by
    have last : [pool.nextJob entry task].filter Job.isOrdered = [] :=
      List.filter_cons_of_neg fun given => late (of_decide_eq_true given)
    simp only [addTimertask, List.filter_append, last, List.append_nil, sound.ordered]
  runningNum := sound.runningNum

/-! ### Sections of a worker -/

section Sections

variable {worker : Nat}

/-- Running tasks when a worker starts one. -/
theorem running_set_of_looping (found : pool.workers[worker]? = some .looping) (after : Worker Task)
    {task : Job Task} (runs : after.running = [task]) :
    (((pool.workers.set worker after).flatMap Worker.running : List (Job Task)) :
      Multiset (Job Task)) = task ::ₘ pool.running := by
  have changed := flatMap_set_running found after
  rw [runs] at changed
  rw [← Multiset.singleton_add, add_comm, running]
  simpa only [Worker.running, Multiset.coe_nil, add_zero, Multiset.coe_singleton] using changed

/-- Running tasks when a worker ends one. -/
theorem running_eq_cons {before : Worker Task} (found : pool.workers[worker]? = some before)
    {task : Job Task} (ran : before.running = [task]) :
    (pool.running : Multiset (Job Task)) = task ::ₘ
      (((pool.workers.set worker .looping).flatMap Worker.running : List (Job Task)) :
        Multiset (Job Task)) := by
  have changed := flatMap_set_running found .looping
  rw [ran] at changed
  rw [← Multiset.singleton_add, add_comm, running]
  simpa only [Worker.running, Multiset.coe_nil, add_zero, Multiset.coe_singleton]
    using changed.symm

theorem length_eq_of_coe_eq_cons {jobs rest : List (Job Task)} {task : Job Task}
    (equal : (jobs : Multiset (Job Task)) = task ::ₘ rest) : jobs.length = rest.length + 1 := by
  have sizes := congrArg Multiset.card equal
  rwa [Multiset.coe_card, Multiset.card_cons, Multiset.coe_card] at sizes

/-- The counter when a worker starts a task. -/
theorem Sound.runningNum_succ (sound : pool.Sound) {jobs : List (Job Task)} {task : Job Task}
    (runs : (jobs : Multiset (Job Task)) = task ::ₘ pool.running) :
    pool.runningNum + 1 = BitVec.ofNat 64 jobs.length := by
  rw [sound.runningNum, length_eq_of_coe_eq_cons runs, BitVec.ofNat_add]
  rfl

/-- The end of a task. -/
theorem sound_finish (sound : pool.Sound) {before : Worker Task}
    (found : pool.workers[worker]? = some before) {task : Job Task}
    (ran : before.running = [task]) : (pool.finish worker task).Sound where
  numbered := sound.numbered
  flagged := sound.flagged
  timed := sound.timed
  queued := sound.queued
  balanced := by
    have rest := running_eq_cons found ran
    have moved : (pool.finish worker task).ledger = { pool.ledger with
        running := (pool.finish worker task).running
        finished := task ::ₘ pool.ledger.finished } := by
      simp only [ledger, finish, coe_concat]
    rw [moved]
    exact sound.balanced.of_move (.finish _ _ _ rest)
  ordered := sound.ordered
  runningNum := by
    have fewer := length_eq_of_coe_eq_cons (running_eq_cons found ran)
    change pool.runningNum - 1 = BitVec.ofNat 64 _
    rw [sound.runningNum, fewer, BitVec.ofNat_add]
    exact BitVec.add_sub_cancel _ _

/-- The start of the first task of the queue. -/
theorem sound_takeQueue (sound : pool.Sound) (found : pool.workers[worker]? = some .looping) :
    (pool.takeQueue worker).Sound := by
  rw [takeQueue]
  split
  next => exact sound
  next task rest first =>
    have once : task.isTimer = false := sound.queued task (first ▸ List.mem_cons_self)
    have runs := running_set_of_looping found (.runningQueued task) rfl
    refine ⟨sound.numbered, sound.flagged, sound.timed, ?_, ?_, ?_, ?_⟩
    · exact fun job member => sound.queued job (first ▸ List.mem_cons_of_mem _ member)
    · have moved := sound.balanced.of_move (.start _ task
        (rest + pool.timerQueue.map Timertask.task) once (by
          simp only [ledger, first, ← Multiset.cons_coe, Multiset.cons_add]))
      convert moved using 1
      simp only [ledger, coe_concat, running, runs]
    · rw [List.filter_append, List.append_assoc, ← List.filter_append, List.singleton_append,
        ← first]
      exact sound.ordered
    · exact sound.runningNum_succ runs

/-- The tasks of the timer queue without one entry. -/
theorem coe_map_eq_cons {timerQueue : List (Timertask Task)} {choice : Nat}
    {newestask : Timertask Task} (first : timerQueue[choice]? = some newestask) :
    (timerQueue.map Timertask.task : Multiset (Job Task)) =
      newestask.task ::ₘ (timerQueue.eraseIdx choice).map Timertask.task := by
  obtain ⟨inside, rfl⟩ := List.getElem?_eq_some_iff.mp first
  exact Multiset.coe_eq_coe.mpr
    ((List.getElem_cons_eraseIdx_perm inside).map Timertask.task).symm

/-- What waits after the start of a task waited before it, perhaps for another time. -/
theorem exists_of_mem_takeTimer {choice : Nat} {newestask entry : Timertask Task}
    (first : pool.timerQueue[choice]? = some newestask) {requeued : Int}
    (member : entry ∈ (pool.takeTimer worker choice newestask requeued).timerQueue) :
    ∃ before ∈ pool.timerQueue, entry.flag = before.flag ∧ entry.task = before.task := by
  simp only [takeTimer] at member
  split at member
  next periodic =>
    rcases List.mem_cons.mp member with rfl | before
    · exact ⟨newestask, List.mem_of_getElem? first, periodic.symm, rfl⟩
    · exact ⟨entry, List.mem_of_mem_eraseIdx before, rfl, rfl⟩
  next => exact ⟨entry, List.mem_of_mem_eraseIdx member, rfl, rfl⟩

/-- The start of a task of the timer queue, which waits again when it is periodic. -/
theorem sound_takeTimer (sound : pool.Sound) (found : pool.workers[worker]? = some .looping)
    {choice : Nat} {newestask : Timertask Task}
    (first : pool.timerQueue[choice]? = some newestask) (requeued : Int) :
    (pool.takeTimer worker choice newestask requeued).Sound := by
  have present := List.mem_of_getElem? first
  have flag := sound.flagged _ present
  have runs := running_set_of_looping found (.runningTimer newestask.task) rfl
  have rest := coe_map_eq_cons first
  refine ⟨sound.numbered, ?_, ?_, sound.queued, ?_, ?_, ?_⟩
  · intro entry member
    obtain ⟨before, waited, sameFlag, sameTask⟩ := exists_of_mem_takeTimer first member
    rw [sameFlag, sameTask]
    exact sound.flagged before waited
  · intro entry member
    obtain ⟨before, waited, -, sameTask⟩ := exists_of_mem_takeTimer first member
    rw [sameTask]
    exact sound.timed before waited
  · cases periodic : newestask.flag with
    | true =>
        have moved := sound.balanced.of_move (.restart _ newestask.task (flag ▸ periodic)
          (Multiset.mem_add.mpr (.inr (List.mem_map_of_mem present))))
        convert moved using 1
        simp only [ledger, takeTimer, periodic, ↓reduceIte, Timertask.new, coe_concat, running,
          runs, List.map_cons, ← Multiset.cons_coe, rest]
    | false =>
        have moved := sound.balanced.of_move (.start _ newestask.task
          (pool.queue + (pool.timerQueue.eraseIdx choice).map Timertask.task) (flag ▸ periodic) (by
            simp only [ledger, rest, Multiset.add_cons]))
        convert moved using 1
        simp only [ledger, takeTimer, periodic, Bool.false_eq_true, ↓reduceIte, coe_concat, running,
          runs]
  · have other : [newestask.task].filter Job.isOrdered = [] :=
      List.filter_cons_of_neg (Bool.eq_false_iff.mp (sound.timed _ present))
    change (pool.started ++ [newestask.task]).filter Job.isOrdered ++ _ = _
    rw [List.filter_append, other, List.append_nil]
    exact sound.ordered
  · exact sound.runningNum_succ runs

end Sections

/-- **Each section keeps the pool sound.** -/
theorem sound_step (sound : pool.Sound) {action : Action Task} {next : ThreadPool Task}
    (stepped : step pool action = some next) : next.Sound := by
  cases action with
  | addTask task =>
      obtain rfl := Option.some.inj stepped
      exact sound_addTask sound task
  | addPriorityTask task =>
      obtain rfl := Option.some.inj stepped
      exact sound_addPriorityTask sound task
  | addDelayTask timeval nowtime task =>
      obtain rfl := Option.some.inj stepped
      exact sound_addTimertask sound .addDelayTask (by decide) task timeval nowtime
  | addTimerTask timeval nowtime task =>
      obtain rfl := Option.some.inj stepped
      exact sound_addTimertask sound .addTimerTask (by decide) task timeval nowtime
  | process =>
      exact process_induction Sound (fun looping sound => sound_takeQueue sound looping)
        (fun requeued looping first sound => sound_takeTimer sound looping first requeued)
        (fun runs ran sound => sound_finish sound runs ran) sound stepped

/-! ### Calls and workers of a run -/

/-- A section of a worker adds no call and no worker. -/
theorem frame_process {worker choice : Nat} {nowtime requeued : Int} {next : ThreadPool Task}
    (stepped : pool.process worker choice nowtime requeued = some next) :
    next.calls = pool.calls ∧ next.workers.length = pool.workers.length := by
  have moved {calls : List (Job Task)} {count : Nat} (workers : List (Worker Task)) (worker : Nat)
      (after : Worker Task) (frame : calls = pool.calls ∧ workers.length = count) :
      calls = pool.calls ∧ (workers.set worker after).length = count :=
    ⟨frame.1, List.length_set.trans frame.2⟩
  refine process_induction (fun next => next.calls = pool.calls ∧
    next.workers.length = pool.workers.length) (fun _ frame => ?_) (fun _ _ _ => moved _ _ _)
    (fun _ _ => moved _ _ _) ⟨rfl, rfl⟩ stepped
  rw [takeQueue]
  split
  next => exact frame
  next => exact moved _ _ _ frame

theorem length_workers_step {action : Action Task} {next : ThreadPool Task}
    (stepped : step pool action = some next) : next.workers.length = pool.workers.length := by
  cases action with
  | process => exact (frame_process stepped).2
  | _ => rw [← Option.some.inj stepped]; rfl

theorem submissions_concat (actions : List (Action Task)) (action : Action Task) :
    submissions (actions ++ [action]) = submissions actions ++
      (action.given?.map fun given => ⟨given.1, given.2, (submissions actions).length⟩).toList := by
  simp only [submissions, List.filterMap_append, List.mapIdx_append, List.length_mapIdx]
  cases given : action.given? with
  | none => simp only [List.filterMap_cons, given, List.filterMap_nil, List.mapIdx_nil,
      Option.map_none, Option.toList_none]
  | some job => simp only [List.filterMap_cons, given, List.filterMap_nil, List.mapIdx_cons,
      List.mapIdx_nil, Nat.zero_add, Option.map_some, Option.toList_some]

/-- The calls of a pool are those of its run. -/
theorem calls_eq_submissions {start pool : ThreadPool Task} {actions : List (Action Task)}
    (initial : start.calls = []) (reached : Runs.run step start actions = some pool) :
    pool.calls = submissions actions := by
  refine Runs.invariant_of_actions (fun actions pool => pool.calls = submissions actions) initial
    (fun {actions state action next} calls stepped => ?_) reached
  rw [submissions_concat, ← calls]
  cases action with
  | process => rw [(frame_process stepped).1]; exact (List.append_nil _).symm
  | _ => rw [← Option.some.inj stepped]; rfl

/-! ### Runs -/

/-- How often the task of a call is in some place. -/
def times (job : Job Task) (jobs : List (Job Task)) : Nat := (jobs.map Job.call).count job.call

/-- **What a pool does with the tasks that were given to it.** -/
structure Orderly (pool : ThreadPool Task) (given : List (Job Task)) : Prop where
  known : ∀ job ∈ pool.queue ++ pool.timerQueue.map Timertask.task ++ pool.running ++
    pool.finished, job ∈ given
  oncePlaced : ∀ job ∈ given, job.entry ≠ .addTimerTask →
    times job pool.queue + times job (pool.timerQueue.map Timertask.task) +
      times job pool.running + times job pool.finished = 1
  onceStarted : ∀ job ∈ given, job.entry ≠ .addTimerTask → times job pool.started ≤ 1
  timerPending : ∀ job ∈ given, job.entry = .addTimerTask →
    times job (pool.timerQueue.map Timertask.task) = 1
  runningNum : pool.runningNum.toNat = pool.workers.countP Worker.isRunning
  inOrder : pool.started.filter Job.isOrdered <+: given.filter Job.isOrdered

theorem length_running (pool : ThreadPool Task) :
    pool.running.length = pool.workers.countP Worker.isRunning := by
  rw [running]
  induction pool.workers with
  | nil => rfl
  | cons first rest ih =>
      rw [List.flatMap_cons, List.length_append, ih, List.countP_cons, Nat.add_comm]
      cases first <;> rfl

theorem times_eq_count (job : Job Task) (jobs : List (Job Task)) :
    times job jobs = ((jobs : Multiset (Job Task)).map Job.call).count job.call := by
  rw [times, Multiset.map_coe, Multiset.coe_count]

theorem Sound.distinct (sound : pool.Sound) : (pool.ledger.submitted.map Job.call).Nodup := by
  rw [ledger, Multiset.map_coe, sound.numbered]
  exact Multiset.coe_nodup.mpr List.nodup_range

/-- A periodic task is not in the queue. -/
theorem Sound.times_queue (sound : pool.Sound) {job : Job Task} (given : job ∈ pool.calls)
    (timer : job.entry = .addTimerTask) : times job pool.queue = 0 := by
  have known : (pool.queue : Multiset (Job Task)) ⊆ pool.ledger.submitted := fun _ member =>
    sound.balanced.waits (Multiset.mem_add.mpr (.inl member))
  have none : (pool.queue : Multiset (Job Task)).filter (Job.isTimer · = true) = 0 :=
    Multiset.filter_eq_nil.mpr fun other member =>
      Bool.eq_false_iff.mp (sound.queued other member)
  have again : job.isTimer = true := decide_eq_true timer
  rw [times_eq_count, ← TaskLedger.count_filter_eq sound.distinct known given again, none,
    Multiset.map_zero, Multiset.count_zero]

theorem Sound.orderly (sound : pool.Sound) (few : pool.workers.length < 2 ^ 64) :
    pool.Orderly pool.calls := by
  have balanced := sound.balanced
  refine ⟨fun job member => ?_, fun job given other => ?_, fun job given other => ?_,
    fun job given timer => ?_, ?_, ⟨pool.queue.filter Job.isOrdered, sound.ordered⟩⟩
  · rcases List.mem_append.mp member with member | finished
    · rcases List.mem_append.mp member with waiting | running
      · exact balanced.waits (Multiset.mem_add.mpr (List.mem_append.mp waiting))
      · exact balanced.starts (balanced.places ▸ Multiset.mem_add.mpr (.inl running))
    · exact balanced.starts (balanced.places ▸ Multiset.mem_add.mpr (.inr finished))
  · have once := balanced.count_once sound.distinct given (decide_eq_false other)
    simpa only [times_eq_count, ledger, Multiset.map_add, Multiset.count_add] using once
  · rw [times_eq_count]
    exact balanced.count_started_le sound.distinct given (decide_eq_false other)
  · have pending := balanced.count_periodic sound.distinct given (decide_eq_true timer)
    rw [ledger, Multiset.map_add, Multiset.count_add, ← times_eq_count, ← times_eq_count,
      sound.times_queue given timer, Nat.zero_add] at pending
    exact pending
  · rw [sound.runningNum, BitVec.toNat_ofNat, length_running]
    exact Nat.mod_eq_of_lt (List.countP_le_length.trans_lt few)

theorem length_workers_idle (threadNum : BitVec 32) :
    (idle threadNum.toInt.toNat : ThreadPool Task).workers.length < 2 ^ 64 := by
  have bound := BitVec.toInt_lt (x := threadNum)
  rw [idle, List.length_replicate]
  omega

/-- **Thread pools lose and double nothing.** After any calls and sections of the workers each task
that was given once is in one place and was started at most once, each periodic task is pending,
and the tasks of `AddTask` were started in their order. -/
theorem run_orderly (threadNum : BitVec 32) {start : ThreadPool Task}
    (created : new threadNum = some start) (actions : List (Action Task))
    (reached : Runs.run step start actions = some pool) : pool.Orderly (submissions actions) := by
  obtain rfl := eq_idle_of_new created
  have sound := Runs.invariant Sound (fun sound stepped => sound_step sound stepped)
    (sound_idle _) reached
  have few := Runs.invariant (fun pool : ThreadPool Task => pool.workers.length < 2 ^ 64)
    (fun few stepped => (length_workers_step stepped).trans_lt few) (length_workers_idle threadNum)
    reached
  rw [← calls_eq_submissions rfl reached]
  exact sound.orderly few

/-- Two workers, a periodic task that is due at once, a delayed one and two tasks of the queue. -/
theorem run_orderly_of_two_workers :
    ∃ pool : ThreadPool String,
      Runs.run step (idle 2)
        [.addTimerTask 0 5 "dump", .addDelayTask 9 5 "stop", .addTask "first", .addTask "second",
          .process 0 1 5 6, .process 1 0 5 5, .process 0 0 0 0] = some pool ∧
      pool.Orderly (submissions
        [.addTimerTask 0 5 "dump", .addDelayTask 9 5 "stop", .addTask "first", .addTask "second",
          .process 0 1 5 6, .process 1 0 5 5, .process 0 0 0 0]) :=
  ⟨_, rfl, run_orderly 2 rfl _ rfl⟩

end ThreadPool

end LogProcess
