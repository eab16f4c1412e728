import LogProcess.Common.LockFreeQueueHistories

/-! # Consumers of the lock-free queue

A call that no other thread interrupts does what it does on one thread (`LFQ.run_tryPush`,
`LFQ.run_tryPop`). When two threads take values out, one of them can be overtaken by the other
before it has cleared its slot, until the counters have gone around: the other one then finds the
old value in the slot of a value that is not stored yet, and both are answered with it. The queue
therefore acts as an atomic one in all runs exactly when only one thread takes values out
(`LFQ.linearizable_iff`).
-/

namespace LogProcess.LFQ

open AtomicObject

variable {Thread Value : Type}

/-! ### Calls without interruption -/

section Alone

/-- The steps of a call that succeeds. -/
def alone (thread : Thread) (call : Call Value) : List (Act Thread Value) :=
  .call thread call :: List.replicate 7 (.step thread)

/-- What is seen of it. -/
def answered (thread : Thread) (call : Call Value) (answer : Answer Value) :
    List (Event Thread (Call Value) (Answer Value)) :=
  [.call thread call, .answer thread answer]

/-- A pop among the steps of one call. -/
theorem pops_of_mem {thread other : Thread} {call : Call Value} {count : Nat}
    (member : Act.call thread .tryPop ∈ .call other call :: List.replicate count (.step other)) :
    thread = other ∧ call = .tryPop := by
  rcases List.mem_cons.mp member with here | later
  · obtain ⟨same, pops⟩ := Act.call.inj here
    exact ⟨same, pops.symm⟩
  · cases List.eq_of_mem_replicate later

theorem item?_set (next : Item Value) {items : List (Item Value)} {slot : Int} {item : Item Value}
    {capacity head tail : Int} (found : (mk capacity head tail items).item? slot = some item)
    (capacity' head' tail' : Int) :
    (mk capacity' head' tail' (items.set slot.toNat next)).item? slot = some next := by
  rw [item?, Option.ite_none_right_eq_some] at found
  rw [item?, if_pos found.1, List.getElem?_set_self (List.getElem?_eq_some_iff.mp found.2).1]

theorem set_of_item? {lfq : LFQ Value} {slot : Int} {item : Item Value}
    (found : lfq.item? slot = some item) : lfq.itemlist.set slot.toNat item = lfq.itemlist := by
  rw [item?, Option.ite_none_right_eq_some] at found
  obtain ⟨inside, rfl⟩ := List.getElem?_eq_some_iff.mp found.2
  exact List.set_getElem_self inside

variable [DecidableEq Thread] (config : Threads Thread Value) {thread : Thread} {lfq : LFQ Value}
  {value : Value} (idle : config.phase thread = .idle)
include idle

/-- A push of one thread. -/
theorem run_tryPush (returned : config.lfq.tryPush value = .returned true lfq) :
    Runs.run Threads.step config (alone thread (.tryPush value)) = some
      { lfq := lfq, phase := config.phase, pushed := config.pushed ++ [value]
        history := config.history ++ answered thread (.tryPush value) (.pushed true) } := by
  rw [tryPush] at returned
  dsimp only at returned
  split at returned
  · cases returned
  rename_i space
  split at returned
  · cases returned
  rename_i item found
  split at returned
  · cases returned
  rename_i unreadable
  obtain ⟨-, rfl⟩ := Outcome.returned.inj returned
  have back : Function.update config.phase thread .idle = config.phase := by
    rw [← idle, Function.update_eq_self]
  have here (capacity head tail : Int) :
      (mk capacity head tail config.lfq.itemlist).item?
        (config.lfq.tail.tmod config.lfq.capacity) = some item := found
  simp only [Runs.run, alone, answered, List.replicate, List.foldlM_cons, List.foldlM_nil,
    Threads.step, idle,
    Threads.turn, Threads.enter, Function.update_self, Threads.act, Option.bind_eq_bind,
    Option.bind_some, space, if_false, if_true, Threads.touch, here, unreadable, item?_set _ found,
    List.set_set, Function.update_idem, back, Option.pure_def, List.append_assoc,
    List.singleton_append, Bool.false_eq_true]

/-- A pop of one thread. -/
theorem run_tryPop (returned : config.lfq.tryPop = .returned (some value) lfq) :
    Runs.run Threads.step config (alone thread .tryPop) = some
      { lfq := lfq, phase := config.phase, pushed := config.pushed
        history := config.history ++ answered thread .tryPop (.popped (some value)) } := by
  rw [tryPop] at returned
  split at returned
  · cases returned
  rename_i present
  dsimp only at returned
  split at returned
  · cases returned
  rename_i item found
  split at returned
  · rename_i readable
    obtain ⟨same, rfl⟩ := Outcome.returned.inj returned
    obtain rfl := Option.some.inj same
    have back : Function.update config.phase thread .idle = config.phase := by
      rw [← idle, Function.update_eq_self]
    have here (capacity head tail : Int) :
        (mk capacity head tail config.lfq.itemlist).item?
          (config.lfq.head.tmod config.lfq.capacity) = some item := found
    simp only [Runs.run, alone, answered, List.replicate, List.foldlM_cons, List.foldlM_nil,
    Threads.step, idle,
      Threads.turn, Threads.enter, Function.update_self, Threads.act, Option.bind_eq_bind,
      Option.bind_some, present, if_false, if_true, Threads.touch, here, readable,
      set_of_item? found, Function.update_idem, back, Option.pure_def, List.append_assoc,
      List.singleton_append]
  · cases returned

omit idle in
/-- A thread that has copied a value returns it. -/
theorem run_popReadable {head : Int} {item : Item Value}
    (copied : config.phase thread = .popReadable head value)
    (found : config.lfq.item? (head.tmod config.lfq.capacity) = some item) :
    ∃ next, Runs.run Threads.step config (List.replicate 2 (.step thread)) = some next ∧
      next.pushed = config.pushed ∧
      next.history = config.history ++ [.answer thread (.popped (some value))] := by
  simp only [Runs.run, List.replicate, List.foldlM_cons, List.foldlM_nil, Threads.step, copied,
    Threads.act, Threads.touch, found, Option.bind_eq_bind, Option.bind_some, Threads.turn,
    Function.update_self, Option.pure_def, Option.some.injEq, exists_eq_left', and_self]

end Alone

/-! ### Values that are conserved -/

section Conserved

variable [DecidableEq Value] (value : Value)

/-- How many times a call adds a value. -/
def adds : Call Value → Nat
  | .tryPush pushed => if pushed = value then 1 else 0
  | .tryPop => 0

/-- How many times an answer has taken it out. -/
def takes : Answer Value → Nat
  | .pushed _ => 0
  | .popped popped => if popped = some value then 1 else 0

/-- An atomic queue makes no copies. -/
theorem balanced_apply {room : Nat} (call : Call Value) (queue : BoundedQueue Value room) :
    (apply call queue).2.entries.count value + takes value (apply call queue).1 ≤
      queue.entries.count value + adds value call := by
  cases call with
  | tryPush pushed =>
      by_cases hasRoom : queue.HasRoom
      · rw [apply, BoundedQueue.entries_push hasRoom, List.count_append, List.count_singleton,
          takes, adds, Nat.add_zero]
        simp only [beq_iff_eq, le_refl]
      · rw [apply, BoundedQueue.push_of_full hasRoom, takes]
        exact Nat.le_add_right _ _
  | tryPop =>
      rw [apply, BoundedQueue.entries_pop, BoundedQueue.pop_fst, takes, adds]
      cases queue.entries with
      | nil => exact Nat.zero_le _
      | cons first rest =>
          rw [List.tail_cons, List.head?_cons, List.count_cons]
          simp only [Option.some.injEq, beq_iff_eq, Nat.add_zero, le_refl]

/-- A value is not popped more often than it is pushed. -/
theorem totalTaken_le [DecidableEq Thread] {room : Nat}
    {history : List (Event Thread (Call Value) (Answer Value))}
    (linearizable : Linearizable apply (BoundedQueue.empty : BoundedQueue Value room) history) :
    totalTaken (takes value) history ≤ totalAdded (adds value) history := by
  have conserved := linearizable.totalTaken_le (adds value) (takes value)
    (fun queue => queue.entries.count value) (balanced_apply value)
  have nothing : (BoundedQueue.empty : BoundedQueue Value room).entries.count value = 0 := rfl
  rwa [nothing, Nat.zero_add] at conserved

end Conserved

/-! ### An overtaken consumer -/

section Overtaken

variable [DecidableEq Thread] (room : Nat) (first : Thread) (value zero : Value)

/-- Slots of which only the first one is readable. -/
def wedgedItems : List (Item Value) := ⟨true, value⟩ :: List.replicate room ⟨false, zero⟩

/-- A consumer has copied the first value and has not cleared its slot. -/
def overtaken : Thread → Phase Value :=
  Function.update (fun _ => .idle) first (.popReadable 0 value)

/-- Since then others have pushed and popped so many values. -/
def wedged (rounds : Nat) (pushed : List Value)
    (history : List (Event Thread (Call Value) (Answer Value))) : Threads Thread Value where
  lfq := ⟨(room + 1 : Nat), (rounds + 1 : Nat), (rounds + 1 : Nat), wedgedItems room value zero⟩
  phase := overtaken first value
  pushed := pushed
  history := history

/-- The slot of the producer is still readable. -/
def around (producer : Thread) (pushed : List Value)
    (history : List (Event Thread (Call Value) (Answer Value))) : Threads Thread Value where
  lfq := ⟨(room + 1 : Nat), (room + 1 : Nat), (room + 1 + 1 : Nat), wedgedItems room value zero⟩
  phase := Function.update (overtaken first value) producer (.pushWait zero (room + 1 : Nat))
  pushed := pushed ++ [zero]
  history := history ++ [.call producer (.tryPush zero)]

variable {room first}

theorem overtaken_of_ne {other : Thread} (different : other ≠ first) :
    overtaken first value other = .idle := by
  rw [overtaken, Function.update_of_ne different]

/-- A slot behind the first one. -/
theorem item?_wedgedItems {rounds : Nat} (inside : rounds < room) (capacity head tail : Int) :
    (mk capacity head tail (wedgedItems room value zero)).item? (rounds + 1 : Nat) =
      some ⟨false, zero⟩ := by
  rw [item?, if_pos (Int.natCast_nonneg _), Int.toNat_natCast, wedgedItems,
    List.getElem?_cons_succ, List.getElem?_replicate_of_lt inside]

/-- A counter that is raised by one. -/
theorem int32_cast_succ (number : Nat) (small : number + 1 < 2 ^ 31) :
    int32 ((number : Int) + 1) = (number + 1 : Nat) := by
  rw [← Nat.cast_succ]
  exact int32_natCast small

/-- The test for a full queue fails for a queue that looks empty. -/
theorem not_full (several : 0 < room) (number : Nat) (small : number + 1 < 2 ^ 31) :
    ¬((room + 1 : Nat) : Int) ≤ int32 (int32 ((number : Int) + 1) - number) := by
  have difference : ((number + 1 : Nat) : Int) - number = (1 : Nat) := by omega
  rw [int32_cast_succ number small, difference, int32_natCast (by omega)]
  omega

/-- Another value goes through its slot. -/
theorem run_round (fits : room + 1 < 2 ^ 31) {producer second : Thread}
    (notProducer : producer ≠ first) (notSecond : second ≠ first) {rounds : Nat}
    (inside : rounds < room) (pushed : List Value)
    (history : List (Event Thread (Call Value) (Answer Value))) :
    Runs.run Threads.step (wedged room first value zero rounds pushed history)
        (alone producer (.tryPush zero) ++ alone second .tryPop) =
      some (wedged room first value zero (rounds + 1) (pushed ++ [zero])
        (history ++ answered producer (.tryPush zero) (.pushed true) ++
          answered second .tryPop (.popped (some zero)))) := by
  have next : int32 (((rounds + 1 : Nat) : Int) + 1) = (rounds + 1 + 1 : Nat) :=
    int32_cast_succ (rounds + 1) (by omega)
  have slot : ((rounds + 1 : Nat) : Int).tmod (room + 1 : Nat) = (rounds + 1 : Nat) := by
    rw [← Int.ofNat_tmod, Nat.mod_eq_of_lt (by omega)]
  have found := item?_wedgedItems value zero inside
  have pushes : (wedged room first value zero rounds pushed history).lfq.tryPush zero =
      .returned true ⟨(room + 1 : Nat), (rounds + 1 : Nat), (rounds + 1 + 1 : Nat),
        (wedgedItems room value zero).set (rounds + 1) ⟨true, zero⟩⟩ := by
    have space := not_full (Nat.zero_lt_of_lt inside) (rounds + 1) (by omega)
    have pushed := @tryPush_of_item Value (mk (room + 1 : Nat) (rounds + 1 : Nat)
      (rounds + 1 : Nat) (wedgedItems room value zero)) (rounds + 1) ⟨false, zero⟩ space slot
      (found _ _ _) rfl zero
    rwa [next] at pushed
  have pops : (mk (room + 1 : Nat) (rounds + 1 : Nat) (rounds + 1 + 1 : Nat)
      ((wedgedItems room value zero).set (rounds + 1) ⟨true, zero⟩)).tryPop =
      .returned (some zero) ⟨(room + 1 : Nat), (rounds + 1 + 1 : Nat), (rounds + 1 + 1 : Nat),
        wedgedItems room value zero⟩ := by
    have present : ((rounds + 1 : Nat) : Int) ≠ (rounds + 1 + 1 : Nat) := by omega
    have stored := item?_set ⟨true, zero⟩ (found 0 0 0)
    rw [Int.toNat_natCast] at stored
    have popped := @tryPop_of_item Value (mk (room + 1 : Nat) (rounds + 1 : Nat)
      (rounds + 1 + 1 : Nat) ((wedgedItems room value zero).set (rounds + 1) ⟨true, zero⟩))
      (rounds + 1) ⟨true, zero⟩ present slot (stored _ _ _) rfl
    rw [next] at popped
    refine popped.trans ?_
    dsimp only
    rw [List.set_set]
    exact congrArg (fun items => Outcome.returned (some zero) (mk _ _ _ items))
      (set_of_item? (found 0 0 0))
  refine Runs.run_append_eq_some_iff.mpr ⟨_, run_tryPush _ ?_ pushes, ?_⟩
  · exact overtaken_of_ne value notProducer
  · exact run_tryPop _ (overtaken_of_ne value notSecond) pops

theorem item?_zero (capacity head tail : Int) :
    (mk capacity head tail (wedgedItems room value zero)).item? 0 = some ⟨true, value⟩ := rfl

/-- The first value is pushed, and a consumer copies it. -/
theorem run_copy (several : 0 < room) (producer : Thread) :
    Runs.run Threads.step (Threads.start (room + 1 : Nat) zero)
        (alone producer (.tryPush value) ++
          Act.call first .tryPop :: List.replicate 5 (Act.step first)) =
      some (wedged room first value zero 0 [value]
        (answered producer (.tryPush value) (.pushed true) ++ [Event.call first .tryPop])) := by
  have pushes : (LFQ.new (room + 1 : Nat) zero).tryPush value = .returned true
      ⟨(room + 1 : Nat), 0, 1, wedgedItems room value zero⟩ := by
    have space := not_full several 0 (Nat.one_lt_two_pow (by decide))
    exact @tryPush_of_item Value (LFQ.new (room + 1 : Nat) zero) 0 ⟨false, zero⟩ space
      (Int.zero_tmod _) rfl rfl value
  refine Runs.run_append_eq_some_iff.mpr ⟨_, run_tryPush _ rfl pushes, ?_⟩
  have differ : ¬(0 : Int) = 1 := by decide
  have next : int32 (0 + 1) = 1 := rfl
  simp only [Runs.run, List.replicate, List.foldlM_cons, List.foldlM_nil, Threads.step,
    Threads.start, Threads.turn, Threads.enter, Function.update_self, Threads.act,
    Option.bind_eq_bind, Option.bind_some, differ, if_false, if_true, Threads.touch, item?_zero,
    Int.zero_tmod, Int.toNat_zero, Function.update_idem, Option.pure_def, next, wedged,
    overtaken]
  rfl

/-- The counters have gone around. The second consumer finds the first value in the slot of a value
that is not stored yet, and both consumers return it. -/
theorem run_around (several : 0 < room) (fits : room + 2 < 2 ^ 31) {producer second : Thread}
    (notProducer : producer ≠ first) (notSecond : second ≠ first) (apart : second ≠ producer)
    (pushed : List Value) (history : List (Event Thread (Call Value) (Answer Value))) :
    ∃ config, Runs.run Threads.step (wedged room first value zero room pushed history)
        (Act.call producer (.tryPush zero) :: List.replicate 3 (Act.step producer) ++
          (alone second .tryPop ++ List.replicate 2 (Act.step first))) = some config ∧
      config.pushed = pushed ++ [zero] ∧
      config.history = history ++ [Event.call producer (.tryPush zero)] ++
        answered second .tryPop (.popped (some value)) ++
          [Event.answer first (.popped (some value))] := by
  have next : int32 (((room + 1 : Nat) : Int) + 1) = (room + 1 + 1 : Nat) :=
    int32_cast_succ (room + 1) fits
  have space := not_full several (room + 1) fits
  rw [next] at space
  have slot : ((room + 1 : Nat) : Int).tmod (room + 1 : Nat) = (0 : Nat) := by
    rw [← Int.ofNat_tmod, Nat.mod_self]
  -- the producer gets a number, and does not store its value
  have pushes : Runs.run Threads.step (wedged room first value zero room pushed history)
      (Act.call producer (.tryPush zero) :: List.replicate 3 (Act.step producer)) =
        some (around room first value zero producer pushed history) := by
    simp only [around, wedged, overtaken_of_ne value notProducer, Runs.run, List.replicate,
      List.foldlM_cons, List.foldlM_nil, Threads.step, Threads.turn, Threads.enter,
      Function.update_self, Threads.act, Option.bind_eq_bind, Option.bind_some, space, if_false,
      if_true, Function.update_idem, Option.pure_def, next]
  have pops : (around room first value zero producer pushed history).lfq.tryPop =
      .returned (some value) ⟨(room + 1 : Nat), (room + 1 + 1 : Nat), (room + 1 + 1 : Nat),
        (wedgedItems room value zero).set 0 ⟨false, value⟩⟩ := by
    have present : ((room + 1 : Nat) : Int) ≠ (room + 1 + 1 : Nat) := by omega
    have popped := @tryPop_of_item Value (mk (room + 1 : Nat) (room + 1 : Nat)
      (room + 1 + 1 : Nat) (wedgedItems room value zero)) 0 ⟨true, value⟩ present slot
      (item?_zero value zero _ _ _) rfl
    rwa [next] at popped
  have waits : Function.update (overtaken first value) producer
      (.pushWait zero (room + 1 : Nat)) second = .idle := by
    rw [Function.update_of_ne apart, overtaken_of_ne value notSecond]
  have copied : Function.update (overtaken first value) producer
      (.pushWait zero (room + 1 : Nat)) first = .popReadable 0 value := by
    rw [Function.update_of_ne notProducer.symm, overtaken, Function.update_self]
  have cleared : (mk (room + 1 : Nat) (room + 1 + 1 : Nat) (room + 1 + 1 : Nat)
      ((wedgedItems room value zero).set 0 ⟨false, value⟩)).item?
        ((0 : Int).tmod (room + 1 : Nat)) = some ⟨false, value⟩ := by
    rw [Int.zero_tmod]
    rfl
  have popped := run_tryPop (around room first value zero producer pushed history) waits pops
  obtain ⟨config, returns, kept, seen⟩ := run_popReadable
    { lfq := ⟨(room + 1 : Nat), (room + 1 + 1 : Nat), (room + 1 + 1 : Nat),
        (wedgedItems room value zero).set 0 ⟨false, value⟩⟩
      phase := (around room first value zero producer pushed history).phase
      pushed := (around room first value zero producer pushed history).pushed
      history := (around room first value zero producer pushed history).history ++
        answered second .tryPop (.popped (some value)) } copied cleared
  refine ⟨config, Runs.run_append_eq_some_iff.mpr ⟨_, pushes, Runs.run_append_eq_some_iff.mpr
    ⟨_, popped, returns⟩⟩, kept, seen⟩

/-- Other values go through their slots meanwhile. -/
theorem exists_run_wedged (several : 0 < room) (fits : room + 1 < 2 ^ 31)
    {producer second : Thread} (notProducer : producer ≠ first) (notSecond : second ≠ first)
    {rounds : Nat} (within : rounds ≤ room) :
    ∃ acts pushed history, Runs.run Threads.step (Threads.start (room + 1 : Nat) zero) acts =
        some (wedged room first value zero rounds pushed history) ∧
      pushed.length = rounds + 1 ∧
      (∀ thread, .call thread .tryPop ∈ acts → thread = first ∨ thread = second) ∧
      ∀ added : Call Value → Nat, added (.tryPush zero) = 0 → added .tryPop = 0 →
        totalAdded added history = added (.tryPush value) := by
  induction rounds with
  | zero =>
      refine ⟨_, _, _, run_copy value zero several producer, rfl, fun thread member => .inl ?_,
        fun added _ pops => ?_⟩
      · rcases List.mem_append.mp member with pushes | pops
        · cases (pops_of_mem pushes).2
        · exact (pops_of_mem pops).1
      · simp only [totalAdded, answered, List.cons_append, List.nil_append, List.map_cons,
          List.map_nil, List.sum_cons, List.sum_nil, pops, Nat.add_zero]
  | succ rounds ih =>
      obtain ⟨acts, pushed, history, reached, length, consumers, total⟩ :=
        ih (Nat.le_of_succ_le within)
      have round := run_round value zero fits notProducer notSecond within pushed history
      refine ⟨_, _, _, Runs.run_append_eq_some_iff.mpr ⟨_, reached, round⟩, ?_, ?_, ?_⟩
      · rw [List.length_append, length]
        rfl
      · intro thread member
        rcases List.mem_append.mp member with earlier | later
        · exact consumers thread earlier
        · rcases List.mem_append.mp later with pushes | pops
          · cases (pops_of_mem pushes).2
          · exact .inr (pops_of_mem pops).1
      · intro added zeroes pops
        rw [totalAdded_append, totalAdded_append, total added zeroes pops]
        simp only [totalAdded, answered, List.map_cons, List.map_nil, List.sum_cons, List.sum_nil,
          pops, zeroes, Nat.add_zero]

/-- Two consumers can take out a value that was pushed once. -/
theorem exists_run_twice (several : 0 < room) (fits : room + 2 < 2 ^ 31)
    {producer second : Thread} (notProducer : producer ≠ first) (notSecond : second ≠ first)
    (apart : second ≠ producer) (other : value ≠ zero) :
    ∃ acts config, Runs.run Threads.step (Threads.start (room + 1 : Nat) zero) acts = some config ∧
      (∀ thread, .call thread .tryPop ∈ acts → thread = first ∨ thread = second) ∧
      config.pushed.length = room + 2 ∧
      ¬Linearizable apply (BoundedQueue.empty : BoundedQueue Value room) config.history := by
  classical
  obtain ⟨acts, pushed, history, reached, length, consumers, total⟩ :=
    exists_run_wedged value zero several (by omega) notProducer notSecond le_rfl
  obtain ⟨config, returned, kept, seen⟩ :=
    run_around value zero several fits notProducer notSecond apart pushed history
  refine ⟨_, config, Runs.run_append_eq_some_iff.mpr ⟨_, reached, returned⟩, ?_, ?_, ?_⟩
  · intro thread member
    rcases List.mem_append.mp member with earlier | later
    · exact consumers thread earlier
    · rcases List.mem_append.mp later with pushes | later
      · cases (pops_of_mem pushes).2
      · rcases List.mem_append.mp later with pops | returns
        · exact .inr (pops_of_mem pops).1
        · cases List.eq_of_mem_replicate returns
  · rw [kept, List.length_append, length]
    rfl
  · intro linearizable
    have conserved := totalTaken_le value linearizable
    have once := total (adds value) (if_neg other.symm) rfl
    rw [seen, List.append_assoc, List.append_assoc, totalAdded_append, totalTaken_append,
      once] at conserved
    simp only [totalAdded, totalTaken, answered, List.cons_append, List.nil_append, List.map_cons,
      List.map_nil, List.sum_cons, List.sum_nil, adds, takes, if_pos,
      if_neg other.symm] at conserved
    omega

end Overtaken

/-- **Threads that share the queue.** The calls of all runs with fewer than `2 ^ 31` values act one
after the other on a queue with room for one value less than the capacity exactly when at most one
thread takes values out. -/
theorem linearizable_iff [DecidableEq Thread] [Inhabited Thread] [Nontrivial Value] {room : Nat}
    (several : 0 < room) (fits : room + 2 < 2 ^ 31) (zero : Value)
    (others : ∀ first second : Thread, ∃ third, third ≠ first ∧ third ≠ second)
    (consumers : Set Thread) :
    (∀ acts config, Runs.run Threads.step (Threads.start (room + 1 : Nat) zero) acts =
        some config →
      (∀ thread, Act.call thread .tryPop ∈ acts → thread ∈ consumers) →
      config.pushed.length < 2 ^ 31 →
        Linearizable apply (BoundedQueue.empty : BoundedQueue Value room) config.history) ↔
      consumers.Subsingleton := by
  refine ⟨fun all => ?_, fun one acts config reached poppers small => ?_⟩
  · intro first first_mem second second_mem
    by_contra different
    obtain ⟨value, other⟩ := exists_ne zero
    obtain ⟨producer, notFirst, notSecond⟩ := others first second
    obtain ⟨acts, config, reached, poppers, length, copied⟩ := exists_run_twice value zero several
      (by omega) notFirst (Ne.symm different) (Ne.symm notSecond) other
    refine copied (all acts config reached (fun thread popper => ?_) (by omega))
    rcases poppers thread popper with rfl | rfl
    · exact first_mem
    · exact second_mem
  · obtain ⟨consumer, only⟩ : ∃ consumer, ∀ thread ∈ consumers, thread = consumer := by
      rcases consumers.eq_empty_or_nonempty with rfl | ⟨consumer, member⟩
      · exact ⟨default, fun thread member => absurd member (Set.notMem_empty thread)⟩
      · exact ⟨consumer, fun thread also => one also member⟩
    exact (linearizable_run (by omega) zero reached
      (fun thread popper => only thread (poppers thread popper)) small).1

/-- Two of three threads take values out. -/
theorem linearizable_iff_of_two_consumers :
    ¬∀ acts (config : Threads (Fin 3) Bool),
        Runs.run Threads.step (Threads.start 2 false) acts = some config →
      (∀ thread, Act.call thread .tryPop ∈ acts → thread ∈ ({0, 1} : Set (Fin 3))) →
      config.pushed.length < 2 ^ 31 →
        Linearizable apply (BoundedQueue.empty : BoundedQueue Bool 1) config.history := by
  refine (linearizable_iff Nat.one_pos (by decide) false (by decide) {0, 1}).not.mpr ?_
  exact fun one => absurd (one (Set.mem_insert 0 _) (Set.mem_insert_of_mem 0 rfl)) (by decide)

end LogProcess.LFQ
