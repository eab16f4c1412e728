import LogProcess.Common.LockFreeQueueThreads

/-! # Histories of the lock-free queue

A successful call takes effect when its exchange succeeds, and a call that fails when it loads the
counter for which it does. When one thread takes values out, every step of the threads is matched by
such steps on a `BoundedQueue` (`LFQ.Matched.simulated`), so that the calls of every run act on it
one after the other (`LFQ.linearizable_run`).
-/

namespace LogProcess.LFQ

open AtomicObject

variable {Thread Value : Type}

/-- A queue on which each call acts at one moment. -/
def apply {room : Nat} :
    Call Value → BoundedQueue Value room → Answer Value × BoundedQueue Value room
  | .tryPush value, queue => (.pushed (queue.push value).1, (queue.push value).2)
  | .tryPop, queue => (.popped queue.pop.1, queue.pop.2)

/-- The status of a call on the atomic queue. A call takes effect when its exchange succeeds, or
when the counter is loaded for which it fails. -/
def Phase.status (pushed : List Value) : Phase Value → Status (Call Value) (Answer Value)
  | .idle | .outside _ => .idle
  | .pushLoadTail value | .pushLoadHead value _ | .pushExchange value _ _ =>
      .called (.tryPush value)
  | .pushWait _ _ | .pushValue _ _ | .pushReadable _ => .answered (.pushed true)
  | .popLoadHead | .popLoadTail _ | .popExchange _ _ => .called .tryPop
  | .popWait head | .popValue head => .answered (.popped pushed[head.toNat]?)
  | .popReadable _ value => .answered (.popped (some value))
  | .returning answer => .answered answer

/-- The value that a thread takes out is known when others push. -/
theorem Sound.status_append {consumer : Thread} {room pops done : Nat} {lfq : LFQ Value}
    {phase : Thread → Phase Value} {pushed : List Value}
    (sound : Sound consumer room pops done lfq phase pushed) (other : Thread) (value : Value) :
    (phase other).status (pushed ++ [value]) = (phase other).status pushed := by
  have known := sound.knows other
  have popped := sound.popped
  cases there : phase other with
  | popWait head =>
      rw [there] at known
      obtain ⟨number, rfl, last⟩ := known
      rw [Phase.status, Phase.status, Int.toNat_natCast, List.getElem?_append_left (by omega)]
  | popValue head =>
      rw [there] at known
      obtain ⟨number, rfl, last, _⟩ := known
      rw [Phase.status, Phase.status, Int.toNat_natCast, List.getElem?_append_left (by omega)]
  | _ => rfl

/-! ### The atomic queue -/

section Atomic

variable {room : Nat}

/-- The atomic queue holds the values that have been pushed and not been popped, and its threads are
as far as those of the queue. -/
structure Reflects (pops : Nat) (phase : Thread → Phase Value) (pushed : List Value)
    (atomic : Config Thread (Call Value) (Answer Value) (BoundedQueue Value room)) : Prop where
  entries : atomic.object.entries = pushed.drop pops
  status : ∀ thread, atomic.status thread = (phase thread).status pushed

variable [DecidableEq Thread] {pops more : Nat} {phase : Thread → Phase Value}
  {pushed after : List Value}
  {atomic : Config Thread (Call Value) (Answer Value) (BoundedQueue Value room)}
  (reflects : Reflects pops phase pushed atomic) {thread : Thread} {next : Phase Value}
include reflects

/-- A thread goes on within its call. -/
theorem Reflects.turn (same : next.status pushed = (phase thread).status pushed) :
    Reflects pops (Function.update phase thread next) pushed atomic where
  entries := reflects.entries
  status := by
    intro other
    rcases eq_or_ne thread other with rfl | elsewhere
    · rw [Function.update_self, reflects.status, same]
    · rw [Function.update_of_ne elsewhere.symm, reflects.status]

variable (more after thread next) in
/-- The call of a thread takes effect. -/
theorem Reflects.commit {call : Call Value}
    (called : (phase thread).status pushed = .called call)
    (answered : next.status after = .answered (apply call atomic.object).1)
    (others : ∀ other, thread ≠ other →
      (phase other).status after = (phase other).status pushed)
    (entries : (apply call atomic.object).2.entries = after.drop more) :
    ∃ final, Steps apply atomic [] final ∧
      Reflects more (Function.update phase thread next) after final := by
  refine ⟨_, (Step.commit ((reflects.status thread).trans called)).steps_commit, entries, ?_⟩
  intro other
  rw [Config.turn]
  dsimp only
  rcases eq_or_ne thread other with rfl | elsewhere
  · rw [Function.update_self, Function.update_self, answered]
  · rw [Function.update_of_ne elsewhere.symm, Function.update_of_ne elsewhere.symm,
      reflects.status, others other elsewhere]

/-- A thread calls. -/
theorem Reflects.call (idle : phase thread = .idle) (call : Call Value) (next : Phase Value)
    (called : next.status pushed = .called call) :
    ∃ final, Steps apply atomic [.call thread call] final ∧
      Reflects pops (Function.update phase thread next) pushed final := by
  have waits : atomic.status thread = .idle := by rw [reflects.status, idle, Phase.status]
  refine ⟨_, (Step.call waits).steps_visible, reflects.entries, ?_⟩
  intro other
  rw [Config.turn]
  dsimp only
  rcases eq_or_ne thread other with rfl | elsewhere
  · rw [Function.update_self, Function.update_self, called]
  · rw [Function.update_of_ne elsewhere.symm, Function.update_of_ne elsewhere.symm,
      reflects.status]

/-- A thread is answered. -/
theorem Reflects.answer {answer : Answer Value} (returning : phase thread = .returning answer) :
    ∃ final, Steps apply atomic [.answer thread answer] final ∧
      Reflects pops (Function.update phase thread .idle) pushed final := by
  have answered : atomic.status thread = .answered answer := by
    rw [reflects.status, returning, Phase.status]
  refine ⟨_, (Step.answer answered).steps_visible, reflects.entries, ?_⟩
  intro other
  rw [Config.turn]
  dsimp only
  rcases eq_or_ne thread other with rfl | elsewhere
  · rw [Function.update_self, Function.update_self, Phase.status]
  · rw [Function.update_of_ne elsewhere.symm, Function.update_of_ne elsewhere.symm,
      reflects.status]

end Atomic

/-! ### Steps -/

section Steps

variable {room : Nat}

/-- The queue and the atomic queue are in the same state. -/
def Matched (consumer : Thread) (config : Threads Thread Value)
    (atomic : Config Thread (Call Value) (Answer Value) (BoundedQueue Value room)) : Prop :=
  ∃ pops done, Sound consumer room pops done config.lfq config.phase config.pushed ∧
    Reflects pops config.phase config.pushed atomic

variable [DecidableEq Thread] {consumer thread : Thread} {pops done : Nat}
  {config : Threads Thread Value}

/-- An access to the slot of a number. -/
theorem Sound.exists_touch
    (sound : Sound consumer room pops done config.lfq config.phase config.pushed)
    (thread : Thread) (number : Nat) (access : Item Value → Phase Value × Item Value) :
    ∃ item, config.lfq.itemlist[number % config.lfq.itemlist.length]? = some item ∧
      config.touch thread number access = { config.turn thread (access item).1 with
        lfq := { config.lfq with
          itemlist := config.lfq.itemlist.set (number % config.lfq.itemlist.length)
            (access item).2 } } := by
  obtain ⟨item, found⟩ : ∃ item,
      config.lfq.itemlist[number % config.lfq.itemlist.length]? = some item :=
    ⟨_, List.getElem?_eq_getElem (sound.inside number)⟩
  refine ⟨item, found, ?_⟩
  have slot : (number : Int).tmod config.lfq.capacity =
      (number % config.lfq.itemlist.length : Nat) := by
    rw [sound.capacity, sound.length, Int.ofNat_tmod]
  have here : config.lfq.item? (number % config.lfq.itemlist.length : Nat) = some item := by
    rw [item?, if_pos (Int.natCast_nonneg _), Int.toNat_natCast, found]
  simp only [Threads.touch, slot, here, Int.toNat_natCast]

/-- A slot that is only read. -/
theorem Sound.exists_read
    (sound : Sound consumer room pops done config.lfq config.phase config.pushed)
    (thread : Thread) (number : Nat) (goesOn : Item Value → Phase Value) :
    ∃ item, item.reads = shown config.lfq.itemlist number ∧
      config.touch thread number (fun item => (goesOn item, item)) =
        config.turn thread (goesOn item) := by
  obtain ⟨item, found, touched⟩ :=
    sound.exists_touch thread number fun item => (goesOn item, item)
  refine ⟨item, by rw [shown, found, Option.bind_some], touched.trans ?_⟩
  obtain ⟨inside, rfl⟩ := List.getElem?_eq_some_iff.mp found
  dsimp only
  rw [List.set_getElem_self]
  rfl

/-- The steps of the atomic queue that match a step. -/
def Simulated (consumer : Thread) (config next : Threads Thread Value)
    (atomic : Config Thread (Call Value) (Answer Value) (BoundedQueue Value room)) : Prop :=
  ∃ later final, Steps apply atomic later final ∧ next.history = config.history ++ later ∧
    Matched consumer next final

variable {atomic : Config Thread (Call Value) (Answer Value) (BoundedQueue Value room)}
  (sound : Sound consumer room pops done config.lfq config.phase config.pushed)
  (reflects : Reflects pops config.phase config.pushed atomic)
include sound reflects

/-- A step within a call that changes nothing but the phase of the thread. -/
theorem simulated_turn {next : Phase Value} (ticket : next.ticket = (config.phase thread).ticket)
    (popping : next.popping = (config.phase thread).popping)
    (one : next.pops = true → thread = consumer)
    (knows : next.Knows room pops config.pushed config.lfq.itemlist)
    (status : next.status config.pushed = (config.phase thread).status config.pushed) :
    Simulated consumer config (config.turn thread next) atomic :=
  ⟨[], atomic, .refl atomic, (List.append_nil _).symm, pops, done,
    sound.turn ticket popping one knows, reflects.turn status⟩

/-- A step at which a call fails. -/
theorem simulated_fail (call : Call Value) {answer : Answer Value}
    (called : (config.phase thread).status config.pushed = .called call)
    (ticket : (config.phase thread).ticket = none)
    (popping : (config.phase thread).popping = false)
    (fails : apply call atomic.object = (answer, atomic.object)) :
    Simulated consumer config (config.turn thread (.returning answer)) atomic := by
  obtain ⟨final, steps, after⟩ := reflects.commit pops config.pushed thread (.returning answer)
    called (by rw [fails, Phase.status]) (fun _ _ => rfl) (by rw [fails]; exact reflects.entries)
  exact ⟨[], final, steps, (List.append_nil _).symm, pops, done,
    sound.turn (by rw [ticket]; rfl) (by rw [popping]; rfl) nofun trivial, after⟩

/-- The steps of a push until it gets its number. -/
theorem simulated_pushLoadHead (fits : room + 1 < 2 ^ 31) {value : Value} {tail : Int}
    (here : config.phase thread = .pushLoadHead value tail) :
    Simulated consumer config (config.turn thread
      (if config.lfq.capacity ≤ int32 (int32 (tail + 1) - config.lfq.head) then
        .returning (.pushed false)
      else .pushExchange value tail (int32 (tail + 1)))) atomic := by
  have known := sound.knows thread
  rw [here] at known
  obtain ⟨number, rfl, below⟩ := known
  rw [sound.sub_eq fits below, sound.capacity]
  have few := sound.few
  split
  · rename_i full
    refine simulated_fail sound reflects (.tryPush value) (by rw [here]; rfl) (by rw [here]; rfl)
      (by rw [here]; rfl) ?_
    rw [apply, BoundedQueue.push_of_full]
    rw [BoundedQueue.HasRoom, reflects.entries, List.length_drop]
    omega
  · rename_i space
    refine simulated_turn sound reflects (by rw [here]; rfl) (by rw [here]; rfl)
      (fun pops => by cases pops) ⟨number, rfl, rfl, below, by omega⟩ (by rw [here]; rfl)

/-- The exchange of the tail gives the value its number. -/
theorem simulated_pushExchange {value : Value} {tail newTail : Int}
    (here : config.phase thread = .pushExchange value tail newTail)
    (exchanged : config.lfq.tail = tail) (small : config.pushed.length + 1 < 2 ^ 31) :
    Simulated consumer config { config.turn thread (.pushWait value tail) with
      lfq := { config.lfq with tail := newTail }
      pushed := config.pushed ++ [value] } atomic := by
  have known := sound.knows thread
  rw [here] at known
  obtain ⟨number, loaded, next, _, space⟩ := known
  have last : number = config.pushed.length := by
    have same := sound.tail.symm.trans (exchanged.trans loaded)
    omega
  have few := sound.few
  have popped := sound.popped
  have hasRoom : atomic.object.HasRoom := by
    rw [BoundedQueue.HasRoom, reflects.entries, List.length_drop]
    omega
  obtain ⟨final, steps, after⟩ := reflects.commit pops (config.pushed ++ [value]) thread
    (.pushWait value tail)
    (by rw [here]; rfl) (by rw [apply, (BoundedQueue.push_fst_iff _ value).mpr hasRoom]; rfl)
    (fun other _ => sound.status_append other value)
    (by rw [apply, BoundedQueue.entries_push hasRoom, reflects.entries,
      List.drop_append_of_le_length popped])
  have taken := sound.takeTicket thread value small (by omega)
    (by rw [here]; rfl) (by rw [here]; rfl)
  rw [exchanged, loaded, ← next] at taken
  rw [loaded] at after ⊢
  exact ⟨[], final, steps, (List.append_nil _).symm, pops, done, taken, after⟩

/-- A thread that pushes finds its slot empty. -/
theorem simulated_pushWait {value : Value} {tail : Int}
    (here : config.phase thread = .pushWait value tail) :
    config.touch thread tail (fun item =>
        (if item.readable then .pushWait value tail else .pushValue value tail, item)) =
      config.turn thread (.pushValue value tail) ∧
    Simulated consumer config (config.turn thread (.pushValue value tail)) atomic := by
  have known := sound.knows thread
  rw [here] at known
  obtain ⟨number, rfl, there⟩ := known
  have holds : (config.phase thread).ticket = some number := by
    rw [here, Phase.ticket, Int.toNat_natCast]
  have hidden := (sound.pending holds).2.2
  obtain ⟨item, reads, touched⟩ := sound.exists_read thread number fun item =>
    if item.readable then .pushWait value number else .pushValue value number
  refine ⟨touched.trans ?_, simulated_turn sound reflects (by rw [here]; rfl) (by rw [here]; rfl)
    (fun pops => by cases pops) ⟨number, rfl, there⟩ (by rw [here]; rfl)⟩
  rw [hidden, Item.reads, ite_eq_right_iff] at reads
  rw [if_neg fun readable => Option.some_ne_none _ (reads readable)]

/-- The value is stored. -/
theorem simulated_pushValue {value : Value} {tail : Int}
    (here : config.phase thread = .pushValue value tail) :
    Simulated consumer config (config.touch thread tail fun item =>
      (.pushReadable tail, { item with value := value })) atomic := by
  have known := sound.knows thread
  rw [here] at known
  obtain ⟨number, rfl, there⟩ := known
  have holds : (config.phase thread).ticket = some number := by
    rw [here, Phase.ticket, Int.toNat_natCast]
  have hidden := (sound.pending holds).2.2
  obtain ⟨first, last⟩ := sound.ticket_le holds
  obtain ⟨item, found, touched⟩ := sound.exists_touch thread number fun item =>
    (.pushReadable number, { item with value := value })
  have reads : ({ item with value := value } : Item Value).reads =
      shown config.lfq.itemlist number := by
    have old := hidden
    rw [shown, found, Option.bind_some, Item.reads, ite_eq_right_iff] at old
    rw [hidden, Item.reads, if_neg fun readable => Option.some_ne_none _ (old readable)]
  rw [touched]
  refine ⟨[], atomic, .refl atomic, (List.append_nil _).symm, pops, done,
    sound.store List.length_set (shown_set (sound.inside number) reads) ?_ ?_ ?_
      (fun pops => by cases pops) ?_,
    reflects.turn (by rw [here]; rfl)⟩
  · intro other number' elsewhere has
    obtain ⟨otherFirst, otherLast⟩ := sound.ticket_le has
    refine stored_set_of_ne (sound.index_ne first last otherFirst otherLast fun same => ?_)
    exact elsewhere (sound.alone (same ▸ holds) has)
  · rw [here]
    rfl
  · rw [here]
    rfl
  · exact ⟨number, value, rfl, there, stored_set_self (sound.inside number)⟩

/-- The value becomes readable. -/
theorem simulated_pushReadable {tail : Int} (here : config.phase thread = .pushReadable tail) :
    Simulated consumer config (config.touch thread tail fun item =>
      (.returning (.pushed true), { item with readable := true })) atomic := by
  have known := sound.knows thread
  rw [here] at known
  obtain ⟨number, value, rfl, there, written⟩ := known
  have holds : (config.phase thread).ticket = some number := by
    rw [here, Phase.ticket, Int.toNat_natCast]
  obtain ⟨item, found, touched⟩ := sound.exists_touch thread number fun item =>
    (.returning (.pushed true), { item with readable := true })
  rw [stored, found, Option.map_some] at written
  rw [touched]
  refine ⟨[], atomic, .refl atomic, (List.append_nil _).symm, pops, done,
    sound.publish holds there ?_ rfl ?_ (fun pops => by cases pops) fun _ => trivial,
    reflects.turn (by rw [here]; rfl)⟩
  · rw [← written]
    rfl
  · rw [here]
    rfl

/-- The tail shows whether there is a value. -/
theorem simulated_popLoadTail {head : Int} (here : config.phase thread = .popLoadTail head) :
    Simulated consumer config (config.turn thread
      (if head = config.lfq.tail then .returning (.popped none)
      else .popExchange head (int32 (head + 1)))) atomic := by
  have known := sound.knows thread
  rw [here] at known
  obtain rfl : head = pops := known
  have popped := sound.popped
  rw [sound.tail]
  split
  · rename_i empty
    have all : pops = config.pushed.length := by omega
    refine simulated_fail sound reflects .tryPop (by rw [here]; rfl) (by rw [here]; rfl)
      (by rw [here]; rfl) ?_
    rw [apply, BoundedQueue.pop_of_nil]
    rw [reflects.entries, all, List.drop_length]
  · rename_i present
    refine simulated_turn sound reflects (by rw [here]; rfl) (by rw [here]; rfl)
      (fun _ => sound.one thread (by rw [here]; rfl)) ⟨rfl, rfl, by omega⟩ (by rw [here]; rfl)

/-- The exchange of the head takes the oldest value. -/
theorem simulated_popExchange {head newHead : Int}
    (here : config.phase thread = .popExchange head newHead) :
    config.lfq.head = head ∧
    Simulated consumer config { config.turn thread (.popWait head) with
      lfq := { config.lfq with head := newHead } } atomic := by
  have known := sound.knows thread
  rw [here] at known
  obtain ⟨loaded, next, present⟩ := known
  obtain rfl := sound.one thread (by rw [here]; rfl)
  have taken := sound.takeHead present (by rw [here]; rfl) (by rw [here]; rfl)
  have entries := reflects.entries
  obtain ⟨final, steps, after⟩ := reflects.commit (pops + 1) config.pushed thread
    (.popWait pops) (by rw [here]; rfl)
    (by rw [apply, Phase.status, Int.toNat_natCast, BoundedQueue.pop_fst, entries, List.head?_drop])
    (fun _ _ => rfl)
    (by rw [apply, BoundedQueue.entries_pop, entries, List.tail_drop])
  rw [sound.head, ← next, ← loaded] at taken
  rw [← loaded] at after
  exact ⟨sound.head.trans loaded.symm, [], final, steps, (List.append_nil _).symm, pops + 1, done,
    taken, after⟩

/-- The consumer waits for the value. -/
theorem simulated_popWait {head : Int} (here : config.phase thread = .popWait head) :
    Simulated consumer config (config.touch thread head fun item =>
      (if item.readable then .popValue head else .popWait head, item)) atomic := by
  have known := sound.knows thread
  rw [here] at known
  obtain ⟨number, rfl, last⟩ := known
  have one := sound.one thread (by rw [here]; rfl)
  obtain ⟨item, reads, touched⟩ := sound.exists_read thread number fun item =>
    if item.readable then .popValue number else .popWait number
  rw [touched]
  split
  · rename_i readable
    refine simulated_turn sound reflects (by rw [here]; rfl) (by rw [here]; rfl) (fun _ => one)
      ⟨number, rfl, last, ?_⟩ (by rw [here]; rfl)
    rw [← reads, Item.reads, if_pos readable]
    exact Option.some_ne_none _
  · exact simulated_turn sound reflects (by rw [here]) (by rw [here]) (fun _ => one)
      ⟨number, rfl, last⟩ (by rw [here])

omit [DecidableEq Thread] reflects in
/-- The number that the consumer takes out. -/
theorem done_eq {number : Nat} (popping : (config.phase consumer).popping = true)
    (last : number + 1 = pops) : number = done := by
  have ended := sound.ended
  rw [popping, if_pos rfl] at ended
  omega

/-- The consumer copies the value. -/
theorem simulated_popValue {head : Int} (here : config.phase thread = .popValue head) :
    Simulated consumer config (config.touch thread head fun item =>
      (.popReadable head item.value, item)) atomic := by
  have known := sound.knows thread
  rw [here] at known
  obtain ⟨number, rfl, last, shows⟩ := known
  obtain rfl := sound.one thread (by rw [here]; rfl)
  obtain ⟨item, reads, touched⟩ := sound.exists_read thread number fun item =>
    .popReadable number item.value
  have popped := sound.popped
  obtain rfl := done_eq sound (by rw [here]; rfl) last
  -- the slot is readable, so that no thread is storing the value
  have there : config.pushed[number]? = some item.value := by
    have kept := sound.kept le_rfl (Nat.le_add_right _ _) fun other holds =>
      shows (sound.pending holds).2.2
    rw [← kept, ← reads]
    rw [← reads] at shows
    rw [Item.reads] at shows ⊢
    rw [if_pos]
    by_contra unreadable
    exact shows (if_neg unreadable)
  rw [touched]
  refine simulated_turn sound reflects (by rw [here]; rfl) (by rw [here]; rfl) (fun _ => rfl)
    ⟨number, rfl, last, shows, there⟩ ?_
  rw [here, Phase.status, Phase.status, Int.toNat_natCast, there]

/-- The slot can be used again. -/
theorem simulated_popReadable {head : Int} {value : Value}
    (here : config.phase thread = .popReadable head value) :
    Simulated consumer config (config.touch thread head fun item =>
      (.returning (.popped (some value)), { item with readable := false })) atomic := by
  have known := sound.knows thread
  rw [here] at known
  obtain ⟨number, rfl, last, shows, there⟩ := known
  obtain rfl := sound.one thread (by rw [here]; rfl)
  obtain ⟨item, found, touched⟩ := sound.exists_touch thread number fun item =>
    (.returning (.popped (some value)), { item with readable := false })
  obtain rfl := done_eq sound (by rw [here]; rfl) last
  rw [touched]
  exact ⟨[], atomic, .refl atomic, (List.append_nil _).symm, pops, number + 1,
    sound.clear last shows (by rw [here]; rfl) rfl _, reflects.turn (by rw [here]; rfl)⟩

end Steps

section Runs

variable [DecidableEq Thread] {room : Nat} {consumer : Thread} {config next : Threads Thread Value}
  {atomic : Config Thread (Call Value) (Answer Value) (BoundedQueue Value room)}

/-- **Step lemma.** When one thread calls `try_pop`, a step is matched by steps of the atomic
queue. -/
theorem Matched.simulated (fits : room + 1 < 2 ^ 31) (matched : Matched consumer config atomic)
    {act : Act Thread Value} (one : ∀ thread, act = .call thread .tryPop → thread = consumer)
    (small : next.pushed.length < 2 ^ 31) (stepped : config.step act = some next) :
    Simulated consumer config next atomic := by
  obtain ⟨pops, done, sound, reflects⟩ := matched
  cases act with
  | call thread call =>
      cases here : config.phase thread with
      | idle =>
          simp only [Threads.step, here, Option.some.injEq] at stepped
          obtain rfl := stepped
          obtain ⟨final, steps, after⟩ := reflects.call here call (Threads.enter call)
            (by cases call <;> rfl)
          refine ⟨_, final, steps, rfl, pops, done, sound.turn ?_ ?_ ?_ ?_, after⟩
          · rw [here]
            cases call <;> rfl
          · rw [here]
            cases call <;> rfl
          · cases call with
            | tryPush value => exact nofun
            | tryPop => exact fun _ => one thread rfl
          · cases call <;> trivial
      | _ => simp only [Threads.step, here, reduceCtorEq] at stepped
  | step thread =>
      cases here : config.phase thread with
      | idle => simp only [Threads.step, here, Threads.act, reduceCtorEq] at stepped
      | outside slot => simp only [Threads.step, here, Threads.act, reduceCtorEq] at stepped
      | pushLoadTail value =>
          rw [Threads.step, here] at stepped
          obtain rfl := Option.some.inj stepped
          exact simulated_turn sound reflects (by rw [here]; rfl) (by rw [here]; rfl) nofun
            ⟨config.pushed.length, sound.tail, le_rfl⟩ (by rw [here]; rfl)
      | pushLoadHead value tail =>
          rw [Threads.step, here] at stepped
          obtain rfl := Option.some.inj stepped
          exact simulated_pushLoadHead sound reflects fits here
      | pushExchange value tail newTail =>
          rw [Threads.step, here, Threads.act] at stepped
          split at stepped
          · rename_i exchanged
            obtain rfl := Option.some.inj stepped
            refine simulated_pushExchange sound reflects here exchanged ?_
            dsimp only at small
            rwa [List.length_append, List.length_singleton] at small
          · obtain rfl := Option.some.inj stepped
            exact simulated_turn sound reflects (by rw [here]; rfl) (by rw [here]; rfl) nofun
              trivial (by rw [here]; rfl)
      | pushWait value tail =>
          rw [Threads.step, here] at stepped
          obtain rfl := Option.some.inj stepped
          obtain ⟨unspun, simulated⟩ := simulated_pushWait sound reflects here
          exact unspun.symm ▸ simulated
      | pushValue value tail =>
          rw [Threads.step, here] at stepped
          obtain rfl := Option.some.inj stepped
          exact simulated_pushValue sound reflects here
      | pushReadable tail =>
          rw [Threads.step, here] at stepped
          obtain rfl := Option.some.inj stepped
          exact simulated_pushReadable sound reflects here
      | popLoadHead =>
          rw [Threads.step, here] at stepped
          obtain rfl := Option.some.inj stepped
          exact simulated_turn sound reflects (by rw [here]; rfl) (by rw [here]; rfl)
            (fun _ => sound.one thread (by rw [here]; rfl)) sound.head (by rw [here]; rfl)
      | popLoadTail head =>
          rw [Threads.step, here] at stepped
          obtain rfl := Option.some.inj stepped
          exact simulated_popLoadTail sound reflects here
      | popExchange head newHead =>
          obtain ⟨exchanged, simulated⟩ := simulated_popExchange sound reflects here
          rw [Threads.step, here, Threads.act, if_pos exchanged] at stepped
          obtain rfl := Option.some.inj stepped
          exact simulated
      | popWait head =>
          rw [Threads.step, here] at stepped
          obtain rfl := Option.some.inj stepped
          exact simulated_popWait sound reflects here
      | popValue head =>
          rw [Threads.step, here] at stepped
          obtain rfl := Option.some.inj stepped
          exact simulated_popValue sound reflects here
      | popReadable head value =>
          rw [Threads.step, here] at stepped
          obtain rfl := Option.some.inj stepped
          exact simulated_popReadable sound reflects here
      | returning answer =>
          rw [Threads.step, here] at stepped
          obtain rfl := Option.some.inj stepped
          obtain ⟨final, steps, after⟩ := reflects.answer here
          exact ⟨_, final, steps, rfl, pops, done,
            sound.turn (by rw [here]; rfl) (by rw [here]; rfl) nofun trivial, after⟩

omit [DecidableEq Thread] in
/-- A new queue. -/
theorem matched_start (consumer : Thread) (room : Nat) (zero : Value) :
    Matched consumer (Threads.start (room + 1 : Nat) zero)
      (AtomicObject.start (BoundedQueue.empty : BoundedQueue Value room)) := by
  have length : (LFQ.new (room + 1 : Nat) zero).itemlist.length = room + 1 :=
    List.length_replicate
  refine ⟨0, 0, ⟨rfl, length, rfl, rfl, Nat.two_pow_pos 31, le_rfl, Nat.zero_le _, rfl, nofun,
    fun _ => trivial, nofun, nofun, fun _ _ _ => ?_⟩, rfl, fun _ => rfl⟩
  refine Option.bind_eq_none_iff.mpr ?_
  intro item member
  obtain rfl := List.eq_of_mem_replicate (List.mem_of_getElem? member)
  rfl

/-- Pushed values stay pushed. -/
theorem pushed_length_le {act : Act Thread Value} (stepped : config.step act = some next) :
    config.pushed.length ≤ next.pushed.length := by
  have touched (thread : Thread) (counter : Int) (access : Item Value → Phase Value × Item Value) :
      (config.touch thread counter access).pushed = config.pushed := by
    rw [Threads.touch]
    dsimp only
    split <;> rfl
  cases act with
  | call thread call =>
      rw [Threads.step] at stepped
      split at stepped
      · obtain rfl := Option.some.inj stepped
        exact le_rfl
      · cases stepped
  | step thread =>
      rw [Threads.step] at stepped
      cases here : config.phase thread <;> rw [here, Threads.act] at stepped
      case idle => cases stepped
      case outside => cases stepped
      case pushExchange value tail newTail =>
        split at stepped
        · obtain rfl := Option.some.inj stepped
          exact (List.prefix_append _ _).length_le
        · obtain rfl := Option.some.inj stepped
          exact le_rfl
      case popExchange head newHead =>
        split at stepped <;>
          (obtain rfl := Option.some.inj stepped; exact le_rfl)
      all_goals
        obtain rfl := Option.some.inj stepped
        first
          | exact le_rfl
          | rw [touched]

/-- **One consumer.** However the threads interleave, the calls act one after the other on a queue
with room for one value less than the capacity, when one thread calls `try_pop`. No thread ever
accesses a slot outside of the array, and none that pushes waits for its slot. -/
theorem linearizable_run (fits : room + 1 < 2 ^ 31) (zero : Value)
    {acts : List (Act Thread Value)}
    (reached : Runs.run Threads.step (Threads.start (room + 1 : Nat) zero) acts = some config)
    (one : ∀ thread, .call thread .tryPop ∈ acts → thread = consumer)
    (small : config.pushed.length < 2 ^ 31) :
    Linearizable apply (BoundedQueue.empty : BoundedQueue Value room) config.history ∧
      ∃ atomic : Config Thread (Call Value) (Answer Value) (BoundedQueue Value room),
        Matched consumer config atomic := by
  have kind : ∀ act ∈ acts, ∀ thread, act = .call thread .tryPop → thread = consumer := by
    rintro act member thread rfl
    exact one thread member
  refine linearizable_of_meets Threads.history (Matched consumer) ?_ rfl
    (matched_start consumer room zero)
    (Runs.meets_of_grows (fun config => config.pushed.length) pushed_length_le kind reached).1
    reached
  rintro state act next atomic matched ⟨allowed, below⟩ stepped
  exact matched.simulated fits allowed ((below next stepped).trans_lt small) stepped

end Runs

end LogProcess.LFQ
