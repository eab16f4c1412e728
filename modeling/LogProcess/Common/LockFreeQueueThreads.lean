import LogProcess.Common.LockFreeQueue
import LogProcess.Foundation.AtomicObject

/-! # Threads that share the lock-free queue

`try_push` and `try_pop` of `common/lockfreequeue_funcs.h`, as many threads call them. Every load
and exchange of a counter is a step, and so is every access to a slot, in the order of the fences
and in one order for all threads. Successful exchanges give numbers to the values. While one thread
takes the values out, the numbers that are in use have different slots, and each slot shows the
value of its number unless it is just being stored (`LFQ.Sound`): a thread that pushes gets the slot
of the next number (`LFQ.Sound.takeTicket`) and shows its value there (`LFQ.Sound.publish`), and the
thread that pops gets the number behind its last one (`LFQ.Sound.takeHead`) and leaves the slot to a
later value (`LFQ.Sound.clear`).
-/

namespace LogProcess.LFQ

open AtomicObject

variable {Thread Value : Type}

/-- Where a thread is in a call, with the variables of the call. -/
inductive Phase (Value : Type) where
  | idle
  | pushLoadTail (value : Value)
  | pushLoadHead (value : Value) (tail : Int)
  | pushExchange (value : Value) (tail newTail : Int)
  | pushWait (value : Value) (tail : Int)
  | pushValue (value : Value) (tail : Int)
  | pushReadable (tail : Int)
  | popLoadHead
  | popLoadTail (head : Int)
  | popExchange (head newHead : Int)
  | popWait (head : Int)
  | popValue (head : Int)
  | popReadable (head : Int) (value : Value)
  | returning (answer : Answer Value)
  | outside (slot : Int)

/-- A queue and the threads that share it. The values that were given a slot and the events are only
kept for the proofs. -/
structure Threads (Thread Value : Type) where
  lfq : LFQ Value
  phase : Thread → Phase Value
  pushed : List Value
  history : List (Event Thread (Call Value) (Answer Value))

/-- What may happen next. -/
inductive Act (Thread Value : Type) where
  | call (thread : Thread) (call : Call Value)
  | step (thread : Thread)

namespace Threads

variable [DecidableEq Thread]

omit [DecidableEq Thread] in
/-- Threads that have not called a new queue yet. -/
def start (capacity : Int) (zero : Value) : Threads Thread Value :=
  ⟨LFQ.new capacity zero, fun _ => .idle, [], []⟩

/-- A thread goes on. -/
def turn (config : Threads Thread Value) (thread : Thread) (phase : Phase Value) :
    Threads Thread Value :=
  { config with phase := Function.update config.phase thread phase }

/-- A thread accesses the slot of a counter, and goes on. -/
def touch (config : Threads Thread Value) (thread : Thread) (counter : Int)
    (access : Item Value → Phase Value × Item Value) : Threads Thread Value :=
  let slot := counter.tmod config.lfq.capacity
  match config.lfq.item? slot with
  | none => config.turn thread (.outside slot)
  | some item => { config.turn thread (access item).1 with
      lfq := { config.lfq with itemlist := config.lfq.itemlist.set slot.toNat (access item).2 } }

/-- What a thread does in its phase. -/
def act (config : Threads Thread Value) (thread : Thread) :
    Phase Value → Option (Threads Thread Value)
  | .idle => none
  | .pushLoadTail value => some (config.turn thread (.pushLoadHead value config.lfq.tail))
  | .pushLoadHead value tail =>
      let newTail := int32 (tail + 1)
      some (config.turn thread
        (if config.lfq.capacity ≤ int32 (newTail - config.lfq.head) then .returning (.pushed false)
        else .pushExchange value tail newTail))
  | .pushExchange value tail newTail =>
      if config.lfq.tail = tail then
        some { config.turn thread (.pushWait value tail) with
          lfq := { config.lfq with tail := newTail }
          pushed := config.pushed ++ [value] }
      else some (config.turn thread (.pushLoadTail value))
  | .pushWait value tail => some (config.touch thread tail fun item =>
      (if item.readable then .pushWait value tail else .pushValue value tail, item))
  | .pushValue value tail => some (config.touch thread tail fun item =>
      (.pushReadable tail, { item with value := value }))
  | .pushReadable tail => some (config.touch thread tail fun item =>
      (.returning (.pushed true), { item with readable := true }))
  | .popLoadHead => some (config.turn thread (.popLoadTail config.lfq.head))
  | .popLoadTail head => some (config.turn thread
      (if head = config.lfq.tail then .returning (.popped none)
      else .popExchange head (int32 (head + 1))))
  | .popExchange head newHead =>
      if config.lfq.head = head then
        some { config.turn thread (.popWait head) with lfq := { config.lfq with head := newHead } }
      else some (config.turn thread .popLoadHead)
  | .popWait head => some (config.touch thread head fun item =>
      (if item.readable then .popValue head else .popWait head, item))
  | .popValue head => some (config.touch thread head fun item =>
      (.popReadable head item.value, item))
  | .popReadable head value => some (config.touch thread head fun item =>
      (.returning (.popped (some value)), { item with readable := false }))
  | .returning answer => some { config.turn thread .idle with
      history := config.history ++ [.answer thread answer] }
  | .outside _ => none

/-- The first phase of a call. -/
def enter : Call Value → Phase Value
  | .tryPush value => .pushLoadTail value
  | .tryPop => .popLoadHead

/-- A step of the threads. -/
def step (config : Threads Thread Value) : Act Thread Value → Option (Threads Thread Value)
  | .call thread call => match config.phase thread with
      | .idle => some { config.turn thread (enter call) with
          history := config.history ++ [.call thread call] }
      | _ => none
  | .step thread => config.act thread (config.phase thread)

end Threads

/-! ### Phases -/

namespace Phase

/-- The number of a value that has a slot and is not readable yet. -/
def ticket : Phase Value → Option Nat
  | .pushWait _ tail | .pushValue _ tail | .pushReadable tail => some tail.toNat
  | _ => none

/-- A value is being taken out of its slot. -/
def popping : Phase Value → Bool
  | .popWait _ | .popValue _ | .popReadable _ _ => true
  | _ => false

/-- The phases of `try_pop` that precede the answer. -/
def pops : Phase Value → Bool
  | .popLoadHead | .popLoadTail _ | .popExchange _ _ | .popWait _ | .popValue _
  | .popReadable _ _ => true
  | _ => false

end Phase

/-! ### Slots -/

section Slots

/-- What can be read from the slot of a number. -/
def shown (items : List (Item Value)) (number : Nat) : Option Value :=
  items[number % items.length]?.bind Item.reads

/-- The value in the slot of a number, readable or not. -/
def stored (items : List (Item Value)) (number : Nat) : Option Value :=
  items[number % items.length]?.map Item.value

variable {items : List (Item Value)} {number other : Nat} {item : Item Value}

theorem shown_set_self (inside : number % items.length < items.length) :
    shown (items.set (number % items.length) item) number = item.reads := by
  rw [shown, List.length_set, List.getElem?_set_self inside, Option.bind_some]

theorem stored_set_self (inside : number % items.length < items.length) :
    stored (items.set (number % items.length) item) number = some item.value := by
  rw [stored, List.length_set, List.getElem?_set_self inside, Option.map_some]

theorem shown_set_of_ne (different : number % items.length ≠ other % items.length) :
    shown (items.set (number % items.length) item) other = shown items other := by
  rw [shown, List.length_set, List.getElem?_set_ne different, shown]

theorem stored_set_of_ne (different : number % items.length ≠ other % items.length) :
    stored (items.set (number % items.length) item) other = stored items other := by
  rw [stored, List.length_set, List.getElem?_set_ne different, stored]

/-- Numbers with one slot show the same. -/
theorem shown_congr (same : number % items.length = other % items.length) :
    shown items number = shown items other := by
  rw [shown, same, shown]

/-- A slot that is written and reads as before. -/
theorem shown_set (inside : number % items.length < items.length)
    (reads : item.reads = shown items number) :
    shown (items.set (number % items.length) item) = shown items := by
  funext other
  by_cases same : number % items.length = other % items.length
  · rw [← shown_congr same, ← reads, ← shown_set_self inside]
    exact (shown_congr (by rwa [List.length_set])).symm
  · exact shown_set_of_ne same

end Slots

/-! ### One consumer -/

/-- What a thread knows in its phase. -/
def Phase.Knows (room pops : Nat) (pushed : List Value) (items : List (Item Value)) :
    Phase Value → Prop
  | .pushLoadHead _ tail => ∃ number : Nat, tail = number ∧ number ≤ pushed.length
  | .pushExchange _ tail newTail => ∃ number : Nat, tail = number ∧ newTail = int32 (number + 1) ∧
      number ≤ pushed.length ∧ number < pops + room
  | .pushWait value tail | .pushValue value tail =>
      ∃ number : Nat, tail = number ∧ pushed[number]? = some value
  | .pushReadable tail => ∃ (number : Nat) (value : Value), tail = number ∧
      pushed[number]? = some value ∧ stored items number = some value
  | .popLoadTail head => head = pops
  | .popExchange head newHead => head = pops ∧ newHead = int32 (pops + 1) ∧ pops < pushed.length
  | .popWait head => ∃ number : Nat, head = number ∧ number + 1 = pops
  | .popValue head => ∃ number : Nat, head = number ∧ number + 1 = pops ∧
      shown items number ≠ none
  | .popReadable head value => ∃ number : Nat, head = number ∧ number + 1 = pops ∧
      shown items number ≠ none ∧ pushed[number]? = some value
  | .outside _ => False
  | _ => True

/-- The queue and the threads when one thread takes the values out, of which the first `done` have
been taken out. A value that is not being stored can be read from its slot. -/
structure Sound (consumer : Thread) (room pops done : Nat) (lfq : LFQ Value)
    (phase : Thread → Phase Value) (pushed : List Value) : Prop where
  capacity : lfq.capacity = (room + 1 : Nat)
  length : lfq.itemlist.length = room + 1
  head : lfq.head = pops
  tail : lfq.tail = pushed.length
  small : pushed.length < 2 ^ 31
  popped : pops ≤ pushed.length
  few : pushed.length ≤ pops + room
  ended : pops = done + if (phase consumer).popping then 1 else 0
  one : ∀ thread, (phase thread).pops = true → thread = consumer
  knows : ∀ thread, (phase thread).Knows room pops pushed lfq.itemlist
  pending : ∀ {thread number}, (phase thread).ticket = some number →
    done ≤ number ∧ number < pushed.length ∧ shown lfq.itemlist number = none
  alone : ∀ {thread other number}, (phase thread).ticket = some number →
    (phase other).ticket = some number → thread = other
  kept : ∀ {number}, done ≤ number → number ≤ done + room →
    (∀ thread, (phase thread).ticket ≠ some number) → shown lfq.itemlist number = pushed[number]?

/-- What a thread knows is not undone by the steps of others. -/
theorem Phase.Knows.keep {phase : Phase Value} {room pops more : Nat} {pushed rest : List Value}
    {items after : List (Item Value)} (knows : phase.Knows room pops pushed items)
    (grown : pops ≤ more)
    (values : ∀ number, phase.ticket = some number → stored after number = stored items number)
    (others : phase.pops = true → more = pops ∧ ∀ number, shown items number ≠ none →
      shown after number ≠ none) :
    phase.Knows room more (pushed ++ rest) after := by
  have longer : pushed.length ≤ (pushed ++ rest).length :=
    List.length_append ▸ Nat.le_add_right _ _
  have found {number : Nat} {value : Value} (here : pushed[number]? = some value) :
      (pushed ++ rest)[number]? = some value := by
    rw [List.getElem?_append_left (List.getElem?_eq_some_iff.mp here).1, here]
  cases phase with
  | pushLoadHead value tail =>
      obtain ⟨number, loaded, below⟩ := knows
      exact ⟨number, loaded, below.trans longer⟩
  | pushExchange value tail newTail =>
      obtain ⟨number, loaded, next, below, space⟩ := knows
      exact ⟨number, loaded, next, below.trans longer, by omega⟩
  | pushWait value tail | pushValue value tail =>
      obtain ⟨number, loaded, here⟩ := knows
      exact ⟨number, loaded, found here⟩
  | pushReadable tail =>
      obtain ⟨number, value, rfl, here, written⟩ := knows
      exact ⟨number, value, rfl, found here, (values number rfl).trans written⟩
  | popLoadTail head =>
      obtain ⟨rfl, _⟩ := others rfl
      exact knows
  | popExchange head newHead =>
      obtain ⟨rfl, _⟩ := others rfl
      exact ⟨knows.1, knows.2.1, knows.2.2.trans_le longer⟩
  | popWait head =>
      obtain ⟨rfl, _⟩ := others rfl
      exact knows
  | popValue head =>
      obtain ⟨rfl, readable⟩ := others rfl
      obtain ⟨number, loaded, last, shows⟩ := knows
      exact ⟨number, loaded, last, readable number shows⟩
  | popReadable head value =>
      obtain ⟨rfl, readable⟩ := others rfl
      obtain ⟨number, loaded, last, shows, here⟩ := knows
      exact ⟨number, loaded, last, readable number shows, found here⟩
  | outside slot => exact knows
  | idle | pushLoadTail value | popLoadHead | returning answer => trivial

namespace Sound

variable {consumer : Thread} {room pops done : Nat} {lfq : LFQ Value}
  {phase : Thread → Phase Value} {pushed : List Value}
  (sound : Sound consumer room pops done lfq phase pushed) {thread : Thread} {next : Phase Value}
include sound

/-- A slot of the array. -/
theorem inside (number : Nat) : number % lfq.itemlist.length < lfq.itemlist.length :=
  Nat.mod_lt _ (by rw [sound.length]; exact Nat.succ_pos _)

/-- Numbers that are used at a time have different slots. -/
theorem index_ne {number other : Nat} (first : done ≤ number) (last : number ≤ done + room)
    (otherFirst : done ≤ other) (otherLast : other ≤ done + room) (different : number ≠ other) :
    number % lfq.itemlist.length ≠ other % lfq.itemlist.length := by
  obtain ⟨left, rfl⟩ := Nat.exists_eq_add_of_le first
  obtain ⟨right, rfl⟩ := Nat.exists_eq_add_of_le otherFirst
  rw [sound.length]
  intro same
  have equal := Ring.eq_of_index_eq (by omega) (by omega) same
  omega

theorem done_le : done ≤ pops := by
  rw [sound.ended]
  exact Nat.le_add_right _ _

theorem pops_le : pops ≤ done + 1 := by
  rw [sound.ended]
  split <;> omega

/-- The slot of a ticket is within the window. -/
theorem ticket_le {number : Nat} (holds : (phase thread).ticket = some number) :
    done ≤ number ∧ number ≤ done + room := by
  obtain ⟨first, last, _⟩ := sound.pending holds
  have few := sound.few
  have ahead := sound.pops_le
  exact ⟨first, by omega⟩

variable [DecidableEq Thread]

/-- A thread goes on that keeps its ticket, and may have written to its slot. -/
theorem store {items : List (Item Value)} (length : items.length = lfq.itemlist.length)
    (shows : shown items = shown lfq.itemlist)
    (values : ∀ other number, thread ≠ other → (phase other).ticket = some number →
      stored items number = stored lfq.itemlist number)
    (ticket : next.ticket = (phase thread).ticket)
    (popping : next.popping = (phase thread).popping)
    (one : next.pops = true → thread = consumer) (knows : next.Knows room pops pushed items) :
    Sound consumer room pops done { lfq with itemlist := items }
      (Function.update phase thread next) pushed := by
  have tickets (other : Thread) :
      (Function.update phase thread next other).ticket = (phase other).ticket := by
    rcases eq_or_ne thread other with rfl | elsewhere
    · rw [Function.update_self, ticket]
    · rw [Function.update_of_ne elsewhere.symm]
  refine { sound with length := length.trans sound.length, ended := ?_, one := ?_, knows := ?_
                      pending := ?_, alone := ?_, kept := ?_ }
  · rcases eq_or_ne thread consumer with rfl | elsewhere
    · rw [Function.update_self, popping, ← sound.ended]
    · rw [Function.update_of_ne elsewhere.symm, ← sound.ended]
  · intro other
    rcases eq_or_ne thread other with rfl | elsewhere
    · rw [Function.update_self]
      exact one
    · rw [Function.update_of_ne elsewhere.symm]
      exact sound.one other
  · intro other
    rcases eq_or_ne thread other with rfl | elsewhere
    · rw [Function.update_self]
      exact knows
    · rw [Function.update_of_ne elsewhere.symm, ← List.append_nil pushed]
      exact (sound.knows other).keep le_rfl (fun number => values other number elsewhere)
        fun _ => ⟨rfl, fun number => by rw [shows]; exact id⟩
  · intro other number holds
    rw [tickets] at holds
    rw [shows]
    exact sound.pending holds
  · intro first second number holds also
    rw [tickets] at holds also
    exact sound.alone holds also
  · intro number first last free
    rw [shows]
    exact sound.kept first last fun other => by rw [← tickets other]; exact free other

/-- A thread goes on that keeps its ticket. -/
theorem turn (ticket : next.ticket = (phase thread).ticket)
    (popping : next.popping = (phase thread).popping)
    (one : next.pops = true → thread = consumer)
    (knows : next.Knows room pops pushed lfq.itemlist) :
    Sound consumer room pops done lfq (Function.update phase thread next) pushed :=
  sound.store rfl rfl (fun _ _ _ _ => rfl) ticket popping one knows

/-- A thread that pushes gets the next number. -/
theorem takeTicket (thread : Thread) (value : Value) (fits : pushed.length + 1 < 2 ^ 31)
    (space : pushed.length < pops + room) (before : (phase thread).ticket = none)
    (unpopping : (phase thread).popping = false) :
    Sound consumer room pops done { lfq with tail := int32 (lfq.tail + 1) }
      (Function.update phase thread (.pushWait value lfq.tail)) (pushed ++ [value]) := by
  have length : (pushed ++ [value]).length = pushed.length + 1 := by
    rw [List.length_append, List.length_singleton]
  have ahead := sound.pops_le
  have here : lfq.tail.toNat = pushed.length := by rw [sound.tail, Int.toNat_natCast]
  have mine : (Function.update phase thread (.pushWait value lfq.tail) thread).ticket =
      some pushed.length := by
    rw [Function.update_self, Phase.ticket, here]
  have tickets {other : Thread} (elsewhere : thread ≠ other) :
      (Function.update phase thread (.pushWait value lfq.tail) other).ticket =
        (phase other).ticket := by
    rw [Function.update_of_ne elsewhere.symm]
  -- no thread has the number yet, so that nothing is shown in its slot
  have fresh (other : Thread) : (phase other).ticket ≠ some pushed.length := fun holds =>
    absurd (sound.pending holds).2.1 (lt_irrefl _)
  have empty : shown lfq.itemlist pushed.length = none := by
    rw [sound.kept (sound.done_le.trans sound.popped) (by omega) fresh,
      List.getElem?_eq_none le_rfl]
  refine { sound with tail := ?_, small := ?_, popped := ?_, few := ?_, ended := ?_, one := ?_
                      knows := ?_, pending := ?_, alone := ?_, kept := ?_ }
  · rw [length, sound.tail, ← Nat.cast_succ, int32_natCast fits]
  · rw [length]
    exact fits
  · exact sound.popped.trans (length ▸ Nat.le_succ _)
  · rw [length]
    exact space
  · rcases eq_or_ne thread consumer with rfl | elsewhere
    · rw [Function.update_self, sound.ended, unpopping]
      rfl
    · rw [Function.update_of_ne elsewhere.symm, ← sound.ended]
  · intro other
    rcases eq_or_ne thread other with rfl | elsewhere
    · rw [Function.update_self]
      exact nofun
    · rw [Function.update_of_ne elsewhere.symm]
      exact sound.one other
  · intro other
    rcases eq_or_ne thread other with rfl | elsewhere
    · rw [Function.update_self]
      exact ⟨pushed.length, sound.tail, List.getElem?_concat_length⟩
    · rw [Function.update_of_ne elsewhere.symm]
      exact (sound.knows other).keep le_rfl (fun _ _ => rfl) fun _ => ⟨rfl, fun _ => id⟩
  · intro other number holds
    rcases eq_or_ne thread other with rfl | elsewhere
    · obtain rfl := Option.some.inj (mine.symm.trans holds)
      exact ⟨sound.done_le.trans sound.popped, length ▸ Nat.lt_succ_self _, empty⟩
    · obtain ⟨first, last, hidden⟩ := sound.pending ((tickets elsewhere).symm.trans holds)
      exact ⟨first, length ▸ Nat.lt_succ_of_lt last, hidden⟩
  · intro first second number holds also
    rcases eq_or_ne thread first with rfl | firstElse <;>
      rcases eq_or_ne thread second with rfl | secondElse
    · rfl
    · obtain rfl := Option.some.inj (mine.symm.trans holds)
      exact absurd ((tickets secondElse).symm.trans also) (fresh second)
    · obtain rfl := Option.some.inj (mine.symm.trans also)
      exact absurd ((tickets firstElse).symm.trans holds) (fresh first)
    · exact sound.alone ((tickets firstElse).symm.trans holds)
        ((tickets secondElse).symm.trans also)
  · intro number first last free
    have other : number ≠ pushed.length := fun same => free thread (same ▸ mine)
    refine (sound.kept first last fun second holds => ?_).trans ?_
    · rcases eq_or_ne thread second with rfl | elsewhere
      · rw [before] at holds
        cases holds
      · exact free second ((tickets elsewhere).trans holds)
    · rcases lt_or_gt_of_ne other with below | beyond
      · rw [List.getElem?_append_left below]
      · rw [List.getElem?_eq_none beyond.le, List.getElem?_eq_none (length ▸ beyond)]

/-- The consumer takes the next number. -/
theorem takeHead (present : pops < pushed.length) (before : (phase consumer).ticket = none)
    (unpopping : (phase consumer).popping = false) :
    Sound consumer room (pops + 1) done { lfq with head := int32 (lfq.head + 1) }
      (Function.update phase consumer (.popWait lfq.head)) pushed := by
  have tickets (other : Thread) :
      (Function.update phase consumer (.popWait lfq.head) other).ticket =
        (phase other).ticket := by
    rcases eq_or_ne consumer other with rfl | elsewhere
    · rw [Function.update_self, before]
      rfl
    · rw [Function.update_of_ne elsewhere.symm]
  refine { sound with head := ?_, popped := present, few := ?_, ended := ?_, one := ?_
                      knows := ?_, pending := ?_, alone := ?_, kept := ?_ }
  · have small := sound.small
    rw [sound.head, ← Nat.cast_succ, int32_natCast (by omega)]
  · have few := sound.few
    omega
  · rw [Function.update_self, Phase.popping, if_pos rfl, sound.ended, unpopping]
    rfl
  · intro other
    rcases eq_or_ne consumer other with rfl | elsewhere
    · exact fun _ => rfl
    · rw [Function.update_of_ne elsewhere.symm]
      exact sound.one other
  · intro other
    rcases eq_or_ne consumer other with rfl | elsewhere
    · rw [Function.update_self]
      exact ⟨pops, sound.head, rfl⟩
    · rw [Function.update_of_ne elsewhere.symm, ← List.append_nil pushed]
      exact (sound.knows other).keep (Nat.le_succ _) (fun _ _ => rfl) fun popper =>
        absurd (sound.one other popper) elsewhere.symm
  · intro other number holds
    exact sound.pending ((tickets other).symm.trans holds)
  · intro first second number holds also
    exact sound.alone ((tickets first).symm.trans holds) ((tickets second).symm.trans also)
  · intro number first last free
    exact sound.kept first last fun other => by rw [← tickets other]; exact free other

/-- A value becomes readable. -/
theorem publish {number : Nat} {value : Value} {item : Item Value}
    (holds : (phase thread).ticket = some number) (here : pushed[number]? = some value)
    (reads : item.reads = some value) (ticket : next.ticket = none)
    (popping : next.popping = (phase thread).popping)
    (one : next.pops = true → thread = consumer)
    (knows : ∀ items, next.Knows room pops pushed items) :
    Sound consumer room pops done
      { lfq with itemlist := lfq.itemlist.set (number % lfq.itemlist.length) item }
      (Function.update phase thread next) pushed := by
  have inside := sound.inside number
  obtain ⟨first, last⟩ := sound.ticket_le holds
  have hidden := (sound.pending holds).2.2
  have tickets {other : Thread} (elsewhere : thread ≠ other) :
      (Function.update phase thread next other).ticket = (phase other).ticket := by
    rw [Function.update_of_ne elsewhere.symm]
  have mine : (Function.update phase thread next thread).ticket = none := by
    rw [Function.update_self, ticket]
  have holder {other : Thread} {number' : Nat}
      (has : (Function.update phase thread next other).ticket = some number') :
      thread ≠ other ∧ (phase other).ticket = some number' := by
    rcases eq_or_ne thread other with rfl | elsewhere
    · rw [mine] at has
      cases has
    · exact ⟨elsewhere, (tickets elsewhere).symm.trans has⟩
  refine { sound with length := ?_, ended := ?_, one := ?_, knows := ?_, pending := ?_
                      alone := ?_, kept := ?_ }
  · rw [List.length_set, sound.length]
  · rcases eq_or_ne thread consumer with rfl | elsewhere
    · rw [Function.update_self, popping, ← sound.ended]
    · rw [Function.update_of_ne elsewhere.symm, ← sound.ended]
  · intro other
    rcases eq_or_ne thread other with rfl | elsewhere
    · rw [Function.update_self]
      exact one
    · rw [Function.update_of_ne elsewhere.symm]
      exact sound.one other
  · intro other
    rcases eq_or_ne thread other with rfl | elsewhere
    · rw [Function.update_self]
      exact knows _
    · rw [Function.update_of_ne elsewhere.symm, ← List.append_nil pushed]
      refine (sound.knows other).keep le_rfl (fun number' has => ?_) fun _ =>
        ⟨rfl, fun number' shows => ?_⟩
      · obtain ⟨otherFirst, otherLast⟩ := sound.ticket_le has
        refine stored_set_of_ne (sound.index_ne first last otherFirst otherLast fun same => ?_)
        exact elsewhere (sound.alone (same ▸ holds) has)
      · rwa [shown_set_of_ne fun same => shows ((shown_congr same).symm.trans hidden)]
  · intro other number' has
    obtain ⟨elsewhere, held⟩ := holder has
    obtain ⟨otherFirst, otherLast⟩ := sound.ticket_le held
    obtain ⟨_, below, unseen⟩ := sound.pending held
    refine ⟨otherFirst, below, ?_⟩
    rw [shown_set_of_ne, unseen]
    exact sound.index_ne first last otherFirst otherLast fun same =>
      elsewhere (sound.alone (same ▸ holds) held)
  · intro left right number' has also
    exact sound.alone (holder has).2 (holder also).2
  · intro number' otherFirst otherLast free
    by_cases same : number = number'
    · rw [← same, shown_set_self inside, reads, here]
    · rw [shown_set_of_ne (sound.index_ne first last otherFirst otherLast same)]
      refine sound.kept otherFirst otherLast fun other has => ?_
      rcases eq_or_ne thread other with rfl | elsewhere
      · exact same (Option.some.inj (holds.symm.trans has))
      · exact free other ((tickets elsewhere).trans has)

/-- The consumer clears the slot of the value that it has taken out. -/
theorem clear {item : Item Value} (last : done + 1 = pops) (shows : shown lfq.itemlist done ≠ none)
    (before : (phase consumer).ticket = none) (reads : item.reads = none)
    (answer : Answer Value) :
    Sound consumer room pops (done + 1)
      { lfq with itemlist := lfq.itemlist.set (done % lfq.itemlist.length) item }
      (Function.update phase consumer (.returning answer)) pushed := by
  have inside := sound.inside done
  have tickets (other : Thread) :
      (Function.update phase consumer (.returning answer) other).ticket =
        (phase other).ticket := by
    rcases eq_or_ne consumer other with rfl | elsewhere
    · rw [Function.update_self, before]
      rfl
    · rw [Function.update_of_ne elsewhere.symm]
  -- the slot of a ticket shows nothing, and is another one
  have later {other : Thread} {number : Nat} (has : (phase other).ticket = some number) :
      done % lfq.itemlist.length ≠ number % lfq.itemlist.length ∧ done + 1 ≤ number := by
    obtain ⟨first, _, hidden⟩ := sound.pending has
    have different : done % lfq.itemlist.length ≠ number % lfq.itemlist.length := fun same =>
      shows ((shown_congr same).trans hidden)
    exact ⟨different, lt_of_le_of_ne first fun same => different (same ▸ rfl)⟩
  refine { sound with length := ?_, ended := ?_, one := ?_, knows := ?_, pending := ?_
                      alone := ?_, kept := ?_ }
  · rw [List.length_set, sound.length]
  · rw [Function.update_self, ← last]
    rfl
  · intro other
    rcases eq_or_ne consumer other with rfl | elsewhere
    · exact fun _ => rfl
    · rw [Function.update_of_ne elsewhere.symm]
      exact sound.one other
  · intro other
    rcases eq_or_ne consumer other with rfl | elsewhere
    · rw [Function.update_self]
      trivial
    · rw [Function.update_of_ne elsewhere.symm, ← List.append_nil pushed]
      exact (sound.knows other).keep le_rfl (fun number has => stored_set_of_ne (later has).1)
        fun popper => absurd (sound.one other popper) elsewhere.symm
  · intro other number holds
    have has := (tickets other).symm.trans holds
    obtain ⟨_, below, hidden⟩ := sound.pending has
    exact ⟨(later has).2, below, by rw [shown_set_of_ne (later has).1, hidden]⟩
  · intro first second number holds also
    exact sound.alone ((tickets first).symm.trans holds) ((tickets second).symm.trans also)
  · intro number first beyond free
    have unused (other : Thread) : (phase other).ticket ≠ some number :=
      tickets other ▸ free other
    rcases Nat.lt_or_ge (done + room) number with wrapped | within
    · -- the slot is used again, for a value that has not been pushed yet
      have few := sound.few
      have length := sound.length
      obtain rfl : number = done + lfq.itemlist.length := by omega
      have same : (done + lfq.itemlist.length) %
          (lfq.itemlist.set (done % lfq.itemlist.length) item).length =
            done % (lfq.itemlist.set (done % lfq.itemlist.length) item).length := by
        rw [List.length_set, Nat.add_mod_right]
      rw [shown_congr same, shown_set_self inside, reads, List.getElem?_eq_none (by omega)]
    · rw [shown_set_of_ne, sound.kept (Nat.le_of_succ_le first) within unused]
      exact sound.index_ne le_rfl (Nat.le_add_right _ _) (Nat.le_of_succ_le first) within
        (Nat.lt_of_succ_le first).ne

omit [DecidableEq Thread] in
/-- The test for a full queue, with a tail that may have been passed. -/
theorem sub_eq (fits : room + 1 < 2 ^ 31) {number : Nat} (below : number ≤ pushed.length) :
    int32 (int32 (number + 1) - lfq.head) = (number : Int) + 1 - pops := by
  have small := sound.small
  have few := sound.few
  have popped := sound.popped
  rw [sound.head, int32, int32, Int.bmod_sub_bmod]
  exact int32_eq_self (by omega) (by omega)

end Sound

end LogProcess.LFQ
