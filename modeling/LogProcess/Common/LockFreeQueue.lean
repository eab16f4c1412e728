import LogProcess.Foundation.BoundedQueue
import LogProcess.Foundation.MachineInt
import LogProcess.Foundation.Ring

/-! # The lock-free queue

`LFQ` of `common/lockfreequeue_funcs.h`, as one thread calls it. The counters `head` and `tail` grow
without end and are reduced modulo the capacity when a slot is touched, so that the items are a
`Ring`. The calls answer as a `BoundedQueue` does that has room for one value less than the
capacity, until the counter of pushes has passed the greatest `int`: its remainder is then
negative (`answers_iff`).
-/

namespace LogProcess

/-- A slot of a queue. -/
structure Item (Value : Type) where
  readable : Bool
  value : Value
  deriving DecidableEq

/-- What can be read from an item. -/
def Item.reads {Value : Type} (item : Item Value) : Option Value :=
  if item.readable then some item.value else none

/-- The members of a queue. -/
structure LFQ (Value : Type) where
  capacity : Int
  head : Int
  tail : Int
  itemlist : List (Item Value)
  deriving DecidableEq

namespace LFQ

variable {Value : Type}

/-- How a call ends. One thread can stay in a loop that waits for a slot for ever, and it can touch
a slot outside of the array. -/
inductive Outcome (Value Result : Type) where
  | returned (result : Result) (lfq : LFQ Value)
  | spins
  | outside (slot : Int)

/-- What follows a call that returns. -/
def Outcome.andThen {Result Next : Type} (next : Result → LFQ Value → Option Next) :
    Outcome Value Result → Option Next
  | returned result lfq => next result lfq
  | spins => none
  | outside _ => none

/-- The constructor, which clears the memory of the items. -/
def new (capacity : Int) (zero : Value) : LFQ Value :=
  ⟨capacity, 0, 0, List.replicate capacity.toNat ⟨false, zero⟩⟩

/-- The item at an index, if it is one of the array. -/
def item? (lfq : LFQ Value) (slot : Int) : Option (Item Value) :=
  if 0 ≤ slot then lfq.itemlist[slot.toNat]? else none

/-- `try_push`. The exchange of the tail succeeds, since no other thread changes it. -/
def tryPush (lfq : LFQ Value) (value : Value) : Outcome Value Bool :=
  let newTail := int32 (lfq.tail + 1)
  if lfq.capacity ≤ int32 (newTail - lfq.head) then .returned false lfq
  else
    let slot := lfq.tail.tmod lfq.capacity
    match lfq.item? slot with
    | none => .outside slot
    | some item =>
        if item.readable then .spins
        else .returned true { lfq with
          tail := newTail, itemlist := lfq.itemlist.set slot.toNat ⟨true, value⟩ }

/-- `try_pop`, with the value when there is one. -/
def tryPop (lfq : LFQ Value) : Outcome Value (Option Value) :=
  if lfq.head = lfq.tail then .returned none lfq
  else
    let newHead := int32 (lfq.head + 1)
    let slot := lfq.head.tmod lfq.capacity
    match lfq.item? slot with
    | none => .outside slot
    | some item =>
        if item.readable then
          .returned (some item.value) { lfq with
            head := newHead
            itemlist := lfq.itemlist.set slot.toNat { item with readable := false } }
        else .spins

/-! ### Calls -/

inductive Call (Value : Type) where
  | tryPush (value : Value)
  | tryPop

inductive Answer (Value : Type) where
  | pushed (success : Bool)
  | popped (value : Option Value)
  deriving DecidableEq

def Answer.isPush : Answer Value → Bool
  | .pushed success => success
  | .popped _ => false

/-- The answers to some calls, without a result when a call spins or leaves the array. -/
def answers (lfq : LFQ Value) : List (Call Value) → Option (List (Answer Value))
  | [] => some []
  | .tryPush value :: rest => (lfq.tryPush value).andThen fun success next =>
      (next.answers rest).map (.pushed success :: ·)
  | .tryPop :: rest => lfq.tryPop.andThen fun value next =>
      (next.answers rest).map (.popped value :: ·)

/-- The answers of a queue with room for a fixed number of values. -/
def fifoAnswers {room : Nat} (queue : BoundedQueue Value room) :
    List (Call Value) → List (Answer Value)
  | [] => []
  | .tryPush value :: rest => .pushed (queue.push value).1 :: fifoAnswers (queue.push value).2 rest
  | .tryPop :: rest => .popped queue.pop.1 :: fifoAnswers queue.pop.2 rest

/-- The number of values that such a queue takes in. -/
def accepted {room : Nat} (queue : BoundedQueue Value room) (calls : List (Call Value)) : Nat :=
  (fifoAnswers queue calls).countP Answer.isPush

/-! ### Counters and slots -/

/-- The number of pushes whose slots are in the array. The remainder of the least `int` is zero, not
negative, for a power of two. -/
def reach (capacity : Nat) : Nat := if capacity ∣ 2 ^ 31 then 2 ^ 31 + 1 else 2 ^ 31

theorem int32_natCast {number : Nat} (small : number < 2 ^ 31) : int32 number = number :=
  int32_eq_self (by omega) (by omega)

theorem int32_two_pow : int32 (2 ^ 31 : Nat) = -(2 ^ 31 : Nat) := by decide

/-- The slot of a number that is reached. -/
theorem tmod_eq {capacity number : Nat} (below : number < reach capacity) :
    (int32 number).tmod capacity = (number % capacity : Nat) := by
  rcases lt_or_ge number (2 ^ 31) with small | large
  · rw [int32_natCast small, Int.ofNat_tmod]
  · rw [reach] at below
    split_ifs at below with divides
    · obtain rfl : number = 2 ^ 31 := by omega
      rw [int32_two_pow, Int.neg_tmod, ← Int.ofNat_tmod, Nat.mod_eq_zero_of_dvd divides]
      rfl
    · omega

theorem neg_tmod_neg {capacity number : Nat} (indivisible : ¬capacity ∣ number) :
    (-(number : Int)).tmod capacity < 0 := by
  have positive := Nat.pos_of_ne_zero fun zero => indivisible (Nat.dvd_of_mod_eq_zero zero)
  rw [Int.neg_tmod, ← Int.ofNat_tmod]
  omega

/-- The slot of the first number that is not reached is negative. -/
theorem tmod_reach_neg {capacity : Nat} (several : 1 < capacity) :
    (int32 (reach capacity)).tmod capacity < 0 := by
  rw [reach]
  split_ifs with divides
  · have wrapped : int32 (2 ^ 31 + 1 : Nat) = -(2 ^ 31 - 1 : Nat) := by decide
    rw [wrapped]
    refine neg_tmod_neg fun other => ?_
    have one : capacity ∣ 2 ^ 31 - (2 ^ 31 - 1) := Nat.dvd_sub divides other
    exact absurd (Nat.dvd_one.mp one) several.ne'
  · rw [int32_two_pow]
    exact neg_tmod_neg divides

/-- A counter that is raised before it is reduced. -/
theorem int32_succ (number : Nat) : int32 (int32 number + 1) = int32 (number + 1 : Nat) := by
  rw [int32, int32, Int.bmod_add_bmod]
  rfl

/-- The difference of two counters is exact when it is small. -/
theorem int32_sub {greater smaller : Nat} (ordered : smaller ≤ greater)
    (close : greater - smaller < 2 ^ 31) :
    int32 (int32 greater - int32 smaller) = (greater - smaller : Nat) := by
  rw [int32, int32, int32, Int.bmod_sub_bmod, Int.sub_bmod_bmod, ← Nat.cast_sub ordered]
  exact int32_natCast close

theorem int32_inj {greater smaller : Nat} (ordered : smaller ≤ greater)
    (close : greater - smaller < 2 ^ 31) (same : int32 smaller = int32 greater) :
    smaller = greater := by
  have difference := int32_sub ordered close
  rw [same, sub_self] at difference
  have zero : int32 0 = 0 := rfl
  rw [zero] at difference
  omega

/-! ### Calls that touch a slot -/

section Touch

variable {lfq : LFQ Value} {slot : Nat} {item : Item Value}

theorem tryPush_of_item (notFull : ¬lfq.capacity ≤ int32 (int32 (lfq.tail + 1) - lfq.head))
    (index : lfq.tail.tmod lfq.capacity = slot) (found : lfq.item? slot = some item)
    (unreadable : item.readable = false) (value : Value) :
    lfq.tryPush value = .returned true { lfq with
      tail := int32 (lfq.tail + 1), itemlist := lfq.itemlist.set slot ⟨true, value⟩ } := by
  simp only [tryPush, notFull, ↓reduceIte, index, found, unreadable, Bool.false_eq_true,
    Int.toNat_natCast]

theorem tryPop_of_item (present : lfq.head ≠ lfq.tail)
    (index : lfq.head.tmod lfq.capacity = slot) (found : lfq.item? slot = some item)
    (readable : item.readable = true) :
    lfq.tryPop = .returned (some item.value) { lfq with
      head := int32 (lfq.head + 1)
      itemlist := lfq.itemlist.set slot { item with readable := false } } := by
  simp only [tryPop, present, ↓reduceIte, index, found, readable, Int.toNat_natCast]

end Touch

/-! ### Calls keep the values -/

/-- The queue holds the values of a FIFO after so many pops and pushes. -/
structure Represents (lfq : LFQ Value) {room : Nat} (queue : BoundedQueue Value room)
    (pops pushes : Nat) : Prop where
  capacity : lfq.capacity = (room + 1 : Nat)
  length : lfq.itemlist.length = room + 1
  head : lfq.head = int32 pops
  tail : lfq.tail = int32 pushes
  pushes : pushes = pops + queue.entries.length
  items : Ring.Holds Item.reads lfq.itemlist pops queue.entries

section Steps

variable {room : Nat} {lfq : LFQ Value} {queue : BoundedQueue Value room} {pops pushes : Nat}
  (represents : lfq.Represents queue pops pushes) (fits : room + 1 < 2 ^ 31)
include represents fits

/-- The test for a full queue. -/
theorem Represents.sub_eq :
    int32 (int32 (lfq.tail + 1) - lfq.head) = (queue.entries.length + 1 : Nat) := by
  have pushed := represents.pushes
  have bounded := queue.bounded
  rw [represents.tail, represents.head, int32_succ, int32_sub (by omega) (by omega)]
  congr 1
  omega

theorem Represents.full_iff :
    lfq.capacity ≤ int32 (int32 (lfq.tail + 1) - lfq.head) ↔ ¬queue.HasRoom := by
  rw [represents.sub_eq fits, represents.capacity, BoundedQueue.HasRoom]
  omega

/-- A push that finds no room. -/
theorem Represents.tryPush_of_full (full : ¬queue.HasRoom) (value : Value) :
    lfq.tryPush value = .returned false lfq := by
  rw [tryPush, if_pos ((represents.full_iff fits).mpr full)]

omit fits in
/-- The item in the slot of a number. -/
theorem Represents.exists_item (number : Nat) :
    ∃ item, lfq.item? (number % (room + 1) : Nat) = some item ∧
      lfq.itemlist[number % lfq.itemlist.length]? = some item := by
  have inside : number % (room + 1) < lfq.itemlist.length := by
    rw [represents.length]
    exact Nat.mod_lt _ (Nat.succ_pos _)
  obtain ⟨item, found⟩ : ∃ item, lfq.itemlist[number % (room + 1)]? = some item :=
    ⟨_, List.getElem?_eq_getElem inside⟩
  refine ⟨item, ?_, ?_⟩
  · rw [item?, if_pos (Int.natCast_nonneg _), Int.toNat_natCast, found]
  · rw [represents.length, found]

/-- A push that finds room in a slot of the array. -/
theorem Represents.tryPush_of_hasRoom (hasRoom : queue.HasRoom)
    (below : pushes < reach (room + 1)) (value : Value) :
    ∃ next, lfq.tryPush value = .returned true next ∧
      next.Represents (queue.push value).2 pops (pushes + 1) := by
  have notFull : ¬lfq.capacity ≤ int32 (int32 (lfq.tail + 1) - lfq.head) := fun full =>
    (represents.full_iff fits).mp full hasRoom
  have slot : lfq.tail.tmod lfq.capacity = (pushes % (room + 1) : Nat) := by
    rw [represents.tail, represents.capacity, tmod_eq below]
  have space : queue.entries.length < lfq.itemlist.length := by
    rw [represents.length]
    exact hasRoom.trans (Nat.lt_succ_self room)
  obtain ⟨item, found, present⟩ := represents.exists_item pushes
  have unread := represents.items.free_next space
  rw [← represents.pushes, present, Option.bind_some, Item.reads] at unread
  have unreadable : item.readable = false := by
    by_contra readable
    rw [if_pos (Bool.not_eq_false _ ▸ readable)] at unread
    exact Option.some_ne_none _ unread
  have written : Item.reads ⟨true, value⟩ = some value := rfl
  refine ⟨_, tryPush_of_item notFull slot found unreadable value, represents.capacity, ?_,
    represents.head, ?_, ?_, ?_⟩
  · rw [List.length_set, represents.length]
  · rw [represents.tail, int32_succ]
  · rw [BoundedQueue.entries_push hasRoom, List.length_append, List.length_singleton,
      represents.pushes, Nat.add_assoc]
  · rw [BoundedQueue.entries_push hasRoom]
    have pushed := represents.items.push space written
    rwa [← represents.pushes, represents.length] at pushed

/-- A push that finds room in a slot outside of the array. -/
theorem Represents.tryPush_of_reach (hasRoom : queue.HasRoom)
    (passed : pushes = reach (room + 1)) (value : Value) :
    ∃ slot, lfq.tryPush value = .outside slot := by
  have notFull : ¬lfq.capacity ≤ int32 (int32 (lfq.tail + 1) - lfq.head) := fun full =>
    (represents.full_iff fits).mp full hasRoom
  have several : 1 < room + 1 := Nat.succ_lt_succ (Nat.zero_lt_of_lt hasRoom)
  have negative : ¬0 ≤ lfq.tail.tmod lfq.capacity := by
    rw [represents.tail, represents.capacity, passed]
    exact not_le.mpr (tmod_reach_neg several)
  refine ⟨lfq.tail.tmod lfq.capacity, ?_⟩
  simp only [tryPush, notFull, ↓reduceIte, item?, negative]

omit fits in
/-- A pop that finds nothing. -/
theorem Represents.tryPop_of_nil (empty : queue.entries = []) :
    lfq.tryPop = .returned none lfq := by
  have pushed := represents.pushes
  rw [empty] at pushed
  rw [tryPop, if_pos]
  rw [represents.head, represents.tail, pushed]
  rfl

/-- A pop that finds the oldest value. -/
theorem Represents.tryPop_of_cons {value : Value} {rest : List Value}
    (first : queue.entries = value :: rest) (below : pushes ≤ reach (room + 1)) :
    ∃ next, lfq.tryPop = .returned (some value) next ∧
      next.Represents queue.pop.2 (pops + 1) pushes := by
  have pushed := represents.pushes
  have bounded := queue.bounded
  rw [first, List.length_cons] at pushed bounded
  have present : ¬lfq.head = lfq.tail := by
    rw [represents.head, represents.tail]
    intro same
    have equal := int32_inj (by omega) (by omega) same
    omega
  have slot : lfq.head.tmod lfq.capacity = (pops % (room + 1) : Nat) := by
    rw [represents.head, represents.capacity, tmod_eq (by omega)]
  obtain ⟨item, found, there⟩ := represents.exists_item pops
  have items := represents.items
  rw [first] at items
  have read := items.filled (List.getElem?_cons_zero : (value :: rest)[0]? = some value)
  rw [Nat.add_zero, there, Option.bind_some, Item.reads] at read
  have readable : item.readable = true := by
    by_contra unreadable
    rw [if_neg unreadable] at read
    exact Option.some_ne_none _ read.symm
  rw [if_pos readable] at read
  obtain rfl := Option.some.inj read
  have cleared : Item.reads { item with readable := false } = none := rfl
  refine ⟨_, tryPop_of_item present slot found readable, represents.capacity, ?_, ?_,
    represents.tail, ?_, ?_⟩
  · rw [List.length_set, represents.length]
  · rw [represents.head, int32_succ]
  · rw [BoundedQueue.entries_pop, first, List.tail_cons]
    omega
  · rw [BoundedQueue.entries_pop, first, List.tail_cons]
    have popped := items.pop cleared
    rwa [represents.length] at popped

end Steps

/-! ### Runs -/

theorem represents_new (room : Nat) (zero : Value) :
    (new (room + 1 : Nat) zero).Represents (BoundedQueue.empty : BoundedQueue Value room) 0 0 where
  capacity := rfl
  length := List.length_replicate
  head := rfl
  tail := rfl
  pushes := rfl
  items := by
    refine Ring.holds_nil (fun slot member => ?_) 0
    rw [List.eq_of_mem_replicate member]
    rfl

theorem answers_of_pushed {lfq next : LFQ Value} {value : Value} {success : Bool}
    (returned : lfq.tryPush value = .returned success next) (rest : List (Call Value)) :
    lfq.answers (.tryPush value :: rest) = (next.answers rest).map (.pushed success :: ·) := by
  rw [answers, returned, Outcome.andThen]

theorem answers_of_outside {lfq : LFQ Value} {value : Value} {slot : Int}
    (outside : lfq.tryPush value = .outside slot) (rest : List (Call Value)) :
    lfq.answers (.tryPush value :: rest) = none := by
  rw [answers, outside, Outcome.andThen]

theorem answers_of_popped {lfq next : LFQ Value} {value : Option Value}
    (returned : lfq.tryPop = .returned value next) (rest : List (Call Value)) :
    lfq.answers (.tryPop :: rest) = (next.answers rest).map (.popped value :: ·) := by
  rw [answers, returned, Outcome.andThen]

theorem map_cons_eq_some_iff {Element : Type} {first : Element} {list : Option (List Element)}
    {rest : List Element} : list.map (first :: ·) = some (first :: rest) ↔ list = some rest := by
  cases list with
  | none => exact ⟨nofun, nofun⟩
  | some list => rw [Option.map_some, Option.some.injEq, Option.some.injEq, List.cons.injEq,
      and_iff_right rfl]

theorem accepted_cons_of_hasRoom {room : Nat} {queue : BoundedQueue Value room}
    (hasRoom : queue.HasRoom) (value : Value) (rest : List (Call Value)) :
    accepted queue (.tryPush value :: rest) = accepted (queue.push value).2 rest + 1 := by
  rw [accepted, fifoAnswers, (queue.push_fst_iff value).mpr hasRoom]
  exact List.countP_cons_of_pos rfl

theorem accepted_cons_of_full {room : Nat} {queue : BoundedQueue Value room}
    (full : ¬queue.HasRoom) (value : Value) (rest : List (Call Value)) :
    accepted queue (.tryPush value :: rest) = accepted queue rest := by
  rw [accepted, fifoAnswers, BoundedQueue.push_of_full full]
  exact List.countP_cons_of_neg Bool.false_ne_true

/-- The answers agree as long as no push gets beyond the reach. -/
theorem Represents.answers_eq_iff {room limit : Nat} (fits : room + 1 < 2 ^ 31)
    (limited : reach (room + 1) = limit) (calls : List (Call Value)) {lfq : LFQ Value}
    {queue : BoundedQueue Value room} {pops pushes : Nat}
    (represents : lfq.Represents queue pops pushes) (below : pushes ≤ limit) :
    lfq.answers calls = some (fifoAnswers queue calls) ↔
      pushes + accepted queue calls ≤ limit := by
  induction calls generalizing lfq queue pops pushes with
  | nil => exact ⟨fun _ => below, fun _ => rfl⟩
  | cons call rest ih =>
      cases call with
      | tryPush value =>
          by_cases hasRoom : queue.HasRoom
          · rw [accepted_cons_of_hasRoom hasRoom]
            rcases below.lt_or_eq with inside | passed
            · obtain ⟨next, returned, later⟩ :=
                represents.tryPush_of_hasRoom fits hasRoom (limited ▸ inside) value
              rw [answers_of_pushed returned, fifoAnswers, (queue.push_fst_iff value).mpr hasRoom,
                map_cons_eq_some_iff, ih later inside, Nat.add_assoc, Nat.add_comm 1]
            · obtain ⟨slot, outside⟩ :=
                represents.tryPush_of_reach fits hasRoom (passed.trans limited.symm) value
              rw [answers_of_outside outside]
              refine ⟨nofun, fun within => absurd within (not_le.mpr ?_)⟩
              rw [passed]
              exact Nat.lt_add_of_pos_right (Nat.succ_pos _)
          · rw [accepted_cons_of_full hasRoom]
            rw [answers_of_pushed (represents.tryPush_of_full fits hasRoom value), fifoAnswers,
              BoundedQueue.push_of_full hasRoom, map_cons_eq_some_iff]
            exact ih represents below
      | tryPop =>
          have same : accepted queue (.tryPop :: rest) = accepted queue.pop.2 rest :=
            List.countP_cons_of_neg Bool.false_ne_true
          rw [same]
          cases entries : queue.entries with
          | nil =>
              have unchanged : queue.pop = (none, queue) := by
                obtain ⟨_, bounded⟩ := queue
                subst entries
                rfl
              rw [answers_of_popped (represents.tryPop_of_nil entries), fifoAnswers, unchanged,
                map_cons_eq_some_iff]
              exact ih represents below
          | cons value left =>
              obtain ⟨next, returned, later⟩ :=
                represents.tryPop_of_cons fits entries (limited ▸ below)
              have popped : queue.pop.1 = some value := congrArg List.head? entries
              rw [answers_of_popped returned, fifoAnswers, popped, map_cons_eq_some_iff]
              exact ih later below

/-- **Bounded queues of any length of runs.** The calls of one thread on a new queue answer as those
of a queue with room for one value less than the capacity, exactly as long as the pushes that such
a queue takes in do not get beyond the reach of the counter. -/
theorem answers_iff {capacity : Nat} (positive : 1 ≤ capacity) (fits : capacity < 2 ^ 31)
    (zero : Value) (calls : List (Call Value)) :
    (new capacity zero).answers calls =
        some (fifoAnswers (BoundedQueue.empty : BoundedQueue Value (capacity - 1)) calls) ↔
      accepted (BoundedQueue.empty : BoundedQueue Value (capacity - 1)) calls ≤ reach capacity := by
  obtain ⟨room, rfl⟩ := Nat.exists_eq_add_of_le' positive
  rw [Nat.add_sub_cancel, (represents_new room zero).answers_eq_iff fits rfl calls (Nat.zero_le _),
    Nat.zero_add]

/-- Three calls on a queue for two values. -/
theorem answers_of_three_calls :
    (new (3 : Nat) (0 : Int)).answers [.tryPush 7, .tryPop, .tryPop] =
      some [.pushed true, .popped (some 7), .popped none] :=
  (answers_iff (by decide) (by decide) 0 [.tryPush 7, .tryPop, .tryPop]).mpr (by decide)

/-- A value is pushed and popped again and again. -/
def rounds (value : Value) : Nat → List (Call Value)
  | 0 => []
  | count + 1 => .tryPush value :: .tryPop :: rounds value count

theorem accepted_rounds {room : Nat} (several : 0 < room) (value : Value) (count : Nat) :
    accepted (BoundedQueue.empty : BoundedQueue Value room) (rounds value count) = count := by
  induction count with
  | zero => rfl
  | succ count ih =>
      have hasRoom : (BoundedQueue.empty : BoundedQueue Value room).HasRoom := several
      have again : ((BoundedQueue.empty : BoundedQueue Value room).push value).2.pop.2 =
          BoundedQueue.empty := by
        rw [BoundedQueue.push, dif_pos hasRoom]
        rfl
      rw [rounds, accepted_cons_of_hasRoom hasRoom, accepted, fifoAnswers, again,
        List.countP_cons_of_neg Bool.false_ne_true]
      exact congrArg Nat.succ ih

/-- When a queue for 99 values has taken in 2147483648 of them, the next one is written before the
array. -/
theorem answers_ne_of_many_rounds :
    (new (100 : Nat) (0 : Int)).answers (rounds 0 (2 ^ 31 + 1)) ≠
      some (fifoAnswers (BoundedQueue.empty : BoundedQueue Int 99) (rounds 0 (2 ^ 31 + 1))) := by
  have passed : ¬0 + accepted (BoundedQueue.empty : BoundedQueue Int 99) (rounds 0 (2 ^ 31 + 1)) ≤
      2 ^ 31 := by
    rw [accepted_rounds (by decide)]
    decide
  exact fun same => passed
    (((represents_new 99 (0 : Int)).answers_eq_iff (by decide) (by decide) _
      (Nat.zero_le _)).mp same)

end LFQ

end LogProcess
