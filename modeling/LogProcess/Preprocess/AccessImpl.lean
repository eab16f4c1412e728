import LogProcess.Foundation.BoundedQueue
import LogProcess.Foundation.RetryRpc
import LogProcess.Process.Transmit

/-! # Records from other nodes

`PullSwitchConfig` and `Retransmit` of `preprocess/data_access_impl.cc`, and the loop of
`preprocess/data_access.cc` that hands a record to a relaxing node. The handler replies
success also when the record did not fit into the queue. A record whose loop has ended was
placed when its request found room while it was waited for, and otherwise it can be lost
(`Resend.placed_exact`).
-/

namespace LogProcess

/-! ### The functions -/

/-- What the threads of a node share: the queues and the switches of the old and the new topic. -/
structure Access (len : Nat) where
  lockfreequeue : BoundedQueue Str len
  lockfreequeueNew : BoundedQueue Str len
  switchOld : Bool
  switchNew : Bool

structure PullSwitchConfigRequest where
  op : Bool
  idx : BitVec 32

structure RetransmitRequest where
  type : Bool
  package : Str

structure RetransmitResponse where
  status : ResStatus
  error : Option Str := none

namespace Access

variable {len : Nat} (access : Access len)

/-- The queue of a topic; the new one has the type `true`. -/
def queue (type : Bool) : BoundedQueue Str len :=
  if type then access.lockfreequeueNew else access.lockfreequeue

def setQueue (type : Bool) (queue : BoundedQueue Str len) : Access len :=
  if type then { access with lockfreequeueNew := queue } else { access with lockfreequeue := queue }

def push (type : Bool) (body : Str) : Bool × Access len :=
  let (status, queue) := (access.queue type).push body
  (status, access.setQueue type queue)

def pop (type : Bool) : Option Str × Access len :=
  let (msg, queue) := (access.queue type).pop
  (msg, access.setQueue type queue)

def pullswitch (type : Bool) : Bool := if type then access.switchNew else access.switchOld

variable {access}

theorem push_fst_iff {type : Bool} {body : Str} :
    (access.push type body).1 = true ↔ (access.queue type).HasRoom :=
  BoundedQueue.push_fst_iff ..

end Access

namespace AccessImpl

variable {len : Nat}

/-- `PullSwitchConfig`, which does not set a status. -/
def pullSwitchConfig (request : PullSwitchConfigRequest) (access : Access len) : Access len :=
  if request.idx = 0 then { access with switchOld := request.op }
  else if request.idx = 1 then { access with switchNew := request.op }
  else access

/-- `Retransmit`, which does not look at the result of the push. -/
def retransmit (request : RetransmitRequest) (access : Access len) :
    RetransmitResponse × Access len :=
  ({ status := .succeed }, (access.push request.type request.package).2)

end AccessImpl

/-! ### Handing records to a relaxing node -/

namespace Resend

open RetryRpc

/-- The relaxing node, with the senders whose records were placed in its queues. -/
structure Relaxing (Sender : Type) (len : Nat) where
  access : Access len
  placed : List Sender

/-- What else happens on the relaxing node. -/
inductive Event where
  | push (type : Bool) (body : Str)
  | pop (type : Bool)
  | pullSwitchConfig (request : PullSwitchConfigRequest)

variable {Sender : Type} {len : Nat} (request : Sender → RetransmitRequest)

def handle (sender : Sender) (relaxing : Relaxing Sender len) : Option (Relaxing Sender len) :=
  some {
    access := (AccessImpl.retransmit (request sender) relaxing.access).2
    placed :=
      if (relaxing.access.push (request sender).type (request sender).package).1 then
        sender :: relaxing.placed
      else relaxing.placed }

def internal : Event → Relaxing Sender len → Option (Relaxing Sender len)
  | .push type body, relaxing =>
      some { relaxing with access := (relaxing.access.push type body).2 }
  | .pop type, relaxing => some { relaxing with access := (relaxing.access.pop type).2 }
  | .pullSwitchConfig request, relaxing =>
      some { relaxing with access := AccessImpl.pullSwitchConfig request relaxing.access }

section Placing

variable {request}

theorem mem_placed_of_pushed (sender : Sender) {relaxing next : Relaxing Sender len}
    (handled : handle request sender relaxing = some next)
    (room : (relaxing.access.queue (request sender).type).HasRoom) : sender ∈ next.placed := by
  obtain rfl := Option.some.inj handled
  simp only [Access.push_fst_iff.mpr room, ↓reduceIte, List.mem_cons_self]

/-- A record that does not find room is not placed. -/
theorem placed_of_full {sender : Sender} {relaxing next : Relaxing Sender len}
    (handled : handle request sender relaxing = some next)
    (full : ¬(relaxing.access.queue (request sender).type).HasRoom) :
    next.placed = relaxing.placed := by
  obtain rfl := Option.some.inj handled
  simp only [mt Access.push_fst_iff.mp full, ↓reduceIte, Bool.false_eq_true]

theorem mem_placed_of_handled {sender other : Sender} {relaxing next : Relaxing Sender len}
    (handled : handle request sender relaxing = some next) (placed : other ∈ relaxing.placed) :
    other ∈ next.placed := by
  obtain rfl := Option.some.inj handled
  dsimp only
  split
  · exact List.mem_cons_of_mem _ placed
  · exact placed

theorem placed_of_internal {event : Event} {relaxing next : Relaxing Sender len}
    (changed : internal event relaxing = some next) : next.placed = relaxing.placed := by
  cases event <;>
  · obtain rfl := Option.some.inj changed
    rfl

end Placing

variable [DecidableEq Sender]

/-- The loops `while(true != client->Retransmit(...))` of the senders with the node. -/
def step : Config Sender (Relaxing Sender len) → Action Sender Event →
    Option (Config Sender (Relaxing Sender len)) :=
  RetryRpc.step (handle request) internal

/-- The record of every loop that has ended was placed. -/
def Placed (config : Config Sender (Relaxing Sender len)) : Prop :=
  ∀ sender, config.phase sender = .ended → sender ∈ config.state.placed

/-- A request that is handled while its sender waits for it finds room, unless the record was
placed before. -/
def FindsRoom (config : Config Sender (Relaxing Sender len)) : Action Sender Event → Prop
  | .deliver sender attempt => config.phase sender = .waiting attempt →
      (config.state.access.queue (request sender).type).HasRoom ∨ sender ∈ config.state.placed
  | _ => True

/-- **Handing over.** When the requests that are waited for find room, the record of every loop
that has ended was placed. When one does not, it can be lost. -/
theorem placed_exact (access : Access len) (actions : List (Action Sender Event))
    (config : Config Sender (Relaxing Sender len))
    (reached : Runs.run (step request) (start ⟨access, []⟩) actions = some config) :
    (Runs.Meets (step request) (FindsRoom request) (start ⟨access, []⟩) actions → Placed config) ∧
      ∀ sender attempt, (sender, attempt) ∈ config.requests →
        ¬FindsRoom request config (.deliver sender attempt) →
          ∃ final, Runs.run (step request) (start ⟨access, []⟩)
            (actions ++ [.deliver sender attempt] ++ [.receive sender attempt]) = some final ∧
              ¬Placed final := by
  refine ⟨fun meets sender ended => ?_, fun sender attempt flying full => ?_⟩
  · refine done_of_ended (fun relaxing sender => sender ∈ relaxing.placed)
      (fun handled placed => mem_placed_of_handled handled placed)
      (fun changed placed => placed_of_internal changed ▸ placed) (meets.imp ?_) reached ended
    intro config action room
    cases action with
    | deliver sender attempt =>
        intro waiting relaxing handled
        rcases room waiting with room | placed
        · exact mem_placed_of_pushed sender handled room
        · exact mem_placed_of_handled handled placed
    | _ => trivial
  · simp only [FindsRoom, not_forall, not_or] at full
    obtain ⟨waiting, full, missing⟩ := full
    obtain ⟨relaxing, handled⟩ : ∃ relaxing, handle request sender config.state = some relaxing :=
      ⟨_, rfl⟩
    have delivered : step request config (.deliver sender attempt) = some { config with
        requests := config.requests.erase (sender, attempt)
        replies := (sender, attempt) :: config.replies
        handled := config.handled ++ [(sender, attempt)]
        state := relaxing } := by
      rw [step, RetryRpc.step, if_pos flying, handled, Option.map_some]
    refine ⟨_, Runs.run_append_singleton (Runs.run_append_singleton reached delivered)
      (if_pos ⟨List.mem_cons_self, waiting⟩), fun placed => missing ?_⟩
    rw [← placed_of_full handled full]
    exact placed sender (Function.update_self ..)

/-- A record that finds room. -/
theorem placed_with_room :
    ∃ config, Runs.run (step fun _ : Unit => ⟨false, bytes "srcid[1]"⟩)
        (start ⟨⟨(.empty : BoundedQueue Str 1), .empty, true, true⟩, []⟩)
        [.send (), .deliver () 0, .receive () 0] = some config ∧
      config.phase () = .ended ∧ Placed config := by
  refine ⟨_, rfl, rfl, (placed_exact (fun _ => ⟨false, bytes "srcid[1]"⟩)
    ⟨.empty, .empty, true, true⟩ [.send (), .deliver () 0, .receive () 0] _ rfl).1 ?_⟩
  refine .cons trivial rfl (.cons (fun _ => .inl ?_) rfl (.cons trivial rfl trivial))
  decide

/-- A record that is handed to a node with a full queue is lost. -/
theorem not_placed_when_full :
    ¬∀ config, Runs.run (step fun _ : Unit => ⟨false, bytes "srcid[2]"⟩)
        (start ⟨⟨(⟨[bytes "srcid[1]"], by decide⟩ : BoundedQueue Str 1), .empty, true, true⟩, []⟩)
        [.send (), .deliver () 0, .receive () 0] = some config → Placed config :=
  fun placed => absurd (placed _ rfl () rfl) (by decide)

end Resend

end LogProcess
