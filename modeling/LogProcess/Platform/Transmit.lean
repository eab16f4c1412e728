import LogProcess.Foundation.Bytes
import LogProcess.Foundation.FanOut

/-! # Requests to all nodes

`Transmit` of `platform/transmit/transmit.go`, and the calls `MultiGet`, `MultiSet` and
`JudgeQueryTrie` of the platform, which start it for the addresses of all nodes at once. A request
is made before it is checked whether this was possible, so that an address that is no part of a URL
ends the program. Such a call returns exactly when all addresses are, after three steps for
each address and a last one, with one result from each address (`Transmit.multi_run`).
-/

namespace LogProcess

/-- The results that come out of a channel. -/
structure RemoteResult where
  addr : Str
  result : Str
  deriving DecidableEq

namespace Transmit

open FanOut

/-- How a request can end: without a reply, where the node may handle it at any time or never, with
a reply that cannot be read, or with one that is read. -/
inductive Reply where
  | requestFail
  | readFail
  | read

instance : Inhabited Reply := ⟨.read⟩

/-- The messages that are sent in place of a reply. -/
def requestErrmsg : Str := bytes "client request fail: "

def readErrmsg : Str := bytes "client read fail: "

/-- The result of a node that was not asked in vain. -/
def Succeeded (res : RemoteResult) : Prop := res.result ≠ requestErrmsg ∧ res.result ≠ readErrmsg

instance (res : RemoteResult) : Decidable (Succeeded res) :=
  inferInstanceAs (Decidable (_ ∧ _))

/-- The URL of a method of a service. -/
def url (service method addr : Str) : Str :=
  bytes "http://" ++ addr ++ bytes "/" ++ service ++ method

section Model

variable {State Event : Type} (service method : Str) (parses : Str → Bool)
  (serve : Str → State → Option (Str × State)) (lose : Str → State → State)
  (environment : Event → State → Option State)

/-- `Transmit` with the node at the address, which replies with a text and may change. A node that
does not reply lets the request fail, and keeps it or not. When there is no URL, the header of a
request that is `nil` is set. -/
def answer (addr : Str) (reply : Reply) (state : State) : Option (RemoteResult × State) :=
  if parses (url service method addr) then
    match serve addr state with
    | none => some (⟨addr, requestErrmsg⟩, lose addr state)
    | some (body, after) =>
        match reply with
        | .requestFail => some (⟨addr, requestErrmsg⟩, lose addr state)
        | .readFail => some (⟨addr, readErrmsg⟩, after)
        | .read => some (⟨addr, body⟩, after)
  else none

/-- A call that asks all addresses, while others change the nodes. -/
def multi (addrs : List Str) : Config Str RemoteResult State → Action Reply Event →
    Option (Config Str RemoteResult State) :=
  FanOut.step addrs (answer service method parses serve lose) environment

variable {service method parses serve lose environment}

/-- A request ends unless there is no URL. -/
theorem isSome_answer_iff {addr : Str} {reply : Reply} {state : State} :
    (answer service method parses serve lose addr reply state).isSome ↔
      parses (url service method addr) := by
  rw [answer]
  split
  · rename_i parsed
    refine iff_of_true ?_ parsed
    cases serve addr state with
    | none => rfl
    | some both => cases reply <;> rfl
  · rename_i other
    exact iff_of_false Bool.false_ne_true other

/-- What a request gives and does. -/
theorem answer_eq_some {addr : Str} {reply : Reply} {state after : State} {res : RemoteResult}
    (answered : answer service method parses serve lose addr reply state = some (res, after)) :
    res.addr = addr ∧
      ((res.result = requestErrmsg ∨ res.result = readErrmsg) ∧
          (after = lose addr state ∨ ∃ body, serve addr state = some (body, after)) ∨
        serve addr state = some (res.result, after)) := by
  rw [answer, Option.ite_none_right_eq_some] at answered
  obtain ⟨_, answered⟩ := answered
  cases served : serve addr state with
  | none =>
      rw [served] at answered
      obtain ⟨rfl, rfl⟩ := Prod.mk.inj (Option.some.inj answered)
      exact ⟨rfl, .inl ⟨.inl rfl, .inl rfl⟩⟩
  | some both =>
      obtain ⟨body, changed⟩ := both
      rw [served] at answered
      cases reply with
      | requestFail =>
          obtain ⟨rfl, rfl⟩ := Prod.mk.inj (Option.some.inj answered)
          exact ⟨rfl, .inl ⟨.inl rfl, .inl rfl⟩⟩
      | readFail =>
          obtain ⟨rfl, rfl⟩ := Prod.mk.inj (Option.some.inj answered)
          exact ⟨rfl, .inl ⟨.inr rfl, .inr ⟨body, rfl⟩⟩⟩
      | read =>
          obtain ⟨rfl, rfl⟩ := Prod.mk.inj (Option.some.inj answered)
          exact ⟨rfl, .inr rfl⟩

variable {addrs : List Str} {state : State} {actions : List (Action Reply Event)}
  {config : Config Str RemoteResult State}
  (reached : Runs.run (multi service method parses serve lose environment addrs) (start addrs state)
    actions = some config)
include reached

/-- The results name the addresses that were asked. -/
theorem addr_eq_of_mem_sent : ∀ entry ∈ config.sent, entry.2.addr = entry.1 ∧
    parses (url service method entry.1) := by
  have named := (FanOut.forall_sent (fun _ => True)
    (fun _ addr res => res.addr = addr ∧ parses (url service method addr))
    (fun _ _ answered => ⟨trivial, ⟨(answer_eq_some answered).1,
      isSome_answer_iff.mp (Option.isSome_of_eq_some answered)⟩, fun _ _ => id⟩)
    (fun _ _ => ⟨trivial, fun _ _ => id⟩) trivial reached).2
  exact fun entry member => named entry (List.mem_append_right _ member)

/-- **Requests to all nodes.** A call that has returned has one result from each address, has
taken a fixed number of steps, and all addresses were parts of URLs. When they are, no step of any
run panics, and every run can be continued until the call returns. -/
theorem multi_run :
    (config.closed = true → (config.received.map RemoteResult.addr).Perm addrs ∧
      actions.countP Action.Own = 3 * addrs.length + 1 ∧
      ∀ addr ∈ addrs, parses (url service method addr)) ∧
    ((∀ addr ∈ addrs, parses (url service method addr)) → config.panicked = false ∧
      ∃ later final, Runs.run (multi service method parses serve lose environment addrs)
        (start addrs state) (actions ++ later) = some final ∧ final.closed = true) := by
  have sound := FanOut.sound_run reached
  refine ⟨fun closed => ?_, fun parsed => ?_⟩
  · obtain ⟨all, asked⟩ := sound.received_eq closed
    have named := addr_eq_of_mem_sent reached
    refine ⟨?_, FanOut.own_of_closed reached closed, fun addr listed => ?_⟩
    · rw [all, List.map_map]
      have same : config.sent.map (RemoteResult.addr ∘ Prod.snd) = config.sent.map Prod.fst :=
        List.map_congr_left fun entry member => (named entry member).1
      rwa [same]
    · obtain ⟨entry, member, rfl⟩ := List.mem_map.mp (asked.mem_iff.mpr listed)
      exact (named entry member).2
  · have total : ∀ addr ∈ addrs, ∀ reply state,
        (answer service method parses serve lose addr reply state).isSome :=
      fun addr listed _ _ => isSome_answer_iff.mpr (parsed addr listed)
    obtain ⟨later, final, continued, closed⟩ := sound.exists_return environment total
    exact ⟨sound.panicked_eq_false total, later, final,
      Runs.run_append_eq_some_iff.mpr ⟨config, reached, continued⟩, closed⟩

end Model

/-- The second of two nodes answers first. -/
theorem multi_run_of_two_nodes :
    ∃ config, Runs.run (multi (bytes "s.") (bytes "m") (fun _ => true)
        (fun addr _ => some (addr, ())) (fun _ => id) (fun _ : Unit => some) [bytes "a", bytes "b"])
        (start [bytes "a", bytes "b"] ())
        [.answer 1 .read, .send 0, .answer 0 .readFail, .receive, .send 0, .receive, .close] =
          some config ∧
      (config.received.map RemoteResult.addr).Perm [bytes "a", bytes "b"] := by
  obtain ⟨config, reached, closed⟩ : ∃ config, Runs.run (multi (bytes "s.") (bytes "m")
      (fun _ => true) (fun addr _ => some (addr, ())) (fun _ => id) (fun _ : Unit => some)
      [bytes "a", bytes "b"]) (start [bytes "a", bytes "b"] ())
      [.answer 1 .read, .send 0, .answer 0 .readFail, .receive, .send 0, .receive, .close] =
        some config ∧ config.closed = true := ⟨_, rfl, rfl⟩
  exact ⟨config, reached, ((multi_run reached).1 closed).1⟩

end Transmit

end LogProcess
