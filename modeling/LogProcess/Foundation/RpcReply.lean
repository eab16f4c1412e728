import LogProcess.Foundation.Runs

/-! # Replies of remote procedure calls

A handler fills in a response and runs the closure of the call, which sends the response as it
is then. Nothing keeps a handler from running the closure twice or never. A call is answered when
its closure ran once, with a response that is ready (`RpcReply.Answered`). A server records what
its calls came to, and all calls of a run are completed exactly when every step meets the
condition of its handler (`RpcReply.CompletesExactly`).
-/

/-- The response of a call, and what was sent of it whenever the closure ran. -/
structure RpcReply (Response : Type*) where
  response : Response
  sent : List Response := []

namespace RpcReply

variable {Response : Type*}

/-- Change the response. -/
def modify (change : Response → Response) (reply : RpcReply Response) : RpcReply Response :=
  { reply with response := change reply.response }

/-- Run the closure. -/
def run (reply : RpcReply Response) : RpcReply Response :=
  { reply with sent := reply.sent ++ [reply.response] }

/-- The closure ran once, when the response was ready. -/
def Answered (ready : Response → Prop) (reply : RpcReply Response) : Prop :=
  ∃ response, ready response ∧ reply.sent = [response]

@[simp] theorem response_modify (change : Response → Response) (reply : RpcReply Response) :
    (reply.modify change).response = change reply.response := rfl

@[simp] theorem sent_modify (change : Response → Response) (reply : RpcReply Response) :
    (reply.modify change).sent = reply.sent := rfl

@[simp] theorem response_run (reply : RpcReply Response) : reply.run.response = reply.response :=
  rfl

@[simp] theorem sent_run (reply : RpcReply Response) :
    reply.run.sent = reply.sent ++ [reply.response] := rfl

/-- Changes of the response send nothing. -/
theorem sent_foldl_modify {Item : Type*} (change : Item → Response → Response)
    (items : List Item) (reply : RpcReply Response) :
    (items.foldl (fun reply item => reply.modify (change item)) reply).sent = reply.sent := by
  induction items generalizing reply with
  | nil => rfl
  | cons item rest ih => rw [List.foldl_cons, ih, sent_modify]

/-- A loop that appends an entry for each item appends all entries. -/
theorem response_foldl_append {Item Entry : Type*} (append : List Entry → Response → Response)
    (nothing : ∀ response, append [] response = response)
    (further : ∀ first rest response,
      append rest (append [first] response) = append (first :: rest) response)
    (entry : Item → Entry) (items : List Item) (reply : RpcReply Response) :
    (items.foldl (fun reply item => reply.modify (append [entry item])) reply).response =
      append (items.map entry) reply.response := by
  induction items generalizing reply with
  | nil => exact (nothing _).symm
  | cons item rest ih => rw [List.foldl_cons, ih, response_modify, further, List.map_cons]

/-- The first run of the closure answers the call exactly when the response is ready. -/
theorem answered_run_iff {ready : Response → Prop} {reply : RpcReply Response}
    (fresh : reply.sent = []) : Answered ready reply.run ↔ ready reply.response := by
  simp only [Answered, sent_run, fresh, List.nil_append, List.cons.injEq, and_true,
    exists_eq_right']

/-! ### Calls of a server -/

variable {Mark : Type*}

/-- What a call came to: the marks of the responses that were sent, each of which may be missing,
or nothing when its handler did not return. -/
abbrev Outcome (Mark : Type*) : Type _ := Option (List (Option Mark))

def outcome (mark : Response → Option Mark) (reply : RpcReply Response) : Outcome Mark :=
  some (reply.sent.map mark)

/-- One response was sent, and it had its mark. -/
def Completed (outcome : Outcome Mark) : Prop := ∃ mark, outcome = some [some mark]

theorem completed_outcome_iff {mark : Response → Option Mark} {reply : RpcReply Response} :
    Completed (outcome mark reply) ↔ Answered (fun response => (mark response).isSome) reply := by
  refine ⟨fun completed => ?_, fun answered => ?_⟩
  · obtain ⟨_, same⟩ := completed
    obtain ⟨response, sent, marked⟩ := List.map_eq_singleton_iff.mp (Option.some.inj same)
    exact ⟨response, Option.isSome_of_eq_some marked, sent⟩
  · obtain ⟨response, marked, sent⟩ := answered
    obtain ⟨found, marked⟩ := Option.isSome_iff_exists.mp marked
    exact ⟨found, by rw [outcome, sent, List.map_singleton, marked]⟩

/-- The first run of the closure completes the call exactly when the response has its mark. -/
theorem completed_run_iff {mark : Response → Option Mark} {reply : RpcReply Response}
    (fresh : reply.sent = []) :
    Completed (outcome mark reply.run) ↔ (mark reply.response).isSome :=
  completed_outcome_iff.trans (answered_run_iff fresh)

theorem not_completed_none : ¬Completed (none : Outcome Mark) := by
  rintro ⟨_, same⟩
  cases same

variable {State Action : Type*}

/-- A step of a server, behind the calls that ended earlier. -/
def record (step : State → Action → Option (State × List (Outcome Mark)))
    (served : State × List (Outcome Mark)) (action : Action) :
    Option (State × List (Outcome Mark)) :=
  (step served.1 action).map fun (next, ended) => (next, served.2 ++ ended)

/-- In every state that is reached a call is completed exactly under the condition, and all calls
of a run are completed exactly when every step met the condition. -/
def CompletesExactly (step : State → Action → Option (State × List (Outcome Mark)))
    (condition : State → Action → Prop) (start : State) : Prop :=
  ∀ actions final outcomes, Runs.run (record step) (start, []) actions = some (final, outcomes) →
    (∀ action next ended, step final action = some (next, ended) →
      ((∀ outcome ∈ ended, Completed outcome) ↔ condition final action)) ∧
    ((∀ outcome ∈ outcomes, Completed outcome) ↔
      Runs.Meets (record step) (fun served action => condition served.1 action) (start, [])
        actions)

/-- **Completion** needs an invariant with which a single step is right. -/
theorem completesExactly {step : State → Action → Option (State × List (Outcome Mark))}
    {condition : State → Action → Prop} (sound : State → Prop)
    (served : ∀ {state action next ended}, sound state → step state action = some (next, ended) →
      sound next ∧ ((∀ outcome ∈ ended, Completed outcome) ↔ condition state action))
    {start : State} (initially : sound start) : CompletesExactly step condition start := by
  have recorded {before after : State × List (Outcome Mark)} {action : Action}
      (soundBefore : sound before.1) (stepped : record step before action = some after) :
      sound after.1 ∧ ((∀ outcome ∈ after.2, Completed outcome) ↔
        (∀ outcome ∈ before.2, Completed outcome) ∧ condition before.1 action) := by
    obtain ⟨⟨next, ended⟩, handled, rfl⟩ := Option.map_eq_some_iff.mp stepped
    obtain ⟨soundNext, completed⟩ := served soundBefore handled
    exact ⟨soundNext, by rw [List.forall_mem_append, completed]⟩
  intro actions final outcomes reached
  refine ⟨fun action next ended stepped => ?_, ?_⟩
  · exact (served (Runs.invariant (fun served => sound served.1)
      (fun soundBefore stepped => (recorded soundBefore stepped).1) initially reached) stepped).2
  · exact (Runs.holds_iff_meets (fun served => sound served.1)
      (fun served => ∀ outcome ∈ served.2, Completed outcome) recorded initially reached).trans
        (and_iff_right fun _ member => absurd member List.not_mem_nil)

end RpcReply
