import LogProcess.Platform.Transmit
import LogProcess.Process.Cluster

/-! # The rules of all nodes

`MultiSet` of `platform/chklist.go` asks all nodes to add or to delete a rule, while they receive
records. A node may handle a request that got no reply at any later time, also behind the requests
of later calls, or never. In every session a node lists the rules of some of the requests, each
handled at most once: of those that succeeded at the node in the order of their calls, and of others
between them. A node at which all of them succeeded lists the rules of all of them, so that such
nodes agree (`Chklist.rules_session`).
-/

namespace LogProcess

namespace Chklist

open ProcessImpl Transmit
open Cluster (Nodes)

/-- The addresses on one host. -/
def hostAddrs (host : Str) (count : Nat) : List Str :=
  (List.range count).map fun i => host ++ Decimal.text (i + 8500)

def getProcessers : List Str :=
  hostAddrs (bytes "10.99.196.105:") 40 ++ hostAddrs (bytes "10.120.208.11:") 120

/-- The body of `ChecklistSet`. The tag of the index is malformed, so that the index is always
sent. -/
structure SetRequest where
  op : Bool
  index : BitVec 32
  application : Str
  cond : CheckListCond

/-- The nodes, and the requests that got no reply and are not handled yet. -/
structure Fleet (Database : Type) where
  nodes : Nodes Database
  late : List (Str × SetCheckListConfigRequest)

/-- What happens while a call waits, and between the calls. -/
inductive Event where
  | dataReceive (addr : Str) (request : TransmitRequest)
  | late (index : Nat)

section Model

variable {Database : Type} (rocksdb : RocksDB Database) (cjson : CJson)
  (strTime2Unixtime : Str → Int) (regex : Regex) (parses : Str → Bool)
  (message : SetRequest → SetCheckListConfigRequest) (body : SetCheckListConfigResponse → Str)

/-- A node handles a request. -/
def set (addr : Str) (request : SetCheckListConfigRequest) (nodes : Nodes Database) :
    Nodes Database :=
  Function.update nodes addr { nodes addr with
    checklists := (setCheckListConfig regex (nodes addr).checklists request).2 }

/-- The reply of a node, with the text `body` of a response. -/
def serve (request : SetCheckListConfigRequest) (addr : Str) (fleet : Fleet Database) :
    Option (Str × Fleet Database) :=
  some (body (setCheckListConfig regex (fleet.nodes addr).checklists request).1,
    { fleet with nodes := set regex addr request fleet.nodes })

/-- A request that gets no reply. -/
def lose (request : SetCheckListConfigRequest) (addr : Str) (fleet : Fleet Database) :
    Fleet Database :=
  { fleet with late := fleet.late ++ [(addr, request)] }

/-- A node receives a record, or handles a request that got no reply. -/
def environment : Event → Fleet Database → Option (Fleet Database)
  | .dataReceive addr request, fleet =>
      (dataReceive rocksdb cjson strTime2Unixtime (fleet.nodes addr) request).toOption.map
        fun reply => { fleet with nodes := Function.update fleet.nodes addr reply.1 }
  | .late index, fleet => fleet.late[index]?.map fun entry =>
      { nodes := set regex entry.1 entry.2 fleet.nodes, late := fleet.late.eraseIdx index }

/-- `MultiSet`. The nodes read the body as a `message`. -/
def multiSet (postarg : SetRequest) :
    FanOut.Config Str RemoteResult (Fleet Database) → FanOut.Action Reply Event →
      Option (FanOut.Config Str RemoteResult (Fleet Database)) :=
  multi (bytes "process.ProcessService.") (bytes "SetCheckListConfig") parses
    (serve regex body (message postarg)) (lose (message postarg))
    (environment rocksdb cjson strTime2Unixtime regex) getProcessers

/-- A call of `MultiSet` with what it returned. -/
abbrev Call : Type := SetRequest × List RemoteResult

/-- Calls one after the other since the nodes were started. -/
inductive Session (types : List Str) : List Call → Fleet Database → Prop where
  | start : Session types [] ⟨fun _ => ProcessServer.startup rocksdb types, []⟩
  | event {calls fleet after event} (session : Session types calls fleet)
      (changed : environment rocksdb cjson strTime2Unixtime regex event fleet = some after) :
      Session types calls after
  | call {calls fleet postarg actions config} (session : Session types calls fleet)
      (reached : Runs.run (multiSet rocksdb cjson strTime2Unixtime regex parses message body
        postarg) (FanOut.start getProcessers fleet) actions = some config)
      (returned : config.closed = true) :
      Session types (calls ++ [(postarg, config.received)]) config.state

/-- The requests of the calls. -/
def requests (calls : List Call) : List SetCheckListConfigRequest :=
  calls.map fun call => message call.1

/-- Those that succeeded at a node. -/
def succeededAt (addr : Str) (calls : List Call) : List SetCheckListConfigRequest :=
  requests message (calls.filter fun call => ∃ res ∈ call.2, res.addr = addr ∧ Succeeded res)

end Model

/-! ### The addresses -/

theorem nodup_hostAddrs (host : Str) (count : Nat) : (hostAddrs host count).Nodup := by
  refine List.nodup_range.map fun i j same => ?_
  exact Nat.add_right_cancel (Decimal.text_injective (List.append_cancel_left same))

/-- Hosts of the same length have no address in common. -/
theorem disjoint_hostAddrs {first second : Str} (lengths : first.length = second.length)
    (distinct : first ≠ second) (count other : Nat) :
    List.Disjoint (hostAddrs first count) (hostAddrs second other) := by
  intro addr member same
  obtain ⟨i, _, rfl⟩ := List.mem_map.mp member
  obtain ⟨j, _, equal⟩ := List.mem_map.mp same
  exact distinct (List.append_inj equal lengths.symm).1.symm

/-- Every node is asked once. -/
theorem nodup_getProcessers : getProcessers.Nodup :=
  List.Nodup.append (nodup_hostAddrs _ _) (nodup_hostAddrs _ _)
    (disjoint_hostAddrs (by decide) (by decide) _ _)

/-! ### The rules of a node -/

section Explained

variable {Database : Type} {rocksdb : RocksDB Database} {cjson : CJson}
  {strTime2Unixtime : Str → Int} {regex : Regex} {parses : Str → Bool}
  {message : SetRequest → SetCheckListConfigRequest} {body : SetCheckListConfigResponse → Str}

/-- The requests that a node may still handle. -/
def lateAt (late : List (Str × SetCheckListConfigRequest)) (addr : Str) :
    List SetCheckListConfigRequest :=
  (late.filter fun entry => entry.1 = addr).map Prod.snd

theorem lateAt_append (late added : List (Str × SetCheckListConfigRequest)) (addr : Str) :
    lateAt (late ++ added) addr = lateAt late addr ++ lateAt added addr := by
  rw [lateAt, List.filter_append, List.map_append]
  rfl

theorem lateAt_self (addr : Str) (request : SetCheckListConfigRequest) :
    lateAt [(addr, request)] addr = [request] := by
  rw [lateAt, List.filter_cons_of_pos (by simp only [decide_true])]
  rfl

theorem lateAt_of_ne {addr other : Str} (elsewhere : other ≠ addr)
    (request : SetCheckListConfigRequest) : lateAt [(addr, request)] other = [] := by
  rw [lateAt, List.filter_cons_of_neg (by simpa using elsewhere.symm)]
  rfl

/-- A request that comes late was awaited. -/
theorem lateAt_perm {late : List (Str × SetCheckListConfigRequest)} {index : Nat}
    {entry : Str × SetCheckListConfigRequest} (present : late[index]? = some entry) (addr : Str) :
    (lateAt [entry] addr ++ lateAt (late.eraseIdx index) addr).Perm (lateAt late addr) := by
  rw [← lateAt_append]
  exact ((Sorting.perm_eraseIdx present).filter _).map Prod.snd

variable (regex) in
/-- The rules of a node are those of some of the requests, among them the given ones. The others
may still come, each once. -/
def Explained (requests succeeded : List SetCheckListConfigRequest) (fleet : Fleet Database)
    (addr : Str) : Prop :=
  ∃ applied, (fleet.nodes addr).checklists = afterRequests regex applied ∧
    succeeded.Sublist applied ∧ (applied ++ lateAt fleet.late addr).Subperm requests

variable {requests succeeded : List SetCheckListConfigRequest} {fleet after : Fleet Database}
  {addr other : Str} {request : SetCheckListConfigRequest}

theorem Explained.congr (explained : Explained regex requests succeeded fleet addr)
    (rules : (after.nodes addr).checklists = (fleet.nodes addr).checklists)
    (late : lateAt after.late addr = lateAt fleet.late addr) :
    Explained regex requests succeeded after addr := by
  rwa [Explained, rules, late]

theorem Explained.weaken
    (explained : Explained regex requests (succeeded ++ [request]) fleet addr) :
    Explained regex requests succeeded fleet addr := by
  obtain ⟨applied, rules, listed, once⟩ := explained
  exact ⟨applied, rules, (List.sublist_append_left _ _).trans listed, once⟩

theorem checklists_set (addr : Str) (request : SetCheckListConfigRequest) (nodes : Nodes Database) :
    (set regex addr request nodes addr).checklists =
      (setCheckListConfig regex (nodes addr).checklists request).2 := by
  rw [set, Function.update_self]

theorem set_of_ne (elsewhere : other ≠ addr) (request : SetCheckListConfigRequest)
    (nodes : Nodes Database) : set regex addr request nodes other = nodes other :=
  Function.update_of_ne elsewhere ..

theorem afterRequests_concat (applied : List SetCheckListConfigRequest)
    (request : SetCheckListConfigRequest) : afterRequests regex (applied ++ [request]) =
      (setCheckListConfig regex (afterRequests regex applied) request).2 :=
  List.foldl_concat ..

/-- One more request, which is handled or may come. -/
theorem subperm_concat {some all more : List SetCheckListConfigRequest}
    (listed : some.Subperm all) (same : more.Perm (some ++ [request])) :
    more.Subperm (all ++ [request]) :=
  same.subperm.trans ((List.subperm_append_right [request]).mpr listed)

/-- A node that handles the request of a call. -/
theorem Explained.set (explained : Explained regex requests succeeded fleet addr)
    (request : SetCheckListConfigRequest) :
    Explained regex (requests ++ [request]) (succeeded ++ [request])
      { fleet with nodes := Chklist.set regex addr request fleet.nodes } addr := by
  obtain ⟨applied, rules, listed, once⟩ := explained
  refine ⟨applied ++ [request], ?_, listed.append (.refl _), subperm_concat once ?_⟩
  · rw [checklists_set, rules, afterRequests_concat]
  · rw [List.append_assoc, List.append_assoc]
    exact List.perm_append_comm.append_left applied

/-- A node that does not answer. -/
theorem Explained.lose (explained : Explained regex requests succeeded fleet addr)
    (request : SetCheckListConfigRequest) :
    Explained regex (requests ++ [request]) succeeded (Chklist.lose request addr fleet) addr := by
  obtain ⟨applied, rules, listed, once⟩ := explained
  refine ⟨applied, rules, listed, subperm_concat once ?_⟩
  rw [Chklist.lose, lateAt_append, lateAt_self, List.append_assoc]

/-- What a call does at one node changes no other one. -/
theorem Explained.of_ne (explained : Explained regex requests succeeded fleet other)
    (elsewhere : other ≠ addr)
    (changed : after = Chklist.lose request addr fleet ∨
      after = { fleet with nodes := Chklist.set regex addr request fleet.nodes }) :
    Explained regex requests succeeded after other := by
  rcases changed with rfl | rfl
  · refine explained.congr rfl ?_
    rw [Chklist.lose, lateAt_append, lateAt_of_ne elsewhere, List.append_nil]
  · exact explained.congr (congrArg _ (set_of_ne elsewhere ..)) rfl

/-- **Others keep what is known of a node.** -/
theorem Explained.event (explained : Explained regex requests succeeded fleet addr) {event : Event}
    (changed : environment rocksdb cjson strTime2Unixtime regex event fleet = some after) :
    Explained regex requests succeeded after addr := by
  cases event with
  | dataReceive target request =>
      obtain ⟨⟨node, response⟩, received, rfl⟩ := Option.map_eq_some_iff.mp changed
      refine explained.congr ?_ rfl
      dsimp only
      rcases eq_or_ne addr target with rfl | elsewhere
      · rw [Function.update_self]
        exact checklists_of_dataReceive (Fallible.toOption_eq_some_iff.mp received)
      · rw [Function.update_of_ne elsewhere]
  | late index =>
      obtain ⟨⟨target, request⟩, present, rfl⟩ := Option.map_eq_some_iff.mp changed
      have late := lateAt_perm present addr
      obtain ⟨applied, rules, listed, once⟩ := explained
      rcases eq_or_ne addr target with rfl | elsewhere
      · rw [lateAt_self] at late
        refine ⟨applied ++ [request], ?_, listed.trans (List.sublist_append_left _ _), ?_⟩
        · rw [checklists_set, rules, afterRequests_concat]
        · rw [List.append_assoc]
          exact (late.append_left applied).subperm.trans once
      · rw [lateAt_of_ne elsewhere, List.nil_append] at late
        refine ⟨applied, ?_, listed, (late.append_left applied).subperm.trans once⟩
        dsimp only
        rw [set_of_ne elsewhere, rules]

/-- What a thread of a call does to its own node and to others. -/
theorem Explained.answer {service method : Str} {reply : Reply} {res : RemoteResult}
    (answered : Transmit.answer service method parses (serve regex body request)
      (Chklist.lose request) addr reply fleet = some (res, after)) :
    res.addr = addr ∧
      (Explained regex requests succeeded fleet addr →
        Explained regex (requests ++ [request])
          (if Succeeded res then succeeded ++ [request] else succeeded) after addr) ∧
      ∀ other, other ≠ addr → ∀ requests succeeded,
        Explained regex requests succeeded fleet other →
          Explained regex requests succeeded after other := by
  obtain ⟨named, ⟨failed, lost | ⟨text, served⟩⟩ | served⟩ := answer_eq_some answered
  · subst lost
    have unsuccessful : ¬Succeeded res := fun succeeded => failed.elim succeeded.1 succeeded.2
    rw [if_neg unsuccessful]
    exact ⟨named, fun explained => explained.lose request,
      fun other elsewhere _ _ explained => explained.of_ne elsewhere (.inl rfl)⟩
  · have unsuccessful : ¬Succeeded res := fun succeeded => failed.elim succeeded.1 succeeded.2
    obtain ⟨_, rfl⟩ := Prod.mk.inj (Option.some.inj served)
    rw [if_neg unsuccessful]
    exact ⟨named, fun explained => (explained.set request).weaken,
      fun other elsewhere _ _ explained => explained.of_ne elsewhere (.inr rfl)⟩
  · obtain ⟨_, rfl⟩ := Prod.mk.inj (Option.some.inj served)
    refine ⟨named, fun explained => ?_,
      fun other elsewhere _ _ explained => explained.of_ne elsewhere (.inr rfl)⟩
    split
    · exact explained.set request
    · exact (explained.set request).weaken

/-- **One call.** When it has returned, every node has handled its request once, if the result of
the node succeeded. Otherwise it has handled it or may still do so. -/
theorem Explained.call {succeeded : Str → List SetCheckListConfigRequest} {postarg : SetRequest}
    {actions : List (FanOut.Action Reply Event)}
    {config : FanOut.Config Str RemoteResult (Fleet Database)}
    (explained : ∀ addr ∈ getProcessers, Explained regex requests (succeeded addr) fleet addr)
    (reached : Runs.run (multiSet rocksdb cjson strTime2Unixtime regex parses message body postarg)
      (FanOut.start getProcessers fleet) actions = some config)
    (returned : config.closed = true) (listed : addr ∈ getProcessers) :
    Explained regex (requests ++ [message postarg])
      (if ∃ res ∈ config.received, res.addr = addr ∧ Succeeded res then
        succeeded addr ++ [message postarg] else succeeded addr) config.state addr := by
  obtain ⟨all, asked⟩ := (FanOut.sound_run reached).received_eq returned
  have claimed := (FanOut.forall_jobs nodup_getProcessers
    (fun fleet addr => Explained regex requests (succeeded addr) fleet addr)
    (fun fleet addr res => res.addr = addr ∧ Explained regex (requests ++ [message postarg])
      (if Succeeded res then succeeded addr ++ [message postarg] else succeeded addr) fleet addr)
    ?_ ?_ explained reached).2
  · have claimed : ∀ entry ∈ config.sent, _ :=
      fun entry member => claimed entry (List.mem_append_right _ member)
    split
    next succeeds =>
        obtain ⟨res, member, named, success⟩ := succeeds
        rw [all] at member
        obtain ⟨entry, sent, rfl⟩ := List.mem_map.mp member
        obtain ⟨same, handled⟩ := claimed entry sent
        rwa [if_pos success, ← same, named] at handled
    next fails =>
        obtain ⟨entry, sent, rfl⟩ := List.mem_map.mp (asked.mem_iff.mpr listed)
        obtain ⟨same, handled⟩ := claimed entry sent
        have unsuccessful : ¬Succeeded entry.2 := fun success =>
          fails ⟨entry.2, all ▸ List.mem_map_of_mem sent, same, success⟩
        rwa [if_neg unsuccessful] at handled
  · intro addr reply fleet res after _ waits answered
    obtain ⟨named, own, others⟩ := Explained.answer answered
    exact ⟨⟨named, own waits⟩, fun other elsewhere =>
      ⟨others other elsewhere _ _, fun _ => And.imp_right (others other elsewhere _ _)⟩⟩
  · intro event fleet after changed addr
    exact ⟨fun waits => waits.event changed, fun _ => And.imp_right fun handled =>
      handled.event changed⟩

theorem requests_concat (calls : List Call) (call : Call) :
    Chklist.requests message (calls ++ [call]) =
      Chklist.requests message calls ++ [message call.1] :=
  List.map_append

theorem succeededAt_concat (calls : List Call) (call : Call) (addr : Str) :
    succeededAt message addr (calls ++ [call]) =
      if ∃ res ∈ call.2, res.addr = addr ∧ Succeeded res then
        succeededAt message addr calls ++ [message call.1] else succeededAt message addr calls := by
  rw [succeededAt, List.filter_append]
  split
  next succeeds =>
      rw [List.filter_cons_of_pos (by simpa only [decide_eq_true_eq] using succeeds),
        List.filter_nil, requests_concat]
      rfl
  next fails =>
      rw [List.filter_cons_of_neg (by simpa using fails), List.filter_nil, List.append_nil]
      rfl

/-- **Session lemma.** What is known of the nodes after some calls. -/
theorem explained_session {types : List Str} {calls : List Call}
    (session : Session rocksdb cjson strTime2Unixtime regex parses message body types calls fleet) :
    ∀ addr ∈ getProcessers,
      Explained regex (Chklist.requests message calls) (succeededAt message addr calls) fleet
        addr := by
  induction session with
  | start => exact fun addr _ => ⟨[], rfl, .refl _, .refl _⟩
  | event session changed ih => exact fun addr listed => (ih addr listed).event changed
  | call session reached returned ih =>
      intro addr listed
      rw [requests_concat, succeededAt_concat]
      exact Explained.call ih reached returned listed

/-- What a node lists is what the registry makes of the requests that explain its rules. -/
theorem listed_of_rules {checklists : Checklists} {applied : List SetCheckListConfigRequest}
    (rules : checklists = afterRequests regex applied) (app : Str) :
    getCheckListConfig checklists { application := app } =
      some ⟨.succeed, Registry.after applied app⟩ := by
  rw [getCheckListConfig_zero, rules, listed_afterRequests]

/-- **The rules of all nodes.** After any session a node lists the rules of some of the requests,
each handled at most once, among them those that succeeded at the node in the order of the calls.
When all calls succeeded at the node, it lists the rules of all requests in this order. -/
theorem rules_session {types : List Str} {calls : List Call}
    (session : Session rocksdb cjson strTime2Unixtime regex parses message body types calls fleet)
    {addr : Str} (asked : addr ∈ getProcessers) :
    (∃ applied, (succeededAt message addr calls).Sublist applied ∧
      applied.Subperm (Chklist.requests message calls) ∧
      ∀ app, getCheckListConfig (fleet.nodes addr).checklists { application := app } =
        some ⟨.succeed, Registry.after applied app⟩) ∧
    ((∀ call ∈ calls, ∃ res ∈ call.2, res.addr = addr ∧ Succeeded res) →
      ∀ app, getCheckListConfig (fleet.nodes addr).checklists { application := app } =
        some ⟨.succeed, Registry.after (Chklist.requests message calls) app⟩) := by
  obtain ⟨applied, rules, listed, once⟩ := explained_session session addr asked
  have some_of_them : applied.Subperm (Chklist.requests message calls) :=
    (List.sublist_append_left _ _).subperm.trans once
  refine ⟨⟨applied, listed, some_of_them, listed_of_rules rules⟩, fun succeeded => ?_⟩
  have all : succeededAt message addr calls = Chklist.requests message calls := by
    rw [succeededAt, List.filter_eq_self.mpr fun call member =>
      decide_eq_true (succeeded call member)]
  rw [all] at listed
  have same := listed.eq_of_length_le some_of_them.length_le
  exact listed_of_rules (rules.trans (congrArg _ same.symm))

end Explained

/-! ### One call -/

/-- What the call of the source adds for the weather. -/
def weatherPostarg : SetRequest where
  op := true
  index := 0
  application := bytes "weather"
  cond := { srcids := [⟨bytes "4514", .condEqual⟩]
            resno := [⟨[], .condNotEqual⟩]
            type := [⟨bytes "new", .condEqual⟩]
            description := bytes "new weather" }

def plainMessage (postarg : SetRequest) : SetCheckListConfigRequest where
  op := postarg.op
  index := some postarg.index
  application := postarg.application
  cond := postarg.cond

def plainBody (response : SetCheckListConfigResponse) : Str :=
  if response.status = .succeed then bytes "\x7b\"status\":\"SUCCEED\"\x7d"
  else bytes "\x7b\"status\":\"FAILED\"\x7d"

/-- One node after the other. -/
def inOrder : List (FanOut.Action Reply Event) :=
  (getProcessers.flatMap fun _ => [.answer 0 .read, .send 0, .receive]) ++ [.close]

/-- The call at nodes without tables. -/
def weatherMultiSet : FanOut.Config Str RemoteResult
    (Fleet (Option Nat → OrderedMap Str (List Str))) → FanOut.Action Reply Event →
      Option (FanOut.Config Str RemoteResult (Fleet (Option Nat → OrderedMap Str (List Str)))) :=
  multiSet RocksDB.table CJson.flat (fun _ => 0) ⟨fun _ => true, fun _ _ => none⟩ (fun _ => true)
    plainMessage plainBody weatherPostarg

/-- After one call that succeeded everywhere the first node lists its rule. -/
theorem rules_session_of_one_call : ∃ results fleet,
    Session RocksDB.table CJson.flat (fun _ => 0) ⟨fun _ => true, fun _ _ => none⟩ (fun _ => true)
      plainMessage plainBody [] [(weatherPostarg, results)] fleet ∧
    getCheckListConfig (fleet.nodes (bytes "10.99.196.105:8500")).checklists
        { application := bytes "weather" } =
      some ⟨.succeed, Registry.after [plainMessage weatherPostarg] (bytes "weather")⟩ := by
  have evaluated : ((Runs.run weatherMultiSet
      (FanOut.start getProcessers ⟨fun _ => ProcessServer.startup RocksDB.table [], []⟩)
      inOrder).any fun config => config.closed ∧ ∃ res ∈ config.received,
        res.addr = bytes "10.99.196.105:8500" ∧ Succeeded res) = true := by
    decide +kernel
  obtain ⟨config, reached, checked⟩ := (Option.any_eq_true ..).mp evaluated
  obtain ⟨returned, succeeded⟩ := of_decide_eq_true checked
  have session := Session.call .start reached returned
  refine ⟨config.received, config.state, session, (rules_session session ?_).2 ?_ _⟩
  · decide +kernel
  · rw [List.nil_append, List.forall_mem_singleton]
    exact succeeded

end Chklist

end LogProcess
