import LogProcess.Process.ClusterAlarms

/-! # Whether a call returns

An exception of a check leaves `DataReceive` of `process/process_impl.cc` without a reply, and
`Transmit` of `preprocess/data_preprocess.cc` repeats its call. While the rules of its node stay,
a record that was not handled, and whose query is not searched behind its end, can therefore be
handled exactly when no rule throws on it (`Cluster.returns_iff`).
-/

namespace LogProcess.Cluster

open RetryRpc ProcessImpl

variable {Database Sender : Type} [DecidableEq Sender] {rocksdb : RocksDB Database}
  {cjson : CJson} {strTime2Unixtime : Str → Int} {regex : Regex} {ring : ConsistentHash}
  {records : Sender → OrderedMap Str Str × OrderedMap Str Bool} {draws : Sender → BitVec 32}
  {config next : Config Sender (Nodes Database)} {sender : Sender} {server : Str}

/-- An action that is no change of the rules of a node. -/
def LeavesRules (server : Str) (action : Action Sender (Str × SetCheckListConfigRequest)) : Prop :=
  ∀ request, action ≠ .internal (server, request)

/-- Some rule of its node throws on the record of a sender, which was not handled. -/
structure Stuck (records : Sender → OrderedMap Str Str × OrderedMap Str Bool) (server : Str)
    (sender : Sender) (config : Config Sender (Nodes Database)) : Prop where
  throws : ¬∀ i ∈ getCheckList (config.state server).checklists (applicationOf records sender),
    ∃ verdict, i.check (Transmission.request records sender) = .ok verdict
  unhandled : sender ∉ handledSenders config

/-- A step that leaves the rules alone keeps them. -/
theorem checklists_step {action : Action Sender (Str × SetCheckListConfigRequest)}
    (leaves : LeavesRules server action)
    (stepped : step rocksdb cjson strTime2Unixtime regex ring records draws config action =
      some next) :
    (next.state server).checklists = (config.state server).checklists := by
  rcases handled_step stepped with ⟨other, attempt, _, handled, _⟩ |
    ⟨_, ⟨_, unchanged⟩ | ⟨event, acted, changed⟩⟩
  · obtain ⟨target, node, response, _, received, same⟩ := handle_eq_some handled
    rw [same]
    by_cases here : server = target
    · subst here
      rw [Function.update_self, checklists_of_dataReceive received]
    · rw [Function.update_of_ne here]
  · rw [unchanged]
  · rw [← Option.some.inj changed]
    have elsewhere : server ≠ event.1 := by
      rintro rfl
      cases action with
      | internal other =>
          obtain rfl := Sum.inr_injective (Option.some.inj acted)
          exact leaves other.2 rfl
      | _ => cases acted
    rw [Function.update_of_ne elsewhere]

omit [DecidableEq Sender] in
/-- A request is handled when its node answers. -/
theorem handle_of_dataReceive {nodes : Nodes Database} {node : ProcessNode Database}
    {response : TransmitResponse}
    (routed : getProcessSerer ring records draws sender = some server)
    (received : dataReceive rocksdb cjson strTime2Unixtime (nodes server)
      (Transmission.request records sender) = .ok (node, response)) :
    handle rocksdb cjson strTime2Unixtime ring records draws sender nodes =
      some (Function.update nodes server node) := by
  simp only [handle, routed, received, Except.toOption, Option.bind_eq_bind, Option.bind_some]

/-- A request of the sender is not handled. -/
theorem Stuck.step {action : Action Sender (Str × SetCheckListConfigRequest)}
    (stuck : Stuck records server sender config)
    (routed : getProcessSerer ring records draws sender = some server)
    (leaves : LeavesRules server action)
    (stepped : Cluster.step rocksdb cjson strTime2Unixtime regex ring records draws config action =
      some next) : Stuck records server sender next := by
  obtain ⟨throws, unhandled⟩ := stuck
  refine ⟨checklists_step leaves stepped ▸ throws, ?_⟩
  rcases handled_step stepped with ⟨other, attempt, _, handled, added⟩ | ⟨same, _⟩
  · rw [handledSenders, added, List.map_append, List.mem_append]
    rintro (earlier | now)
    · exact unhandled earlier
    · obtain rfl := List.mem_singleton.mp now
      obtain ⟨target, node, response, aimed, received, _⟩ := handle_eq_some handled
      obtain rfl := Option.some.inj (routed.symm.trans aimed)
      exact throws ((exists_dataReceive_iff rocksdb cjson strTime2Unixtime _ _).mp ⟨_, received⟩).1
  · rwa [handledSenders, same]

theorem stuck_run {later : List (Action Sender (Str × SetCheckListConfigRequest))}
    {final : Config Sender (Nodes Database)} (stuck : Stuck records server sender config)
    (routed : getProcessSerer ring records draws sender = some server)
    (leaves : ∀ action ∈ later, LeavesRules server action)
    (ran : Runs.run (step rocksdb cjson strTime2Unixtime regex ring records draws) config later =
      some final) : Stuck records server sender final := by
  refine Runs.invariant_of_meets (Stuck records server sender) ?_ stuck
    (Runs.meets_of_forall leaves) ran
  intro config action next stuck leaves stepped
  exact stuck.step routed leaves stepped

variable {types : List Str} {actions : List (Action Sender (Str × SetCheckListConfigRequest))}
  (reached : Runs.run (step rocksdb cjson strTime2Unixtime regex ring records draws)
    (start fun _ => ProcessServer.startup rocksdb types) actions = some config)
include reached

/-- The rules of a node answer unless one that the changes have left throws. -/
theorem rules_answer_iff :
    (∀ i ∈ getCheckList (config.state server).checklists (applicationOf records sender),
        ∃ verdict, i.check (Transmission.request records sender) = .ok verdict) ↔
      ∀ conds ∈ Rulebook.after (changes (occurrences ring records draws actions server))
          (applicationOf records sender),
        ¬(makeCheckListItem regex conds).Throws regex (Transmission.request records sender) := by
  rw [(alarmed_run reached server).made, List.forall_mem_map]
  exact forall₂_congr fun conds _ => ChecklistItem.exists_check_iff regex conds _

/-- **Calls that return.** While the rules of its node stay, the `Transmit` of a record that was not
handled can return exactly when no rule that the changes have left throws on the record, if the
search for its query is defined. On a record on which a rule throws the handler never ends, whatever
else happens. -/
theorem returns_iff (routed : getProcessSerer ring records draws sender = some server)
    (unhandled : sender ∉ handledSenders config) :
    (SearchesInside (received records sender) →
      ((∃ later final, (∀ action ∈ later, LeavesRules server action) ∧
          Runs.run (step rocksdb cjson strTime2Unixtime regex ring records draws) config later =
            some final ∧ final.phase sender = .ended) ↔
        ∀ conds ∈ Rulebook.after (changes (occurrences ring records draws actions server))
            (applicationOf records sender),
          ¬(makeCheckListItem regex conds).Throws regex (Transmission.request records sender))) ∧
    ((∃ conds ∈ Rulebook.after (changes (occurrences ring records draws actions server))
          (applicationOf records sender),
        (makeCheckListItem regex conds).Throws regex (Transmission.request records sender)) →
      ∀ later final, (∀ action ∈ later, LeavesRules server action) →
        Runs.run (step rocksdb cjson strTime2Unixtime regex ring records draws) config later =
          some final → sender ∉ handledSenders final) := by
  rw [← rules_answer_iff reached]
  refine ⟨fun inside => ⟨?_, fun answers => ?_⟩, ?_⟩
  · rintro ⟨later, final, leaves, ran, ended⟩
    by_contra throws
    have stuck : Stuck records server sender config := ⟨throws, unhandled⟩
    have whole := Runs.run_append_eq_some_iff.mpr ⟨config, reached, ran⟩
    exact (stuck_run stuck routed leaves ran).unhandled (mem_handledSenders_of_ended whole ended)
  · have unanswered : config.phase sender ≠ .ended :=
      fun ended => unhandled (mem_handledSenders_of_ended reached ended)
    obtain ⟨⟨node, response⟩, received⟩ :=
      (exists_dataReceive_iff rocksdb cjson strTime2Unixtime _ _).mpr ⟨answers, inside⟩
    obtain ⟨later, final, quiet, ran, ended⟩ := exists_ended_of_handles unanswered
      (handle_of_dataReceive routed received)
    exact ⟨later, final, fun action member request => quiet action member _, ran, ended⟩
  · rintro ⟨conds, there, throws⟩ later final leaves ran
    have stuck : Stuck records server sender config :=
      ⟨fun answers => (rules_answer_iff reached).mp answers conds there throws, unhandled⟩
    exact (stuck_run stuck routed leaves ran).unhandled

omit reached

/-- A rule with a pattern that `std::regex` refuses. -/
def refusedRule : SetCheckListConfigRequest where
  op := true
  application := bytes "weather"
  cond := { sewords := [⟨bytes "a", .condIsFront⟩] }

/-- With this rule the calls for the record of the weather do not return. -/
theorem returns_iff_of_refused_rule :
    ∃ config, Runs.run (step RocksDB.table CJson.flat (fun _ => 1500000000)
          ⟨fun _ => false, fun _ _ => none⟩ weatherRing (fun _ : Unit => Transmission.weatherRecord)
          fun _ => 0)
        (start fun _ => ProcessServer.startup RocksDB.table [bytes "weather"])
        [.send (), .internal (bytes "a", refusedRule)] = some config ∧
      ¬∃ later final, (∀ action ∈ later, LeavesRules (bytes "a") action) ∧
        Runs.run (step RocksDB.table CJson.flat (fun _ => 1500000000)
          ⟨fun _ => false, fun _ _ => none⟩ weatherRing (fun _ : Unit => Transmission.weatherRecord)
          fun _ => 0) config later = some final ∧ final.phase () = .ended := by
  obtain ⟨config, reached, fresh⟩ : ∃ config, Runs.run (step RocksDB.table CJson.flat
        (fun _ => 1500000000) ⟨fun _ => false, fun _ _ => none⟩ weatherRing
        (fun _ : Unit => Transmission.weatherRecord) fun _ => 0)
      (start fun _ => ProcessServer.startup RocksDB.table [bytes "weather"])
      [.send (), .internal (bytes "a", refusedRule)] = some config ∧
        handledSenders config = [] := ⟨_, rfl, rfl⟩
  have routed : getProcessSerer weatherRing (fun _ : Unit => Transmission.weatherRecord)
      (fun _ => 0) () = some (bytes "a") := by decide +kernel
  have there : refusedRule.cond ∈ Rulebook.after (changes (occurrences weatherRing
      (fun _ : Unit => Transmission.weatherRecord) (fun _ => 0)
      [.send (), .internal (bytes "a", refusedRule)] (bytes "a")))
        (applicationOf (fun _ : Unit => Transmission.weatherRecord) ()) := by decide +kernel
  have throws : (makeCheckListItem ⟨fun _ => false, fun _ _ => none⟩
      refusedRule.cond).Throws ⟨fun _ => false, fun _ _ => none⟩
        (Transmission.request (fun _ : Unit => Transmission.weatherRecord) ()) :=
    ⟨fun some => absurd rfl some, bytes "a", by decide, by decide +kernel, [],
      ⟨bytes "a", .condIsFront⟩, [], rfl, List.forall_mem_nil _, by decide,
      fun compiles => Bool.false_ne_true (compiles.1 rfl)⟩
  have inside : SearchesInside (received (fun _ : Unit => Transmission.weatherRecord) ()) :=
    fun asks => absurd asks (by decide)
  exact ⟨config, reached, fun returns => ((returns_iff reached routed
    (fresh ▸ List.not_mem_nil)).1 inside).mp returns refusedRule.cond there throws⟩

end LogProcess.Cluster
