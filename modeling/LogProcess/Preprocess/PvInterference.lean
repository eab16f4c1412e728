import LogProcess.Preprocess.PvStater

/-! # Page views of different srcids

The key of a counter is the text of its application followed by the text of its srcid and by the
outcome, with nothing in between. The increments of one srcid therefore show up in the page views
of another one exactly when both pairs have the same text (`PvStater.unmixed_iff`).
-/

namespace LogProcess.PvStater

/-- What `Cnt` reports for one outcome of a srcid. -/
def reported (stater : PvStater) (application srcid : Str) (issucc : Bool) (st ed : Int) :
    Except MemoryFault (Option (Option Int)) := do
  let res ← stater.cnt application st ed
  pure (res.map fun res => res.find? (counterKey application srcid issucc))

/-- No increment for the first pair changes what is reported for the second one. -/
def Unmixed (strTime2Unixtime : Str → Int) (stater : PvStater)
    (application srcid application' srcid' : Str) : Prop :=
  ∀ insertLevel issucc strTime after,
    stater.inc strTime2Unixtime insertLevel application srcid issucc strTime = .ok after →
      ∀ issucc' st ed, after.reported application' srcid' issucc' st ed =
        stater.reported application' srcid' issucc' st ed

/-! ### Keys -/

/-- The outcomes have different texts of one length, so a key determines its outcome. -/
theorem counterKey_eq_iff {application srcid application' srcid' : Str} {issucc issucc' : Bool} :
    counterKey application srcid issucc = counterKey application' srcid' issucc' ↔
      application ++ srcid = application' ++ srcid' ∧ issucc = issucc' := by
  rw [counterKey, counterKey]
  refine ⟨fun same => ?_, fun same => by rw [same.1, same.2]⟩
  have outcomes : (if issucc then bytes "succ" else bytes "fail").length =
      (if issucc' then bytes "succ" else bytes "fail").length := by
    cases issucc <;> cases issucc' <;> rfl
  obtain ⟨texts, outcome⟩ := List.append_inj' same outcomes
  refine ⟨texts, ?_⟩
  cases issucc <;> cases issucc'
  · rfl
  · exact absurd outcome (by decide)
  · exact absurd outcome (by decide)
  · rfl

/-! ### Page views of a list -/

/-- The page views of a map from times. -/
def viewsOf (map : OrderedMap Int Int) (st ed : Int) : Int :=
  if st = ed then (map.find? st).getD 0
  else (map.between st ed).foldl (fun result i => int32 (result + i)) 0

theorem pageViews_eq {sk : Skiplist Int Int} {map : OrderedMap Int Int} (refines : sk.Refines map)
    (st ed : Int) : pageViews sk st ed = .ok (viewsOf map st ed) := by
  rw [pageViews, viewsOf]
  split
  · simp only [Skiplist.search_eq refines, bind, Except.bind]
    cases map.find? st <;> rfl
  · simp only [Skiplist.rangeGet_eq refines, bind, Except.bind]

/-- The page views of the counter of a key, zero without one. -/
def views (stater : PvStater) (st ed : Int) (key : Str) : Int :=
  match stater.pvstater.find? key with
  | some sk => (pageViews sk st ed).toOption.getD 0
  | none => 0

theorem views_eq {stater : PvStater} {key : Str} {sk : Skiplist Int Int} {map : OrderedMap Int Int}
    (found : stater.pvstater.find? key = some sk) (refines : sk.Refines map) (st ed : Int) :
    stater.views st ed key = viewsOf map st ed := by
  rw [views, found]
  dsimp only
  rw [pageViews_eq refines, Except.toOption, Option.getD_some]

section Reached

variable {support : OrderedMap Str (List Str)} {calls : List Call} {stater : PvStater}
  (sound : Sound support calls stater)

include sound

theorem Sound.exists_counter {application srcid : Str}
    (registered : Registered support calls application srcid) (issucc : Bool) :
    ∃ sk map, stater.pvstater.find? (counterKey application srcid issucc) = some sk ∧
      sk.Refines map := by
  obtain ⟨sk, found⟩ := Option.isSome_iff_exists.mp
    ((sound.counters _).mpr ⟨application, srcid, issucc, registered, rfl⟩)
  obtain ⟨map, refines⟩ := sound.refined _ sk found
  exact ⟨sk, map, found, refines⟩

/-- `Cnt` lists the page views of all counters of an application that is in the table. -/
theorem Sound.exists_cnt_views {application : Str} {srcids : List Str}
    (found : stater.srcidcfg.find? application = some srcids) (st ed : Int) :
    ∃ res, stater.cnt application st ed = .ok (some res) ∧
      Lists (stater.views st ed) (fun key =>
        ∃ srcid ∈ srcids, ∃ issucc, counterKey application srcid issucc = key) res := by
  refine exists_cnt st ed (stater.views st ed) found fun srcid member issucc => ?_
  obtain ⟨sk, map, counter, refines⟩ :=
    sound.exists_counter ((sound.registered application srcids found srcid).mp member) issucc
  exact ⟨sk, counter, by rw [views_eq counter refines, pageViews_eq refines]⟩

/-- What is reported for a registered pair are the page views of its counters. -/
theorem Sound.reported_eq {application srcid : Str}
    (registered : Registered support calls application srcid) (issucc : Bool) (st ed : Int) :
    stater.reported application srcid issucc st ed =
      .ok (some (some (stater.views st ed (counterKey application srcid issucc)))) := by
  have supported : Supported support calls application := by
    rcases registered with ⟨srcids, found, _⟩ | added
    · exact .inl (by rw [found, Option.isSome_some])
    · exact .inr ⟨srcid, added⟩
  obtain ⟨srcids, found⟩ :=
    Option.isSome_iff_exists.mp ((sound.supported application).mpr supported)
  obtain ⟨res, counted, lists⟩ := sound.exists_cnt_views found st ed
  have entry := (lists (counterKey application srcid issucc)).1
    ⟨srcid, (sound.registered application srcids found srcid).mpr registered, issucc, rfl⟩
  simp only [reported, counted, bind, Except.bind, Option.map_some, entry]
  rfl

end Reached

/-! ### Increments -/

theorem int32_add_one_ne (value : Int) : int32 (value + 1) ≠ value := by
  intro same
  have congruent : (value + 1).bmod (2 ^ 32) % (2 ^ 32 : Nat) = (value + 1) % (2 ^ 32 : Nat) :=
    Int.bmod_emod
  rw [← int32, same] at congruent
  omega

/-- An increment of another key leaves the page views of a key alone. -/
theorem Sound.views_inc_of_ne {support : OrderedMap Str (List Str)} {calls : List Call}
    {stater after : PvStater} (sound : Sound support calls stater) {strTime2Unixtime : Str → Int}
    {insertLevel : Fin maxLevel} {application srcid strTime key : Str} {issucc : Bool}
    (incremented : stater.inc strTime2Unixtime insertLevel application srcid issucc strTime =
      .ok after) (other : key ≠ counterKey application srcid issucc) (st ed : Int) :
    after.views st ed key = stater.views st ed key := by
  cases found : stater.pvstater.find? (counterKey application srcid issucc) with
  | none => rw [Except.ok.inj ((inc_eq_self _ found ..).symm.trans incremented)]
  | some sk =>
      obtain ⟨map, refines⟩ := sound.refined _ sk found
      obtain ⟨list, assigned, _⟩ := inc_eq strTime2Unixtime found refines insertLevel strTime
      obtain rfl := Except.ok.inj (assigned.symm.trans incremented)
      rw [views, views, OrderedMap.find?_assign_of_ne _ _ other]

section Pairs

variable {support : OrderedMap Str (List Str)} {calls : List Call} {stater : PvStater}
  (sound : Sound support calls stater) {application srcid application' srcid' : Str}
  (registered' : Registered support calls application' srcid')

include sound registered'

/-- What is reported after an increment for any pair. -/
theorem Sound.reported_inc_eq {strTime2Unixtime : Str → Int} {insertLevel : Fin maxLevel}
    {strTime : Str} {issucc : Bool} {after : PvStater}
    (incremented : stater.inc strTime2Unixtime insertLevel application srcid issucc strTime =
      .ok after) (issucc' : Bool) (st ed : Int) :
    after.reported application' srcid' issucc' st ed =
      .ok (some (some (after.views st ed (counterKey application' srcid' issucc')))) := by
  obtain ⟨_, again, soundAfter⟩ :=
    sound.inc strTime2Unixtime insertLevel application srcid issucc strTime
  obtain rfl := Except.ok.inj (again.symm.trans incremented)
  exact soundAfter.reported_eq ((registered_append_inc ..).mpr registered') issucc' st ed

theorem Sound.unmixed_of_ne (strTime2Unixtime : Str → Int)
    (differ : application ++ srcid ≠ application' ++ srcid') :
    Unmixed strTime2Unixtime stater application srcid application' srcid' := by
  intro insertLevel issucc strTime after incremented issucc' st ed
  rw [sound.reported_inc_eq registered' incremented, sound.reported_eq registered',
    sound.views_inc_of_ne incremented]
  exact fun same => differ (counterKey_eq_iff.mp same).1.symm

/-- Pairs with the same text share their counters, and every increment shows. -/
theorem Sound.not_unmixed_of_eq (strTime2Unixtime : Str → Int)
    (registered : Registered support calls application srcid)
    (same : application ++ srcid = application' ++ srcid') :
    ¬Unmixed strTime2Unixtime stater application srcid application' srcid' := by
  intro unmixed
  obtain ⟨sk, map, found, refines⟩ := sound.exists_counter registered true
  obtain ⟨list, incremented, result⟩ := inc_eq strTime2Unixtime found refines 0 []
  have equal := unmixed 0 true [] _ incremented true (strTime2Unixtime []) (strTime2Unixtime [])
  rw [sound.reported_inc_eq registered' incremented, sound.reported_eq registered',
    counterKey_eq_iff.mpr ⟨same.symm, rfl⟩, views_eq found refines,
    views_eq (OrderedMap.find?_assign_self ..) result, viewsOf, viewsOf, if_pos rfl, if_pos rfl,
    OrderedMap.find?_assign_self, Option.getD_some] at equal
  simp only [Except.ok.injEq, Option.some.injEq] at equal
  exact int32_add_one_ne _ equal

end Pairs

/-- **Page views do not mix** exactly when the pairs have different texts. -/
theorem unmixed_iff (strTime2Unixtime : Str → Int) (support : OrderedMap Str (List Str))
    (calls : List Call) {stater : PvStater}
    (reached : calls.foldlM (Call.apply strTime2Unixtime) (new support) = .ok stater)
    {application srcid application' srcid' : Str}
    (registered : Registered support calls application srcid)
    (registered' : Registered support calls application' srcid') :
    Unmixed strTime2Unixtime stater application srcid application' srcid' ↔
      application ++ srcid ≠ application' ++ srcid' := by
  obtain ⟨_, run, sound⟩ := run_sound strTime2Unixtime support calls
  obtain rfl := Except.ok.inj (run.symm.trans reached)
  exact ⟨fun unmixed same =>
      sound.not_unmixed_of_eq registered' strTime2Unixtime registered same unmixed,
    sound.unmixed_of_ne registered' strTime2Unixtime⟩

/-- Srcids of the shipped applications do not mix. -/
theorem unmixed_weather_express :
    ∃ stater, [].foldlM (Call.apply fun _ => 5)
        (new (OrderedMap.ofList [(bytes "weather", [bytes "4178"]),
          (bytes "express", [bytes "4207"])])) = .ok stater ∧
      Unmixed (fun _ => 5) stater (bytes "weather") (bytes "4178") (bytes "express")
        (bytes "4207") :=
  ⟨_, rfl, (unmixed_iff (fun _ => 5) _ [] rfl
    (.inl ⟨[bytes "4178"], by decide, by decide⟩)
    (.inl ⟨[bytes "4207"], by decide, by decide⟩)).mpr (by decide)⟩

/-- Two registered srcids whose increments mix. -/
theorem not_unmixed_with_same_text :
    ∃ stater, [].foldlM (Call.apply fun _ => 5)
        (new (OrderedMap.ofList [(bytes "news", [bytes "12"]), (bytes "news1", [bytes "2"])])) =
          .ok stater ∧
      ¬Unmixed (fun _ => 5) stater (bytes "news") (bytes "12") (bytes "news1") (bytes "2") :=
  ⟨_, rfl, (new_sound _).not_unmixed_of_eq (.inl ⟨[bytes "2"], by decide, by decide⟩) (fun _ => 5)
    (.inl ⟨[bytes "12"], by decide, by decide⟩) (by decide)⟩

end LogProcess.PvStater
