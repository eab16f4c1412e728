import LogProcess.Common.SkiplistRefinement
import LogProcess.Foundation.Bytes
import LogProcess.Foundation.MachineInt

/-! # Page-view counters

`preprocess/data_access_pv.cc` keeps one skiplist from times to page views for every
application, srcid and outcome. Counters are registered by the constructor and by
`AddSupportType`, and `Inc` counts only under keys that are registered. The
invariant `PvStater.Tallies` relates the lists to the calls made so far; `Cnt`
reports for each registered key the effective increments in a range of times
(`PvStater.cnt_eq_counted`).
-/

namespace LogProcess

structure PvStater where
  pvstater : OrderedMap Str (Skiplist Int Int)
  srcidcfg : OrderedMap Str (List Str)

namespace PvStater

/-- The key of a counter. -/
def counterKey (application srcid : Str) (issucc : Bool) : Str :=
  application ++ srcid ++ if issucc then bytes "succ" else bytes "fail"

/-- Insert the two counters of a srcid. -/
def insertCounters (counters : OrderedMap Str (Skiplist Int Int)) (application srcid : Str) :
    OrderedMap Str (Skiplist Int Int) :=
  (counters.insertNew (counterKey application srcid true) Skiplist.new).insertNew
    (counterKey application srcid false) Skiplist.new

/-- The constructor. -/
def new (support : OrderedMap Str (List Str)) : PvStater where
  pvstater := support.entries.foldl
    (fun counters entry => entry.2.foldl (fun counters srcid =>
      insertCounters counters entry.1 srcid) counters) OrderedMap.empty
  srcidcfg := support

def inc (strTime2Unixtime : Str → Int) (stater : PvStater) (insertLevel : Fin maxLevel)
    (application srcid : Str) (issucc : Bool) (strTime : Str) : Except MemoryFault PvStater :=
  let logtime := strTime2Unixtime strTime
  let key := counterKey application srcid issucc
  match stater.pvstater.find? key with
  | none => .ok stater
  | some sk => do
      let (res, pv) ← sk.search logtime 0
      let sk ← sk.modify insertLevel logtime (if res then int32 (pv + 1) else 1)
      .ok { stater with pvstater := stater.pvstater.assign key sk }

/-- The page views of one counter: `Search` for a single time, else a sum over `RangeGet`. -/
def pageViews (sk : Skiplist Int Int) (st ed : Int) : Except MemoryFault Int :=
  if st = ed then do
    let (_, result) ← sk.search st 0
    .ok result
  else do
    let (_, results) ← sk.rangeGet st ed
    .ok (results.foldl (fun result i => int32 (result + i)) 0)

/-- Report the counter of a key, when there is one. -/
def report (stater : PvStater) (st ed : Int) (res : OrderedMap Str Int) (key : Str) :
    Except MemoryFault (OrderedMap Str Int) :=
  match stater.pvstater.find? key with
  | none => .ok res
  | some sk => do
      let result ← pageViews sk st ed
      .ok (res.insertNew key result)

/-- `Cnt`, which returns nothing at all for an application that is not registered. -/
def cnt (stater : PvStater) (application : Str) (st ed : Int) :
    Except MemoryFault (Option (OrderedMap Str Int)) :=
  match stater.srcidcfg.find? application with
  | none => .ok none
  | some srcids => do
      let res ← srcids.foldlM (fun res srcid => do
        let res ← stater.report st ed res (counterKey application srcid true)
        stater.report st ed res (counterKey application srcid false)) OrderedMap.empty
      .ok (some res)

def addSupportType (stater : PvStater) (newtype newsrcid : Str) : PvStater :=
  match stater.srcidcfg.find? newtype with
  | some srcids =>
      if newsrcid ∈ srcids then
        stater
      else
        { pvstater := insertCounters stater.pvstater newtype newsrcid
          srcidcfg := stater.srcidcfg.assign newtype (srcids ++ [newsrcid]) }
  | none =>
      { pvstater := insertCounters stater.pvstater newtype newsrcid
        srcidcfg := stater.srcidcfg.insertNew newtype [newsrcid] }

/-- A call that changes the counters. -/
inductive Call where
  | inc (insertLevel : Fin maxLevel) (application srcid : Str) (issucc : Bool) (strTime : Str)
  | addSupportType (newtype newsrcid : Str)

def Call.isInc : Call → Bool
  | .inc .. => true
  | .addSupportType .. => false

def Call.apply (strTime2Unixtime : Str → Int) (stater : PvStater) :
    Call → Except MemoryFault PvStater
  | .inc insertLevel application srcid issucc strTime =>
      stater.inc strTime2Unixtime insertLevel application srcid issucc strTime
  | .addSupportType newtype newsrcid => .ok (stater.addSupportType newtype newsrcid)

/-! ### What the calls mean -/

section Meaning

variable (strTime2Unixtime : Str → Int) (support : OrderedMap Str (List Str))

/-- The application is in the initial table or was added. -/
def Supported (calls : List Call) (application : Str) : Prop :=
  (support.find? application).isSome ∨ ∃ srcid, Call.addSupportType application srcid ∈ calls

/-- The srcid is in the initial table of the application or was added. -/
def Registered (calls : List Call) (application srcid : Str) : Prop :=
  (∃ srcids, support.find? application = some srcids ∧ srcid ∈ srcids) ∨
    Call.addSupportType application srcid ∈ calls

/-- Some registered srcid has the counter key. -/
def HasCounter (calls : List Call) (key : Str) : Prop :=
  ∃ application srcid issucc, Registered support calls application srcid ∧
    counterKey application srcid issucc = key

/-- The call increments an existing counter of the key, at a time in the range. -/
def Effective (earlier : List Call) (key : Str) (st ed : Int) : Call → Prop
  | .inc _ application srcid issucc strTime =>
      counterKey application srcid issucc = key ∧ HasCounter support earlier key ∧
        st ≤ strTime2Unixtime strTime ∧ strTime2Unixtime strTime ≤ ed
  | .addSupportType .. => False

/-- The call at a position is effective. -/
def EffectiveAt (calls : List Call) (key : Str) (st ed : Int) (i : Nat) : Prop :=
  ∃ call, calls[i]? = some call ∧
    Effective strTime2Unixtime support (calls.take i) key st ed call

open Classical in
/-- The number of effective increments of a key with times in a range. -/
noncomputable def counted (calls : List Call) (key : Str) (st ed : Int) : Nat :=
  ((Finset.range calls.length).filter
    (EffectiveAt strTime2Unixtime support calls key st ed)).card

open Classical in
/-- One more call adds one exactly when it is effective. -/
theorem counted_append (calls : List Call) (call : Call) (key : Str) (st ed : Int) :
    counted strTime2Unixtime support (calls ++ [call]) key st ed =
      counted strTime2Unixtime support calls key st ed +
        if Effective strTime2Unixtime support calls key st ed call then 1 else 0 := by
  have earlier : (Finset.range calls.length).filter
        (EffectiveAt strTime2Unixtime support (calls ++ [call]) key st ed) =
      (Finset.range calls.length).filter
        (EffectiveAt strTime2Unixtime support calls key st ed) := by
    apply Finset.filter_congr
    intro i member
    have below := Finset.mem_range.mp member
    rw [EffectiveAt, EffectiveAt, List.getElem?_append_left below,
      List.take_append_of_le_length below.le]
  have last : EffectiveAt strTime2Unixtime support (calls ++ [call]) key st ed calls.length ↔
      Effective strTime2Unixtime support calls key st ed call := by
    rw [EffectiveAt, List.getElem?_concat_length, List.take_left]
    simp only [Option.some.injEq, exists_eq_left']
  unfold counted
  rw [List.length_append, List.length_singleton, Finset.range_add_one, Finset.filter_insert,
    earlier]
  simp only [last]
  split
  · exact Finset.card_insert_of_notMem
      fun member => Finset.notMem_range_self (Finset.mem_filter.mp member).1
  · rfl

/-- A registration counts nothing. -/
theorem counted_append_addSupportType (calls : List Call) (newtype newsrcid key : Str)
    (st ed : Int) :
    counted strTime2Unixtime support (calls ++ [.addSupportType newtype newsrcid]) key st ed =
      counted strTime2Unixtime support calls key st ed := by
  rw [counted_append,
    if_neg fun effective : Effective _ _ _ _ _ _ (.addSupportType _ _) => effective, Nat.add_zero]

/-- No more increments are counted than were made. -/
theorem counted_le (calls : List Call) (key : Str) (st ed : Int) :
    counted strTime2Unixtime support calls key st ed ≤ calls.countP Call.isInc := by
  induction calls using List.reverseRecOn with
  | nil => exact le_rfl
  | append_singleton calls call ih =>
      rw [counted_append, List.countP_append, List.countP_singleton]
      cases call with
      | inc insertLevel application srcid issucc strTime =>
          apply Nat.add_le_add ih
          rw [Call.isInc, if_pos rfl]
          split <;> omega
      | addSupportType newtype newsrcid =>
          rw [← counted_append, counted_append_addSupportType]
          exact ih.trans (Nat.le_add_right _ _)

variable {support}

theorem HasCounter.mono {calls : List Call} {key : Str} {earlier : List Call}
    (has : HasCounter support earlier key) (sublist : earlier ⊆ calls) :
    HasCounter support calls key := by
  obtain ⟨application, srcid, issucc, registered, named⟩ := has
  exact ⟨application, srcid, issucc, registered.imp_right (@sublist _), named⟩

open Classical in
/-- Nothing was counted under a key before it gets a counter. -/
theorem counted_eq_zero {calls : List Call} {key : Str} (without : ¬HasCounter support calls key)
    (st ed : Int) : counted strTime2Unixtime support calls key st ed = 0 := by
  refine Finset.card_eq_zero.mpr (Finset.filter_eq_empty_iff.mpr fun i _ effectiveAt => ?_)
  obtain ⟨call, _, effective⟩ := effectiveAt
  cases call with
  | inc insertLevel application srcid issucc strTime =>
      exact without (effective.2.1.mono (List.take_subset _ _))
  | addSupportType newtype newsrcid => exact effective

end Meaning

/-! ### What one more call registers -/

section Registration

variable {support : OrderedMap Str (List Str)} {calls : List Call}

theorem supported_append_inc (insertLevel : Fin maxLevel) (application srcid : Str) (issucc : Bool)
    (strTime query : Str) :
    Supported support (calls ++ [.inc insertLevel application srcid issucc strTime]) query ↔
      Supported support calls query := by
  simp only [Supported, List.mem_append, List.mem_singleton, reduceCtorEq, or_false]

theorem registered_append_inc (insertLevel : Fin maxLevel) (application srcid : Str)
    (issucc : Bool) (strTime query querySrcid : Str) :
    Registered support (calls ++ [.inc insertLevel application srcid issucc strTime]) query
      querySrcid ↔ Registered support calls query querySrcid := by
  simp only [Registered, List.mem_append, List.mem_singleton, reduceCtorEq, or_false]

theorem hasCounter_append_inc (insertLevel : Fin maxLevel) (application srcid : Str)
    (issucc : Bool) (strTime key : Str) :
    HasCounter support (calls ++ [.inc insertLevel application srcid issucc strTime]) key ↔
      HasCounter support calls key := by
  simp only [HasCounter, registered_append_inc]

theorem supported_append_addSupportType (newtype newsrcid query : Str) :
    Supported support (calls ++ [.addSupportType newtype newsrcid]) query ↔
      query = newtype ∨ Supported support calls query := by
  simp only [Supported, List.mem_append, List.mem_singleton, Call.addSupportType.injEq,
    exists_or, exists_and_left, exists_eq, and_true]
  tauto

theorem registered_append_addSupportType (newtype newsrcid query querySrcid : Str) :
    Registered support (calls ++ [.addSupportType newtype newsrcid]) query querySrcid ↔
      (query = newtype ∧ querySrcid = newsrcid) ∨ Registered support calls query querySrcid := by
  simp only [Registered, List.mem_append, List.mem_singleton, Call.addSupportType.injEq]
  rw [← or_assoc, or_comm]

theorem hasCounter_append_addSupportType (newtype newsrcid key : Str) :
    HasCounter support (calls ++ [.addSupportType newtype newsrcid]) key ↔
      (∃ issucc, counterKey newtype newsrcid issucc = key) ∨ HasCounter support calls key := by
  simp only [HasCounter, registered_append_addSupportType]
  refine ⟨?_, ?_⟩
  · rintro ⟨application, srcid, issucc, ⟨rfl, rfl⟩ | registered, named⟩
    · exact Or.inl ⟨issucc, named⟩
    · exact Or.inr ⟨application, srcid, issucc, registered, named⟩
  · rintro (⟨issucc, named⟩ | ⟨application, srcid, issucc, registered, named⟩)
    · exact ⟨newtype, newsrcid, issucc, Or.inl ⟨rfl, rfl⟩, named⟩
    · exact ⟨application, srcid, issucc, Or.inr registered, named⟩

end Registration

/-! ### Inserting counters -/

/-- The keys get empty counters where they had none, and nothing else changes. -/
def Inserts (keys : Str → Prop) (before after : OrderedMap Str (Skiplist Int Int)) : Prop :=
  ∀ key, (keys key → after.find? key = some ((before.find? key).getD Skiplist.new)) ∧
    (¬keys key → after.find? key = before.find? key)

namespace Inserts

variable {keys otherKeys : Str → Prop} {before middle after : OrderedMap Str (Skiplist Int Int)}

theorem insertNew (counters : OrderedMap Str (Skiplist Int Int)) (key : Str) :
    Inserts (key = ·) counters (counters.insertNew key Skiplist.new) := by
  intro query
  rw [OrderedMap.find?_insertNew]
  refine ⟨?_, fun other => if_neg (Ne.symm other)⟩
  rintro rfl
  exact if_pos rfl

theorem trans (first : Inserts keys before middle) (second : Inserts otherKeys middle after) :
    Inserts (fun key => keys key ∨ otherKeys key) before after := by
  intro key
  by_cases early : keys key
  · have found := (first key).1 early
    refine ⟨fun _ => ?_, fun neither => absurd (Or.inl early) neither⟩
    by_cases late : otherKeys key
    · rw [(second key).1 late, found, Option.getD_some]
    · rw [(second key).2 late, found]
  · have same := (first key).2 early
    by_cases late : otherKeys key
    · exact ⟨fun _ => same ▸ (second key).1 late, fun neither => absurd (Or.inr late) neither⟩
    · exact ⟨fun some => absurd some (not_or.mpr ⟨early, late⟩),
        fun _ => ((second key).2 late).trans same⟩

theorem congr (inserts : Inserts keys before after) (same : ∀ key, keys key ↔ otherKeys key) :
    Inserts otherKeys before after := fun key =>
  ⟨fun among => (inserts key).1 ((same key).mpr among),
    fun outside => (inserts key).2 fun among => outside ((same key).mp among)⟩

/-- A loop inserts the keys of its rounds. -/
theorem foldl {Item : Type} {keysOf : Item → Str → Prop}
    {step : OrderedMap Str (Skiplist Int Int) → Item → OrderedMap Str (Skiplist Int Int)}
    (each : ∀ counters item, Inserts (keysOf item) counters (step counters item))
    (items : List Item) (counters : OrderedMap Str (Skiplist Int Int)) :
    Inserts (fun key => ∃ item ∈ items, keysOf item key) counters (items.foldl step counters) := by
  induction items generalizing counters with
  | nil => exact fun key => ⟨by simp only [List.not_mem_nil, false_and, exists_false,
      IsEmpty.forall_iff], fun _ => rfl⟩
  | cons item rest ih =>
      exact ((each counters item).trans (ih _)).congr fun key => by
        simp only [List.mem_cons, exists_eq_or_imp]

theorem isSome_iff (inserts : Inserts keys before after) (key : Str) :
    (after.find? key).isSome ↔ keys key ∨ (before.find? key).isSome := by
  by_cases among : keys key
  · simp only [(inserts key).1 among, Option.isSome_some, among, true_or]
  · simp only [(inserts key).2 among, among, false_or]

end Inserts

theorem insertCounters_inserts (counters : OrderedMap Str (Skiplist Int Int))
    (application srcid : Str) :
    Inserts (fun key => ∃ issucc, counterKey application srcid issucc = key) counters
      (insertCounters counters application srcid) :=
  ((Inserts.insertNew counters _).trans (Inserts.insertNew _ _)).congr fun key => by
    simp only [Bool.exists_bool, Or.comm]

theorem new_inserts (support : OrderedMap Str (List Str)) :
    Inserts (HasCounter support []) OrderedMap.empty (new support).pvstater := by
  refine (Inserts.foldl (fun counters entry => Inserts.foldl (fun counters srcid =>
    insertCounters_inserts counters entry.1 srcid) entry.2 counters) support.entries _).congr ?_
  intro key
  simp only [HasCounter, Registered, OrderedMap.find?_eq_some_iff, List.not_mem_nil, or_false]
  refine ⟨?_, ?_⟩
  · intro registered
    obtain ⟨⟨application, srcids⟩, member, srcid, listed, issucc, rfl⟩ := registered
    exact ⟨application, srcid, issucc, ⟨srcids, member, listed⟩, rfl⟩
  · intro registered
    obtain ⟨application, srcid, issucc, ⟨srcids, member, listed⟩, rfl⟩ := registered
    exact ⟨⟨application, srcids⟩, member, srcid, listed, issucc, rfl⟩

/-- A list after the insertion was there before, or is new. -/
theorem Inserts.find?_eq_some {keys : Str → Prop}
    {before after : OrderedMap Str (Skiplist Int Int)} (inserts : Inserts keys before after)
    {key : Str} {sk : Skiplist Int Int} (found : after.find? key = some sk) :
    before.find? key = some sk ∨ before.find? key = none ∧ sk = Skiplist.new := by
  by_cases among : keys key
  · rw [(inserts key).1 among, Option.some.injEq] at found
    cases earlier : before.find? key with
    | some old => exact .inl (by rw [← found, earlier, Option.getD_some])
    | none => exact .inr ⟨rfl, by rw [← found, earlier, Option.getD_none]⟩
  · exact .inl ((inserts key).2 among ▸ found)

/-- A registration inserts no lists but its own. -/
theorem addSupportType_inserts (stater : PvStater) (newtype newsrcid : Str) :
    ∃ keys, Inserts keys stater.pvstater (stater.addSupportType newtype newsrcid).pvstater := by
  have inserts := insertCounters_inserts stater.pvstater newtype newsrcid
  have nothing : Inserts (fun _ => False) stater.pvstater stater.pvstater :=
    fun _ => ⟨False.elim, fun _ => rfl⟩
  rw [addSupportType]
  split
  · split
    · exact ⟨_, nothing⟩
    · exact ⟨_, inserts⟩
  · exact ⟨_, inserts⟩

/-! ### Increments -/

section Increments

variable (strTime2Unixtime : Str → Int) {stater : PvStater} {application srcid : Str}
  {issucc : Bool}

/-- An increment without a counter does nothing. -/
theorem inc_eq_self
    (missing : stater.pvstater.find? (counterKey application srcid issucc) = none)
    (insertLevel : Fin maxLevel) (strTime : Str) :
    stater.inc strTime2Unixtime insertLevel application srcid issucc strTime = .ok stater := by
  simp only [inc, missing]

/-- An increment of an existing counter adds one at the converted time. -/
theorem inc_eq {sk : Skiplist Int Int} {map : OrderedMap Int Int}
    (found : stater.pvstater.find? (counterKey application srcid issucc) = some sk)
    (refines : sk.Refines map) (insertLevel : Fin maxLevel) (strTime : Str) :
    ∃ after, stater.inc strTime2Unixtime insertLevel application srcid issucc strTime =
        .ok { stater with
          pvstater := stater.pvstater.assign (counterKey application srcid issucc) after } ∧
      after.Refines (map.assign (strTime2Unixtime strTime)
        (int32 ((map.find? (strTime2Unixtime strTime)).getD 0 + 1))) := by
  obtain ⟨after, modified, result⟩ := Skiplist.modify_refines refines insertLevel
    (strTime2Unixtime strTime) (int32 ((map.find? (strTime2Unixtime strTime)).getD 0 + 1))
  refine ⟨after, ?_, result⟩
  simp only [inc, found, Skiplist.search_eq refines, bind, Except.bind]
  cases value : map.find? (strTime2Unixtime strTime) with
  | none =>
      rw [value, Option.getD_none, zero_add, int32_eq_self (by norm_num) (by norm_num)] at modified
      simp only [Bool.false_eq_true, ↓reduceIte, modified]
  | some pv =>
      rw [value, Option.getD_some] at modified
      simp only [↓reduceIte, modified]

end Increments

/-! ### Listing counters -/

section Listing

variable {stater : PvStater} {st ed : Int} {value : Str → Int} {keys : Str → Prop}
  {res : OrderedMap Str Int}

/-- The key has a counter with these page views. -/
def Views (stater : PvStater) (st ed : Int) (key : Str) (count : Int) : Prop :=
  ∃ sk, stater.pvstater.find? key = some sk ∧ pageViews sk st ed = .ok count

/-- The result holds the value of each of the keys and nothing else. -/
def Lists (value : Str → Int) (keys : Str → Prop) (res : OrderedMap Str Int) : Prop :=
  ∀ key, (keys key → res.find? key = some (value key)) ∧ (¬keys key → res.find? key = none)

theorem Lists.report (lists : Lists value keys res) {key : Str}
    (views : stater.Views st ed key (value key)) :
    ∃ after, stater.report st ed res key = .ok after ∧
      Lists value (fun query => keys query ∨ key = query) after := by
  obtain ⟨sk, found, viewed⟩ := views
  refine ⟨_, by simp only [PvStater.report, found, viewed, bind, Except.bind]; rfl, ?_⟩
  intro query
  rw [OrderedMap.find?_insertNew]
  by_cases same : query = key
  · refine ⟨fun _ => ?_, fun neither => absurd (Or.inr same.symm) neither⟩
    rw [if_pos same, same]
    by_cases before : keys key
    · rw [(lists key).1 before, Option.getD_some]
    · rw [(lists key).2 before, Option.getD_none]
  · rw [if_neg same]
    exact ⟨fun either => (lists query).1 (either.resolve_right (Ne.symm same)),
      fun neither => (lists query).2 fun before => neither (Or.inl before)⟩

/-- The loop over the srcids of an application lists all of their counters. -/
theorem Lists.foldlM_report {application : Str} {srcids : List Str} (lists : Lists value keys res)
    (views : ∀ srcid ∈ srcids, ∀ issucc, stater.Views st ed (counterKey application srcid issucc)
      (value (counterKey application srcid issucc))) :
    ∃ after, srcids.foldlM (fun res srcid => do
        let res ← stater.report st ed res (counterKey application srcid true)
        stater.report st ed res (counterKey application srcid false)) res = .ok after ∧
      Lists value (fun key => keys key ∨
        ∃ srcid ∈ srcids, ∃ issucc, counterKey application srcid issucc = key) after := by
  induction srcids generalizing keys res with
  | nil =>
      refine ⟨res, rfl, ?_⟩
      simpa only [List.not_mem_nil, false_and, exists_false, or_false] using lists
  | cons srcid rest ih =>
      have listed := views srcid List.mem_cons_self
      obtain ⟨first, firstRun, firstLists⟩ := lists.report (listed true)
      obtain ⟨second, secondRun, secondLists⟩ := firstLists.report (listed false)
      obtain ⟨after, run, result⟩ := ih secondLists
        fun other member => views other (List.mem_cons_of_mem _ member)
      refine ⟨after, ?_, ?_⟩
      · simp only [List.foldlM_cons, firstRun, secondRun, bind, Except.bind] at run ⊢
        exact run
      · simpa only [List.mem_cons, exists_eq_or_imp, Bool.exists_bool, or_assoc, or_comm,
          or_left_comm] using result

variable (st ed value) in
/-- `Cnt` lists the counters of the srcids of a registered application. -/
theorem exists_cnt {application : Str} {srcids : List Str}
    (found : stater.srcidcfg.find? application = some srcids)
    (views : ∀ srcid ∈ srcids, ∀ issucc, stater.Views st ed (counterKey application srcid issucc)
      (value (counterKey application srcid issucc))) :
    ∃ res, stater.cnt application st ed = .ok (some res) ∧
      Lists value (fun key =>
        ∃ srcid ∈ srcids, ∃ issucc, counterKey application srcid issucc = key) res := by
  have nothing : Lists value (fun _ => False) OrderedMap.empty :=
    fun key => ⟨False.elim, fun _ => rfl⟩
  obtain ⟨res, reported, lists⟩ := nothing.foldlM_report views
  simp only [false_or] at lists
  exact ⟨res, by simp only [cnt, found]; rw [reported]; rfl, lists⟩

end Listing

/-! ### The tables of a run -/

section Tables

variable (support : OrderedMap Str (List Str))

/-- **Invariant of the tables.** The table lists what the calls registered, and exactly the
registered keys have a list, which holds a map. -/
structure Sound (calls : List Call) (stater : PvStater) : Prop where
  supported : ∀ application,
    (stater.srcidcfg.find? application).isSome ↔ Supported support calls application
  registered : ∀ application srcids, stater.srcidcfg.find? application = some srcids →
    ∀ srcid, srcid ∈ srcids ↔ Registered support calls application srcid
  counters : ∀ key, (stater.pvstater.find? key).isSome ↔ HasCounter support calls key
  refined : ∀ key sk, stater.pvstater.find? key = some sk → ∃ map, sk.Refines map

theorem new_sound : Sound support [] (new support) := by
  have inserts := new_inserts support
  refine ⟨?_, ?_, ?_, ?_⟩
  · intro application
    simp only [new, Supported, List.not_mem_nil, exists_false, or_false]
  · intro application srcids found srcid
    have found : support.find? application = some srcids := found
    simp only [Registered, found, Option.some.injEq, exists_eq_left', List.not_mem_nil, or_false]
  · intro key
    rw [inserts.isSome_iff, OrderedMap.find?_empty, Option.isSome_none]
    simp only [Bool.false_eq_true, or_false]
  · intro key sk found
    rcases inserts.find?_eq_some found with old | ⟨_, rfl⟩
    · cases old
    · exact ⟨OrderedMap.empty, Skiplist.refines_new⟩

variable {support} {calls : List Call} {stater : PvStater}

/-- An increment keeps the tables. -/
theorem Sound.inc (sound : Sound support calls stater) (strTime2Unixtime : Str → Int)
    (insertLevel : Fin maxLevel) (application srcid : Str) (issucc : Bool) (strTime : Str) :
    ∃ after, stater.inc strTime2Unixtime insertLevel application srcid issucc strTime = .ok after ∧
      Sound support (calls ++ [.inc insertLevel application srcid issucc strTime]) after := by
  have supported (query : Str) := (sound.supported query).trans
    (supported_append_inc insertLevel application srcid issucc strTime query).symm
  have registered (query : Str) (srcids : List Str)
      (found : stater.srcidcfg.find? query = some srcids) (querySrcid : Str) :=
    (sound.registered query srcids found querySrcid).trans
      (registered_append_inc insertLevel application srcid issucc strTime query querySrcid).symm
  cases found : stater.pvstater.find? (counterKey application srcid issucc) with
  | none => exact ⟨_, inc_eq_self _ found .., supported, registered,
      fun key => (sound.counters key).trans (hasCounter_append_inc ..).symm, sound.refined⟩
  | some sk =>
      obtain ⟨map, refines⟩ := sound.refined _ sk found
      obtain ⟨list, assigned, result⟩ := inc_eq strTime2Unixtime found refines insertLevel strTime
      refine ⟨_, assigned, supported, registered, fun key => ?_, fun key other present => ?_⟩
      · rw [OrderedMap.find?_assign, hasCounter_append_inc, ← sound.counters]
        split
        · rename_i same
          rw [same, found]
          simp only [Option.isSome_some]
        · rfl
      · rw [OrderedMap.find?_assign] at present
        split at present
        · exact ⟨_, Option.some.inj present ▸ result⟩
        · exact sound.refined key other present

/-- A registration that is in the table already changes nothing. -/
theorem Sound.of_registered (sound : Sound support calls stater) {newtype newsrcid : Str}
    (listed : Registered support calls newtype newsrcid)
    (known : Supported support calls newtype) :
    Sound support (calls ++ [.addSupportType newtype newsrcid]) stater := by
  refine ⟨?_, ?_, ?_, sound.refined⟩
  · intro query
    rw [supported_append_addSupportType, sound.supported]
    exact ⟨Or.inr, fun either => either.elim (fun same => same ▸ known) id⟩
  · intro query srcids found querySrcid
    rw [registered_append_addSupportType, sound.registered query srcids found]
    refine ⟨Or.inr, fun either => either.elim (fun same => ?_) id⟩
    rw [same.1, same.2]
    exact listed
  · intro key
    rw [hasCounter_append_addSupportType, sound.counters]
    refine ⟨Or.inr, fun either => either.elim (fun named => ?_) id⟩
    exact ⟨newtype, newsrcid, named.choose, listed, named.choose_spec⟩

/-- The table and the lists after a registration that is not in the table yet. -/
theorem Sound.of_inserts (sound : Sound support calls stater) {newtype newsrcid : Str}
    {after : PvStater}
    (inserts : Inserts (fun key => ∃ issucc, counterKey newtype newsrcid issucc = key)
      stater.pvstater after.pvstater) (srcids : List Str)
    (assigned : after.srcidcfg.find? newtype = some (srcids ++ [newsrcid]))
    (kept : ∀ query, query ≠ newtype →
      after.srcidcfg.find? query = stater.srcidcfg.find? query)
    (earlier : ∀ srcid, srcid ∈ srcids ↔ Registered support calls newtype srcid) :
    Sound support (calls ++ [.addSupportType newtype newsrcid]) after := by
  refine ⟨?_, ?_, ?_, ?_⟩
  · intro query
    rw [supported_append_addSupportType, ← sound.supported]
    by_cases same : query = newtype
    · simp only [same, assigned, Option.isSome_some, true_or]
    · simp only [kept query same, same, false_or]
  · intro query found present querySrcid
    rw [registered_append_addSupportType]
    by_cases same : query = newtype
    · rw [same, assigned, Option.some.injEq] at present
      rw [← present, List.mem_append, earlier, List.mem_singleton, same]
      simp only [true_and, or_comm]
    · rw [kept query same] at present
      rw [sound.registered query found present]
      simp only [same, false_and, false_or]
  · intro key
    rw [inserts.isSome_iff, hasCounter_append_addSupportType, sound.counters]
  · intro key sk found
    rcases inserts.find?_eq_some found with old | ⟨_, rfl⟩
    · exact sound.refined key sk old
    · exact ⟨OrderedMap.empty, Skiplist.refines_new⟩

/-- A registration keeps the tables. -/
theorem Sound.addSupportType (sound : Sound support calls stater) (newtype newsrcid : Str) :
    Sound support (calls ++ [.addSupportType newtype newsrcid])
      (stater.addSupportType newtype newsrcid) := by
  have inserts := insertCounters_inserts stater.pvstater newtype newsrcid
  cases found : stater.srcidcfg.find? newtype with
  | none =>
      have unsupported : ¬Supported support calls newtype := by
        rw [← sound.supported, found, Option.isSome_none]
        exact Bool.false_ne_true
      simp only [PvStater.addSupportType, found, OrderedMap.insertNew_of_find?_eq_none found]
      refine sound.of_inserts inserts [] (OrderedMap.find?_assign_self _ _ _)
        (fun query => OrderedMap.find?_assign_of_ne _ _) ?_
      intro srcid
      refine ⟨fun member => absurd member List.not_mem_nil, fun registered => ?_⟩
      refine absurd ?_ unsupported
      rcases registered with ⟨srcids, present, _⟩ | added
      · exact Or.inl (by rw [present, Option.isSome_some])
      · exact Or.inr ⟨srcid, added⟩
  | some srcids =>
      have earlier := sound.registered newtype srcids found
      by_cases listed : newsrcid ∈ srcids
      · simp only [PvStater.addSupportType, found, listed, ↓reduceIte]
        exact sound.of_registered ((earlier newsrcid).mp listed)
          ((sound.supported newtype).mp (by rw [found, Option.isSome_some]))
      · simp only [PvStater.addSupportType, found, listed, ↓reduceIte]
        exact sound.of_inserts inserts srcids (OrderedMap.find?_assign_self _ _ _)
          (fun query => OrderedMap.find?_assign_of_ne _ _) earlier

/-- **Run invariant of the tables.** No calls fault. -/
theorem run_sound (strTime2Unixtime : Str → Int) (support : OrderedMap Str (List Str))
    (calls : List Call) :
    ∃ stater, calls.foldlM (Call.apply strTime2Unixtime) (new support) = .ok stater ∧
      Sound support calls stater := by
  refine Fallible.exists_foldlM_eq_ok (fun done stater call _ sound => ?_) (new_sound support)
  cases call with
  | inc insertLevel application srcid issucc strTime =>
      exact sound.inc strTime2Unixtime insertLevel application srcid issucc strTime
  | addSupportType newtype newsrcid => exact ⟨_, rfl, sound.addSupportType newtype newsrcid⟩

end Tables

/-! ### The invariant of a run -/

section Run

variable (strTime2Unixtime : Str → Int) (support : OrderedMap Str (List Str))

/-- **Invariant.** The table lists what the calls registered, exactly the registered
keys have a list, and each list sums to the effective increments of its key. -/
structure Tallies (calls : List Call) (stater : PvStater) : Prop where
  supported : ∀ application,
    (stater.srcidcfg.find? application).isSome ↔ Supported support calls application
  registered : ∀ application srcids, stater.srcidcfg.find? application = some srcids →
    ∀ srcid, srcid ∈ srcids ↔ Registered support calls application srcid
  counters : ∀ key, (stater.pvstater.find? key).isSome ↔ HasCounter support calls key
  tallied : ∀ key sk, stater.pvstater.find? key = some sk → ∃ map, sk.Refines map ∧
    ∀ st ed, (map.between st ed).sum = counted strTime2Unixtime support calls key st ed

section Parts

variable {strTime2Unixtime support} {calls : List Call} {stater : PvStater}

theorem Tallies.sound (tallies : Tallies strTime2Unixtime support calls stater) :
    Sound support calls stater :=
  ⟨tallies.supported, tallies.registered, tallies.counters, fun key sk found =>
    (tallies.tallied key sk found).imp fun _ => And.left⟩

theorem Sound.tallies (sound : Sound support calls stater)
    (tallied : ∀ key sk, stater.pvstater.find? key = some sk → ∃ map, sk.Refines map ∧
      ∀ st ed, (map.between st ed).sum = counted strTime2Unixtime support calls key st ed) :
    Tallies strTime2Unixtime support calls stater :=
  ⟨sound.supported, sound.registered, sound.counters, tallied⟩

end Parts

theorem new_tallies : Tallies strTime2Unixtime support [] (new support) := by
  refine (new_sound support).tallies fun key sk found => ⟨OrderedMap.empty, ?_, fun _ _ => rfl⟩
  rcases (new_inserts support).find?_eq_some found with old | ⟨_, rfl⟩
  · cases old
  · exact Skiplist.refines_new

variable {strTime2Unixtime support} {calls : List Call} {stater : PvStater}

/-- The value stored at one time is the number of effective increments at that time. -/
theorem getD_find?_eq_counted {map : OrderedMap Int Int} {key : Str}
    (tallied : ∀ st ed, (map.between st ed).sum =
      counted strTime2Unixtime support calls key st ed) (time : Int) :
    (map.find? time).getD 0 = counted strTime2Unixtime support calls key time time := by
  rw [← tallied time time, OrderedMap.between_self]
  cases map.find? time with
  | none => rfl
  | some value => rw [Option.getD_some, Option.toList_some, List.sum_singleton]

/-- A key other than the incremented one keeps its count. -/
theorem counted_append_inc_of_ne {application srcid : Str} {issucc : Bool} {key : Str}
    (other : counterKey application srcid issucc ≠ key) (insertLevel : Fin maxLevel)
    (strTime : Str) (st ed : Int) :
    counted strTime2Unixtime support
        (calls ++ [.inc insertLevel application srcid issucc strTime]) key st ed =
      counted strTime2Unixtime support calls key st ed := by
  rw [counted_append, if_neg fun effective => other effective.1, Nat.add_zero]

/-- An increment keeps the invariant. -/
theorem inc_tallies (tallies : Tallies strTime2Unixtime support calls stater)
    (insertLevel : Fin maxLevel) (application srcid : Str) (issucc : Bool) (strTime : Str)
    (bounded : calls.countP Call.isInc + 1 < 2 ^ 31) :
    ∃ after, stater.inc strTime2Unixtime insertLevel application srcid issucc strTime = .ok after ∧
      Tallies strTime2Unixtime support
        (calls ++ [.inc insertLevel application srcid issucc strTime]) after := by
  obtain ⟨after, incremented, sound⟩ :=
    tallies.sound.inc strTime2Unixtime insertLevel application srcid issucc strTime
  refine ⟨after, incremented, sound.tallies fun key other present => ?_⟩
  cases found : stater.pvstater.find? (counterKey application srcid issucc) with
  | none =>
      obtain rfl := Except.ok.inj ((inc_eq_self _ found ..).symm.trans incremented)
      obtain ⟨map, refines, tallied⟩ := tallies.tallied key other present
      refine ⟨map, refines, fun st ed => ?_⟩
      rw [tallied, counted_append_inc_of_ne]
      rintro rfl
      rw [found] at present
      cases present
  | some sk =>
      obtain ⟨map, refines, tallied⟩ := tallies.tallied _ sk found
      have current := getD_find?_eq_counted tallied (strTime2Unixtime strTime)
      have small := counted_le strTime2Unixtime support calls
        (counterKey application srcid issucc) (strTime2Unixtime strTime)
        (strTime2Unixtime strTime)
      obtain ⟨list, assigned, result⟩ := inc_eq strTime2Unixtime found refines insertLevel strTime
      rw [int32_eq_self (by omega) (by omega)] at result
      obtain rfl := Except.ok.inj (assigned.symm.trans incremented)
      rw [OrderedMap.find?_assign] at present
      by_cases same : key = counterKey application srcid issucc
      · rw [if_pos same, Option.some.injEq] at present
        refine ⟨_, present ▸ result, fun st ed => ?_⟩
        have has : HasCounter support calls key :=
          (tallies.counters key).mp (by rw [same, found, Option.isSome_some])
        rw [OrderedMap.sum_between_assign, tallied, counted_append, same]
        rw [same] at has
        simp only [Effective, has, true_and, add_sub_cancel_left]
        push_cast
        rfl
      · rw [if_neg same] at present
        obtain ⟨map, refines, tallied⟩ := tallies.tallied key other present
        exact ⟨map, refines, fun st ed => by rw [tallied, counted_append_inc_of_ne (Ne.symm same)]⟩

/-- A registration keeps the invariant. -/
theorem addSupportType_tallies (tallies : Tallies strTime2Unixtime support calls stater)
    (newtype newsrcid : Str) :
    Tallies strTime2Unixtime support (calls ++ [.addSupportType newtype newsrcid])
      (stater.addSupportType newtype newsrcid) := by
  obtain ⟨keys, inserts⟩ := addSupportType_inserts stater newtype newsrcid
  refine (tallies.sound.addSupportType newtype newsrcid).tallies fun key sk found => ?_
  simp only [counted_append_addSupportType]
  rcases inserts.find?_eq_some found with old | ⟨missing, rfl⟩
  · exact tallies.tallied key sk old
  · have without : ¬HasCounter support calls key := by
      rw [← tallies.counters, missing, Option.isSome_none]
      exact Bool.false_ne_true
    refine ⟨OrderedMap.empty, Skiplist.refines_new, fun st ed => ?_⟩
    rw [counted_eq_zero strTime2Unixtime without]
    rfl

variable (strTime2Unixtime support) in
/-- **Run invariant.** Calls with fewer than `2 ^ 31` increments never fault and keep
the tallies. -/
theorem run_tallies (calls : List Call) (bounded : calls.countP Call.isInc < 2 ^ 31) :
    ∃ stater, calls.foldlM (Call.apply strTime2Unixtime) (new support) = .ok stater ∧
      Tallies strTime2Unixtime support calls stater := by
  induction calls using List.reverseRecOn with
  | nil => exact ⟨new support, rfl, new_tallies strTime2Unixtime support⟩
  | append_singleton calls call ih =>
      rw [List.countP_append, List.countP_singleton] at bounded
      obtain ⟨stater, run, tallies⟩ := ih (by omega)
      simp only [List.foldlM_append, run, List.foldlM_cons, List.foldlM_nil, bind, Except.bind]
      cases call with
      | inc insertLevel application srcid issucc strTime =>
          rw [Call.isInc, if_pos rfl] at bounded
          obtain ⟨after, applied, result⟩ :=
            inc_tallies tallies insertLevel application srcid issucc strTime bounded
          exact ⟨after, by simp only [Call.apply, applied]; rfl, result⟩
      | addSupportType newtype newsrcid =>
          exact ⟨_, rfl, addSupportType_tallies tallies newtype newsrcid⟩

/-! ### What is reported -/

/-- The lists never count more than an `int` holds, so both paths report the count. -/
theorem pageViews_eq_counted {sk : Skiplist Int Int} {map : OrderedMap Int Int} {key : Str}
    (refines : sk.Refines map) (tallied : ∀ st ed, (map.between st ed).sum =
      counted strTime2Unixtime support calls key st ed)
    (bounded : calls.countP Call.isInc < 2 ^ 31) (st ed : Int) :
    pageViews sk st ed = .ok (counted strTime2Unixtime support calls key st ed : Int) := by
  by_cases single : st = ed
  · have stored := getD_find?_eq_counted tallied ed
    simp only [pageViews, single, ↓reduceIte, Skiplist.search_eq refines, bind, Except.bind]
    cases value : map.find? ed with
    | none => rw [← stored, value, Option.getD_none]
    | some pv => rw [← stored, value, Option.getD_some]
  · have nonnegative : ∀ value ∈ map.between st ed, 0 ≤ value := by
      intro value member
      obtain ⟨time, found, _, _⟩ := OrderedMap.exists_of_mem_between member
      have stored := getD_find?_eq_counted tallied time
      rw [found, Option.getD_some] at stored
      omega
    have small := counted_le strTime2Unixtime support calls key st ed
    simp only [pageViews, single, ↓reduceIte, Skiplist.rangeGet_eq refines, bind, Except.bind]
    rw [foldl_int32_eq_sum nonnegative le_rfl (by rw [tallied]; omega), tallied, zero_add]

variable (strTime2Unixtime support calls) in
/-- The result holds the count of each of the keys and nothing else. -/
def Reports (st ed : Int) (keys : Str → Prop) (res : OrderedMap Str Int) : Prop :=
  ∀ key, (keys key →
      res.find? key = some (counted strTime2Unixtime support calls key st ed : Int)) ∧
    (¬keys key → res.find? key = none)

theorem views_counted (tallies : Tallies strTime2Unixtime support calls stater)
    (bounded : calls.countP Call.isInc < 2 ^ 31) {key : Str}
    (has : HasCounter support calls key) (st ed : Int) :
    stater.Views st ed key (counted strTime2Unixtime support calls key st ed) := by
  obtain ⟨sk, found⟩ := Option.isSome_iff_exists.mp ((tallies.counters key).mpr has)
  obtain ⟨map, refines, tallied⟩ := tallies.tallied key sk found
  exact ⟨sk, found, pageViews_eq_counted refines tallied bounded st ed⟩

end Run

/-- **Page-view accounting.** After any calls with fewer than `2 ^ 31` increments,
`Cnt` reports for every registered application exactly the keys of its srcids, each
with the number of effective increments in the range. -/
theorem cnt_eq_counted (strTime2Unixtime : Str → Int) (support : OrderedMap Str (List Str))
    (calls : List Call) (bounded : calls.countP Call.isInc < 2 ^ 31) :
    ∃ stater, calls.foldlM (Call.apply strTime2Unixtime) (new support) = .ok stater ∧
      ∀ application, Supported support calls application → ∀ st ed, ∃ res,
        stater.cnt application st ed = .ok (some res) ∧
        (∀ key, (res.find? key).isSome ↔ ∃ srcid issucc,
          Registered support calls application srcid ∧
            counterKey application srcid issucc = key) ∧
        ∀ key count, res.find? key = some count →
          count = counted strTime2Unixtime support calls key st ed := by
  obtain ⟨stater, run, tallies⟩ := run_tallies strTime2Unixtime support calls bounded
  refine ⟨stater, run, fun application known st ed => ?_⟩
  obtain ⟨srcids, found⟩ := Option.isSome_iff_exists.mp ((tallies.supported application).mpr known)
  have listed := tallies.registered application srcids found
  obtain ⟨res, reported, lists⟩ := exists_cnt st ed
    (fun key => counted strTime2Unixtime support calls key st ed) found
    fun srcid member issucc => views_counted tallies bounded
      ⟨application, srcid, issucc, (listed srcid).mp member, rfl⟩ st ed
  have reports : Reports strTime2Unixtime support calls st ed (fun key =>
      ∃ srcid ∈ srcids, ∃ issucc, counterKey application srcid issucc = key) res := lists
  refine ⟨res, reported, ?_, ?_⟩
  · intro key
    simp only [← listed]
    refine ⟨?_, ?_⟩
    · intro present
      by_contra absent
      rw [(reports key).2 (by simpa using absent)] at present
      exact Bool.false_ne_true present
    · intro reported
      obtain ⟨srcid, issucc, member, named⟩ := reported
      rw [(reports key).1 ⟨srcid, member, issucc, named⟩, Option.isSome_some]
  · intro key count present
    by_cases among : ∃ srcid ∈ srcids, ∃ issucc, counterKey application srcid issucc = key
    · rw [(reports key).1 among, Option.some.injEq] at present
      exact present.symm
    · rw [(reports key).2 among] at present
      cases present

/-- A counter that is registered between two increments counts the second one only. -/
theorem cnt_counts_after_registration :
    ∃ stater res, [Call.inc 3 (bytes "sp") (bytes "1") true [],
        .addSupportType (bytes "sp") (bytes "1"),
        .inc 0 (bytes "sp") (bytes "1") true []].foldlM (Call.apply fun _ => 5)
          (new OrderedMap.empty) = .ok stater ∧
      stater.cnt (bytes "sp") 0 9 = .ok (some res) ∧ res.find? (bytes "sp1succ") = some 1 := by
  obtain ⟨stater, run, reported⟩ := cnt_eq_counted (fun _ => 5) OrderedMap.empty
    [.inc 3 (bytes "sp") (bytes "1") true [], .addSupportType (bytes "sp") (bytes "1"),
      .inc 0 (bytes "sp") (bytes "1") true []] (by decide)
  obtain ⟨res, counts, keys, values⟩ := reported (bytes "sp") (Or.inr ⟨bytes "1", by simp⟩) 0 9
  obtain ⟨count, found⟩ := Option.isSome_iff_exists.mp ((keys (bytes "sp1succ")).mpr
    ⟨bytes "1", true, Or.inr (by simp), by decide⟩)
  refine ⟨stater, res, run, counts, ?_⟩
  rw [found, values _ _ found]
  have unregistered : ¬HasCounter OrderedMap.empty [] (bytes "sp1succ") := by
    simp [HasCounter, Registered]
  have first := counted_append (fun _ => 5) OrderedMap.empty []
    (.inc 3 (bytes "sp") (bytes "1") true []) (bytes "sp1succ") 0 9
  have second := counted_append_addSupportType (fun _ => 5) OrderedMap.empty
    [.inc 3 (bytes "sp") (bytes "1") true []] (bytes "sp") (bytes "1") (bytes "sp1succ") 0 9
  have third := counted_append (fun _ => 5) OrderedMap.empty
    [.inc 3 (bytes "sp") (bytes "1") true [], .addSupportType (bytes "sp") (bytes "1")]
    (.inc 0 (bytes "sp") (bytes "1") true []) (bytes "sp1succ") 0 9
  rw [if_neg fun effective : Effective _ _ _ _ _ _ (.inc ..) => unregistered effective.2.1] at first
  rw [if_pos ⟨by decide, ⟨bytes "sp", bytes "1", true, Or.inr (by simp), by decide⟩, by decide,
    by decide⟩] at third
  simp only [List.nil_append, List.cons_append] at first second third
  rw [third, second, first]
  rfl

end PvStater

end LogProcess
