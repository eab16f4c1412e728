import LogProcess.Process.AllCheck

/-! # The bounds of the filter

The accesses of `all_check` to its eight lists. Seven loops end at the length of the list they
read. The loop over the sid list ends at the length of the resno list, so it reads behind the
sid list when that is shorter, unless an earlier block throws (`AllCheck.inBounds_iff`).
-/

namespace LogProcess.AllCheck

/-- Nothing is read behind the end of a list. -/
def InBounds (regex : Regex) (conds : CheckListCond) (item : OrderedMap Str Str) : Prop :=
  allCheck regex conds item ≠ .error .outOfRange

/-! ### Where the filter fails -/

/-- A loop that fails does so at one of its tests. -/
theorem exists_of_count_eq_error {test : Nat → Except CheckFault Bool} {bound : Nat}
    {fault : CheckFault} (failed : count test bound = .error fault) :
    ∃ i < bound, test i = .error fault := by
  induction bound with
  | zero => cases failed
  | succ bound ih =>
      rw [count, Fallible.bind_eq_error_iff] at failed
      obtain earlier | ⟨j, _, failed⟩ := failed
      · obtain ⟨i, before, tested⟩ := ih earlier
        exact ⟨i, Nat.lt_succ_of_lt before, tested⟩
      · rw [Fallible.bind_eq_error_iff] at failed
        obtain tested | ⟨holds, _, failed⟩ := failed
        · exact ⟨bound, Nat.lt_succ_self bound, tested⟩
        · cases failed

/-- A loop fails at the first test that does. -/
theorem count_eq_error {test : Nat → Except CheckFault Bool} {bound i : Nat} {fault : CheckFault}
    (before : i < bound) (failed : test i = .error fault)
    (passed : ∀ earlier < i, ∃ holds, test earlier = .ok holds) :
    count test bound = .error fault := by
  induction bound with
  | zero => cases before
  | succ bound ih =>
      rw [count, Fallible.bind_eq_error_iff]
      rcases Nat.lt_succ_iff_lt_or_eq.mp before with earlier | rfl
      · exact .inl (ih earlier)
      · obtain ⟨j, counted⟩ := (exists_count_iff test i).mpr passed
        exact .inr ⟨j, counted, (Fallible.bind_eq_error_iff ..).mpr (.inl failed)⟩

section Scan

variable {Value Condition : Type} {conds : List Condition} {bound : Nat}
  {test : Value → Condition → Except CheckFault Bool} {fault : CheckFault}

/-- A block that stays inside its list fails at one of the conditions. -/
theorem exists_of_scan_eq_error {value : Option Value} (inside : bound ≤ conds.length)
    (failed : scan conds value bound test = .error fault) :
    ∃ current cfg, test current cfg = .error fault := by
  cases value with
  | none => cases failed
  | some current =>
      rw [scan] at failed
      split at failed
      · cases failed
      · rw [Fallible.bind_eq_error_iff] at failed
        obtain counted | ⟨j, _, failed⟩ := failed
        · obtain ⟨i, before, tested⟩ := exists_of_count_eq_error counted
          have bounded : i < conds.length := before.trans_le inside
          have found : inRange conds[i]? = .ok conds[i] :=
            (inRange_eq_ok_iff ..).mpr (List.getElem?_eq_getElem _)
          rw [found] at tested
          exact ⟨current, _, tested⟩
        · cases failed

/-- A block that runs past its list reads behind the end of it. -/
theorem scan_eq_outOfRange {current : Value} (present : conds ≠ []) (short : conds.length < bound)
    (answers : ∀ cfg ∈ conds, ∃ holds, test current cfg = .ok holds) :
    scan conds (some current) bound test = .error .outOfRange := by
  rw [scan, if_neg fun zero => present (List.length_eq_zero_iff.mp zero),
    Fallible.bind_eq_error_iff]
  refine .inl (count_eq_error short ?_ fun earlier inside => ?_)
  · rw [List.getElem?_length]
    rfl
  · obtain ⟨holds, tested⟩ := answers conds[earlier] (List.getElem_mem inside)
    exact ⟨holds, (test_at_eq_ok_iff ..).mpr
      ⟨_, List.getElem?_eq_getElem inside, tested⟩⟩

end Scan

section Filter

variable {regex : Regex} {conds : CheckListCond} {item : OrderedMap Str Str}

/-- The filter fails as the first block that does not come to its end. -/
theorem allCheck_eq_error {before after : List Block} {block : Block} {fault : CheckFault}
    (shape : blocks regex conds item = before ++ block :: after)
    (ended : ∀ earlier ∈ before, ∃ result, earlier.scanned = .ok result)
    (failed : block.scanned = .error fault) : allCheck regex conds item = .error fault := by
  obtain ⟨maps, folded, _⟩ : ∃ maps, before.foldlM (fun maps block => block.mark maps)
      (Bitmap.new 0, Bitmap.new 0) = .ok maps ∧ Tracks ([] ++ before) maps := by
    refine Fallible.exists_foldlM_eq_ok (fun done maps block member tracked => ?_) tracks_nil
    have bit := bit_lt block (shape ▸ List.mem_append_left _ member)
    exact tracked.mark (bit.trans (by decide)) (ended block member)
  have marked : block.mark maps = .error fault :=
    (Fallible.bind_eq_error_iff ..).mpr (.inl failed)
  rw [allCheck, Fallible.bind_eq_error_iff]
  left
  rw [shape, List.foldlM_append, Fallible.bind_eq_error_iff]
  right
  refine ⟨maps, folded, ?_⟩
  rw [List.foldlM_cons, Fallible.bind_eq_error_iff]
  exact .inl marked

/-- The test of a query throws for its pattern only. -/
theorem sewordCheck_ne_outOfRange (query : Str) (cfg : ScanCondSeWord) :
    sewordCheck regex query cfg ≠ .error .outOfRange := by
  have pattern (regstr : Str) : regexCheck regex query regstr ≠ .error .outOfRange := by
    rw [regexCheck]
    split
    · exact fun failed => by cases failed
    · exact fun failed => by cases failed
  have answer (holds : Bool) : (pure holds : Except CheckFault Bool) ≠ .error .outOfRange :=
    fun failed => by cases failed
  rw [sewordCheck]
  split_ifs
  · exact answer true
  · exact answer true
  · exact answer true
  · exact answer true
  · exact pattern _
  · exact pattern _
  · exact answer false

/-- A block whose pattern is refused throws the fault of the pattern. -/
theorem sewordBlock_eq_error
    (fails : ¬∃ result, (sewordBlock regex conds item).scanned = .ok result) :
    (sewordBlock regex conds item).scanned = .error .regexError := by
  cases scanned : (sewordBlock regex conds item).scanned with
  | ok result => exact absurd ⟨result, scanned⟩ fails
  | error fault =>
      cases fault with
      | regexError => rfl
      | outOfRange =>
          obtain ⟨query, cfg, failed⟩ := exists_of_scan_eq_error le_rfl scanned
          exact absurd failed (sewordCheck_ne_outOfRange query cfg)

/-- A refused pattern is the fault of the whole filter. -/
theorem allCheck_eq_regexError
    (fails : ¬∃ result, (sewordBlock regex conds item).scanned = .ok result) :
    allCheck regex conds item = .error .regexError := by
  apply allCheck_eq_error (show blocks regex conds item = [srcidBlock conds item] ++
    sewordBlock regex conds item :: _ from rfl) _ (sewordBlock_eq_error fails)
  exact List.forall_mem_singleton.mpr (exists_scan_length ..)

/-- Behind a query whose patterns compile, the loop over a sid list that is too short leaves it. -/
theorem allCheck_eq_outOfRange
    (ended : ∃ result, (sewordBlock regex conds item).scanned = .ok result) {sid : Str}
    (found : item.find? (bytes "sid") = some sid) (present : conds.sid ≠ [])
    (short : conds.sid.length < conds.resno.length) :
    allCheck regex conds item = .error .outOfRange := by
  apply allCheck_eq_error (show blocks regex conds item =
    [srcidBlock conds item, sewordBlock regex conds item, lbsBlock conds item,
      cookieBlock conds item, clusterBlock conds item, resnoBlock conds item] ++
    sidBlock conds item :: [typeBlock conds item] from rfl)
  · simp only [List.forall_mem_cons, List.not_mem_nil, false_implies, implies_true, and_true]
    exact ⟨exists_scan_length .., ended, exists_scan_length .., exists_scan_length ..,
      exists_scan_length .., exists_scan_length ..⟩
  · rw [sidBlock, found]
    dsimp only
    exact scan_eq_outOfRange present short fun cfg _ => ⟨_, rfl⟩

/-- Whether the loop over the sid list is reached and stays inside it, in terms of the input: some
pattern that is needed is refused, or the record has no sid, or there is no condition for it,
or there are not more conditions for the resno. -/
def SidInside (regex : Regex) (conds : CheckListCond) (item : OrderedMap Str Str) : Prop :=
  (∃ query ∈ item.find? (bytes "query"), ∃ cfg ∈ conds.sewords,
      (Str.find query cfg.searchword 0).isSome ∧ ¬cfg.Compiles regex) ∨
    item.find? (bytes "sid") = none ∨ conds.sid = [] ∨ conds.resno.length ≤ conds.sid.length

/-- **Bounds.** The filter stays inside its lists exactly when it does not reach the loop over the
sid list or that list is as long as the loop reads. -/
theorem inBounds_iff : InBounds regex conds item ↔ SidInside regex conds item := by
  have compiles := exists_sewordBlock_iff regex conds item
  rw [InBounds]
  by_cases ended : ∃ result, (sewordBlock regex conds item).scanned = .ok result
  · have refused : ¬∃ query ∈ item.find? (bytes "query"), ∃ cfg ∈ conds.sewords,
        (Str.find query cfg.searchword 0).isSome ∧ ¬cfg.Compiles regex := by
      rintro ⟨query, found, cfg, member, needed, fails⟩
      exact fails (compiles.mp ended query found cfg member needed)
    rw [SidInside, or_iff_right refused]
    by_cases inside : item.find? (bytes "sid") = none ∨ conds.sid = [] ∨
        conds.resno.length ≤ conds.sid.length
    · refine iff_of_true ?_ inside
      obtain ⟨selected, answered⟩ := (exists_allCheck_iff regex conds item).mpr
        ⟨compiles.mp ended, fun sid found present => by
          rcases inside with none | empty | enough
          · rw [none] at found
            cases found
          · exact absurd empty present
          · exact enough⟩
      rw [answered]
      exact fun failed => by cases failed
    · refine iff_of_false (not_not_intro ?_) inside
      rw [not_or, not_or, not_le] at inside
      obtain ⟨exists_sid, present, short⟩ := inside
      obtain ⟨sid, found⟩ := Option.ne_none_iff_exists'.mp exists_sid
      exact allCheck_eq_outOfRange ended found present short
  · rw [allCheck_eq_regexError ended]
    refine iff_of_true (fun outside => by cases outside) (.inl ?_)
    by_contra all
    apply ended
    rw [compiles]
    intro query found cfg member needed
    by_contra fails
    exact all ⟨query, found, cfg, member, needed, fails⟩

end Filter

/-- Two conditions for the resno and one for the sid. -/
theorem not_inBounds_of_two_resnos :
    ¬InBounds ⟨fun _ => true, fun _ _ => some false⟩
      { sid := [⟨bytes "1", .condEqual⟩]
        resno := [⟨bytes "1", .condEqual⟩, ⟨bytes "2", .condEqual⟩] }
      (OrderedMap.empty.assign (bytes "sid") (bytes "1")) := by
  unfold InBounds
  decide +kernel

end LogProcess.AllCheck
