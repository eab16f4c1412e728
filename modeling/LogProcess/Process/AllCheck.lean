import LogProcess.Common.Bitmap
import LogProcess.Foundation.Fallible
import LogProcess.Foundation.OrderedMap
import LogProcess.Process.CheckAction

/-! # The filter of the stored records

`all_check` of `process/process_check_action.cc`. Eight blocks count over the lists of the
conditions. A block whose list is used sets its bit in one bitmap, and in another one when
its count is full. The filter selects a record when the bitmaps agree, that is, when no
count falls short (`AllCheck.allCheck_eq_ok_iff`). The blocks of the location, the sid
and the type count the conditions that do not hold, and the block of the sid runs to the
length of the resno list, so the filter is right only for some inputs
(`AllCheck.allCheck_selects_iff`).
-/

namespace LogProcess.AllCheck

def srcidBit : Nat := 0

def sewordBit : Nat := 1

def lbsBit : Nat := 2

def cookieBit : Nat := 3

def clusterBit : Nat := 4

def resnoBit : Nat := 5

def sidBit : Nat := 6

def typeBit : Nat := 7

def currentMax : Nat := 8

/-- An access that may be behind the end. -/
def inRange {Element : Type} (access : Option Element) : Except CheckFault Element :=
  access.elim (throw .outOfRange) pure

/-- The loop of a block, with the number of the tests before the bound that hold. -/
def count (test : Nat → Except CheckFault Bool) : Nat → Except CheckFault Nat
  | 0 => pure 0
  | i + 1 => do
      let j ← count test i
      let holds ← test i
      pure (if holds then j + 1 else j)

/-- A block up to its bits: nothing when the list is empty or the record lacks the
value, and otherwise whether the count is full. -/
def scan {Value Condition : Type} (conds : List Condition) (value : Option Value) (bound : Nat)
    (test : Value → Condition → Except CheckFault Bool) : Except CheckFault (Option Bool) :=
  match value with
  | none => pure none
  | some value =>
      if conds.length = 0 then
        pure none
      else do
        let j ← count (fun i => do test value (← inRange conds[i]?)) bound
        pure (some (decide (j = bound)))

/-- A block, with its bit. -/
structure Block where
  bit : Nat
  scanned : Except CheckFault (Option Bool)

/-- What a block does to the two bitmaps. -/
def Block.mark (block : Block) (maps : Bitmap × Bitmap) :
    Except CheckFault (Bitmap × Bitmap) := do
  match ← block.scanned with
  | none => pure maps
  | some full =>
      let bm1 ← inRange (maps.1.set block.bit)
      let bm2 ← if full then inRange (maps.2.set block.bit) else pure maps.2
      pure (bm1, bm2)

section Model

variable (regex : Regex) (conds : CheckListCond) (item : OrderedMap Str Str)

def srcidBlock : Block where
  bit := srcidBit
  scanned := scan conds.srcids (item.find? (bytes "srcid")) conds.srcids.length
    fun srcid cfg => pure (srcidCheck srcid cfg)

def sewordBlock : Block where
  bit := sewordBit
  scanned := scan conds.sewords (item.find? (bytes "query")) conds.sewords.length
    fun query cfg => sewordCheck regex query cfg

/-- The province and the city of the record, if it has both. -/
def location : Option (Str × Str) := do
  let prov ← item.find? (bytes "prov")
  let city ← item.find? (bytes "city")
  pure (prov, city)

/-- The conditions that do not hold are counted. -/
def lbsBlock : Block where
  bit := lbsBit
  scanned := scan conds.lbs (location item) conds.lbs.length
    fun location cfg => pure !(lbsCheck location.1 location.2 cfg)

def cookieBlock : Block where
  bit := cookieBit
  scanned := scan conds.cookie (item.find? (bytes "cookie")) conds.cookie.length
    fun cookie cfg => pure (cookieCheck cookie cfg)

def clusterBlock : Block where
  bit := clusterBit
  scanned := scan conds.cluster (item.find? (bytes "cluster")) conds.cluster.length
    fun cluster cfg => pure (clusterCheck cluster cfg)

def resnoBlock : Block where
  bit := resnoBit
  scanned := scan conds.resno (item.find? (bytes "resno")) conds.resno.length
    fun resno cfg => pure (resnoCheck resno cfg)

/-- The loop over the sid list ends at the length of the resno list, and the conditions
that do not hold are counted. -/
def sidBlock : Block where
  bit := sidBit
  scanned := scan conds.sid (item.find? (bytes "sid")) conds.resno.length
    fun sid cfg => pure !(sidCheck sid cfg)

/-- The conditions that do not hold are counted. -/
def typeBlock : Block where
  bit := typeBit
  scanned := scan conds.type (item.find? (bytes "type")) conds.type.length
    fun type cfg => pure !(typeCheck type cfg)

def blocks : List Block :=
  [srcidBlock conds item, sewordBlock regex conds item, lbsBlock conds item,
    cookieBlock conds item, clusterBlock conds item, resnoBlock conds item,
    sidBlock conds item, typeBlock conds item]

/-- The last loop compares the bitmaps up to the first difference. -/
def compare (maps : Bitmap × Bitmap) : Except CheckFault Bool :=
  (List.range currentMax).allM fun i => do
    let first ← inRange (maps.1.get i)
    let second ← inRange (maps.2.get i)
    pure (first == second)

end Model

end LogProcess.AllCheck

namespace LogProcess

/-- The blocks one after another, and then the comparison. -/
def allCheck (regex : Regex) (conds : CheckListCond) (item : OrderedMap Str Str) :
    Except CheckFault Bool := do
  let maps ← (AllCheck.blocks regex conds item).foldlM (fun maps block => block.mark maps)
    (Bitmap.new 0, Bitmap.new 0)
  AllCheck.compare maps

namespace AllCheck

/-! ### Counting -/

theorem count_succ_eq_ok_iff (test : Nat → Except CheckFault Bool) (i j : Nat) :
    count test (i + 1) = .ok j ↔ ∃ previous holds, count test i = .ok previous ∧
      test i = .ok holds ∧ (if holds then previous + 1 else previous) = j := by
  simp only [count, Fallible.bind_eq_ok_iff, Fallible.pure_eq_ok_iff, exists_and_left]

theorem count_le {test : Nat → Except CheckFault Bool} {bound j : Nat}
    (counted : count test bound = .ok j) : j ≤ bound := by
  induction bound generalizing j with
  | zero =>
      cases counted
      exact le_rfl
  | succ i ih =>
      obtain ⟨previous, holds, before, _, rfl⟩ := (count_succ_eq_ok_iff ..).mp counted
      have bounded := ih before
      split <;> omega

/-- Counting succeeds exactly when all tests do. -/
theorem exists_count_iff (test : Nat → Except CheckFault Bool) (bound : Nat) :
    (∃ j, count test bound = .ok j) ↔ ∀ i < bound, ∃ holds, test i = .ok holds := by
  induction bound with
  | zero => exact iff_of_true ⟨0, rfl⟩ fun i before => absurd before (Nat.not_lt_zero i)
  | succ i ih =>
      rw [Nat.forall_lt_succ_right, ← ih]
      refine ⟨?_, ?_⟩
      · intro completed
        obtain ⟨j, counted⟩ := completed
        obtain ⟨previous, holds, before, tested, _⟩ := (count_succ_eq_ok_iff ..).mp counted
        exact ⟨⟨previous, before⟩, holds, tested⟩
      · intro completed
        obtain ⟨⟨previous, before⟩, holds, tested⟩ := completed
        exact ⟨_, (count_succ_eq_ok_iff ..).mpr ⟨previous, holds, before, tested, rfl⟩⟩

/-- The count is full exactly when all tests hold. -/
theorem count_eq_bound_iff (test : Nat → Except CheckFault Bool) (bound : Nat) :
    count test bound = .ok bound ↔ ∀ i < bound, test i = .ok true := by
  induction bound with
  | zero => exact iff_of_true rfl fun i before => absurd before (Nat.not_lt_zero i)
  | succ i ih =>
      rw [Nat.forall_lt_succ_right, ← ih, count_succ_eq_ok_iff]
      refine ⟨?_, ?_⟩
      · intro counting
        obtain ⟨previous, holds, before, tested, full⟩ := counting
        -- a count of `i` tests that is one short cannot become full
        have bounded := count_le before
        cases holds with
        | false =>
            simp only [Bool.false_eq_true, ↓reduceIte] at full
            omega
        | true =>
            simp only [↓reduceIte, Nat.add_right_cancel_iff] at full
            exact ⟨full ▸ before, tested⟩
      · intro all
        obtain ⟨before, tested⟩ := all
        exact ⟨i, true, before, tested, rfl⟩

/-! ### Scanning -/

section Scan

variable {Value Condition : Type} (conds : List Condition) (value : Option Value) (bound : Nat)
  (test : Value → Condition → Except CheckFault Bool)

theorem inRange_eq_ok_iff {Element : Type} (access : Option Element) (element : Element) :
    inRange access = .ok element ↔ access = some element := by
  cases access with
  | none => exact iff_of_false (fun answered => by cases answered) (Option.some_ne_none _).symm
  | some found =>
      rw [inRange, Option.elim_some, Fallible.pure_eq_ok_iff, Option.some.injEq]

/-- The test of a place in the list. -/
theorem test_at_eq_ok_iff (current : Value) (i : Nat) (holds : Bool) :
    (do test current (← inRange conds[i]?)) = .ok holds ↔
      ∃ cfg, conds[i]? = some cfg ∧ test current cfg = .ok holds := by
  simp only [Fallible.bind_eq_ok_iff, inRange_eq_ok_iff]

/-- The places before the bound are those of the first conditions of the list. -/
theorem forall_places_iff (property : Condition → Prop) :
    (∀ i < bound, ∃ cfg, conds[i]? = some cfg ∧ property cfg) ↔
      bound ≤ conds.length ∧ ∀ cfg ∈ conds.take bound, property cfg := by
  refine ⟨?_, ?_⟩
  · intro places
    have enough : bound ≤ conds.length := by
      by_contra short
      obtain ⟨cfg, behind, _⟩ := places conds.length (by omega)
      rw [List.getElem?_length] at behind
      cases behind
    refine ⟨enough, fun cfg member => ?_⟩
    obtain ⟨i, before, rfl⟩ := List.mem_take_iff_getElem.mp member
    obtain ⟨found, at_place, holds⟩ := places i (by omega)
    rw [List.getElem?_eq_getElem (by omega), Option.some.injEq] at at_place
    exact at_place ▸ holds
  · rintro ⟨enough, first⟩ i before
    have inside : i < conds.length := by omega
    exact ⟨conds[i], List.getElem?_eq_getElem inside,
      first _ (List.mem_take_iff_getElem.mpr ⟨i, by omega, rfl⟩)⟩

theorem scan_some_eq_ok_iff (current : Value) (present : conds ≠ []) (result : Option Bool) :
    scan conds (some current) bound test = .ok result ↔
      ∃ j, count (fun i => do test current (← inRange conds[i]?)) bound = .ok j ∧
        some (decide (j = bound)) = result := by
  rw [scan, if_neg fun zero => present (List.length_eq_zero_iff.mp zero),
    Fallible.bind_eq_ok_iff]
  simp only [Fallible.pure_eq_ok_iff]

theorem scan_skipped (skipped : conds = [] ∨ value = none) :
    scan conds value bound test = .ok none := by
  rcases skipped with rfl | rfl
  · cases value <;> rfl
  · rfl

/-- A block comes to its end exactly when it is skipped, or its list has as many
conditions as the loop reads and none of them fails. -/
theorem exists_scan_iff :
    (∃ result, scan conds value bound test = .ok result) ↔
      ∀ current ∈ value, conds ≠ [] → bound ≤ conds.length ∧
        ∀ cfg ∈ conds.take bound, ∃ holds, test current cfg = .ok holds := by
  by_cases skipped : conds = [] ∨ value = none
  · refine iff_of_true ⟨none, scan_skipped conds value bound test skipped⟩ ?_
    rintro current rfl present
    rcases skipped with empty | absent
    · exact absurd empty present
    · cases absent
  · obtain ⟨present, found⟩ := not_or.mp skipped
    obtain ⟨current, rfl⟩ := Option.ne_none_iff_exists'.mp found
    have counted := exists_count_iff (fun i => do test current (← inRange conds[i]?)) bound
    simp only [test_at_eq_ok_iff, exists_comm (α := Bool), exists_and_left] at counted
    rw [forall_places_iff] at counted
    simp only [scan_some_eq_ok_iff conds bound test current present, Option.mem_some_iff,
      forall_eq', ← counted, present, ne_eq, not_false_eq_true, forall_const]
    refine ⟨?_, ?_⟩
    · intro ended
      obtain ⟨_, j, full, _⟩ := ended
      exact ⟨j, full⟩
    · intro completed
      obtain ⟨j, full⟩ := completed
      exact ⟨_, j, full, rfl⟩

/-- A block that comes to its end has a full count or is skipped exactly when the
conditions it reads pass the test. -/
theorem scan_ne_false_iff (ended : ∃ result, scan conds value bound test = .ok result) :
    scan conds value bound test ≠ .ok (some false) ↔
      ∀ current ∈ value, ∀ cfg ∈ conds.take bound, test current cfg = .ok true := by
  by_cases skipped : conds = [] ∨ value = none
  · apply iff_of_true
    · rw [scan_skipped conds value bound test skipped]
      simp only [ne_eq, Except.ok.injEq, reduceCtorEq, not_false_eq_true]
    · rintro current rfl cfg member
      rcases skipped with rfl | absent
      · simp only [List.take_nil, List.not_mem_nil] at member
      · cases absent
  · obtain ⟨present, found⟩ := not_or.mp skipped
    obtain ⟨current, rfl⟩ := Option.ne_none_iff_exists'.mp found
    have enough := ((exists_scan_iff ..).mp ended current rfl present).1
    have full := count_eq_bound_iff (fun i => do test current (← inRange conds[i]?)) bound
    simp only [test_at_eq_ok_iff] at full
    rw [forall_places_iff, and_iff_right enough] at full
    obtain ⟨result, scanned⟩ := ended
    obtain ⟨j, counted, rfl⟩ := (scan_some_eq_ok_iff conds bound test current present _).mp scanned
    simp only [scanned, Option.mem_some_iff, forall_eq', ← full, counted, ne_eq, Except.ok.injEq,
      Option.some.injEq, decide_eq_false_iff_not, not_not]

/-- A block with a test that does not fail comes to its end when its list is long enough. -/
theorem exists_scan_pure_iff (holds : Value → Condition → Bool) :
    (∃ result, scan conds value bound (fun current cfg => pure (holds current cfg)) =
        .ok result) ↔ ∀ current ∈ value, conds ≠ [] → bound ≤ conds.length := by
  rw [exists_scan_iff]
  refine forall₂_congr fun current found => imp_congr_right fun present => and_iff_left ?_
  exact fun cfg member => ⟨holds current cfg, rfl⟩

theorem scan_pure_ne_false_iff (holds : Value → Condition → Bool)
    (enough : ∀ current ∈ value, conds ≠ [] → bound ≤ conds.length) :
    scan conds value bound (fun current cfg => pure (holds current cfg)) ≠ .ok (some false) ↔
      ∀ current ∈ value, ∀ cfg ∈ conds.take bound, holds current cfg = true := by
  rw [scan_ne_false_iff _ _ _ _ ((exists_scan_pure_iff ..).mpr enough)]
  simp only [Fallible.pure_eq_ok_iff]

end Scan

/-! ### The two bitmaps -/

/-- The bitmaps after some blocks: the first holds the bits of the blocks that were not
skipped, and the second those of the blocks with a full count. -/
structure Tracks (done : List Block) (maps : Bitmap × Bitmap) : Prop where
  first_n : maps.1.n = 0
  second_n : maps.2.n = 0
  first_holds : ∀ i, maps.1.Holds i ↔
    ∃ block ∈ done, block.bit = i ∧ ∃ full, block.scanned = .ok (some full)
  second_holds : ∀ i, maps.2.Holds i ↔
    ∃ block ∈ done, block.bit = i ∧ block.scanned = .ok (some true)

theorem tracks_nil : Tracks [] (Bitmap.new 0, Bitmap.new 0) where
  first_n := rfl
  second_n := rfl
  first_holds := fun i => iff_of_false (Bitmap.not_holds_new 0 i) (by simp)
  second_holds := fun i => iff_of_false (Bitmap.not_holds_new 0 i) (by simp)

theorem covers_of_lt {bitmap : Bitmap} (size : bitmap.n = 0) {i : Nat} (small : i < 32) :
    bitmap.Covers i := by
  rw [Bitmap.Covers, size]
  omega

theorem exists_mem_append_singleton (done : List Block) (block : Block)
    (property : Block → Prop) :
    (∃ other ∈ done ++ [block], property other) ↔
      (∃ other ∈ done, property other) ∨ property block := by
  simp only [List.mem_append, List.mem_singleton, or_and_right, exists_or, exists_eq_left]

/-- A block that comes to its end marks the bitmaps. -/
theorem Tracks.mark {done : List Block} {maps : Bitmap × Bitmap} (tracked : Tracks done maps)
    {block : Block} (small : block.bit < 32) (ended : ∃ result, block.scanned = .ok result) :
    ∃ next, block.mark maps = .ok next ∧ Tracks (done ++ [block]) next := by
  obtain ⟨result, scanned⟩ := ended
  obtain ⟨bm1, set_first, first_n, first_holds⟩ :=
    Bitmap.exists_set (covers_of_lt tracked.first_n small)
  obtain ⟨bm2, set_second, second_n, second_holds⟩ :=
    Bitmap.exists_set (covers_of_lt tracked.second_n small)
  rcases result with _ | _ | _
  · have marked : block.mark maps = .ok maps := by
      rw [Block.mark, scanned]
      rfl
    refine ⟨maps, marked, tracked.first_n, tracked.second_n, fun i => ?_, fun i => ?_⟩
    · rw [exists_mem_append_singleton, ← tracked.first_holds]
      simp [scanned]
    · rw [exists_mem_append_singleton, ← tracked.second_holds]
      simp [scanned]
  · have marked : block.mark maps = .ok (bm1, maps.2) := by
      rw [Block.mark, scanned, set_first]
      rfl
    refine ⟨_, marked, first_n.trans tracked.first_n, tracked.second_n, fun i => ?_,
      fun i => ?_⟩
    · rw [exists_mem_append_singleton, ← tracked.first_holds, first_holds]
      simp [scanned, or_comm, eq_comm]
    · rw [exists_mem_append_singleton, ← tracked.second_holds]
      simp [scanned]
  · have marked : block.mark maps = .ok (bm1, bm2) := by
      rw [Block.mark, scanned, set_first, set_second]
      rfl
    refine ⟨_, marked, first_n.trans tracked.first_n, second_n.trans tracked.second_n,
      fun i => ?_, fun i => ?_⟩
    · rw [exists_mem_append_singleton, ← tracked.first_holds, first_holds]
      simp [scanned, or_comm, eq_comm]
    · rw [exists_mem_append_singleton, ← tracked.second_holds, second_holds]
      simp [scanned, or_comm, eq_comm]

/-- A block that fails in its scan fails on all bitmaps. -/
theorem Block.mark_ne_ok {block : Block} (fails : ¬∃ result, block.scanned = .ok result)
    (maps next : Bitmap × Bitmap) : block.mark maps ≠ .ok next := by
  intro marked
  obtain ⟨result, scanned, _⟩ := (Fallible.bind_eq_ok_iff ..).mp marked
  exact fails ⟨result, scanned⟩

/-- The bits of a tracked state: they differ exactly for a block with a count that is not
full, when no two blocks have one bit. -/
theorem Tracks.holds_iff_holds {done : List Block} {maps : Bitmap × Bitmap}
    (tracked : Tracks done maps) (distinct : (done.map Block.bit).Nodup) (i : Nat) :
    (maps.1.Holds i ↔ maps.2.Holds i) ↔
      ∀ block ∈ done, block.bit = i → block.scanned ≠ .ok (some false) := by
  rw [tracked.first_holds, tracked.second_holds]
  refine ⟨?_, ?_⟩
  · rintro agree block member rfl short
    obtain ⟨other, member', same, full⟩ := agree.mp ⟨block, member, rfl, false, short⟩
    obtain rfl := List.inj_on_of_nodup_map distinct member' member same
    rw [short] at full
    cases full
  · intro full
    refine ⟨?_, ?_⟩
    · intro marking
      obtain ⟨block, member, at_bit, holds, scanned⟩ := marking
      cases holds with
      | false => exact absurd scanned (full block member at_bit)
      | true => exact ⟨block, member, at_bit, scanned⟩
    · intro marking
      obtain ⟨block, member, at_bit, scanned⟩ := marking
      exact ⟨block, member, at_bit, true, scanned⟩

/-- After blocks with different bits the bitmaps agree exactly when no block that was not
skipped has a count that is not full. -/
theorem Tracks.compare {done : List Block} {maps : Bitmap × Bitmap} (tracked : Tracks done maps)
    (distinct : (done.map Block.bit).Nodup) (small : ∀ block ∈ done, block.bit < currentMax) :
    Fallible.Answers (compare maps) (∀ block ∈ done, block.scanned ≠ .ok (some false)) := by
  have compared : ∀ i ∈ List.range currentMax, Fallible.Answers (do
      let first ← inRange (maps.1.get i)
      let second ← inRange (maps.2.get i)
      pure (first == second)) (maps.1.Holds i ↔ maps.2.Holds i) := by
    intro i member
    have inside : i < 32 := (List.mem_range.mp member).trans (by decide)
    have first_covers := covers_of_lt tracked.first_n inside
    have second_covers := covers_of_lt tracked.second_n inside
    rw [← Bitmap.get_eq_get_iff first_covers second_covers]
    obtain ⟨_, _, first⟩ := Bitmap.get_eq first_covers
    obtain ⟨_, _, second⟩ := Bitmap.get_eq second_covers
    rw [first, second, Option.some.injEq]
    exact (Fallible.Answers.pure _).congr beq_iff_eq
  apply (Fallible.Answers.allM compared).congr
  simp only [tracked.holds_iff_holds distinct]
  refine ⟨?_, ?_⟩
  · intro agree block member
    exact agree block.bit (List.mem_range.mpr (small block member)) block member rfl
  · intro full i _ block member _
    exact full block member

theorem nodup_bits (regex : Regex) (conds : CheckListCond) (item : OrderedMap Str Str) :
    ((blocks regex conds item).map Block.bit).Nodup :=
  (by decide : [srcidBit, sewordBit, lbsBit, cookieBit, clusterBit, resnoBit, sidBit,
    typeBit].Nodup)

theorem bit_lt {regex : Regex} {conds : CheckListCond} {item : OrderedMap Str Str} :
    ∀ block ∈ blocks regex conds item, block.bit < currentMax := by
  intro block member
  have bit_mem : block.bit ∈ [srcidBit, sewordBit, lbsBit, cookieBit, clusterBit, resnoBit,
      sidBit, typeBit] := List.mem_map_of_mem member
  revert bit_mem
  generalize block.bit = bit
  revert bit
  decide

/-- **The filter answers exactly when all blocks come to their end, and it selects the
record when no block that is not skipped has a count that is not full.** -/
theorem allCheck_eq_ok_iff (regex : Regex) (conds : CheckListCond) (item : OrderedMap Str Str)
    (selected : Bool) :
    allCheck regex conds item = .ok selected ↔
      (∀ block ∈ blocks regex conds item, ∃ result, block.scanned = .ok result) ∧
        (selected = true ↔
          ∀ block ∈ blocks regex conds item, block.scanned ≠ .ok (some false)) := by
  by_cases ended : ∀ block ∈ blocks regex conds item, ∃ result, block.scanned = .ok result
  · obtain ⟨maps, folded, tracked⟩ : ∃ maps, (blocks regex conds item).foldlM
        (fun maps block => block.mark maps) (Bitmap.new 0, Bitmap.new 0) = .ok maps ∧
          Tracks ([] ++ blocks regex conds item) maps :=
      Fallible.exists_foldlM_eq_ok (fun done maps block member tracked =>
        tracked.mark ((bit_lt block member).trans (by decide)) (ended block member)) tracks_nil
    rw [List.nil_append] at tracked
    obtain ⟨answer, compared, answer_iff⟩ :=
      tracked.compare (nodup_bits regex conds item) bit_lt
    have answered : allCheck regex conds item = .ok answer :=
      (Fallible.bind_eq_ok_iff ..).mpr ⟨maps, folded, compared⟩
    rw [answered, Except.ok.injEq, and_iff_right ended, ← answer_iff, Bool.eq_iff_iff]
    exact iff_comm
  · refine iff_of_false (fun answered => ?_) fun answered => ended answered.1
    obtain ⟨block, fails⟩ := not_forall.mp ended
    obtain ⟨member, fails⟩ := Classical.not_imp.mp fails
    obtain ⟨maps, folded, _⟩ := (Fallible.bind_eq_ok_iff ..).mp answered
    exact Fallible.foldlM_ne_ok member (Block.mark_ne_ok fails) _ maps folded

/-! ### When the filter is right -/

section Meaning

variable {Value Condition : Type}

/-- All conditions of a list hold for the value of the record, if the record has it. -/
def Satisfied (value : Option Value) (conds : List Condition)
    (check : Value → Condition → Prop) : Prop :=
  ∀ current ∈ value, ∀ cfg ∈ conds, check current cfg

/-- A condition of a list holds for the value of the record. -/
def Meets (value : Option Value) (conds : List Condition)
    (check : Value → Condition → Prop) : Prop :=
  ∃ current ∈ value, ∃ cfg ∈ conds, check current cfg

/-- The list is not empty, and the record has the value. -/
def Applies (value : Option Value) (conds : List Condition) : Prop :=
  conds ≠ [] ∧ value ≠ none

variable (regex : Regex) (conds : CheckListCond) (item : OrderedMap Str Str)

/-- The conditions of the five lists whose blocks count the conditions that hold. -/
structure SelectsPlain : Prop where
  srcids : Satisfied (item.find? (bytes "srcid")) conds.srcids
    fun srcid cfg => srcidCheck srcid cfg = true
  sewords : Satisfied (item.find? (bytes "query")) conds.sewords
    fun query cfg => sewordCheck regex query cfg = .ok true
  cookie : Satisfied (item.find? (bytes "cookie")) conds.cookie
    fun cookie cfg => cookieCheck cookie cfg = true
  cluster : Satisfied (item.find? (bytes "cluster")) conds.cluster
    fun cluster cfg => clusterCheck cluster cfg = true
  resno : Satisfied (item.find? (bytes "resno")) conds.resno
    fun resno cfg => resnoCheck resno cfg = true

/-- The conditions of the other three lists. -/
structure SelectsNegated : Prop where
  lbs : Satisfied (location item) conds.lbs
    fun location cfg => lbsCheck location.1 location.2 cfg = true
  sid : Satisfied (item.find? (bytes "sid")) conds.sid fun sid cfg => sidCheck sid cfg = true
  type : Satisfied (item.find? (bytes "type")) conds.type
    fun type cfg => typeCheck type cfg = true

/-- What the filter is for: for each of the eight lists, all conditions hold for the value
of the record, if the record has it. -/
structure Selects : Prop extends SelectsPlain regex conds item, SelectsNegated conds item

/-- A condition of the location or the type, or one of the first conditions of the sid,
holds for the record. -/
def MeetsNegated : Prop :=
  Meets (location item) conds.lbs (fun location cfg => lbsCheck location.1 location.2 cfg = true) ∨
    Meets (item.find? (bytes "sid")) (conds.sid.take conds.resno.length)
      (fun sid cfg => sidCheck sid cfg = true) ∨
    Meets (item.find? (bytes "type")) conds.type (fun type cfg => typeCheck type cfg = true)

/-- The location and the type are not used, and the sid is not used either, or none of its
conditions is read and all of them hold. -/
def NegatedIdle : Prop :=
  ¬Applies (location item) conds.lbs ∧ ¬Applies (item.find? (bytes "type")) conds.type ∧
    (¬Applies (item.find? (bytes "sid")) conds.sid ∨ conds.resno = [] ∧
      Satisfied (item.find? (bytes "sid")) conds.sid fun sid cfg => sidCheck sid cfg = true)

/-- The inputs for which the filter is right. -/
structure Right : Prop where
  /-- No pattern that is needed is refused. -/
  compiles : ∀ query ∈ item.find? (bytes "query"), ∀ cfg ∈ conds.sewords,
    (Str.find query cfg.searchword 0).isSome → cfg.Compiles regex
  /-- The loop over the sid list stays inside it. -/
  inside : ∀ sid ∈ item.find? (bytes "sid"), conds.sid ≠ [] →
    conds.resno.length ≤ conds.sid.length
  /-- The record is refused by another list, or the three lists with negated tests do
  nothing, or among them a condition fails and one that is read holds. -/
  negated : ¬SelectsPlain regex conds item ∨ NegatedIdle conds item ∨
    (¬SelectsNegated conds item ∧ MeetsNegated conds item)

theorem forall_blocks_iff (property : Block → Prop) :
    (∀ block ∈ blocks regex conds item, property block) ↔
      property (srcidBlock conds item) ∧ property (sewordBlock regex conds item) ∧
      property (lbsBlock conds item) ∧ property (cookieBlock conds item) ∧
      property (clusterBlock conds item) ∧ property (resnoBlock conds item) ∧
      property (sidBlock conds item) ∧ property (typeBlock conds item) := by
  simp only [blocks, List.forall_mem_cons, List.not_mem_nil, false_implies, implies_true,
    and_true]

/-- A block that reads its whole list with a test that does not fail comes to its end. -/
theorem exists_scan_length (list : List Condition) (value : Option Value)
    (holds : Value → Condition → Bool) :
    ∃ result, scan list value list.length (fun current cfg => pure (holds current cfg)) =
      .ok result :=
  (exists_scan_pure_iff ..).mpr fun _ _ _ => le_rfl

/-- The block of the queries comes to its end when no pattern that is needed is refused. -/
theorem exists_sewordBlock_iff :
    (∃ result, (sewordBlock regex conds item).scanned = .ok result) ↔
      ∀ query ∈ item.find? (bytes "query"), ∀ cfg ∈ conds.sewords,
        (Str.find query cfg.searchword 0).isSome → cfg.Compiles regex := by
  rw [sewordBlock, exists_scan_iff]
  simp only [List.take_length, le_rfl, true_and, exists_sewordCheck_iff]
  refine forall₂_congr fun query found => ⟨fun all cfg member => ?_, fun all _ => all⟩
  exact all (List.ne_nil_of_mem member) cfg member

/-- All blocks come to their end exactly when no pattern that is needed is refused and
the loop over the sid list stays inside it. -/
theorem ended_iff :
    (∀ block ∈ blocks regex conds item, ∃ result, block.scanned = .ok result) ↔
      (∀ query ∈ item.find? (bytes "query"), ∀ cfg ∈ conds.sewords,
        (Str.find query cfg.searchword 0).isSome → cfg.Compiles regex) ∧
      (∀ sid ∈ item.find? (bytes "sid"), conds.sid ≠ [] →
        conds.resno.length ≤ conds.sid.length) := by
  rw [forall_blocks_iff, exists_sewordBlock_iff, sidBlock, exists_scan_pure_iff, srcidBlock,
    lbsBlock, cookieBlock, clusterBlock, resnoBlock, typeBlock]
  simp only [exists_scan_length, true_and, and_true]

/-- The filter answers exactly when no pattern that is needed is refused and the loop over the sid
list stays inside it. -/
theorem exists_allCheck_iff :
    (∃ selected, allCheck regex conds item = .ok selected) ↔
      (∀ query ∈ item.find? (bytes "query"), ∀ cfg ∈ conds.sewords,
        (Str.find query cfg.searchword 0).isSome → cfg.Compiles regex) ∧
      (∀ sid ∈ item.find? (bytes "sid"), conds.sid ≠ [] →
        conds.resno.length ≤ conds.sid.length) := by
  classical
  simp only [allCheck_eq_ok_iff, ← ended_iff]
  exact ⟨fun answered => answered.choose_spec.1,
    fun ended => ⟨decide _, ended, decide_eq_true_iff⟩⟩

theorem not_meets_iff (value : Option Value) (list : List Condition)
    (check : Value → Condition → Bool) :
    ¬Meets value list (fun current cfg => check current cfg = true) ↔
      ∀ current ∈ value, ∀ cfg ∈ list, (!check current cfg) = true := by
  simp only [Meets, not_exists, not_and, Bool.not_eq_true, Bool.not_eq_true']

/-- The count of a plain block is full exactly when its conditions are satisfied. -/
theorem scan_length_ne_false_iff (list : List Condition) (value : Option Value)
    (holds : Value → Condition → Bool) :
    scan list value list.length (fun current cfg => pure (holds current cfg)) ≠
        .ok (some false) ↔
      Satisfied value list fun current cfg => holds current cfg = true := by
  rw [scan_pure_ne_false_iff _ _ _ _ fun _ _ _ => le_rfl, List.take_length, Satisfied]

/-- The count of a negated block is full exactly when no condition it reads holds. -/
theorem scan_not_ne_false_iff {list : List Condition} {value : Option Value} {bound : Nat}
    (check : Value → Condition → Bool)
    (enough : ∀ current ∈ value, list ≠ [] → bound ≤ list.length) :
    scan list value bound (fun current cfg => pure !(check current cfg)) ≠ .ok (some false) ↔
      ¬Meets value (list.take bound) fun current cfg => check current cfg = true := by
  rw [scan_pure_ne_false_iff _ _ _ _ enough, not_meets_iff]

/-- The counts are full exactly when the five plain lists are satisfied and no condition
that a negated block reads holds. -/
theorem full_iff
    (ended : ∀ block ∈ blocks regex conds item, ∃ result, block.scanned = .ok result) :
    (∀ block ∈ blocks regex conds item, block.scanned ≠ .ok (some false)) ↔
      SelectsPlain regex conds item ∧ ¬MeetsNegated conds item := by
  have sewords_ended := ((forall_blocks_iff regex conds item _).mp ended).2.1
  have inside := ((ended_iff regex conds item).mp ended).2
  rw [forall_blocks_iff, srcidBlock, scan_length_ne_false_iff, sewordBlock,
    scan_ne_false_iff _ _ _ _ sewords_ended, List.take_length, lbsBlock,
    scan_not_ne_false_iff (fun location : Str × Str => lbsCheck location.1 location.2)
      fun _ _ _ => le_rfl,
    List.take_length, cookieBlock, scan_length_ne_false_iff, clusterBlock,
    scan_length_ne_false_iff, resnoBlock, scan_length_ne_false_iff, sidBlock,
    scan_not_ne_false_iff sidCheck inside, typeBlock,
    scan_not_ne_false_iff typeCheck fun _ _ _ => le_rfl, List.take_length, MeetsNegated,
    not_or, not_or]
  refine ⟨?_, ?_⟩
  · intro verdicts
    obtain ⟨srcids, sewords, lbs, cookie, cluster, resno, sid, type⟩ := verdicts
    exact ⟨⟨srcids, sewords, cookie, cluster, resno⟩, lbs, sid, type⟩
  · intro verdicts
    obtain ⟨⟨srcids, sewords, cookie, cluster, resno⟩, lbs, sid, type⟩ := verdicts
    exact ⟨srcids, sewords, lbs, cookie, cluster, resno, sid, type⟩

/-- A list that is satisfied and of which no condition holds is not used. -/
theorem not_applies_of_satisfied {value : Option Value} {list : List Condition}
    {check : Value → Condition → Prop} (satisfied : Satisfied value list check)
    (unmet : ¬Meets value list check) : ¬Applies value list := by
  intro applied
  obtain ⟨present, found⟩ := applied
  obtain ⟨current, found⟩ := Option.ne_none_iff_exists'.mp found
  obtain ⟨cfg, member⟩ := List.exists_mem_of_ne_nil list present
  exact unmet ⟨current, found, cfg, member, satisfied current found cfg member⟩

theorem satisfied_of_not_applies {value : Option Value} {list : List Condition}
    (check : Value → Condition → Prop) (unused : ¬Applies value list) :
    Satisfied value list check := by
  rintro current rfl cfg member
  exact absurd ⟨List.ne_nil_of_mem member, Option.some_ne_none current⟩ unused

theorem not_meets_of_not_applies {value : Option Value} {list : List Condition}
    (check : Value → Condition → Prop) (unused : ¬Applies value list) :
    ¬Meets value list check := by
  intro meeting
  obtain ⟨current, rfl, cfg, member, _⟩ := meeting
  exact unused ⟨List.ne_nil_of_mem member, Option.some_ne_none current⟩

theorem Meets.of_take {value : Option Value} {list : List Condition} {bound : Nat}
    {check : Value → Condition → Prop} (meets : Meets value (list.take bound) check) :
    Meets value list check := by
  obtain ⟨current, found, cfg, member, holds⟩ := meets
  exact ⟨current, found, cfg, List.mem_of_mem_take member, holds⟩

/-- A filter that negates the tests of three lists is right about them exactly when it
does not use them, or both it and its opposite refuse the record. -/
theorem negated_iff :
    (¬MeetsNegated conds item ↔ SelectsNegated conds item) ↔
      NegatedIdle conds item ∨ (¬SelectsNegated conds item ∧ MeetsNegated conds item) := by
  refine ⟨?_, ?_⟩
  · intro right
    by_cases met : MeetsNegated conds item
    · exact .inr ⟨fun selects => right.mpr selects met, met⟩
    · obtain ⟨lbs, sid, type⟩ := right.mp met
      obtain ⟨lbs_unmet, sid_unmet, type_unmet⟩ :=
        (not_or.trans (and_congr_right' not_or)).mp met
      refine .inl ⟨not_applies_of_satisfied lbs lbs_unmet,
        not_applies_of_satisfied type type_unmet, ?_⟩
      by_cases empty : conds.resno = []
      · exact .inr ⟨empty, sid⟩
      · -- the loop reads at least one condition of the sid
        refine .inl fun applies => ?_
        have read : conds.sid.take conds.resno.length ≠ [] := fun none_read =>
          (List.take_eq_nil_iff.mp none_read).elim
            (fun zero => empty (List.length_eq_zero_iff.mp zero)) applies.1
        refine not_applies_of_satisfied (fun current found cfg member => ?_) sid_unmet
          ⟨read, applies.2⟩
        exact sid current found cfg (List.mem_of_mem_take member)
  · rintro (⟨lbs, type, sid⟩ | ⟨unselected, met⟩)
    · refine iff_of_true ?_ ⟨satisfied_of_not_applies _ lbs, ?_, satisfied_of_not_applies _ type⟩
      · rintro (lbs_met | sid_met | type_met)
        · exact not_meets_of_not_applies _ lbs lbs_met
        · rcases sid with unused | ⟨empty, _⟩
          · exact not_meets_of_not_applies _ unused sid_met.of_take
          · obtain ⟨current, _, cfg, member, _⟩ := sid_met
            rw [empty, List.length_nil, List.take_zero] at member
            cases member
        · exact not_meets_of_not_applies _ type type_met
      · exact sid.elim (satisfied_of_not_applies _) And.right
    · exact iff_of_false (not_not_intro met) unselected

open Classical in
/-- A truth value fits two propositions at once exactly when they are equivalent. -/
theorem exists_bool_iff (first second : Prop) :
    (∃ answer : Bool, (answer = true ↔ first) ∧ (answer = true ↔ second)) ↔
      (first ↔ second) := by
  refine ⟨?_, ?_⟩
  · intro fitting
    obtain ⟨answer, as_first, as_second⟩ := fitting
    exact as_first.symm.trans as_second
  · intro same
    exact ⟨decide first, decide_eq_true_iff, decide_eq_true_iff.trans same⟩

/-- **The filter answers with the meaning of the conditions exactly for the right inputs.** -/
theorem allCheck_selects_iff :
    (∃ selected, allCheck regex conds item = .ok selected ∧
        (selected = true ↔ Selects regex conds item)) ↔
      Right regex conds item := by
  have selects_iff : Selects regex conds item ↔
      SelectsPlain regex conds item ∧ SelectsNegated conds item :=
    ⟨fun selects => ⟨selects.1, selects.2⟩, fun selects => ⟨selects.1, selects.2⟩⟩
  by_cases ended : ∀ block ∈ blocks regex conds item, ∃ result, block.scanned = .ok result
  · obtain ⟨compiles, inside⟩ := (ended_iff regex conds item).mp ended
    simp only [allCheck_eq_ok_iff, and_iff_right ended, full_iff regex conds item ended]
    rw [exists_bool_iff, selects_iff, and_congr_right_iff, negated_iff, imp_iff_not_or]
    exact ⟨fun negated => ⟨compiles, inside, negated⟩, Right.negated⟩
  · refine iff_of_false ?_ fun right => ended ((ended_iff regex conds item).mpr
      ⟨right.compiles, right.inside⟩)
    intro answering
    obtain ⟨selected, answered, _⟩ := answering
    exact ended ((allCheck_eq_ok_iff regex conds item selected).mp answered).1

end Meaning

/-- A record whose type is the one that the only condition asks for is not selected. -/
theorem allCheck_fails_on_type :
    ¬(allCheck ⟨fun _ => true, fun _ _ => some false⟩
          { type := [⟨bytes "x", .condEqual⟩] }
          (OrderedMap.empty.assign (bytes "type") (bytes "x")) = .ok true ↔
        Selects ⟨fun _ => true, fun _ _ => some false⟩
          { type := [⟨bytes "x", .condEqual⟩] }
          (OrderedMap.empty.assign (bytes "type") (bytes "x"))) := by
  have unused {Value Condition : Type} (value : Option Value)
      (check : Value → Condition → Prop) : Satisfied value [] check :=
    fun current found cfg member => absurd member (List.not_mem_nil (a := cfg))
  have selects : Selects ⟨fun _ => true, fun _ _ => some false⟩
      { type := [⟨bytes "x", .condEqual⟩] }
      (OrderedMap.empty.assign (bytes "type") (bytes "x")) := by
    refine ⟨⟨unused _ _, unused _ _, unused _ _, unused _ _, unused _ _⟩,
      unused _ _, unused _ _, ?_⟩
    intro current found cfg member
    have stored : (OrderedMap.empty.assign (bytes "type") (bytes "x")).find? (bytes "type") =
        some (bytes "x") := by decide +kernel
    obtain rfl := Option.some_injective _ (stored.symm.trans found)
    obtain rfl := List.mem_singleton.mp member
    decide +kernel
  intro claimed
  exact absurd (claimed.mpr selects) (by decide +kernel)

end AllCheck

end LogProcess
