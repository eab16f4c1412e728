import LogProcess.Common.SkiplistUpdate
import LogProcess.Foundation.OrderedMap
import LogProcess.Foundation.Fallible

/-! # The skiplist refines a finite map

A list refines a map when it represents cells with the entries of the map
(`Skiplist.Refines`). `Modify` refines assignment for every height of a new node and
`Remove` refines removal; `Search`, `RangeGet` and `RangeCount` read the map. A run
of updates from the empty list therefore ends in a list that answers every query
as the map does (`Skiplist.run_answers_as_map`).
-/

namespace LogProcess.Skiplist

variable {Key Value : Type} [LinearOrder Key]

/-- The entry a cell stands for. -/
def Cell.entry (cell : Cell Key Value) : Key × Value := (cell.key, cell.value)

/-- **Refinement.** The list represents cells with exactly the entries of the map. -/
def Refines (list : Skiplist Key Value) (map : OrderedMap Key Value) : Prop :=
  ∃ cells, Represents list cells ∧ map.entries = cells.map Cell.entry

theorem refines_new [Inhabited Key] [Inhabited Value] :
    Refines (new : Skiplist Key Value) OrderedMap.empty :=
  ⟨[], represents_new, rfl⟩

namespace Represents

variable {list : Skiplist Key Value} {cells below above : List (Cell Key Value)}

/-- The cells cut at a bound. -/
theorem exists_split (represents : Represents list cells) (bound : Key) :
    ∃ below above, cells = below ++ above ∧ (∀ cell ∈ below, cell.key < bound) ∧
      ∀ cell ∈ above, bound ≤ cell.key :=
  ⟨_, _, (OrderedMap.filter_lt_append_filter_le Cell.key bound represents.ascending).symm,
    fun _ member => of_decide_eq_true (List.mem_filter.mp member).2,
    fun _ member => of_decide_eq_true (List.mem_filter.mp member).2⟩

/-- The node after a descent either holds the key, or every later key is greater. -/
theorem matching_cases (represents : Represents list (below ++ above)) {k : Key}
    (allAbove : ∀ cell ∈ above, k ≤ cell.key) :
    (∃ cell rest node, above = cell :: rest ∧ cell.key = k ∧ (∀ later ∈ rest, k < later.key) ∧
      list.nodes cell.address = some node ∧ node.k = k ∧ node.v = cell.value ∧
      list.matching k (above.map Cell.address).head? = .ok (some (cell.address, node))) ∨
    ((∀ cell ∈ above, k < cell.key) ∧
      list.matching k (above.map Cell.address).head? = .ok none) := by
  cases above with
  | nil => exact Or.inr ⟨fun _ member => absurd member List.not_mem_nil, rfl⟩
  | cons cell rest =>
      have ascending := (List.pairwise_append.mp represents.ascending).2.1
      have later := (List.pairwise_cons.mp ascending).1
      have first := allAbove cell List.mem_cons_self
      have stored := represents.stored cell (List.mem_append_right _ List.mem_cons_self)
      obtain ⟨node, present, pair⟩ := Option.map_eq_some_iff.mp stored
      rw [Prod.mk.injEq] at pair
      have tested : list.matching k ((cell :: rest).map Cell.address).head? =
          .ok (if node.k = k then some (cell.address, node) else none) := by
        simp only [List.map_cons, List.head?_cons, matching, readNode, present, bind, Except.bind]
      by_cases equal : cell.key = k
      · refine Or.inl ⟨cell, rest, node, rfl, equal, fun other member => equal ▸ later other member,
          present, pair.1.trans equal, pair.2, ?_⟩
        rw [tested, if_pos (pair.1.trans equal)]
      · refine Or.inr ⟨?_, ?_⟩
        · intro other member
          have less := lt_of_le_of_ne first (Ne.symm equal)
          rcases List.mem_cons.mp member with rfl | behind
          · exact less
          · exact less.trans (later other behind)
        · rw [tested, if_neg (pair.1 ▸ equal)]

/-- Overwriting the value of a node changes the value of its cell. -/
theorem writeValue (cell : Cell Key Value)
    (represents : Represents list (below ++ cell :: above)) {node : SkiplistNode Key Value}
    (present : list.nodes cell.address = some node) (v : Value) :
    Represents (list.writeNode cell.address { node with v := v })
      (below ++ { cell with value := v } :: above) := by
  have stored := represents.stored cell (List.mem_append_right _ List.mem_cons_self)
  rw [payload, present, Option.map_some, Option.some.injEq, Prod.mk.injEq] at stored
  have addresses : (below ++ { cell with value := v } :: above).map Cell.address =
      (below ++ cell :: above).map Cell.address := by
    rw [List.map_append, List.map_append, List.map_cons, List.map_cons]
  have levels (level : Nat) : (tall level (below ++ { cell with value := v } :: above)).map
      Cell.address = (tall level (below ++ cell :: above)).map Cell.address := by
    simp only [tall, List.filter_append, List.filter_cons, List.map_append]
    split <;> rfl
  have forward (level : Nat) (address : Address) :
      (list.writeNode cell.address { node with v := v }).readForward level address =
        list.readForward level address := by
    by_cases same : address = cell.address
    · simp only [same, readForward, readNode, writeNode, Function.update_self, present, bind,
        Except.bind]
    · exact readForward_update_of_ne _ same level _ _
  have member_iff (other : Cell Key Value) :
      other ∈ below ++ { cell with value := v } :: above ↔
        other = { cell with value := v } ∨ other ∈ below ++ above := by
    rw [List.perm_middle.mem_iff, List.mem_cons]
  have remaining {other : Cell Key Value} (member : other ∈ below ++ above) :
      other ∈ below ++ cell :: above :=
    ((List.sublist_cons_self cell above).append_left below).subset member
  refine ⟨⟨?_, ?_, ?_, ?_, ?_⟩, represents.levelBound, ?_, ?_⟩
  · have ascending := represents.ascending
    rw [List.pairwise_append, List.pairwise_cons] at ascending ⊢
    refine ⟨ascending.1, ascending.2.1, ?_⟩
    intro first firstMember second secondMember
    rcases List.mem_cons.mp secondMember with rfl | later
    · exact ascending.2.2 first firstMember cell List.mem_cons_self
    · exact ascending.2.2 first firstMember second (List.mem_cons_of_mem _ later)
  · rw [addresses]
    exact represents.distinct
  · rw [addresses]
    exact represents.owned
  · intro other member
    rcases (member_iff other).mp member with rfl | old
    · simp only [payload, writeNode, Function.update_self, Option.map_some, stored.1]
    · refine (payload_update_of_ne _ ?_ _ _).trans (represents.stored other (remaining old))
      exact fun same => represents.apart.1
        (same ▸ List.mem_cons_of_mem _ (List.mem_map_of_mem old))
  · intro level inside
    rw [levels]
    exact (represents.linked level inside).congr fun address _ => forward level address
  · intro other member
    rcases (member_iff other).mp member with rfl | old
    · exact represents.heightBound cell (List.mem_append_right _ List.mem_cons_self)
    · exact represents.heightBound other (remaining old)
  · apply represents.levelReached.imp_right
    intro covering
    obtain ⟨other, member, reached⟩ := covering
    rw [List.perm_middle.mem_iff, List.mem_cons] at member
    rcases member with rfl | old
    · exact ⟨{ other with value := v }, (member_iff _).mpr (Or.inl rfl), reached⟩
    · exact ⟨other, (member_iff _).mpr (Or.inr old), reached⟩

/-- `Modify` never faults. It overwrites the value of the cell with the key, or adds a cell for it
with the height that was chosen. -/
theorem modify_eq (represents : Represents list cells) (insertLevel : Fin maxLevel) (k : Key)
    (v : Value) :
    ∃ after below middle above cell, list.modify insertLevel k v = .ok after ∧
      cells = below ++ middle ++ above ∧ (∀ other ∈ below, other.key < k) ∧
      (∀ other ∈ above, k < other.key) ∧ Represents after (below ++ cell :: above) ∧
      cell.key = k ∧ cell.value = v ∧
      (middle = [] ∧ cell.height = insertLevel ∨
        ∃ old, middle = [old] ∧ old.key = k ∧ cell.height = old.height) := by
  obtain ⟨below, above, rfl, allBelow, allAbove⟩ := represents.exists_split k
  have descended := represents.descend_eq allBelow allAbove
  rcases represents.matching_cases allAbove with
    ⟨cell, rest, node, rfl, equal, later, present, _, _, tested⟩ | ⟨later, tested⟩
  · refine ⟨_, below, [cell], rest, _, ?_, (List.append_cons below cell rest), allBelow, later,
      represents.writeValue cell present v, equal, rfl, .inr ⟨cell, rfl, equal, rfl⟩⟩
    simp only [modify, descended, bind, Except.bind, tested]
  · obtain ⟨after, linked, represented⟩ :=
      represents.insertNode_eq allBelow later insertLevel.isLt v
    refine ⟨after, below, [], above, _, ?_, by rw [List.append_nil], allBelow, later, represented,
      rfl, rfl, .inl ⟨rfl, rfl⟩⟩
    simp only [modify, descended, bind, Except.bind, tested, linked]

/-- `Remove` never faults. It removes the cell with the key, if there is one. -/
theorem remove_eq (represents : Represents list cells) (k : Key) :
    ∃ after below middle above, list.remove k = .ok after ∧ cells = below ++ middle ++ above ∧
      (∀ other ∈ below, other.key < k) ∧ (∀ other ∈ middle, other.key = k) ∧
      (∀ other ∈ above, k < other.key) ∧ Represents after (below ++ above) := by
  obtain ⟨below, above, rfl, allBelow, allAbove⟩ := represents.exists_split k
  have descended := represents.descend_eq allBelow allAbove
  rcases represents.matching_cases allAbove with
    ⟨cell, rest, node, rfl, equal, later, _, _, _, tested⟩ | ⟨later, tested⟩
  · obtain ⟨unlinked, lowered, run, shrunk, represented⟩ := represents.unlink_eq
    refine ⟨_, below, [cell], rest, ?_, (List.append_cons below cell rest), allBelow, ?_, later,
      represented⟩
    · simp only [remove, descended, bind, Except.bind, tested, run, shrunk]
    · intro other member
      rw [List.mem_singleton.mp member, equal]
  · refine ⟨list, below, [], above, ?_, by rw [List.append_nil], allBelow,
      fun _ member => absurd member List.not_mem_nil, later, represents⟩
    simp only [remove, descended, bind, Except.bind, tested]

end Represents

/-! ### Operations -/

section Operations

variable {list : Skiplist Key Value} {map : OrderedMap Key Value}

/-- `Modify` never faults and assigns the key, whatever the height of a new node. -/
theorem modify_refines (refines : Refines list map) (insertLevel : Fin maxLevel) (k : Key)
    (v : Value) :
    ∃ after, list.modify insertLevel k v = .ok after ∧ Refines after (map.assign k v) := by
  obtain ⟨cells, represents, entries⟩ := refines
  obtain ⟨after, below, middle, above, cell, run, rfl, allBelow, allAbove, represented, key, value,
    kind⟩ := represents.modify_eq insertLevel k v
  have equal : ∀ other ∈ middle, other.key = k := by
    rcases kind with ⟨rfl, -⟩ | ⟨old, rfl, same, -⟩
    · exact fun _ member => absurd member List.not_mem_nil
    · exact fun other member => List.mem_singleton.mp member ▸ same
  rw [List.map_append, List.map_append] at entries
  refine ⟨after, run, _, represented, ?_⟩
  rw [map.entries_assign entries (List.forall_mem_map.mpr allBelow) (List.forall_mem_map.mpr equal)
    (List.forall_mem_map.mpr allAbove) v, List.map_append, List.map_cons, Cell.entry, key, value]

/-- `Remove` never faults and removes the key. -/
theorem remove_refines (refines : Refines list map) (k : Key) :
    ∃ after, list.remove k = .ok after ∧ Refines after (map.erase k) := by
  obtain ⟨cells, represents, entries⟩ := refines
  obtain ⟨after, below, middle, above, run, rfl, allBelow, equal, allAbove, represented⟩ :=
    represents.remove_eq k
  rw [List.map_append, List.map_append] at entries
  refine ⟨after, run, _, represented, ?_⟩
  rw [map.entries_erase entries (List.forall_mem_map.mpr allBelow) (List.forall_mem_map.mpr equal)
    (List.forall_mem_map.mpr allAbove), List.map_append]

/-- `Search` finds the value of the map and otherwise leaves the variable as it was. -/
theorem search_eq (refines : Refines list map) (k : Key) (v : Value) :
    list.search k v = .ok (match map.find? k with
      | some value => (true, value)
      | none => (false, v)) := by
  obtain ⟨cells, represents, entries⟩ := refines
  obtain ⟨below, above, rfl, allBelow, allAbove⟩ := represents.exists_split k
  have descended := represents.descend_eq allBelow allAbove
  rcases represents.matching_cases allAbove with
    ⟨cell, rest, node, rfl, equal, _, _, _, value, tested⟩ | ⟨later, tested⟩
  · have found : map.find? k = some cell.value := by
      rw [map.find?_eq_some_iff, entries, ← equal]
      exact List.mem_map_of_mem (f := Cell.entry)
        (List.mem_append_right below (List.mem_cons_self (l := rest)))
    simp only [search, descended, bind, Except.bind, tested, found, value]
  · have absent : map.find? k = none := by
      rw [map.find?_eq_none_iff, entries]
      refine List.forall_mem_map.mpr ?_
      intro cell member
      rcases List.mem_append.mp member with early | late
      · exact (allBelow cell early).ne
      · exact (later cell late).ne'
    simp only [search, descended, bind, Except.bind, tested, absent]

/-- Collecting from a cell on yields the values of the keys up to the bound. -/
theorem collect_eq {above : List (Cell Key Value)} {start : Address} (ed : Key)
    (chain : Chain (list.readForward 0) start (above.map Cell.address))
    (stored : ∀ cell ∈ above, list.payload cell.address = some (cell.key, cell.value))
    {fuel : Nat} (enough : above.length ≤ fuel) :
    list.collect ed fuel (above.map Cell.address).head? =
      .ok ((above.takeWhile fun cell => cell.key ≤ ed).map Cell.value) := by
  induction above generalizing start fuel with
  | nil => cases fuel <;> rfl
  | cons cell rest ih =>
      rw [List.length_cons] at enough
      obtain ⟨fuel, rfl⟩ := Nat.exists_eq_add_of_le' enough
      obtain ⟨node, read, key, value⟩ := readNode_of_payload (stored cell List.mem_cons_self)
      have following := chain.2.next_eq
      have onward := ih chain.2 (fun other member => stored other (List.mem_cons_of_mem _ member))
        (Nat.le_add_right rest.length fuel)
      rw [List.map_cons, List.head?_cons, show fuel + (rest.length + 1) = rest.length + fuel + 1 by
        omega]
      by_cases inside : cell.key ≤ ed
      · simp only [collect, read, bind, Except.bind, key, inside, ↓reduceIte, following, onward,
          value, List.takeWhile_cons, decide_true, List.map_cons]
      · simp only [collect, read, bind, Except.bind, key, inside, ↓reduceIte, List.takeWhile_cons,
          decide_false, Bool.false_eq_true, List.map_nil]

/-- The loop of `RangeGet` and `RangeCount` meets the values of the map in the range. -/
theorem collect_descend_eq (refines : Refines list map) (st ed : Key) :
    ∃ horizontal points, list.descend st list.level list.head = .ok (horizontal, points) ∧
      list.collect ed list.allocated horizontal = .ok (map.between st ed) := by
  obtain ⟨cells, represents, entries⟩ := refines
  obtain ⟨below, above, rfl, allBelow, allAbove⟩ := represents.exists_split st
  refine ⟨_, _, represents.descend_eq allBelow allAbove, ?_⟩
  have chain := represents.linked 0 (Nat.lt_of_le_of_lt (Nat.zero_le _) represents.levelBound)
  rw [tall_zero, List.map_append] at chain
  have short := represents.length_lt
  rw [List.length_append] at short
  rw [collect_eq ed chain.drop
    (fun cell member => represents.stored cell (List.mem_append_right _ member)) (by omega),
    OrderedMap.takeWhile_le_eq_filter_le Cell.key ed
      (List.pairwise_append.mp represents.ascending).2.1]
  have outside : below.filter (fun cell => st ≤ cell.key ∧ cell.key ≤ ed) = [] := by
    apply List.filter_eq_nil_iff.mpr
    intro cell member
    simp only [decide_eq_true_eq, not_and]
    exact fun reached => absurd reached (not_le.mpr (allBelow cell member))
  have inside : above.filter (fun cell => st ≤ cell.key ∧ cell.key ≤ ed) =
      above.filter fun cell => cell.key ≤ ed := by
    apply List.filter_congr
    intro cell member
    simp only [allAbove cell member, true_and]
  rw [OrderedMap.between, entries, List.filter_map, List.map_map]
  change Except.ok _ = Except.ok (((below ++ above).filter
    fun cell => st ≤ cell.key ∧ cell.key ≤ ed).map Cell.value)
  rw [List.filter_append, outside, inside, List.nil_append]

theorem rangeGet_eq (refines : Refines list map) (st ed : Key) :
    list.rangeGet st ed = .ok (true, map.between st ed) := by
  obtain ⟨horizontal, points, descended, collected⟩ := collect_descend_eq refines st ed
  simp only [rangeGet, descended, bind, Except.bind, collected]

theorem rangeCount_eq (refines : Refines list map) (st ed : Key) :
    list.rangeCount st ed = .ok (true, (map.between st ed).length) := by
  obtain ⟨horizontal, points, descended, collected⟩ := collect_descend_eq refines st ed
  simp only [rangeCount, descended, bind, Except.bind, collected]

end Operations

/-! ### Runs -/

/-- A call that changes the list, with the height that `GetInsertLevel` chooses. -/
inductive Update (Key Value : Type) where
  | modify (insertLevel : Fin maxLevel) (k : Key) (v : Value)
  | remove (k : Key)

/-- The effect of a call on the list. -/
def Update.apply (list : Skiplist Key Value) :
    Update Key Value → Except MemoryFault (Skiplist Key Value)
  | .modify insertLevel k v => list.modify insertLevel k v
  | .remove k => list.remove k

/-- The effect of a call on the abstract map. -/
def Update.assign (map : OrderedMap Key Value) : Update Key Value → OrderedMap Key Value
  | .modify _ k v => map.assign k v
  | .remove k => map.erase k

theorem Update.apply_refines {list : Skiplist Key Value} {map : OrderedMap Key Value}
    (refines : Refines list map) (update : Update Key Value) :
    ∃ after, update.apply list = .ok after ∧ Refines after (update.assign map) := by
  cases update with
  | modify insertLevel k v => exact modify_refines refines insertLevel k v
  | remove k => exact remove_refines refines k

/-- **Run refinement.** Updates applied one after the other to a list that refines
a map never fault and end in a list that refines the updated map. -/
theorem run_refines {list : Skiplist Key Value} {map : OrderedMap Key Value}
    (refines : Refines list map) (updates : List (Update Key Value)) :
    ∃ after, updates.foldlM Update.apply list = .ok after ∧
      Refines after (updates.foldl Update.assign map) :=
  Fallible.exists_foldlM_follows
    (fun _ _ update refines => update.apply_refines refines) refines updates

/-- **The list is a sorted map.** After any updates with any heights, starting
from the empty list, every query answers as the updated map does. -/
theorem run_answers_as_map [Inhabited Key] [Inhabited Value]
    (updates : List (Update Key Value)) :
    ∃ list : Skiplist Key Value, updates.foldlM Update.apply new = .ok list ∧
      (∀ k v, list.search k v =
        .ok (match (updates.foldl Update.assign OrderedMap.empty).find? k with
          | some value => (true, value)
          | none => (false, v))) ∧
      (∀ st ed, list.rangeGet st ed =
        .ok (true, (updates.foldl Update.assign OrderedMap.empty).between st ed)) ∧
      (∀ st ed, ed < st → list.rangeGet st ed = .ok (true, [])) ∧
      ∀ st ed, list.rangeCount st ed =
        .ok (true, ((updates.foldl Update.assign OrderedMap.empty).between st ed).length) := by
  obtain ⟨list, run, refines⟩ := run_refines refines_new updates
  refine ⟨list, run, search_eq refines, rangeGet_eq refines, ?_, rangeCount_eq refines⟩
  intro st ed crossed
  rw [rangeGet_eq refines, OrderedMap.between_eq_nil _ crossed]

end LogProcess.Skiplist
