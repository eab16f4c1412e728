import LogProcess.Common.SkiplistRefinement

/-! # The levels of the skiplist

`MakeNode` assigns the forward slots of a node below its height, and the loop of `Modify` those up
to it. The others stay unassigned, so that whether a read is safe depends on where it follows
pointers. In every state that updates reach, each level has the nodes of at least its
height with all their slots up to it assigned (`Skiplist.Levelled`), and every operation,
the destructor too, ends without a fault (`Skiplist.run_levelled`).
-/

namespace LogProcess.Skiplist

variable {Key Value : Type}

/-! ### The destructor -/

/-- `delete` of a node with its forward array. -/
def freeNode (list : Skiplist Key Value) (address : Address) :
    Except MemoryFault (Skiplist Key Value) := do
  let _ ← list.readNode address
  .ok { list with nodes := Function.update list.nodes address none }

/-- The loop of the destructor and the deletion behind it, from a node on. -/
def freeFrom : Nat → Option Address → Skiplist Key Value →
    Except MemoryFault (Skiplist Key Value)
  | _, none, list => .ok list
  | 0, some _, _ => .error .diverged
  | fuel + 1, some left, list => do
      let next ← list.readForward 0 left
      let list ← list.freeNode left
      freeFrom fuel next list

/-- The destructor. -/
def destroy (list : Skiplist Key Value) : Except MemoryFault (Skiplist Key Value) := do
  let left ← list.readForward 0 list.head
  let list ← freeFrom list.allocated left list
  list.freeNode list.head

/-! ### What is promised -/

/-- The key of the node at an address. -/
def keyAt (list : Skiplist Key Value) (address : Address) : Option Key :=
  (list.nodes address).map SkiplistNode.k

section Promise

variable [LinearOrder Key]

/-- The heights with which a call leaves the keys. A key that is there keeps its height. -/
def Update.record (heights : OrderedMap Key Nat) : Update Key Value → OrderedMap Key Nat
  | .modify insertLevel k _ => heights.insertNew k insertLevel
  | .remove k => heights.erase k

/-- The keys of at least some height. -/
def keysFrom (heights : OrderedMap Key Nat) (level : Nat) : List Key :=
  (heights.entries.filter (level ≤ ·.2)).map Prod.fst

/-- **The levels of a list** whose nodes have some heights, with the addresses on each of them. -/
structure Levelled (list : Skiplist Key Value) (heights : OrderedMap Key Nat)
    (levels : Nat → List Address) : Prop where
  chained : ∀ level < maxLevel, Chain (list.readForward level) list.head (levels level)
  keys : ∀ level, (levels level).map list.keyAt = (keysFrom heights level).map some
  ascending : ∀ level, (keysFrom heights level).Pairwise (· < ·)
  nested : ∀ level, (levels (level + 1)).Sublist (levels level)
  bounded : list.level ≤ maxLevel - 1
  highest : ∀ level, list.level < level → levels level = []
  reached : list.level = 0 ∨ levels list.level ≠ []
  assigned : ∀ entry ∈ heights.entries, ∃ address ∈ levels 0, list.keyAt address = some entry.1 ∧
    ∀ slot ≤ entry.2, ∃ target, list.readForward slot address = .ok target

/-- No operation faults. -/
structure Safe (list : Skiplist Key Value) : Prop where
  modify : ∀ insertLevel k v, ∃ after, list.modify insertLevel k v = .ok after
  remove : ∀ k, ∃ after, list.remove k = .ok after
  search : ∀ k v, ∃ result, list.search k v = .ok result
  rangeGet : ∀ st ed, ∃ result, list.rangeGet st ed = .ok result
  rangeCount : ∀ st ed, ∃ result, list.rangeCount st ed = .ok result
  destroy : ∃ after, list.destroy = .ok after

end Promise

/-! ### Deleting the nodes -/

theorem readForward_freed {list : Skiplist Key Value} {address visited : Address}
    (other : visited ≠ address) (level : Nat) :
    readForward { list with nodes := Function.update list.nodes address none } level visited =
      list.readForward level visited :=
  readForward_update_of_ne none other level list.level list.allocated

theorem freeNode_eq {list : Skiplist Key Value} {level : Nat} {address : Address}
    {target : Option Address} (read : list.readForward level address = .ok target) :
    list.freeNode address =
      .ok { list with nodes := Function.update list.nodes address none } := by
  obtain ⟨node, present, -⟩ := hasSlot_of_readForward read
  simp only [freeNode, readNode, present, bind, Except.bind]

/-- The loop deletes the nodes that it visits, each once, and no other ones. -/
theorem freeFrom_eq {list : Skiplist Key Value} {visited : List Address}
    (links : ∀ before address rest, visited = before ++ address :: rest →
      list.readForward 0 address = .ok rest.head?)
    (distinct : visited.Nodup) {fuel : Nat} (enough : visited.length ≤ fuel) :
    ∃ after, freeFrom fuel visited.head? list = .ok after ∧ after.head = list.head ∧
      ∀ address ∉ visited, after.nodes address = list.nodes address := by
  induction visited generalizing list fuel with
  | nil => exact ⟨list, by cases fuel <;> rfl, rfl, fun _ _ => rfl⟩
  | cons address rest ih =>
      rw [List.length_cons] at enough
      obtain ⟨fuel, rfl⟩ := Nat.exists_eq_add_of_le' enough
      obtain ⟨apart, distinct⟩ := List.nodup_cons.mp distinct
      have read := links [] address rest rfl
      have later : ∀ before other rest', rest = before ++ other :: rest' →
          readForward { list with nodes := Function.update list.nodes address none } 0 other =
            .ok rest'.head? := by
        intro before other rest' split
        rw [readForward_freed]
        · exact links (address :: before) other rest' (by rw [split, List.cons_append])
        · rintro rfl
          exact apart (split ▸ List.mem_append_right _ List.mem_cons_self)
      obtain ⟨after, ran, head, kept⟩ := ih later distinct (Nat.le_add_right rest.length fuel)
      refine ⟨after, ?_, head, fun other outside => ?_⟩
      · rw [List.head?_cons, show fuel + (rest.length + 1) = rest.length + fuel + 1 by omega]
        simp only [freeFrom, read, freeNode_eq read, bind, Except.bind, ran]
      · rw [List.mem_cons, not_or] at outside
        exact (kept other outside.2).trans (Function.update_of_ne outside.1 _ _)

variable [LinearOrder Key] {list : Skiplist Key Value} {cells : List (Cell Key Value)}

/-- The destructor ends and deletes no node twice. -/
theorem Represents.destroy_eq (represents : Represents list cells) :
    ∃ after, list.destroy = .ok after := by
  have chain := represents.linked 0 (by decide)
  rw [tall_zero] at chain
  obtain ⟨apart, distinct⟩ := List.nodup_cons.mp represents.distinct
  have enough : (cells.map Cell.address).length ≤ list.allocated := by
    rw [List.length_map]
    exact represents.length_lt.le
  obtain ⟨after, ran, head, kept⟩ := freeFrom_eq
    (fun before address rest split => (split ▸ chain).drop.2.next_eq) distinct enough
  have read : after.readForward 0 after.head = .ok (cells.map Cell.address).head? := by
    rw [head, ← chain.next_eq, readForward, readForward, readNode, readNode, kept _ apart]
  refine ⟨{ after with nodes := Function.update after.nodes after.head none }, ?_⟩
  rw [head] at read
  simp only [destroy, chain.next_eq, bind, Except.bind, ran, freeNode_eq read, head]

/-! ### Heights -/

/-- The list represents cells with the heights of the map. -/
def Tracked (list : Skiplist Key Value) (heights : OrderedMap Key Nat) : Prop :=
  ∃ cells, Represents list cells ∧ heights.entries = cells.map fun cell => (cell.key, cell.height)

variable {heights : OrderedMap Key Nat}

/-- `Modify` gives a height to a new key only. -/
theorem Tracked.modify (tracked : Tracked list heights) (insertLevel : Fin maxLevel) (k : Key)
    (v : Value) :
    ∃ after, list.modify insertLevel k v = .ok after ∧
      Tracked after (heights.insertNew k insertLevel) := by
  obtain ⟨cells, represents, entries⟩ := tracked
  obtain ⟨after, below, middle, above, cell, run, rfl, allBelow, allAbove, represented, key, -,
    kind⟩ := represents.modify_eq insertLevel k v
  refine ⟨after, run, _, represented, ?_⟩
  rw [List.map_append, List.map_append] at entries
  rw [List.map_append, List.map_cons, key]
  have entriesBelow : ∀ entry ∈ below.map fun cell => (cell.key, cell.height), entry.1 < k :=
    List.forall_mem_map.mpr allBelow
  have entriesAbove : ∀ entry ∈ above.map fun cell => (cell.key, cell.height), k < entry.1 :=
    List.forall_mem_map.mpr allAbove
  rcases kind with ⟨rfl, height⟩ | ⟨old, rfl, same, height⟩
  · have absent : heights.find? k = none := by
      rw [heights.find?_eq_none_iff, entries, List.map_nil, List.append_nil]
      intro entry member
      rcases List.mem_append.mp member with early | late
      · exact (entriesBelow entry early).ne
      · exact (entriesAbove entry late).ne'
    rw [OrderedMap.insertNew_of_find?_eq_none absent, heights.entries_assign entries entriesBelow
      (List.forall_mem_map.mpr fun _ member => absurd member List.not_mem_nil) entriesAbove, height]
  · have present : heights.find? k = some old.height := by
      rw [heights.find?_eq_some_iff, entries, ← same]
      exact List.mem_append_left _ (List.mem_append_right _ (List.mem_singleton_self _))
    rw [OrderedMap.insertNew_eq_self (present ▸ rfl), entries, List.map_singleton, same, height,
      List.append_assoc, List.singleton_append]

/-- `Remove` forgets the height of the key. -/
theorem Tracked.remove (tracked : Tracked list heights) (k : Key) :
    ∃ after, list.remove k = .ok after ∧ Tracked after (heights.erase k) := by
  obtain ⟨cells, represents, entries⟩ := tracked
  obtain ⟨after, below, middle, above, run, rfl, allBelow, equal, allAbove, represented⟩ :=
    represents.remove_eq k
  rw [List.map_append, List.map_append] at entries
  refine ⟨after, run, _, represented, ?_⟩
  rw [heights.entries_erase entries (List.forall_mem_map.mpr allBelow)
    (List.forall_mem_map.mpr equal) (List.forall_mem_map.mpr allAbove), List.map_append]

theorem Tracked.apply (tracked : Tracked list heights) (update : Update Key Value) :
    ∃ after, update.apply list = .ok after ∧ Tracked after (update.record heights) := by
  cases update with
  | modify insertLevel k v => exact tracked.modify insertLevel k v
  | remove k => exact tracked.remove k

/-- Updates keep track of the heights and never fault. -/
theorem Tracked.run (tracked : Tracked list heights) (updates : List (Update Key Value)) :
    ∃ after, updates.foldlM Update.apply list = .ok after ∧
      Tracked after (updates.foldl Update.record heights) :=
  Fallible.exists_foldlM_follows
    (fun _ _ update tracked => tracked.apply update) tracked updates

/-! ### Levels -/

/-- A cell has its forward pointers up to its height. -/
theorem Represents.exists_forward (represents : Represents list cells) {cell : Cell Key Value}
    (member : cell ∈ cells) {slot : Nat} (reaches : slot ≤ cell.height) :
    ∃ target, list.readForward slot cell.address = .ok target := by
  obtain ⟨below, above, rfl⟩ := List.append_of_mem member
  have bounded := represents.heightBound cell member
  have inside := represents.levelBound
  have chain := represents.linked slot (by omega)
  rw [tall_append, tall_cons_of_le reaches, List.map_append, List.map_cons] at chain
  exact ⟨_, chain.drop.2.next_eq⟩

theorem keysFrom_eq (entries : heights.entries = cells.map fun cell => (cell.key, cell.height))
    (level : Nat) : keysFrom heights level = (tall level cells).map Cell.key := by
  rw [keysFrom, entries, List.filter_map, List.map_map]
  rfl

theorem Represents.keyAt_eq (represents : Represents list cells) {cell : Cell Key Value}
    (member : cell ∈ cells) : list.keyAt cell.address = some cell.key := by
  obtain ⟨node, present, pair⟩ := Option.map_eq_some_iff.mp (represents.stored cell member)
  rw [keyAt, present, Option.map_some, (Prod.mk.inj pair).1]

theorem Tracked.levelled (tracked : Tracked list heights) :
    ∃ levels, Levelled list heights levels := by
  obtain ⟨cells, represents, entries⟩ := tracked
  refine ⟨fun level => (tall level cells).map Cell.address, ?_⟩
  constructor
  · exact represents.linked
  · intro level
    rw [keysFrom_eq entries, List.map_map, List.map_map]
    exact List.map_congr_left fun cell member => represents.keyAt_eq (mem_of_mem_tall member)
  · intro level
    rw [keysFrom_eq entries]
    exact (represents.ascending.filter _).map _ fun _ _ less => less
  · intro level
    refine List.Sublist.map _ (List.monotone_filter_right cells fun cell reaches => ?_)
    exact decide_eq_true ((Nat.le_succ level).trans (of_decide_eq_true reaches))
  · exact Nat.le_sub_one_of_lt represents.levelBound
  · intro level high
    rw [represents.tall_eq_nil high, List.map_nil]
  · refine represents.levelReached.imp_right fun ⟨cell, member, reached⟩ none => ?_
    have listed : cell ∈ tall list.level cells :=
      List.mem_filter.mpr ⟨member, decide_eq_true reached.ge⟩
    exact List.ne_nil_of_mem (List.mem_map_of_mem listed) none
  · intro entry member
    rw [entries] at member
    obtain ⟨cell, listed, rfl⟩ := List.mem_map.mp member
    refine ⟨cell.address, ?_, represents.keyAt_eq listed,
      fun slot reaches => represents.exists_forward listed reaches⟩
    rw [tall_zero]
    exact List.mem_map_of_mem listed

/-- The entries of the cells are some map. -/
theorem Tracked.exists_refines (tracked : Tracked list heights) : ∃ map, Refines list map := by
  obtain ⟨cells, represents, -⟩ := tracked
  have ascending : (cells.map Cell.entry).Pairwise fun first second => first.1 < second.1 :=
    represents.ascending.map Cell.entry fun _ _ less => less
  exact ⟨⟨cells.map Cell.entry, ascending⟩, cells, represents, rfl⟩

theorem Tracked.safe (tracked : Tracked list heights) : Safe list where
  modify insertLevel k v := (tracked.modify insertLevel k v).imp fun _ => And.left
  remove k := (tracked.remove k).imp fun _ => And.left
  search k v := by
    obtain ⟨map, refines⟩ := tracked.exists_refines
    exact ⟨_, search_eq refines k v⟩
  rangeGet st ed := by
    obtain ⟨map, refines⟩ := tracked.exists_refines
    exact ⟨_, rangeGet_eq refines st ed⟩
  rangeCount st ed := by
    obtain ⟨map, refines⟩ := tracked.exists_refines
    exact ⟨_, rangeCount_eq refines st ed⟩
  destroy := by
    obtain ⟨cells, represents, -⟩ := tracked
    exact represents.destroy_eq

/-- **Levels.** After any updates with any heights, starting from the empty list, each level has
the keys of at least its height in ascending order, all slots of a node up to its height are
assigned, and no operation faults. -/
theorem run_levelled [Inhabited Key] [Inhabited Value] (updates : List (Update Key Value)) :
    ∃ list : Skiplist Key Value, updates.foldlM Update.apply new = .ok list ∧
      (∃ levels, Levelled list (updates.foldl Update.record OrderedMap.empty) levels) ∧
      Safe list := by
  have start : Tracked (new : Skiplist Key Value) OrderedMap.empty := ⟨[], represents_new, rfl⟩
  obtain ⟨list, run, tracked⟩ := start.run updates
  exact ⟨list, run, tracked.levelled, tracked.safe⟩

end LogProcess.Skiplist
