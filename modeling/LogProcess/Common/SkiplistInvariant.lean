import LogProcess.Common.Skiplist
import LogProcess.Foundation.Chain

/-! # The representation invariant of the skiplist

A list represents a sequence of cells in ascending key order when, at every
level, following the forward pointers from the head visits exactly the cells of
at least that height (`Skiplist.Represents`). A descent for a bound then ends at
the first cell that is not below the bound, having recorded at every level the
last tall enough cell below it (`Skiplist.Represents.descend_eq`).
-/

namespace LogProcess.Skiplist

variable {Key Value : Type}

/-! ### Forward pointers as a link function -/

/-- The key and the value stored at an address. -/
def payload (list : Skiplist Key Value) (address : Address) : Option (Key × Value) :=
  (list.nodes address).map fun node => (node.k, node.v)

/-- The node at an address has a forward pointer of this level, assigned or not. -/
def HasSlot (list : Skiplist Key Value) (level : Nat) (address : Address) : Prop :=
  ∃ node, list.nodes address = some node ∧ level < node.forward.length

/-- Two lists that differ in forward pointers only. -/
structure Rewired (before after : Skiplist Key Value) : Prop where
  level : after.level = before.level
  head : after.head = before.head
  allocated : after.allocated = before.allocated
  payload : ∀ address, after.payload address = before.payload address
  hasSlot : ∀ level address, after.HasSlot level address ↔ before.HasSlot level address

theorem Rewired.refl (list : Skiplist Key Value) : Rewired list list :=
  ⟨rfl, rfl, rfl, fun _ => rfl, fun _ _ => Iff.rfl⟩

theorem Rewired.trans {first second third : Skiplist Key Value} (early : Rewired first second)
    (late : Rewired second third) : Rewired first third where
  level := late.level.trans early.level
  head := late.head.trans early.head
  allocated := late.allocated.trans early.allocated
  payload address := (late.payload address).trans (early.payload address)
  hasSlot level address := (late.hasSlot level address).trans (early.hasSlot level address)

theorem readNode_of_payload {list : Skiplist Key Value} {address : Address} {k : Key} {v : Value}
    (stored : list.payload address = some (k, v)) :
    ∃ node, list.readNode address = .ok node ∧ node.k = k ∧ node.v = v := by
  obtain ⟨node, present, pair⟩ := Option.map_eq_some_iff.mp stored
  rw [Prod.mk.injEq] at pair
  refine ⟨node, ?_, pair.1, pair.2⟩
  rw [readNode, present]

/-- A forward pointer that can be read can be written. -/
theorem hasSlot_of_readForward {list : Skiplist Key Value} {level : Nat} {address : Address}
    {target : Option Address} (read : list.readForward level address = .ok target) :
    list.HasSlot level address := by
  unfold readForward readNode at read
  cases present : list.nodes address with
  | none => simp only [present, bind, Except.bind, reduceCtorEq] at read
  | some node =>
      refine ⟨node, present, ?_⟩
      by_contra outside
      have missing : node.forward[level]? = none := List.getElem?_eq_none (Nat.le_of_not_lt outside)
      simp only [present, bind, Except.bind, missing, reduceCtorEq] at read

/-- A write sets one forward pointer and changes nothing else. -/
theorem writeForward_eq {list : Skiplist Key Value} {level : Nat} {address : Address}
    (slot : list.HasSlot level address) (target : Option Address) :
    ∃ after, list.writeForward level address target = .ok after ∧ Rewired list after ∧
      ∀ other visited, after.readForward other visited =
        if other = level ∧ visited = address then .ok target
        else list.readForward other visited := by
  obtain ⟨node, present, inside⟩ := slot
  let written : SkiplistNode Key Value :=
    { node with forward := node.forward.set level (.assigned target) }
  have lookup (visited : Address) : (list.writeNode address written).nodes visited =
      if visited = address then some written else list.nodes visited := by
    simp only [writeNode, Function.update_apply]
  refine ⟨list.writeNode address written, ?_, ⟨rfl, rfl, rfl, ?_, ?_⟩, ?_⟩
  · simp only [writeForward, readNode, present, bind, Except.bind, inside, ↓reduceIte, written]
  · intro visited
    rw [payload, payload, lookup]
    by_cases same : visited = address
    · simp only [same, ↓reduceIte, present, Option.map_some, written]
    · rw [if_neg same]
  · intro other visited
    unfold HasSlot
    rw [lookup]
    by_cases same : visited = address
    · simp only [same, ↓reduceIte, present, Option.some.injEq, exists_eq_left', written,
        List.length_set]
    · rw [if_neg same]
  · intro other visited
    unfold readForward readNode
    rw [lookup]
    by_cases same : visited = address
    · subst same
      simp only [↓reduceIte, present, and_true, bind, Except.bind, written]
      by_cases here : other = level
      · subst here
        simp only [List.getElem?_set_self inside, ↓reduceIte]
      · simp only [List.getElem?_set_ne (Ne.symm here), here, ↓reduceIte]
    · simp only [same, ↓reduceIte, and_false]

/-! ### Cells and levels -/

/-- What a node of the list stands for. -/
structure Cell (Key Value : Type) where
  address : Address
  key : Key
  value : Value
  height : Nat

/-- The cells that occur on a level. -/
def tall (level : Nat) (cells : List (Cell Key Value)) : List (Cell Key Value) :=
  cells.filter fun cell => level ≤ cell.height

@[simp] theorem tall_append (level : Nat) (first second : List (Cell Key Value)) :
    tall level (first ++ second) = tall level first ++ tall level second :=
  List.filter_append first second

/-- A cell that reaches the level occurs on it. -/
theorem tall_cons_of_le {level : Nat} {cell : Cell Key Value} (reaches : level ≤ cell.height)
    (cells : List (Cell Key Value)) : tall level (cell :: cells) = cell :: tall level cells :=
  List.filter_cons_of_pos (decide_eq_true reaches)

theorem tall_cons_of_not_le {level : Nat} {cell : Cell Key Value} (short : ¬level ≤ cell.height)
    (cells : List (Cell Key Value)) : tall level (cell :: cells) = tall level cells :=
  List.filter_cons_of_neg (mt of_decide_eq_true short)

theorem tall_zero (cells : List (Cell Key Value)) : tall 0 cells = cells := by
  simp only [tall, Nat.zero_le, decide_true, List.filter_true]

theorem mem_of_mem_tall {level : Nat} {cells : List (Cell Key Value)} {cell : Cell Key Value}
    (member : cell ∈ tall level cells) : cell ∈ cells := (List.mem_filter.mp member).1

/-- The last address on a level before the cells that follow `below`. -/
def point (start : Address) (below : List (Cell Key Value)) (level : Nat) : Address :=
  lastFrom start ((tall level below).map Cell.address)

/-- The insert point of a level is on every lower level, where some more cells
may follow it. -/
theorem exists_visited (start : Address) (below : List (Cell Key Value)) {level higher : Nat}
    (ordered : level ≤ higher) :
    ∃ visited passed, tall level below = visited ++ passed ∧
      lastFrom start (visited.map Cell.address) = point start below higher := by
  induction below generalizing start with
  | nil => exact ⟨[], [], rfl, rfl⟩
  | cons cell rest ih =>
      by_cases high : higher ≤ cell.height
      · obtain ⟨visited, passed, split, reached⟩ := ih cell.address
        refine ⟨cell :: visited, passed, ?_, ?_⟩
        · rw [tall_cons_of_le (ordered.trans high), split, List.cons_append]
        · rw [point, tall_cons_of_le high, List.map_cons, List.map_cons, lastFrom_cons,
            lastFrom_cons, reached, point]
      · have skipped := tall_cons_of_not_le high rest
        cases remaining : tall higher rest with
        | nil =>
            refine ⟨[], tall level (cell :: rest), rfl, ?_⟩
            rw [point, skipped, remaining]
        | cons next others =>
            obtain ⟨visited, passed, split, reached⟩ := ih cell.address
            by_cases low : level ≤ cell.height
            · refine ⟨cell :: visited, passed, ?_, ?_⟩
              · rw [tall_cons_of_le low, split, List.cons_append]
              · rw [List.map_cons, lastFrom_cons, reached, point, point, skipped, remaining,
                  List.map_cons, lastFrom_cons, lastFrom_cons]
            · obtain ⟨visited, passed, split, reached⟩ := ih start
              refine ⟨visited, passed, ?_, ?_⟩
              · rw [tall_cons_of_not_le low, split]
              · rw [reached, point, point, skipped]

variable [LinearOrder Key]

/-- At every level the forward pointers from the head visit the cells of at
least that height, in ascending key order. -/
structure Chained (list : Skiplist Key Value) (cells : List (Cell Key Value)) : Prop where
  ascending : cells.Pairwise fun first second => first.key < second.key
  distinct : (list.head :: cells.map Cell.address).Nodup
  owned : ∀ address ∈ list.head :: cells.map Cell.address, address < list.allocated
  stored : ∀ cell ∈ cells, list.payload cell.address = some (cell.key, cell.value)
  linked : ∀ level < maxLevel,
    Chain (list.readForward level) list.head ((tall level cells).map Cell.address)

/-- The addresses on a level are distinct. -/
theorem Chained.distinct_tall {list : Skiplist Key Value} {cells : List (Cell Key Value)}
    (chained : Chained list cells) (level : Nat) :
    (list.head :: (tall level cells).map Cell.address).Nodup :=
  chained.distinct.sublist ((List.filter_sublist.map Cell.address).cons_cons list.head)

/-- A cell does not share its address with the head or another cell. -/
theorem Chained.apart {list : Skiplist Key Value} {below above : List (Cell Key Value)}
    {cell : Cell Key Value} (chained : Chained list (below ++ cell :: above)) :
    cell.address ∉ list.head :: (below ++ above).map Cell.address ∧
      (list.head :: (below ++ above).map Cell.address).Nodup := by
  have distinct := chained.distinct
  rwa [List.map_append, List.map_cons, ← List.cons_append, List.nodup_middle,
    List.cons_append, ← List.map_append, List.nodup_cons] at distinct

/-- **Representation invariant.** The levels are chained and `level_` is the
greatest height, or zero. -/
structure Represents (list : Skiplist Key Value) (cells : List (Cell Key Value)) : Prop
    extends Chained list cells where
  levelBound : list.level < maxLevel
  heightBound : ∀ cell ∈ cells, cell.height ≤ list.level
  levelReached : list.level = 0 ∨ ∃ cell ∈ cells, cell.height = list.level

namespace Represents

variable {list : Skiplist Key Value} {cells below above : List (Cell Key Value)}

/-- There are fewer cells than allocations, so the loops never run out of fuel. -/
theorem length_lt (represents : Represents list cells) : cells.length < list.allocated := by
  have inside : (list.head :: cells.map Cell.address).toFinset ⊆ Finset.range list.allocated := by
    intro address member
    exact Finset.mem_range.mpr (represents.owned address (List.mem_toFinset.mp member))
  have counted := Finset.card_le_card inside
  rw [List.toFinset_card_of_nodup represents.distinct, Finset.card_range, List.length_cons,
    List.length_map] at counted
  omega

/-- Above the level of the list there are no cells. -/
theorem tall_eq_nil (represents : Represents list cells) {level : Nat}
    (high : list.level < level) : tall level cells = [] := by
  rw [tall, List.filter_eq_nil_iff]
  intro cell member reached
  have bounded := represents.heightBound cell member
  have high' : level ≤ cell.height := of_decide_eq_true reached
  omega

/-- Above the level of the list every insert point is the head. -/
theorem point_eq_head (represents : Represents list (below ++ above)) {level : Nat}
    (high : list.level < level) : point list.head below level = list.head := by
  have none := represents.tall_eq_nil high
  rw [tall_append, List.append_eq_nil_iff] at none
  rw [point, none.1, List.map_nil, lastFrom_nil]

end Represents

/-! ### The descent -/

/-- Walking right passes the cells below the bound and stops at the next one. -/
theorem walk_eq {list : Skiplist Key Value} {bound : Key} {level : Nat}
    {passed rest : List (Cell Key Value)} {vertical : Address}
    (chain : Chain (list.readForward level) vertical ((passed ++ rest).map Cell.address))
    (stored : ∀ cell ∈ passed ++ rest, list.payload cell.address = some (cell.key, cell.value))
    (passedBelow : ∀ cell ∈ passed, cell.key < bound)
    (restAbove : ∀ cell ∈ rest, bound ≤ cell.key) {fuel : Nat} (enough : passed.length < fuel) :
    list.walk bound level fuel vertical ((passed ++ rest).map Cell.address).head? =
      .ok (lastFrom vertical (passed.map Cell.address), (rest.map Cell.address).head?) := by
  induction passed generalizing vertical fuel with
  | nil =>
      cases rest with
      | nil => cases fuel <;> rfl
      | cons cell others =>
          obtain ⟨fuel, rfl⟩ := Nat.exists_eq_add_of_lt enough
          obtain ⟨node, read, key, _⟩ :=
            readNode_of_payload (stored cell List.mem_cons_self)
          have stop : ¬ node.k < bound := by
            rw [key, not_lt]
            exact restAbove cell List.mem_cons_self
          simp only [List.nil_append, List.map_cons, List.head?_cons, List.length_nil, Nat.zero_add,
            walk, read, bind, Except.bind, stop, ↓reduceIte, List.map_nil, lastFrom_nil]
  | cons cell passed ih =>
      rw [List.length_cons] at enough
      obtain ⟨fuel, rfl⟩ := Nat.exists_eq_add_of_lt enough
      obtain ⟨node, read, key, _⟩ := readNode_of_payload (stored cell List.mem_cons_self)
      have go : node.k < bound := by
        rw [key]
        exact passedBelow cell List.mem_cons_self
      have onward := ih chain.2 (fun other member => stored other (List.mem_cons_of_mem _ member))
        (fun other member => passedBelow other (List.mem_cons_of_mem _ member))
        (show passed.length < passed.length + 1 + fuel by omega)
      have following : list.readForward level cell.address =
          .ok ((passed ++ rest).map Cell.address).head? := chain.2.next_eq
      simp only [List.cons_append, List.map_cons, List.head?_cons, walk, read, bind, Except.bind,
        go, ↓reduceIte, following, onward, lastFrom_cons]

namespace Represents

variable {list : Skiplist Key Value} {below above : List (Cell Key Value)} {bound : Key}

/-- One level of the descent moves from the insert point of a higher level to
the one of this level. -/
theorem walkLevel_eq (represents : Represents list (below ++ above))
    (allBelow : ∀ cell ∈ below, cell.key < bound) (allAbove : ∀ cell ∈ above, bound ≤ cell.key)
    {level : Nat} (inside : level < maxLevel) :
    list.walkLevel bound level (point list.head below (level + 1)) =
      .ok (point list.head below level, ((tall level above).map Cell.address).head?) := by
  obtain ⟨visited, passed, split, reached⟩ :=
    exists_visited list.head below (Nat.le_succ level)
  have chain := represents.linked level inside
  rw [tall_append, split, List.append_assoc, List.map_append] at chain
  have onward := chain.drop
  rw [reached] at onward
  have passedMember : ∀ cell ∈ passed, cell ∈ below := by
    intro cell member
    have listed : cell ∈ tall level below := by
      rw [split]
      exact List.mem_append_right _ member
    exact mem_of_mem_tall listed
  have short : passed.length < list.allocated := by
    have total := represents.length_lt
    have filtered : (tall level below).length ≤ below.length := List.length_filter_le _ _
    rw [split, List.length_append] at filtered
    rw [List.length_append] at total
    omega
  have stored : ∀ cell ∈ passed ++ tall level above,
      list.payload cell.address = some (cell.key, cell.value) := by
    intro cell member
    rcases List.mem_append.mp member with early | late
    · exact represents.stored cell (List.mem_append_left _ (passedMember cell early))
    · exact represents.stored cell (List.mem_append_right _ (mem_of_mem_tall late))
  have walked := walk_eq onward stored (fun cell member => allBelow cell (passedMember cell member))
    (fun cell member => allAbove cell (mem_of_mem_tall member)) short
  have here : lastFrom (point list.head below (level + 1)) (passed.map Cell.address) =
      point list.head below level := by
    rw [← reached, ← lastFrom_append, ← List.map_append, ← split, point]
  simp only [walkLevel, onward.next_eq, bind, Except.bind, walked, here]

/-- The descent ends at the first cell that is not below the bound and records
the insert points of all levels. -/
theorem descend_point (represents : Represents list (below ++ above))
    (allBelow : ∀ cell ∈ below, cell.key < bound) (allAbove : ∀ cell ∈ above, bound ≤ cell.key)
    {level : Nat} (inside : level < maxLevel) :
    list.descend bound level (point list.head below (level + 1)) =
      .ok ((above.map Cell.address).head?,
        (List.range (level + 1)).map (point list.head below)) := by
  induction level with
  | zero =>
      simp only [descend, represents.walkLevel_eq allBelow allAbove inside, bind, Except.bind,
        tall_zero, Nat.zero_add, List.range_one, List.map_cons, List.map_nil]
  | succ level ih =>
      simp only [descend, represents.walkLevel_eq allBelow allAbove inside, bind, Except.bind,
        ih (by omega)]
      rw [List.range_succ (n := level + 1), List.map_append, List.map_singleton]

theorem descend_eq (represents : Represents list (below ++ above))
    (allBelow : ∀ cell ∈ below, cell.key < bound)
    (allAbove : ∀ cell ∈ above, bound ≤ cell.key) :
    list.descend bound list.level list.head =
      .ok ((above.map Cell.address).head?,
        (List.range (list.level + 1)).map (point list.head below)) := by
  have descended := represents.descend_point allBelow allAbove represents.levelBound
  rwa [represents.point_eq_head (Nat.lt_succ_self list.level)] at descended

end Represents

end LogProcess.Skiplist
