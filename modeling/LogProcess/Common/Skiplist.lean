import Mathlib

/-! # The skiplist

`common/skiplist2.cc` and its template `common/skiplist_funcs.h` keep nodes with
a key, a value and an array of `MAX_LEVEL` forward pointers, of which the ones
above the height of the node are never assigned. The nodes are modeled as a
heap of addresses. Every read of a node, of a forward pointer or of the
recorded insert points can fault, and a `while` loop that takes more steps than
nodes were ever allocated counts as divergence, so that a result `.ok` of an
operation says that it ends and touches only assigned memory.
-/

namespace LogProcess

/-- `MAX_LEVEL` -/
def maxLevel : Nat := 10

instance : NeZero maxLevel := ⟨by decide⟩

abbrev Address := Nat

/-- Ways in which an operation of the list can go wrong. -/
inductive MemoryFault where
  | dangling
  | outOfRange
  | unassigned
  | diverged
  deriving DecidableEq, Repr

/-- One entry of a forward array: not assigned yet, or a pointer, where `none` is null. -/
inductive Slot where
  | unassigned
  | assigned (target : Option Address)
  deriving DecidableEq, Repr

structure SkiplistNode (Key Value : Type) where
  k : Key
  v : Value
  forward : List Slot

/-- A list with the nodes that are allocated and not deleted. Addresses from
`allocated` on were never returned by `new`. -/
structure Skiplist (Key Value : Type) where
  level : Nat
  head : Address
  nodes : Address → Option (SkiplistNode Key Value)
  allocated : Nat

namespace Skiplist

variable {Key Value : Type}

/-! ### Memory -/

def readNode (list : Skiplist Key Value) (address : Address) :
    Except MemoryFault (SkiplistNode Key Value) :=
  match list.nodes address with
  | some node => .ok node
  | none => .error .dangling

/-- `address->forward[level]` as a value. -/
def readForward (list : Skiplist Key Value) (level : Nat) (address : Address) :
    Except MemoryFault (Option Address) := do
  let node ← list.readNode address
  match node.forward[level]? with
  | some (.assigned target) => .ok target
  | some .unassigned => .error .unassigned
  | none => .error .outOfRange

def writeNode (list : Skiplist Key Value) (address : Address) (node : SkiplistNode Key Value) :
    Skiplist Key Value :=
  { list with nodes := Function.update list.nodes address (some node) }

/-- `address->forward[level] = target` -/
def writeForward (list : Skiplist Key Value) (level : Nat) (address : Address)
    (target : Option Address) : Except MemoryFault (Skiplist Key Value) := do
  let node ← list.readNode address
  if level < node.forward.length then
    .ok (list.writeNode address { node with forward := node.forward.set level (.assigned target) })
  else
    .error .outOfRange

/-- `forward_point_array[level]`, where the list holds the filled entries. -/
def readPoint (forwardPointArray : List Address) (level : Nat) : Except MemoryFault Address :=
  match forwardPointArray[level]? with
  | some address => .ok address
  | none => .error .unassigned

/-- A node whose first `level` forward pointers are null. -/
def makeNode (level : Nat) (k : Key) (v : Value) : SkiplistNode Key Value where
  k := k
  v := v
  forward := List.replicate level (.assigned none) ++
    List.replicate (maxLevel - level) .unassigned

/-- The constructor. Only the forward pointers of the head are ever read. -/
def new [Inhabited Key] [Inhabited Value] : Skiplist Key Value where
  level := 0
  head := 0
  nodes := Function.update (fun _ => none) 0 (some (makeNode maxLevel default default))
  allocated := 1

/-- The loop of `GetInsertLevel` with `remaining` levels left to climb, on the
values that `std::random_device` yields. -/
def climb (draws : Nat → Nat) : Nat → Nat → Nat
  | 0, result => result
  | remaining + 1, result =>
      if draws result % 100 < 50 then climb draws remaining (result + 1) else result

/-- The random height of a new node. -/
def getInsertLevel (draws : Nat → Nat) : Nat := climb draws (maxLevel - 1) 0

theorem climb_le (draws : Nat → Nat) (remaining result : Nat) :
    climb draws remaining result ≤ result + remaining := by
  induction remaining generalizing result with
  | zero => exact le_rfl
  | succ remaining ih =>
      rw [climb]
      split
      · exact (ih (result + 1)).trans (by omega)
      · omega

/-- A new node always fits the forward arrays. -/
theorem getInsertLevel_lt (draws : Nat → Nat) : getInsertLevel draws < maxLevel :=
  Nat.lt_of_le_of_lt (climb_le draws _ 0) (by decide)

/-- Draws that climb up to a level and stop there. -/
theorem climb_eq (draws : Nat → Nat) {level : Nat} (heads : ∀ i < level, draws i % 100 < 50)
    (tails : ¬draws level % 100 < 50) {remaining result : Nat} (reached : result ≤ level)
    (room : level ≤ result + remaining) : climb draws remaining result = level := by
  induction remaining generalizing result with
  | zero => exact Nat.le_antisymm reached room
  | succ remaining ih =>
      rw [climb]
      rcases Nat.eq_or_lt_of_le reached with rfl | below
      · rw [if_neg tails]
      · rw [if_pos (heads result below)]
        exact ih below (by omega)

/-- Every height below `MAX_LEVEL` is possible. -/
theorem exists_getInsertLevel_eq (level : Fin maxLevel) :
    ∃ draws, getInsertLevel draws = level := by
  refine ⟨fun i => if i < level then 0 else 99, climb_eq _ ?_ ?_ (Nat.zero_le _) ?_⟩
  · intro i below
    simp only [below, ↓reduceIte, Nat.zero_mod, Nat.ofNat_pos]
  · simp only [lt_self_iff_false, ↓reduceIte]
    decide
  · have bound := level.isLt
    omega

/-! ### The descent -/

section Descent

variable [LT Key] [DecidableLT Key]

/-- The inner `while` of a descent: step right while the keys are below `bound`. -/
def walk (list : Skiplist Key Value) (bound : Key) (level : Nat) :
    Nat → Address → Option Address → Except MemoryFault (Address × Option Address)
  | _, vertical, none => .ok (vertical, none)
  | 0, _, some _ => .error .diverged
  | fuel + 1, vertical, some horizontal => do
      let node ← list.readNode horizontal
      if node.k < bound then
        let following ← list.readForward level horizontal
        walk list bound level fuel horizontal following
      else
        .ok (vertical, some horizontal)

/-- One round of the outer `for`. -/
def walkLevel (list : Skiplist Key Value) (bound : Key) (level : Nat) (vertical : Address) :
    Except MemoryFault (Address × Option Address) := do
  let horizontal ← list.readForward level vertical
  list.walk bound level list.allocated vertical horizontal

/-- The descent from a level to level zero. It returns the last `horizontal` and
`forward_point_array`, entry zero first; `Search`, `RangeGet` and `RangeCount`
descend without recording the points. -/
def descend (list : Skiplist Key Value) (bound : Key) :
    Nat → Address → Except MemoryFault (Option Address × List Address)
  | 0, start => do
      let (vertical, horizontal) ← list.walkLevel bound 0 start
      .ok (horizontal, [vertical])
  | level + 1, start => do
      let (vertical, _) ← list.walkLevel bound (level + 1) start
      let (horizontal, lower) ← list.descend bound level vertical
      .ok (horizontal, lower ++ [vertical])

end Descent

variable [LinearOrder Key]

/-- The test `horizontal && horizontal->k == k`, with the node it finds. -/
def matching (list : Skiplist Key Value) (k : Key) :
    Option Address → Except MemoryFault (Option (Address × SkiplistNode Key Value))
  | none => .ok none
  | some horizontal => do
      let node ← list.readNode horizontal
      .ok (if node.k = k then some (horizontal, node) else none)

/-! ### Updates -/

/-- One round of the loop that links a new node. -/
def linkLevel (forwardPointArray : List Address) (newnode : Address)
    (list : Skiplist Key Value) (level : Nat) : Except MemoryFault (Skiplist Key Value) := do
  let vertical ← readPoint forwardPointArray level
  let target ← list.readForward level vertical
  let list ← list.writeForward level newnode target
  list.writeForward level vertical (some newnode)

/-- The second half of `Modify`: raise the level, allocate and link. -/
def insertNode (list : Skiplist Key Value) (forwardPointArray : List Address)
    (insertLevel : Nat) (k : Key) (v : Value) : Except MemoryFault (Skiplist Key Value) :=
  let points := forwardPointArray ++ List.replicate (insertLevel - list.level) list.head
  let newnode := list.allocated
  let raised : Skiplist Key Value :=
    { list with
      level := max list.level insertLevel
      nodes := Function.update list.nodes newnode (some (makeNode insertLevel k v))
      allocated := newnode + 1 }
  (List.range (insertLevel + 1)).foldlM (linkLevel points newnode) raised

def modify (list : Skiplist Key Value) (insertLevel : Fin maxLevel) (k : Key) (v : Value) :
    Except MemoryFault (Skiplist Key Value) := do
  let (horizontal, forwardPointArray) ← list.descend k list.level list.head
  match ← list.matching k horizontal with
  | some (address, node) => .ok (list.writeNode address { node with v := v })
  | none => list.insertNode forwardPointArray insertLevel k v

/-- The loop of `Remove` from `level` on, with `remaining` levels up to `level_`. -/
def unlinkLevels (forwardPointArray : List Address) (removed : Address) :
    Nat → Nat → Skiplist Key Value → Except MemoryFault (Skiplist Key Value)
  | 0, _, list => .ok list
  | remaining + 1, level, list => do
      let vertical ← readPoint forwardPointArray level
      let target ← list.readForward level vertical
      if target = some removed then
        let following ← list.readForward level removed
        let list ← list.writeForward level vertical following
        unlinkLevels forwardPointArray removed remaining (level + 1) list
      else
        .ok list

/-- The loop that lowers `level_` past empty levels. -/
def shrinkLevel (list : Skiplist Key Value) : Nat → Except MemoryFault Nat
  | 0 => do
      let _ ← list.readForward 0 list.head
      .ok 0
  | level + 1 => do
      let target ← list.readForward (level + 1) list.head
      if target = none then list.shrinkLevel level else .ok (level + 1)

def remove (list : Skiplist Key Value) (k : Key) : Except MemoryFault (Skiplist Key Value) := do
  let (horizontal, forwardPointArray) ← list.descend k list.level list.head
  match ← list.matching k horizontal with
  | some (address, _) =>
      let unlinked ← unlinkLevels forwardPointArray address (list.level + 1) 0 list
      let deleted : Skiplist Key Value :=
        { unlinked with nodes := Function.update unlinked.nodes address none }
      let level ← deleted.shrinkLevel deleted.level
      .ok { deleted with level := level }
  | none => .ok list

/-! ### Queries -/

/-- `Search` with the value that the caller's variable holds before the call. -/
def search (list : Skiplist Key Value) (k : Key) (v : Value) :
    Except MemoryFault (Bool × Value) := do
  let (horizontal, _) ← list.descend k list.level list.head
  match ← list.matching k horizontal with
  | some (_, node) => .ok (true, node.v)
  | none => .ok (false, v)

/-- The values from a node on while the keys are at most `ed`. -/
def collect (list : Skiplist Key Value) (ed : Key) :
    Nat → Option Address → Except MemoryFault (List Value)
  | _, none => .ok []
  | 0, some _ => .error .diverged
  | fuel + 1, some horizontal => do
      let node ← list.readNode horizontal
      if node.k ≤ ed then
        let following ← list.readForward 0 horizontal
        let rest ← collect list ed fuel following
        .ok (node.v :: rest)
      else
        .ok []

/-- `RangeGet`: the returned truth value and the content of the vector. -/
def rangeGet (list : Skiplist Key Value) (st ed : Key) :
    Except MemoryFault (Bool × List Value) := do
  let (horizontal, _) ← list.descend st list.level list.head
  let values ← list.collect ed list.allocated horizontal
  .ok (true, values)

/-- `RangeCount` walks the nodes of `RangeGet` and counts them. -/
def rangeCount (list : Skiplist Key Value) (st ed : Key) : Except MemoryFault (Bool × Nat) := do
  let (horizontal, _) ← list.descend st list.level list.head
  let values ← list.collect ed list.allocated horizontal
  .ok (true, values.length)

end Skiplist

end LogProcess
