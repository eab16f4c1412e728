import LogProcess.Foundation.Decimal
import LogProcess.Common.FnvHash
import LogProcess.Foundation.OrderedMap

/-! # The decimal trie

`common/trie.cc` counts hash codes at the end of the path that their decimal digits
spell. The path of one code can be a prefix of the path of another, but every
path has its own node, so the count found under a code is the number of times it was
inserted (`Trie.search_foldl_insert_snd`), up to wrapping around. The traversal gives every
code with its count (`Trie.exists_dfs_foldl_insert`).
-/

namespace LogProcess

/-- `START_INDEX` -/
def startIndex : Nat := 48

/-- `CHAR_RANGE` -/
def charRange : Nat := 10

instance : NeZero charRange := ⟨by decide⟩

/-- A possibly null pointer to a node of the trie, which nobody else points to. -/
inductive TrieNode where
  | null
  | node (children : Fin charRange → TrieNode) (cnt childnum : Nat) (isLeaf : Bool)

structure Trie where
  root : TrieNode

namespace TrieNode

/-- `GetNode` -/
def getNode : TrieNode := node (fun _ => null) 0 0 false

/-- The loop of `Insert` and the updates at its end. -/
def insertPath : List (Fin charRange) → TrieNode → TrieNode
  | _, null => null
  | [], node children cnt childnum _ => node children ((cnt + 1) % 2 ^ 32) childnum true
  | idx :: rest, node children cnt childnum isLeaf =>
      match children idx with
      | null =>
          node (Function.update children idx (insertPath rest getNode)) cnt (childnum + 1) isLeaf
      | child => node (Function.update children idx (insertPath rest child)) cnt childnum isLeaf

/-- The loop of `Search`: whether the path exists, with the counter at its end. -/
def searchPath : List (Fin charRange) → TrieNode → Bool × Nat
  | _, null => (false, 0)
  | [], node _ cnt _ _ => (true, cnt)
  | idx :: rest, node children _ _ _ => searchPath rest (children idx)

/-- `DFS`, without a result when `stoi` throws. The content of an unordered map is kept in an
ordered one. -/
def dfs : TrieNode → Str → OrderedMap Nat Nat → Option (OrderedMap Nat Nat)
  | null, _, res => some res
  | node children cnt _ isLeaf, dfsStr, res => do
      let res ← if isLeaf then
          (Decimal.stoi dfsStr).map fun k => res.insertNew (BitVec.ofInt 32 k).toNat cnt
        else some res
      (List.finRange charRange).foldlM
        (fun res i => dfs (children i) (dfsStr ++ Decimal.text i.val) res) res

/-! ### Labels -/

/-- The counter and the mark at the end of a path. -/
def labelAt : List (Fin charRange) → TrieNode → Nat × Bool
  | _, null => (0, false)
  | [], node _ cnt _ isLeaf => (cnt, isLeaf)
  | idx :: rest, node children _ _ _ => labelAt rest (children idx)

theorem labelAt_null (path : List (Fin charRange)) : labelAt path null = (0, false) := by
  cases path <;> rfl

theorem labelAt_getNode (path : List (Fin charRange)) : labelAt path getNode = (0, false) := by
  cases path with
  | nil => rfl
  | cons idx rest => rw [getNode, labelAt, labelAt_null]

theorem searchPath_snd (path : List (Fin charRange)) (root : TrieNode) :
    (searchPath path root).2 = (labelAt path root).1 := by
  induction path generalizing root with
  | nil => cases root <;> rfl
  | cons idx rest ih =>
      cases root with
      | null => rfl
      | node children cnt childnum isLeaf => exact ih (children idx)

theorem insertPath_ne_null {root : TrieNode} (present : root ≠ null)
    (path : List (Fin charRange)) : insertPath path root ≠ null := by
  cases root with
  | null => exact absurd rfl present
  | node children cnt childnum isLeaf =>
      cases path with
      | nil => exact nofun
      | cons idx rest =>
          rw [insertPath]
          split <;> exact nofun

/-- An insertion goes on in the child, which is new when there was none. -/
theorem exists_insertPath_cons (idx : Fin charRange) (rest : List (Fin charRange))
    (children : Fin charRange → TrieNode) (cnt childnum : Nat) (isLeaf : Bool) :
    ∃ child childnum', (children idx = null ∧ child = getNode ∨
        children idx ≠ null ∧ child = children idx) ∧
      insertPath (idx :: rest) (node children cnt childnum isLeaf) =
        node (Function.update children idx (insertPath rest child)) cnt childnum' isLeaf := by
  rw [insertPath]
  split
  · exact ⟨_, _, .inl ⟨‹children idx = null›, rfl⟩, rfl⟩
  · exact ⟨_, _, .inr ⟨‹children idx ≠ null›, rfl⟩, rfl⟩

/-- An insertion changes the label at the end of its path only. -/
theorem labelAt_insertPath {root : TrieNode} (present : root ≠ null)
    (path query : List (Fin charRange)) :
    labelAt query (insertPath path root) =
      if query = path then (((labelAt query root).1 + 1) % 2 ^ 32, true)
      else labelAt query root := by
  induction path generalizing root query with
  | nil =>
      cases root with
      | null => exact absurd rfl present
      | node children cnt childnum isLeaf => cases query <;> rfl
  | cons idx rest ih =>
      cases root with
      | null => exact absurd rfl present
      | node children cnt childnum isLeaf =>
          obtain ⟨child, childnum', source, shape⟩ :=
            exists_insertPath_cons idx rest children cnt childnum isLeaf
          have nonnull : child ≠ null := by
            rcases source with ⟨_, rfl⟩ | ⟨some, rfl⟩
            · exact nofun
            · exact some
          have same (path : List (Fin charRange)) :
              labelAt path child = labelAt path (children idx) := by
            rcases source with ⟨empty, rfl⟩ | ⟨_, rfl⟩
            · rw [empty, labelAt_null, labelAt_getNode]
            · rfl
          rw [shape]
          cases query with
          | nil => rfl
          | cons other query =>
              rw [labelAt, labelAt]
              by_cases along : other = idx
              · rw [along, Function.update_self, ih nonnull, same]
                simp only [List.cons.injEq, true_and]
              · rw [Function.update_of_ne along, if_neg]
                simp only [List.cons.injEq, along, false_and, not_false_eq_true]

/-! ### Leaves -/

/-- The paths to marked nodes with their counters, in the order of the traversal. -/
def leaves : TrieNode → List (List (Fin charRange) × Nat)
  | null => []
  | node children cnt _ isLeaf =>
      (if isLeaf then [([], cnt)] else []) ++ (List.finRange charRange).flatMap fun i =>
        (leaves (children i)).map fun leaf => (i :: leaf.1, leaf.2)

theorem mem_leaves (path : List (Fin charRange)) (cnt : Nat) (root : TrieNode) :
    (path, cnt) ∈ leaves root ↔ labelAt path root = (cnt, true) := by
  induction root generalizing path with
  | null => simp only [leaves, List.not_mem_nil, labelAt_null, Prod.mk.injEq, Bool.false_eq_true,
      and_false]
  | node children count childnum isLeaf ih =>
      cases path with
      | nil => cases isLeaf <;> simp [leaves, labelAt, eq_comm]
      | cons idx rest => cases isLeaf <;> simp [leaves, labelAt, ih]

/-- The digits along a path. -/
def digits (path : List (Fin charRange)) : Str := path.flatMap fun i => Decimal.text i.val

/-- What the traversal does at a marked node. -/
def dfsLeaf (res : OrderedMap Nat Nat) (leaf : Str × Nat) : Option (OrderedMap Nat Nat) :=
  (Decimal.stoi leaf.1).map fun k => res.insertNew (BitVec.ofInt 32 k).toNat leaf.2

/-- The traversal visits the leaves. -/
theorem dfs_eq (root : TrieNode) (dfsStr : Str) (res : OrderedMap Nat Nat) :
    dfs root dfsStr res =
      ((leaves root).map fun leaf => (dfsStr ++ digits leaf.1, leaf.2)).foldlM dfsLeaf res := by
  induction root generalizing dfsStr res with
  | null => rfl
  | node children cnt childnum isLeaf ih =>
      have below (nodes : List (Fin charRange)) (res : OrderedMap Nat Nat) :
          nodes.foldlM (fun res i => dfs (children i) (dfsStr ++ Decimal.text i.val) res) res =
            ((nodes.flatMap fun i => (leaves (children i)).map fun leaf =>
              (i :: leaf.1, leaf.2)).map fun leaf =>
                (dfsStr ++ digits leaf.1, leaf.2)).foldlM dfsLeaf res := by
        induction nodes generalizing res with
        | nil => rfl
        | cons idx rest later =>
            have first : ((leaves (children idx)).map fun leaf => (idx :: leaf.1, leaf.2)).map
                (fun leaf => (dfsStr ++ digits leaf.1, leaf.2)) = (leaves (children idx)).map
                  fun leaf => (dfsStr ++ Decimal.text idx.val ++ digits leaf.1, leaf.2) := by
              rw [List.map_map]
              apply List.map_congr_left
              intro leaf _
              simp only [Function.comp_apply, digits, List.flatMap_cons, List.append_assoc]
            rw [List.foldlM_cons, List.flatMap_cons, List.map_append, List.foldlM_append, first,
              ← ih]
            exact bind_congr later
      rw [dfs, leaves, List.map_append, List.foldlM_append]
      cases isLeaf with
      | false => exact below _ res
      | true =>
          simp only [↓reduceIte, List.map_cons, List.map_nil, List.foldlM_cons, List.foldlM_nil,
            digits, List.flatMap_nil, List.append_nil, dfsLeaf, bind_pure]
          exact bind_congr fun res => below _ res

end TrieNode

namespace Trie

/-- `ch - START_INDEX` for a digit. -/
def digitIndex (ch : UInt8) : Fin charRange := Fin.ofNat charRange (ch.toNat - startIndex)

/-- The indexes of the digits of `std::to_string(hashcode)`. -/
def path (hashcode : BitVec 32) : List (Fin charRange) :=
  (Decimal.text hashcode.toNat).map digitIndex

/-- The constructor. -/
def new : Trie := ⟨TrieNode.getNode⟩

def insert (trie : Trie) (hashcode : BitVec 32) : Trie := ⟨trie.root.insertPath (path hashcode)⟩

/-- `Search`: the returned truth value and the value left in `cnt`. -/
def search (trie : Trie) (hashcode : BitVec 32) : Bool × Nat :=
  trie.root.searchPath (path hashcode)

/-- A digit selects the child of its value. -/
theorem digitIndex_val {ch : UInt8} (digit : Decimal.isDigit ch) :
    (digitIndex ch).val = ch.toNat - 48 := by
  have bounds := (Decimal.isDigit_iff ch).mp digit
  exact Nat.mod_eq_of_lt (show ch.toNat - 48 < 10 by omega)

/-- A path determines the digits. -/
theorem map_digit_path (hashcode : BitVec 32) :
    (path hashcode).map (fun idx => Decimal.digit idx.val) = Decimal.text hashcode.toNat := by
  rw [path, List.map_map]
  conv_rhs => rw [← List.map_id (Decimal.text hashcode.toNat)]
  apply List.map_congr_left
  intro ch member
  have digit := Decimal.isDigit_of_mem_text member
  have bounds := (Decimal.isDigit_iff ch).mp digit
  rw [Function.comp_apply, digitIndex_val digit, id_eq, ← UInt8.toNat_inj,
    Decimal.toNat_digit (by omega)]
  omega

/-- Different codes have different paths. -/
theorem path_injective : Function.Injective path := by
  intro first second same
  have digits := congrArg (List.map fun idx => Decimal.digit idx.val) same
  rw [map_digit_path, map_digit_path] at digits
  exact BitVec.eq_of_toNat_eq (Decimal.text_injective digits)

theorem root_ne_null (codes : List (BitVec 32)) : (codes.foldl insert new).root ≠ .null := by
  induction codes using List.reverseRecOn with
  | nil => exact nofun
  | append_singleton codes code ih =>
      rw [List.foldl_concat, insert]
      exact TrieNode.insertPath_ne_null ih _

/-- The label at a path counts the codes with this path. -/
theorem labelAt_foldl_insert (codes : List (BitVec 32)) (query : List (Fin charRange)) :
    (codes.foldl insert new).root.labelAt query =
      ((codes.map path).count query % 2 ^ 32, decide (query ∈ codes.map path)) := by
  induction codes using List.reverseRecOn with
  | nil => exact TrieNode.labelAt_getNode query
  | append_singleton codes code ih =>
      rw [List.foldl_concat, insert,
        TrieNode.labelAt_insertPath (root_ne_null codes), ih, List.map_append, List.map_singleton,
        List.count_append, List.count_singleton]
      by_cases same : query = path code
      · simp [same, Nat.add_mod]
      · simp [same, Ne.symm same]

/-- **Counting.** Searching a code finds the number of its insertions. -/
theorem search_foldl_insert_snd (codes : List (BitVec 32)) (query : BitVec 32) :
    ((codes.foldl insert new).search query).2 = codes.count query % 2 ^ 32 := by
  rw [search, TrieNode.searchPath_snd, labelAt_foldl_insert,
    List.count_map_of_injective _ _ path_injective]

/-! ### The traversal of a trie -/

/-- `Dfs` -/
def dfs (trie : Trie) : Option (OrderedMap Nat Nat) := trie.root.dfs [] OrderedMap.empty

theorem digits_path (code : BitVec 32) :
    TrieNode.digits (path code) = Decimal.text code.toNat := by
  rw [TrieNode.digits, ← map_digit_path, List.map_eq_flatMap]
  apply List.flatMap_congr
  intro idx _
  rw [Decimal.text_of_lt idx.isLt]

/-- Leaves whose paths are small numbers are put into the map, each number once. -/
theorem exists_foldlM_dfsLeaf (count : Nat → Nat) {list : List (Str × Nat)}
    (small : ∀ leaf ∈ list, ∃ key < 2 ^ 31, leaf = (Decimal.text key, count key))
    (res : OrderedMap Nat Nat) :
    ∃ out, list.foldlM TrieNode.dfsLeaf res = some out ∧ ∀ key cnt,
      out.find? key = some cnt ↔ res.find? key = some cnt ∨
        res.find? key = none ∧ (Decimal.text key, cnt) ∈ list := by
  induction list generalizing res with
  | nil => exact ⟨res, rfl, fun key cnt => by simp⟩
  | cons leaf rest ih =>
      rw [List.forall_mem_cons] at small
      obtain ⟨⟨first, bounded, rfl⟩, later⟩ := small
      obtain ⟨out, folded, found⟩ := ih later (res.insertNew first (count first))
      have exact : (BitVec.ofInt 32 first).toNat = first := by
        rw [BitVec.ofInt_natCast, BitVec.toNat_ofNat, Nat.mod_eq_of_lt (by omega)]
      have step : TrieNode.dfsLeaf res (Decimal.text first, count first) =
          some (res.insertNew first (count first)) := by
        rw [TrieNode.dfsLeaf, Decimal.stoi_text bounded, Option.map_some, exact]
      refine ⟨out, by rw [List.foldlM_cons, step]; exact folded, fun key cnt => ?_⟩
      have functional : (Decimal.text first, cnt) ∈ rest → cnt = count first := by
        intro member
        obtain ⟨key, _, same⟩ := later _ member
        rw [Prod.mk.injEq, Decimal.text_injective.eq_iff] at same
        rw [same.2, same.1]
      rw [found, OrderedMap.find?_insertNew, List.mem_cons, Prod.mk.injEq,
        Decimal.text_injective.eq_iff]
      by_cases same : key = first
      · cases stored : res.find? first with
        | none =>
            simp only [same, stored, ↓reduceIte, Option.getD_none, Option.some.injEq, reduceCtorEq,
              false_and, or_false, true_and, false_or]
            grind
        | some value => simp [same, stored]
      · simp only [same, ↓reduceIte, false_and, false_or]

/-- **Traversal.** The map has the codes with their counters. -/
theorem exists_dfs_foldl_insert {codes : List (BitVec 32)}
    (small : ∀ code ∈ codes, code.toNat < 2 ^ 31) :
    ∃ dumpmap, (codes.foldl insert new).dfs = some dumpmap ∧
      ∀ entry, entry ∈ dumpmap.entries ↔
        ∃ code ∈ codes, entry = (code.toNat, codes.count code % 2 ^ 32) := by
  -- the counter of a number
  let count key := codes.count (BitVec.ofNat 32 key) % 2 ^ 32
  have read (code : BitVec 32) : count code.toNat = codes.count code % 2 ^ 32 := by
    simp only [count, BitVec.ofNat_toNat, BitVec.setWidth_eq]
  have leaves (leaf : Str × Nat) :
      leaf ∈ ((codes.foldl insert new).root.leaves.map
        fun leaf => ([] ++ TrieNode.digits leaf.1, leaf.2)) ↔
      ∃ code ∈ codes, leaf = (Decimal.text code.toNat, codes.count code % 2 ^ 32) := by
    simp only [List.mem_map, Prod.exists, TrieNode.mem_leaves, labelAt_foldl_insert, Prod.mk.injEq,
      decide_eq_true_eq, List.nil_append]
    refine ⟨fun marked => ?_, fun inserted => ?_⟩
    · obtain ⟨query, cnt, ⟨rfl, code, member, rfl⟩, rfl⟩ := marked
      rw [digits_path, List.count_map_of_injective _ _ path_injective]
      exact ⟨code, member, rfl⟩
    · obtain ⟨code, member, rfl⟩ := inserted
      refine ⟨path code, _, ⟨rfl, code, member, rfl⟩, ?_⟩
      rw [digits_path, List.count_map_of_injective _ _ path_injective]
  obtain ⟨dumpmap, folded, found⟩ := exists_foldlM_dfsLeaf count (fun leaf member => by
    obtain ⟨code, inserted, rfl⟩ := (leaves leaf).mp member
    exact ⟨code.toNat, small code inserted, by rw [read]⟩) OrderedMap.empty
  refine ⟨dumpmap, ?_, fun entry => ?_⟩
  · rw [dfs, TrieNode.dfs_eq, folded]
  · obtain ⟨key, cnt⟩ := entry
    rw [← OrderedMap.find?_eq_some_iff, found, leaves]
    simp only [OrderedMap.find?_empty, reduceCtorEq, true_and, false_or, Prod.mk.injEq,
      Decimal.text_injective.eq_iff]

end Trie

end LogProcess
