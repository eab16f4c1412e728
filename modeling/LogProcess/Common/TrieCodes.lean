import LogProcess.Common.Trie

/-! # The codes in a trie

What `common/trie.h` tells about the inserted codes. `Search` succeeds at every node, marked or
not, so it also finds a code whose digits begin those of an inserted one (`Trie.decides_iff`).
`Dfs` keeps the digits of its path in a member that it extends and trims, and gives the inserted
codes with their numbers (`Trie.dfsInto_foldl_insert`).
-/

namespace LogProcess

namespace TrieNode

/-! ### Searching -/

/-- An insertion makes the prefixes of its path found. -/
theorem searchPath_insertPath_iff {root : TrieNode} (present : root ≠ null)
    (path query : List (Fin charRange)) :
    (searchPath query (insertPath path root)).1 = true ↔
      query <+: path ∨ (searchPath query root).1 = true := by
  induction path generalizing root query with
  | nil =>
      cases root with
      | null => exact absurd rfl present
      | node children cnt childnum isLeaf =>
          cases query with
          | nil => exact iff_of_true rfl (.inl List.prefix_rfl)
          | cons idx rest => rw [List.prefix_nil, or_iff_right (List.cons_ne_nil idx rest)]; rfl
  | cons idx rest ih =>
      cases root with
      | null => exact absurd rfl present
      | node children cnt childnum isLeaf =>
          obtain ⟨child, childnum', source, shape⟩ :=
            exists_insertPath_cons idx rest children cnt childnum isLeaf
          rw [shape]
          cases query with
          | nil => exact iff_of_true rfl (.inl List.nil_prefix)
          | cons other query =>
              rw [searchPath, searchPath, List.cons_prefix_cons]
              by_cases along : other = idx
              · subst along
                rw [Function.update_self, and_iff_right rfl]
                rcases source with ⟨empty, rfl⟩ | ⟨some, rfl⟩
                · have present : getNode ≠ null := fun absent => by cases absent
                  rw [ih present, empty]
                  cases query with
                  | nil => exact iff_of_true (.inl List.nil_prefix) (.inl List.nil_prefix)
                  | cons next query =>
                      have none : (searchPath (next :: query) getNode).1 = false := by
                        cases query <;> rfl
                      rw [none]
                      exact Iff.rfl
                · exact ih some query
              · rw [Function.update_of_ne along, or_iff_right fun both => along both.1]

end TrieNode

namespace Trie

/-- The digits of a code begin those of another one when its path does. -/
theorem path_prefix_iff (first second : BitVec 32) :
    path first <+: path second ↔
      Decimal.text first.toNat <+: Decimal.text second.toNat := by
  refine ⟨fun paths => ?_, fun digits => digits.map digitIndex⟩
  have digits := paths.map fun idx => Decimal.digit idx.val
  rwa [map_digit_path, map_digit_path] at digits

/-- A search succeeds when an inserted code begins with the digits. -/
theorem search_fst_iff (codes : List (BitVec 32)) (query : BitVec 32) :
    ((codes.foldl insert new).search query).1 = true ↔
      ∃ code ∈ codes, Decimal.text query.toNat <+: Decimal.text code.toNat := by
  simp only [← path_prefix_iff]
  induction codes using List.reverseRecOn with
  | nil =>
      have digits : path query ≠ [] := List.map_eq_nil_iff.not.mpr (Decimal.text_ne_nil _)
      refine iff_of_false ?_ fun inserted => ?_
      · rw [List.foldl_nil, search]
        cases steps : path query with
        | nil => exact absurd steps digits
        | cons idx rest => cases rest <;> exact Bool.false_ne_true
      · obtain ⟨code, member, _⟩ := inserted
        exact absurd member List.not_mem_nil
  | append_singleton codes code ih =>
      rw [List.foldl_concat, insert, search,
        TrieNode.searchPath_insertPath_iff (root_ne_null codes), ← search, ih]
      simp only [List.mem_append, List.mem_singleton, or_and_right, exists_or, exists_eq_left]
      exact or_comm

/-- `Search` tells whether the code was inserted. -/
def Decides (codes : List (BitVec 32)) (query : BitVec 32) : Prop :=
  ((codes.foldl insert new).search query).1 = true ↔ query ∈ codes

/-- **Membership.** `Search` decides whether a code was inserted exactly when it was, or when its
digits do not begin those of an inserted code. -/
theorem decides_iff (codes : List (BitVec 32)) (query : BitVec 32) :
    Decides codes query ↔ query ∈ codes ∨
      ∀ code ∈ codes, ¬Decimal.text query.toNat <+: Decimal.text code.toNat := by
  rw [Decides, search_fst_iff]
  by_cases inserted : query ∈ codes
  · exact iff_of_true (iff_of_true ⟨query, inserted, List.prefix_rfl⟩ inserted) (.inl inserted)
  · rw [iff_false_right inserted, or_iff_right inserted]
    push Not
    rfl

/-- After 12 was inserted, 1 is found. -/
theorem not_decides_of_longer_code : ¬Decides [12] 1 := by
  have digits : Decimal.text 1 <+: Decimal.text 12 := by
    rw [Decimal.text_of_le (by decide : 10 ≤ 12)]
    exact List.prefix_append _ _
  rw [Decides, search_fst_iff]
  intro decides
  exact absurd (decides.mp ⟨12, List.mem_singleton_self 12, digits⟩) (by decide)

end Trie

namespace TrieNode

/-! ### The traversal with its path -/

def isNull : TrieNode → Bool
  | null => true
  | node .. => false

/-- `DFS` with the member `dfs_str` and the map, without a result when `stoi` throws. -/
def dfsShared : TrieNode → Str × OrderedMap Nat Nat → Option (Str × OrderedMap Nat Nat)
  | null, state => some state
  | node children cnt _ isLeaf, (dfsStr, res) => do
      let res ← if isLeaf then
          (Decimal.stoi dfsStr).map fun k => res.insertNew (BitVec.ofInt 32 k).toNat cnt
        else some res
      (List.finRange charRange).foldlM
        (fun state i =>
          if (children i).isNull then some state
          else do
            let state ← dfsShared (children i) (state.1 ++ Decimal.text i.val, state.2)
            some (state.1.take (state.1.length - 1), state.2))
        (dfsStr, res)

/-- The digit that a call adds is the one cut off after it. -/
theorem take_append_digit (dfsStr : Str) (i : Fin charRange) :
    (dfsStr ++ Decimal.text i.val).take ((dfsStr ++ Decimal.text i.val).length - 1) = dfsStr := by
  rw [Decimal.text_of_lt i.isLt, List.length_append, List.length_singleton,
    Nat.add_sub_cancel, List.take_left]

/-- The member is left as it was found, and the map is that of the traversal. -/
theorem dfsShared_eq (root : TrieNode) (dfsStr : Str) (res : OrderedMap Nat Nat) :
    dfsShared root (dfsStr, res) = (dfs root dfsStr res).map fun res => (dfsStr, res) := by
  induction root generalizing dfsStr res with
  | null => rfl
  | node children cnt childnum isLeaf ih =>
      have below (nodes : List (Fin charRange)) (res : OrderedMap Nat Nat) :
          nodes.foldlM (fun state i =>
              if (children i).isNull then some state
              else do
                let state ← dfsShared (children i) (state.1 ++ Decimal.text i.val, state.2)
                some (state.1.take (state.1.length - 1), state.2)) (dfsStr, res) =
            (nodes.foldlM (fun res i => dfs (children i) (dfsStr ++ Decimal.text i.val) res)
              res).map fun res => (dfsStr, res) := by
        induction nodes generalizing res with
        | nil => rfl
        | cons i rest later =>
            rw [List.foldlM_cons, List.foldlM_cons]
            cases child : children i with
            | null => exact later res
            | node grandchildren cnt childnum isLeaf =>
                rw [isNull, if_neg Bool.false_ne_true, ← child, ih]
                cases dfs (children i) (dfsStr ++ Decimal.text i.val) res with
                | none => rfl
                | some res =>
                    simp only [Option.map_some, Option.bind_eq_bind, Option.bind_some,
                      take_append_digit]
                    exact later res
      rw [dfsShared, dfs]
      cases isLeaf with
      | false => exact below _ res
      | true =>
          rw [if_pos rfl, if_pos rfl]
          cases Decimal.stoi dfsStr with
          | none => rfl
          | some k => exact below _ _

end TrieNode

namespace Trie

/-- `Dfs`: the member `dfs_str` and the map after it. -/
def dfsInto (trie : Trie) (res : OrderedMap Nat Nat) : Option (Str × OrderedMap Nat Nat) :=
  trie.root.dfsShared ([], res)

/-- **Traversal.** Nothing is thrown, the map has the inserted codes with their numbers, and the
member is empty again. -/
theorem dfsInto_foldl_insert {codes : List (BitVec 32)}
    (small : ∀ code ∈ codes, code.toNat ≤ 2 ^ 31 - 1) (few : codes.length < 2 ^ 32) :
    ∃ dumpmap, (codes.foldl insert new).dfsInto OrderedMap.empty = some ([], dumpmap) ∧
      ∀ entry, entry ∈ dumpmap.entries ↔
        ∃ code ∈ codes, entry = (code.toNat, codes.count code) := by
  obtain ⟨dumpmap, traversed, found⟩ := exists_dfs_foldl_insert fun code member =>
    Nat.lt_of_le_of_lt (small code member) (by decide)
  refine ⟨dumpmap, ?_, fun entry => ?_⟩
  · rw [dfsInto, TrieNode.dfsShared_eq, ← dfs, traversed, Option.map_some]
  · rw [found]
    refine exists_congr fun code => and_congr_right fun _ => ?_
    rw [Nat.mod_eq_of_lt (List.count_le_length.trans_lt few)]

theorem dfsInto_two_codes :
    ∃ dumpmap, ([12, 1, 12].foldl insert new).dfsInto OrderedMap.empty = some ([], dumpmap) ∧
      ∀ entry, entry ∈ dumpmap.entries ↔
        ∃ code ∈ ([12, 1, 12] : List (BitVec 32)),
          entry = (code.toNat, [12, 1, 12].count code) :=
  dfsInto_foldl_insert (by simp) (by simp)

end Trie

end LogProcess
