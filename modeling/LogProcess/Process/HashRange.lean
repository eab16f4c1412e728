import LogProcess.Common.ConsistentHash
import LogProcess.Process.QueryFreqFile

/-! # The range of the hash codes

The hash codes go through signed integers in three places: they become the `int` keys of
the hash ring, the traversal of the trie reads their decimal digits with `std::stoi`, and so
does loading the file of the query frequencies. All three copies of the hash stay
below `2 ^ 31`, so nothing is lost and nothing is thrown (`fnv1Hash32_range`).
-/

namespace LogProcess

/-- The code is a nonnegative `int`, and its decimal text is read back as one. -/
structure IntCode (code : BitVec 32) : Prop where
  bounded : code.toNat ≤ 2 ^ 31 - 1
  signed : code.toInt = code.toNat
  read : Decimal.stoi (Decimal.text code.toNat) = some (code.toNat : Int)

theorem intCode_of_lt {code : BitVec 32} (small : code.toNat < 2 ^ 31) : IntCode code :=
  ⟨Nat.le_sub_one_of_lt small, BitVec.toInt_eq_toNat_of_lt (by omega), Decimal.stoi_text small⟩

theorem intCode_fnvFinish (hash : BitVec 32) : IntCode (fnvFinish hash) :=
  intCode_of_lt (toNat_fnvFinish_lt hash)

/-- A trie of small codes is traversed without an exception. -/
theorem isSome_dfs {codes : List (BitVec 32)} (small : ∀ code ∈ codes, code.toNat < 2 ^ 31) :
    (codes.foldl Trie.insert Trie.new).dfs.isSome := by
  obtain ⟨dumpmap, traversed, _⟩ := Trie.exists_dfs_foldl_insert small
  rw [traversed, Option.isSome_some]

namespace QueryFreqStat

theorem countedCode_lt {kv : OrderedMap Str Str} {code : BitVec 32}
    (counted : countedCode kv = some code) : code.toNat < 2 ^ 31 := by
  obtain ⟨query, _, hashed, _⟩ := (countedCode_eq_some_iff kv code).mp counted
  rw [← hashed]
  exact toNat_fnvFinish_lt _

/-- The traversal after any records. -/
theorem isSome_dfs_foldl (records : List (OrderedMap Str Str)) :
    (records.foldl updataQueryFreqStat Trie.new).dfs.isSome := by
  rw [foldl_updataQueryFreqStat]
  apply isSome_dfs
  intro code member
  obtain ⟨kv, _, counted⟩ := List.mem_filterMap.mp member
  exact countedCode_lt counted

/-- Only the counter in a line with a small code can make loading throw. -/
theorem loadLine_eq_none_iff {code : BitVec 32} (small : code.toNat < 2 ^ 31) (qftree : Trie)
    (second : Str) : loadLine qftree (Decimal.text code.toNat ++ 9 :: second) = none ↔
      9 ∉ second ∧ Decimal.stoi second = none := by
  have present : Decimal.text code.toNat ++ 9 :: second ≠ [] :=
    List.append_ne_nil_of_left_ne_nil (Decimal.text_ne_nil _) _
  have pieces : Str.splitAt 9 (Decimal.text code.toNat ++ 9 :: second) =
      Decimal.text code.toNat :: Str.splitAt 9 second := by
    rw [Str.splitAt_append, Str.splitAt_of_not_mem (notMem_text (by decide) _),
      List.singleton_append]
  rw [loadLine, if_neg present, pieces]
  by_cases oneTab : 9 ∉ second
  · rw [Str.splitAt_of_not_mem oneTab]
    simp only [Decimal.stoi_text small, Option.bind_eq_bind, Option.bind_some,
      Option.bind_eq_none_iff, reduceCtorEq, imp_false, oneTab, not_false_eq_true, true_and]
    exact Option.eq_none_iff_forall_ne_some.symm
  · -- a line with more than one tab is skipped
    have length := Str.length_splitAt 9 second
    have tabs := List.count_pos_iff.mpr (not_not.mp oneTab)
    split
    · rename_i line
      rw [List.cons.injEq] at line
      rw [line.2, List.length_singleton] at length
      omega
    · exact iff_of_false (Option.some_ne_none _) fun both => oneTab both.1

end QueryFreqStat

/-- **Hash range.** The absolute value is never taken of the smallest `int`, every code is a
nonnegative `int` whose decimal text `std::stoi` reads, the keys of the ring are the codes,
the traversal of a trie of codes throws nothing, and loading a line throws nothing at its code. -/
theorem fnv1Hash32_range :
    (∀ hash : BitVec 32, fnvFinish hash =
      (if (fnvMix hash).slt 0 then -fnvMix hash else fnvMix hash) ∧
        fnvMix hash ≠ BitVec.intMin 32) ∧
    (∀ str : Str, IntCode (fnv1Hash32 str) ∧
      ConsistentHash.hashcode fnv1Hash32 str = (fnv1Hash32 str).toNat) ∧
    (∀ str : Str, IntCode (ConsistentHash.fnv1Hash32 str) ∧
      ConsistentHash.hashcode ConsistentHash.fnv1Hash32 str =
        (ConsistentHash.fnv1Hash32 str).toNat) ∧
    (∀ (str : Str) (len : Int), IntCode (QueryFreqStat.fnv1Hash32 str len)) ∧
    (∀ strings : List (Str × Int), ((strings.map fun entry =>
      QueryFreqStat.fnv1Hash32 entry.1 entry.2).foldl Trie.insert Trie.new).dfs.isSome) ∧
    (∀ records : List (OrderedMap Str Str),
      (records.foldl QueryFreqStat.updataQueryFreqStat Trie.new).dfs.isSome) ∧
    ∀ (str : Str) (len : Int) (qftree : Trie) (second : Str),
      QueryFreqStat.loadLine qftree
          (Decimal.text (QueryFreqStat.fnv1Hash32 str len).toNat ++ 9 :: second) = none ↔
        9 ∉ second ∧ Decimal.stoi second = none := by
  refine ⟨fun hash => ⟨fnvFinish_eq hash, fnvMix_ne_intMin hash⟩, fun str => ?_, fun str => ?_,
    fun str len => intCode_fnvFinish _, fun strings => ?_, QueryFreqStat.isSome_dfs_foldl,
    fun str len qftree second => ?_⟩
  · exact ⟨intCode_fnvFinish _, (intCode_fnvFinish _).signed⟩
  · exact ⟨intCode_fnvFinish _, (intCode_fnvFinish _).signed⟩
  · apply isSome_dfs
    intro code member
    obtain ⟨entry, _, rfl⟩ := List.mem_map.mp member
    exact toNat_fnvFinish_lt _
  · exact QueryFreqStat.loadLine_eq_none_iff (toNat_fnvFinish_lt _) qftree second

end LogProcess
