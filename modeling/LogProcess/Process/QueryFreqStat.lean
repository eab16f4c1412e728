import LogProcess.Common.Trie
import LogProcess.Foundation.MachineInt
import LogProcess.Foundation.OrderedMap

/-! # Query frequencies

`process/process_stat_query_freq.cc` counts the queries of the records that had no
result, under the hash of the query in a decimal trie. A search therefore finds
the number of those records whose query has the same hash
(`QueryFreqStat.searchExists_eq_countP`).
-/

namespace LogProcess.QueryFreqStat

/-- The static `FNV1_32_HASH`, whose length is an `int`. -/
def fnv1Hash32 (key : Str) (len : Int) : BitVec 32 := fnv1Hash32Length key len.toNat

/-- `UpdataQueryFreqStat` on the trie that counts the queries. -/
def updataQueryFreqStat (qftree : Trie) (kv : OrderedMap Str Str) : Trie :=
  match kv.find? (bytes "query"), kv.find? (bytes "srcid"), kv.find? (bytes "resno") with
  | some query, some srcid, some resno =>
      if resno = [] then
        if srcid ≠ bytes "4514" then
          qftree.insert (fnv1Hash32 query (int32 query.length))
        else
          qftree
      else
        qftree
  | _, _, _ => qftree

/-- The loop over a query that is passed on as a null-terminated string, with the length of the
whole one, does not go behind the null character. -/
def HashesInside (query : Str) : Prop := int32 query.length ≤ query.cstr.length + 1

instance : DecidablePred HashesInside := fun _ => inferInstanceAs (Decidable (_ ≤ _))

/-- `SearchExists`, where the hash is taken of the null-terminated string but with the
length of the whole one. The srcid is not used. The source is only defined for a query that
`HashesInside` holds of. -/
def searchExists (qftree : Trie) (query _srcid : Str) : Bool × Nat :=
  qftree.search (fnv1Hash32 query.cstr (int32 query.length))

/-- A query without null characters is hashed inside. -/
theorem hashesInside_of_free {query : Str} (free : 0 ∉ query) : HashesInside query := by
  rw [HashesInside, Str.cstr_eq_self free]
  exact (int32_le query.length).trans (Int.le_add_one le_rfl)

/-- The code a record is counted under. -/
def countedCode (kv : OrderedMap Str Str) : Option (BitVec 32) :=
  match kv.find? (bytes "query"), kv.find? (bytes "srcid"), kv.find? (bytes "resno") with
  | some query, some srcid, some resno =>
      if resno = [] ∧ srcid ≠ bytes "4514" then
        some (fnv1Hash32 query (int32 query.length))
      else
        none
  | _, _, _ => none

/-- The record has the three fields, an empty resno, another srcid than 4514, and a
query with the property. -/
def Counted (matching : Str → Prop) (kv : OrderedMap Str Str) : Prop :=
  ∃ query, kv.find? (bytes "query") = some query ∧ matching query ∧
    (∃ srcid, kv.find? (bytes "srcid") = some srcid ∧ srcid ≠ bytes "4514") ∧
    kv.find? (bytes "resno") = some []

theorem updataQueryFreqStat_eq (qftree : Trie) (kv : OrderedMap Str Str) :
    updataQueryFreqStat qftree kv = (countedCode kv).elim qftree qftree.insert := by
  unfold updataQueryFreqStat countedCode
  split
  · rename_i query srcid resno _ _ _
    by_cases empty : resno = []
    · by_cases weather : srcid = bytes "4514"
      · simp only [empty, weather, ne_eq, not_true_eq_false, and_false, ↓reduceIte,
          Option.elim_none]
      · simp only [empty, weather, ne_eq, not_false_eq_true, and_self, ↓reduceIte,
          Option.elim_some]
    · simp only [empty, ↓reduceIte, false_and, Option.elim_none]
  · rfl

/-- The records that are counted under a code. -/
theorem countedCode_eq_some_iff (kv : OrderedMap Str Str) (code : BitVec 32) :
    countedCode kv = some code ↔
      Counted (fun query => fnv1Hash32 query (int32 query.length) = code) kv := by
  unfold countedCode Counted
  cases kv.find? (bytes "query") with
  | none => simp
  | some query =>
      cases kv.find? (bytes "srcid") with
      | none => simp
      | some srcid =>
          cases kv.find? (bytes "resno") with
          | none => simp
          | some resno =>
              simp only [Option.ite_none_right_eq_some, Option.some.injEq, exists_eq_left']
              tauto

/-- The trie after some records holds the codes of the counted ones. -/
theorem foldl_updataQueryFreqStat (records : List (OrderedMap Str Str)) (qftree : Trie) :
    records.foldl updataQueryFreqStat qftree =
      (records.filterMap countedCode).foldl Trie.insert qftree := by
  induction records generalizing qftree with
  | nil => rfl
  | cons kv rest ih =>
      rw [List.foldl_cons, ih, updataQueryFreqStat_eq, List.filterMap_cons]
      cases countedCode kv <;> rfl

theorem Counted.mono {first second : Str → Prop} (implies : ∀ query, first query → second query)
    {kv : OrderedMap Str Str} (counted : Counted first kv) : Counted second kv := by
  obtain ⟨query, found, matching, rest⟩ := counted
  exact ⟨query, found, implies query matching, rest⟩

open Classical in
/-- **Frequency counting.** The counter found for a query is the number of counted
records whose query has the same hash, so at least the number of those with the
query itself. -/
theorem searchExists_eq_countP (records : List (OrderedMap Str Str)) (query srcid : Str)
    (free : 0 ∉ query) (bounded : records.countP (Counted fun _ => True) < 2 ^ 32) :
    (searchExists (records.foldl updataQueryFreqStat Trie.new) query srcid).2 =
        records.countP (Counted fun other => fnv1Hash32 other (int32 other.length) =
          fnv1Hash32 query (int32 query.length)) ∧
      records.countP (Counted fun other => other = query) ≤
        (searchExists (records.foldl updataQueryFreqStat Trie.new) query srcid).2 := by
  have exact : (searchExists (records.foldl updataQueryFreqStat Trie.new) query srcid).2 =
      records.countP (Counted fun other => fnv1Hash32 other (int32 other.length) =
        fnv1Hash32 query (int32 query.length)) := by
    have counts : (records.filterMap countedCode).count
          (fnv1Hash32 query (int32 query.length)) =
        records.countP (Counted fun other => fnv1Hash32 other (int32 other.length) =
          fnv1Hash32 query (int32 query.length)) := by
      rw [List.count_filterMap]
      apply List.countP_congr
      intro kv _
      rw [beq_iff_eq, countedCode_eq_some_iff, decide_eq_true_eq]
    have small : records.countP (Counted fun other => fnv1Hash32 other (int32 other.length) =
        fnv1Hash32 query (int32 query.length)) ≤ records.countP (Counted fun _ => True) := by
      apply List.countP_mono_left
      intro kv _ counted
      rw [decide_eq_true_eq] at counted ⊢
      exact counted.mono fun _ _ => trivial
    rw [searchExists, Str.cstr_eq_self free, foldl_updataQueryFreqStat,
      Trie.search_foldl_insert_snd, counts, Nat.mod_eq_of_lt (small.trans_lt bounded)]
  refine ⟨exact, exact ▸ ?_⟩
  apply List.countP_mono_left
  intro kv _ counted
  rw [decide_eq_true_eq] at counted ⊢
  exact counted.mono fun other same => by rw [same]

open Classical in
/-- A record that is counted, next to one that has a result. -/
theorem searchExists_counts_empty_resno :
    (searchExists ([OrderedMap.ofList [(bytes "query", bytes "q"), (bytes "srcid", bytes "1"),
        (bytes "resno", [])], OrderedMap.ofList [(bytes "query", bytes "q"),
        (bytes "srcid", bytes "1"), (bytes "resno", bytes "2")]].foldl updataQueryFreqStat Trie.new)
          (bytes "q") []).2 = 1 := by
  rw [(searchExists_eq_countP _ (bytes "q") [] (by decide)
    (List.countP_le_length.trans_lt (by decide))).1, List.countP_cons_of_pos,
    List.countP_cons_of_neg, List.countP_nil]
  · rw [decide_eq_true_eq]
    intro hexadecimal
    obtain ⟨_, _, _, _, resno⟩ := hexadecimal
    exact absurd resno (by decide)
  · rw [decide_eq_true_eq]
    exact ⟨bytes "q", by decide, rfl, ⟨bytes "1", by decide, by decide⟩, by decide⟩

end LogProcess.QueryFreqStat
