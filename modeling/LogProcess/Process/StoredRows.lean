import LogProcess.Foundation.Sorting
import LogProcess.Process.DataReceive
import LogProcess.Process.ReadFromRocksdb

/-! # The rows of a range

What `ReadFromRocksdb` of `process/process_impl.cc` finds after any records were received, for any
applications and in any order of their times. Each application has its own store
(`ProcessImpl.find?_foldl_keep`), and a range gives the records of the application whose times lie
in it, by ascending time and for one time in the order in which they were received
(`ProcessImpl.readFromRocksdb_foldl_keep`).
-/

namespace LogProcess.ProcessImpl

/-- The application whose store takes a record. -/
def keptApplication (kv : Kvpairs) : Str := (kv.find? (bytes "application")).getD []

/-- The time under which a record is stored. -/
def keptTime (strTime2Unixtime : Str → Int) (kv : Kvpairs) : Int :=
  strTime2Unixtime ((kv.find? (bytes "timestamp")).getD [])

/-- The text of the time has ten digits, or the time is negative, as it is for a text that is no
time. -/
def Dated (time : Int) : Prop := time < 0 ∨ (10 ^ 9 ≤ time ∧ time < 10 ^ 10)

instance (time : Int) : Decidable (Dated time) :=
  inferInstanceAs (Decidable (_ ∨ _))

/-! ### The stores of the applications -/

section Stores

variable {Database : Type} {rocksdb : RocksDB Database}
  {operands : Database → Option Nat → Str → List Str} {cjson : CJson}
  {strTime2Unixtime : Str → Int}

theorem find?_storage_of_ne (storager : OrderedMap Str (StorageImpl Database)) {type query : Str}
    (other : query ≠ type) (key : Str) (kv : Kvpairs) :
    (storage rocksdb cjson storager type key kv).find? query = storager.find? query := by
  rw [storage]
  cases storager.find? type with
  | none => rfl
  | some storageImpl => exact OrderedMap.find?_assign_of_ne _ _ other

theorem find?_storage_congr {first second : OrderedMap Str (StorageImpl Database)} {type : Str}
    (same : first.find? type = second.find? type) (key : Str) (kv : Kvpairs) :
    (storage rocksdb cjson first type key kv).find? type =
      (storage rocksdb cjson second type key kv).find? type := by
  rw [storage, storage, same]
  cases found : second.find? type with
  | none =>
      dsimp only
      exact same
  | some storageImpl =>
      exact (OrderedMap.find?_assign_self ..).trans (OrderedMap.find?_assign_self ..).symm

variable (strTime2Unixtime) in
/-- The records of an application with their times. -/
def callsOf (type : Str) (kvs : List Kvpairs) : List (Int × Kvpairs) :=
  (kvs.filter fun kv => keptApplication kv = type).map
    fun kv => (keptTime strTime2Unixtime kv, kv)

/-- **Run lemma.** The store of an application takes its own records only. -/
theorem find?_foldl_keep (kept : OrderedMap Str (StorageImpl Database) × Trie) (type : Str)
    (kvs : List Kvpairs) :
    (kvs.foldl (keep rocksdb cjson strTime2Unixtime) kept).1.find? type =
      (storeAll rocksdb cjson type kept.1 (callsOf strTime2Unixtime type kvs)).find? type := by
  induction kvs using List.reverseRecOn with
  | nil => rfl
  | append_singleton kvs kv ih =>
      rw [List.foldl_concat, callsOf, List.filter_append, List.map_append, ← callsOf]
      by_cases same : keptApplication kv = type
      · subst same
        rw [List.filter_singleton, decide_eq_true rfl, cond_true, List.map_singleton, storeAll,
          List.foldl_concat, ← storeAll]
        exact find?_storage_congr ih _ kv
      · rw [List.filter_singleton, decide_eq_false same, cond_false, List.map_nil, List.append_nil,
          ← ih]
        exact find?_storage_of_ne _ (Ne.symm same) _ kv

end Stores

/-! ### Reading -/

section Reading

variable {Database : Type} {rocksdb : RocksDB Database}
  {operands : Database → Option Nat → Str → List Str} {cjson : CJson}
  {strTime2Unixtime : Str → Int}

/-- Reading a range of a store whose operands are the texts of some records. -/
theorem read_of_merged (lawful : rocksdb.Lawful operands)
    {storager : OrderedMap Str (StorageImpl Database)} {type : Str}
    {storageImpl : StorageImpl Database} (found : storager.find? type = some storageImpl)
    {calls : List (Int × Kvpairs)} (nonempty : ∀ call ∈ calls, payload cjson call.2 ≠ [])
    (times : ∀ call ∈ calls, Dated call.1)
    (merged : ∀ key, operands storageImpl.rdb.db none key =
      (calls.filter fun call => key = Decimal.intText call.1).map fun call => payload cjson call.2)
    {st ed : Int} (low : 10 ^ 9 ≤ st) (high : st < 10 ^ 10) (bounded : ed ≠ -1)
    (readable : -2 ^ 63 ≤ ed ∧ ed < 2 ^ 63) :
    read rocksdb storager type st ed =
      some (((storedTimes calls).filter fun time => st ≤ time ∧ time ≤ ed).map
        (joinedUnder cjson calls)) := by
  have visited := seek_eq cjson lawful nonempty times merged low high
  have fits : ∀ time ∈ (storedTimes calls).filter fun time => st ≤ time,
      -2 ^ 63 ≤ time ∧ time < 2 ^ 63 := by
    intro time member
    rw [List.mem_filter, decide_eq_true_eq, mem_storedTimes] at member
    obtain ⟨⟨call, listed, rfl⟩, reached⟩ := member
    have dated := times call listed
    rw [Dated] at dated
    omega
  have cut : ((storedTimes calls).filter fun time => st ≤ time).takeWhile (fun time => time ≤ ed) =
      (storedTimes calls).filter fun time => st ≤ time ∧ time ≤ ed := by
    refine (OrderedMap.takeWhile_le_eq_filter_le (fun time : Int => time) ed
      ((storedTimes_ascending calls).filter _)).trans ?_
    rw [List.filter_filter]
    exact List.filter_congr fun time _ => by rw [Bool.and_comm, Bool.decide_and]
  rw [read, found]
  simp only [StorageImpl.rangeGet, Rocksdb.rangeScan, bounded, ↓reduceIte, Decimal.intText_ne_nil,
    ne_eq, not_false_eq_true, and_self, Str.cstr_eq_self (Decimal.zero_notMem_intText st), visited,
    Rocksdb.scan_map_text (joinedUnder cjson calls) fits readable, cut, Option.bind_eq_bind,
    Option.bind_some]

/-- The pieces of the joined texts of some times. -/
theorem splitAt_joinedUnder {calls : List (Int × Kvpairs)} {times : List Int}
    (stored : ∀ time ∈ times, time ∈ storedTimes calls) :
    (times.map (joinedUnder cjson calls)).flatMap (Str.splitAt 124) =
      (times.flatMap (storedUnder cjson calls)).flatMap (Str.splitAt 124) := by
  rw [List.flatMap_map, List.flatMap_assoc]
  refine List.flatMap_congr fun time member => ?_
  obtain ⟨call, listed, same⟩ := (mem_storedTimes calls time).mp (stored time member)
  have present : payload cjson call.2 ∈ storedUnder cjson calls time :=
    List.mem_map_of_mem (List.mem_filter.mpr ⟨listed, decide_eq_true same⟩)
  exact Str.splitAt_intercalate 124 (List.ne_nil_of_mem present)

/-- The texts of the records of an application, time by time, are those of the sorted records. -/
theorem flatMap_storedUnder (type : Str) (kvs : List Kvpairs) (st ed : Int) :
    ((storedTimes (callsOf strTime2Unixtime type kvs)).filter
        fun time => st ≤ time ∧ time ≤ ed).flatMap
          (storedUnder cjson (callsOf strTime2Unixtime type kvs)) =
      ((kvs.filter fun kv => keptApplication kv = type ∧ st ≤ keptTime strTime2Unixtime kv ∧
        keptTime strTime2Unixtime kv ≤ ed).mergeSort fun first second =>
          keptTime strTime2Unixtime first ≤ keptTime strTime2Unixtime second).map
            (payload cjson) := by
  rw [← Sorting.flatMap_filter_eq_mergeSort _
    ((storedTimes_ascending (callsOf strTime2Unixtime type kvs)).filter
      fun time => st ≤ time ∧ time ≤ ed), List.map_flatMap]
  · refine List.flatMap_congr fun time member => ?_
    rw [List.mem_filter, decide_eq_true_eq] at member
    rw [storedUnder, callsOf, List.filter_map, List.map_map, List.filter_filter, List.filter_filter]
    refine congrArg (List.map (payload cjson)) (List.filter_congr fun kv _ => ?_)
    simp only [Function.comp_apply]
    by_cases same : keptTime strTime2Unixtime kv = time
    · simp [same, member.2]
    · simp [same]
  · intro kv member
    rw [List.mem_filter, decide_eq_true_eq] at member
    obtain ⟨listed, application, inside⟩ := member
    refine List.mem_filter.mpr ⟨(mem_storedTimes ..).mpr ⟨_, List.mem_map_of_mem
      (List.mem_filter.mpr ⟨listed, decide_eq_true application⟩), rfl⟩, decide_eq_true inside⟩

variable (strTime2Unixtime) in
/-- The rows of a range of times, by ascending time. What JSON escapes comes back escaped. -/
def sortedRows (type : Str) (st ed : Int) (kvs : List Kvpairs) : List Kvpairs :=
  ((kvs.filter fun kv => keptApplication kv = type ∧ st ≤ keptTime strTime2Unixtime kv ∧
    keptTime strTime2Unixtime kv ≤ ed).mergeSort fun first second =>
      keptTime strTime2Unixtime first ≤ keptTime strTime2Unixtime second).map
        fun kv => kv.mapValues FlatJson.escape

theorem sortedRows_perm (type : Str) (st ed : Int) (kvs : List Kvpairs) :
    (sortedRows strTime2Unixtime type st ed kvs).Perm
      ((kvs.filter fun kv => keptApplication kv = type ∧ st ≤ keptTime strTime2Unixtime kv ∧
        keptTime strTime2Unixtime kv ≤ ed).map fun kv => kv.mapValues FlatJson.escape) :=
  (List.mergeSort_perm _ _).map _

/-- **The rows of a range** after any records were received. -/
theorem readFromRocksdb_foldl_keep (lawful : rocksdb.Lawful operands) (json : cjson.Lawful)
    {types : List Str} {type : Str} (registered : type ∈ types) (qftree : Trie)
    {kvs : List Kvpairs} (free : ∀ kv ∈ kvs, NulFree kv) (bars : ∀ kv ∈ kvs, BarFree kv)
    (dated : ∀ kv ∈ kvs, Dated (keptTime strTime2Unixtime kv)) {st ed : Int} (low : 10 ^ 9 ≤ st)
    (high : st < 10 ^ 10) (bounded : ed ≠ -1) (readable : -2 ^ 63 ≤ ed ∧ ed < 2 ^ 63) :
    readFromRocksdb rocksdb cjson (kvs.foldl (keep rocksdb cjson strTime2Unixtime)
        (storagerInit rocksdb types, qftree)).1 type st ed =
      some (sortedRows strTime2Unixtime type st ed kvs) := by
  obtain ⟨storageImpl, found, _, merged⟩ := operands_storeAll cjson lawful registered
    (callsOf strTime2Unixtime type kvs)
  rw [← find?_foldl_keep (storagerInit rocksdb types, qftree)] at found
  have listed : ∀ call ∈ callsOf strTime2Unixtime type kvs,
      call.2 ∈ kvs ∧ call.1 = keptTime strTime2Unixtime call.2 := by
    intro call member
    obtain ⟨kv, kept, rfl⟩ := List.mem_map.mp member
    exact ⟨(List.mem_filter.mp kept).1, rfl⟩
  have nonempty : ∀ call ∈ callsOf strTime2Unixtime type kvs, payload cjson call.2 ≠ [] := by
    intro call member
    rw [payload_eq_compact json (free call.2 (listed call member).1)]
    exact List.cons_ne_nil _ _
  have times : ∀ call ∈ callsOf strTime2Unixtime type kvs, Dated call.1 := by
    intro call member
    rw [(listed call member).2]
    exact dated call.2 (listed call member).1
  have kept (kv : Kvpairs) (member : kv ∈ (kvs.filter fun kv => keptApplication kv = type ∧
      st ≤ keptTime strTime2Unixtime kv ∧ keptTime strTime2Unixtime kv ≤ ed).mergeSort
        fun first second => keptTime strTime2Unixtime first ≤ keptTime strTime2Unixtime second) :
      kv ∈ kvs := (List.mem_filter.mp (List.mem_mergeSort.mp member)).1
  rw [readFromRocksdb, read_of_merged lawful found nonempty times merged low high bounded readable,
    Option.bind_eq_bind, Option.bind_some,
    splitAt_joinedUnder fun time member => (List.mem_filter.mp member).1, flatMap_storedUnder,
    splitAt_payloads json (fun kv member => free kv (kept kv member))
      fun kv member => bars kv (kept kv member),
    recordsOf_payloads json fun kv member => free kv (kept kv member), Option.getD_some,
    sortedRows]

end Reading

end LogProcess.ProcessImpl
