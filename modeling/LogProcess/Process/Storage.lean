import LogProcess.Common.Rocksdb
import LogProcess.Foundation.FlatJson

/-! # Storing and reading records

`process/process_storage.cc` and the functions `Storage` and `Read` of
`process/process_impl.cc`. A record is printed as JSON, and the text without newlines
and tabs is merged into the decimal time. After any calls the operands of a key are the
texts stored under it (`ProcessImpl.operands_storeAll`), and reading a range of times
gives their joined texts in ascending order (`ProcessImpl.read_range_eq`).
-/

namespace LogProcess

/-- The functions of the JSON library that the code uses. `print` is `cJSON_Print` of an
object with string members, and `parse` is `cJSON_Parse` with the name, if there is one,
and the printed text of each child of the root. -/
structure CJson where
  print : List (Str × Str) → Str
  parse : Str → Option (List (Option Str × Str))

/-- A JSON library that handles flat objects of strings only. -/
def CJson.flat : CJson where
  print := FlatJson.formatted
  parse := fun text => (FlatJson.parse text).map
    fun members => members.map fun member => (some member.1, FlatJson.quote member.2)

structure StorageImpl (Database : Type) where
  rdb : Rocksdb Database
  cfs : List Str

namespace StorageImpl

variable {Database : Type} (rocksdb : RocksDB Database)

/-- The constructor without column families. -/
def new : StorageImpl Database where
  rdb := { db := rocksdb.opened, cfmap := OrderedMap.empty }
  cfs := []

/-- The loop of `Write` over the column families. -/
def writeAll (key value : Str) : List Str → Rocksdb Database → Bool × Rocksdb Database
  | [], rdb => (true, rdb)
  | i :: rest, rdb =>
      let (res, rdb) := rdb.put rocksdb key value i
      if res then writeAll key value rest rdb else (false, (rdb.delete rocksdb key).2)

def write (storage : StorageImpl Database) (key value cf : Str) : Bool × StorageImpl Database :=
  let (res, rdb) := if cf ≠ [] ∨ storage.cfs.length = 0 then storage.rdb.put rocksdb key value cf
    else writeAll rocksdb key value storage.cfs storage.rdb
  (res, { storage with rdb := rdb })

def singleGet (storage : StorageImpl Database) (key cf : Str) : Bool × Str :=
  storage.rdb.get rocksdb key cf

def rangeGet (storage : StorageImpl Database) (start last cf : Str) : Option (Bool × List Str) :=
  storage.rdb.rangeScan rocksdb start last cf

end StorageImpl

namespace ProcessImpl

section Model

variable {Database : Type} (rocksdb : RocksDB Database) (cjson : CJson)

/-- The stores that the constructor opens for the types. -/
def storagerInit (types : List Str) : OrderedMap Str (StorageImpl Database) :=
  types.foldl (fun storager type => storager.insertNew type (StorageImpl.new rocksdb))
    OrderedMap.empty

/-- The text that is stored for a record. -/
def payload (kv : OrderedMap Str Str) : Str :=
  (cjson.print (kv.entries.map fun entry => (entry.1.cstr, entry.2.cstr))).cstr.filter
    fun char => char ≠ 10 ∧ char ≠ 9

def storage (storager : OrderedMap Str (StorageImpl Database)) (type key : Str)
    (kv : OrderedMap Str Str) : OrderedMap Str (StorageImpl Database) :=
  match storager.find? type with
  | none => storager
  | some storageImpl =>
      storager.assign type (storageImpl.write rocksdb key (payload cjson kv) []).2

/-- `Read`, without a result when an exception leaves it. -/
def read (storager : OrderedMap Str (StorageImpl Database)) (type : Str) (start last : Int) :
    Option (List Str) :=
  match storager.find? type with
  | none => some []
  | some storageImpl =>
      if last = -1 then
        let (_, result) := storageImpl.singleGet rocksdb (Decimal.intText start) []
        some (if result ≠ [] then [result] else [])
      else do
        let (_, results) ←
          storageImpl.rangeGet rocksdb (Decimal.intText start) (Decimal.intText last) []
        some results

/-- Records stored for one type, each under a time. -/
def storeAll (type : Str) (storager : OrderedMap Str (StorageImpl Database))
    (calls : List (Int × OrderedMap Str Str)) : OrderedMap Str (StorageImpl Database) :=
  calls.foldl (fun storager call =>
    storage rocksdb cjson storager type (Decimal.intText call.1) call.2) storager

/-- The texts stored under one time, in the order of the calls. -/
def storedUnder (calls : List (Int × OrderedMap Str Str)) (time : Int) : List Str :=
  (calls.filter fun call => call.1 = time).map fun call => payload cjson call.2

end Model

/-! ### Operands -/

section Operands

variable {Database : Type} {rocksdb : RocksDB Database}
  {operands : Database → Option Nat → Str → List Str} (cjson : CJson)

/-- Exactly the given types have a store, and it is new. -/
theorem find?_storagerInit (types : List Str) (type : Str) :
    (storagerInit rocksdb types).find? type =
      if type ∈ types then some (StorageImpl.new rocksdb) else none := by
  induction types using List.reverseRecOn generalizing type with
  | nil => rfl
  | append_singleton types last ih =>
      rw [storagerInit, List.foldl_concat, ← storagerInit,
        OrderedMap.find?_insertNew]
      simp only [ih, List.mem_append, List.mem_singleton]
      by_cases same : type = last
      · by_cases earlier : last ∈ types <;> simp [same, earlier]
      · simp [same]

theorem zero_notMem_payload (kv : OrderedMap Str Str) : (0 : UInt8) ∉ payload cjson kv :=
  fun member => Str.cstr_free _ (List.mem_filter.mp member).1

/-- A store without column families after one more record. -/
theorem operands_write (lawful : rocksdb.Lawful operands) {storageImpl : StorageImpl Database}
    (plain : storageImpl.cfs = []) (time : Int) (kv : OrderedMap Str Str) (key : Str) :
    operands (storageImpl.write rocksdb (Decimal.intText time) (payload cjson kv) []).2.rdb.db
        none key =
      operands storageImpl.rdb.db none key ++
        if key = Decimal.intText time then [payload cjson kv] else [] := by
  simp only [StorageImpl.write, plain, Rocksdb.put, ne_eq, not_true_eq_false, List.length_nil,
    or_true, ↓reduceIte, lawful.operands_merge, true_and,
    Str.cstr_eq_self (Decimal.zero_notMem_intText time),
    Str.cstr_eq_self (zero_notMem_payload cjson kv)]
  split
  · rename_i same
    rw [same]
  · rw [List.append_nil]

/-- **Run lemma.** The operands of a key are the texts stored under it. -/
theorem operands_storeAll (lawful : rocksdb.Lawful operands) {types : List Str} {type : Str}
    (registered : type ∈ types) (calls : List (Int × OrderedMap Str Str)) :
    ∃ storageImpl,
      (storeAll rocksdb cjson type (storagerInit rocksdb types) calls).find? type =
        some storageImpl ∧ storageImpl.cfs = [] ∧ ∀ key,
        operands storageImpl.rdb.db none key =
          (calls.filter fun call => key = Decimal.intText call.1).map
            fun call => payload cjson call.2 := by
  induction calls using List.reverseRecOn with
  | nil =>
      exact ⟨_, (find?_storagerInit types type).trans (if_pos registered), rfl,
        fun key => lawful.operands_opened none key⟩
  | append_singleton calls call ih =>
      obtain ⟨storageImpl, found, plain, merged⟩ := ih
      refine ⟨(storageImpl.write rocksdb (Decimal.intText call.1) (payload cjson call.2) []).2,
        ?_, plain, fun key => ?_⟩
      · rw [storeAll, List.foldl_concat, ← storeAll, storage,
          found]
        exact OrderedMap.find?_assign_self _ _ _
      · rw [operands_write cjson lawful plain, merged, List.filter_append, List.map_append,
          List.filter_singleton]
        by_cases same : key = Decimal.intText call.1 <;> simp [same]

/-- The stores have no column families, and their keys are times of 64 bits. -/
def Timed (operands : Database → Option Nat → Str → List Str)
    (storager : OrderedMap Str (StorageImpl Database)) : Prop :=
  ∀ type storageImpl, storager.find? type = some storageImpl → storageImpl.cfs = [] ∧
    ∀ key, operands storageImpl.rdb.db none key ≠ [] →
      ∃ time, (-2 ^ 63 ≤ time ∧ time < 2 ^ 63) ∧ key = Decimal.intText time

theorem timed_storagerInit (lawful : rocksdb.Lawful operands) (types : List Str) :
    Timed operands (storagerInit rocksdb types) := by
  intro type storageImpl found
  rw [find?_storagerInit, Option.ite_none_right_eq_some, Option.some.injEq] at found
  obtain ⟨_, rfl⟩ := found
  exact ⟨rfl, fun key stored => absurd (lawful.operands_opened none key) stored⟩

/-- A record that is stored under a time keeps the stores timed. -/
theorem Timed.storage (lawful : rocksdb.Lawful operands)
    {storager : OrderedMap Str (StorageImpl Database)} (timed : Timed operands storager)
    {time : Int} (readable : -2 ^ 63 ≤ time ∧ time < 2 ^ 63) (type : Str)
    (kv : OrderedMap Str Str) :
    Timed operands (storage rocksdb cjson storager type (Decimal.intText time) kv) := by
  rw [ProcessImpl.storage]
  cases stored : storager.find? type with
  | none => exact timed
  | some storageImpl =>
      intro query found present
      dsimp only at present
      rw [OrderedMap.find?_assign] at present
      split at present
      · obtain rfl := Option.some.inj present
        obtain ⟨plain, times⟩ := timed type storageImpl stored
        refine ⟨plain, fun key operand => ?_⟩
        rw [operands_write cjson lawful plain] at operand
        by_cases same : key = Decimal.intText time
        · exact ⟨time, readable, same⟩
        · rw [if_neg same, List.append_nil] at operand
          exact times key operand
      · exact timed query found present

/-- Reading timed stores throws nothing. -/
theorem Timed.isSome_read (lawful : rocksdb.Lawful operands)
    {storager : OrderedMap Str (StorageImpl Database)} (timed : Timed operands storager)
    (type : Str) (start : Int) {last : Int} (readable : -2 ^ 63 ≤ last ∧ last < 2 ^ 63) :
    (read rocksdb storager type start last).isSome := by
  rw [ProcessImpl.read]
  cases stored : storager.find? type with
  | none => rfl
  | some storageImpl =>
      dsimp only
      split
      · rfl
      · have scans : (Rocksdb.scan (Decimal.intText last)
            (rocksdb.seek storageImpl.rdb.db none (Decimal.intText start).cstr)).isSome := by
          refine Rocksdb.isSome_scan (fun entry visited => ?_) readable
          refine (timed type storageImpl stored).2 entry.1 fun missing => ?_
          have got := ((lawful.mem_seek ..).mp visited).2
          rw [lawful.get_eq, if_pos missing] at got
          cases got
        obtain ⟨values, scanned⟩ := Option.isSome_iff_exists.mp scans
        simp only [StorageImpl.rangeGet, Rocksdb.rangeScan, ne_eq, Decimal.intText_ne_nil,
          not_false_eq_true, and_self, ↓reduceIte, scanned, Option.bind_eq_bind, Option.bind_some,
          Option.isSome_some]

end Operands

/-! ### Reading a range -/

section Range

variable {Database : Type} {rocksdb : RocksDB Database}
  {operands : Database → Option Nat → Str → List Str} (cjson : CJson)

/-- The times of the calls in ascending order, each once. -/
def storedTimes (calls : List (Int × OrderedMap Str Str)) : List Int :=
  (calls.map Prod.fst).toFinset.sort (· ≤ ·)

/-- The joined texts stored under one time. -/
def joinedUnder (calls : List (Int × OrderedMap Str Str)) (time : Int) : Str :=
  (bytes "|").intercalate (storedUnder cjson calls time)

theorem mem_storedTimes (calls : List (Int × OrderedMap Str Str)) (time : Int) :
    time ∈ storedTimes calls ↔ ∃ call ∈ calls, call.1 = time := by
  rw [storedTimes, Finset.mem_sort, List.mem_toFinset, List.mem_map]

theorem storedTimes_ascending (calls : List (Int × OrderedMap Str Str)) :
    (storedTimes calls).Pairwise (· < ·) :=
  (Finset.sortedLT_sort _).pairwise

/-- Reading the key of a time gives its joined texts, if there are any. -/
theorem get_eq_joinedUnder (lawful : rocksdb.Lawful operands) {database : Database}
    {calls : List (Int × OrderedMap Str Str)}
    (nonempty : ∀ call ∈ calls, payload cjson call.2 ≠ [])
    (merged : ∀ key, operands database none key =
      (calls.filter fun call => key = Decimal.intText call.1).map fun call => payload cjson call.2)
    (key value : Str) :
    rocksdb.get database none key = some value ↔
      ∃ time ∈ storedTimes calls, Decimal.intText time = key ∧
        joinedUnder cjson calls time = value := by
  have stored (time : Int) : operands database none (Decimal.intText time) =
      storedUnder cjson calls time := by
    rw [merged, storedUnder]
    simp only [Decimal.intText_injective.eq_iff, eq_comm]
  have joined (time : Int) : fullMergeV2 none (storedUnder cjson calls time) =
      joinedUnder cjson calls time := by
    apply fullMergeV2_eq_intercalate
    intro operand member
    obtain ⟨call, listed, rfl⟩ := List.mem_map.mp member
    exact nonempty call (List.mem_filter.mp listed).1
  rw [lawful.get_eq]
  refine ⟨?_, ?_⟩
  · intro found
    split at found
    · cases found
    · rename_i some
      rw [Option.some.injEq] at found
      rw [merged, List.map_eq_nil_iff, List.filter_eq_nil_iff] at some
      push Not at some
      obtain ⟨call, member, same⟩ := some
      have same := of_decide_eq_true same
      refine ⟨call.1, (mem_storedTimes calls _).mpr ⟨call, member, rfl⟩, same.symm, ?_⟩
      rw [← joined, ← stored, ← same]
      exact found
  · intro recorded
    obtain ⟨time, member, rfl, rfl⟩ := recorded
    obtain ⟨call, listed, rfl⟩ := (mem_storedTimes calls _).mp member
    have some : storedUnder cjson calls call.1 ≠ [] :=
      List.ne_nil_of_mem (List.mem_map_of_mem
        (List.mem_filter.mpr ⟨listed, decide_eq_true rfl⟩))
    rw [stored, if_neg some, joined]

/-- The iterator visits the stored times from the first one on in ascending order. -/
theorem seek_eq (lawful : rocksdb.Lawful operands) {database : Database}
    {calls : List (Int × OrderedMap Str Str)}
    (nonempty : ∀ call ∈ calls, payload cjson call.2 ≠ [])
    (times : ∀ call ∈ calls, call.1 < 0 ∨ (10 ^ 9 ≤ call.1 ∧ call.1 < 10 ^ 10))
    (merged : ∀ key, operands database none key =
      (calls.filter fun call => key = Decimal.intText call.1).map fun call => payload cjson call.2)
    {st : Int} (low : 10 ^ 9 ≤ st) (high : st < 10 ^ 10) :
    rocksdb.seek database none (Decimal.intText st) =
      ((storedTimes calls).filter fun time => st ≤ time).map
        fun time => (Decimal.intText time, joinedUnder cjson calls time) := by
  have bounds : ∀ time ∈ storedTimes calls, time < 0 ∨ (10 ^ 9 ≤ time ∧ time < 10 ^ 10) := by
    intro time member
    obtain ⟨call, listed, rfl⟩ := (mem_storedTimes calls _).mp member
    exact times call listed
  have order {time : Int} (member : time ∈ storedTimes calls) :
      Decimal.intText st ≤ Decimal.intText time ↔ st ≤ time := by
    rcases bounds time member with negative | ⟨timeLow, timeHigh⟩
    · exact iff_of_false (not_le.mpr (Decimal.intText_lt_of_neg negative (by omega))) (by omega)
    · rw [← not_lt, Decimal.intText_lt_iff 9 timeLow timeHigh low high, not_lt]
  apply OrderedMap.eq_of_mem_iff (lawful.seek_ascending _ _ _)
  · refine List.pairwise_map.mpr ((((storedTimes_ascending calls).filter _).imp_of_mem ?_))
    intro first second firstMember secondMember less
    rw [List.mem_filter, decide_eq_true_eq] at firstMember secondMember
    have firstBounds := bounds first firstMember.1
    have secondBounds := bounds second secondMember.1
    exact (Decimal.intText_lt_iff 9 (by omega) (by omega) (by omega) (by omega)).mpr less
  · intro pair
    obtain ⟨key, value⟩ := pair
    rw [lawful.mem_seek, get_eq_joinedUnder cjson lawful nonempty merged, List.mem_map]
    simp only [List.mem_filter, decide_eq_true_eq, Prod.mk.injEq]
    refine ⟨?_, ?_⟩
    · intro stored
      obtain ⟨reached, time, member, rfl, rfl⟩ := stored
      exact ⟨time, ⟨member, (order member).mp reached⟩, rfl, rfl⟩
    · intro stored
      obtain ⟨time, ⟨member, reached⟩, rfl, rfl⟩ := stored
      exact ⟨(order member).mpr reached, time, member, rfl, rfl⟩

/-- **Time ranges.** Reading a range gives one value for each stored time in it, in
ascending order: the texts stored under the time, joined in the order of the calls. -/
theorem read_range_eq (lawful : rocksdb.Lawful operands) {types : List Str} {type : Str}
    (registered : type ∈ types) (calls : List (Int × OrderedMap Str Str))
    (nonempty : ∀ call ∈ calls, payload cjson call.2 ≠ [])
    (times : ∀ call ∈ calls, call.1 < 0 ∨ (10 ^ 9 ≤ call.1 ∧ call.1 < 10 ^ 10))
    (st ed : Int) (low : 10 ^ 9 ≤ st) (ordered : st ≤ ed) (high : ed < 10 ^ 10) :
    read rocksdb (storeAll rocksdb cjson type (storagerInit rocksdb types) calls) type st ed =
      some (((storedTimes calls).filter fun time => st ≤ time ∧ time ≤ ed).map
        (joinedUnder cjson calls)) := by
  obtain ⟨storageImpl, found, _, merged⟩ := operands_storeAll cjson lawful registered calls
  have visited := seek_eq cjson lawful nonempty times merged low (ordered.trans_lt high)
  have present (number : Int) : Decimal.intText number ≠ [] := Decimal.intText_ne_nil number
  have readable : ∀ time ∈ (storedTimes calls).filter fun time => st ≤ time,
      -2 ^ 63 ≤ time ∧ time < 2 ^ 63 := by
    intro time member
    rw [List.mem_filter, decide_eq_true_eq, mem_storedTimes] at member
    obtain ⟨⟨call, listed, rfl⟩, reached⟩ := member
    have bounds := times call listed
    omega
  have cut : ((storedTimes calls).filter fun time => st ≤ time).takeWhile (fun time => time ≤ ed) =
      (storedTimes calls).filter fun time => st ≤ time ∧ time ≤ ed := by
    refine (OrderedMap.takeWhile_le_eq_filter_le (fun time : Int => time) ed
      ((storedTimes_ascending calls).filter _)).trans ?_
    rw [List.filter_filter]
    apply List.filter_congr
    intro time _
    rw [Bool.and_comm, Bool.decide_and]
  have lastReadable : -2 ^ 63 ≤ ed ∧ ed < 2 ^ 63 := by omega
  rw [read, found]
  simp only [StorageImpl.rangeGet, Rocksdb.rangeScan, show ed ≠ -1 by omega, ↓reduceIte, present,
    ne_eq, not_false_eq_true, and_self, Str.cstr_eq_self (Decimal.zero_notMem_intText st), visited,
    Rocksdb.scan_map_text (joinedUnder cjson calls) readable lastReadable, cut,
    Option.bind_eq_bind, Option.bind_some]

/-- Two records of one minute, one without a time and one of a later minute. -/
theorem read_range_of_four_records :
    read RocksDB.table (storeAll RocksDB.table CJson.flat (bytes "sp")
      (storagerInit RocksDB.table [bytes "sp"])
      [(1500000000, OrderedMap.ofList [(bytes "q", bytes "a")]), (-1, OrderedMap.empty),
        (1500000060, OrderedMap.empty), (1500000000, OrderedMap.empty)])
      (bytes "sp") 1500000000 1500000060 = some
        [bytes "\x7b\"q\":\"a\"\x7d|\x7b\x7d", bytes "\x7b\x7d"] := by
  refine (read_range_eq CJson.flat RocksDB.table_lawful List.mem_cons_self _ (by decide) (by decide)
    1500000000 1500000060 (by decide) (by decide) (by decide)).trans ?_
  have listed : storedTimes [(1500000000, OrderedMap.ofList [(bytes "q", bytes "a")]),
      (-1, OrderedMap.empty), (1500000060, OrderedMap.empty), (1500000000, OrderedMap.empty)] =
      [-1, 1500000000, 1500000060] :=
    (Finset.sortedLT_sort _).eq_of_mem_iff (by decide) fun time => by
      simp
      tauto
  rw [listed]
  decide

end Range

end ProcessImpl

end LogProcess
