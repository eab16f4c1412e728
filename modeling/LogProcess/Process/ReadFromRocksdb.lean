import LogProcess.Process.Storage

/-! # Reading stored records back

`ReadFromRocksdb` of `process/process_impl.cc` cuts the joined texts of a time at `|`,
parses the pieces and strips the quotes of the printed values. A record survives
this unchanged exactly when no key or value contains `|` and no value a character that
JSON escapes (`ProcessImpl.readFromRocksdb_eq_iff`).
-/

namespace LogProcess

/-- The behavior of the JSON library on flat objects: printing adds only newlines and
tabs to the compact text, parsing inverts it, and a `|` in a parsed key or printed value
comes from the text when its escapes are those that printing produces. -/
structure CJson.Lawful (cjson : CJson) : Prop where
  filter_print : ∀ members : List (Str × Str), (∀ member ∈ members, 0 ∉ member.1 ∧ 0 ∉ member.2) →
    (cjson.print members).cstr.filter (fun char => char ≠ 10 ∧ char ≠ 9) = FlatJson.compact members
  parse_compact : ∀ members : List (Str × Str), (∀ member ∈ members, 0 ∉ member.1 ∧ 0 ∉ member.2) →
    cjson.parse (FlatJson.compact members) =
      some (members.map fun member => (some member.1, FlatJson.quote member.2))
  parse_bar : ∀ text children, FlatJson.BarFree text → cjson.parse text = some children →
    ∀ child ∈ children, (∀ name, child.1 = some name → 124 ∉ name) ∧ 124 ∉ child.2

theorem CJson.flat_lawful : CJson.flat.Lawful where
  filter_print := by
    intro members _
    have text : (FlatJson.formatted members).cstr = FlatJson.formatted members :=
      Str.cstr_eq_self (FlatJson.zero_notMem_formatted members)
    rw [flat, text]
    refine FlatJson.filter_formatted _ (fun char printable => ?_) (by decide) (by decide) members
    rw [decide_eq_true_eq]
    constructor <;> rintro rfl <;> exact absurd printable (by decide)
  parse_compact := by
    intro members _
    simp only [flat, FlatJson.parse_compact, Option.map_some]
  parse_bar := by
    intro text children free parsed child member
    obtain ⟨members, run, rfl⟩ := Option.map_eq_some_iff.mp parsed
    obtain ⟨pair, listed, rfl⟩ := List.mem_map.mp member
    obtain ⟨key, value⟩ := FlatJson.parse_bar free run pair listed
    refine ⟨fun name named => Option.some.inj named ▸ key, ?_⟩
    rwa [FlatJson.bar_mem_quote_iff]

namespace ProcessImpl

/-- `value.substr(1, value.length() - 2)`, which throws for an empty string. -/
def stripQuotes (value : Str) : Option Str :=
  if value = [] then none else some ((value.drop 1).take (value.length - 2))

/-- The record made of the children of an object. A child without a name throws. -/
def recordOf (kv : OrderedMap Str Str) : List (Option Str × Str) → Option (OrderedMap Str Str)
  | [] => some kv
  | (name, printed) :: rest => do
      let key ← name
      let value ← stripQuotes printed
      recordOf (kv.insertNew key value) rest

section Model

variable {Database : Type} (rocksdb : RocksDB Database) (cjson : CJson)

/-- The records in the pieces; pieces that do not parse are skipped. -/
def recordsOf : List Str → Option (List (OrderedMap Str Str))
  | [] => some []
  | i :: rest =>
      match cjson.parse i.cstr with
      | none => recordsOf rest
      | some children => do
          let kv ← recordOf OrderedMap.empty children
          let kvs ← recordsOf rest
          some (kv :: kvs)

/-- `ReadFromRocksdb`, without a result when an exception leaves it. An exception while
parsing makes it return no records. -/
def readFromRocksdb (storager : OrderedMap Str (StorageImpl Database)) (application : Str)
    (start last : Int) : Option (List (OrderedMap Str Str)) := do
  let res ← read rocksdb storager application start last
  some ((recordsOf cjson (res.flatMap (Str.splitAt 124))).getD [])

end Model

/-- The record contains no null characters. -/
def NulFree (kv : OrderedMap Str Str) : Prop := ∀ entry ∈ kv.entries, 0 ∉ entry.1 ∧ 0 ∉ entry.2

instance (kv : OrderedMap Str Str) : Decidable (NulFree kv) :=
  inferInstanceAs (Decidable (∀ entry ∈ kv.entries, 0 ∉ entry.1 ∧ 0 ∉ entry.2))

/-- The record contains no separators. -/
def BarFree (kv : OrderedMap Str Str) : Prop :=
  ∀ entry ∈ kv.entries, 124 ∉ entry.1 ∧ 124 ∉ entry.2

instance (kv : OrderedMap Str Str) : Decidable (BarFree kv) :=
  inferInstanceAs (Decidable (∀ entry ∈ kv.entries, 124 ∉ entry.1 ∧ 124 ∉ entry.2))

/-- The record contains no separators, and its values nothing that JSON escapes. -/
def Survives (kv : OrderedMap Str Str) : Prop :=
  ∀ entry ∈ kv.entries, 124 ∉ entry.1 ∧ 124 ∉ entry.2 ∧
    ∀ char ∈ entry.2, char ≠ 34 ∧ char ≠ 92 ∧ 32 ≤ char

instance (kv : OrderedMap Str Str) : Decidable (Survives kv) :=
  inferInstanceAs (Decidable (∀ entry ∈ kv.entries, 124 ∉ entry.1 ∧ 124 ∉ entry.2 ∧
    ∀ char ∈ entry.2, char ≠ 34 ∧ char ≠ 92 ∧ 32 ≤ char))

theorem barFree_empty : BarFree OrderedMap.empty :=
  fun _ member => absurd member List.not_mem_nil

theorem survives_iff (kv : OrderedMap Str Str) :
    Survives kv ↔ BarFree kv ∧ kv.mapValues FlatJson.escape = kv := by
  have unescaped : kv.mapValues FlatJson.escape = kv ↔
      ∀ entry ∈ kv.entries, ∀ char ∈ entry.2, char ≠ 34 ∧ char ≠ 92 ∧ 32 ≤ char := by
    simp only [← FlatJson.escape_eq_self_iff, OrderedMap.ext_iff, OrderedMap.mapValues]
    conv_lhs =>
      rhs
      rw [← List.map_id kv.entries]
    rw [List.map_inj_left]
    exact forall₂_congr fun entry _ => ⟨congrArg Prod.snd, fun same => Prod.ext rfl same⟩
  rw [unescaped]
  refine ⟨?_, ?_⟩
  · intro survives
    exact ⟨fun entry member => ⟨(survives entry member).1, (survives entry member).2.1⟩,
      fun entry member => (survives entry member).2.2⟩
  · intro both entry member
    exact ⟨(both.1 entry member).1, (both.1 entry member).2, both.2 entry member⟩

/-! ### One record -/

theorem stripQuotes_quote (text : Str) :
    stripQuotes (FlatJson.quote text) = some (FlatJson.escape text) := by
  rw [stripQuotes, FlatJson.quote, if_neg (List.cons_ne_nil _ _), List.drop_one, List.tail_cons,
    List.length_cons, List.length_append, List.length_singleton]
  simp only [Nat.reduceSubDiff, List.take_left']

/-- Members in ascending key order become the entries behind the earlier ones. -/
theorem recordOf_map_quote (members : List (Str × Str)) (kv : OrderedMap Str Str)
    (ascending : members.Pairwise fun first second => first.1 < second.1)
    (later : ∀ member ∈ members, ∀ entry ∈ kv.entries, entry.1 < member.1) :
    ∃ result, recordOf kv (members.map fun member => (some member.1, FlatJson.quote member.2)) =
        some result ∧
      result.entries = kv.entries ++ members.map fun member =>
        (member.1, FlatJson.escape member.2) := by
  induction members generalizing kv with
  | nil => exact ⟨kv, rfl, (List.append_nil _).symm⟩
  | cons member rest ih =>
      rw [List.pairwise_cons] at ascending
      have entries := OrderedMap.entries_insertNew_of_lt (later member List.mem_cons_self)
        (FlatJson.escape member.2)
      have beyond : ∀ other ∈ rest,
          ∀ entry ∈ (kv.insertNew member.1 (FlatJson.escape member.2)).entries,
            entry.1 < other.1 := by
        intro other otherMember entry entryMember
        rcases OrderedMap.mem_of_mem_insertNew entryMember with old | rfl
        · exact later other (List.mem_cons_of_mem _ otherMember) entry old
        · exact ascending.1 other otherMember
      obtain ⟨result, run, listed⟩ := ih _ ascending.2 beyond
      refine ⟨result, ?_, ?_⟩
      · rw [List.map_cons, recordOf]
        simp only [Option.bind_eq_bind, Option.bind_some, stripQuotes_quote, run]
      · rw [listed, entries, List.append_assoc, List.map_cons, List.singleton_append]

/-- A whole record is read back with its values escaped. -/
theorem recordOf_entries (kv : OrderedMap Str Str) :
    recordOf OrderedMap.empty
        (kv.entries.map fun member => (some member.1, FlatJson.quote member.2)) =
      some (kv.mapValues FlatJson.escape) := by
  obtain ⟨result, run, entries⟩ := recordOf_map_quote kv.entries OrderedMap.empty kv.ascending
    (fun _ _ _ => nofun)
  rw [run, Option.some.injEq]
  exact OrderedMap.ext entries

/-- A record of children without separators has none. -/
theorem recordOf_bar {children : List (Option Str × Str)} {kv result : OrderedMap Str Str}
    (free : ∀ child ∈ children, (∀ name, child.1 = some name → 124 ∉ name) ∧ 124 ∉ child.2)
    (start : BarFree kv) (run : recordOf kv children = some result) : BarFree result := by
  induction children generalizing kv with
  | nil => exact Option.some.inj run ▸ start
  | cons child rest ih =>
      obtain ⟨name, printed⟩ := child
      rw [List.forall_mem_cons] at free
      simp only [recordOf, Option.bind_eq_bind, Option.bind_eq_some_iff] at run
      obtain ⟨key, named, value, stripped, run⟩ := run
      refine ih free.2 (fun entry member => ?_) run
      rcases OrderedMap.mem_of_mem_insertNew member with old | rfl
      · exact start entry old
      · refine ⟨free.1.1 key named, fun inside => free.1.2 ?_⟩
        rw [stripQuotes, Option.ite_none_left_eq_some, Option.some.injEq] at stripped
        rw [← stripped.2] at inside
        exact List.mem_of_mem_drop (List.mem_of_mem_take inside)

/-! ### All records of a time -/

section Records

variable {cjson : CJson}

theorem payload_eq_compact (json : cjson.Lawful) {kv : OrderedMap Str Str} (free : NulFree kv) :
    payload cjson kv = FlatJson.compact kv.entries := by
  have same : (kv.entries.map fun entry => (entry.1.cstr, entry.2.cstr)) = kv.entries := by
    conv_rhs => rw [← List.map_id kv.entries]
    apply List.map_congr_left
    intro entry member
    rw [Str.cstr_eq_self (free entry member).1, Str.cstr_eq_self (free entry member).2, id_eq]
  rw [payload, same, json.filter_print kv.entries free]

/-- Texts of records without separators are read back with their values escaped. -/
theorem recordsOf_payloads (json : cjson.Lawful) {records : List (OrderedMap Str Str)}
    (free : ∀ kv ∈ records, NulFree kv) :
    recordsOf cjson (records.map (payload cjson)) =
      some (records.map fun kv => kv.mapValues FlatJson.escape) := by
  induction records with
  | nil => rfl
  | cons kv rest ih =>
      rw [List.forall_mem_cons] at free
      rw [List.map_cons, recordsOf, Str.cstr_eq_self (zero_notMem_payload cjson kv),
        payload_eq_compact json free.1, json.parse_compact kv.entries free.1]
      simp only [recordOf_entries, ih free.2, Option.bind_eq_bind, Option.bind_some, List.map_cons]

/-- Records read from pieces without separators have none. -/
theorem recordsOf_bar (json : cjson.Lawful) {pieces : List Str}
    (free : ∀ piece ∈ pieces, FlatJson.BarFree piece.cstr) {kvs : List (OrderedMap Str Str)}
    (run : recordsOf cjson pieces = some kvs) : ∀ kv ∈ kvs, BarFree kv := by
  induction pieces generalizing kvs with
  | nil =>
      cases run
      exact fun kv member => absurd member List.not_mem_nil
  | cons piece rest ih =>
      rw [List.forall_mem_cons] at free
      rw [recordsOf] at run
      cases parsed : cjson.parse piece.cstr with
      | none =>
          rw [parsed] at run
          exact ih free.2 run
      | some children =>
          simp only [parsed, Option.bind_eq_bind, Option.bind_eq_some_iff, Option.some.injEq] at run
          obtain ⟨kv, record, others, later, rfl⟩ := run
          rw [List.forall_mem_cons]
          exact ⟨recordOf_bar (json.parse_bar _ children free.1 parsed) barFree_empty record,
            ih free.2 later⟩

/-- The pieces of the stored texts. -/
theorem splitAt_payloads_barFree (json : cjson.Lawful) {records : List (OrderedMap Str Str)}
    (free : ∀ kv ∈ records, NulFree kv) :
    ∀ piece ∈ (records.map (payload cjson)).flatMap (Str.splitAt 124),
      FlatJson.BarFree piece.cstr := by
  intro piece member
  obtain ⟨text, listed, cut⟩ := List.mem_flatMap.mp member
  obtain ⟨kv, record, rfl⟩ := List.mem_map.mp listed
  have nulFree : 0 ∉ piece := fun inside =>
    zero_notMem_payload cjson kv (Str.mem_of_mem_splitAt cut inside)
  rw [Str.cstr_eq_self nulFree]
  rw [payload_eq_compact json (free kv record)] at cut
  exact ⟨(FlatJson.Escaped.compact kv.entries).splitAt piece cut, Str.not_mem_of_mem_splitAt cut⟩

/-- Texts of records without separators are their own pieces. -/
theorem splitAt_payloads (json : cjson.Lawful) {records : List (OrderedMap Str Str)}
    (free : ∀ kv ∈ records, NulFree kv) (bars : ∀ kv ∈ records, BarFree kv) :
    (records.map (payload cjson)).flatMap (Str.splitAt 124) = records.map (payload cjson) := by
  induction records with
  | nil => rfl
  | cons kv rest ih =>
      rw [List.forall_mem_cons] at free bars
      have whole : 124 ∉ payload cjson kv := by
        rw [payload_eq_compact json free.1, FlatJson.bar_mem_compact_iff]
        rintro ⟨entry, member, key | value⟩
        · exact (bars.1 entry member).1 key
        · exact (bars.1 entry member).2 value
      rw [List.map_cons, List.flatMap_cons, Str.splitAt_of_not_mem whole, ih free.2 bars.2,
        List.singleton_append]

end Records

/-! ### The round trip -/

section RoundTrip

variable {Database : Type} {rocksdb : RocksDB Database}
  {operands : Database → Option Nat → Str → List Str} {cjson : CJson}

/-- What is read back: the records found in the pieces of the stored texts. -/
theorem readFromRocksdb_eq (lawful : rocksdb.Lawful operands) (json : cjson.Lawful)
    {types : List Str} {type : Str} (registered : type ∈ types) (t : Int)
    {records : List (OrderedMap Str Str)} (free : ∀ kv ∈ records, NulFree kv) :
    readFromRocksdb rocksdb cjson (storeAll rocksdb cjson type (storagerInit rocksdb types)
        (records.map fun kv => (t, kv))) type t (-1) =
      some ((recordsOf cjson ((records.map (payload cjson)).flatMap (Str.splitAt 124))).getD
        []) := by
  obtain ⟨storageImpl, found, _, merged⟩ := operands_storeAll cjson lawful registered
    (records.map fun kv => (t, kv))
  have stored : operands storageImpl.rdb.db none (Decimal.intText t) =
      records.map (payload cjson) := by
    rw [merged, List.filter_map, List.map_map, List.filter_eq_self.mpr]
    · rfl
    · exact fun kv _ => decide_eq_true rfl
  have nonempty : ∀ text ∈ records.map (payload cjson), text ≠ [] := by
    intro text member
    obtain ⟨kv, record, rfl⟩ := List.mem_map.mp member
    rw [payload_eq_compact json (free kv record)]
    exact List.cons_ne_nil _ _
  simp only [readFromRocksdb, read, found, ↓reduceIte, StorageImpl.singleGet, Rocksdb.get,
    Str.cstr_eq_self (Decimal.zero_notMem_intText t), lawful.get_eq, stored,
    fullMergeV2_eq_intercalate nonempty, Option.bind_eq_bind, Option.bind_some]
  by_cases none : records.map (payload cjson) = []
  · simp only [none, ↓reduceIte, ne_eq, not_true_eq_false, List.flatMap_nil]
  · have present : (bytes "|").intercalate (records.map (payload cjson)) ≠ [] := by
      have pieces := FlatJson.length_le_length_intercalate nonempty (bytes "|")
      have positive := List.length_pos_iff.mpr none
      exact List.length_pos_iff.mp (by omega)
    simp only [none, ↓reduceIte, ne_eq, present, not_false_eq_true, List.flatMap_singleton]
    rw [show bytes "|" = [124] from rfl, Str.splitAt_intercalate 124 none]

/-- **Round trip.** The records stored under one time are read back in order and
unchanged exactly when none has a separator in a key or value or an escaped character in
a value. -/
theorem readFromRocksdb_eq_iff (lawful : rocksdb.Lawful operands) (json : cjson.Lawful)
    {types : List Str} {type : Str} (registered : type ∈ types) (t : Int)
    (records : List (OrderedMap Str Str)) (free : ∀ kv ∈ records, NulFree kv) :
    readFromRocksdb rocksdb cjson (storeAll rocksdb cjson type (storagerInit rocksdb types)
        (records.map fun kv => (t, kv))) type t (-1) = some records ↔
      ∀ kv ∈ records, Survives kv := by
  rw [readFromRocksdb_eq lawful json registered t free, Option.some.injEq]
  -- without separators the records are read back with their values escaped
  have escaped (bars : ∀ kv ∈ records, BarFree kv) :
      (recordsOf cjson ((records.map (payload cjson)).flatMap (Str.splitAt 124))).getD [] =
        records ↔ ∀ kv ∈ records, kv.mapValues FlatJson.escape = kv := by
    rw [splitAt_payloads json free bars, recordsOf_payloads json free, Option.getD_some]
    conv_lhs =>
      rhs
      rw [← List.map_id records]
    exact List.map_inj_left
  refine ⟨?_, ?_⟩
  · intro same
    have bars : ∀ kv ∈ records, BarFree kv := by
      cases run : recordsOf cjson ((records.map (payload cjson)).flatMap (Str.splitAt 124)) with
      | none =>
          rw [run, Option.getD_none] at same
          rw [← same]
          exact fun kv member => absurd member List.not_mem_nil
      | some kvs =>
          rw [run, Option.getD_some] at same
          rw [← same]
          exact recordsOf_bar json (splitAt_payloads_barFree json free) run
    exact fun kv member => (survives_iff kv).mpr
      ⟨bars kv member, (escaped bars).mp same kv member⟩
  · intro survive
    exact (escaped fun kv member => ((survives_iff kv).mp (survive kv member)).1).mpr
      fun kv member => ((survives_iff kv).mp (survive kv member)).2

/-- A quote in a query comes back with a backslash. -/
theorem readFromRocksdb_fails_on_quote :
    readFromRocksdb RocksDB.table CJson.flat (storeAll RocksDB.table CJson.flat (bytes "sp")
        (storagerInit RocksDB.table [bytes "sp"])
        ([OrderedMap.ofList [(bytes "query", [97, 34, 98])]].map fun kv => (1500000000, kv)))
      (bytes "sp") 1500000000 (-1) ≠
        some [OrderedMap.ofList [(bytes "query", [97, 34, 98])]] := by
  decide +kernel

/-- Two records of one minute that survive. -/
theorem readFromRocksdb_of_two_records :
    readFromRocksdb RocksDB.table CJson.flat (storeAll RocksDB.table CJson.flat (bytes "sp")
        (storagerInit RocksDB.table [bytes "sp"])
        ([OrderedMap.ofList [(bytes "query", bytes "a b"), (bytes "resno", [])],
          OrderedMap.empty].map fun kv => (1500000000, kv)))
      (bytes "sp") 1500000000 (-1) =
        some [OrderedMap.ofList [(bytes "query", bytes "a b"), (bytes "resno", [])],
          OrderedMap.empty] :=
  (readFromRocksdb_eq_iff RocksDB.table_lawful CJson.flat_lawful List.mem_cons_self 1500000000 _
    (by decide)).mpr (by decide +kernel)

end RoundTrip

end ProcessImpl

end LogProcess
