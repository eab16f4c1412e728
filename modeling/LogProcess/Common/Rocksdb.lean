import LogProcess.Foundation.Decimal
import LogProcess.Foundation.OrderedMap

/-! # The store

`common/rocksdb.h` wraps a RocksDB database whose writes are merges. The database
itself is a parameter: its operations are those of `RocksDB`, and `RocksDB.Lawful` is what
is known about them, in terms of the operands merged into each key. Merging joins
nonempty operands (`fullMergeV2_eq_intercalate`), and a range scan over ascending numbers
stops behind the last one in the range (`Rocksdb.scan_map_text`).
-/

namespace LogProcess

/-- `ProcessMerge::FullMergeV2`: the new value for an existing value and operands. -/
def fullMergeV2 (existingValue : Option Str) (operandList : List Str) : Str :=
  operandList.foldl
    (fun newValue operand => (if newValue ≠ [] then newValue ++ bytes "|" else newValue) ++ operand)
    (existingValue.getD [])

/-- The operations of a database. A column family is given by its handle, the default
one by `none`, and `seek` lists the entries that an iterator visits. -/
structure RocksDB (Database : Type) where
  opened : Database
  merge : Database → Option Nat → Str → Str → Database
  get : Database → Option Nat → Str → Option Str
  delete : Database → Str → Database
  seek : Database → Option Nat → Str → List (Str × Str)

/-- The behavior of a database with the bytewise comparator and the merge operator, for
the operands that are merged into a key in the order of the writes. -/
structure RocksDB.Lawful {Database : Type} (rocksdb : RocksDB Database)
    (operands : Database → Option Nat → Str → List Str) : Prop where
  operands_opened : ∀ cf key, operands rocksdb.opened cf key = []
  operands_merge : ∀ database cf key operand otherCf otherKey,
    operands (rocksdb.merge database cf key operand) otherCf otherKey =
      if otherCf = cf ∧ otherKey = key then operands database cf key ++ [operand]
      else operands database otherCf otherKey
  get_eq : ∀ database cf key, rocksdb.get database cf key =
    if operands database cf key = [] then none
    else some (fullMergeV2 none (operands database cf key))
  seek_ascending : ∀ database cf target,
    (rocksdb.seek database cf target).Pairwise fun first second => first.1 < second.1
  mem_seek : ∀ database cf target entry, entry ∈ rocksdb.seek database cf target ↔
    target ≤ entry.1 ∧ rocksdb.get database cf entry.1 = some entry.2

/-- A database that keeps the operands of every key in ordered maps. -/
def RocksDB.table : RocksDB (Option Nat → OrderedMap Str (List Str)) where
  opened := fun _ => OrderedMap.empty
  merge := fun database cf key operand => Function.update database cf
    ((database cf).assign key (((database cf).find? key).getD [] ++ [operand]))
  get := fun database cf key =>
    if ((database cf).find? key).getD [] = [] then none
    else some (fullMergeV2 none (((database cf).find? key).getD []))
  delete := fun database key => Function.update database none ((database none).erase key)
  seek := fun database cf target =>
    ((database cf).entries.filter fun entry => target ≤ entry.1 ∧ entry.2 ≠ []).map
      fun entry => (entry.1, fullMergeV2 none entry.2)

theorem RocksDB.table_lawful :
    RocksDB.table.Lawful fun database cf key => ((database cf).find? key).getD [] where
  operands_opened := fun _ _ => rfl
  operands_merge := by
    intro database cf key operand otherCf otherKey
    by_cases family : otherCf = cf
    · rw [family]
      simp only [table, Function.update_self, OrderedMap.find?_assign, true_and]
      by_cases same : otherKey = key <;> simp [same]
    · simp only [table, Function.update_of_ne family, family, false_and, ↓reduceIte]
  get_eq := fun _ _ _ => rfl
  seek_ascending := fun database cf target =>
    List.pairwise_map.mpr ((database cf).ascending.filter _)
  mem_seek := by
    intro database cf target entry
    simp only [table, List.mem_map, List.mem_filter, decide_eq_true_eq]
    refine ⟨?_, ?_⟩
    · intro operand
      obtain ⟨⟨key, operandList⟩, ⟨member, reached, some⟩, rfl⟩ := operand
      have found := ((database cf).find?_eq_some_iff key operandList).mpr member
      simp only [found, Option.getD_some, some, ↓reduceIte, reached, and_self]
    · intro reachable
      obtain ⟨reached, found⟩ := reachable
      cases stored : (database cf).find? entry.1 with
      | none => simp only [stored, Option.getD_none, ↓reduceIte, reduceCtorEq] at found
      | some operandList =>
          rw [stored, Option.getD_some] at found
          by_cases empty : operandList = []
          · simp only [empty, ↓reduceIte, reduceCtorEq] at found
          · rw [if_neg empty, Option.some.injEq] at found
            exact ⟨(entry.1, operandList),
              ⟨((database cf).find?_eq_some_iff _ _).mp stored, reached, empty⟩, by rw [found]⟩

/-- A database with the handles of its column families. -/
structure Rocksdb (Database : Type) where
  db : Database
  cfmap : OrderedMap Str Nat

namespace Rocksdb

variable {Database : Type} (rocksdb : RocksDB Database)

/-- `Put`: the returned truth value and the database after it. -/
def put (rdb : Rocksdb Database) (key value cf : Str) : Bool × Rocksdb Database :=
  if cf = [] then
    (true, { rdb with db := rocksdb.merge rdb.db none key.cstr value.cstr })
  else
    match rdb.cfmap.find? cf with
    | none => (false, rdb)
    | some handle =>
        (true, { rdb with db := rocksdb.merge rdb.db (some handle) key.cstr value.cstr })

/-- `Get`: the returned truth value and the content of `value`, which was empty before. -/
def get (rdb : Rocksdb Database) (key cf : Str) : Bool × Str :=
  if cf = [] then
    match rocksdb.get rdb.db none key.cstr with
    | none => (false, [])
    | some value => (true, value)
  else
    match rdb.cfmap.find? cf with
    | none => (false, [])
    | some handle =>
        match rocksdb.get rdb.db (some handle) key.cstr with
        | none => (false, [])
        | some value => (true, value)

/-- `Delete` -/
def delete (rdb : Rocksdb Database) (key : Str) : Bool × Rocksdb Database :=
  (true, { rdb with db := rocksdb.delete rdb.db key.cstr })

/-- The loop of `RangeScan` over the entries that the iterator visits. It has no result
when `stoll` throws. -/
def scan (keyEnd : Str) : List (Str × Str) → Option (List Str)
  | [] => some []
  | (key, value) :: rest => do
      let current ← Decimal.stoll key
      let last ← Decimal.stoll keyEnd
      if current ≤ last then
        let values ← scan keyEnd rest
        some (value :: values)
      else
        some []

/-- `RangeScan`: the returned truth value and what is appended to `values`. -/
def rangeScan (rdb : Rocksdb Database) (keyStart keyEnd cf : Str) : Option (Bool × List Str) :=
  if keyStart ≠ [] ∧ keyEnd ≠ [] then
    if cf = [] then do
      let values ← scan keyEnd (rocksdb.seek rdb.db none keyStart.cstr)
      some (true, values)
    else
      match rdb.cfmap.find? cf with
      | some handle => do
          let values ← scan keyEnd (rocksdb.seek rdb.db (some handle) keyStart.cstr)
          some (true, values)
      | none => some (false, [])
  else
    some (false, [])

end Rocksdb

/-! ### Merged values -/

theorem foldl_join_of_ne_nil {start : Str} (started : start ≠ []) (operandList : List Str) :
    operandList.foldl (fun newValue operand =>
        (if newValue ≠ [] then newValue ++ bytes "|" else newValue) ++ operand) start =
      start ++ (operandList.map fun operand => bytes "|" ++ operand).flatten := by
  induction operandList generalizing start with
  | nil => rw [List.foldl_nil, List.map_nil, List.flatten_nil, List.append_nil]
  | cons operand rest ih =>
      have extended : start ++ bytes "|" ++ operand ≠ [] :=
        List.append_ne_nil_of_left_ne_nil (List.append_ne_nil_of_left_ne_nil started _) _
      rw [List.foldl_cons, if_pos started, ih extended, List.map_cons, List.flatten_cons,
        List.append_assoc, List.append_assoc, List.append_assoc]

/-- Nonempty operands are joined. -/
theorem fullMergeV2_eq_intercalate {operandList : List Str}
    (nonempty : ∀ operand ∈ operandList, operand ≠ []) :
    fullMergeV2 none operandList = (bytes "|").intercalate operandList := by
  cases operandList with
  | nil => rfl
  | cons first rest =>
      have joined : (bytes "|").intercalate (first :: rest) =
          first ++ (rest.map fun operand => bytes "|" ++ operand).flatten := by
        induction rest generalizing first with
        | nil => simp
        | cons second rest ih =>
            rw [List.intercalate_cons_cons, ih second
              (fun operand member => nonempty operand (List.mem_cons_of_mem _ member)),
              List.map_cons, List.flatten_cons, List.append_assoc, List.append_assoc]
      rw [fullMergeV2, Option.getD_none, List.foldl_cons, joined]
      simp only [ne_eq, not_true_eq_false, ↓reduceIte, List.nil_append]
      exact foldl_join_of_ne_nil (nonempty first List.mem_cons_self) rest

/-- The value of a key after batches of operands were merged into it one after the other. -/
def mergeBatches (batches : List (List Str)) : Option Str :=
  batches.foldl (fun existingValue batch => some (fullMergeV2 existingValue batch)) none

/-- Merging an existing value goes on where the merge that gave it stopped. -/
theorem fullMergeV2_append (existingValue : Option Str) (first second : List Str) :
    fullMergeV2 existingValue (first ++ second) =
      fullMergeV2 (some (fullMergeV2 existingValue first)) second := by
  rw [fullMergeV2, List.foldl_append, fullMergeV2, Option.getD_some, fullMergeV2]

/-- Batches are merged like one batch. -/
theorem getD_mergeBatches (batches : List (List Str)) :
    (mergeBatches batches).getD [] = fullMergeV2 none batches.flatten := by
  induction batches using List.reverseRecOn with
  | nil => rfl
  | append_singleton batches batch ih =>
      rw [mergeBatches, List.foldl_concat, ← mergeBatches,
        Option.getD_some, List.flatten_append, List.flatten_singleton, fullMergeV2_append, ← ih,
        fullMergeV2, fullMergeV2, Option.getD_some]

theorem isSome_mergeBatches {batches : List (List Str)} (some : batches ≠ []) :
    (mergeBatches batches).isSome := by
  induction batches using List.reverseRecOn with
  | nil => exact absurd rfl some
  | append_singleton batches batch => rw [mergeBatches, List.foldl_append]; rfl

/-- **Compaction.** The merged value is that of a single batch, and its pieces are those of the
payloads in their order. Without payloads nothing is merged. -/
theorem mergeBatches_eq_and_splitAt {batches : List (List Str)}
    (nonempty : ∀ payload ∈ batches.flatten, payload ≠ [])
    (grouped : batches.flatten = [] → batches = []) :
    mergeBatches batches = (if batches.flatten = [] then none
      else some (fullMergeV2 none batches.flatten)) ∧
    (mergeBatches batches).elim [] (Str.splitAt 124) =
      batches.flatten.flatMap (Str.splitAt 124) := by
  by_cases empty : batches.flatten = []
  · rw [if_pos empty, empty, grouped empty]
    exact ⟨rfl, rfl⟩
  · have present : batches ≠ [] := by
      rintro rfl
      exact empty rfl
    obtain ⟨value, merged⟩ := Option.isSome_iff_exists.mp (isSome_mergeBatches present)
    have once : value = fullMergeV2 none batches.flatten := by
      rw [← getD_mergeBatches, merged, Option.getD_some]
    rw [if_neg empty, merged, once]
    refine ⟨rfl, ?_⟩
    rw [Option.elim_some, fullMergeV2_eq_intercalate nonempty]
    exact Str.splitAt_intercalate 124 empty

theorem mergeBatches_two_batches :
    mergeBatches [[bytes "a|b"], [bytes "c", bytes "d"]] =
      (if [[bytes "a|b"], [bytes "c", bytes "d"]].flatten = [] then none
        else some (fullMergeV2 none [[bytes "a|b"], [bytes "c", bytes "d"]].flatten)) ∧
    (mergeBatches [[bytes "a|b"], [bytes "c", bytes "d"]]).elim [] (Str.splitAt 124) =
      [[bytes "a|b"], [bytes "c", bytes "d"]].flatten.flatMap (Str.splitAt 124) :=
  mergeBatches_eq_and_splitAt (by decide) (by decide)

namespace Rocksdb

/-- Scanning the texts of ascending numbers stops behind the last one in the range. -/
theorem scan_map_text (content : Int → Str) {times : List Int} {last : Int}
    (readable : ∀ time ∈ times, -2 ^ 63 ≤ time ∧ time < 2 ^ 63)
    (lastReadable : -2 ^ 63 ≤ last ∧ last < 2 ^ 63) :
    scan (Decimal.intText last) (times.map fun time => (Decimal.intText time, content time)) =
      some ((times.takeWhile fun time => time ≤ last).map content) := by
  induction times with
  | nil => rfl
  | cons time rest ih =>
      have first := readable time List.mem_cons_self
      rw [List.map_cons, scan, Decimal.stoll_intText first.1 first.2,
        Decimal.stoll_intText lastReadable.1 lastReadable.2]
      by_cases inside : time ≤ last
      · rw [List.takeWhile_cons_of_pos (by simpa using inside), List.map_cons]
        simp only [Option.bind_eq_bind, Option.bind_some, inside, ↓reduceIte,
          ih fun other member => readable other (List.mem_cons_of_mem _ member)]
      · rw [List.takeWhile_cons_of_neg (by simpa using inside), List.map_nil]
        simp only [Option.bind_eq_bind, Option.bind_some, inside, ↓reduceIte]

/-- Scanning keys that are texts of times comes to an end. -/
theorem isSome_scan {entries : List (Str × Str)} {last : Int}
    (times : ∀ entry ∈ entries, ∃ time, (-2 ^ 63 ≤ time ∧ time < 2 ^ 63) ∧
      entry.1 = Decimal.intText time)
    (lastReadable : -2 ^ 63 ≤ last ∧ last < 2 ^ 63) :
    (scan (Decimal.intText last) entries).isSome := by
  induction entries with
  | nil => rfl
  | cons entry rest ih =>
      rw [List.forall_mem_cons] at times
      obtain ⟨⟨time, readable, text⟩, later⟩ := times
      obtain ⟨values, scanned⟩ := Option.isSome_iff_exists.mp (ih later)
      rw [scan, text, Decimal.stoll_intText readable.1 readable.2,
        Decimal.stoll_intText lastReadable.1 lastReadable.2]
      simp only [Option.bind_eq_bind, Option.bind_some, scanned]
      split <;> rfl

end Rocksdb

end LogProcess
