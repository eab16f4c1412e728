import LogProcess.Common.Rocksdb
import LogProcess.Foundation.Sorting

/-! # Numeric range scans

`RangeScan` of `common/rocksdb.cc` starts and moves on in the order of bytes, and stops in the order
of integers. Keys with equally many digits have the same order in both. In general the scan gives
the values of the keys in the range exactly when the two orders agree on the keys that it reaches
(`Rocksdb.scansRange_iff`).
-/

namespace LogProcess

namespace Rocksdb

open Sorting (Reached reached_cons_iff mem_takeWhile_iff)

/-- The order of the texts of two numbers. -/
def TextLt (first second : Nat) : Prop := Decimal.text first < Decimal.text second

instance : Std.Asymm TextLt := ⟨fun _ _ less greater => lt_asymm less greater⟩

/-- The loop has a result when the reached keys and the last one can be read. It gives the values
up to the first key above the last one. -/
theorem scan_eq_some_iff (content : Nat → Str) {numbers : List Nat}
    (ordered : numbers.Pairwise TextLt) (last : Nat) (values : List Str) :
    scan (Decimal.text last)
        (numbers.map fun number => (Decimal.text number, content number)) = some values ↔
      (∀ number, Reached TextLt (· ≤ last) numbers number → number < 2 ^ 63 ∧ last < 2 ^ 63) ∧
      values = (numbers.takeWhile fun number => number ≤ last).map content := by
  induction numbers generalizing values with
  | nil =>
      rw [List.map_nil, scan, List.takeWhile_nil, List.map_nil, Option.some.injEq, eq_comm]
      exact (and_iff_right fun number reached => absurd reached.1 List.not_mem_nil).symm
  | cons number rest ih =>
      simp only [reached_cons_iff ordered, forall_eq_or_imp]
      rw [List.map_cons, scan, Decimal.stoll_text, Decimal.stoll_text]
      by_cases readable : number < 2 ^ 63 ∧ last < 2 ^ 63
      · rw [if_pos readable.1, if_pos readable.2, and_iff_right readable]
        simp only [Option.bind_eq_bind, Option.bind_some, Nat.cast_le]
        by_cases inside : number ≤ last
        · rw [if_pos inside, List.takeWhile_cons_of_pos (by simpa using inside), List.map_cons,
            Option.bind_eq_some_iff]
          simp only [ih (List.pairwise_cons.mp ordered).2, inside, true_and, Option.some.injEq]
          refine ⟨fun scanned => ?_, fun readable => ⟨_, ⟨readable.1, rfl⟩, readable.2.symm⟩⟩
          obtain ⟨_, ⟨readable, rfl⟩, rfl⟩ := scanned
          exact ⟨readable, rfl⟩
        · rw [if_neg inside, List.takeWhile_cons_of_neg (by simpa using inside), List.map_nil,
            Option.some.injEq, eq_comm]
          exact (and_iff_right fun other later => absurd later.1 inside).symm
      · refine iff_of_false (fun scanned => ?_) fun all => readable all.1.1
        by_cases low : number < 2 ^ 63
        · rw [if_pos low, if_neg fun high => readable ⟨low, high⟩] at scanned
          cases scanned
        · rw [if_neg low] at scanned
          cases scanned

section Model

variable {Database : Type} (rocksdb : RocksDB Database)

/-- The keys of the default column family are the texts of numbers. -/
def Holds (rdb : Rocksdb Database) (keys : Finset Nat) (content : Nat → Str) : Prop :=
  ∀ key value, rocksdb.get rdb.db none key = some value ↔
    ∃ number ∈ keys, key = Decimal.text number ∧ value = content number

/-- Whatever the database has at these keys, the scan gives the values of those in the range, in
ascending order. -/
def ScansRange (keys : Finset Nat) (first last : Nat) : Prop :=
  ∀ rdb content, Holds rocksdb rdb keys content →
    ∃ inside : List Nat, inside.Pairwise (· < ·) ∧
      (∀ number, number ∈ inside ↔ number ∈ keys ∧ first ≤ number ∧ number ≤ last) ∧
      rangeScan rocksdb rdb (Decimal.text first) (Decimal.text last) [] =
        some (true, inside.map content)

/-- The text of the key is not before that of the first number, and no key above the last number
has its text between them. -/
def Between (keys : Finset Nat) (first last number : Nat) : Prop :=
  (number ∈ keys ∧ ¬TextLt number first) ∧
    ∀ other ∈ keys, ¬TextLt other first → TextLt other number → other ≤ last

/-- The order of bytes agrees with the order of integers, and all integers can be read. -/
structure OrdersAgree (keys : Finset Nat) (first last : Nat) : Prop where
  between_of_inside : ∀ number ∈ keys, first ≤ number → number ≤ last →
    Between keys first last number
  above_first : ∀ number, Between keys first last number → first ≤ number
  textLt_of_lt : ∀ number ∈ keys, ∀ other ∈ keys, first ≤ number → number < other →
    other ≤ last → TextLt number other
  readable : ∀ number, Between keys first last number → number < 2 ^ 63 ∧ last < 2 ^ 63

variable {rocksdb} {operands : Database → Option Nat → Str → List Str}

/-- The iterator visits the keys whose text is not before that of the first number. -/
theorem exists_seek_eq (lawful : rocksdb.Lawful operands) {rdb : Rocksdb Database}
    {keys : Finset Nat} {content : Nat → Str} (holds : Holds rocksdb rdb keys content)
    (first : Nat) :
    ∃ numbers : List Nat, numbers.Pairwise TextLt ∧
      (∀ number, number ∈ numbers ↔ number ∈ keys ∧ ¬TextLt number first) ∧
      rocksdb.seek rdb.db none (Decimal.text first) =
        numbers.map fun number => (Decimal.text number, content number) := by
  have visited (entry : Str × Str) : entry ∈ rocksdb.seek rdb.db none (Decimal.text first) ↔
      ∃ number, (number ∈ keys ∧ ¬TextLt number first) ∧
        entry = (Decimal.text number, content number) := by
    rw [lawful.mem_seek, holds]
    refine ⟨fun found => ?_, fun found => ?_⟩
    · obtain ⟨reached, number, member, key, value⟩ := found
      exact ⟨number, ⟨member, not_lt.mpr (key ▸ reached)⟩, Prod.ext key value⟩
    · obtain ⟨number, ⟨member, reached⟩, rfl⟩ := found
      exact ⟨not_lt.mp reached, number, member, rfl, rfl⟩
  have entries : (rocksdb.seek rdb.db none (Decimal.text first)).map (fun entry =>
      (Decimal.text (Decimal.value entry.1), content (Decimal.value entry.1))) =
        rocksdb.seek rdb.db none (Decimal.text first) := by
    conv_rhs => rw [← List.map_id (rocksdb.seek rdb.db none (Decimal.text first))]
    refine List.map_congr_left fun entry member => ?_
    obtain ⟨number, _, rfl⟩ := (visited entry).mp member
    rw [Decimal.value_text, id_eq]
  refine ⟨(rocksdb.seek rdb.db none (Decimal.text first)).map fun entry =>
    Decimal.value entry.1, ?_, fun number => ?_, by rw [List.map_map]; exact entries.symm⟩
  · refine List.pairwise_map.mpr ((lawful.seek_ascending rdb.db none _).imp_of_mem ?_)
    intro entry later member laterMember less
    obtain ⟨number, _, rfl⟩ := (visited entry).mp member
    obtain ⟨other, _, rfl⟩ := (visited later).mp laterMember
    simpa only [TextLt, Decimal.value_text] using less
  · rw [List.mem_map]
    refine ⟨fun found => ?_, fun found => ?_⟩
    · obtain ⟨entry, member, rfl⟩ := found
      obtain ⟨number, known, rfl⟩ := (visited entry).mp member
      rwa [Decimal.value_text]
    · exact ⟨_, (visited _).mpr ⟨number, found, rfl⟩, Decimal.value_text number⟩

/-- The scan has a result when the keys it reaches can be read, and it gives the values of those
up to the last number in the order of their texts. -/
theorem exists_passed (lawful : rocksdb.Lawful operands) {rdb : Rocksdb Database}
    {keys : Finset Nat} {content : Nat → Str} (holds : Holds rocksdb rdb keys content)
    (first last : Nat) :
    ∃ passed : List Nat, passed.Pairwise TextLt ∧
      (∀ number, number ∈ passed ↔ Between keys first last number ∧ number ≤ last) ∧
      ∀ values, rangeScan rocksdb rdb (Decimal.text first) (Decimal.text last) [] =
          some (true, values) ↔
        (∀ number, Between keys first last number → number < 2 ^ 63 ∧ last < 2 ^ 63) ∧
        values = passed.map content := by
  obtain ⟨numbers, ordered, member, visited⟩ := exists_seek_eq lawful holds first
  have reached (number : Nat) : Reached TextLt (· ≤ last) numbers number ↔
      Between keys first last number := by
    simp only [Reached, Between, member, and_imp]
  refine ⟨numbers.takeWhile fun number => number ≤ last,
    ordered.sublist (List.takeWhile_sublist _), fun number => ?_, fun values => ?_⟩
  · rw [mem_takeWhile_iff ordered, reached]
  · have text : (Decimal.text first).cstr = Decimal.text first :=
      Str.cstr_eq_self fun zero => absurd (Decimal.isDigit_of_mem_text zero) (by decide)
    simp only [← reached]
    rw [rangeScan, if_pos ⟨Decimal.text_ne_nil first, Decimal.text_ne_nil last⟩, if_pos rfl, text,
      visited, ← scan_eq_some_iff content ordered last values]
    cases scan (Decimal.text last)
        (numbers.map fun number => (Decimal.text number, content number)) with
    | none => simp only [Option.bind_eq_bind, Option.bind_none, reduceCtorEq]
    | some scanned => simp only [Option.bind_eq_bind, Option.bind_some, Option.some.injEq,
        Prod.mk.injEq, true_and]

/-! ### A database for every set of keys -/

/-- Merging the texts of some numbers into themselves. -/
def ofNumbers (rocksdb : RocksDB Database) (numbers : List Nat) : Rocksdb Database where
  db := numbers.foldl (fun db number =>
    rocksdb.merge db none (Decimal.text number) (Decimal.text number)) rocksdb.opened
  cfmap := OrderedMap.empty

theorem operands_ofNumbers (lawful : rocksdb.Lawful operands) {numbers : List Nat}
    (nodup : numbers.Nodup) (key : Str) :
    operands (ofNumbers rocksdb numbers).db none key =
      if key ∈ numbers.map Decimal.text then [key] else [] := by
  induction numbers using List.reverseRecOn with
  | nil => exact lawful.operands_opened none key
  | append_singleton numbers number ih =>
      obtain ⟨earlier, _, fresh⟩ := List.nodup_append.mp nodup
      have before := ih earlier
      rw [ofNumbers] at before ⊢
      simp only [List.foldl_concat, lawful.operands_merge,
        List.map_append, List.map_singleton, List.mem_append, List.mem_singleton, true_and]
      by_cases same : key = Decimal.text number
      · have absent : key ∉ numbers.map Decimal.text := by
          rw [same, List.mem_map_of_injective Decimal.text_injective]
          exact fun member => fresh number member number (List.mem_singleton_self number) rfl
        rw [if_neg absent] at before
        rw [if_pos same, if_pos (.inr same), ← same, before, List.nil_append]
      · simpa only [same, ↓reduceIte, or_false] using before

theorem holds_ofNumbers (lawful : rocksdb.Lawful operands) (keys : Finset Nat) :
    Holds rocksdb (ofNumbers rocksdb keys.toList) keys Decimal.text := by
  intro key value
  rw [lawful.get_eq, operands_ofNumbers lawful keys.nodup_toList]
  by_cases known : key ∈ keys.toList.map Decimal.text
  · obtain ⟨number, member, rfl⟩ := List.mem_map.mp known
    rw [if_pos known, if_neg (List.cons_ne_nil _ _), Option.some.injEq, eq_comm]
    refine ⟨fun merged => ⟨number, Finset.mem_toList.mp member, rfl, merged⟩, fun found => ?_⟩
    obtain ⟨other, _, same, rfl⟩ := found
    exact same.symm
  · rw [if_neg known, if_pos rfl]
    refine iff_of_false (by simp) fun found => ?_
    obtain ⟨number, member, rfl, _⟩ := found
    exact known (List.mem_map_of_mem (Finset.mem_toList.mpr member))

/-! ### The scanned range -/

theorem ordersAgree_of_scansRange (lawful : rocksdb.Lawful operands) {keys : Finset Nat}
    {first last : Nat} (nonempty : first ≤ last) (scans : ScansRange rocksdb keys first last) :
    OrdersAgree keys first last := by
  have holds := holds_ofNumbers lawful keys
  obtain ⟨inside, ascending, member, scanned⟩ := scans _ _ holds
  obtain ⟨passed, ordered, between, result⟩ := exists_passed lawful holds first last
  obtain ⟨readable, values⟩ := (result _).mp scanned
  obtain rfl := Decimal.text_injective.list_map values
  refine ⟨fun number known low high => ?_, fun number reached => ?_, ?_, readable⟩
  · exact ((between number).mp ((member number).mpr ⟨known, low, high⟩)).1
  · rcases Nat.le_total number last with high | above
    · exact ((member number).mp ((between number).mpr ⟨reached, high⟩)).2.1
    · exact nonempty.trans above
  · intro number known other otherKnown low less high
    have monotone := List.Pairwise.forall_of_forall_of_flip
      (R := fun number other => number < other → TextLt number other)
      (fun number _ less => absurd less (lt_irrefl number))
      (ordered.imp fun {number other} text (_ : number < other) => text)
      (ascending.imp fun {_ _} less greater => absurd less (lt_asymm greater))
    exact monotone ((member number).mpr ⟨known, low, less.le.trans high⟩)
      ((member other).mpr ⟨otherKnown, low.trans less.le, high⟩) less

theorem scansRange_of_ordersAgree (lawful : rocksdb.Lawful operands) {keys : Finset Nat}
    {first last : Nat} (agree : OrdersAgree keys first last) :
    ScansRange rocksdb keys first last := by
  intro rdb content holds
  obtain ⟨passed, ordered, between, result⟩ := exists_passed lawful holds first last
  have member (number : Nat) :
      number ∈ passed ↔ number ∈ keys ∧ first ≤ number ∧ number ≤ last := by
    rw [between]
    refine ⟨fun reached => ?_, fun inside => ?_⟩
    · exact ⟨reached.1.1.1, agree.above_first number reached.1, reached.2⟩
    · exact ⟨agree.between_of_inside number inside.1 inside.2.1 inside.2.2, inside.2.2⟩
  refine ⟨passed, ordered.imp_of_mem ?_, member, (result _).mpr ⟨agree.readable, rfl⟩⟩
  intro number other earlier later less
  by_contra greater
  rcases Nat.eq_or_lt_of_le (not_lt.mp greater) with rfl | greater
  · exact lt_irrefl _ less
  · obtain ⟨known, low, _⟩ := (member other).mp later
    obtain ⟨otherKnown, _, high⟩ := (member number).mp earlier
    exact lt_asymm less (agree.textLt_of_lt other known number otherKnown low greater high)

/-- **Ranges.** The scan gives the values of the keys in the range exactly when the orders agree. -/
theorem scansRange_iff (lawful : rocksdb.Lawful operands) (keys : Finset Nat) {first last : Nat}
    (nonempty : first ≤ last) :
    ScansRange rocksdb keys first last ↔ OrdersAgree keys first last :=
  ⟨ordersAgree_of_scansRange lawful nonempty, scansRange_of_ordersAgree lawful⟩

/-- Four keys with one digit each, all of them in the range. -/
theorem scansRange_iff_table :
    ScansRange RocksDB.table {6, 7, 8, 9} 6 9 ↔ OrdersAgree {6, 7, 8, 9} 6 9 :=
  scansRange_iff RocksDB.table_lawful {6, 7, 8, 9} (by decide)

/-- The scan from 5 to 10 does not reach 10, whose text is before that of 5. -/
theorem not_scansRange_five_ten : ¬ScansRange RocksDB.table {6, 7, 8, 9, 10} 5 10 := by
  intro scans
  have agree := ordersAgree_of_scansRange RocksDB.table_lawful (by decide) scans
  have ten : TextLt 10 5 := by
    rw [TextLt, Decimal.text_of_le (by decide), Decimal.text_of_lt (by decide),
      Decimal.text_of_lt (by decide)]
    decide
  exact (agree.between_of_inside 10 (by decide) (by decide) (by decide)).1.2 ten

end Model

end Rocksdb

end LogProcess
