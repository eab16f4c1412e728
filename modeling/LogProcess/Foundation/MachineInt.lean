import Mathlib

/-! # Machine integers

Values of type `int` are integers reduced to the range of 32 bits after every
operation. Inside the range the reduction is the identity (`int32_eq_self`), so a
running sum that stays inside is the sum (`foldl_int32_eq_sum`). Values of type `int64_t`
are reduced to 64 bits. Counting up reduces the sum (`iterate_int64_eq`). Where overflow is to have
no result, `checkedInt64` has none.
-/

/-- The value of an `int` after wrapping around. -/
def int32 (value : Int) : Int := value.bmod (2 ^ 32)

theorem int32_eq_self {value : Int} (low : -2 ^ 31 ≤ value) (high : value < 2 ^ 31) :
    int32 value = value :=
  Int.bmod_eq_of_le (by omega) (by omega)

/-- A value that is not negative only gets smaller. -/
theorem int32_le (value : Nat) : int32 value ≤ value := by
  rw [int32, Int.bmod_def]
  split <;> omega

/-- A running sum of nonnegative values that stays below the bound never wraps. -/
theorem foldl_int32_eq_sum {values : List Int} (nonnegative : ∀ value ∈ values, 0 ≤ value)
    {start : Int} (started : 0 ≤ start) (bound : start + values.sum < 2 ^ 31) :
    values.foldl (fun result value => int32 (result + value)) start = start + values.sum := by
  induction values generalizing start with
  | nil => rw [List.foldl_nil, List.sum_nil, add_zero]
  | cons value rest ih =>
      rw [List.sum_cons] at bound ⊢
      have first := nonnegative value List.mem_cons_self
      have later : ∀ value ∈ rest, 0 ≤ value :=
        fun value member => nonnegative value (List.mem_cons_of_mem _ member)
      have remaining := List.sum_nonneg later
      rw [List.foldl_cons, int32_eq_self (by omega) (by omega), ih later (by omega) (by omega)]
      omega

/-- The value of an `int64_t` after wrapping around. -/
def int64 (value : Int) : Int := value.bmod (2 ^ 64)

theorem int64_eq_self {value : Int} (low : -2 ^ 63 ≤ value) (high : value < 2 ^ 63) :
    int64 value = value :=
  Int.bmod_eq_of_le (by omega) (by omega)

/-- The result of an operation of signed 64 bits, which is not defined outside the range. -/
def checkedInt64 (value : Int) : Option Int :=
  if -2 ^ 63 ≤ value ∧ value < 2 ^ 63 then some value else none

theorem checkedInt64_eq_some_iff {value result : Int} :
    checkedInt64 value = some result ↔
      value = result ∧ -2 ^ 63 ≤ value ∧ value < 2 ^ 63 := by
  rw [checkedInt64, Option.ite_none_right_eq_some, Option.some.injEq, and_comm]

/-- Repeated addition of one only wraps at the end. -/
theorem iterate_int64_eq (start : Int) (count : Nat) :
    (fun value => int64 (value + 1))^[count] (int64 start) = int64 (start + count) := by
  induction count with
  | zero => rw [Function.iterate_zero, id, Nat.cast_zero, add_zero]
  | succ count ih =>
      rw [Function.iterate_succ_apply', ih, int64, int64, Int.bmod_add_bmod, int64,
        Nat.cast_succ, add_assoc]
