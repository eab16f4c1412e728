import LogProcess.Foundation.Bytes

/-! # The string hash

`FNV1_32_HASH` of `common/consistent_hash.cc`. The arithmetic is that of a 32-bit `int`
that wraps around, with sign-extended characters and arithmetic right shifts. The
source has three copies of it; the ones that take a length read that many
characters of the key. The second xor with a shifted copy clears the sign bit, and the sum
after it cannot be the smallest `int` (`fnvMix_ne_intMin`), so the absolute value is
a nonnegative `int` (`toNat_fnvFinish_lt`).
-/

namespace LogProcess

/-- One round of the loop over the characters. -/
def fnvRound (hash : BitVec 32) (char : UInt8) : BitVec 32 :=
  (hash ^^^ char.toBitVec.signExtend 32) * 16777619#32

/-- The mixing after the loop and the final absolute value. -/
def fnvFinish (hash : BitVec 32) : BitVec 32 :=
  let hash := hash + hash <<< 13
  let hash := hash ^^^ hash.sshiftRight 7
  let hash := hash + hash <<< 3
  let hash := hash ^^^ hash.sshiftRight 17
  let hash := hash + hash <<< 5
  if hash.slt 0 then -hash else hash

/-- `common::FNV1_32_HASH` -/
def fnv1Hash32 (str : Str) : BitVec 32 := fnvFinish (str.foldl fnvRound 2166136261#32)

/-- The copies that loop over the first `len` characters, null beyond the end: the character at
the end is null, and the source is undefined for a length that goes further. -/
def fnv1Hash32Length (key : Str) (len : Nat) : BitVec 32 :=
  fnvFinish ((List.range len).foldl (fun hash i => fnvRound hash (key.getD i 0)) 2166136261#32)

/-- On the whole key the copies agree. -/
theorem fnv1Hash32Length_length (key : Str) :
    fnv1Hash32Length key key.length = fnv1Hash32 key := by
  have loop (start : BitVec 32) : (List.range key.length).foldl
      (fun hash i => fnvRound hash (key.getD i 0)) start = key.foldl fnvRound start := by
    induction key generalizing start with
    | nil => rfl
    | cons char rest ih =>
        rw [List.length_cons, List.range_succ_eq_map, List.foldl_cons, List.foldl_map]
        simp only [List.getD_cons_zero, List.getD_cons_succ, List.foldl_cons]
        exact ih _
  rw [fnv1Hash32Length, loop, fnv1Hash32]

/-! ### The range -/

/-- The mixing without the final absolute value. -/
def fnvMix (hash : BitVec 32) : BitVec 32 :=
  let hash := hash + hash <<< 13
  let hash := hash ^^^ hash.sshiftRight 7
  let hash := hash + hash <<< 3
  let hash := hash ^^^ hash.sshiftRight 17
  hash + hash <<< 5

theorem fnvFinish_eq (hash : BitVec 32) :
    fnvFinish hash = if (fnvMix hash).slt 0 then -fnvMix hash else fnvMix hash := rfl

/-- The arithmetic shift copies the sign, so the xor clears it. -/
theorem toNat_xor_sshiftRight_lt (hash : BitVec 32) (shift : Nat) :
    (hash ^^^ hash.sshiftRight shift).toNat < 2 ^ 31 := by
  have sign : (hash ^^^ hash.sshiftRight shift).msb = false := by
    rw [BitVec.msb_xor, BitVec.msb_sshiftRight, Bool.xor_self]
  have small := BitVec.msb_eq_false_iff_two_mul_lt.mp sign
  omega

/-- Only the smallest `int` itself has itself as its 33-fold. -/
theorem add_shiftLeft_ne_intMin {hash : BitVec 32} (nonnegative : hash.toNat < 2 ^ 31) :
    hash + hash <<< 5 ≠ BitVec.intMin 32 := by
  intro smallest
  have value := congrArg BitVec.toNat smallest
  rw [BitVec.toNat_add, BitVec.toNat_shiftLeft, Nat.shiftLeft_eq, BitVec.toNat_intMin] at value
  omega

/-- The absolute value is never taken of the smallest `int`. -/
theorem fnvMix_ne_intMin (hash : BitVec 32) : fnvMix hash ≠ BitVec.intMin 32 := by
  unfold fnvMix
  exact add_shiftLeft_ne_intMin (toNat_xor_sshiftRight_lt _ 17)

/-- The absolute value of any other `int` is an `int`. -/
theorem toNat_fnvFinish_lt (hash : BitVec 32) : (fnvFinish hash).toNat < 2 ^ 31 := by
  have other : (fnvMix hash).toNat ≠ 2 ^ 31 := by
    intro value
    apply fnvMix_ne_intMin hash
    apply BitVec.eq_of_toNat_eq
    rw [value]
    rfl
  have bound := (fnvMix hash).isLt
  rw [fnvFinish_eq]
  split
  · rename_i negative
    have large := BitVec.slt_zero_iff_msb_cond.mp negative
    rw [BitVec.msb_eq_true_iff_two_mul_ge] at large
    rw [BitVec.toNat_neg]
    omega
  · rename_i nonnegative
    have small : (fnvMix hash).msb = false := by
      rw [← Bool.not_eq_true]
      exact fun negative => nonnegative (BitVec.slt_zero_iff_msb_cond.mpr negative)
    rw [BitVec.msb_eq_false_iff_two_mul_lt] at small
    omega

end LogProcess
