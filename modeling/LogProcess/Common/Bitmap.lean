import Mathlib
import LogProcess.Foundation.Runs

/-! # The bitmap

`common/bitmap.h`. `Bitmap(num)` keeps the indexes from 0 to `num` in words of 32 bits,
the first index of a word in its most significant bit. A bitmap stands for the set
of its indexes (`Bitmap.Holds`): setting and clearing an index add it and remove it
(`Bitmap.holds_set`, `Bitmap.holds_clr`), and the values that two bitmaps give for an index
are equal exactly when both or neither of them hold it (`Bitmap.get_eq_get_iff`). After some calls
a bitmap gives the indexes whose last call was `set` (`Bitmap.get_run`).
-/

namespace LogProcess

structure Bitmap where
  n : Nat
  a : List (BitVec 32)
  length_eq : a.length = 1 + n / 32

namespace Bitmap

def mask : Nat := 0x1F

def shift : Nat := 5

/-- `1 << mask`, the first bit of a word. -/
def pos : BitVec 32 := 1 <<< mask

/-- `Bitmap(num)`. -/
def new (num : Nat) : Bitmap where
  n := num
  a := List.replicate (1 + num / 32) 0
  length_eq := List.length_replicate

/-- Replace the word of an index, without a result when there is no such word. -/
def modify (bitmap : Bitmap) (i : Nat) (change : BitVec 32 → BitVec 32) : Option Bitmap :=
  if i >>> shift < bitmap.a.length then
    some { bitmap with
      a := bitmap.a.modify (i >>> shift) change
      length_eq := (List.length_modify ..).trans bitmap.length_eq }
  else
    none

def set (bitmap : Bitmap) (i : Nat) : Option Bitmap :=
  bitmap.modify i (· ||| pos >>> (i &&& mask))

/-- The value is an `int`, here its bits. -/
def get (bitmap : Bitmap) (i : Nat) : Option (BitVec 32) :=
  bitmap.a[i >>> shift]?.map (· &&& pos >>> (i &&& mask))

def clr (bitmap : Bitmap) (i : Nat) : Option Bitmap :=
  bitmap.modify i (· &&& ~~~(pos >>> (i &&& mask)))

/-- The bitmap has a word for the index. -/
def Covers (bitmap : Bitmap) (i : Nat) : Prop := i / 32 ≤ bitmap.n / 32

/-- The bit of the index is set. -/
def Holds (bitmap : Bitmap) (i : Nat) : Prop :=
  ∃ word, bitmap.a[i / 32]? = some word ∧ word.getLsbD (31 - i % 32) = true

/-! ### Words and bits -/

theorem shiftRight_shift (i : Nat) : i >>> shift = i / 32 :=
  Nat.shiftRight_eq_div_pow i 5

/-- The bit of an index in its word. -/
theorem pos_shiftRight (i : Nat) : pos >>> (i &&& mask) = BitVec.twoPow 32 (31 - i % 32) := by
  have and_mask : i &&& mask = i % 32 := Nat.and_two_pow_sub_one_eq_mod i 5
  have bits : ∀ bit : Fin 32, pos >>> bit.val = BitVec.twoPow 32 (31 - bit.val) := by
    decide
  rw [and_mask]
  exact bits ⟨i % 32, Nat.mod_lt i (by decide)⟩

theorem covers_iff_lt (bitmap : Bitmap) (i : Nat) :
    bitmap.Covers i ↔ i / 32 < bitmap.a.length := by
  rw [Covers, bitmap.length_eq]
  omega

/-! ### The set of the indexes -/

theorem not_holds_new (num i : Nat) : ¬(new num).Holds i := by
  intro holding
  obtain ⟨word, word_eq, bit⟩ := holding
  obtain ⟨_, rfl⟩ := List.getElem?_eq_some_iff.mp word_eq
  simp only [new, List.getElem_replicate, BitVec.ofNat_eq_ofNat, BitVec.getLsbD_zero,
    Bool.false_eq_true] at bit

/-- A change of a word is defined exactly for the indexes that the bitmap covers. -/
theorem modify_isSome_iff (bitmap : Bitmap) (i : Nat) (change : BitVec 32 → BitVec 32) :
    (bitmap.modify i change).isSome ↔ bitmap.Covers i := by
  rw [covers_iff_lt, ← shiftRight_shift, modify]
  by_cases inside : i >>> shift < bitmap.a.length
  · rw [if_pos inside, Option.isSome_some]
    exact iff_of_true rfl inside
  · rw [if_neg inside, Option.isSome_none]
    exact iff_of_false Bool.false_ne_true inside

/-- A change of a word reaches the indexes of that word. -/
theorem holds_modify {bitmap next : Bitmap} {i : Nat} {change : BitVec 32 → BitVec 32}
    (changed : bitmap.modify i change = some next) (j : Nat) :
    next.Holds j ↔ ∃ word, bitmap.a[j / 32]? = some word ∧
      (if i / 32 = j / 32 then change word else word).getLsbD (31 - j % 32) = true := by
  simp only [modify, Option.ite_none_right_eq_some, Option.some.injEq] at changed
  obtain ⟨_, rfl⟩ := changed
  simp only [Holds, shiftRight_shift, List.getElem?_modify, Option.map_eq_map,
    Option.map_eq_some_iff, exists_exists_and_eq_and]

/-- A change of a word keeps the size. -/
theorem n_modify {bitmap next : Bitmap} {i : Nat} {change : BitVec 32 → BitVec 32}
    (changed : bitmap.modify i change = some next) : next.n = bitmap.n := by
  simp only [modify, Option.ite_none_right_eq_some, Option.some.injEq] at changed
  obtain ⟨_, rfl⟩ := changed
  rfl

/-- The bit of one index at the place of another. -/
theorem getLsbD_bit {i j : Nat} (same_word : i / 32 = j / 32) :
    (pos >>> (i &&& mask)).getLsbD (31 - j % 32) = decide (j = i) := by
  rw [pos_shiftRight, BitVec.getLsbD_twoPow]
  have inside : 31 - i % 32 < 32 := by omega
  simp only [inside, decide_true, Bool.true_and, decide_eq_decide]
  omega

/-- **Setting an index adds it to the set.** -/
theorem holds_set {bitmap next : Bitmap} {i : Nat} (changed : bitmap.set i = some next)
    (j : Nat) : next.Holds j ↔ j = i ∨ bitmap.Holds j := by
  have covered : bitmap.Covers i :=
    (modify_isSome_iff bitmap i _).mp (Option.isSome_of_eq_some changed)
  rw [holds_modify changed]
  by_cases same_word : i / 32 = j / 32
  · simp only [same_word, ↓reduceIte, BitVec.getLsbD_or, getLsbD_bit same_word, Bool.or_eq_true,
      decide_eq_true_eq, Holds]
    have present : ∃ word, bitmap.a[j / 32]? = some word := by
      rw [← same_word]
      exact ⟨_, List.getElem?_eq_getElem ((covers_iff_lt bitmap i).mp covered)⟩
    obtain ⟨word, word_eq⟩ := present
    simp only [word_eq, Option.some.injEq, exists_eq_left']
    exact or_comm
  · have other : j ≠ i := fun equal => same_word (by rw [equal])
    simp only [same_word, ↓reduceIte, other, false_or, Holds]

/-- An index that is covered can be set. -/
theorem exists_set {bitmap : Bitmap} {i : Nat} (covered : bitmap.Covers i) :
    ∃ next, bitmap.set i = some next ∧ next.n = bitmap.n ∧
      ∀ j, next.Holds j ↔ j = i ∨ bitmap.Holds j := by
  obtain ⟨next, changed⟩ := Option.isSome_iff_exists.mp ((modify_isSome_iff ..).mpr covered)
  exact ⟨next, changed, n_modify changed, holds_set changed⟩

/-- **Clearing an index removes it from the set.** -/
theorem holds_clr {bitmap next : Bitmap} {i : Nat} (changed : bitmap.clr i = some next)
    (j : Nat) : next.Holds j ↔ j ≠ i ∧ bitmap.Holds j := by
  rw [holds_modify changed]
  by_cases same_word : i / 32 = j / 32
  · have inside : 31 - j % 32 < 32 := by omega
    simp only [same_word, ↓reduceIte, BitVec.getLsbD_and, BitVec.getLsbD_not, inside, decide_true,
      Bool.true_and, getLsbD_bit same_word, Bool.and_eq_true, Bool.not_eq_true',
      decide_eq_false_iff_not, Holds]
    grind
  · have other : j ≠ i := fun equal => same_word (by rw [equal])
    simp only [same_word, ↓reduceIte, other, ne_eq, not_false_eq_true, true_and, Holds]

/-- The value of an index that is covered: its bit, or zero. -/
theorem get_eq {bitmap : Bitmap} {i : Nat} (covered : bitmap.Covers i) :
    ∃ word, bitmap.a[i / 32]? = some word ∧ bitmap.get i =
      some (if word.getLsbD (31 - i % 32) then pos >>> (i &&& mask) else 0#32) := by
  have inside := (covers_iff_lt bitmap i).mp covered
  refine ⟨bitmap.a[i / 32], List.getElem?_eq_getElem inside, ?_⟩
  rw [get, shiftRight_shift, List.getElem?_eq_getElem inside, Option.map_some, pos_shiftRight,
    BitVec.and_twoPow]

theorem bit_ne_zero (i : Nat) : pos >>> (i &&& mask) ≠ 0#32 := by
  intro zero
  have bit := getLsbD_bit (rfl : i / 32 = i / 32)
  simp only [zero, BitVec.getLsbD_zero, decide_true, Bool.false_eq_true] at bit

/-- The value of an index is not zero exactly when the bitmap holds it. -/
theorem get_ne_zero_iff {bitmap : Bitmap} {i : Nat} (covered : bitmap.Covers i) :
    bitmap.get i ≠ some 0#32 ↔ bitmap.Holds i := by
  obtain ⟨word, word_eq, value_eq⟩ := get_eq covered
  simp only [value_eq, Holds, word_eq, Option.some.injEq, exists_eq_left', ne_eq,
    ite_eq_right_iff, bit_ne_zero, imp_false, Bool.not_eq_true, Bool.not_eq_false]

/-- Two bitmaps give the same value for an index exactly when both or neither hold it. -/
theorem get_eq_get_iff {first second : Bitmap} {i : Nat} (covered : first.Covers i)
    (covered' : second.Covers i) :
    first.get i = second.get i ↔ (first.Holds i ↔ second.Holds i) := by
  obtain ⟨word, word_eq, value_eq⟩ := get_eq covered
  obtain ⟨word', word_eq', value_eq'⟩ := get_eq covered'
  simp only [value_eq, value_eq', Option.some.injEq, Holds, word_eq, word_eq', exists_eq_left']
  cases word.getLsbD (31 - i % 32) <;> cases word'.getLsbD (31 - i % 32) <;>
    simp [bit_ne_zero, (bit_ne_zero _).symm]

/-! ### Runs of calls -/

/-- A call that changes a bitmap. -/
inductive Call where
  | set (i : Nat)
  | clr (i : Nat)
  deriving DecidableEq

def Call.index : Call → Nat
  | .set i => i
  | .clr i => i

def apply (bitmap : Bitmap) : Call → Option Bitmap
  | .set i => bitmap.set i
  | .clr i => bitmap.clr i

/-- The last of the calls with this index is `set`. -/
def LastSet (calls : List Call) (i : Nat) : Prop :=
  (calls.filter fun call => call.index = i).getLast? = some (.set i)

theorem lastSet_append_singleton (calls : List Call) (call : Call) (i : Nat) :
    LastSet (calls ++ [call]) i ↔ if call.index = i then call = .set i else LastSet calls i := by
  rw [LastSet, List.filter_append]
  by_cases same : call.index = i
  · rw [if_pos same, List.filter_cons_of_pos (by simpa using same), List.filter_nil,
      List.getLast?_concat, Option.some.injEq]
  · rw [if_neg same, List.filter_cons_of_neg (by simpa using same), List.filter_nil,
      List.append_nil, LastSet]

/-- A call keeps the size and decides about its own index only. -/
theorem apply_spec {bitmap next : Bitmap} {call : Call}
    (applied : bitmap.apply call = some next) :
    next.n = bitmap.n ∧
      ∀ i, next.Holds i ↔ if call.index = i then call = .set i else bitmap.Holds i := by
  cases call with
  | set i =>
      refine ⟨n_modify applied, fun j => ?_⟩
      rw [holds_set applied, Call.index]
      by_cases same : i = j
      · rw [if_pos same, same]
        exact iff_of_true (.inl rfl) rfl
      · rw [if_neg same, or_iff_right (Ne.symm same)]
  | clr i =>
      refine ⟨n_modify applied, fun j => ?_⟩
      rw [holds_clr applied, Call.index]
      by_cases same : i = j
      · rw [if_pos same, same]
        exact iff_of_false (fun both => both.1 rfl) Call.noConfusion
      · rw [if_neg same, and_iff_right (Ne.symm same)]

/-- A call is possible exactly for the indexes that the bitmap covers. -/
theorem apply_isSome_iff (bitmap : Bitmap) (call : Call) :
    (bitmap.apply call).isSome ↔ bitmap.Covers call.index := by
  cases call with
  | set i => exact modify_isSome_iff bitmap i _
  | clr i => exact modify_isSome_iff bitmap i _

theorem covers_of_le {bitmap : Bitmap} {i num : Nat} (size : bitmap.n = num) (inside : i ≤ num) :
    bitmap.Covers i := by
  rw [Covers, size]
  exact Nat.div_le_div_right inside

/-- The bitmap has the indexes whose last call was `set`. -/
structure Tracks (num : Nat) (calls : List Call) (bitmap : Bitmap) : Prop where
  size : bitmap.n = num
  holds : ∀ i, bitmap.Holds i ↔ LastSet calls i

theorem tracks_new (num : Nat) : Tracks num [] (new num) :=
  ⟨rfl, fun i => iff_of_false (not_holds_new num i) (Option.some_ne_none _).symm⟩

theorem Tracks.apply {num : Nat} {calls : List Call} {bitmap next : Bitmap} {call : Call}
    (tracks : Tracks num calls bitmap) (applied : bitmap.apply call = some next) :
    Tracks num (calls ++ [call]) next := by
  obtain ⟨size, holds⟩ := apply_spec applied
  refine ⟨size.trans tracks.size, fun i => ?_⟩
  rw [holds, lastSet_append_singleton]
  split
  · rfl
  · exact tracks.holds i

theorem tracks_of_run {num : Nat} {calls : List Call} {bitmap : Bitmap}
    (reached : Runs.run apply (new num) calls = some bitmap) :
    Tracks num calls bitmap :=
  Runs.invariant_of_actions (Tracks num) (tracks_new num)
    (fun tracks applied => tracks.apply applied) reached

/-- Calls inside the size never leave the words. -/
theorem exists_run {num : Nat} {calls : List Call} (inside : ∀ call ∈ calls, call.index ≤ num) :
    ∃ bitmap, Runs.run apply (new num) calls = some bitmap ∧ Tracks num calls bitmap := by
  refine Runs.exists_run_of_actions (Tracks num) (fun {calls bitmap} call tracks inside => ?_)
    (tracks_new num) inside
  obtain ⟨next, applied⟩ := Option.isSome_iff_exists.mp
    ((apply_isSome_iff bitmap call).mpr (covers_of_le tracks.size inside))
  exact ⟨next, applied, tracks.apply applied⟩

/-- **Bitmaps are sets.** Calls inside the size stay in the words. Then an index inside the size is
given as not zero exactly when its last call was `set`, one more call changes what is given for its
own index only, and another bitmap gives the same for an index exactly when both or neither have
it. -/
theorem get_run {num : Nat} {calls : List Call} (inside : ∀ call ∈ calls, call.index ≤ num) :
    ∃ bitmap, Runs.run apply (new num) calls = some bitmap ∧
      (∀ i ≤ num, ∃ value, bitmap.get i = some value ∧ (value ≠ 0#32 ↔ LastSet calls i)) ∧
      (∀ call : Call, call.index ≤ num → ∃ next, bitmap.apply call = some next ∧
        ∀ i ≤ num, i ≠ call.index → next.get i = bitmap.get i) ∧
      ∀ (num' : Nat) (calls' : List Call) (other : Bitmap),
        Runs.run apply (new num') calls' = some other →
          ∀ i ≤ num, i ≤ num' →
            (bitmap.get i = other.get i ↔ (LastSet calls i ↔ LastSet calls' i)) := by
  obtain ⟨bitmap, reached, tracks⟩ := exists_run inside
  refine ⟨bitmap, reached, fun i small => ?_, fun call small => ?_, ?_⟩
  · have covered := covers_of_le tracks.size small
    obtain ⟨_, _, value⟩ := get_eq covered
    refine ⟨_, value, ?_⟩
    rw [← tracks.holds, ← get_ne_zero_iff covered, value, ne_eq, ne_eq, Option.some.injEq]
  · obtain ⟨next, applied⟩ := Option.isSome_iff_exists.mp
      ((apply_isSome_iff bitmap call).mpr (covers_of_le tracks.size small))
    refine ⟨next, applied, fun i small other => ?_⟩
    have covered := covers_of_le tracks.size small
    have covered' := covers_of_le (tracks.apply applied).size small
    rw [get_eq_get_iff covered' covered, (apply_spec applied).2, if_neg (Ne.symm other)]
  · intro num' calls' other reached' i small small'
    have tracks' := tracks_of_run reached'
    rw [get_eq_get_iff (covers_of_le tracks.size small) (covers_of_le tracks'.size small'),
      tracks.holds, tracks'.holds]

/-- Two words, and an index that is cleared again. -/
theorem get_run_three_calls :
    ∃ bitmap, Runs.run apply (new 40)
        [.set 31, .set 35, .clr 31] = some bitmap ∧
      (∀ i ≤ 40, ∃ value, bitmap.get i = some value ∧
        (value ≠ 0#32 ↔ LastSet [.set 31, .set 35, .clr 31] i)) ∧
      (∀ call : Call, call.index ≤ 40 → ∃ next, bitmap.apply call = some next ∧
        ∀ i ≤ 40, i ≠ call.index → next.get i = bitmap.get i) ∧
      ∀ (num' : Nat) (calls' : List Call) (other : Bitmap),
        Runs.run apply (new num') calls' = some other →
          ∀ i ≤ 40, i ≤ num' → (bitmap.get i = other.get i ↔
            (LastSet [.set 31, .set 35, .clr 31] i ↔ LastSet calls' i)) :=
  get_run (by decide)

end Bitmap

end LogProcess
