import LogProcess.Foundation.Bytes

/-! # Decimal text

The decimal text of a number, as `std::to_string` writes it and as `std::stoll` reads it
back (`Decimal.strto_intText`). Texts are injective
(`Decimal.text_injective`), and texts with equally many digits are ordered as
their numbers are (`Decimal.text_lt_text_iff`).
-/

namespace Decimal

/-- The character of a digit below ten. -/
def digit (value : Nat) : UInt8 := UInt8.ofNat (48 + value)

/-- `std::to_string` of a nonnegative number. -/
def text (number : Nat) : Str := (Nat.toDigits 10 number).map fun char => UInt8.ofNat char.toNat

/-- The number that a sequence of digits stands for. -/
def value (digits : Str) : Nat :=
  digits.foldl (fun number char => number * 10 + (char.toNat - 48)) 0

def isDigit (char : UInt8) : Bool := 48 ≤ char ∧ char ≤ 57

/-- `std::to_string` of an integer. -/
def intText (number : Int) : Str :=
  if number < 0 then 45 :: text number.natAbs else text number.natAbs

/-- The characters that `isspace` accepts. -/
def isSpace (char : UInt8) : Bool := char = 32 ∨ (9 ≤ char ∧ char ≤ 13)

/-- `std::stoll` and its like on a range of `2 * bound` integers: skip white space, read a
sign and the longest sequence of digits. They throw without digits or out of range. -/
def strto (bound : Nat) (input : Str) : Option Int :=
  let trimmed := input.dropWhile isSpace
  let negative := trimmed.head? = some 45
  let unsigned := if trimmed.head? = some 45 ∨ trimmed.head? = some 43 then trimmed.tail
    else trimmed
  let digits := unsigned.takeWhile isDigit
  let number : Int := if negative then -(value digits) else value digits
  if digits = [] ∨ number < -bound ∨ (bound : Int) ≤ number then none else some number

def stoll (input : Str) : Option Int := strto (2 ^ 63) input

def stoi (input : Str) : Option Int := strto (2 ^ 31) input

/-! ### Digits -/

theorem toNat_digit {number : Nat} (small : number < 10) : (digit number).toNat = 48 + number := by
  rw [digit, UInt8.toNat_ofNat', Nat.mod_eq_of_lt (by omega)]

theorem isDigit_iff (char : UInt8) : isDigit char ↔ 48 ≤ char.toNat ∧ char.toNat ≤ 57 := by
  simp only [isDigit, decide_eq_true_eq, UInt8.le_iff_toNat_le]
  rfl

theorem text_of_lt {number : Nat} (small : number < 10) : text number = [digit number] := by
  rw [text, Nat.toDigits_of_lt_base small, List.map_singleton,
    Nat.toNat_digitChar_of_lt_ten small, digit]

/-- The last digit of a text. -/
theorem text_of_le {number : Nat} (large : 10 ≤ number) :
    text number = text (number / 10) ++ [digit (number % 10)] := by
  rw [text, Nat.toDigits_of_base_le (by decide) large, List.map_append, List.map_singleton,
    Nat.toNat_digitChar_of_lt_ten (Nat.mod_lt _ (by decide)), text, digit]

theorem text_ne_nil (number : Nat) : text number ≠ [] := by
  rcases Nat.lt_or_ge number 10 with small | large
  · rw [text_of_lt small]
    exact List.cons_ne_nil _ _
  · rw [text_of_le large]
    exact List.append_ne_nil_of_right_ne_nil _ (List.cons_ne_nil _ _)

theorem isDigit_of_mem_text {number : Nat} {char : UInt8} (member : char ∈ text number) :
    isDigit char := by
  induction number using Nat.strongRecOn with
  | ind number ih =>
      rw [isDigit_iff]
      rcases Nat.lt_or_ge number 10 with small | large
      · rw [text_of_lt small, List.mem_singleton] at member
        rw [member, toNat_digit small]
        omega
      · rw [text_of_le large, List.mem_append, List.mem_singleton] at member
        rcases member with early | rfl
        · exact (isDigit_iff char).mp (ih _ (by omega) early)
        · rw [toNat_digit (Nat.mod_lt _ (by decide))]
          omega

/-! ### Values -/

theorem value_append_singleton (digits : Str) (char : UInt8) :
    value (digits ++ [char]) = value digits * 10 + (char.toNat - 48) := by
  rw [value, List.foldl_concat, value]

/-- Reading a text gives back the number. -/
theorem value_text (number : Nat) : value (text number) = number := by
  induction number using Nat.strongRecOn with
  | ind number ih =>
      rcases Nat.lt_or_ge number 10 with small | large
      · rw [text_of_lt small, ← List.nil_append [digit number], value_append_singleton,
          toNat_digit small]
        simp only [value, List.foldl_nil]
        omega
      · rw [text_of_le large, value_append_singleton, ih _ (by omega),
          toNat_digit (Nat.mod_lt _ (by decide))]
        omega

theorem text_injective : Function.Injective text :=
  Function.LeftInverse.injective value_text

theorem value_cons (char : UInt8) (digits : Str) :
    value (char :: digits) = (char.toNat - 48) * 10 ^ digits.length + value digits := by
  induction digits using List.reverseRecOn with
  | nil => simp only [value, List.foldl_cons, List.foldl_nil, List.length_nil]; omega
  | append_singleton digits last ih =>
      rw [← List.cons_append, value_append_singleton, value_append_singleton, ih,
        List.length_append, List.length_singleton, pow_succ]
      ring

theorem value_lt {digits : Str} (allDigits : ∀ char ∈ digits, isDigit char) :
    value digits < 10 ^ digits.length := by
  induction digits using List.reverseRecOn with
  | nil => exact Nat.one_pos
  | append_singleton digits last ih =>
      have bound := ih fun char member => allDigits char (List.mem_append_left _ member)
      have final := (isDigit_iff last).mp (allDigits last (by simp))
      rw [value_append_singleton, List.length_append, List.length_singleton, pow_succ]
      omega

/-- Among sequences of equally many digits the order of bytes is the order of numbers. -/
theorem lt_iff_value_lt {first second : Str} (same : first.length = second.length)
    (firstDigits : ∀ char ∈ first, isDigit char) (secondDigits : ∀ char ∈ second, isDigit char) :
    first < second ↔ value first < value second := by
  induction first generalizing second with
  | nil =>
      rw [List.length_nil, Eq.comm, List.length_eq_zero_iff] at same
      rw [same]
      exact iff_of_false (lt_irrefl _) (lt_irrefl _)
  | cons char rest ih =>
      cases second with
      | nil => simp only [List.length_cons, List.length_nil, Nat.add_one_ne_zero] at same
      | cons other remaining =>
          rw [List.length_cons, List.length_cons, Nat.add_right_cancel_iff] at same
          rw [List.forall_mem_cons] at firstDigits secondDigits
          have head := (isDigit_iff char).mp firstDigits.1
          have otherHead := (isDigit_iff other).mp secondDigits.1
          have bound := value_lt firstDigits.2
          have otherBound := value_lt secondDigits.2
          rw [List.cons_lt_cons_iff, ih same firstDigits.2 secondDigits.2, value_cons, value_cons,
            ← same]
          rw [← same] at otherBound
          rcases lt_trichotomy char.toNat other.toNat with less | equal | greater
          · apply iff_of_true (Or.inl (UInt8.lt_iff_toNat_lt.mpr less))
            have step : (char.toNat - 48 + 1) * 10 ^ rest.length ≤
                (other.toNat - 48) * 10 ^ rest.length := Nat.mul_le_mul_right _ (by omega)
            rw [Nat.add_mul, Nat.one_mul] at step
            omega
          · have chars : char = other := UInt8.toNat_inj.mp equal
            simp only [chars, lt_self_iff_false, true_and, false_or, Nat.add_lt_add_iff_left]
          · apply iff_of_false
            · rintro (less | ⟨rfl, _⟩)
              · exact absurd (UInt8.lt_iff_toNat_lt.mp less) greater.not_gt
              · exact absurd greater (lt_irrefl _)
            · have step : (other.toNat - 48 + 1) * 10 ^ rest.length ≤
                  (char.toNat - 48) * 10 ^ rest.length := Nat.mul_le_mul_right _ (by omega)
              rw [Nat.add_mul, Nat.one_mul] at step
              omega

/-! ### Lengths -/

theorem length_text {number places : Nat} (low : 10 ^ places ≤ number)
    (high : number < 10 ^ (places + 1)) : (text number).length = places + 1 := by
  induction places generalizing number with
  | zero => rw [text_of_lt (by omega), List.length_singleton]
  | succ places ih =>
      rw [pow_succ] at low high
      have large : 10 ≤ number := by
        have positive := Nat.one_le_pow places 10 (by decide)
        omega
      rw [text_of_le large, List.length_append, List.length_singleton, ih]
      · omega
      · omega

/-- Numbers with equally many digits are ordered as their texts are. -/
theorem text_lt_text_iff {first second places : Nat} (firstLow : 10 ^ places ≤ first)
    (firstHigh : first < 10 ^ (places + 1)) (secondLow : 10 ^ places ≤ second)
    (secondHigh : second < 10 ^ (places + 1)) : text first < text second ↔ first < second := by
  rw [lt_iff_value_lt ((length_text firstLow firstHigh).trans
    (length_text secondLow secondHigh).symm) (fun _ => isDigit_of_mem_text)
    (fun _ => isDigit_of_mem_text), value_text, value_text]

/-! ### Integers -/

theorem intText_of_nonneg {number : Int} (nonneg : 0 ≤ number) :
    intText number = text number.natAbs := if_neg (not_lt.mpr nonneg)

theorem intText_of_neg {number : Int} (negative : number < 0) :
    intText number = 45 :: text number.natAbs := if_pos negative

theorem intText_ne_nil (number : Int) : intText number ≠ [] := by
  rw [intText]
  split
  · exact List.cons_ne_nil _ _
  · exact text_ne_nil _

/-- Different integers have different texts. -/
theorem intText_injective : Function.Injective intText := by
  intro first second same
  have unsigned {number other : Nat} : (45 :: text number : Str) ≠ text other := fun equal => by
    have member : (45 : UInt8) ∈ text other := equal ▸ List.mem_cons_self
    exact absurd (isDigit_of_mem_text member) (by decide)
  rw [intText, intText] at same
  split at same <;> split at same
  · have absolute := text_injective (List.cons.inj same).2
    omega
  · exact absurd same unsigned
  · exact absurd same.symm unsigned
  · have absolute := text_injective same
    omega

/-- The texts of negative numbers come before the others. -/
theorem intText_lt_of_neg {number other : Int} (negative : number < 0) (nonneg : 0 ≤ other) :
    intText number < intText other := by
  rw [intText_of_neg negative, intText_of_nonneg nonneg]
  cases shape : text other.natAbs with
  | nil => exact absurd shape (text_ne_nil _)
  | cons char rest =>
      have member : char ∈ text other.natAbs := shape ▸ List.mem_cons_self
      have bounds := (isDigit_iff char).mp (isDigit_of_mem_text member)
      refine List.cons_lt_cons_iff.mpr (Or.inl (UInt8.lt_iff_toNat_lt.mpr ?_))
      exact Nat.lt_of_lt_of_le (by decide) bounds.1

/-- The texts of nonnegative numbers with equally many digits are ordered as they are. -/
theorem intText_lt_iff (places : Nat) {first second : Int} (firstLow : 10 ^ places ≤ first)
    (firstHigh : first < 10 ^ (places + 1)) (secondLow : 10 ^ places ≤ second)
    (secondHigh : second < 10 ^ (places + 1)) :
    intText first < intText second ↔ first < second := by
  have positive : (0 : Int) < 10 ^ places := by positivity
  obtain ⟨first, rfl⟩ := Int.eq_ofNat_of_zero_le (positive.le.trans firstLow)
  obtain ⟨second, rfl⟩ := Int.eq_ofNat_of_zero_le (positive.le.trans secondLow)
  rw [intText_of_nonneg (Int.natCast_nonneg _), intText_of_nonneg (Int.natCast_nonneg _),
    Int.natAbs_natCast, Int.natAbs_natCast,
    text_lt_text_iff (by exact_mod_cast firstLow) (by exact_mod_cast firstHigh)
      (by exact_mod_cast secondLow) (by exact_mod_cast secondHigh), Int.ofNat_lt]

/-- The text of an integer has digits and a sign. -/
theorem notMem_intText {char : UInt8} (notSign : char ≠ 45) (notDigit : isDigit char = false)
    (number : Int) : char ∉ intText number := by
  have digits (number : Nat) : char ∉ text number := fun member =>
    absurd (isDigit_of_mem_text member) (Bool.eq_false_iff.mp notDigit)
  rw [intText]
  split
  · rw [List.mem_cons, not_or]
    exact ⟨notSign, digits _⟩
  · exact digits _

/-- The text of an integer has no null character. -/
theorem zero_notMem_intText (number : Int) : (0 : UInt8) ∉ intText number :=
  notMem_intText (by decide) (by decide) number

/-- The text of a number is read to its end. -/
theorem takeWhile_text (number : Nat) : (text number).takeWhile isDigit = text number :=
  List.takeWhile_eq_self_iff.mpr fun _ => isDigit_of_mem_text

/-- The first character of a text is neither white space nor a sign. -/
theorem head?_text (number : Nat) :
    ∃ char, (text number).head? = some char ∧ isDigit char := by
  cases shape : text number with
  | nil => exact absurd shape (text_ne_nil number)
  | cons char rest =>
      have member : char ∈ text number := by
        rw [shape]
        exact List.mem_cons_self
      exact ⟨char, rfl, isDigit_of_mem_text member⟩

theorem isSpace_eq_false {char : UInt8} (digit : isDigit char) : isSpace char = false := by
  have bounds := (isDigit_iff char).mp digit
  simp only [isSpace, decide_eq_false_iff_not, UInt8.le_iff_toNat_le, ← UInt8.toNat_inj]
  simp only [UInt8.reduceToNat]
  omega

/-- Reading the text of a number in range gives back the number; there is no other result. -/
theorem strto_text (bound number : Nat) :
    strto bound (text number) = if number < bound then some (number : Int) else none := by
  obtain ⟨char, first, digit⟩ := head?_text number
  have bounds := (isDigit_iff char).mp digit
  have notMinus : char ≠ 45 := by
    rintro rfl
    exact absurd bounds.1 (by decide)
  have notPlus : char ≠ 43 := by
    rintro rfl
    exact absurd bounds.1 (by decide)
  have trimmed : (text number).dropWhile isSpace = text number := by
    cases shape : text number with
    | nil => rfl
    | cons head rest =>
        rw [shape, List.head?_cons, Option.some.injEq] at first
        rw [List.dropWhile_cons_of_neg]
        rw [first, isSpace_eq_false digit]
        exact Bool.false_ne_true
  rw [strto, trimmed]
  simp only [first, Option.some.injEq, notMinus, notPlus, or_self, ↓reduceIte, takeWhile_text,
    value_text, text_ne_nil, false_or]
  by_cases inside : number < bound
  · rw [if_neg (by omega), if_pos inside]
  · rw [if_pos (by omega), if_neg inside]

/-- Reading the text of an integer in range gives back the integer. -/
theorem strto_intText {bound : Nat} {number : Int} (low : -bound ≤ number)
    (high : number < bound) : strto bound (intText number) = some number := by
  by_cases negative : number < 0
  · have trimmed : (45 :: text number.natAbs : Str).dropWhile isSpace = 45 :: text number.natAbs :=
      List.dropWhile_cons_of_neg (by decide)
    rw [strto, intText_of_neg negative, trimmed]
    simp only [List.head?_cons, true_or, ↓reduceIte, List.tail_cons, takeWhile_text, value_text,
      text_ne_nil, false_or]
    rw [if_neg (by omega)]
    congr 1
    omega
  · rw [intText_of_nonneg (not_lt.mp negative), strto_text, if_pos (by omega)]
    congr 1
    omega

theorem stoll_intText {number : Int} (low : -2 ^ 63 ≤ number) (high : number < 2 ^ 63) :
    stoll (intText number) = some number := strto_intText low high

theorem stoll_text (number : Nat) :
    stoll (text number) = if number < 2 ^ 63 then some (number : Int) else none :=
  strto_text (2 ^ 63) number

theorem stoi_text {number : Nat} (high : number < 2 ^ 31) :
    stoi (text number) = some (number : Int) := by
  rw [stoi, strto_text, if_pos high]

end Decimal
