import Mathlib

/-! # Byte strings

A C++ string is a sequence of bytes compared as unsigned characters. The
operations here are those of the standard library that the code relies on:
conversion to a null-terminated string and back, search of a substring and
splitting at one character.
-/

instance Str.linearOrderByte : LinearOrder UInt8 where
  le_refl := UInt8.le_refl
  le_trans _ _ _ := UInt8.le_trans
  le_antisymm _ _ := UInt8.le_antisymm
  le_total := UInt8.le_total
  lt_iff_le_not_ge _ _ := by
    rw [UInt8.lt_iff_toNat_lt, UInt8.le_iff_toNat_le, UInt8.le_iff_toNat_le]
    omega
  toDecidableLE := inferInstance
  toDecidableLT := inferInstance

/-- A byte string, ordered as `std::string` orders it. -/
abbrev Str := List UInt8

instance Str.lawfulBEqBytes : LawfulBEq Str := inferInstance

/-- The bytes of an ASCII literal. -/
def bytes (literal : String) : Str := literal.toList.map fun char => UInt8.ofNat char.toNat

namespace Str

/-- The string a C function sees: everything before the first null byte. -/
def cstr (text : Str) : Str := text.takeWhile (· ≠ 0)

/-- `std::string::find`: the first position from `start` on at which the pattern occurs. -/
def find (text pattern : Str) (start : Nat) : Option Nat :=
  (List.range' start (text.length + 1 - start)).find? fun position =>
    pattern.isPrefixOf (text.drop position)

/-- Cut a string at every occurrence of one character, keeping empty pieces. -/
def splitAt (separator : UInt8) : Str → List Str
  | [] => [[]]
  | char :: rest =>
      if char = separator then [] :: splitAt separator rest
      else match splitAt separator rest with
        | [] => [[char]]
        | piece :: pieces => (char :: piece) :: pieces

/-- The pieces between separators that are not empty. -/
def fields (separator : UInt8) (text : Str) : List Str :=
  (splitAt separator text).filter (· ≠ [])

/-- A property of all bytes can be checked on the numbers below 256. -/
theorem forall_byte {property : UInt8 → Prop}
    (checked : ∀ number : Fin 256, property (UInt8.ofFin number)) (char : UInt8) :
    property char :=
  UInt8.ofFin_toFin char ▸ checked char.toFin

theorem cstr_eq_self {text : Str} (free : 0 ∉ text) : text.cstr = text := by
  rw [cstr, List.takeWhile_eq_self_iff]
  intro char member
  rw [decide_eq_true_eq]
  rintro rfl
  exact free member

theorem cstr_free (text : Str) : 0 ∉ text.cstr := by
  intro member
  have nonzero := List.mem_takeWhile_imp member
  simp only [ne_eq, not_true_eq_false, decide_false, Bool.false_eq_true] at nonzero

theorem cstr_append {first : Str} (free : 0 ∉ first) (second : Str) :
    (first ++ second).cstr = first ++ second.cstr := by
  refine List.takeWhile_append_of_pos fun char member => ?_
  rw [decide_eq_true_eq]
  rintro rfl
  exact free member

/-- A null character hides what stands behind it. -/
theorem length_cstr_append_lt {first : Str} (hidden : 0 ∈ first) (second : Str) :
    (first ++ second).cstr.length < first.length := by
  by_contra long
  have inside : first <+: (first ++ second).cstr := List.prefix_of_prefix_length_le
    (List.prefix_append first second) (List.takeWhile_prefix _) (not_lt.mp long)
  exact cstr_free _ (inside.subset hidden)

/-! ### Searching -/

/-- The position of the first occurrence. -/
theorem find_eq_some_iff (text pattern : Str) (start position : Nat) :
    text.find pattern start = some position ↔
      (start ≤ position ∧ position ≤ text.length ∧ pattern <+: text.drop position) ∧
        ∀ earlier, start ≤ earlier → earlier < position → ¬pattern <+: text.drop earlier := by
  rw [find, List.find?_range'_eq_some, List.mem_range'_1]
  simp only [List.isPrefixOf_iff_prefix, Bool.not_eq_true', ← Bool.not_eq_true]
  refine ⟨fun found => ?_, fun found => ?_⟩
  · obtain ⟨here, ⟨low, high⟩, earlier⟩ := found
    exact ⟨⟨low, by omega, here⟩, earlier⟩
  · obtain ⟨⟨low, high, here⟩, earlier⟩ := found
    exact ⟨here, ⟨low, by omega⟩, earlier⟩

theorem find_eq_none_iff (text pattern : Str) (start : Nat) :
    text.find pattern start = none ↔
      ∀ position, start ≤ position → position ≤ text.length → ¬pattern <+: text.drop position := by
  rw [find, List.find?_range'_eq_none]
  simp only [Bool.not_eq_true', ← Bool.not_eq_true, List.isPrefixOf_iff_prefix]
  refine forall₂_congr fun position low => ?_
  rw [show position < start + (text.length + 1 - start) ↔ position ≤ text.length by omega]

/-- A search from the beginning finds a pattern that occurs. -/
theorem isSome_find_iff (text pattern : Str) :
    (text.find pattern 0).isSome ↔ pattern <:+: text := by
  rw [← Option.ne_none_iff_isSome, Ne, find_eq_none_iff, List.infix_iff_prefix_suffix]
  push Not
  refine ⟨fun found => ?_, fun found => ?_⟩
  · obtain ⟨position, _, _, here⟩ := found
    exact ⟨_, here, List.drop_suffix position text⟩
  · obtain ⟨behind, here, suffix⟩ := found
    refine ⟨text.length - behind.length, Nat.zero_le _, Nat.sub_le _ _, ?_⟩
    rwa [← List.suffix_iff_eq_drop.mp suffix]

/-- The positions at which the pattern occurs. -/
def positions (text pattern : Str) : List Nat :=
  (List.range (text.length + 1)).filter fun position => pattern.isPrefixOf (text.drop position)

theorem mem_positions_iff (text pattern : Str) (position : Nat) :
    position ∈ text.positions pattern ↔
      position ≤ text.length ∧ pattern <+: text.drop position := by
  rw [positions, List.mem_filter, List.mem_range, Nat.lt_succ_iff, List.isPrefixOf_iff_prefix]

theorem positions_ascending (text pattern : Str) : (text.positions pattern).Pairwise (· < ·) :=
  List.pairwise_lt_range.filter _

/-- A search finds the first position from its start on. -/
theorem find_eq_find?_positions (text pattern : Str) (start : Nat) :
    text.find pattern start = (text.positions pattern).find? (start ≤ ·) := by
  refine Option.ext fun position => ?_
  rw [find_eq_some_iff, positions, List.find?_filter, List.find?_range_eq_some, List.mem_range,
    Nat.lt_succ_iff]
  simp only [List.isPrefixOf_iff_prefix, Bool.decide_and, Bool.and_eq_true, decide_eq_true_eq,
    Bool.not_eq_true', ← Bool.not_eq_true]
  refine ⟨fun found => ?_, fun found => ?_⟩
  · obtain ⟨⟨low, high, here⟩, earlier⟩ := found
    exact ⟨⟨here, low⟩, high, fun other less both => earlier other both.2 less both.1⟩
  · obtain ⟨⟨here, low⟩, high, earlier⟩ := found
    exact ⟨⟨low, high, here⟩, fun other above less occurs => earlier other less ⟨occurs, above⟩⟩

/-- Occurrences of a pattern whose first character is not repeated in it do not overlap. -/
theorem length_le_of_positions {text rest : Str} {char : UInt8} (single : char ∉ rest)
    {first second : Nat} (firstMember : first ∈ text.positions (char :: rest))
    (secondMember : second ∈ text.positions (char :: rest)) (less : first < second) :
    first + (char :: rest).length ≤ second := by
  obtain ⟨_, behind, atFirst⟩ := (mem_positions_iff ..).mp firstMember
  obtain ⟨_, behind', atSecond⟩ := (mem_positions_iff ..).mp secondMember
  by_contra overlap
  rw [List.length_cons] at overlap
  obtain ⟨others, rfl⟩ := Nat.exists_eq_add_of_lt less
  -- the second occurrence begins with a character of the rest of the first one
  have here : text[first + others + 1]? = rest[others]? := by
    have inside := congrArg (·[others + 1]?) atFirst
    rw [List.getElem?_drop, List.cons_append, List.getElem?_cons_succ,
      List.getElem?_append_left (by omega)] at inside
    exact inside.symm
  have begins : text[first + others + 1]? = some char := by
    have inside := congrArg (·[0]?) atSecond
    rw [List.getElem?_drop] at inside
    exact inside.symm
  exact single (List.mem_of_getElem? (here.symm.trans begins))

/-- A character of two joined texts is in the first or in the second one. -/
theorem append_eq_append_cons_iff (first second front behind : Str) (char : UInt8) :
    first ++ second = front ++ char :: behind ↔
      (∃ middle, first = front ++ char :: middle ∧ behind = middle ++ second) ∨
        ∃ middle, front = first ++ middle ∧ second = middle ++ char :: behind := by
  rw [List.append_eq_append_iff]
  refine ⟨fun split => ?_, fun split => ?_⟩
  · rcases split with ⟨middle, rfl, same⟩ | ⟨middle, rfl, same⟩
    · exact .inr ⟨middle, rfl, same⟩
    · cases middle with
      | nil => exact .inr ⟨[], by simp, same.symm⟩
      | cons head middle =>
          obtain ⟨rfl, rfl⟩ := List.cons.inj same
          exact .inl ⟨middle, rfl, rfl⟩
  · rcases split with ⟨middle, rfl, rfl⟩ | ⟨middle, rfl, same⟩
    · exact .inr ⟨char :: middle, rfl, rfl⟩
    · exact .inl ⟨middle, rfl, same⟩

/-- Where a pattern with a last character is found, if the text has this character behind the
rest of the pattern. -/
theorem find_append_singleton {text pattern front behind : Str} {char : UInt8}
    (shape : text = front ++ char :: behind) (ending : pattern <:+ front)
    (first : ∀ shorter longer, text = shorter ++ char :: longer → pattern <:+ shorter →
      front.length ≤ shorter.length) :
    text.find (pattern ++ [char]) 0 = some (front.length - pattern.length) := by
  obtain ⟨before, rfl⟩ := ending
  rw [find_eq_some_iff, List.length_append, Nat.add_sub_cancel]
  subst shape
  refine ⟨⟨Nat.zero_le _, ?_, ?_⟩, fun earlier _ less here => ?_⟩
  · simp only [List.length_append]
    omega
  · rw [List.append_assoc, List.drop_left]
    exact ⟨behind, by simp⟩
  · obtain ⟨longer, rest⟩ := here
    have split : (before ++ pattern) ++ char :: behind =
        (((before ++ pattern) ++ char :: behind).take earlier ++ pattern) ++ char :: longer := by
      conv_lhs => rw [← List.take_append_drop earlier ((before ++ pattern) ++ char :: behind)]
      rw [← rest]
      simp only [List.append_assoc, List.singleton_append]
    have length := first _ longer split (List.suffix_append _ _)
    rw [List.length_append, List.length_append, List.length_take] at length
    omega

theorem find_append_singleton_eq_none {text pattern : Str} {char : UInt8}
    (absent : ∀ front behind, text = front ++ char :: behind → ¬pattern <:+ front) :
    text.find (pattern ++ [char]) 0 = none := by
  rw [find_eq_none_iff]
  intro position _ _ here
  obtain ⟨behind, rest⟩ := here
  refine absent (text.take position ++ pattern) behind ?_ (List.suffix_append _ _)
  conv_lhs => rw [← List.take_append_drop position text, ← rest]
  simp only [List.append_assoc, List.singleton_append]

/-! ### Splitting -/

theorem splitAt_ne_nil (separator : UInt8) (text : Str) : splitAt separator text ≠ [] := by
  induction text with
  | nil => simp only [splitAt, ne_eq, List.cons_ne_self, not_false_eq_true]
  | cons char rest ih =>
      rw [splitAt]
      split
      · exact List.cons_ne_nil _ _
      · split <;> exact List.cons_ne_nil _ _

/-- There is one piece more than there are separators. -/
theorem length_splitAt (separator : UInt8) (text : Str) :
    (splitAt separator text).length = text.count separator + 1 := by
  induction text with
  | nil => rfl
  | cons char rest ih =>
      rw [splitAt]
      by_cases cut : char = separator
      · rw [if_pos cut, List.length_cons, ih, cut, List.count_cons_self]
      · rw [if_neg cut, List.count_cons_of_ne cut, ← ih]
        split
        · exact absurd ‹_› (splitAt_ne_nil separator rest)
        · rename_i shape
          rw [shape]
          rfl

/-- A string without the separator is one piece. -/
theorem splitAt_of_not_mem {separator : UInt8} {text : Str} (free : separator ∉ text) :
    splitAt separator text = [text] := by
  induction text with
  | nil => rfl
  | cons char rest ih =>
      rw [List.mem_cons, not_or] at free
      rw [splitAt, if_neg (Ne.symm free.1), ih free.2]

/-- Cutting a string that is joined by the separator cuts its two parts. -/
theorem splitAt_append (separator : UInt8) (first second : Str) :
    splitAt separator (first ++ separator :: second) =
      splitAt separator first ++ splitAt separator second := by
  induction first with
  | nil => simp only [List.nil_append, splitAt, ↓reduceIte, List.singleton_append]
  | cons char rest ih =>
      rw [List.cons_append, splitAt, splitAt, ih]
      by_cases cut : char = separator
      · simp only [cut, ↓reduceIte, List.cons_append]
      · simp only [cut, ↓reduceIte]
        cases pieces : splitAt separator rest with
        | nil => exact absurd pieces (splitAt_ne_nil separator rest)
        | cons piece remaining => rfl

/-- The pieces of a text have all its characters but the separators. -/
theorem splitAt_flatten (separator : UInt8) (text : Str) :
    (splitAt separator text).flatten = text.filter (· ≠ separator) := by
  induction text with
  | nil => rfl
  | cons char rest ih =>
      rw [splitAt, List.filter_cons, ← ih]
      by_cases cut : char = separator
      · simp only [cut, ↓reduceIte, ne_eq, not_true_eq_false, decide_false, Bool.false_eq_true,
          List.flatten_cons, List.nil_append]
      · simp only [cut, ↓reduceIte, ne_eq, not_false_eq_true, decide_true]
        cases pieces : splitAt separator rest with
        | nil => exact absurd pieces (splitAt_ne_nil separator rest)
        | cons piece remaining => rfl

/-- Cutting a joined text at the separator cuts each of its parts. -/
theorem splitAt_intercalate (separator : UInt8) {parts : List Str} (present : parts ≠ []) :
    splitAt separator ([separator].intercalate parts) = parts.flatMap (splitAt separator) := by
  induction parts with
  | nil => exact absurd rfl present
  | cons part rest ih =>
      cases rest with
      | nil => rw [List.intercalate_singleton, List.flatMap_singleton]
      | cons second rest =>
          have later := ih (List.cons_ne_nil second rest)
          rw [List.intercalate_cons_cons, List.append_assoc, List.singleton_append, splitAt_append,
            later]
          rfl

/-- A part without the separator stays in the first piece. -/
theorem exists_splitAt_append {separator : UInt8} {first : Str} (free : separator ∉ first)
    (second : Str) : ∃ piece pieces, splitAt separator second = piece :: pieces ∧
      splitAt separator (first ++ second) = (first ++ piece) :: pieces := by
  induction first with
  | nil =>
      cases shape : splitAt separator second with
      | nil => exact absurd shape (splitAt_ne_nil separator second)
      | cons piece pieces => exact ⟨piece, pieces, rfl, shape⟩
  | cons char rest ih =>
      rw [List.mem_cons, not_or] at free
      obtain ⟨piece, pieces, cut, joined⟩ := ih free.2
      refine ⟨piece, pieces, cut, ?_⟩
      rw [List.cons_append, splitAt, if_neg (Ne.symm free.1), joined]
      rfl

/-- The characters of a piece are those of the text. -/
theorem mem_of_mem_splitAt {separator : UInt8} {text piece : Str}
    (member : piece ∈ splitAt separator text) {char : UInt8} (inside : char ∈ piece) :
    char ∈ text := by
  induction text generalizing piece with
  | nil =>
      rw [splitAt, List.mem_singleton] at member
      exact absurd (member ▸ inside) List.not_mem_nil
  | cons head rest ih =>
      rw [splitAt] at member
      by_cases cut : head = separator
      · rw [if_pos cut, List.mem_cons] at member
        rcases member with rfl | later
        · exact absurd inside List.not_mem_nil
        · exact List.mem_cons_of_mem _ (ih later inside)
      · rw [if_neg cut] at member
        cases pieces : splitAt separator rest with
        | nil => exact absurd pieces (splitAt_ne_nil separator rest)
        | cons first remaining =>
            rw [pieces] at ih member
            rcases List.mem_cons.mp member with rfl | later
            · rcases List.mem_cons.mp inside with rfl | behind
              · exact List.mem_cons_self
              · exact List.mem_cons_of_mem _ (ih List.mem_cons_self behind)
            · exact List.mem_cons_of_mem _ (ih (List.mem_cons_of_mem _ later) inside)

/-- No piece contains the separator. -/
theorem not_mem_of_mem_splitAt {separator : UInt8} {text piece : Str}
    (member : piece ∈ splitAt separator text) : separator ∉ piece := by
  induction text generalizing piece with
  | nil =>
      rw [splitAt, List.mem_singleton] at member
      rw [member]
      exact List.not_mem_nil
  | cons char rest ih =>
      rw [splitAt] at member
      by_cases cut : char = separator
      · rw [if_pos cut, List.mem_cons] at member
        rcases member with rfl | later
        · exact List.not_mem_nil
        · exact ih later
      · rw [if_neg cut] at member
        cases pieces : splitAt separator rest with
        | nil => exact absurd pieces (splitAt_ne_nil separator rest)
        | cons head remaining =>
            rw [pieces] at ih member
            rcases List.mem_cons.mp member with rfl | later
            · rw [List.mem_cons, not_or]
              exact ⟨Ne.symm cut, ih List.mem_cons_self⟩
            · exact ih (List.mem_cons_of_mem _ later)

end Str
