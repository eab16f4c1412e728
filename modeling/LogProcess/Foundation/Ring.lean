import Mathlib

/-! # Rings of slots

Entries are numbered without end, and the entry with a number is kept in the slot whose index is
the number modulo the number of slots. As long as there are at most as many entries as slots, a
new entry takes a free slot and the first one leaves its slot free (`Ring.Holds.push`,
`Ring.Holds.pop`).
-/

namespace Ring

variable {Slot Value : Type*} (reads : Slot → Option Value)

/-- The slots hold the entries whose numbers start with `first`, and nothing else. -/
structure Holds (slots : List Slot) (first : Nat) (entries : List Value) : Prop where
  room : entries.length ≤ slots.length
  filled : ∀ {offset : Nat} {value : Value}, entries[offset]? = some value →
    slots[(first + offset) % slots.length]?.bind reads = some value
  free : ∀ index < slots.length,
    (∀ offset < entries.length, (first + offset) % slots.length ≠ index) →
      slots[index]?.bind reads = none

variable {reads} {slots : List Slot} {first : Nat} {entries : List Value}

/-- Close entries have different slots. -/
theorem eq_of_index_eq {count left right : Nat} (leftSmall : left < count)
    (rightSmall : right < count) (same : (first + left) % count = (first + right) % count) :
    left = right := by
  have congruent : left ≡ right [MOD count] := Nat.ModEq.add_left_cancel' first same
  rw [Nat.ModEq, Nat.mod_eq_of_lt leftSmall, Nat.mod_eq_of_lt rightSmall] at congruent
  exact congruent

theorem holds_nil (allFree : ∀ slot ∈ slots, reads slot = none) (first : Nat) :
    Holds reads slots first [] where
  room := Nat.zero_le _
  filled := fun found => absurd found (Option.some_ne_none _).symm
  free := by
    intro index inside _
    rw [List.getElem?_eq_getElem inside, Option.bind_some]
    exact allFree _ (List.getElem_mem inside)

/-- The slot behind the last entry is free. -/
theorem Holds.free_next (holds : Holds reads slots first entries)
    (space : entries.length < slots.length) :
    slots[(first + entries.length) % slots.length]?.bind reads = none := by
  refine holds.free _ (Nat.mod_lt _ (Nat.zero_lt_of_lt space)) fun offset inside same => ?_
  exact absurd (eq_of_index_eq (inside.trans space) space same) inside.ne

/-- **A new entry** is kept in the slot behind the last one. -/
theorem Holds.push (holds : Holds reads slots first entries)
    (space : entries.length < slots.length) {slot : Slot} {value : Value}
    (written : reads slot = some value) :
    Holds reads (slots.set ((first + entries.length) % slots.length) slot) first
      (entries ++ [value]) where
  room := by
    rw [List.length_append, List.length_singleton, List.length_set]
    exact space
  filled := by
    intro offset other found
    rw [List.length_set]
    rcases lt_or_ge offset entries.length with before | after
    · rw [List.getElem?_append_left before] at found
      rw [List.getElem?_set_ne]
      · exact holds.filled found
      · intro same
        exact absurd (eq_of_index_eq space (before.trans space) same) before.ne'
    · rw [List.getElem?_append_right after] at found
      have here := (List.getElem?_eq_some_iff.mp found).1
      rw [List.length_singleton] at here
      obtain rfl : offset = entries.length := by omega
      rw [Nat.sub_self, List.getElem?_cons_zero] at found
      rw [List.getElem?_set_self (Nat.mod_lt _ (Nat.zero_lt_of_lt space)), Option.bind_some,
        written, found]
  free := by
    intro index inside unused
    rw [List.length_set, List.length_append, List.length_singleton] at unused
    rw [List.length_set] at inside
    rw [List.getElem?_set_ne (unused _ (Nat.lt_succ_self _))]
    exact holds.free index inside fun offset before => unused offset (Nat.lt_succ_of_lt before)

/-- **The first entry** leaves its slot. -/
theorem Holds.pop {value : Value} (holds : Holds reads slots first (value :: entries))
    {slot : Slot} (cleared : reads slot = none) :
    Holds reads (slots.set (first % slots.length) slot) (first + 1) entries where
  room := by
    rw [List.length_set]
    exact (Nat.le_succ _).trans holds.room
  filled := by
    intro offset other found
    have space := holds.room
    have small : offset < entries.length := (List.getElem?_eq_some_iff.mp found).1
    rw [List.length_cons] at space
    rw [List.length_set, List.getElem?_set_ne, Nat.add_assoc, Nat.add_comm 1]
    · exact holds.filled found
    · intro same
      have equal : 0 = 1 + offset :=
        eq_of_index_eq (by omega) (by omega) (same.trans (by rw [Nat.add_assoc]))
      omega
  free := by
    intro index inside unused
    rw [List.length_set] at inside unused
    by_cases same : first % slots.length = index
    · rw [same, List.getElem?_set_self inside, Option.bind_some, cleared]
    · rw [List.getElem?_set_ne same]
      refine holds.free index inside fun offset before => ?_
      cases offset with
      | zero => exact same
      | succ offset =>
          rw [Nat.add_comm offset, ← Nat.add_assoc]
          exact unused offset (Nat.lt_of_succ_lt_succ before)

end Ring
