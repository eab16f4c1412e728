import LogProcess.Foundation.Bytes

/-! # Search patterns

The part of regular expressions that POSIX extended syntax and ECMAScript have in common:
characters, `.`, `[0-9]`, repetition by `+`, anchors, and groups, which do not change what matches.
`Pattern.read` reads a pattern, `Pattern.Matches` says which beginnings of a text it matches, and
`Pattern.firstMatch` finds the leftmost and longest match (`Pattern.isFirstMatch_firstMatch`). In
a text without line terminators `.` matches every character.
-/

namespace Pattern

/-- What matches a single character. -/
inductive Atom where
  | char (char : UInt8)
  | any
  | digit
deriving DecidableEq

/-- The parts of a pattern that follow each other. -/
inductive Piece where
  | one (atom : Atom)
  | some (atom : Atom)
  | start
  | stop
deriving DecidableEq

def Atom.accepts : Atom → UInt8 → Bool
  | .char expected, found => found = expected
  | .any, _ => true
  | .digit, found => 48 ≤ found ∧ found ≤ 57

/-! ### Reading -/

inductive Token where
  | atom (atom : Atom)
  | plus
  | start
  | stop
  | opening
  | closing
deriving DecidableEq

/-- The characters that match themselves, without those that only do so in some syntaxes. -/
def isPlain (char : UInt8) : Bool :=
  48 ≤ char ∧ char ≤ 57 ∨ 65 ≤ char ∧ char ≤ 90 ∨ 97 ≤ char ∧ char ≤ 122 ∨
    char = 32 ∨ char = 45 ∨ char = 58

/-- The meaning of a single character. -/
def token (char : UInt8) : Option Token :=
  if isPlain char then some (.atom (.char char))
  else if char = 46 then some (.atom .any)
  else if char = 43 then some .plus
  else if char = 94 then some .start
  else if char = 36 then some .stop
  else if char = 40 then some .opening
  else if char = 41 then some .closing
  else none

/-- Cut a pattern into tokens. A `-` and a `:` may be escaped. -/
def tokens : Str → Option (List Token)
  | [] => some []
  | 91 :: 48 :: 45 :: 57 :: 93 :: rest => (tokens rest).map (.atom .digit :: ·)
  | 92 :: 45 :: rest => (tokens rest).map (.atom (.char 45) :: ·)
  | 92 :: 58 :: rest => (tokens rest).map (.atom (.char 58) :: ·)
  | char :: rest => (token char).bind fun first => (tokens rest).map (first :: ·)

/-- Join the tokens to pieces, inside of some open groups. -/
def pieces : Nat → List Token → Option (List Piece)
  | 0, [] => some []
  | depth, .start :: rest => (pieces depth rest).map (.start :: ·)
  | depth, .stop :: rest => (pieces depth rest).map (.stop :: ·)
  | depth, .opening :: rest => pieces (depth + 1) rest
  | depth + 1, .closing :: rest => pieces depth rest
  | depth, .atom atom :: .plus :: rest => (pieces depth rest).map (.some atom :: ·)
  | depth, .atom atom :: rest => (pieces depth rest).map (.one atom :: ·)
  | _, _ => none

def read (text : Str) : Option (List Piece) := (tokens text).bind (pieces 0)

/-- What a letter, a digit or a dot stands for. -/
def literal (char : UInt8) : Atom := if char = 46 then .any else .char char

theorem tokens_cons {char : UInt8} (noClass : char ≠ 91) (noEscape : char ≠ 92) (rest : Str) :
    tokens (char :: rest) =
      (token char).bind fun first => (tokens rest).map (first :: ·) := by
  rw [tokens]
  · exact fun _ same _ => noClass same
  · exact fun _ same _ => noEscape same
  · exact fun _ same _ => noEscape same

/-- A text of letters, digits and dots is read one by one. -/
theorem tokens_append {word : Str} (literals : ∀ char ∈ word, isPlain char ∨ char = 46)
    (rest : Str) :
    tokens (word ++ rest) =
      (tokens rest).map (word.map (fun char => .atom (literal char)) ++ ·) := by
  induction word with
  | nil => exact (Option.map_id' ..).symm
  | cons char word ih =>
      rw [List.forall_mem_cons] at literals
      have read : token char = some (.atom (literal char)) := by
        rw [token, literal]
        rcases literals.1 with plain | rfl
        · have notDot : char ≠ 46 := by
            rintro rfl
            exact absurd plain (by decide)
          rw [if_pos plain, if_neg notDot]
        · rfl
      have noClass : char ≠ 91 := by
        rintro rfl
        exact absurd literals.1 (by decide)
      have noEscape : char ≠ 92 := by
        rintro rfl
        exact absurd literals.1 (by decide)
      rw [List.cons_append, tokens_cons noClass noEscape, read, ih literals.2, Option.bind_some,
        Option.map_map]
      rfl

/-- Atoms that are not repeated stand for themselves. -/
theorem pieces_append (depth : Nat) (atoms : List Atom) {rest : List Token}
    (unrepeated : rest.head? ≠ some .plus) :
    pieces depth (atoms.map .atom ++ rest) = (pieces depth rest).map (atoms.map .one ++ ·) := by
  induction atoms with
  | nil => exact (Option.map_id' ..).symm
  | cons atom atoms ih =>
      have next : (atoms.map Token.atom ++ rest).head? ≠ some .plus := by
        cases atoms with
        | nil => exact unrepeated
        | cons second atoms => simp
      rw [List.map_cons, List.cons_append, pieces, ih, Option.map_map]
      · rfl
      · intro later same
        rw [same] at next
        exact next rfl

/-! ### Matching -/

/-- The pattern matches as many characters at the beginning of the text. The flag tells whether
nothing stands before the text. -/
def Matches : List Piece → Bool → Str → Nat → Prop
  | [], _, _, length => length = 0
  | .start :: rest, atStart, text, length => atStart = true ∧ Matches rest atStart text length
  | .stop :: rest, atStart, text, length => text = [] ∧ Matches rest atStart text length
  | .one atom :: rest, _, text, length =>
      ∃ char behind more, text = char :: behind ∧ atom.accepts char ∧ length = 1 + more ∧
        Matches rest false behind more
  | .some atom :: rest, _, text, length =>
      ∃ chars behind more, chars ≠ [] ∧ text = chars ++ behind ∧
        (∀ char ∈ chars, atom.accepts char) ∧ length = chars.length + more ∧
        Matches rest false behind more

/-- Single characters match one after the other. -/
theorem matches_append_iff (atoms : List Atom) (rest : List Piece) (atStart : Bool) (text : Str)
    (length : Nat) :
    Matches (atoms.map .one ++ rest) atStart text length ↔
      ∃ chars behind more, List.Forall₂ (fun atom char => Atom.accepts atom char) atoms chars ∧
        text = chars ++ behind ∧ length = chars.length + more ∧
        Matches rest (atoms.isEmpty && atStart) behind more := by
  induction atoms generalizing atStart text length with
  | nil => simp
  | cons atom atoms ih =>
      rw [List.map_cons, List.cons_append, Matches]
      simp only [ih, List.forall₂_cons_left_iff, Bool.and_false, List.isEmpty_cons, Bool.false_and]
      refine ⟨fun matched => ?_, fun matched => ?_⟩
      · obtain ⟨char, _, _, rfl, first, rfl, chars, behind, more, others, rfl, rfl, later⟩ :=
          matched
        refine ⟨char :: chars, behind, more, ⟨char, chars, first, others, rfl⟩, rfl, ?_, later⟩
        rw [List.length_cons]
        omega
      · obtain ⟨_, behind, more, ⟨char, chars, first, others, rfl⟩, rfl, rfl, later⟩ := matched
        refine ⟨char, _, _, rfl, first, ?_, chars, behind, more, others, rfl, rfl, later⟩
        rw [List.length_cons]
        omega

/-- The first pieces of a pattern that matches match. -/
theorem Matches.of_append {first second : List Piece} {atStart : Bool} {text : Str} {length : Nat}
    (matched : Matches (first ++ second) atStart text length) :
    ∃ shorter, Matches first atStart text shorter := by
  induction first generalizing atStart text length with
  | nil => exact ⟨0, rfl⟩
  | cons piece first ih =>
      rw [List.cons_append] at matched
      cases piece with
      | start => exact (ih matched.2).imp fun _ later => ⟨matched.1, later⟩
      | stop => exact (ih matched.2).imp fun _ later => ⟨matched.1, later⟩
      | one atom =>
          obtain ⟨char, behind, _, shape, accepted, _, matched⟩ := matched
          obtain ⟨shorter, later⟩ := ih matched
          exact ⟨_, char, behind, shorter, shape, accepted, rfl, later⟩
      | some atom =>
          obtain ⟨chars, behind, _, nonempty, shape, accepted, _, matched⟩ := matched
          obtain ⟨shorter, later⟩ := ih matched
          exact ⟨_, chars, behind, shorter, nonempty, shape, accepted, rfl, later⟩

section Run

variable {atom : Atom} {run : Str} (nonempty : run ≠ [])
  (accepted : ∀ char ∈ run, atom.accepts char)

include nonempty accepted

/-- A repetition in front of a character that it does not accept goes on to this character. -/
theorem matches_run_iff {char : UInt8} (refused : atom.accepts char = false) (rest : List Piece)
    (atStart : Bool) (behind : Str) (length : Nat) :
    Matches (.some atom :: .one (.char char) :: rest) atStart (run ++ char :: behind) length ↔
      ∃ more, length = run.length + 1 + more ∧ Matches rest false behind more := by
  have isRun {chars later : Str} (all : ∀ char ∈ chars, atom.accepts char)
      (same : run ++ char :: behind = chars ++ char :: later) : chars = run ∧ later = behind := by
    rcases List.append_eq_append_iff.mp same with ⟨middle, rfl, tail⟩ | ⟨middle, rfl, tail⟩
    · cases middle with
      | nil => exact ⟨List.append_nil run, ((List.cons.inj tail).2).symm⟩
      | cons first middle =>
          have inside := all first (List.mem_append_right _ List.mem_cons_self)
          rw [← (List.cons.inj tail).1, refused] at inside
          cases inside
    · cases middle with
      | nil => exact ⟨(List.append_nil chars).symm, (List.cons.inj tail).2⟩
      | cons first middle =>
          have inside := accepted first (List.mem_append_right _ List.mem_cons_self)
          rw [← (List.cons.inj tail).1, refused] at inside
          cases inside
  refine ⟨fun matched => ?_, fun matched => ?_⟩
  · obtain ⟨chars, _, _, _, shape, all, rfl, found, later, more, rfl, same, rfl, matched⟩ := matched
    obtain rfl : found = char := of_decide_eq_true same
    obtain ⟨rfl, rfl⟩ := isRun all shape
    exact ⟨more, by omega, matched⟩
  · obtain ⟨more, rfl, matched⟩ := matched
    exact ⟨run, _, _, nonempty, rfl, accepted, by omega, char, behind, more, rfl,
      decide_eq_true rfl, rfl, matched⟩

/-- The longest match of a last repetition ends with the run. -/
theorem matches_last_run (atStart : Bool) {behind : Str}
    (refused : ∀ char ∈ behind.head?, atom.accepts char = false) :
    Matches [.some atom] atStart (run ++ behind) run.length ∧
      ∀ longer, Matches [.some atom] atStart (run ++ behind) longer → longer ≤ run.length := by
  refine ⟨⟨run, behind, 0, nonempty, rfl, accepted, rfl, rfl⟩, fun longer matched => ?_⟩
  obtain ⟨chars, _, _, _, shape, all, rfl, rfl⟩ := matched
  rcases List.append_eq_append_iff.mp shape with ⟨middle, rfl, tail⟩ | ⟨middle, rfl, _⟩
  · cases middle with
    | nil => simp
    | cons first middle =>
        have outside := refused first (by rw [tail]; rfl)
        rw [all first (List.mem_append_right _ List.mem_cons_self)] at outside
        cases outside
  · simp

end Run

/-- The lengths of the matches at the beginning of the text. -/
def lengths : List Piece → Bool → Str → List Nat
  | [], _, _ => [0]
  | .start :: rest, atStart, text => if atStart then lengths rest atStart text else []
  | .stop :: rest, atStart, text => if text = [] then lengths rest atStart text else []
  | .one atom :: rest, _, text =>
      if text.head?.any atom.accepts then (lengths rest false text.tail).map (1 + ·) else []
  | .some atom :: rest, _, text =>
      (List.range (text.takeWhile atom.accepts).length).flatMap fun others =>
        (lengths rest false (text.drop (others + 1))).map (others + 1 + ·)

theorem mem_lengths_iff (pattern : List Piece) (atStart : Bool) (text : Str) (length : Nat) :
    length ∈ lengths pattern atStart text ↔ Matches pattern atStart text length := by
  induction pattern generalizing atStart text length with
  | nil => exact List.mem_singleton
  | cons piece rest ih =>
      cases piece with
      | start => cases atStart <;> simp [lengths, Matches, ih]
      | stop =>
          rw [lengths, Matches]
          split
          · rw [ih, and_iff_right ‹text = []›]
          · exact iff_of_false List.not_mem_nil fun both => ‹¬text = []› both.1
      | one atom =>
          rw [lengths, Matches]
          cases text with
          | nil =>
              refine iff_of_false List.not_mem_nil fun matched => ?_
              obtain ⟨char, behind, more, empty, _⟩ := matched
              exact absurd empty.symm (List.cons_ne_nil char behind)
          | cons char behind =>
              rw [List.head?_cons, Option.any_some, List.tail_cons]
              by_cases accepted : atom.accepts char
              · rw [if_pos accepted, List.mem_map]
                refine ⟨fun matched => ?_, fun matched => ?_⟩
                · obtain ⟨more, later, rfl⟩ := matched
                  exact ⟨char, behind, more, rfl, accepted, rfl, (ih ..).mp later⟩
                · obtain ⟨_, _, more, same, _, rfl, later⟩ := matched
                  obtain ⟨rfl, rfl⟩ := List.cons.inj same
                  exact ⟨more, (ih ..).mpr later, rfl⟩
              · rw [if_neg accepted]
                refine iff_of_false List.not_mem_nil fun matched => ?_
                obtain ⟨_, _, more, same, first, _⟩ := matched
                obtain ⟨rfl, rfl⟩ := List.cons.inj same
                exact accepted first
      | some atom =>
          rw [lengths, Matches]
          simp only [List.mem_flatMap, List.mem_range, List.mem_map, ih]
          refine ⟨fun repeated => ?_, fun repeated => ?_⟩
          · obtain ⟨others, within, more, later, rfl⟩ := repeated
            have parts := List.takeWhile_append_dropWhile (p := atom.accepts) (l := text)
            have chars : text.take (others + 1) =
                (text.takeWhile atom.accepts).take (others + 1) := by
              conv_lhs => rw [← parts, List.take_append_of_le_length within]
            have length : (text.take (others + 1)).length = others + 1 := by
              rw [chars, List.length_take, Nat.min_eq_left within]
            refine ⟨text.take (others + 1), text.drop (others + 1), more,
              List.ne_nil_of_length_eq_add_one length, (List.take_append_drop _ text).symm,
              fun char member => ?_, by rw [length], later⟩
            rw [chars] at member
            exact List.mem_takeWhile_imp (List.mem_of_mem_take member)
          · obtain ⟨chars, behind, more, nonempty, rfl, accepted, rfl, later⟩ := repeated
            have positive := List.length_pos_iff.mpr nonempty
            refine ⟨chars.length - 1, ?_, more, ?_, by omega⟩
            · rw [List.takeWhile_append_of_pos accepted, List.length_append]
              omega
            · rwa [Nat.sub_add_cancel positive, List.drop_left]

/-! ### Searching -/

/-- The pattern matches at a position of the text. -/
def MatchesAt (pattern : List Piece) (text : Str) (first length : Nat) : Prop :=
  first ≤ text.length ∧ Matches pattern (first = 0) (text.drop first) length

/-- The pattern matches somewhere in the text. -/
def Occurs (pattern : List Piece) (text : Str) : Prop :=
  ∃ first length, MatchesAt pattern text first length

/-- What a search for the leftmost match finds, the longest one that begins there. -/
def IsFirstMatch (pattern : List Piece) (text : Str) : Option (Nat × Nat) → Prop
  | none => ¬Occurs pattern text
  | some (first, last) =>
      (∃ length, last = first + length ∧ MatchesAt pattern text first length ∧
        ∀ longer, MatchesAt pattern text first longer → longer ≤ length) ∧
      ∀ earlier < first, ∀ length, ¬MatchesAt pattern text earlier length

/-- A search tries the positions one after the other. -/
def firstMatch (pattern : List Piece) (text : Str) : Option (Nat × Nat) := do
  let first ← (List.range (text.length + 1)).find? fun first =>
    lengths pattern (first = 0) (text.drop first) ≠ []
  let length ← (lengths pattern (first = 0) (text.drop first)).max?
  some (first, first + length)

theorem isFirstMatch_firstMatch (pattern : List Piece) (text : Str) :
    IsFirstMatch pattern text (firstMatch pattern text) := by
  have found (first : Nat) : lengths pattern (first = 0) (text.drop first) ≠ [] ↔
      ∃ length, Matches pattern (first = 0) (text.drop first) length := by
    simp only [← List.length_pos_iff, List.length_pos_iff_exists_mem, mem_lengths_iff]
  rw [firstMatch]
  cases searched : (List.range (text.length + 1)).find? fun first =>
      lengths pattern (first = 0) (text.drop first) ≠ [] with
  | none =>
      intro occurs
      obtain ⟨first, length, within, matched⟩ := occurs
      have empty := List.find?_range_eq_none.mp searched first (Nat.lt_succ_of_le within)
      rw [Bool.not_eq_true', decide_eq_false_iff_not] at empty
      exact empty ((found first).mpr ⟨length, matched⟩)
  | some first =>
      obtain ⟨nonempty, within, earlier⟩ := List.find?_range_eq_some.mp searched
      rw [List.mem_range, Nat.lt_succ_iff] at within
      cases longest : (lengths pattern (first = 0) (text.drop first)).max? with
      | none => exact absurd (List.max?_eq_none_iff.mp longest) (of_decide_eq_true nonempty)
      | some length =>
          obtain ⟨member, above⟩ := List.max?_eq_some_iff.mp longest
          rw [mem_lengths_iff] at member
          rw [Option.bind_eq_bind, Option.bind_some, longest]
          refine ⟨⟨length, rfl, ⟨within, member⟩, fun longer matched => ?_⟩, ?_⟩
          · exact above longer ((mem_lengths_iff ..).mpr matched.2)
          · intro other before length matched
            have empty := earlier other before
            rw [Bool.not_eq_true', decide_eq_false_iff_not] at empty
            exact empty ((found other).mpr ⟨length, matched.2⟩)

/-- A first match from what it matches in the rest of the text. -/
theorem isFirstMatch_of_drop {pattern : List Piece} {text rest : Str} {first length : Nat}
    (within : first ≤ text.length) (shape : text.drop first = rest)
    (matched : Matches pattern (first = 0) rest length)
    (longest : ∀ longer, Matches pattern (first = 0) rest longer → longer ≤ length)
    (earliest : ∀ earlier < first, ∀ length, ¬MatchesAt pattern text earlier length) :
    IsFirstMatch pattern text (some (first, first + length)) := by
  subst shape
  exact ⟨⟨length, rfl, ⟨within, matched⟩, fun longer found => longest longer found.2⟩, earliest⟩

/-- The first match is determined. -/
theorem IsFirstMatch.unique {pattern : List Piece} {text : Str} {one other : Option (Nat × Nat)}
    (isOne : IsFirstMatch pattern text one) (isOther : IsFirstMatch pattern text other) :
    one = other := by
  cases one with
  | none =>
      cases other with
      | none => rfl
      | some found =>
          obtain ⟨length, _, matched, _⟩ := isOther.1
          exact absurd ⟨found.1, length, matched⟩ isOne
  | some found =>
      cases other with
      | none =>
          obtain ⟨length, _, matched, _⟩ := isOne.1
          exact absurd ⟨found.1, length, matched⟩ isOther
      | some found' =>
          obtain ⟨first, last⟩ := found
          obtain ⟨second, last'⟩ := found'
          obtain ⟨⟨length, rfl, matched, longest⟩, earliest⟩ := isOne
          obtain ⟨⟨length', rfl, matched', longest'⟩, earliest'⟩ := isOther
          have same : first = second := by
            by_contra different
            rcases Nat.lt_or_gt_of_ne different with before | behind
            · exact earliest' first before length matched
            · exact earliest second behind length' matched'
          subst same
          rw [Nat.le_antisymm (longest' length matched) (longest length' matched')]

end Pattern
