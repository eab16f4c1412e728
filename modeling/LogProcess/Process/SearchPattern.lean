import LogProcess.Process.CheckAction
import LogProcess.Foundation.Pattern

/-! # Prefixes and suffixes

The patterns that `seword_check` of `process/process_check_action.cc` makes of a search word. A dot
of the word matches every character, so that a query that also contains the word is accepted when
it begins or ends with a text that only looks like it (`prefixSuffix_iff`).
-/

namespace LogProcess

open Pattern (Atom Piece Occurs Matches MatchesAt firstMatch isFirstMatch_firstMatch)

/-- ECMAScript rules, for the patterns that `Pattern.read` understands and for texts without line
terminators, which `.` matches character by character. -/
structure Regex.EcmaScript (regex : Regex) : Prop where
  compiles : ∀ regstr pattern, Pattern.read regstr = some pattern → regex.compiles regstr = true
  search : ∀ regstr pattern query, Pattern.read regstr = some pattern → 10 ∉ query → 13 ∉ query →
    ∃ found, regex.search regstr query = some found ∧ (found = true ↔ Occurs pattern query)

/-- A search for the first match. -/
def Regex.ofPattern : Regex where
  compiles := fun regstr => (Pattern.read regstr).isSome
  search := fun regstr query =>
    (Pattern.read regstr).map fun pattern => (firstMatch pattern query).isSome

theorem Regex.ofPattern_ecmaScript : Regex.ofPattern.EcmaScript where
  compiles := by
    intro regstr pattern read
    exact congrArg Option.isSome read
  search := by
    intro regstr pattern query read _ _
    refine ⟨(firstMatch pattern query).isSome, congrArg (Option.map _) read, ?_⟩
    have first := isFirstMatch_firstMatch pattern query
    cases found : firstMatch pattern query with
    | none =>
        rw [found] at first
        exact iff_of_false Bool.false_ne_true first
    | some span =>
        rw [found] at first
        obtain ⟨length, _, matched, _⟩ := first.1
        exact iff_of_true rfl ⟨span.1, length, matched⟩

/-! ### The two patterns -/

/-- Letters, digits and dots. -/
def isWordChar (char : UInt8) : Bool :=
  48 ≤ char ∧ char ≤ 57 ∨ 65 ≤ char ∧ char ≤ 90 ∨ 97 ≤ char ∧ char ≤ 122 ∨ char = 46

/-- The text is the word, but may have anything at its dots. -/
def Looks (word text : Str) : Prop :=
  List.Forall₂ (fun char found => char = 46 ∨ found = char) word text

theorem isPlain_or_dot {char : UInt8} (wordChar : isWordChar char) :
    Pattern.isPlain char ∨ char = 46 := by
  simp only [isWordChar, Pattern.isPlain, decide_eq_true_eq] at wordChar ⊢
  rcases wordChar with digit | upper | lower | dot
  · exact .inl (.inl digit)
  · exact .inl (.inr (.inl upper))
  · exact .inl (.inr (.inr (.inl lower)))
  · exact .inr dot

/-- The atoms that a word is read as. -/
def wordAtoms (word : Str) : List Atom := word.map Pattern.literal

theorem forall₂_wordAtoms_iff (word text : Str) :
    List.Forall₂ (fun atom char => Atom.accepts atom char) (wordAtoms word) text ↔
      Looks word text := by
  rw [wordAtoms, List.forall₂_map_left_iff]
  refine iff_of_eq (congrArg (fun relation => List.Forall₂ relation word text) ?_)
  funext char found
  rw [Pattern.literal]
  by_cases dot : char = 46
  · simp [dot, Atom.accepts]
  · simp [dot, Atom.accepts]

section Word

variable {word : Str} (wordChars : ∀ char ∈ word, isWordChar char)

include wordChars

theorem zero_notMem_word : (0 : UInt8) ∉ word := fun member =>
  absurd (wordChars 0 member) (by decide)

theorem tokens_word_append {after : Str} {later : List Pattern.Token}
    (tail : Pattern.tokens after = some later) :
    Pattern.tokens (word ++ after) = some ((wordAtoms word).map .atom ++ later) := by
  have literals := fun char member => isPlain_or_dot (wordChars char member)
  rw [Pattern.tokens_append literals, tail, wordAtoms, List.map_map]
  rfl

theorem read_frontRegstr :
    Pattern.read (frontRegstr word) =
      some (.start :: ((wordAtoms word).map .one ++ [.some .any])) := by
  have tail : Pattern.tokens (bytes ".+") = some [.atom .any, .plus] := by decide
  have read : Pattern.tokens (frontRegstr word) =
      some (.start :: ((wordAtoms word).map .atom ++ [.atom .any, .plus])) := by
    rw [frontRegstr, show bytes "^" = [94] from rfl, List.append_assoc, List.singleton_append,
      Pattern.tokens_cons (by decide) (by decide), tokens_word_append wordChars tail]
    rfl
  rw [Pattern.read, read, Option.bind_some, Pattern.pieces,
    Pattern.pieces_append 0 (wordAtoms word) (by decide)]
  rfl

theorem read_behindRegstr :
    Pattern.read (behindRegstr word) =
      some (.some .any :: ((wordAtoms word).map .one ++ [.stop])) := by
  have tail : Pattern.tokens (bytes "$") = some [.stop] := by decide
  have read : Pattern.tokens (behindRegstr word) =
      some (.atom .any :: .plus :: ((wordAtoms word).map .atom ++ [.stop])) := by
    rw [behindRegstr, show bytes ".+" = [46, 43] from rfl, List.append_assoc, List.cons_append,
      List.singleton_append, Pattern.tokens_cons (by decide) (by decide),
      Pattern.tokens_cons (by decide) (by decide), tokens_word_append wordChars tail]
    rfl
  rw [Pattern.read, read, Option.bind_some, Pattern.pieces,
    Pattern.pieces_append 0 (wordAtoms word) (by decide)]
  rfl

end Word

/-- The first characters look like the word, and there are more. -/
theorem occurs_front_iff (word query : Str) :
    Occurs (.start :: ((wordAtoms word).map .one ++ [.some .any])) query ↔
      Looks word (query.take word.length) ∧ word.length < query.length := by
  simp only [Occurs, MatchesAt, Matches, Pattern.matches_append_iff, decide_eq_true_eq,
    forall₂_wordAtoms_iff]
  refine ⟨fun occurs => ?_, fun parts => ?_⟩
  · obtain ⟨_, _, _, rfl, front, _, _, looks, shape, _, chars, rest, _, nonempty, rfl, _⟩ := occurs
    rw [List.drop_zero] at shape
    rw [shape, List.take_left' looks.length_eq.symm]
    have more := List.length_pos_iff.mpr nonempty
    refine ⟨looks, ?_⟩
    rw [List.length_append, List.length_append, ← looks.length_eq]
    omega
  · obtain ⟨looks, longer⟩ := parts
    refine ⟨0, _, Nat.zero_le _, rfl, query.take word.length, query.drop word.length, _, looks,
      (List.take_append_drop _ _).symm, rfl, query.drop word.length, [], _, ?_,
      (List.append_nil _).symm, fun _ _ => rfl, rfl, rfl⟩
    exact List.ne_nil_of_length_pos (by rw [List.length_drop]; omega)

/-- The last characters look like the word, and there are more. -/
theorem occurs_behind_iff (word query : Str) :
    Occurs (.some .any :: ((wordAtoms word).map .one ++ [.stop])) query ↔
      Looks word (query.drop (query.length - word.length)) ∧ word.length < query.length := by
  simp only [Occurs, MatchesAt, Matches, Pattern.matches_append_iff, forall₂_wordAtoms_iff]
  refine ⟨fun occurs => ?_, fun parts => ?_⟩
  · obtain ⟨first, _, _, chars, _, _, nonempty, shape, _, _, behind, _, _, looks, rfl, _, rfl, _⟩ :=
      occurs
    have parts : query = query.take first ++ chars ++ behind := by
      rw [List.append_assoc, ← List.append_nil behind, ← shape, List.take_append_drop]
    have more := List.length_pos_iff.mpr nonempty
    have length := congrArg List.length parts
    rw [List.length_append, List.length_append, ← looks.length_eq] at length
    refine ⟨?_, by omega⟩
    rw [parts, List.drop_left']
    · exact looks
    · rw [← parts, List.length_append]
      omega
  · obtain ⟨looks, longer⟩ := parts
    refine ⟨0, _, Nat.zero_le _, query.take (query.length - word.length),
      query.drop (query.length - word.length), _, ?_, (List.take_append_drop _ _).symm,
      fun _ _ => rfl, rfl, _, [], _, looks, (List.append_nil _).symm, rfl, rfl, rfl⟩
    exact List.ne_nil_of_length_pos (by rw [List.length_take]; omega)

/-! ### The check -/

/-- What the two conditions are meant to test. -/
def PrefixSuffix (regex : Regex) (query word : Str) : Prop :=
  sewordCheck regex query ⟨word, .condIsFront⟩ =
      .ok (decide (word <+: query ∧ word.length < query.length)) ∧
    sewordCheck regex query ⟨word, .condIsBehind⟩ =
      .ok (decide (word <:+ query ∧ word.length < query.length))

/-- The query contains the word, and a part of it looks like the word but is another one. -/
def Misled (word query part : Str) : Prop := word <:+: query ∧ Looks word part ∧ part ≠ word

theorem looks_self (word : Str) : Looks word word :=
  List.forall₂_same.mpr fun _ _ => .inr rfl

/-- The two tests agree on a part exactly when it is not mistaken for the word. -/
theorem agrees_iff {word query part : Str} (inside : part = word → word <:+: query)
    (whole : word.length = query.length → word <:+: query → part = word) :
    (word <:+: query ∧ Looks word part ∧ word.length < query.length ↔
      part = word ∧ word.length < query.length) ↔ ¬Misled word query part := by
  refine ⟨fun agrees misled => ?_, fun unmisled => ⟨fun accepted => ?_, fun meant => ?_⟩⟩
  · obtain ⟨found, looks, different⟩ := misled
    rcases Nat.eq_or_lt_of_le found.length_le with same | longer
    · exact different (whole same found)
    · exact different (agrees.mp ⟨found, looks, longer⟩).1
  · obtain ⟨found, looks, longer⟩ := accepted
    exact ⟨by_contra fun different => unmisled ⟨found, looks, different⟩, longer⟩
  · obtain ⟨same, longer⟩ := meant
    exact ⟨inside same, same ▸ looks_self word, longer⟩

section Check

variable {regex : Regex} (ecma : regex.EcmaScript) {query word : Str}
  (noNewline : 10 ∉ query) (noReturn : 13 ∉ query)

include ecma noNewline noReturn

theorem exists_regexCheck {regstr : Str} {pattern : List Piece} (free : 0 ∉ regstr)
    (read : Pattern.read regstr = some pattern) :
    ∃ found, regexCheck regex query regstr = .ok found ∧
      (found = true ↔ Occurs pattern query) := by
  obtain ⟨found, searched, occurs⟩ := ecma.search regstr pattern query read noNewline noReturn
  refine ⟨found, ?_, occurs⟩
  rw [regexCheck, Str.cstr_eq_self free, if_pos (ecma.compiles regstr pattern read), searched]
  rfl

/-- A condition that asks for the word and for a match of a pattern. -/
theorem sewordCheck_eq_iff {cond : CondType} {regstr : Str} {pattern : List Piece}
    (shape : sewordCheck regex query ⟨word, cond⟩ =
      if (Str.find query word 0).isSome then regexCheck regex query regstr else .ok false)
    (free : 0 ∉ regstr) (read : Pattern.read regstr = some pattern) (holds : Bool) :
    sewordCheck regex query ⟨word, cond⟩ = .ok holds ↔
      (holds = true ↔ word <:+: query ∧ Occurs pattern query) := by
  obtain ⟨found, checked, occurs⟩ := exists_regexCheck ecma noNewline noReturn free read
  rw [shape, ← Str.isSome_find_iff, ← occurs, checked]
  cases (Str.find query word 0).isSome <;> cases found <;> cases holds <;> decide

variable (wordChars : ∀ char ∈ word, isWordChar char)

include wordChars

theorem sewordCheck_front_eq_iff (holds : Bool) :
    sewordCheck regex query ⟨word, .condIsFront⟩ = .ok holds ↔
      (holds = true ↔ word <:+: query ∧ Looks word (query.take word.length) ∧
        word.length < query.length) := by
  have free : 0 ∉ frontRegstr word := by
    simp only [frontRegstr, List.mem_append, not_or]
    exact ⟨⟨by decide, zero_notMem_word wordChars⟩, by decide⟩
  rw [← occurs_front_iff]
  exact sewordCheck_eq_iff ecma noNewline noReturn (by simp [sewordCheck, pure, Except.pure])
    free (read_frontRegstr wordChars) holds

theorem sewordCheck_behind_eq_iff (holds : Bool) :
    sewordCheck regex query ⟨word, .condIsBehind⟩ = .ok holds ↔
      (holds = true ↔ word <:+: query ∧
        Looks word (query.drop (query.length - word.length)) ∧ word.length < query.length) := by
  have free : 0 ∉ behindRegstr word := by
    simp only [behindRegstr, List.mem_append, not_or]
    exact ⟨⟨by decide, zero_notMem_word wordChars⟩, by decide⟩
  rw [← occurs_behind_iff]
  exact sewordCheck_eq_iff ecma noNewline noReturn (by simp [sewordCheck, pure, Except.pure])
    free (read_behindRegstr wordChars) holds

/-- **Search words.** The conditions test for a longer query with this beginning or end, exactly
when neither its beginning nor its end is mistaken for the word. -/
theorem prefixSuffix_iff :
    PrefixSuffix regex query word ↔
      ¬Misled word query (query.take word.length) ∧
        ¬Misled word query (query.drop (query.length - word.length)) := by
  rw [PrefixSuffix, sewordCheck_front_eq_iff ecma noNewline noReturn wordChars,
    sewordCheck_behind_eq_iff ecma noNewline noReturn wordChars, decide_eq_true_eq,
    decide_eq_true_eq, List.prefix_iff_eq_take, List.suffix_iff_eq_drop, eq_comm (a := word),
    eq_comm (a := word)]
  refine and_congr ?_ ?_
  · refine iff_comm.trans (agrees_iff (fun same => ?_) fun whole found => ?_)
    · exact same ▸ (List.take_prefix _ query).isInfix
    · rw [whole, List.take_length]
      exact (found.eq_of_length whole).symm
  · refine iff_comm.trans (agrees_iff (fun same => ?_) fun whole found => ?_)
    · exact same ▸ (List.drop_suffix _ query).isInfix
    · rw [whole, Nat.sub_self, List.drop_zero]
      exact (found.eq_of_length whole).symm

end Check

/-- The word `a.c` at the beginning of a query that ends with `abd`. -/
theorem prefixSuffix_iff_ofPattern :
    PrefixSuffix Regex.ofPattern (bytes "a.cxabd") (bytes "a.c") ↔
      ¬Misled (bytes "a.c") (bytes "a.cxabd") ((bytes "a.cxabd").take (bytes "a.c").length) ∧
        ¬Misled (bytes "a.c") (bytes "a.cxabd")
          ((bytes "a.cxabd").drop ((bytes "a.cxabd").length - (bytes "a.c").length)) :=
  prefixSuffix_iff Regex.ofPattern_ecmaScript (by decide) (by decide) (by decide +kernel)

/-- The query begins with `abc`, which looks like `a.c`. -/
theorem not_prefixSuffix_of_dot :
    ¬PrefixSuffix Regex.ofPattern (bytes "abcxa.c") (bytes "a.c") := by
  have looks : Looks (bytes "a.c") ((bytes "abcxa.c").take (bytes "a.c").length) :=
    .cons (.inr rfl) (.cons (.inl rfl) (.cons (.inr rfl) .nil))
  intro tests
  have front := (sewordCheck_front_eq_iff Regex.ofPattern_ecmaScript (by decide) (by decide)
    (by decide +kernel) _).mp tests.1
  have accepted := front.mpr ⟨⟨bytes "abcx", [], by decide⟩, looks, by decide⟩
  exact absurd (of_decide_eq_true accepted).1 (by decide)

end LogProcess
