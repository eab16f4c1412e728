import LogProcess.Foundation.Bytes

/-! # Flat JSON objects

Objects whose members are strings, as byte strings: the text with and without
formatting, and a parser for the text without it. Parsing inverts printing
(`FlatJson.parse_compact`). In a text whose escapes are those of printing
(`FlatJson.Escaped`), a character other than the escaped ones comes from the text itself
(`FlatJson.parse_bar`), also after the text is cut at it (`FlatJson.Escaped.splitAt`).
-/

namespace FlatJson

/-! ### Printing -/

/-- The letter that stands for a character after a backslash. -/
def shortEscape (char : UInt8) : Option UInt8 :=
  if char = 34 then some 34
  else if char = 92 then some 92
  else if char = 8 then some 98
  else if char = 12 then some 102
  else if char = 10 then some 110
  else if char = 13 then some 114
  else if char = 9 then some 116
  else none

def hexDigit (value : UInt8) : UInt8 := if value < 10 then 48 + value else 87 + value

/-- A character inside a string. -/
def escapeChar (char : UInt8) : Str :=
  match shortEscape char with
  | some letter => [92, letter]
  | none =>
      if char < 32 then [92, 117, 48, 48, hexDigit (char / 16), hexDigit (char % 16)] else [char]

def escape (text : Str) : Str := text.flatMap escapeChar

/-- A string with its quotes. -/
def quote (text : Str) : Str := 34 :: (escape text ++ [34])

/-- The text of an object without formatting. -/
def compact (members : List (Str × Str)) : Str :=
  123 :: ([44].intercalate (members.map fun member => quote member.1 ++ 58 :: quote member.2) ++
    [125])

/-- The text of an object with a line for each member. -/
def formatted (members : List (Str × Str)) : Str :=
  if members = [] then
    [123, 10, 125]
  else
    [123, 10] ++ [44, 10].intercalate (members.map fun member =>
      9 :: (quote member.1 ++ [58, 9] ++ quote member.2)) ++ [10, 125]

/-! ### Parsing -/

/-- The character that a letter after a backslash stands for. -/
def unescape (letter : UInt8) : Option UInt8 :=
  if letter = 34 then some 34
  else if letter = 92 then some 92
  else if letter = 47 then some 47
  else if letter = 98 then some 8
  else if letter = 102 then some 12
  else if letter = 110 then some 10
  else if letter = 114 then some 13
  else if letter = 116 then some 9
  else none

def hexValue (char : UInt8) : Option UInt8 :=
  if 48 ≤ char ∧ char ≤ 57 then some (char - 48)
  else if 97 ≤ char ∧ char ≤ 102 then some (char - 87)
  else if 65 ≤ char ∧ char ≤ 70 then some (char - 55)
  else none

/-- The character of a hexadecimal escape, when it is one of ASCII. -/
def hexChar (first second tens ones : UInt8) : Option UInt8 :=
  match hexValue tens, hexValue ones with
  | some high, some low =>
      if first = 48 ∧ second = 48 ∧ high < 8 then some (high * 16 + low) else none
  | _, _ => none

/-- The content of a string after its first quote, and what follows its last quote. -/
def parseString : Str → Option (Str × Str)
  | [] => none
  | char :: rest =>
      if char = 34 then some ([], rest)
      else if char = 92 then
        match rest with
        | [] => none
        | letter :: rest =>
            if letter = 117 then
              match rest with
              | first :: second :: tens :: ones :: rest =>
                  match hexChar first second tens ones with
                  | some decoded =>
                      (parseString rest).map fun parsed => (decoded :: parsed.1, parsed.2)
                  | none => none
              | _ => none
            else
              match unescape letter with
              | some decoded =>
                  (parseString rest).map fun parsed => (decoded :: parsed.1, parsed.2)
              | none => none
      else if char < 32 then none
      else (parseString rest).map fun parsed => (char :: parsed.1, parsed.2)

/-- Skip one expected character. -/
def expect (expected : UInt8) : Str → Option Str
  | [] => none
  | char :: rest => if char = expected then some rest else none

/-- A member, and what follows it. -/
def parseMember (text : Str) : Option ((Str × Str) × Str) := do
  let text ← expect 34 text
  let (key, text) ← parseString text
  let text ← expect 58 text
  let text ← expect 34 text
  let (value, text) ← parseString text
  some ((key, value), text)

/-- The members of an object up to its end. -/
def parseMembers : Nat → Str → Option (List (Str × Str))
  | 0, _ => none
  | fuel + 1, text => do
      let (member, text) ← parseMember text
      if text = [125] then
        some [member]
      else
        let text ← expect 44 text
        let members ← parseMembers fuel text
        some (member :: members)

def parse (text : Str) : Option (List (Str × Str)) := do
  let text ← expect 123 text
  if text = [125] then some [] else parseMembers text.length text

/-! ### Characters -/

theorem unescape_shortEscape {char letter : UInt8} (escaped : shortEscape char = some letter) :
    unescape letter = some char ∧ letter ≠ 117 ∧ letter ≠ 124 ∧ 32 ≤ letter := by
  unfold shortEscape at escaped
  split_ifs at escaped <;> cases escaped <;> subst_vars <;> decide

theorem ne_of_shortEscape_eq_none {char : UInt8} (plain : shortEscape char = none) :
    char ≠ 34 ∧ char ≠ 92 := by
  constructor <;> rintro rfl <;> exact absurd plain (by decide)

theorem hexChar_hexDigit {char : UInt8} (control : char < 32) :
    hexChar 48 48 (hexDigit (char / 16)) (hexDigit (char % 16)) = some char ∧
      (hexDigit (char / 16) = 48 ∨ hexDigit (char / 16) = 49) ∧
      hexDigit (char % 16) ≠ 124 ∧ 32 ≤ hexDigit (char % 16) := by
  have checked : ∀ number : Fin 32, hexChar 48 48 (hexDigit (UInt8.ofNat number / 16))
        (hexDigit (UInt8.ofNat number % 16)) = some (UInt8.ofNat number) ∧
      (hexDigit (UInt8.ofNat number / 16) = 48 ∨ hexDigit (UInt8.ofNat number / 16) = 49) ∧
      hexDigit (UInt8.ofNat number % 16) ≠ 124 ∧ 32 ≤ hexDigit (UInt8.ofNat number % 16) := by
    decide +kernel
  have small := checked ⟨char.toNat, UInt8.lt_iff_toNat_lt.mp control⟩
  rwa [UInt8.ofNat_toNat] at small

/-! ### Escapes -/

/-- The characters that are printed as they are. -/
theorem escapeChar_eq_singleton_iff (char : UInt8) :
    escapeChar char = [char] ↔ char ≠ 34 ∧ char ≠ 92 ∧ 32 ≤ char := by
  revert char
  exact Str.forall_byte (by decide +kernel)

theorem bar_mem_escapeChar_iff (char : UInt8) : 124 ∈ escapeChar char ↔ char = 124 := by
  revert char
  exact Str.forall_byte (by decide +kernel)

theorem length_escapeChar (char : UInt8) : 1 ≤ (escapeChar char).length := by
  revert char
  exact Str.forall_byte (by decide +kernel)

theorem length_le_length_escape (text : Str) : text.length ≤ (escape text).length := by
  induction text with
  | nil => exact le_rfl
  | cons char rest ih =>
      have first := length_escapeChar char
      rw [escape, List.flatMap_cons, List.length_append, ← escape, List.length_cons]
      omega

/-- A text is its own escaped form exactly when no character is escaped. -/
theorem escape_eq_self_iff (text : Str) :
    escape text = text ↔ ∀ char ∈ text, char ≠ 34 ∧ char ≠ 92 ∧ 32 ≤ char := by
  induction text with
  | nil => simp only [escape, List.flatMap_nil, List.not_mem_nil, IsEmpty.forall_iff, implies_true]
  | cons char rest ih =>
      rw [List.forall_mem_cons, ← ih, ← escapeChar_eq_singleton_iff, escape, List.flatMap_cons,
        ← escape]
      refine ⟨?_, ?_⟩
      · intro equal
        have lengths := congrArg List.length equal
        have first := length_escapeChar char
        have later := length_le_length_escape rest
        rw [List.length_append, List.length_cons] at lengths
        have single : (escapeChar char).length = 1 := by omega
        obtain ⟨printed, shape⟩ := List.length_eq_one_iff.mp single
        rw [shape, List.singleton_append, List.cons.injEq] at equal
        rw [shape, equal.1]
        exact ⟨rfl, equal.2⟩
      · intro both
        obtain ⟨first, later⟩ := both
        rw [first, later, List.singleton_append]

theorem bar_mem_quote_iff (text : Str) : 124 ∈ quote text ↔ 124 ∈ text := by
  rw [quote, List.mem_cons, List.mem_append, List.mem_singleton, escape, List.mem_flatMap]
  simp only [bar_mem_escapeChar_iff, exists_eq_right, show (124 : UInt8) ≠ 34 by decide, false_or,
    or_false]

theorem mem_intercalate {char : UInt8} {separator : Str} (other : char ∉ separator)
    (pieces : List Str) : char ∈ separator.intercalate pieces ↔ ∃ piece ∈ pieces, char ∈ piece := by
  induction pieces with
  | nil => simp only [List.intercalate_nil, List.not_mem_nil, false_and, exists_false]
  | cons piece rest ih =>
      cases rest with
      | nil => simp only [List.intercalate_singleton, List.mem_singleton, exists_eq_left]
      | cons second rest =>
          rw [List.intercalate_cons_cons, List.mem_append, List.mem_append, ih,
            List.exists_mem_cons_iff _ piece]
          simp only [other, or_false]

/-- The character 124 in the text of an object is one of a member. -/
theorem bar_mem_compact_iff (members : List (Str × Str)) :
    124 ∈ compact members ↔ ∃ member ∈ members, 124 ∈ member.1 ∨ 124 ∈ member.2 := by
  have opening : (124 : UInt8) ≠ 123 := by decide
  have closing : (124 : UInt8) ∉ [125] := by decide
  have colon : (124 : UInt8) ≠ 58 := by decide
  have comma : (124 : UInt8) ∉ [44] := by decide
  rw [compact, List.mem_cons, List.mem_append, mem_intercalate comma]
  refine ⟨?_, ?_⟩
  · rintro (first | ⟨piece, listed, inside⟩ | last)
    · exact absurd first opening
    · obtain ⟨member, present, rfl⟩ := List.mem_map.mp listed
      rw [List.mem_append, List.mem_cons, bar_mem_quote_iff, bar_mem_quote_iff] at inside
      exact ⟨member, present, inside.imp_right fun either => either.resolve_left colon⟩
    · exact absurd last closing
  · intro expected
    obtain ⟨member, present, inside⟩ := expected
    refine Or.inr (Or.inl ⟨_, List.mem_map_of_mem present, ?_⟩)
    rw [List.mem_append, List.mem_cons, bar_mem_quote_iff, bar_mem_quote_iff]
    exact inside.imp_right Or.inr

/-! ### Formatting -/

theorem escapeChar_printable (char : UInt8) : ∀ printed ∈ escapeChar char, 32 ≤ printed := by
  unfold escapeChar
  cases short : shortEscape char with
  | some letter =>
      obtain ⟨_, _, _, printable⟩ := unescape_shortEscape short
      simp only [List.forall_mem_cons, List.not_mem_nil, IsEmpty.forall_iff, implies_true, and_true]
      exact ⟨by decide, printable⟩
  | none =>
      by_cases control : char < 32
      · obtain ⟨_, tens, _, ones⟩ := hexChar_hexDigit control
        simp only [control, ↓reduceIte, List.forall_mem_cons, List.not_mem_nil, IsEmpty.forall_iff,
          implies_true, and_true]
        refine ⟨by decide, by decide, by decide, by decide, ?_, ones⟩
        rcases tens with tens | tens <;> rw [tens] <;> decide
      · simp only [control, ↓reduceIte, List.forall_mem_singleton]
        exact not_lt.mp control

/-- The text of a string has no control characters. -/
theorem quote_printable (text : Str) : ∀ printed ∈ quote text, 32 ≤ printed := by
  intro printed member
  rw [quote, List.mem_cons, List.mem_append, List.mem_singleton, escape, List.mem_flatMap] at member
  rcases member with rfl | ⟨char, _, inside⟩ | rfl
  · decide
  · exact escapeChar_printable char printed inside
  · decide

/-- Formatting adds newlines and tabs only. -/
theorem filter_formatted (keep : UInt8 → Bool) (printable : ∀ char, 32 ≤ char → keep char = true)
    (newline : keep 10 = false) (tab : keep 9 = false) (members : List (Str × Str)) :
    (formatted members).filter keep = compact members := by
  have quoted (text : Str) : (quote text).filter keep = quote text :=
    List.filter_eq_self.mpr fun char member => printable char (quote_printable text char member)
  have lines : ([44, 10].intercalate (members.map fun member =>
        (9 : UInt8) :: (quote member.1 ++ [58, 9] ++ quote member.2))).filter keep =
      [44].intercalate (members.map fun member => quote member.1 ++ 58 :: quote member.2) := by
    induction members with
    | nil => rfl
    | cons member rest ih =>
        cases rest with
        | nil => simp [quoted, tab, printable 58 (by decide)]
        | cons second rest =>
            rw [List.map_cons, List.map_cons] at ih
            rw [List.map_cons, List.map_cons, List.map_cons, List.map_cons,
              List.intercalate_cons_cons, List.intercalate_cons_cons, List.filter_append, ih]
            simp [quoted, tab, newline, printable 44 (by decide), printable 58 (by decide)]
  rw [formatted, compact]
  split
  · rename_i empty
    simp [empty, newline, printable 123 (by decide), printable 125 (by decide)]
  · rw [List.filter_append, List.filter_append, lines]
    simp [newline, printable 123 (by decide), printable 125 (by decide)]

theorem zero_notMem_formatted (members : List (Str × Str)) : 0 ∉ formatted members := by
  intro member
  -- the filters with and without the null character keep the same text
  have kept := filter_formatted (fun char => char = 0 ∨ 32 ≤ char)
    (fun char printable => decide_eq_true (Or.inr printable)) (by decide) (by decide) members
  have dropped := filter_formatted (fun char => 32 ≤ char)
    (fun char printable => decide_eq_true printable) (by decide) (by decide) members
  have listed : 0 ∈ (formatted members).filter fun char => char = 0 ∨ 32 ≤ char :=
    List.mem_filter.mpr ⟨member, by decide⟩
  rw [kept, ← dropped] at listed
  exact absurd (List.mem_filter.mp listed).2 (by decide)

/-! ### Round trip -/

theorem parseString_quote (rest : Str) : parseString (34 :: rest) = some ([], rest) := by
  rw [parseString.eq_def]
  simp only [↓reduceIte]

theorem parseString_plain {char : UInt8} (notQuote : char ≠ 34) (notBackslash : char ≠ 92)
    (printable : ¬char < 32) (rest : Str) :
    parseString (char :: rest) =
      (parseString rest).map fun parsed => (char :: parsed.1, parsed.2) := by
  rw [parseString.eq_def]
  simp only [notQuote, notBackslash, printable, ↓reduceIte]

theorem parseString_short {letter : UInt8} (ordinary : letter ≠ 117) (rest : Str) :
    parseString (92 :: letter :: rest) = (unescape letter).bind fun decoded =>
      (parseString rest).map fun parsed => (decoded :: parsed.1, parsed.2) := by
  rw [parseString.eq_def]
  simp only [show (92 : UInt8) ≠ 34 by decide, ordinary, ↓reduceIte]
  cases unescape letter <;> rfl

theorem parseString_hex (first second tens ones : UInt8) (rest : Str) :
    parseString (92 :: 117 :: first :: second :: tens :: ones :: rest) =
      (hexChar first second tens ones).bind fun decoded =>
        (parseString rest).map fun parsed => (decoded :: parsed.1, parsed.2) := by
  rw [parseString.eq_def]
  simp only [show (92 : UInt8) ≠ 34 by decide, ↓reduceIte]
  cases hexChar first second tens ones <;> rfl

/-- Reading a printed character. -/
theorem parseString_escapeChar (char : UInt8) (rest : Str) :
    parseString (escapeChar char ++ rest) =
      (parseString rest).map fun parsed => (char :: parsed.1, parsed.2) := by
  unfold escapeChar
  cases short : shortEscape char with
  | some letter =>
      obtain ⟨decoded, ordinary, _⟩ := unescape_shortEscape short
      simp only [List.cons_append, List.nil_append, parseString_short ordinary, decoded,
        Option.bind_some]
  | none =>
      obtain ⟨notQuote, notBackslash⟩ := ne_of_shortEscape_eq_none short
      by_cases control : char < 32
      · obtain ⟨decoded, _⟩ := hexChar_hexDigit control
        simp only [control, ↓reduceIte, List.cons_append, List.nil_append, parseString_hex, decoded,
          Option.bind_some]
      · simp only [control, ↓reduceIte, List.cons_append, List.nil_append,
          parseString_plain notQuote notBackslash control]

/-- Reading a printed string up to its last quote. -/
theorem parseString_escape (text rest : Str) :
    parseString (escape text ++ 34 :: rest) = some (text, rest) := by
  induction text with
  | nil => rw [escape, List.flatMap_nil, List.nil_append, parseString_quote]
  | cons char text ih =>
      rw [escape, List.flatMap_cons, List.append_assoc, parseString_escapeChar, ← escape, ih,
        Option.map_some]

theorem parseMember_quote (key value rest : Str) :
    parseMember (quote key ++ 58 :: quote value ++ rest) = some ((key, value), rest) := by
  simp only [parseMember, quote, List.cons_append, List.append_assoc, expect, ↓reduceIte,
    Option.bind_eq_bind, Option.bind_some, List.nil_append, parseString_escape]

/-- Reading the printed members of an object. -/
theorem parseMembers_intercalate {members : List (Str × Str)} (present : members ≠ []) {fuel : Nat}
    (enough : members.length ≤ fuel) :
    parseMembers fuel ([44].intercalate (members.map fun member =>
      quote member.1 ++ 58 :: quote member.2) ++ [125]) = some members := by
  induction members generalizing fuel with
  | nil => exact absurd rfl present
  | cons member rest ih =>
      obtain ⟨fuel, rfl⟩ := Nat.exists_eq_add_of_le' (Nat.one_le_of_lt
        (Nat.lt_of_lt_of_le (Nat.succ_pos rest.length) enough))
      rw [List.length_cons, Nat.add_le_add_iff_right] at enough
      cases rest with
      | nil =>
          rw [List.map_singleton, List.intercalate_singleton, parseMembers, parseMember_quote]
          simp only [Option.bind_eq_bind, Option.bind_some, ↓reduceIte]
      | cons second rest =>
          have onward := ih (List.cons_ne_nil second rest) enough
          rw [List.map_cons] at onward
          rw [List.map_cons, List.map_cons, List.intercalate_cons_cons, List.append_assoc,
            List.append_assoc, parseMembers, parseMember_quote]
          have separated (text : Str) : [44] ++ text ≠ [125] := nofun
          simp only [Option.bind_eq_bind, Option.bind_some, separated, ↓reduceIte]
          simp only [List.cons_append, List.nil_append, expect, ↓reduceIte, Option.bind_some,
            onward]

/-- Joining pieces that are not empty. -/
theorem length_le_length_intercalate {pieces : List Str} (nonempty : ∀ piece ∈ pieces, piece ≠ [])
    (separator : Str) : pieces.length ≤ (separator.intercalate pieces).length := by
  induction pieces with
  | nil => exact Nat.zero_le _
  | cons piece rest ih =>
      have first := List.length_pos_iff.mpr (nonempty piece List.mem_cons_self)
      have later := ih fun other member => nonempty other (List.mem_cons_of_mem _ member)
      cases rest with
      | nil =>
          rw [List.intercalate_singleton, List.length_singleton]
          exact first
      | cons second rest =>
          rw [List.intercalate_cons_cons, List.length_append, List.length_append, List.length_cons]
          omega

/-- **Round trip.** Parsing the text of an object gives back its members. -/
theorem parse_compact (members : List (Str × Str)) : parse (compact members) = some members := by
  rw [compact, parse, expect, if_pos rfl]
  by_cases present : members = []
  · rw [present]
    rfl
  · have pieces : ∀ piece ∈ members.map fun member => quote member.1 ++ 58 :: quote member.2,
        piece ≠ [] := by
      intro piece member
      obtain ⟨_, _, rfl⟩ := List.mem_map.mp member
      exact List.cons_ne_nil _ _
    have short := length_le_length_intercalate pieces [44]
    rw [List.length_map] at short
    have opened : [44].intercalate (members.map fun member =>
        quote member.1 ++ 58 :: quote member.2) ++ [125] ≠ [125] := by
      intro equal
      have length := congrArg List.length equal
      have positive := List.length_pos_iff.mpr present
      rw [List.length_append] at length
      omega
    rw [Option.bind_eq_bind, Option.bind_some, if_neg opened]
    apply parseMembers_intercalate present
    rw [List.length_append]
    omega

/-! ### Texts with printed escapes -/

/-- A backslash in the text starts an escape of one letter or one of a control
character. -/
inductive Escaped : Str → Prop
  | nil : Escaped []
  | plain {char : UInt8} {rest : Str} (raw : char ≠ 92) (escaped : Escaped rest) :
      Escaped (char :: rest)
  | short {letter : UInt8} {rest : Str} (ordinary : letter ≠ 117) (other : letter ≠ 124)
      (escaped : Escaped rest) : Escaped (92 :: letter :: rest)
  | control {tens ones : UInt8} {rest : Str} (low : tens = 48 ∨ tens = 49) (other : ones ≠ 124)
      (escaped : Escaped rest) : Escaped (92 :: 117 :: 48 :: 48 :: tens :: ones :: rest)

namespace Escaped

theorem append {first second : Str} (left : Escaped first) (right : Escaped second) :
    Escaped (first ++ second) := by
  induction left with
  | nil => exact right
  | plain raw _ ih => exact plain raw ih
  | short ordinary other _ ih => exact short ordinary other ih
  | control low other _ ih => exact control low other ih

theorem of_notMem {text : Str} (free : 92 ∉ text) : Escaped text := by
  induction text with
  | nil => exact nil
  | cons char rest ih =>
      rw [List.mem_cons, not_or] at free
      exact plain (Ne.symm free.1) (ih free.2)

theorem escapeChar (char : UInt8) : Escaped (FlatJson.escapeChar char) := by
  unfold FlatJson.escapeChar
  cases printed : shortEscape char with
  | some letter =>
      obtain ⟨_, ordinary, other, _⟩ := unescape_shortEscape printed
      exact short ordinary other nil
  | none =>
      by_cases low : char < 32
      · obtain ⟨_, tens, ones, _⟩ := hexChar_hexDigit low
        rw [if_pos low]
        exact control tens ones nil
      · rw [if_neg low]
        exact plain (ne_of_shortEscape_eq_none printed).2 nil

theorem quote (text : Str) : Escaped (FlatJson.quote text) := by
  have content : Escaped (escape text) := by
    induction text with
    | nil => exact nil
    | cons char rest ih => exact (escapeChar char).append ih
  exact plain (by decide) (content.append (of_notMem (by decide)))

theorem intercalate {separator : Str} (cut : Escaped separator) {pieces : List Str}
    (each : ∀ piece ∈ pieces, Escaped piece) : Escaped (separator.intercalate pieces) := by
  induction pieces with
  | nil => exact nil
  | cons piece rest ih =>
      have first := each piece List.mem_cons_self
      have later := ih fun other member => each other (List.mem_cons_of_mem _ member)
      cases rest with
      | nil => rwa [List.intercalate_singleton]
      | cons second rest =>
          rw [List.intercalate_cons_cons]
          exact (first.append cut).append later

/-- The text of an object. -/
theorem compact (members : List (Str × Str)) : Escaped (FlatJson.compact members) := by
  refine plain (by decide) ((intercalate (of_notMem (by decide)) ?_).append
    (of_notMem (by decide)))
  intro piece member
  obtain ⟨pair, _, rfl⟩ := List.mem_map.mp member
  exact (quote pair.1).append (plain (by decide) (quote pair.2))

/-- No cut at the character 124 separates an escape. -/
theorem splitAt {text : Str} (escaped : Escaped text) :
    ∀ piece ∈ Str.splitAt 124 text, Escaped piece := by
  have step (first : Str) {rest : Str} (free : 124 ∉ first)
      (extend : ∀ {piece : Str}, Escaped piece → Escaped (first ++ piece))
      (ih : ∀ piece ∈ Str.splitAt 124 rest, Escaped piece) :
      ∀ piece ∈ Str.splitAt 124 (first ++ rest), Escaped piece := by
    obtain ⟨head, pieces, cut, joined⟩ := Str.exists_splitAt_append free rest
    rw [cut, List.forall_mem_cons] at ih
    rw [joined, List.forall_mem_cons]
    exact ⟨extend ih.1, ih.2⟩
  induction escaped with
  | nil =>
      intro piece member
      rw [List.mem_singleton.mp member]
      exact nil
  | @plain char rest raw escaped ih =>
      by_cases bar : char = 124
      · intro piece member
        rw [Str.splitAt, if_pos bar, List.mem_cons] at member
        rcases member with rfl | later
        · exact nil
        · exact ih piece later
      · exact step [char] (by simpa using Ne.symm bar) (plain raw) ih
  | @short letter rest ordinary other escaped ih =>
      exact step [92, letter] (by simp [Ne.symm other]) (short ordinary other) ih
  | @control tens ones rest low other escaped ih =>
      refine step [92, 117, 48, 48, tens, ones] ?_ (control low other) ih
      rcases low with rfl | rfl <;> simp [Ne.symm other]

end Escaped

/-! ### Where a character comes from -/

/-- A text with printed escapes that does not contain the character 124. -/
def BarFree (text : Str) : Prop := Escaped text ∧ 124 ∉ text

theorem BarFree.tail {char : UInt8} {rest : Str} (free : BarFree (char :: rest))
    (raw : char ≠ 92) : BarFree rest := by
  obtain ⟨escaped, absent⟩ := free
  rw [List.mem_cons, not_or] at absent
  cases escaped with
  | plain _ escaped => exact ⟨escaped, absent.2⟩
  | short => exact absurd rfl raw
  | control => exact absurd rfl raw

theorem BarFree.of_expect {expected : UInt8} {text rest : Str} (free : BarFree text)
    (raw : expected ≠ 92) (skipped : expect expected text = some rest) : BarFree rest := by
  cases text with
  | nil => cases skipped
  | cons char remaining =>
      rw [expect] at skipped
      split at skipped
      · rename_i same
        cases skipped
        exact free.tail (same ▸ raw)
      · cases skipped

theorem unescape_ne_bar {letter char : UInt8} (meaning : unescape letter = some char) :
    char ≠ 124 := by
  unfold unescape at meaning
  split_ifs at meaning <;> cases meaning <;> decide

theorem hexValue_lt {char value : UInt8} (meaning : hexValue char = some value) : value < 16 := by
  unfold hexValue at meaning
  simp only [UInt8.le_iff_toNat_le, UInt8.reduceToNat] at meaning
  split_ifs at meaning with decimal lower upper <;> cases meaning <;>
    rw [UInt8.lt_iff_toNat_lt, UInt8.toNat_sub_of_le] <;>
    simp only [UInt8.le_iff_toNat_le, UInt8.reduceToNat] <;> omega

theorem hexChar_ne_bar {tens ones char : UInt8} (low : tens = 48 ∨ tens = 49)
    (meaning : hexChar 48 48 tens ones = some char) : char ≠ 124 := by
  have checked : ∀ number : Fin 16, (0 : UInt8) * 16 + UInt8.ofNat number ≠ 124 ∧
      (1 : UInt8) * 16 + UInt8.ofNat number ≠ 124 := by decide
  unfold hexChar at meaning
  cases value : hexValue ones with
  | none =>
      rw [value] at meaning
      cases first : hexValue tens <;> rw [first] at meaning <;> cases meaning
  | some digit =>
      have small := checked ⟨digit.toNat, UInt8.lt_iff_toNat_lt.mp (hexValue_lt value)⟩
      rw [UInt8.ofNat_toNat] at small
      rcases low with rfl | rfl
      · rw [value, show hexValue 48 = some 0 by decide] at meaning
        cases meaning
        exact small.1
      · rw [value, show hexValue 49 = some 1 by decide] at meaning
        cases meaning
        exact small.2

/-- The character 124 in a parsed string comes from the text. -/
theorem parseString_bar {text : Str} (free : BarFree text) {content rest : Str}
    (parsed : parseString text = some (content, rest)) : 124 ∉ content ∧ BarFree rest := by
  obtain ⟨escaped, absent⟩ := free
  have extend {char : UInt8} {remaining : Str} (other : char ≠ 124)
      (ih : ∀ {content rest : Str}, parseString remaining = some (content, rest) →
        124 ∉ content ∧ BarFree rest) {content rest : Str}
      (mapped : (parseString remaining).map (fun parsed => (char :: parsed.1, parsed.2)) =
        some (content, rest)) : 124 ∉ content ∧ BarFree rest := by
    obtain ⟨⟨inner, after⟩, run, equal⟩ := Option.map_eq_some_iff.mp mapped
    cases equal
    obtain ⟨innerFree, afterFree⟩ := ih run
    rw [List.mem_cons, not_or]
    exact ⟨⟨Ne.symm other, innerFree⟩, afterFree⟩
  induction escaped generalizing content rest with
  | nil => cases parsed
  | @plain char remaining raw escaped ih =>
      rw [List.mem_cons, not_or] at absent
      by_cases last : char = 34
      · rw [last, parseString_quote] at parsed
        cases parsed
        exact ⟨List.not_mem_nil, escaped, absent.2⟩
      · by_cases control : char < 32
        · rw [parseString.eq_def] at parsed
          simp only [last, raw, control, ↓reduceIte, reduceCtorEq] at parsed
        · rw [parseString_plain last raw control] at parsed
          exact extend (Ne.symm absent.1) (fun run => ih run absent.2) parsed
  | @short letter remaining ordinary other escaped ih =>
      rw [List.mem_cons, List.mem_cons, not_or, not_or] at absent
      rw [parseString_short ordinary] at parsed
      obtain ⟨decoded, meaning, mapped⟩ := Option.bind_eq_some_iff.mp parsed
      exact extend (unescape_ne_bar meaning) (fun run => ih run absent.2.2) mapped
  | @control tens ones remaining low other escaped ih =>
      simp only [List.mem_cons, not_or] at absent
      rw [parseString_hex] at parsed
      obtain ⟨decoded, meaning, mapped⟩ := Option.bind_eq_some_iff.mp parsed
      exact extend (hexChar_ne_bar low meaning)
        (fun run => ih run absent.2.2.2.2.2.2) mapped

theorem parseMember_bar {text : Str} (free : BarFree text) {member : Str × Str} {rest : Str}
    (parsed : parseMember text = some (member, rest)) :
    (124 ∉ member.1 ∧ 124 ∉ member.2) ∧ BarFree rest := by
  simp only [parseMember, Option.bind_eq_bind, Option.bind_eq_some_iff, Option.some.injEq,
    Prod.mk.injEq, Prod.exists] at parsed
  obtain ⟨first, opened, key, second, keyParsed, third, colon, fourth, reopened, value, fifth,
    valueParsed, rfl, rfl⟩ := parsed
  obtain ⟨keyFree, free⟩ := parseString_bar (free.of_expect (by decide) opened) keyParsed
  obtain ⟨valueFree, free⟩ := parseString_bar
    ((free.of_expect (by decide) colon).of_expect (by decide) reopened) valueParsed
  exact ⟨⟨keyFree, valueFree⟩, free⟩

theorem parseMembers_bar {fuel : Nat} {text : Str} (free : BarFree text)
    {members : List (Str × Str)} (parsed : parseMembers fuel text = some members) :
    ∀ member ∈ members, 124 ∉ member.1 ∧ 124 ∉ member.2 := by
  induction fuel generalizing text members with
  | zero => cases parsed
  | succ fuel ih =>
      rw [parseMembers, Option.bind_eq_bind, Option.bind_eq_some_iff] at parsed
      obtain ⟨⟨member, rest⟩, head, parsed⟩ := parsed
      obtain ⟨memberFree, restFree⟩ := parseMember_bar free head
      dsimp only at parsed
      split at parsed
      · cases parsed
        exact List.forall_mem_singleton.mpr memberFree
      · simp only [Option.bind_eq_bind, Option.bind_eq_some_iff, Option.some.injEq] at parsed
        obtain ⟨after, comma, later, run, rfl⟩ := parsed
        exact List.forall_mem_cons.mpr
          ⟨memberFree, ih (restFree.of_expect (by decide) comma) run⟩

/-- **Provenance.** In a text with printed escapes, without the character 124, no member
contains it. -/
theorem parse_bar {text : Str} (free : BarFree text) {members : List (Str × Str)}
    (parsed : parse text = some members) : ∀ member ∈ members, 124 ∉ member.1 ∧ 124 ∉ member.2 := by
  rw [parse, Option.bind_eq_bind, Option.bind_eq_some_iff] at parsed
  obtain ⟨rest, opened, parsed⟩ := parsed
  split at parsed
  · cases parsed
    exact fun member absent => absurd absent List.not_mem_nil
  · exact parseMembers_bar (free.of_expect (by decide) opened) parsed

end FlatJson
