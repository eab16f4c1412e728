import LogProcess.Foundation.Decimal
import LogProcess.Foundation.Pattern
import LogProcess.Preprocess.LogFields

/-! # The minute of a log

`Get_Timestamp` of `preprocess/data_access.cc` and the field `timestamp` of `GetFields` of
`preprocess/data_preprocess.cc` look for the same time in a log, but the configured expression also
matches the spaces around it. The century is put in front of a space and the zeros over the last
digit of the seconds, so that the two minutes are never equal when the time is found
(`sameMinute_iff`).
-/

namespace LogProcess

open Pattern (Piece Matches MatchesAt Occurs IsFirstMatch)

/-- `regexec` finds the leftmost and longest match, for the patterns that `Pattern.read`
understands. -/
def RegExec.Posix (regexec : RegExec) : Prop :=
  ∀ pattern pieces text, Pattern.read pattern = some pieces → 0 ∉ text →
    IsFirstMatch pieces text (regexec pattern text)

/-- A search for the first match. -/
def RegExec.ofPattern : RegExec := fun pattern text =>
  (Pattern.read pattern).bind fun pieces => Pattern.firstMatch pieces text

theorem RegExec.ofPattern_posix : RegExec.Posix RegExec.ofPattern := by
  intro pattern pieces text read _
  rw [ofPattern, read, Option.bind_some]
  exact Pattern.isFirstMatch_firstMatch pieces text

/-! ### Times -/

/-- A part of a time. -/
structure TwoDigits where
  text : Str
  length_text : text.length = 2
  isDigit : ∀ char ∈ text, Decimal.isDigit char

def TwoDigits.ofDigits (tens ones : Fin 10) : TwoDigits where
  text := [Decimal.digit tens, Decimal.digit ones]
  length_text := rfl
  isDigit := by
    intro char member
    rw [List.mem_cons, List.mem_singleton] at member
    rcases member with rfl | rfl <;> rw [Decimal.isDigit_iff, Decimal.toNat_digit (Fin.isLt _)] <;>
      omega

/-- A time with a year of two digits. -/
structure LogTime where
  year : TwoDigits
  month : TwoDigits
  day : TwoDigits
  hour : TwoDigits
  minute : TwoDigits
  second : TwoDigits

/-- `YY-MM-DD hh:mm:ss` -/
def LogTime.text (time : LogTime) : Str :=
  time.year.text ++ 45 :: (time.month.text ++ 45 :: (time.day.text ++ 32 ::
    (time.hour.text ++ 58 :: (time.minute.text ++ 58 :: time.second.text))))

/-- What the expression of `Get_Timestamp` means. -/
def timePieces : List Piece :=
  [.some .digit, .one (.char 45), .some .digit, .one (.char 45), .some .digit, .one (.char 32),
    .some .digit, .one (.char 58), .some .digit, .one (.char 58), .some .digit]

/-- The configured expression of the field `timestamp`. -/
def timestampRegex : Str := bytes " ([0-9]+\\-[0-9]+\\-[0-9]+ [0-9]+\\:[0-9]+\\:[0-9]+) "

def spacedPieces : List Piece := .one (.char 32) :: (timePieces ++ [.one (.char 32)])

theorem read_timeRegex :
    Pattern.read (bytes "([0-9]+-[0-9]+-[0-9]+ [0-9]+:[0-9]+:[0-9]+)") = some timePieces := by
  decide

theorem read_timestampRegex : Pattern.read timestampRegex = some spacedPieces := by
  decide

namespace TwoDigits

variable (part : TwoDigits)

theorem zero_notMem_text : 0 ∉ part.text := fun member =>
  absurd (part.isDigit 0 member) (by decide)

theorem text_ne_nil : part.text ≠ [] :=
  List.ne_nil_of_length_eq_add_one part.length_text

theorem accepts_digit : ∀ char ∈ part.text, Pattern.Atom.digit.accepts char :=
  part.isDigit

end TwoDigits

theorem LogTime.zero_notMem_text (time : LogTime) : 0 ∉ time.text := by
  simp only [text, List.mem_append, List.mem_cons, TwoDigits.zero_notMem_text, or_self,
    false_or, or_false]
  decide

theorem LogTime.length_text (time : LogTime) : time.text.length = 17 := by
  simp only [text, List.length_append, List.length_cons, TwoDigits.length_text, Nat.reduceAdd]

/-- A time begins with a digit. -/
theorem LogTime.exists_text_eq (time : LogTime) :
    ∃ digit behind, time.text = digit :: behind ∧ digit ≠ 32 ∧ behind.length = 16 := by
  have length := time.length_text
  cases year : time.year.text with
  | nil => exact absurd year time.year.text_ne_nil
  | cons digit rest =>
      have member : digit ∈ time.year.text := by
        rw [year]
        exact List.mem_cons_self
      have notSpace : digit ≠ 32 := by
        rintro rfl
        exact absurd (time.year.isDigit 32 member) (by decide)
      rw [text, year, List.cons_append, List.length_cons] at length
      exact ⟨digit, _, by rw [text, year, List.cons_append], notSpace, Nat.succ.inj length⟩

/-! ### Where the expressions match -/

section Time

variable (time : LogTime)

/-- A part of the expression goes to the end of the part of the time. -/
theorem matches_part_iff (part : TwoDigits) {char : UInt8}
    (separator : Pattern.Atom.digit.accepts char = false) (rest : List Piece) (atStart : Bool)
    (behind : Str) (length : Nat) :
    Matches (.some .digit :: .one (.char char) :: rest) atStart (part.text ++ char :: behind)
        length ↔
      ∃ more, length = 3 + more ∧ Matches rest false behind more := by
  rw [Pattern.matches_run_iff part.text_ne_nil part.accepts_digit separator, part.length_text]

theorem matches_timePieces_append_iff (rest : List Piece) (atStart : Bool) (behind : Str)
    (length : Nat) :
    Matches (timePieces ++ rest) atStart (time.text ++ behind) length ↔
      ∃ more, length = 15 + more ∧
        Matches (.some .digit :: rest) false (time.second.text ++ behind) more := by
  rw [timePieces, LogTime.text]
  simp only [List.cons_append, List.nil_append, List.append_assoc]
  have dash : Pattern.Atom.digit.accepts 45 = false := by decide
  have space : Pattern.Atom.digit.accepts 32 = false := by decide
  have colon : Pattern.Atom.digit.accepts 58 = false := by decide
  simp only [matches_part_iff _ dash, matches_part_iff _ space, matches_part_iff _ colon]
  refine ⟨fun matched => ?_, fun matched => ?_⟩
  · obtain ⟨_, rfl, _, rfl, _, rfl, _, rfl, more, rfl, later⟩ := matched
    exact ⟨more, by omega, later⟩
  · obtain ⟨more, rfl, later⟩ := matched
    exact ⟨3 + (3 + (3 + (3 + more))), by omega, _, rfl, _, rfl, _, rfl, more, rfl, later⟩

/-- The time matches up to the space behind it. -/
theorem matches_timePieces (atStart : Bool) (after : Str) :
    Matches timePieces atStart (time.text ++ 32 :: after) 17 ∧
      ∀ longer, Matches timePieces atStart (time.text ++ 32 :: after) longer → longer ≤ 17 := by
  have last := Pattern.matches_last_run time.second.text_ne_nil time.second.accepts_digit false
    (show ∀ char ∈ (32 :: after).head?, Pattern.Atom.digit.accepts char = false by
      rintro char same
      rw [← Option.some.inj same]
      decide)
  rw [time.second.length_text] at last
  have parts := matches_timePieces_append_iff time [] atStart (32 :: after)
  rw [List.append_nil] at parts
  refine ⟨(parts 17).mpr ⟨2, rfl, last.1⟩, fun longer matched => ?_⟩
  obtain ⟨more, rfl, later⟩ := (parts longer).mp matched
  exact Nat.add_le_add_left (last.2 more later) 15

/-- With the spaces around it the time matches as a whole. -/
theorem matches_spacedPieces_iff (atStart : Bool) (after : Str) (length : Nat) :
    Matches spacedPieces atStart (32 :: (time.text ++ 32 :: after)) length ↔ length = 19 := by
  have space : Pattern.Atom.digit.accepts 32 = false := by decide
  rw [spacedPieces, Matches]
  refine ⟨fun matched => ?_, fun same => ?_⟩
  · obtain ⟨_, _, _, shape, _, rfl, matched⟩ := matched
    obtain ⟨_, rfl⟩ := List.cons.inj shape
    obtain ⟨_, rfl, last⟩ := (matches_timePieces_append_iff ..).mp matched
    obtain ⟨_, rfl, rfl⟩ := (matches_part_iff _ space ..).mp last
    rfl
  · refine ⟨32, time.text ++ 32 :: after, 18, rfl, rfl, same, ?_⟩
    refine (matches_timePieces_append_iff ..).mpr ⟨3, rfl, ?_⟩
    exact (matches_part_iff _ space ..).mpr ⟨0, rfl, rfl⟩

/-- A match with spaces contains one without. -/
theorem exists_matchesAt_of_spaced {text : Str} {first length : Nat}
    (matched : MatchesAt spacedPieces text first length) :
    ∃ shorter, MatchesAt timePieces text (first + 1) shorter := by
  obtain ⟨within, _, behind, _, shape, _, _, inner⟩ := matched
  obtain ⟨shorter, found⟩ := inner.of_append
  have rest : text.drop (first + 1) = behind := by
    rw [← List.tail_drop, shape, List.tail_cons]
  have lengths := congrArg List.length shape
  rw [List.length_drop, List.length_cons] at lengths
  refine ⟨shorter, by omega, ?_⟩
  rw [rest]
  exact found

end Time

/-! ### The two minutes -/

/-- Without leading and trailing spaces. -/
def trim (text : Str) : Str := (text.dropWhile (· = 32)).rdropWhile (· = 32)

/-- The minutes by which a log is counted and stored are equal up to spaces around them. -/
def SameMinute (regexec : RegExec) (body : Str) (fieldRegexes : OrderedMap Str Str)
    (type : Bool) : Prop :=
  trim (DataAccesser.getTimestamp regexec body) =
    trim (((DataPreProcess.getFields regexec body fieldRegexes type).find?
      (bytes "timestamp")).getD [])

theorem trim_eq_self {first last : UInt8} (firstChar : first ≠ 32) (lastChar : last ≠ 32)
    (middle : Str) : trim (first :: (middle ++ [last])) = first :: (middle ++ [last]) := by
  rw [trim, List.dropWhile_cons_of_neg (by simpa using firstChar), ← List.cons_append,
    List.rdropWhile_concat_neg _ _ _ (by simpa using lastChar)]

/-- The first character that was found stands behind the century. -/
theorem exists_trim_minuteText {regexec : RegExec} {pattern body found rest : Str} {char : UInt8}
    {rmSo : Nat}
    (matched : regexec pattern body.cstr = some (rmSo, rmSo + (found.length + 1)))
    (shape : body.drop rmSo = char :: (found ++ rest)) (long : 2 ≤ found.length) :
    ∃ behind, trim (minuteText regexec pattern body) = 50 :: 48 :: char :: behind := by
  obtain ⟨length, same⟩ := Nat.exists_eq_add_of_le' long
  have value : bytes "20" ++ (body.drop rmSo).take (rmSo + (found.length + 1) - rmSo) =
      50 :: 48 :: char :: found := by
    rw [shape, Nat.add_sub_cancel_left, List.take_succ_cons, List.take_left]
    rfl
  have minute : minuteText regexec pattern body =
      50 :: ((48 :: char :: (found.take length ++ [48])) ++ [48]) := by
    rw [minuteText, matched]
    simp only [value]
    rw [List.length_cons, List.length_cons, List.length_cons, same]
    simp only [Nat.reduceAdd, Nat.add_assoc, List.cons_append, List.append_assoc]
    rfl
  refine ⟨found.take length ++ [48] ++ [48], ?_⟩
  rw [minute, trim_eq_self (by decide) (by decide)]
  rfl

section Minute

variable {regexec : RegExec} (posix : regexec.Posix) {before after : Str} {time : LogTime}
  (earliest : ∀ first ≤ before.length, ∀ length,
    ¬MatchesAt timePieces (before ++ 32 :: (time.text ++ 32 :: after)).cstr first length)

include posix earliest

/-- Nothing is found when a null character hides the time. -/
theorem regexec_eq_none (hidden : 0 ∈ before) :
    regexec (bytes "([0-9]+-[0-9]+-[0-9]+ [0-9]+:[0-9]+:[0-9]+)")
        (before ++ 32 :: (time.text ++ 32 :: after)).cstr = none ∧
      regexec timestampRegex (before ++ 32 :: (time.text ++ 32 :: after)).cstr = none := by
  have short := Str.length_cstr_append_lt hidden (32 :: (time.text ++ 32 :: after))
  have absent (first length : Nat) : ¬MatchesAt timePieces
      (before ++ 32 :: (time.text ++ 32 :: after)).cstr first length := fun matched =>
    earliest first (matched.1.trans short.le) length matched
  have free := Str.cstr_free (before ++ 32 :: (time.text ++ 32 :: after))
  refine ⟨(posix _ _ _ read_timeRegex free).unique fun occurs => ?_,
    (posix _ _ _ read_timestampRegex free).unique fun occurs => ?_⟩
  · obtain ⟨first, length, matched⟩ := occurs
    exact absent first length matched
  · obtain ⟨first, length, matched⟩ := occurs
    obtain ⟨shorter, inner⟩ := exists_matchesAt_of_spaced matched
    exact absent _ _ inner

/-- Both expressions find the time, the configured one with the spaces around it. -/
theorem regexec_eq_some (visible : 0 ∉ before) :
    regexec (bytes "([0-9]+-[0-9]+-[0-9]+ [0-9]+:[0-9]+:[0-9]+)")
        (before ++ 32 :: (time.text ++ 32 :: after)).cstr =
        some (before.length + 1, before.length + 18) ∧
      regexec timestampRegex (before ++ 32 :: (time.text ++ 32 :: after)).cstr =
        some (before.length, before.length + 19) := by
  have seen : (before ++ 32 :: (time.text ++ 32 :: after)).cstr =
      before ++ 32 :: (time.text ++ 32 :: after.cstr) := by
    have spaces (text : Str) : Str.cstr (32 :: text) = 32 :: text.cstr := rfl
    rw [Str.cstr_append visible, spaces, Str.cstr_append time.zero_notMem_text, spaces]
  have behind : (before ++ 32 :: (time.text ++ 32 :: after)).cstr.drop (before.length + 1) =
      time.text ++ 32 :: after.cstr := by
    rw [seen, List.drop_length_add_append]
    rfl
  have here : (before ++ 32 :: (time.text ++ 32 :: after)).cstr.drop before.length =
      32 :: (time.text ++ 32 :: after.cstr) := by
    rw [seen, List.drop_left]
  have long : before.length + 1 ≤ (before ++ 32 :: (time.text ++ 32 :: after)).cstr.length := by
    rw [seen, List.length_append, List.length_cons]
    omega
  have free := Str.cstr_free (before ++ 32 :: (time.text ++ 32 :: after))
  have unspaced := Pattern.isFirstMatch_of_drop long behind (matches_timePieces time _ _).1
    (matches_timePieces time _ _).2 fun earlier less => earliest earlier (Nat.le_of_lt_succ less)
  have notEarlier (earlier : Nat) (less : earlier < before.length) (length : Nat) :
      ¬MatchesAt spacedPieces (before ++ 32 :: (time.text ++ 32 :: after)).cstr earlier length := by
    intro matched
    obtain ⟨shorter, inner⟩ := exists_matchesAt_of_spaced matched
    exact earliest _ less shorter inner
  have whole := (matches_spacedPieces_iff time (before.length = 0) after.cstr 19).mpr rfl
  have spaced := Pattern.isFirstMatch_of_drop ((Nat.le_succ _).trans long) here whole
    (fun longer matched => ((matches_spacedPieces_iff time _ _ longer).mp matched).le) notEarlier
  exact ⟨(posix _ _ _ read_timeRegex free).unique unspaced,
    (posix _ _ _ read_timestampRegex free).unique spaced⟩

omit posix earliest in
/-- The stored minute is what the configured expression gives. -/
theorem getD_find?_timestamp {fieldRegexes : OrderedMap Str Str}
    (configured : fieldRegexes.find? (bytes "timestamp") = some timestampRegex) (body : Str)
    (type : Bool) :
    ((DataPreProcess.getFields regexec body fieldRegexes type).find? (bytes "timestamp")).getD [] =
      minuteText regexec timestampRegex body := by
  rw [DataPreProcess.find?_getFields, configured]
  rfl

/-- A time that is found is counted and stored by different minutes. -/
theorem not_sameMinute_of_visible {fieldRegexes : OrderedMap Str Str}
    (configured : fieldRegexes.find? (bytes "timestamp") = some timestampRegex) (type : Bool)
    (visible : 0 ∉ before) :
    ¬SameMinute regexec (before ++ 32 :: (time.text ++ 32 :: after)) fieldRegexes type := by
  obtain ⟨counted, kept⟩ := regexec_eq_some posix earliest visible
  obtain ⟨digit, found, text, notSpace, length⟩ := time.exists_text_eq
  have countedShape : (before ++ 32 :: (time.text ++ 32 :: after)).drop (before.length + 1) =
      digit :: (found ++ 32 :: after) := by
    rw [List.drop_length_add_append, text]
    rfl
  have keptShape : (before ++ 32 :: (time.text ++ 32 :: after)).drop before.length =
      32 :: ((time.text ++ [32]) ++ after) := by
    rw [List.drop_left, List.append_assoc]
    rfl
  have whole : (time.text ++ [32]).length = 18 := by
    rw [List.length_append, time.length_text, List.length_singleton]
  rw [show before.length + 18 = before.length + 1 + (found.length + 1) by omega] at counted
  rw [show before.length + 19 = before.length + ((time.text ++ [32]).length + 1) by omega] at kept
  obtain ⟨_, countedMinute⟩ := exists_trim_minuteText counted countedShape (by omega)
  obtain ⟨_, keptMinute⟩ := exists_trim_minuteText kept keptShape (by omega)
  rw [SameMinute, getD_find?_timestamp configured, DataAccesser.getTimestamp, countedMinute,
    keptMinute]
  exact fun same => notSpace (List.cons.inj (List.cons.inj (List.cons.inj same).2).2).1

/-- **Minutes.** A log is counted and stored by the same minute only if neither is found. -/
theorem sameMinute_iff {fieldRegexes : OrderedMap Str Str}
    (configured : fieldRegexes.find? (bytes "timestamp") = some timestampRegex) (type : Bool) :
    SameMinute regexec (before ++ 32 :: (time.text ++ 32 :: after)) fieldRegexes type ↔
      0 ∈ before := by
  by_cases hidden : 0 ∈ before
  · obtain ⟨counted, kept⟩ := regexec_eq_none posix earliest hidden
    rw [SameMinute, getD_find?_timestamp configured, DataAccesser.getTimestamp, minuteText,
      minuteText, counted, kept]
    exact iff_of_true rfl hidden
  · exact iff_of_false (not_sameMinute_of_visible posix earliest configured type hidden) hidden

end Minute

/-- 17-06-22 16:46:40 -/
def sampleTime : LogTime where
  year := .ofDigits 1 7
  month := .ofDigits 0 6
  day := .ofDigits 2 2
  hour := .ofDigits 1 6
  minute := .ofDigits 4 6
  second := .ofDigits 4 0

/-- Nothing matches in front of a time at the beginning of a log. -/
theorem earliest_sampleTime (first : Nat) (low : first ≤ ([] : Str).length) (length : Nat) :
    ¬MatchesAt timePieces (Str.cstr (([] : Str) ++ 32 :: (sampleTime.text ++ 32 :: []))) first
      length := by
  obtain rfl := Nat.le_zero.mp low
  intro matched
  have member := (Pattern.mem_lengths_iff ..).mpr matched.2
  exact absurd member List.not_mem_nil

theorem sameMinute_iff_sampleTime :
    SameMinute RegExec.ofPattern (([] : Str) ++ 32 :: (sampleTime.text ++ 32 :: []))
      (OrderedMap.empty.assign (bytes "timestamp") timestampRegex) true ↔ 0 ∈ ([] : Str) :=
  sameMinute_iff RegExec.ofPattern_posix earliest_sampleTime (OrderedMap.find?_assign_self ..) true

/-- The log is counted at `2017-06-22 16:46:00` and stored at `20 17-06-22 16:46:400`. -/
theorem not_sameMinute_sampleTime :
    ¬SameMinute RegExec.ofPattern (([] : Str) ++ 32 :: (sampleTime.text ++ 32 :: []))
      (OrderedMap.empty.assign (bytes "timestamp") timestampRegex) true :=
  not_sameMinute_of_visible RegExec.ofPattern_posix earliest_sampleTime
    (OrderedMap.find?_assign_self ..) true List.not_mem_nil

end LogProcess
