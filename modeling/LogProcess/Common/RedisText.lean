import LogProcess.Common.Redis

/-! # Commands as format strings

`Set` and `Exists` of `common/redis.cc` write their arguments into the text of a command, which the
client library reads as a format: spaces separate arguments and percent signs start conversions.
The arguments arrive as they are exactly when they have no spaces and no percent signs
(`RedisCli.carries_iff`).
-/

namespace LogProcess

namespace RedisCli

/-- The command of `Set`. -/
def setCommand (key value : Str) : Str := bytes "set " ++ key ++ bytes " " ++ value

/-- The command of `Exists`. -/
def existsCommand (key : Str) : Str := bytes "exists " ++ key

/-- What the spaces of a text separate. -/
def words (text : Str) : List Str := Str.fields 32 text

/-- What is known about the arguments that `redisCommand` sends for a format without further
parameters. It sends none when the format is refused or a conversion asks for a parameter. A percent
sign at the end of the format has nothing to convert, and the other ones are only sent for two
of them. -/
structure Formats (redisCommand : Str → Option (List Str)) : Prop where
  plain : ∀ format, 0 ∉ format → 37 ∉ format.dropLast → redisCommand format = some (words format)
  percent : ∀ format arguments, redisCommand format = some arguments →
    2 * arguments.flatten.count 37 ≤
      format.count 37 + if format.getLast? = some 37 then 1 else 0

/-- The key and the value arrive as two arguments of `SET`. -/
def CarriesSet (redisCommand : Str → Option (List Str)) (key value : Str) : Prop :=
  redisCommand (setCommand key value).cstr = some [bytes "set", key, value]

/-- The key arrives as one argument of `EXISTS`. -/
def CarriesExists (redisCommand : Str → Option (List Str)) (key : Str) : Prop :=
  redisCommand (existsCommand key).cstr = some [bytes "exists", key]

/-! ### Words -/

theorem notMem_of_mem_words {text word : Str} (member : word ∈ words text) : 32 ∉ word :=
  Str.not_mem_of_mem_splitAt (List.mem_filter.mp member).1

/-- Words that are joined by spaces are separated again. -/
theorem words_intercalate_iff {arguments : List Str} (present : arguments ≠ [])
    (nonempty : ∀ argument ∈ arguments, argument ≠ []) :
    words ([32].intercalate arguments) = arguments ↔ ∀ argument ∈ arguments, 32 ∉ argument := by
  refine ⟨fun same argument member => ?_, fun free => ?_⟩
  · rw [← same] at member
    exact notMem_of_mem_words member
  · have pieces : arguments.flatMap (Str.splitAt 32) = arguments := by
      conv_rhs => rw [← List.flatMap_singleton' arguments]
      exact List.flatMap_congr fun argument member => Str.splitAt_of_not_mem (free argument member)
    rw [words, Str.fields, Str.splitAt_intercalate 32 present, pieces, List.filter_eq_self]
    exact fun argument member => decide_eq_true (nonempty argument member)

/-- Joining adds no percent signs. -/
theorem count_intercalate (arguments : List Str) :
    ([32].intercalate arguments).count 37 = arguments.flatten.count (37 : UInt8) := by
  induction arguments with
  | nil => rfl
  | cons first rest ih =>
      cases rest with
      | nil => rw [List.intercalate_singleton, List.flatten_singleton]
      | cons second rest =>
          have space : List.count (37 : UInt8) [32] = 0 := by decide
          rw [List.intercalate_cons_cons, List.count_append, List.count_append, ih, space]
          exact List.count_append.symm

/-! ### Formats -/

section Formats

variable {redisCommand : Str → Option (List Str)} (formats : Formats redisCommand)

include formats

/-- A percent sign that is sent for itself is the last character. -/
theorem notMem_dropLast_of_sent {format : Str} {arguments : List Str}
    (sent : redisCommand format = some arguments)
    (same : arguments.flatten.count 37 = format.count 37) : 37 ∉ format.dropLast := by
  have law := formats.percent format arguments sent
  rw [same] at law
  rw [← List.count_eq_zero]
  by_cases last : format.getLast? = some 37
  · obtain ⟨front, rfl⟩ := List.getLast?_eq_some_iff.mp last
    rw [if_pos last, List.count_append, List.count_singleton_self] at law
    rw [List.dropLast_concat]
    omega
  · rw [if_neg last] at law
    have sublist := (List.dropLast_sublist format).count_le 37
    omega

/-- Arguments are sent as they are exactly when they have no spaces, and only the last one a
percent sign, at its end. -/
theorem redisCommand_intercalate_iff {arguments : List Str} (present : arguments ≠ [])
    (nonempty : ∀ argument ∈ arguments, argument ≠ [])
    (free : 0 ∉ [32].intercalate arguments) :
    redisCommand ([32].intercalate arguments) = some arguments ↔
      (∀ argument ∈ arguments, 32 ∉ argument) ∧ 37 ∉ ([32].intercalate arguments).dropLast := by
  refine ⟨fun sent => ?_, fun good => ?_⟩
  · have unconverted := notMem_dropLast_of_sent formats sent (count_intercalate arguments).symm
    have separated := (formats.plain _ free unconverted).symm.trans sent
    exact ⟨(words_intercalate_iff present nonempty).mp (Option.some.inj separated), unconverted⟩
  · rw [formats.plain _ free good.2, (words_intercalate_iff present nonempty).mpr good.1]

end Formats

theorem setCommand_eq (key value : Str) :
    setCommand key value = [32].intercalate [bytes "set", key, value] := by
  simp only [setCommand, List.intercalate_cons_cons, List.intercalate_singleton, List.append_assoc]
  rfl

theorem existsCommand_eq (key : Str) :
    existsCommand key = [32].intercalate [bytes "exists", key] := by
  simp only [existsCommand, List.intercalate_cons_cons, List.intercalate_singleton]
  rfl

/-- **Commands.** `Set` carries its arguments exactly when they have no spaces and no percent
signs, but at the end of the value, and `Exists` its key when it has none, but at its end. -/
theorem carries_iff {redisCommand : Str → Option (List Str)} (formats : Formats redisCommand)
    {key value : Str} (keyNonempty : key ≠ []) (valueNonempty : value ≠ []) (keyFree : 0 ∉ key)
    (valueFree : 0 ∉ value) :
    (CarriesSet redisCommand key value ↔
      32 ∉ key ∧ 37 ∉ key ∧ 32 ∉ value ∧ 37 ∉ value.dropLast) ∧
    (CarriesExists redisCommand key ↔ 32 ∉ key ∧ 37 ∉ key.dropLast) := by
  have setFree : 0 ∉ setCommand key value := by
    simp only [setCommand, List.mem_append, keyFree, valueFree, or_false]
    decide
  have existsFree : 0 ∉ existsCommand key := by
    simp only [existsCommand, List.mem_append, keyFree, or_false]
    decide
  have named : (32 : UInt8) ∉ bytes "set" ∧ (32 : UInt8) ∉ bytes "exists" := by decide
  have plain : (37 : UInt8) ∉ bytes "set " ∧ (37 : UInt8) ∉ bytes " " ∧
      (37 : UInt8) ∉ bytes "exists " := by decide
  have nonempty : bytes "set" ≠ [] ∧ bytes "exists" ≠ [] := by decide
  refine ⟨?_, ?_⟩
  · rw [CarriesSet, Str.cstr_eq_self setFree]
    rw [setCommand_eq] at setFree ⊢
    rw [redisCommand_intercalate_iff formats (List.cons_ne_nil _ _) ?_ setFree, ← setCommand_eq,
      setCommand, List.dropLast_append_of_ne_nil valueNonempty]
    · simp only [List.forall_mem_cons, List.not_mem_nil, List.mem_append, plain, named, not_or,
        not_false_eq_true, true_and, and_true, IsEmpty.forall_iff, implies_true]
      exact ⟨fun good => ⟨good.1.1, good.2.1, good.1.2, good.2.2⟩,
        fun good => ⟨⟨good.1, good.2.2.1⟩, good.2.1, good.2.2.2⟩⟩
    · simp only [List.forall_mem_cons, List.not_mem_nil, IsEmpty.forall_iff, implies_true, and_true]
      exact ⟨nonempty.1, keyNonempty, valueNonempty⟩
  · rw [CarriesExists, Str.cstr_eq_self existsFree]
    rw [existsCommand_eq] at existsFree ⊢
    rw [redisCommand_intercalate_iff formats (List.cons_ne_nil _ _) ?_ existsFree,
      ← existsCommand_eq, existsCommand, List.dropLast_append_of_ne_nil keyNonempty]
    · simp only [List.forall_mem_cons, List.not_mem_nil, List.mem_append, plain, named, not_or,
        not_false_eq_true, true_and, and_true, IsEmpty.forall_iff, implies_true]
    · simp only [List.forall_mem_cons, List.not_mem_nil, IsEmpty.forall_iff, implies_true, and_true]
      exact ⟨nonempty.2, keyNonempty⟩

/-! ### Two keys -/

/-- A library that refuses all conversions. -/
def unconverted (format : Str) : Option (List Str) :=
  if 37 ∈ format.dropLast then none else some (words format)

/-- The words of a text have its percent signs. -/
theorem count_words (text : Str) : (words text).flatten.count (37 : UInt8) = text.count 37 := by
  rw [words, Str.fields, List.flatten_filter_ne_nil, Str.splitAt_flatten]
  exact List.count_filter (by decide)

theorem unconverted_formats : Formats unconverted where
  plain := fun format _ plain => if_neg plain
  percent := by
    intro format arguments sent
    rw [unconverted, Option.ite_none_left_eq_some, Option.some.injEq] at sent
    obtain ⟨plain, rfl⟩ := sent
    rw [count_words]
    rcases format.eq_nil_or_concat with rfl | ⟨front, last, rfl⟩
    · exact Nat.zero_le _
    · rw [List.concat_eq_append] at plain ⊢
      rw [List.dropLast_concat] at plain
      rw [List.count_append, List.count_eq_zero_of_not_mem plain, List.getLast?_concat]
      by_cases percent : last = 37
      · rw [percent, List.count_singleton_self, if_pos rfl]
      · rw [List.count_singleton, if_neg (fun same => percent (beq_iff_eq.mp same))]
        exact Nat.zero_le _

/-- A key and a value of letters. -/
theorem carries_iff_letters :
    (CarriesSet unconverted (bytes "qid") (bytes "1") ↔ 32 ∉ bytes "qid" ∧ 37 ∉ bytes "qid" ∧
      32 ∉ bytes "1" ∧ 37 ∉ (bytes "1").dropLast) ∧
    (CarriesExists unconverted (bytes "qid") ↔ 32 ∉ bytes "qid" ∧ 37 ∉ (bytes "qid").dropLast) :=
  carries_iff unconverted_formats (by decide) (by decide) (by decide) (by decide)

/-- With a space in the key four arguments are sent. -/
theorem not_carriesSet_of_space : ¬CarriesSet unconverted (bytes "a b") (bytes "1") := by
  rw [CarriesSet]
  decide +kernel

end RedisCli

end LogProcess
