import LogProcess.Preprocess.LogFields

/-! # Logs made of tokens

The log lines are a prefix followed by tokens such as `srcid[4514]`. The functions of
`preprocess/data_access.cc` and `preprocess/data_preprocess.cc` search for the name of a field with
a bracket behind it, which is also found at the end of a longer name. They find the right token
unless another one comes first (`decodes_iff`). Only the name `sid` is searched for with the space
in front of it.
-/

namespace LogProcess

/-- A name with a value in brackets. -/
structure LogToken where
  name : Str
  value : Str
  name_free : 32 ∉ name ∧ 91 ∉ name ∧ 93 ∉ name
  value_free : 91 ∉ value ∧ 93 ∉ value

/-- `name[value]` -/
def LogToken.text (token : LogToken) : Str := token.name ++ 91 :: (token.value ++ [93])

/-- What stands in front of the tokens, and the tokens. -/
structure LogLine where
  head : Str
  tokens : List LogToken
  head_free : 91 ∉ head ∧ 93 ∉ head

namespace LogLine

def body (line : LogLine) : Str :=
  line.head ++ line.tokens.flatMap fun token => 32 :: token.text

/-- The value of the first token with the name, or nothing. -/
def valueOf (line : LogLine) (field : Str) : Str :=
  ((line.tokens.find? fun token => token.name = field).map LogToken.value).getD []

/-- The first token whose bracket stands behind the field, when some text was passed already. -/
def firstEnding (field : Str) : Str → List LogToken → Option LogToken
  | _, [] => none
  | before, token :: rest =>
      if field <:+ before ++ 32 :: token.name then some token
      else firstEnding field (before ++ 32 :: token.text) rest

/-- The first token whose bracket stands behind the field has this name, or the same value as the
first token with this name. -/
def Unshadowed (line : LogLine) (field : Str) : Prop :=
  ∀ token ∈ firstEnding field line.head line.tokens,
    token.name = field ∨ token.value = line.valueOf field

end LogLine

/-! ### Searching a field -/

/-- No bracket of the text stands behind the field. -/
def Passes (field text : Str) : Prop :=
  ∀ front behind, text = front ++ 91 :: behind → ¬field <:+ front

namespace LogToken

variable (token : LogToken) {field before : Str} (passes : Passes field before)

theorem append_text (before after : Str) :
    before ++ 32 :: (token.text ++ after) =
      (before ++ 32 :: token.name) ++ 91 :: (token.value ++ 93 :: after) := by
  simp [text]

theorem takeWhile_value (after : Str) :
    (token.value ++ 93 :: after).takeWhile (· ≠ 93) = token.value := by
  rw [List.takeWhile_append_of_pos, List.takeWhile_cons_of_neg (by decide), List.append_nil]
  intro char member
  rw [decide_eq_true_eq]
  rintro rfl
  exact token.value_free.2 member

include passes

/-- The name of a token adds no bracket. -/
theorem passes_name : Passes field (before ++ 32 :: token.name) := by
  intro front behind split
  rcases (Str.append_eq_append_cons_iff ..).mp split with ⟨_, early, _⟩ | ⟨middle, _, late⟩
  · exact passes _ _ early
  · have member : 91 ∈ (32 :: token.name : Str) := by
      rw [late]
      exact List.mem_append_right _ List.mem_cons_self
    rcases List.mem_cons.mp member with space | inside
    · cases space
    · exact absurd inside token.name_free.2.1

/-- A token adds the bracket behind its name. -/
theorem passes_text (other : ¬field <:+ before ++ 32 :: token.name) :
    Passes field (before ++ 32 :: token.text) := by
  intro front behind split
  rw [← List.append_nil token.text, token.append_text] at split
  rcases (Str.append_eq_append_cons_iff ..).mp split with ⟨_, early, _⟩ | ⟨middle, rfl, late⟩
  · exact token.passes_name passes _ _ early
  · cases middle with
    | nil => rwa [List.append_nil]
    | cons bracket middle =>
        have member : 91 ∈ token.value ++ [93] := by
          rw [(List.cons.inj late).2]
          exact List.mem_append_right _ List.mem_cons_self
        rcases List.mem_append.mp member with inside | last
        · exact absurd inside token.value_free.1
        · cases List.mem_singleton.mp last

/-- The value of the first token behind whose text the field stands is found. -/
theorem valueAfter_of_ending (ending : field <:+ before ++ 32 :: token.name) (after : Str) :
    valueAfter (before ++ 32 :: (token.text ++ after)) (field ++ [91]) 0 = some token.value := by
  have shape := token.append_text before after
  have first (shorter longer : Str)
      (split : before ++ 32 :: (token.text ++ after) = shorter ++ 91 :: longer)
      (found : field <:+ shorter) : (before ++ 32 :: token.name).length ≤ shorter.length := by
    rw [shape] at split
    rcases (Str.append_eq_append_cons_iff ..).mp split with ⟨_, early, _⟩ | ⟨_, rfl, _⟩
    · exact absurd found (token.passes_name passes _ _ early)
    · exact (List.prefix_append _ _).length_le
  have position : (before ++ 32 :: token.name).length - field.length + (field ++ [91]).length =
      (before ++ 32 :: token.name).length + 1 := by
    have fits := ending.length_le
    simp only [List.length_append, List.length_singleton] at fits ⊢
    omega
  rw [valueAfter, Str.find_append_singleton shape ending first, Option.map_some, position, shape,
    List.drop_length_add_append, List.drop_one, List.tail_cons, token.takeWhile_value]

end LogToken

/-- Searching a field finds the first token whose bracket stands behind it. -/
theorem valueAfter_tokens (field : Str) (tokens : List LogToken) {before : Str}
    (passes : Passes field before) :
    valueAfter (before ++ tokens.flatMap fun token => 32 :: token.text) (field ++ bytes "[") 0 =
      (LogLine.firstEnding field before tokens).map LogToken.value := by
  have bracket : bytes "[" = [91] := rfl
  rw [bracket]
  induction tokens generalizing before with
  | nil =>
      rw [List.flatMap_nil, List.append_nil, valueAfter,
        Str.find_append_singleton_eq_none passes]
      rfl
  | cons token rest ih =>
      rw [LogLine.firstEnding, List.flatMap_cons]
      by_cases ending : field <:+ before ++ 32 :: token.name
      · rw [if_pos ending]
        exact token.valueAfter_of_ending passes ending _
      · rw [if_neg ending, ← List.append_assoc]
        exact ih (token.passes_text passes ending)

namespace LogLine

variable (line : LogLine)

theorem valueAfter_body (field : Str) :
    valueAfter line.body (field ++ bytes "[") 0 =
      (firstEnding field line.head line.tokens).map LogToken.value := by
  refine valueAfter_tokens field line.tokens fun front behind split => ?_
  have member : 91 ∈ line.head := by
    rw [split]
    exact List.mem_append_right _ List.mem_cons_self
  exact absurd member line.head_free.1

/-- A token with the name of the field has its bracket behind the field. -/
theorem exists_firstEnding {field : Str} {tokens : List LogToken} {token : LogToken}
    (member : token ∈ tokens) (named : token.name = field) (before : Str) :
    ∃ first, firstEnding field before tokens = some first := by
  induction tokens generalizing before with
  | nil => exact absurd member List.not_mem_nil
  | cons head rest ih =>
      rw [firstEnding]
      split
      · exact ⟨head, rfl⟩
      · rename_i other
        rcases List.mem_cons.mp member with rfl | later
        · exact absurd ⟨before ++ [32], by simp [named]⟩ other
        · exact ih later _

/-- If the first such token has the name of the field, then no earlier one has. -/
theorem find?_of_firstEnding {field before : Str} {tokens : List LogToken} {token : LogToken}
    (first : firstEnding field before tokens = some token) (named : token.name = field) :
    tokens.find? (fun token => token.name = field) = some token := by
  induction tokens generalizing before with
  | nil => cases first
  | cons head rest ih =>
      rw [firstEnding] at first
      split at first
      · obtain rfl := Option.some.inj first
        exact List.find?_cons_of_pos (by simpa using named)
      · rename_i other
        have differs : head.name ≠ field := by
          rintro rfl
          exact other ⟨before ++ [32], by simp⟩
        rw [List.find?_cons_of_neg (by simpa using differs)]
        exact ih first

/-- **One field.** The value that is found is that of the first token with the name exactly when
no other token comes first. -/
theorem valueAfter_eq_valueOf_iff (field : Str) :
    (valueAfter line.body (field ++ bytes "[") 0).getD [] = line.valueOf field ↔
      line.Unshadowed field := by
  rw [valueAfter_body, Unshadowed]
  cases first : firstEnding field line.head line.tokens with
  | none =>
      have absent : line.tokens.find? (fun token => token.name = field) = none := by
        rw [List.find?_eq_none]
        intro token member
        rw [decide_eq_true_eq]
        intro named
        obtain ⟨other, found⟩ := exists_firstEnding member named line.head
        rw [first] at found
        cases found
      rw [valueOf, absent]
      exact iff_of_true rfl fun token found => by cases found
  | some token =>
      simp only [Option.map_some, Option.getD_some, Option.mem_def, Option.some.injEq,
        forall_eq']
      refine ⟨.inr, fun unshadowed => ?_⟩
      rcases unshadowed with named | same
      · rw [valueOf, find?_of_firstEnding first named]
        rfl
      · exact same

/-- With the space in front of it only the whole name is found. -/
theorem firstEnding_space {field : Str} (free : 32 ∉ field) (before : Str)
    (tokens : List LogToken) :
    firstEnding (32 :: field) before tokens =
      tokens.find? fun token => token.name = field := by
  induction tokens generalizing before with
  | nil => rfl
  | cons token rest ih =>
      rw [firstEnding]
      by_cases named : token.name = field
      · rw [if_pos ⟨before, by rw [named]⟩, List.find?_cons_of_pos (by simpa using named)]
      · rw [List.find?_cons_of_neg (by simpa using named), if_neg, ih]
        rintro ⟨front, same⟩
        rcases (Str.append_eq_append_cons_iff ..).mp same with ⟨_, _, inside⟩ | ⟨middle, _, inside⟩
        · refine token.name_free.1 ?_
          rw [inside]
          exact List.mem_append_right _ List.mem_cons_self
        · cases middle with
          | nil => exact named (List.cons.inj inside).2.symm
          | cons space middle =>
              refine free ?_
              rw [(List.cons.inj inside).2]
              exact List.mem_append_right _ List.mem_cons_self

/-! ### Decoding a line -/

/-- Every configured field except the timestamp, and the srcid, have the values of the first tokens
with their names. -/
def Decodes (regexec : RegExec) (fieldRegexes : OrderedMap Str Str) : Prop :=
  (∀ field, (fieldRegexes.find? field).isSome → field ≠ bytes "timestamp" →
    (DataPreProcess.getFields regexec line.body fieldRegexes false).find? field =
      some (line.valueOf field)) ∧
  DataPreProcess.getSrcid line.body = line.valueOf (bytes "srcid") ∧
  DataAccesser.getSrcid line.body = line.valueOf (bytes "srcid") ∧
  ∀ judge, DataAccesser.filter judge line.body =
    (!(line.body.find (bytes "WARNING") 0).isSome && judge (line.valueOf (bytes "srcid")))

/-- A configured field has the value of its token exactly when it is `sid` or unshadowed. -/
theorem find?_getFields_iff (regexec : RegExec) {fieldRegexes : OrderedMap Str Str} {field : Str}
    (configured : (fieldRegexes.find? field).isSome) (untimed : field ≠ bytes "timestamp") :
    (DataPreProcess.getFields regexec line.body fieldRegexes false).find? field =
        some (line.valueOf field) ↔
      (field ≠ bytes "sid" → line.Unshadowed field) := by
  obtain ⟨regex, found⟩ := Option.isSome_iff_exists.mp configured
  rw [DataPreProcess.find?_getFields, found, Option.map_some, Option.some.injEq,
    DataPreProcess.fieldValue, if_neg untimed, if_neg fun both => absurd both.1 Bool.false_ne_true]
  change (valueAfter line.body (if field = bytes "sid" then bytes " sid[" else field ++ bytes "[")
    0).getD [] = line.valueOf field ↔ _
  by_cases sid : field = bytes "sid"
  · refine iff_of_true ?_ fun other => absurd sid other
    have search : bytes " sid[" = 32 :: bytes "sid" ++ bytes "[" := rfl
    rw [if_pos sid, search, valueAfter_body, firstEnding_space (by decide), sid]
    rfl
  · rw [if_neg sid, valueAfter_eq_valueOf_iff]
    exact ⟨fun unshadowed _ => unshadowed, fun unshadowed => unshadowed sid⟩

/-- **Tokens.** A line is decoded exactly when no searched field except `sid` is shadowed. -/
theorem decodes_iff (regexec : RegExec) (fieldRegexes : OrderedMap Str Str) :
    line.Decodes regexec fieldRegexes ↔
      (∀ field, (fieldRegexes.find? field).isSome → field ≠ bytes "timestamp" →
        field ≠ bytes "sid" → line.Unshadowed field) ∧ line.Unshadowed (bytes "srcid") := by
  have srcid := line.valueAfter_eq_valueOf_iff (bytes "srcid")
  have search : bytes "srcid" ++ bytes "[" = bytes "srcid[" := rfl
  rw [search] at srcid
  rw [Decodes]
  refine and_congr ?_ ?_
  · refine forall₃_congr fun field configured untimed => ?_
    exact line.find?_getFields_iff regexec configured untimed
  · rw [DataPreProcess.getSrcid, DataAccesser.getSrcid, srcid]
    refine ⟨fun decoded => decoded.1, fun unshadowed => ⟨unshadowed, unshadowed, fun judge => ?_⟩⟩
    rw [DataAccesser.filter, srcid.mpr unshadowed]
    cases (line.body.find (bytes "WARNING") 0).isSome <;> rfl

/-- A `make_query` in front of the query. -/
def queryLine : LogLine where
  head := bytes "NOTICE:"
  tokens := [⟨bytes "make_query", bytes "a", by decide, by decide⟩,
    ⟨bytes "query", bytes "b", by decide, by decide⟩]
  head_free := by decide

/-- The field `query` gets the value of `make_query`. -/
theorem not_decodes_queryLine :
    ¬queryLine.Decodes (fun _ _ => none)
      (OrderedMap.empty.assign (bytes "query") (bytes " query\\[(.+?)\\] ")) := by
  intro decoded
  have configured : ((OrderedMap.empty.assign (bytes "query")
      (bytes " query\\[(.+?)\\] ")).find? (bytes "query")).isSome := by
    rw [OrderedMap.find?_assign_self, Option.isSome_some]
  have unshadowed := (queryLine.find?_getFields_iff _ configured (by decide)).mp
    (decoded.1 _ configured (by decide)) (by decide)
  have first : firstEnding (bytes "query") queryLine.head queryLine.tokens =
      some ⟨bytes "make_query", bytes "a", by decide, by decide⟩ :=
    if_pos ⟨bytes "NOTICE: make_", by decide⟩
  rcases unshadowed _ first with named | same
  · exact absurd named (by decide)
  · exact absurd same (by decide)

end LogLine

end LogProcess
