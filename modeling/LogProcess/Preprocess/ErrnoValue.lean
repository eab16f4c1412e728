import LogProcess.Preprocess.LogFields

/-! # The second errno

In a log of the new topic the second ` errno[` tells whether a request succeeded.
`preprocess/data_access.cc` and `preprocess/data_preprocess.cc` search for it from a fixed position
on, where the first one usually stands behind, and do not treat `0` as success
(`classifies_iff`).
-/

namespace LogProcess

/-- The positions of ` errno[`. -/
def errnos (body : Str) : List Nat := body.positions (bytes " errno[")

/-- The text behind a ` errno[` at the position, up to a `]` or the end. -/
def errnoValue (body : Str) (position : Nat) : Str :=
  (body.drop (position + (bytes " errno[").length)).takeWhile (· ≠ 93)

/-- There is no second ` errno[`, or its value is empty or `0`. -/
def Succeeds (body : Str) : Prop :=
  ∀ second ∈ (errnos body)[1]?, errnoValue body second = [] ∨ errnoValue body second = bytes "0"

/-- Both functions find no value for exactly the logs of requests that succeeded. -/
def Classifies (regexec : RegExec) (fieldRegexes : OrderedMap Str Str) (body : Str) : Prop :=
  (DataAccesser.getResno true body = true ↔ Succeeds body) ∧
    (((DataPreProcess.getFields regexec body fieldRegexes true).find?
      (bytes "resno")).getD [] = [] ↔ Succeeds body)

/-- The value that is read tells the same as the second one. A first occurrence that is not near
the beginning is read instead of it. -/
def ReadsSecond (body : Str) : Prop :=
  ∀ first ∈ (errnos body)[0]?,
    if first < (bytes " errno[").length then
      ∀ second ∈ (errnos body)[1]?, errnoValue body second ≠ bytes "0"
    else errnoValue body first = [] ↔ Succeeds body

/-- The value that is read: that of the first occurrence, or of the second one when the first one
begins before the start of the search. -/
theorem secondErrno_eq (body : Str) :
    secondErrno body =
      (((errnos body).find? ((bytes " errno[").length ≤ ·)).map (errnoValue body)).getD [] := by
  have found (start : Nat) :
      body.find (bytes " errno[") start = (errnos body).find? (start ≤ ·) :=
    Str.find_eq_find?_positions body (bytes " errno[") start
  rw [secondErrno, found, valueAfter, found]
  cases errnos body with
  | nil => rfl
  | cons first rest =>
      rw [List.find?_cons_of_pos (by simp)]
      rfl

/-- The occurrences of ` errno[` do not overlap. -/
theorem errnos_apart {body : Str} {first second : Nat} {later : List Nat}
    (shape : errnos body = first :: second :: later) :
    first + (bytes " errno[").length ≤ second := by
  have ascending := Str.positions_ascending body (bytes " errno[")
  change (errnos body).Pairwise (· < ·) at ascending
  rw [shape, List.pairwise_cons] at ascending
  have firstMember : first ∈ errnos body := by
    rw [shape]
    exact List.mem_cons_self
  have secondMember : second ∈ errnos body := by
    rw [shape]
    exact List.mem_cons_of_mem _ List.mem_cons_self
  have single : (32 : UInt8) ∉ bytes "errno[" := by decide
  exact Str.length_le_of_positions single firstMember secondMember
    (ascending.1 second List.mem_cons_self)

theorem secondErrno_eq_nil_iff (body : Str) :
    (secondErrno body = [] ↔ Succeeds body) ↔ ReadsSecond body := by
  rw [secondErrno_eq, ReadsSecond]
  cases shape : errnos body with
  | nil => simp [Succeeds, shape]
  | cons first rest =>
      simp only [List.getElem?_cons_zero, Option.mem_def, Option.some.injEq, forall_eq']
      by_cases near : first < (bytes " errno[").length
      · -- the search begins behind the first occurrence
        rw [if_pos near, List.find?_cons_of_neg (by simpa using near), Succeeds, shape]
        cases rest with
        | nil => simp
        | cons second later =>
            have apart := errnos_apart shape
            have behind : (bytes " errno[").length ≤ second :=
              (Nat.le_add_left _ _).trans apart
            rw [List.find?_cons_of_pos (by simpa using behind)]
            simp only [List.getElem?_cons_succ, List.getElem?_cons_zero, Option.map_some,
              Option.getD_some, Option.mem_def, Option.some.injEq, forall_eq']
            refine ⟨fun same zero => ?_, fun nonzero => (or_iff_left nonzero).symm⟩
            have nonempty : bytes "0" ≠ [] := by decide
            exact nonempty (zero.symm.trans (same.mpr (.inr zero)))
      · rw [if_neg near, List.find?_cons_of_pos (by simpa using near)]
        rfl

/-- **Success.** The functions classify a log rightly exactly when the value that they read tells
the same as the second one, and `resno` is configured or the request succeeded. -/
theorem classifies_iff (regexec : RegExec) (fieldRegexes : OrderedMap Str Str) (body : Str) :
    Classifies regexec fieldRegexes body ↔
      ReadsSecond body ∧ ((fieldRegexes.find? (bytes "resno")).isSome ∨ Succeeds body) := by
  rw [Classifies, DataAccesser.getResno, if_pos rfl, decide_eq_true_eq, secondErrno_eq_nil_iff,
    DataPreProcess.find?_getFields]
  refine and_congr_right fun reads => ?_
  cases configured : fieldRegexes.find? (bytes "resno") with
  | none => simp
  | some regex =>
      have value : DataPreProcess.fieldValue regexec body true (bytes "resno") regex =
          secondErrno body := by
        rw [DataPreProcess.fieldValue, if_neg (by decide), if_pos ⟨rfl, rfl⟩]
      rw [Option.map_some, Option.getD_some, value, secondErrno_eq_nil_iff]
      exact iff_of_true reads (.inl rfl)

/-- The first value is read, and `0` is not success. -/
theorem not_classifies_two_errnos :
    ¬Classifies (fun _ _ => none) OrderedMap.empty (bytes "NOTICE: errno[0] errno[0]") := by
  intro classifies
  have succeeds : Succeeds (bytes "NOTICE: errno[0] errno[0]") := by
    intro second found
    have errnos : (errnos (bytes "NOTICE: errno[0] errno[0]"))[1]? = some 16 := by
      decide +kernel
    obtain rfl := Option.some.inj (errnos.symm.trans found)
    exact .inr (by decide)
  exact absurd (classifies.1.mpr succeeds) (by decide +kernel)

end LogProcess
