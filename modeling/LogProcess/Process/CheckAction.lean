import LogProcess.Process.Transmit

/-! # Single conditions

The checks of one condition in `process/process_check_action.cc`. Only the check of the
query can fail: the patterns of a prefix and of a suffix contain the search word as it
is, and `std::regex` refuses some of them (`sewordCheck_eq_error_iff`).
-/

namespace LogProcess

/-- What can go wrong in a check: an exception of `std::regex`, or an access behind the end. -/
inductive CheckFault where
  | regexError
  | outOfRange
  deriving DecidableEq

/-- `std::regex` as far as it is used. Not every pattern compiles, and a search
with one that does may still throw and give no result. -/
structure Regex where
  compiles : Str → Bool
  search : Str → Str → Option Bool

/-- The comparison that four of the checks make. -/
def equalCheck (value expected : Str) (cond : CondType) : Bool :=
  if cond = .condEqual ∧ value = expected then true
  else if cond = .condNotEqual ∧ value ≠ expected then true
  else false

def srcidCheck (srcid : Str) (cfg : SrcidConfig) : Bool :=
  equalCheck srcid cfg.srcid cfg.cond

/-- The pattern for `condIsFront`, where `"\."` is a dot without the backslash. -/
def frontRegstr (searchword : Str) : Str := bytes "^" ++ searchword ++ bytes ".+"

/-- The pattern for `condIsBehind`. -/
def behindRegstr (searchword : Str) : Str := bytes ".+" ++ searchword ++ bytes "$"

/-- The pattern is compiled outside the `try` block, and the search runs inside it. -/
def regexCheck (regex : Regex) (query regstr : Str) : Except CheckFault Bool :=
  if regex.compiles regstr.cstr then pure ((regex.search regstr.cstr query).getD false)
  else throw .regexError

def sewordCheck (regex : Regex) (query : Str) (cfg : ScanCondSeWord) :
    Except CheckFault Bool :=
  let found := (Str.find query cfg.searchword 0).isSome
  if cfg.cond = .condEqual ∧ query = cfg.searchword then pure true
  else if cfg.cond = .condNotEqual ∧ query ≠ cfg.searchword then pure true
  else if cfg.cond = .condIn ∧ found then pure true
  else if cfg.cond = .condNotIn ∧ !found then pure true
  else if cfg.cond = .condIsFront ∧ found then
    regexCheck regex query (frontRegstr cfg.searchword)
  else if cfg.cond = .condIsBehind ∧ found then
    regexCheck regex query (behindRegstr cfg.searchword)
  else pure false

/-- With `condPartEqual` the record is not looked at. -/
def lbsCheck (prov city : Str) (cfg : LocationInfo) : Bool :=
  if cfg.cond = .condNotExist ∧ cfg.province = [] ∧ cfg.city = [] then true
  else if cfg.cond = .condPartEqual ∧ (cfg.province = [] ∨ cfg.city ≠ []) then true
  else if cfg.cond = .condEqual ∧ cfg.province = prov ∧ cfg.city = city then true
  else false

def cookieCheck (cookie : Str) (cfg : CookieConfig) : Bool :=
  if cfg.cond = .condNotExist ∧ cfg.cookie = [] then true
  else if cfg.cond = .condEqual ∧ cfg.cookie = cookie then true
  else false

def clusterCheck (cluster : Str) (cfg : ClusterConfig) : Bool :=
  equalCheck cluster cfg.cluster cfg.cond

def sidCheck (sid : Str) (cfg : SidConfig) : Bool :=
  let found := (Str.find sid cfg.sid 0).isSome
  if cfg.cond = .condEqual ∧ sid = cfg.sid then true
  else if cfg.cond = .condNotIn ∧ !found then true
  else if cfg.cond = .condIn ∧ found then true
  else false

def resnoCheck (resno : Str) (cfg : ResnoConfig) : Bool :=
  equalCheck resno cfg.resno cfg.cond

def typeCheck (type : Str) (cfg : TypeConfig) : Bool :=
  equalCheck type cfg.type cfg.cond

/-- The pattern of the condition compiles, if it has one. -/
def ScanCondSeWord.Compiles (regex : Regex) (cfg : ScanCondSeWord) : Prop :=
  (cfg.cond = .condIsFront → regex.compiles (frontRegstr cfg.searchword).cstr = true) ∧
    (cfg.cond = .condIsBehind → regex.compiles (behindRegstr cfg.searchword).cstr = true)

theorem exists_regexCheck_iff (regex : Regex) (query regstr : Str) :
    (∃ holds, regexCheck regex query regstr = .ok holds) ↔
      regex.compiles regstr.cstr = true := by
  rw [regexCheck]
  split
  · rename_i compiles
    exact iff_of_true ⟨_, rfl⟩ compiles
  · rename_i rejected
    refine iff_of_false ?_ rejected
    intro succeeded
    obtain ⟨holds, answered⟩ := succeeded
    cases answered

/-- **The check of the query answers exactly when the pattern compiles or is not needed,
because the word does not occur in the query.** -/
theorem exists_sewordCheck_iff (regex : Regex) (query : Str) (cfg : ScanCondSeWord) :
    (∃ holds, sewordCheck regex query cfg = .ok holds) ↔
      ((Str.find query cfg.searchword 0).isSome → cfg.Compiles regex) := by
  rw [sewordCheck, ScanCondSeWord.Compiles]
  cases cond : cfg.cond with
  | condIsFront =>
      cases (Str.find query cfg.searchword 0).isSome with
      | false => simp [pure, Except.pure]
      | true => simp [-Bool.exists_bool, exists_regexCheck_iff]
  | condIsBehind =>
      cases (Str.find query cfg.searchword 0).isSome with
      | false => simp [pure, Except.pure]
      | true => simp [-Bool.exists_bool, exists_regexCheck_iff]
  | _ =>
      -- no other condition needs a pattern
      simp only [reduceCtorEq, false_and, ↓reduceIte, true_and, false_implies, and_self,
        implies_true, iff_true]
      first
      | exact ⟨_, rfl⟩
      | split <;> exact ⟨_, rfl⟩

end LogProcess
