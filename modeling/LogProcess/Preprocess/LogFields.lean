import LogProcess.Foundation.OrderedMap
import LogProcess.Foundation.Bytes

/-! # Fields of log lines

How `preprocess/data_access.cc` and `preprocess/data_preprocess.cc` take values out of the text
of a record. A value stands between a search text such as `srcid[` and the next `]`.
-/

namespace LogProcess

/-- `regcomp` of an extended pattern and `regexec` on a null-terminated text: where the match
begins and ends. -/
abbrev RegExec : Type := Str → Str → Option (Nat × Nat)

/-- The text behind the first occurrence of the search text from `start` on, up to a `]`. -/
def valueAfter (body search : Str) (start : Nat) : Option Str :=
  (body.find search start).map fun idx => (body.drop (idx + search.length)).takeWhile (· ≠ 93)

/-- The value of the second `errno`, which is searched for from behind the length of the search
text. The comparison of the value with `0` has no effect. -/
def secondErrno (body : Str) : Str :=
  match body.find (bytes " errno[") 0 with
  | none => []
  | some _ => (valueAfter body (bytes " errno[") (bytes " errno[").length).getD []

/-- The time that matches the pattern, with the century and without the seconds. -/
def minuteText (regexec : RegExec) (pattern body : Str) : Str :=
  match regexec pattern body.cstr with
  | none => []
  | some (rmSo, rmEo) =>
      let value := bytes "20" ++ (body.drop rmSo).take (rmEo - rmSo)
      value.take (value.length - 2) ++ bytes "00"

namespace DataAccesser

/-- `filter`, where `judge` is the test of the filter for a srcid. -/
def filter (judge : Str → Bool) (msg : Str) : Bool :=
  if (msg.find (bytes "WARNING") 0).isSome then false
  else judge ((valueAfter msg (bytes "srcid[") 0).getD [])

def getSrcid (body : Str) : Str := (valueAfter body (bytes "srcid[") 0).getD []

def getTimestamp (regexec : RegExec) (body : Str) : Str :=
  minuteText regexec (bytes "([0-9]+-[0-9]+-[0-9]+ [0-9]+:[0-9]+:[0-9]+)") body

/-- `Get_Resno`, which is true when there is no value. -/
def getResno (type : Bool) (body : Str) : Bool :=
  (if type then secondErrno body else (valueAfter body (bytes "resno[") 0).getD []) = []

end DataAccesser

namespace DataPreProcess

/-- `GetSrcid`, which always succeeds. -/
def getSrcid (body : Str) : Str := (valueAfter body (bytes "srcid[") 0).getD []

/-- The value that the loop of `GetFields` finds for a field. -/
def fieldValue (regexec : RegExec) (body : Str) (type : Bool) (field regex : Str) : Str :=
  if field = bytes "timestamp" then minuteText regexec regex body
  else if type = true ∧ field = bytes "resno" then secondErrno body
  else
    let search := if field = bytes "sid" then bytes " sid[" else field ++ bytes "["
    (valueAfter body search 0).getD []

def getFields (regexec : RegExec) (body : Str) (fieldRegexes : OrderedMap Str Str)
    (type : Bool) : OrderedMap Str Str :=
  fieldRegexes.entries.foldl
    (fun result fit => result.assign fit.1 (fieldValue regexec body type fit.1 fit.2))
    OrderedMap.empty

/-- Every configured field has the value that was found for it. -/
theorem find?_getFields (regexec : RegExec) (body : Str) (fieldRegexes : OrderedMap Str Str)
    (type : Bool) (field : Str) :
    (getFields regexec body fieldRegexes type).find? field =
      (fieldRegexes.find? field).map (fieldValue regexec body type field) :=
  fieldRegexes.find?_foldl_assign_entries (fieldValue regexec body type) field

end DataPreProcess

end LogProcess
