import LogProcess.Foundation.Bytes

/-! # Input streams

An input stream of the standard library with two of its state bits, and `std::getline`. Reading
the lines of a text one after the other gives its pieces (`InputStream.getline_good`).
-/

structure InputStream where
  /-- what was not extracted yet -/
  rest : Str
  eofbit : Bool
  failbit : Bool

namespace InputStream

/-- Opening a file, which fails when there is nothing to read. -/
def ofFile : Option Str → InputStream
  | some text => ⟨text, false, false⟩
  | none => ⟨[], false, true⟩

/-- `std::getline`: the line and the stream after it. A stream that is not good keeps the line. -/
def getline (stream : InputStream) (line : Str) : Str × InputStream :=
  if stream.eofbit ∨ stream.failbit then (line, { stream with failbit := true })
  else
    let extracted := stream.rest.takeWhile (· ≠ 10)
    match stream.rest.dropWhile (· ≠ 10) with
    | [] => (extracted, ⟨[], true, extracted = []⟩)
    | _ :: rest => (extracted, ⟨rest, false, false⟩)

theorem getline_of_failbit {stream : InputStream} (failed : stream.failbit = true) (line : Str) :
    stream.getline line = (line, stream) := by
  rw [getline, if_pos (.inr failed), ← failed]

/-- From a good stream the first piece of the text is read. The end of the file is reached with
the last piece. -/
theorem getline_good (text line : Str) :
    (∃ failbit, getline ⟨text, false, false⟩ line = (text, ⟨[], true, failbit⟩) ∧
      text.splitAt 10 = [text]) ∨
    ∃ extracted rest, getline ⟨text, false, false⟩ line = (extracted, ⟨rest, false, false⟩) ∧
      text.splitAt 10 = extracted :: rest.splitAt 10 ∧ rest.length < text.length := by
  have free : 10 ∉ text.takeWhile (· ≠ 10) := fun member => by
    simpa using List.mem_takeWhile_imp member
  have parts := List.takeWhile_append_dropWhile (p := fun char : UInt8 => char ≠ 10) (l := text)
  rw [getline, if_neg (by simp)]
  cases behind : text.dropWhile (· ≠ 10) with
  | nil =>
      rw [behind, List.append_nil] at parts
      rw [parts] at free ⊢
      exact .inl ⟨_, rfl, Str.splitAt_of_not_mem free⟩
  | cons newline rest =>
      have separator : newline = 10 := by
        have first := List.head?_dropWhile_not (fun char : UInt8 => char ≠ 10) text
        rw [behind, List.head?_cons] at first
        simpa using first
      rw [behind, separator] at parts
      refine .inr ⟨_, rest, rfl, ?_, ?_⟩
      · conv_lhs => rw [← parts]
        rw [Str.splitAt_append, Str.splitAt_of_not_mem free, List.singleton_append]
      · have length := congrArg List.length parts
        rw [List.length_append, List.length_cons] at length
        omega

end InputStream
