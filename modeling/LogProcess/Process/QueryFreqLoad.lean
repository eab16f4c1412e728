import LogProcess.Process.QueryFreqFile
import LogProcess.Foundation.InputStream
import LogProcess.Foundation.Loop

/-! # The read loop of the query frequencies

`Load` of `process/process_stat_query_freq.cc` reads lines until the end of the file was reached.
A file that cannot be opened has no end to reach, and the loop skips the same empty line forever
(`QueryFreqStat.loadEnds_iff`). From other files it loads their lines
(`QueryFreqStat.gives_load`).
-/

namespace LogProcess.QueryFreqStat

open Loop (Round Gives Ends gives_of_done gives_of_next not_ends_of_forever)

/-- What the loop of `Load` changes. -/
structure LoadState where
  ifs : InputStream
  line : Str
  qftree : Trie

/-- A round of the loop. It has no trie when `stoi` throws. -/
def loadRound (state : LoadState) : Round LoadState (Option Trie) :=
  if state.ifs.eofbit then .done (some state.qftree)
  else
    let (line, ifs) := state.ifs.getline state.line
    match loadLine state.qftree line with
    | some qftree => .next ⟨ifs, line, qftree⟩
    | none => .done none

/-- The loop from its beginning. -/
def LoadEnds (files : Files) (filename : Str) (qftree : Trie) : Prop :=
  Ends loadRound ⟨InputStream.ofFile (files filename), [], qftree⟩

section Round

variable {state : LoadState} {line : Str} {ifs : InputStream}
  (unended : state.ifs.eofbit = false) (read : state.ifs.getline state.line = (line, ifs))

include unended read

theorem loadRound_eq_next {qftree : Trie} (loaded : loadLine state.qftree line = some qftree) :
    loadRound state = .next ⟨ifs, line, qftree⟩ := by
  simp only [loadRound, unended, Bool.false_eq_true, ↓reduceIte, read, loaded]

theorem loadRound_eq_done (thrown : loadLine state.qftree line = none) :
    loadRound state = .done none := by
  simp only [loadRound, unended, Bool.false_eq_true, ↓reduceIte, read, thrown]

end Round

/-- The loop loads the lines of a good stream. -/
theorem gives_foldlM (text line : Str) (qftree : Trie) :
    Gives loadRound ⟨⟨text, false, false⟩, line, qftree⟩
      ((text.splitAt 10).foldlM loadLine qftree) := by
  induction length : text.length using Nat.strongRecOn generalizing text line qftree with
  | ind _ ih =>
      rcases InputStream.getline_good text line with
        ⟨failbit, read, pieces⟩ | ⟨extracted, rest, read, pieces, shorter⟩
      · rw [pieces, List.foldlM_cons]
        cases loaded : loadLine qftree text with
        | none => exact gives_of_done (loadRound_eq_done rfl read loaded)
        | some qftree' =>
            have last : loadRound ⟨⟨[], true, failbit⟩, text, qftree'⟩ = .done (some qftree') := rfl
            exact gives_of_next (loadRound_eq_next rfl read loaded) (gives_of_done last)
      · rw [pieces, List.foldlM_cons]
        cases loaded : loadLine qftree extracted with
        | none => exact gives_of_done (loadRound_eq_done rfl read loaded)
        | some qftree' =>
            have later := ih rest.length (length ▸ shorter) rest extracted qftree' rfl
            exact gives_of_next (loadRound_eq_next rfl read loaded) later

/-- The loop gives what loading the text gives. -/
theorem gives_load {files : Files} {filename text : Str} (named : filename ≠ [])
    (readable : files filename = some text) (qftree : Trie) :
    Gives loadRound ⟨InputStream.ofFile (files filename), [], qftree⟩
      (load filename files qftree) := by
  rw [load, if_pos named, readable]
  exact gives_foldlM text [] qftree

/-- A stream that was not opened stays as it is, and so does the empty line. -/
theorem not_loadEnds_of_missing {files : Files} {filename : Str} (missing : files filename = none)
    (qftree : Trie) : ¬LoadEnds files filename qftree := by
  have forever (state : LoadState) (same : state = ⟨InputStream.ofFile none, [], qftree⟩) :
      ∃ next, loadRound state = .next next ∧ next = ⟨InputStream.ofFile none, [], qftree⟩ := by
    rw [same]
    exact ⟨_, loadRound_eq_next rfl (InputStream.getline_of_failbit rfl []) rfl, rfl⟩
  rw [LoadEnds, missing]
  exact not_ends_of_forever forever rfl

/-- **Termination.** The loop ends exactly when the file can be opened. -/
theorem loadEnds_iff (files : Files) (filename : Str) (qftree : Trie) :
    LoadEnds files filename qftree ↔ (files filename).isSome := by
  cases found : files filename with
  | none => exact iff_of_false (not_loadEnds_of_missing found qftree) Bool.false_ne_true
  | some text =>
      rw [LoadEnds, found]
      exact iff_of_true ⟨_, gives_foldlM text [] qftree⟩ rfl

/-- Without any files the loop does not end. -/
theorem not_loadEnds_freq : ¬LoadEnds (fun _ => none) (bytes "freq") Trie.new :=
  not_loadEnds_of_missing rfl Trie.new

end LogProcess.QueryFreqStat
