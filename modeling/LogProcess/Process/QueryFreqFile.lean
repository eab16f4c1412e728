import LogProcess.Process.QueryFreqStat

/-! # The file of the query frequencies

`Dump` and `Load` of `process/process_stat_query_freq.cc`. Dumping puts no newline between
the entries, and loading skips a line with more than one tab, so the counts come back exactly
when at most one code was counted (`QueryFreqStat.persists_iff`).
-/

namespace LogProcess.QueryFreqStat

/-- The order in which an unordered map iterates over its entries. -/
structure IterationOrder where
  arrange : List (Nat × Nat) → List (Nat × Nat)
  perm : ∀ entries, (arrange entries).Perm entries

/-- The contents of files by name. -/
abbrev Files := Str → Option Str

/-! ### The functions -/

/-- What the loop of `Dump` writes for an entry. -/
def dumpEntry (it : Nat × Nat) : Str :=
  Decimal.text it.1 ++ bytes "\t" ++ Decimal.text it.2

/-- `Dump` with the result of `GetDataFile`: the files after it, without a result when the
traversal throws. -/
def dump (order : IterationOrder) (filename : Str) (qftree : Trie) (files : Files) :
    Option Files := do
  let dumpmap ← qftree.dfs
  if filename ≠ [] then
    some (Function.update files filename (some ((order.arrange dumpmap.entries).flatMap dumpEntry)))
  else
    some files

/-- The loop body of `Load`, without a result when `stoi` throws. -/
def loadLine (qftree : Trie) (line : Str) : Option Trie :=
  if line = [] then some qftree
  else
    match line.splitAt 9 with
    | [first, second] => do
        let hashcode ← Decimal.stoi first
        let times ← Decimal.stoi second
        some ((List.replicate times.toNat (BitVec.ofInt 32 hashcode)).foldl Trie.insert qftree)
    | _ => some qftree

/-- `Load` with the result of `GetDataFile`. The loop does not end when the file cannot be
opened, as the end of the file is never reached. -/
def load (filename : Str) (files : Files) (qftree : Trie) : Option Trie :=
  if filename ≠ [] then
    match files filename with
    | some text => (text.splitAt 10).foldlM loadLine qftree
    | none => none
  else
    some qftree

/-- Dumping some counts and loading them into an empty trie gives them back. -/
def Persists (order : IterationOrder) (filename : Str) (files : Files) (qftree : Trie) : Prop :=
  ∃ written loaded, dump order filename qftree files = some written ∧
    load filename written Trie.new = some loaded ∧
    ∀ hashcode, (loaded.search hashcode).2 = (qftree.search hashcode).2

/-! ### The text of the file -/

theorem notMem_text {char : UInt8} (other : ¬Decimal.isDigit char) (number : Nat) :
    char ∉ Decimal.text number := fun member => other (Decimal.isDigit_of_mem_text member)

theorem newline_notMem_dumpEntry (it : Nat × Nat) : 10 ∉ dumpEntry it := by
  rw [dumpEntry, List.mem_append, List.mem_append, not_or, not_or]
  exact ⟨⟨notMem_text (by decide) _, by decide⟩, notMem_text (by decide) _⟩

theorem count_tab_dumpEntry (it : Nat × Nat) : (dumpEntry it).count 9 = 1 := by
  rw [dumpEntry, List.count_append, List.count_append,
    List.count_eq_zero_of_not_mem (notMem_text (by decide) _),
    List.count_eq_zero_of_not_mem (notMem_text (by decide) _)]
  rfl

/-- The file is one line. -/
theorem splitAt_newline (entries : List (Nat × Nat)) :
    Str.splitAt 10 (entries.flatMap dumpEntry) = [entries.flatMap dumpEntry] := by
  apply Str.splitAt_of_not_mem
  rw [List.mem_flatMap]
  intro newline
  obtain ⟨it, _, newline⟩ := newline
  exact newline_notMem_dumpEntry it newline

theorem count_tab_flatMap (entries : List (Nat × Nat)) :
    (entries.flatMap dumpEntry).count 9 = entries.length := by
  induction entries with
  | nil => rfl
  | cons it rest ih =>
      rw [List.flatMap_cons, List.count_append, count_tab_dumpEntry, ih, List.length_cons,
        Nat.add_comm]

/-- A line with several entries is skipped. -/
theorem loadLine_of_several {entries : List (Nat × Nat)} (several : 2 ≤ entries.length)
    (qftree : Trie) : loadLine qftree (entries.flatMap dumpEntry) = some qftree := by
  rw [loadLine]
  split
  · rfl
  · split
    · rename_i pieces
      have length := Str.length_splitAt 9 (entries.flatMap dumpEntry)
      rw [pieces, count_tab_flatMap] at length
      simp only [List.length_cons, List.length_nil] at length
      omega
    · rfl

/-- A line with one entry is loaded. -/
theorem loadLine_dumpEntry {code : BitVec 32} {times : Nat} (small : code.toNat < 2 ^ 31)
    (counted : times < 2 ^ 31) (qftree : Trie) :
    loadLine qftree (dumpEntry (code.toNat, times)) =
      some ((List.replicate times code).foldl Trie.insert qftree) := by
  have pieces : Str.splitAt 9 (dumpEntry (code.toNat, times)) =
      [Decimal.text code.toNat, Decimal.text times] := by
    rw [dumpEntry, show bytes "\t" = [9] from rfl, List.append_assoc, List.singleton_append,
      Str.splitAt_append, Str.splitAt_of_not_mem (notMem_text (by decide) _),
      Str.splitAt_of_not_mem (notMem_text (by decide) _), List.singleton_append]
  have present : dumpEntry (code.toNat, times) ≠ [] := by
    rw [dumpEntry]
    exact List.append_ne_nil_of_right_ne_nil _ (Decimal.text_ne_nil _)
  rw [loadLine, if_neg present, pieces]
  simp only [Decimal.stoi_text small, Decimal.stoi_text counted, Option.bind_eq_bind,
    Option.bind_some, Int.toNat_natCast, BitVec.ofInt_natCast, BitVec.ofNat_toNat,
    BitVec.setWidth_eq]

/-! ### The round trip -/

/-- What loading the dumped file does. -/
theorem persists_iff_loadLine {order : IterationOrder} {filename : Str} {files : Files}
    {qftree : Trie} {dumpmap : OrderedMap Nat Nat} (named : filename ≠ [])
    (traversed : qftree.dfs = some dumpmap) :
    Persists order filename files qftree ↔
      ∃ loaded, loadLine Trie.new ((order.arrange dumpmap.entries).flatMap dumpEntry) =
        some loaded ∧ ∀ hashcode, (loaded.search hashcode).2 = (qftree.search hashcode).2 := by
  simp only [Persists, dump, load, traversed, named, Option.bind_eq_bind, Option.bind_some, ne_eq,
    not_false_eq_true, ↓reduceIte, Option.some.injEq, exists_and_left, exists_eq_left',
    Function.update_self, splitAt_newline, List.foldlM_cons, List.foldlM_nil, bind_pure]

section Entries

variable {codes : List (BitVec 32)} {entries : List (Nat × Nat)}
  (counted : ∀ entry, entry ∈ entries ↔
    ∃ code ∈ codes, entry = (code.toNat, codes.count code % 2 ^ 32))

include counted

/-- The entries of several codes. -/
theorem two_le_length {first second : BitVec 32} (firstMember : first ∈ codes)
    (secondMember : second ∈ codes) (different : first ≠ second) : 2 ≤ entries.length := by
  have entered := (counted _).mpr ⟨first, firstMember, rfl⟩
  have other := (counted _).mpr ⟨second, secondMember, rfl⟩
  have some := List.length_pos_of_mem entered
  by_contra single
  obtain ⟨entry, rfl⟩ := List.length_eq_one_iff.mp (show entries.length = 1 by omega)
  rw [List.mem_singleton] at entered other
  exact different (BitVec.eq_of_toNat_eq (congrArg Prod.fst (entered.trans other.symm)))

/-- The entry of a single code. -/
theorem eq_singleton_of_forall_eq {code : BitVec 32} (nodup : entries.Nodup) (member : code ∈ codes)
    (same : ∀ other ∈ codes, other = code) :
    entries = [(code.toNat, codes.count code % 2 ^ 32)] := by
  rw [← List.perm_singleton, List.perm_ext_iff_of_nodup nodup (List.nodup_singleton _)]
  intro entry
  rw [counted, List.mem_singleton]
  refine ⟨fun entered => ?_, fun entered => ⟨code, member, entered⟩⟩
  obtain ⟨other, otherMember, rfl⟩ := entered
  rw [same other otherMember]

end Entries

section RoundTrip

variable {order : IterationOrder} {filename : Str} {files : Files} {codes : List (BitVec 32)}
  (named : filename ≠ []) (small : ∀ code ∈ codes, code.toNat < 2 ^ 31)
  (counts : ∀ code ∈ codes, codes.count code < 2 ^ 31)

include small in
variable (order) in
/-- The entries that are dumped. -/
theorem exists_entries : ∃ dumpmap, (codes.foldl Trie.insert Trie.new).dfs = some dumpmap ∧
    (order.arrange dumpmap.entries).Nodup ∧ ∀ entry, entry ∈ order.arrange dumpmap.entries ↔
      ∃ code ∈ codes, entry = (code.toNat, codes.count code % 2 ^ 32) := by
  obtain ⟨dumpmap, traversed, counted⟩ := Trie.exists_dfs_foldl_insert small
  have perm := order.perm dumpmap.entries
  refine ⟨dumpmap, traversed, perm.nodup_iff.mpr ?_,
    fun entry => perm.mem_iff.trans (counted entry)⟩
  exact dumpmap.ascending.imp fun less same => absurd (same ▸ less) (lt_irrefl _)

include named small counts

/-- Several codes are on one line, which is skipped. -/
theorem eq_of_persists
    (persists : Persists order filename files (codes.foldl Trie.insert Trie.new))
    {first second : BitVec 32} (firstMember : first ∈ codes) (secondMember : second ∈ codes) :
    first = second := by
  by_contra different
  obtain ⟨dumpmap, traversed, _, counted⟩ := exists_entries order small
  obtain ⟨loaded, line, found⟩ := (persists_iff_loadLine named traversed).mp persists
  rw [loadLine_of_several (two_le_length counted firstMember secondMember different),
    Option.some.injEq] at line
  have empty := Trie.search_foldl_insert_snd [] first
  rw [List.foldl_nil, List.count_nil, line, found, Trie.search_foldl_insert_snd] at empty
  have once := List.count_pos_iff.mpr firstMember
  have bounded := counts first firstMember
  omega

theorem persists_of_single {code : BitVec 32} (member : code ∈ codes)
    (only : ∀ other ∈ codes, other = code) :
    Persists order filename files (codes.foldl Trie.insert Trie.new) := by
  obtain ⟨dumpmap, traversed, nodup, counted⟩ := exists_entries order small
  have copies : codes = List.replicate codes.length code := List.eq_replicate_of_mem only
  have all : codes.count code = codes.length :=
    List.count_eq_length.mpr fun other member => (only other member).symm
  have bounded := counts code member
  rw [persists_iff_loadLine named traversed, eq_singleton_of_forall_eq counted nodup member only,
    List.flatMap_singleton, Nat.mod_eq_of_lt (by omega), loadLine_dumpEntry (small code member)
    bounded, all, ← copies]
  exact ⟨_, rfl, fun _ => rfl⟩

end RoundTrip

/-- An empty file loads nothing. -/
theorem persists_new {order : IterationOrder} {filename : Str} {files : Files}
    (named : filename ≠ []) : Persists order filename files Trie.new := by
  obtain ⟨dumpmap, traversed, _, counted⟩ :=
    exists_entries order (List.forall_mem_nil _)
  have none : order.arrange dumpmap.entries = [] :=
    List.eq_nil_iff_forall_not_mem.mpr fun entry entered => by
      obtain ⟨code, member, _⟩ := (counted entry).mp entered
      exact absurd member List.not_mem_nil
  refine (persists_iff_loadLine named traversed).mpr ⟨Trie.new, ?_, fun _ => rfl⟩
  rw [none]
  rfl

/-- **The counts are persisted exactly when they are counts of one code or none.** -/
theorem persists_iff (order : IterationOrder) (filename : Str) (files : Files)
    (codes : List (BitVec 32)) (named : filename ≠ []) (small : ∀ code ∈ codes, code.toNat < 2 ^ 31)
    (counts : ∀ code ∈ codes, codes.count code < 2 ^ 31) :
    Persists order filename files (codes.foldl Trie.insert Trie.new) ↔
      ∀ first ∈ codes, ∀ second ∈ codes, first = second := by
  refine ⟨fun persists first firstMember second secondMember =>
    eq_of_persists named small counts persists firstMember secondMember, fun same => ?_⟩
  cases codes with
  | nil => exact persists_new named
  | cons code rest =>
      exact persists_of_single named small counts List.mem_cons_self fun other member =>
        same other member code List.mem_cons_self

/-- One code that was counted twice. -/
theorem persists_one_code :
    Persists ⟨id, .refl⟩ (bytes "query_stat") (fun _ => none)
      ([7, 7].foldl Trie.insert Trie.new) :=
  (persists_iff _ _ _ [7, 7] (by decide) (by simp) (by simp)).mpr (by simp)

/-- Two codes are dumped as `7`, a tab, `18`, a tab and `1`, and not loaded. -/
theorem not_persists_two_codes :
    ¬Persists ⟨id, .refl⟩ (bytes "query_stat") (fun _ => none)
      ([7, 8].foldl Trie.insert Trie.new) := by
  intro persists
  have same : (7 : BitVec 32) = 8 := eq_of_persists (by decide) (by simp)
    (by simp) persists (by simp) (by simp)
  exact absurd same (by decide)

end LogProcess.QueryFreqStat
