import Mathlib

/-! # Finite maps in ascending key order

A finite map is the list of its entries in strictly ascending key order, so it
has one representation and an iteration order. Lookup, assignment, insertion,
removal and the lower bound of a key are described by the entries they keep
(`OrderedMap.mem_assign`, `OrderedMap.entries_erase`, `OrderedMap.lowerBound_eq_some_iff`).
-/

/-- A finite map whose entries are listed in strictly ascending key order. -/
@[ext] structure OrderedMap (Key Value : Type*) [LinearOrder Key] where
  entries : List (Key × Value)
  ascending : entries.Pairwise fun first second => first.1 < second.1

namespace OrderedMap

variable {Key Value : Type*} [LinearOrder Key]

instance [DecidableEq Value] : DecidableEq (OrderedMap Key Value) := fun first second =>
  decidable_of_iff (first.entries = second.entries) <| by
    cases first
    cases second
    simp only [mk.injEq]

/-- The map without entries. -/
def empty : OrderedMap Key Value := ⟨[], List.Pairwise.nil⟩

/-- The value stored under a key. -/
def find? (map : OrderedMap Key Value) (key : Key) : Option Value :=
  (map.entries.find? fun entry => entry.1 = key).map Prod.snd

/-- Store a value under a key, replacing an earlier value of the key. -/
def assign (map : OrderedMap Key Value) (key : Key) (value : Value) : OrderedMap Key Value where
  entries := map.entries.filter (fun entry => entry.1 < key) ++
    (key, value) :: map.entries.filter (fun entry => key < entry.1)
  ascending := by
    rw [List.pairwise_append, List.pairwise_cons]
    refine ⟨map.ascending.filter _, ⟨?_, map.ascending.filter _⟩, ?_⟩
    · intro entry member
      exact of_decide_eq_true (List.mem_filter.mp member).2
    · intro first below second member
      have less : first.1 < key := of_decide_eq_true (List.mem_filter.mp below).2
      rcases List.mem_cons.mp member with rfl | above
      · exact less
      · exact less.trans (of_decide_eq_true (List.mem_filter.mp above).2)

/-- Keep the entries that satisfy a predicate. -/
def filter (map : OrderedMap Key Value) (keep : Key × Value → Bool) : OrderedMap Key Value :=
  ⟨map.entries.filter keep, map.ascending.filter _⟩

/-- Remove a key. -/
def erase (map : OrderedMap Key Value) (key : Key) : OrderedMap Key Value :=
  map.filter fun entry => entry.1 ≠ key

/-- Store a value under a key that has none; an earlier value stays. -/
def insertNew (map : OrderedMap Key Value) (key : Key) (value : Value) : OrderedMap Key Value :=
  if (map.find? key).isSome then map else map.assign key value

/-- The first entry whose key is not below the given one. -/
def lowerBound (map : OrderedMap Key Value) (key : Key) : Option (Key × Value) :=
  map.entries.find? fun entry => key ≤ entry.1

/-- The values of the keys between two bounds, in ascending key order. -/
def between (map : OrderedMap Key Value) (first last : Key) : List Value :=
  (map.entries.filter fun entry => first ≤ entry.1 ∧ entry.1 ≤ last).map Prod.snd

/-- Apply a function to every value. -/
def mapValues {Result : Type*} (map : OrderedMap Key Value) (change : Value → Result) :
    OrderedMap Key Result where
  entries := map.entries.map fun entry => (entry.1, change entry.2)
  ascending := List.pairwise_map.mpr map.ascending

/-- The keys in ascending order. -/
def keys (map : OrderedMap Key Value) : List Key := map.entries.map Prod.fst

/-- Store a list of entries one after the other. -/
def ofList (entries : List (Key × Value)) : OrderedMap Key Value :=
  entries.foldl (fun map entry => map.assign entry.1 entry.2) empty

@[simp] theorem find?_empty (key : Key) : (empty : OrderedMap Key Value).find? key = none := rfl

/-! ### Membership and lookup -/

/-- Two entries with one key are one entry. -/
theorem eq_of_mem (map : OrderedMap Key Value) {first second : Key × Value}
    (firstMember : first ∈ map.entries) (secondMember : second ∈ map.entries)
    (same : first.1 = second.1) : first = second := by
  have distinct : (map.entries.map Prod.fst).Nodup :=
    List.pairwise_map.mpr (map.ascending.imp fun less => less.ne)
  exact List.inj_on_of_nodup_map distinct firstMember secondMember same

/-- A lookup returns exactly the stored entry. -/
theorem find?_eq_some_iff (map : OrderedMap Key Value) (key : Key) (value : Value) :
    map.find? key = some value ↔ (key, value) ∈ map.entries := by
  unfold find?
  refine ⟨?_, ?_⟩
  · intro found
    obtain ⟨entry, search, rfl⟩ := Option.map_eq_some_iff.mp found
    have named : entry.1 = key := of_decide_eq_true
      (List.find?_some (p := fun entry : Key × Value => decide (entry.1 = key)) search)
    rw [← named]
    exact List.mem_of_find?_eq_some search
  · intro member
    cases search : map.entries.find? fun entry => entry.1 = key with
    | none =>
        have absent := List.find?_eq_none.mp search (key, value) member
        simp only [decide_true, not_true_eq_false] at absent
    | some entry =>
        have named : entry.1 = key := of_decide_eq_true
          (List.find?_some (p := fun entry : Key × Value => decide (entry.1 = key)) search)
        rw [map.eq_of_mem (List.mem_of_find?_eq_some search) member named]
        rfl

/-- A lookup fails exactly when no entry has the key. -/
theorem find?_eq_none_iff (map : OrderedMap Key Value) (key : Key) :
    map.find? key = none ↔ ∀ entry ∈ map.entries, entry.1 ≠ key := by
  simp only [find?, Option.map_eq_none_iff, List.find?_eq_none, decide_eq_true_eq, ne_eq]

/-- Lists of entries in strictly ascending key order with the same members are equal. -/
theorem eq_of_mem_iff {first second : List (Key × Value)}
    (firstAscending : first.Pairwise fun entry other => entry.1 < other.1)
    (secondAscending : second.Pairwise fun entry other => entry.1 < other.1)
    (same : ∀ entry, entry ∈ first ↔ entry ∈ second) : first = second := by
  have distinct {entries : List (Key × Value)}
      (ascending : entries.Pairwise fun entry other => entry.1 < other.1) : entries.Nodup :=
    ascending.imp fun less equal => less.ne (congrArg Prod.fst equal)
  have permuted := (List.perm_ext_iff_of_nodup (distinct firstAscending)
    (distinct secondAscending)).mpr same
  exact permuted.eq_of_pairwise (fun _ _ _ _ less greater => absurd less greater.asymm)
    firstAscending secondAscending

/-! ### Assignment, insertion and removal -/

theorem mem_assign (map : OrderedMap Key Value) (key : Key) (value : Value)
    (entry : Key × Value) :
    entry ∈ (map.assign key value).entries ↔
      entry = (key, value) ∨ (entry ∈ map.entries ∧ entry.1 ≠ key) := by
  simp only [assign, List.mem_append, List.mem_filter, List.mem_cons, decide_eq_true_eq,
    ne_iff_lt_or_gt]
  tauto

/-- An assigned key reads the assigned value and every other key its own. -/
theorem find?_assign (map : OrderedMap Key Value) (key : Key) (value : Value) (query : Key) :
    (map.assign key value).find? query = if query = key then some value else map.find? query := by
  by_cases same : query = key
  · subst same
    rw [if_pos rfl, find?_eq_some_iff, mem_assign]
    exact Or.inl rfl
  · rw [if_neg same]
    ext result
    rw [find?_eq_some_iff, find?_eq_some_iff, mem_assign]
    simp only [Prod.mk.injEq, same, false_and, false_or, ne_eq, not_false_eq_true, and_true]

@[simp] theorem find?_assign_self (map : OrderedMap Key Value) (key : Key) (value : Value) :
    (map.assign key value).find? key = some value := by
  rw [find?_assign, if_pos rfl]

theorem find?_assign_of_ne (map : OrderedMap Key Value) {key query : Key} (value : Value)
    (other : query ≠ key) : (map.assign key value).find? query = map.find? query := by
  rw [find?_assign, if_neg other]

/-- Assigning entries with different keys one after the other. -/
theorem find?_foldl_assign {Result : Type*} (change : Key → Value → Result)
    {entries : List (Key × Value)} (ascending : entries.Pairwise fun first second =>
      first.1 < second.1) (start : OrderedMap Key Result) (query : Key) :
    (entries.foldl (fun result entry => result.assign entry.1 (change entry.1 entry.2))
      start).find? query =
      ((entries.find? fun entry => entry.1 = query).map fun entry => change query entry.2).or
        (start.find? query) := by
  induction entries generalizing start with
  | nil => rfl
  | cons entry rest ih =>
      rw [List.pairwise_cons] at ascending
      rw [List.foldl_cons, ih ascending.2, find?_assign]
      by_cases same : entry.1 = query
      · have absent : rest.find? (fun entry => entry.1 = query) = none := by
          rw [List.find?_eq_none]
          intro other member
          simpa only [decide_eq_true_eq, same] using (ascending.1 other member).ne'
        rw [absent, List.find?_cons_of_pos (by simpa using same), if_pos same.symm, same]
        rfl
      · rw [List.find?_cons_of_neg (by simpa using same), if_neg (Ne.symm same)]

/-- Computing a new value for every key. -/
theorem find?_foldl_assign_entries {Result : Type*} (map : OrderedMap Key Value)
    (change : Key → Value → Result) (query : Key) :
    (map.entries.foldl (fun result entry => result.assign entry.1 (change entry.1 entry.2))
      empty).find? query = (map.find? query).map (change query) := by
  rw [find?_foldl_assign change map.ascending, find?_empty, Option.or_none, find?, Option.map_map]
  rfl

theorem find?_ofList_concat (front : List (Key × Value)) (last : Key × Value) (query : Key) :
    (ofList (front ++ [last])).find? query =
      if query = last.1 then some last.2 else (ofList front).find? query := by
  rw [ofList, List.foldl_concat, find?_assign, ofList]

/-- What is found is one of the entries. -/
theorem mem_of_find?_ofList {entries : List (Key × Value)} {key : Key} {value : Value}
    (found : (ofList entries).find? key = some value) : (key, value) ∈ entries := by
  induction entries using List.reverseRecOn with
  | nil => exact absurd found (Option.some_ne_none _).symm
  | append_singleton front last ih =>
      rw [find?_ofList_concat] at found
      split_ifs at found with same
      · rw [List.mem_append, List.mem_singleton]
        exact .inr (Prod.ext same (Option.some.inj found).symm)
      · exact List.mem_append_left _ (ih found)

/-- Entries with different keys are found under them. -/
theorem find?_ofList_eq_some_iff {entries : List (Key × Value)}
    (different : (entries.map Prod.fst).Nodup) (key : Key) (value : Value) :
    (ofList entries).find? key = some value ↔ (key, value) ∈ entries := by
  refine ⟨mem_of_find?_ofList, fun listed => ?_⟩
  induction entries using List.reverseRecOn with
  | nil => exact absurd listed List.not_mem_nil
  | append_singleton front last ih =>
      rw [List.map_append, List.nodup_append] at different
      rw [find?_ofList_concat]
      rcases List.mem_append.mp listed with early | final
      · have other : key ≠ last.1 :=
          different.2.2 _ (List.mem_map_of_mem early) _ (List.mem_singleton_self _)
        rw [if_neg other, ih different.1 early]
      · obtain rfl := List.mem_singleton.mp final
        exact if_pos rfl

/-- Computing a new value for every entry. -/
theorem find?_ofList_map {Result : Type*} (entries : List (Key × Value))
    (change : Key → Value → Result) (query : Key) :
    (ofList (entries.map fun entry => (entry.1, change entry.1 entry.2))).find? query =
      ((ofList entries).find? query).map (change query) := by
  induction entries using List.reverseRecOn with
  | nil => rfl
  | append_singleton front last ih =>
      rw [List.map_append, List.map_singleton, find?_ofList_concat, find?_ofList_concat, ih]
      by_cases same : query = last.1
      · rw [if_pos same, if_pos same, same, Option.map_some]
      · rw [if_neg same, if_neg same]

/-- Insertion keeps an earlier value of the key. -/
theorem find?_insertNew (map : OrderedMap Key Value) (key : Key) (value : Value) (query : Key) :
    (map.insertNew key value).find? query =
      if query = key then some ((map.find? key).getD value) else map.find? query := by
  unfold insertNew
  cases found : map.find? key with
  | none => simp only [Option.isSome_none, Bool.false_eq_true, ↓reduceIte, find?_assign,
      Option.getD_none]
  | some earlier =>
      by_cases same : query = key
      · simp only [Option.isSome_some, ↓reduceIte, same, found, Option.getD_some]
      · simp only [Option.isSome_some, ↓reduceIte, same]

theorem insertNew_of_find?_eq_none {map : OrderedMap Key Value} {key : Key}
    (absent : map.find? key = none) (value : Value) :
    map.insertNew key value = map.assign key value := by
  simp only [insertNew, absent, Option.isSome_none, Bool.false_eq_true, ↓reduceIte]

/-- An entry after an insertion is an old one or the inserted one. -/
theorem mem_of_mem_insertNew {map : OrderedMap Key Value} {key : Key} {value : Value}
    {entry : Key × Value} (member : entry ∈ (map.insertNew key value).entries) :
    entry ∈ map.entries ∨ entry = (key, value) := by
  unfold insertNew at member
  split at member
  · exact Or.inl member
  · rw [mem_assign] at member
    exact member.symm.imp_left And.left

@[simp] theorem find?_insertNew_self (map : OrderedMap Key Value) (key : Key) (value : Value) :
    (map.insertNew key value).find? key = some ((map.find? key).getD value) := by
  rw [find?_insertNew, if_pos rfl]

theorem find?_insertNew_of_ne (map : OrderedMap Key Value) {key query : Key} (value : Value)
    (other : query ≠ key) : (map.insertNew key value).find? query = map.find? query := by
  rw [find?_insertNew, if_neg other]

/-- A removed key reads nothing and every other key its own value. -/
theorem find?_erase (map : OrderedMap Key Value) (key query : Key) :
    (map.erase key).find? query = if query = key then none else map.find? query := by
  ext result
  rw [find?_eq_some_iff, erase, filter, List.mem_filter, ← find?_eq_some_iff]
  by_cases same : query = key
  · simp only [same, ne_eq, not_true_eq_false, decide_false, Bool.false_eq_true, and_false,
      ↓reduceIte, reduceCtorEq]
  · simp only [same, ne_eq, not_false_eq_true, decide_true, and_true, ↓reduceIte]

@[simp] theorem find?_erase_self (map : OrderedMap Key Value) (key : Key) :
    (map.erase key).find? key = none := by
  rw [find?_erase, if_pos rfl]

theorem find?_erase_of_ne (map : OrderedMap Key Value) {key query : Key} (other : query ≠ key) :
    (map.erase key).find? query = map.find? query := by
  rw [find?_erase, if_neg other]

/-- Only the kept entries are read. -/
theorem find?_filter (map : OrderedMap Key Value) (keep : Key × Value → Bool) (key : Key) :
    (map.filter keep).find? key = (map.find? key).filter fun value => keep (key, value) := by
  ext value
  rw [find?_eq_some_iff, filter, List.mem_filter, ← find?_eq_some_iff, Option.filter_eq_some_iff]

/-- Maps that read the same are equal. -/
theorem ext_find? {first second : OrderedMap Key Value}
    (same : ∀ key, first.find? key = second.find? key) : first = second := by
  apply OrderedMap.ext
  apply eq_of_mem_iff first.ascending second.ascending
  intro entry
  rw [← find?_eq_some_iff, ← find?_eq_some_iff, same]

/-! ### Keys -/

theorem nodup_keys (map : OrderedMap Key Value) : map.keys.Nodup :=
  List.pairwise_map.mpr (map.ascending.imp fun less => less.ne)

theorem mem_keys_iff (map : OrderedMap Key Value) (key : Key) :
    key ∈ map.keys ↔ (map.find? key).isSome := by
  rw [keys, List.mem_map, Option.isSome_iff_exists]
  simp only [find?_eq_some_iff, Prod.exists, exists_and_right, exists_eq_right]

/-- Maps with the same keys list them alike. -/
theorem keys_eq_iff {Other : Type*} (map : OrderedMap Key Value) (other : OrderedMap Key Other) :
    map.keys = other.keys ↔ ∀ key, (map.find? key).isSome ↔ (other.find? key).isSome := by
  simp only [← mem_keys_iff]
  refine ⟨fun same key => by rw [same], fun same => ?_⟩
  exact List.Pairwise.eq_of_mem_iff (List.pairwise_map.mpr map.ascending)
    (List.pairwise_map.mpr other.ascending) same

section SameKeys

variable {Other : Type*} {map : OrderedMap Key Value} {other : OrderedMap Key Other}

theorem keys_assign_congr (same : map.keys = other.keys) (key : Key) (value : Value)
    (value' : Other) : (map.assign key value).keys = (other.assign key value').keys := by
  rw [keys_eq_iff] at same ⊢
  intro query
  rw [find?_assign, find?_assign]
  split
  · exact iff_of_true rfl rfl
  · exact same query

theorem keys_insertNew_congr (same : map.keys = other.keys) (key : Key) (value : Value)
    (value' : Other) : (map.insertNew key value).keys = (other.insertNew key value').keys := by
  rw [keys_eq_iff] at same ⊢
  intro query
  rw [find?_insertNew, find?_insertNew]
  split
  · exact iff_of_true rfl rfl
  · exact same query

theorem keys_erase_congr (same : map.keys = other.keys) (key : Key) :
    (map.erase key).keys = (other.erase key).keys := by
  rw [keys_eq_iff] at same ⊢
  intro query
  rw [find?_erase, find?_erase]
  split
  · exact Iff.rfl
  · exact same query

/-- Assignments of the same keys keep the keys of two maps the same. -/
theorem keys_foldl_assign_congr {Item : Type*} (same : map.keys = other.keys) (items : List Item)
    (key : Item → Key) (value : Item → Value) (value' : Item → Other) :
    (items.foldl (fun map item => map.assign (key item) (value item)) map).keys =
      (items.foldl (fun map item => map.assign (key item) (value' item)) other).keys := by
  induction items generalizing map other with
  | nil => exact same
  | cons item rest ih => exact ih (keys_assign_congr same ..)

end SameKeys

/-- Assignment and insertion keep the keys that are there. -/
theorem isSome_find?_assign {map : OrderedMap Key Value} {query : Key}
    (present : (map.find? query).isSome) (key : Key) (value : Value) :
    ((map.assign key value).find? query).isSome := by
  rw [find?_assign]
  split
  · rfl
  · exact present

theorem isSome_find?_insertNew {map : OrderedMap Key Value} {query : Key}
    (present : (map.find? query).isSome) (key : Key) (value : Value) :
    ((map.insertNew key value).find? query).isSome := by
  rw [find?_insertNew]
  split
  · rfl
  · exact present

/-- Insertion of a key that is there changes nothing. -/
theorem insertNew_eq_self {map : OrderedMap Key Value} {key : Key}
    (present : (map.find? key).isSome) (value : Value) : map.insertNew key value = map := by
  rw [insertNew, if_pos present]

/-- Cutting a list in ascending key order at a bound. -/
theorem filter_lt_append_filter_le {Entry : Type*} (key : Entry → Key) (bound : Key)
    {entries : List Entry}
    (ascending : entries.Pairwise fun first second => key first < key second) :
    entries.filter (fun entry => key entry < bound) ++
      entries.filter (fun entry => bound ≤ key entry) = entries := by
  induction entries with
  | nil => rfl
  | cons head rest ih =>
      rw [List.pairwise_cons] at ascending
      by_cases below : key head < bound
      · rw [List.filter_cons_of_pos (by simpa using below),
          List.filter_cons_of_neg (by simpa using below), List.cons_append, ih ascending.2]
      · have above : ∀ entry ∈ head :: rest, bound ≤ key entry := by
          intro entry member
          rcases List.mem_cons.mp member with rfl | later
          · exact not_lt.mp below
          · exact (not_lt.mp below).trans (ascending.1 entry later).le
        rw [List.filter_eq_nil_iff.mpr, List.filter_eq_self.mpr, List.nil_append]
        · exact fun entry member => decide_eq_true (above entry member)
        · exact fun entry member => by simpa using above entry member

/-- In ascending key order the keys up to a bound form an initial part. -/
theorem takeWhile_le_eq_filter_le {Entry : Type*} (key : Entry → Key) (bound : Key)
    {entries : List Entry}
    (ascending : entries.Pairwise fun first second => key first < key second) :
    entries.takeWhile (fun entry => key entry ≤ bound) =
      entries.filter fun entry => key entry ≤ bound := by
  induction entries with
  | nil => rfl
  | cons head rest ih =>
      rw [List.pairwise_cons] at ascending
      by_cases inside : key head ≤ bound
      · rw [List.takeWhile_cons_of_pos (by simpa using inside),
          List.filter_cons_of_pos (by simpa using inside), ih ascending.2]
      · rw [List.takeWhile_cons_of_neg (by simpa using inside),
          List.filter_cons_of_neg (by simpa using inside), Eq.comm, List.filter_eq_nil_iff]
        intro entry member
        rw [decide_eq_true_eq, not_le]
        exact (not_le.mp inside).trans (ascending.1 entry member)

section Split

variable (map : OrderedMap Key Value) {below middle above : List (Key × Value)} {key : Key}
  (split : map.entries = below ++ middle ++ above) (allBelow : ∀ entry ∈ below, entry.1 < key)
  (equal : ∀ entry ∈ middle, entry.1 = key) (allAbove : ∀ entry ∈ above, key < entry.1)

include split allBelow equal allAbove

/-- The entries after an assignment, for a map that is cut around the key. -/
theorem entries_assign (value : Value) :
    (map.assign key value).entries = below ++ (key, value) :: above := by
  have kept : map.entries.filter (fun entry => entry.1 < key) = below := by
    have first : below.filter (fun entry => entry.1 < key) = below :=
      List.filter_eq_self.mpr fun entry member => decide_eq_true (allBelow entry member)
    have second : middle.filter (fun entry => entry.1 < key) = [] :=
      List.filter_eq_nil_iff.mpr fun entry member => by simp [equal entry member]
    have third : above.filter (fun entry => entry.1 < key) = [] :=
      List.filter_eq_nil_iff.mpr fun entry member => by simp [(allAbove entry member).le]
    rw [split, List.filter_append, List.filter_append, first, second, third, List.append_nil,
      List.append_nil]
  have later : map.entries.filter (fun entry => key < entry.1) = above := by
    have first : below.filter (fun entry => key < entry.1) = [] :=
      List.filter_eq_nil_iff.mpr fun entry member => by simp [(allBelow entry member).le]
    have second : middle.filter (fun entry => key < entry.1) = [] :=
      List.filter_eq_nil_iff.mpr fun entry member => by simp [equal entry member]
    have third : above.filter (fun entry => key < entry.1) = above :=
      List.filter_eq_self.mpr fun entry member => decide_eq_true (allAbove entry member)
    rw [split, List.filter_append, List.filter_append, first, second, third, List.append_nil,
      List.nil_append]
  change map.entries.filter (fun entry => entry.1 < key) ++
    (key, value) :: map.entries.filter (fun entry => key < entry.1) = _
  rw [kept, later]

/-- The entries after a removal, for a map that is cut around the key. -/
theorem entries_erase : (map.erase key).entries = below ++ above := by
  have first : below.filter (fun entry => entry.1 ≠ key) = below :=
    List.filter_eq_self.mpr fun entry member => decide_eq_true (allBelow entry member).ne
  have second : middle.filter (fun entry => entry.1 ≠ key) = [] :=
    List.filter_eq_nil_iff.mpr fun entry member => by simp [equal entry member]
  have third : above.filter (fun entry => entry.1 ≠ key) = above :=
    List.filter_eq_self.mpr fun entry member => decide_eq_true (allAbove entry member).ne'
  change map.entries.filter (fun entry => entry.1 ≠ key) = _
  rw [split, List.filter_append, List.filter_append, first, second, third, List.append_nil]

end Split

/-- A new last key goes behind all entries. -/
theorem entries_insertNew_of_lt {map : OrderedMap Key Value} {key : Key}
    (last : ∀ entry ∈ map.entries, entry.1 < key) (value : Value) :
    (map.insertNew key value).entries = map.entries ++ [(key, value)] := by
  have absent : map.find? key = none :=
    (map.find?_eq_none_iff key).mpr fun entry member => (last entry member).ne
  rw [insertNew_of_find?_eq_none absent]
  have cut : map.entries = map.entries ++ [] ++ [] := by rw [List.append_nil, List.append_nil]
  exact map.entries_assign cut last (fun _ member => absurd member List.not_mem_nil)
    (fun _ member => absurd member List.not_mem_nil) value

/-- Storing the entries of a map one after the other gives the map. -/
theorem foldl_insertNew_entries (map : OrderedMap Key Value) :
    map.entries.foldl (fun result entry => result.insertNew entry.1 entry.2) empty = map := by
  have stored (entries : List (Key × Value))
      (ascending : entries.Pairwise fun first second => first.1 < second.1) :
      (entries.foldl (fun result entry => result.insertNew entry.1 entry.2) empty).entries =
        entries := by
    induction entries using List.reverseRecOn with
    | nil => rfl
    | append_singleton entries entry ih =>
        obtain ⟨before, _, last⟩ := List.pairwise_append.mp ascending
        have same := ih before
        rw [List.foldl_concat, entries_insertNew_of_lt, same]
        rw [same]
        exact fun other member => last other member entry List.mem_cons_self
  exact OrderedMap.ext (stored map.entries map.ascending)

/-- Removing the key of one of the entries removes that entry. -/
theorem entries_erase_middle (map : OrderedMap Key Value) {below above : List (Key × Value)}
    {entry : Key × Value} (split : map.entries = below ++ entry :: above) :
    (map.erase entry.1).entries = below ++ above := by
  have ascending := map.ascending
  rw [split, List.pairwise_append, List.pairwise_cons] at ascending
  have cut : map.entries = below ++ [entry] ++ above := by
    rw [split, List.append_assoc, List.singleton_append]
  refine map.entries_erase cut ?_ ?_ ascending.2.1.1
  · exact fun earlier member => ascending.2.2 earlier member entry List.mem_cons_self
  · intro other member
    rw [List.mem_singleton.mp member]

/-! ### Ranges -/

/-- The entries cut around a key. -/
theorem exists_split (map : OrderedMap Key Value) (key : Key) :
    ∃ below above, map.entries = below ++ (map.find? key).toList.map (Prod.mk key) ++ above ∧
      (∀ entry ∈ below, entry.1 < key) ∧ ∀ entry ∈ above, key < entry.1 := by
  have cut := filter_lt_append_filter_le Prod.fst key map.ascending
  have smaller : ∀ entry ∈ map.entries.filter (fun entry => entry.1 < key), entry.1 < key :=
    fun _ member => of_decide_eq_true (List.mem_filter.mp member).2
  cases above : map.entries.filter (fun entry => key ≤ entry.1) with
  | nil =>
      have absent : map.find? key = none := by
        rw [find?_eq_none_iff, ← cut, above, List.append_nil]
        exact fun entry member => (smaller entry member).ne
      exact ⟨_, [], by rw [absent, Option.toList_none, List.map_nil, List.append_nil, ← above, cut],
        smaller, fun _ member => absurd member List.not_mem_nil⟩
  | cons head rest =>
      rw [above] at cut
      have ascending := map.ascending
      rw [← cut, List.pairwise_append, List.pairwise_cons] at ascending
      have reached : key ≤ head.1 := by
        have member : head ∈ map.entries.filter (fun entry => key ≤ entry.1) :=
          above ▸ List.mem_cons_self
        exact of_decide_eq_true (List.mem_filter.mp member).2
      rcases reached.eq_or_lt with equal | beyond
      · have found : map.find? key = some head.2 := by
          rw [find?_eq_some_iff, ← cut, equal]
          exact List.mem_append_right _ List.mem_cons_self
        refine ⟨_, rest, ?_, smaller, fun entry member => equal ▸ ascending.2.1.1 entry member⟩
        rw [found, Option.toList_some, List.map_singleton, List.append_assoc]
        conv_lhs => rw [← cut]
        rw [List.singleton_append, equal]
      · have later : ∀ entry ∈ head :: rest, key < entry.1 := by
          intro entry member
          rcases List.mem_cons.mp member with rfl | behind
          · exact beyond
          · exact beyond.trans (ascending.2.1.1 entry behind)
        have absent : map.find? key = none := by
          rw [find?_eq_none_iff, ← cut]
          intro entry member
          rcases List.mem_append.mp member with early | late
          · exact (smaller entry early).ne
          · exact (later entry late).ne'
        refine ⟨_, head :: rest, ?_, smaller, later⟩
        rw [absent, Option.toList_none, List.map_nil, List.append_nil, cut]

/-- A value in a range is stored under a key of the range. -/
theorem exists_of_mem_between {map : OrderedMap Key Value} {first last : Key} {value : Value}
    (member : value ∈ map.between first last) :
    ∃ key, map.find? key = some value ∧ first ≤ key ∧ key ≤ last := by
  obtain ⟨entry, inside, rfl⟩ := List.mem_map.mp member
  rw [List.mem_filter, decide_eq_true_eq] at inside
  exact ⟨entry.1, (map.find?_eq_some_iff _ _).mpr inside.1, inside.2⟩

/-- The range of one key holds the value of the key. -/
theorem between_self (map : OrderedMap Key Value) (key : Key) :
    map.between key key = (map.find? key).toList := by
  obtain ⟨below, above, entries, smaller, greater⟩ := map.exists_split key
  have first : below.filter (fun entry => key ≤ entry.1 ∧ entry.1 ≤ key) = [] :=
    List.filter_eq_nil_iff.mpr fun entry member => by simp [smaller entry member]
  have third : above.filter (fun entry => key ≤ entry.1 ∧ entry.1 ≤ key) = [] :=
    List.filter_eq_nil_iff.mpr fun entry member => by simp [greater entry member]
  rw [between, entries, List.filter_append, List.filter_append, first, third, List.nil_append,
    List.append_nil]
  cases map.find? key <;> simp

/-- An assignment changes the sum over a range that holds the key by the difference
of the two values. -/
theorem sum_between_assign {Amount : Type*} [AddCommGroup Amount]
    (map : OrderedMap Key Amount) (key : Key) (value : Amount) (first last : Key) :
    ((map.assign key value).between first last).sum =
      (map.between first last).sum +
        if first ≤ key ∧ key ≤ last then value - (map.find? key).getD 0 else 0 := by
  obtain ⟨below, above, entries, smaller, greater⟩ := map.exists_split key
  have assigned := map.entries_assign entries smaller
    (fun entry member => by
      obtain ⟨_, _, rfl⟩ := List.mem_map.mp member
      rfl) greater value
  rw [between, between, assigned, entries]
  cases map.find? key with
  | none =>
      by_cases inside : first ≤ key ∧ key ≤ last
      · simp [inside]
        abel
      · simp [inside]
  | some earlier =>
      by_cases inside : first ≤ key ∧ key ≤ last
      · simp [inside]
        abel
      · simp [inside]

theorem between_eq_nil (map : OrderedMap Key Value) {first last : Key} (crossed : last < first) :
    map.between first last = [] := by
  have outside : ∀ entry ∈ map.entries, ¬(first ≤ entry.1 ∧ entry.1 ≤ last) :=
    fun entry _ inside => (inside.1.trans inside.2).not_gt crossed
  rw [between, List.filter_eq_nil_iff.mpr, List.map_nil]
  exact fun entry member => by simpa using outside entry member

/-! ### Lower bounds -/

/-- There is no lower bound exactly above all keys. -/
theorem lowerBound_eq_none_iff (map : OrderedMap Key Value) (key : Key) :
    map.lowerBound key = none ↔ ∀ entry ∈ map.entries, entry.1 < key := by
  simp only [lowerBound, List.find?_eq_none, decide_eq_true_eq, not_le]

/-- The lower bound is the entry with the least key that is not below the given one. -/
theorem lowerBound_eq_some_iff (map : OrderedMap Key Value) (key : Key) (entry : Key × Value) :
    map.lowerBound key = some entry ↔
      entry ∈ map.entries ∧ key ≤ entry.1 ∧
        ∀ other ∈ map.entries, key ≤ other.1 → entry.1 ≤ other.1 := by
  obtain ⟨entries, ascending⟩ := map
  unfold lowerBound
  dsimp only
  induction entries with
  | nil => simp only [List.find?_nil, reduceCtorEq, List.not_mem_nil, false_and]
  | cons head rest ih =>
      rw [List.pairwise_cons] at ascending
      by_cases reached : key ≤ head.1
      · simp only [List.find?_cons, reached, decide_true, Option.some.injEq]
        refine ⟨?_, ?_⟩
        · rintro rfl
          refine ⟨List.mem_cons_self, reached, ?_⟩
          intro other member _
          rcases List.mem_cons.mp member with rfl | later
          · exact le_rfl
          · exact (ascending.1 other later).le
        · intro bounding
          obtain ⟨member, _, least⟩ := bounding
          rcases List.mem_cons.mp member with same | later
          · exact same.symm
          · exact absurd (least head List.mem_cons_self reached)
              (not_le.mpr (ascending.1 entry later))
      · simp only [List.find?_cons, reached, decide_false, ih ascending.2, List.mem_cons,
          forall_eq_or_imp, false_imp_iff, true_and]
        refine ⟨?_, ?_⟩
        · intro bounding
          obtain ⟨member, bound, least⟩ := bounding
          exact ⟨Or.inr member, bound, least⟩
        · rintro ⟨rfl | member, bound, least⟩
          · exact absurd bound reached
          · exact ⟨member, bound, least⟩

end OrderedMap
