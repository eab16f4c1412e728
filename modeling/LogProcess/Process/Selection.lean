import LogProcess.Process.ProcessServer

/-! # Selected rows

What `SelectByConds` of `process/process_impl.cc` makes of the stored rows. It finds out whether
a row has all selected fields by comparing the number of fields it took over with the length of
the list, so a list that names a field twice selects nothing
(`ProcessImpl.length_selectItem_eq_iff`). Otherwise the rows that satisfy the conditions and
have the fields are restricted to them (`ProcessImpl.projects_iff`).
-/

namespace LogProcess.ProcessImpl

/-! ### One row -/

/-- The row with only the listed fields. -/
def restrict (selectfield : List Str) (row : Kvpairs) : Kvpairs :=
  row.filter fun field => field.1 ∈ selectfield

/-- The row has every listed field. -/
def HasAll (selectfield : List Str) (row : Kvpairs) : Prop :=
  ∀ field ∈ selectfield, (row.find? field).isSome

instance (selectfield : List Str) (row : Kvpairs) : Decidable (HasAll selectfield row) :=
  inferInstanceAs (Decidable (∀ field ∈ selectfield, _))

theorem find?_restrict (selectfield : List Str) (row : Kvpairs) (field : Str) :
    (restrict selectfield row).find? field =
      if field ∈ selectfield then row.find? field else none := by
  rw [restrict, OrderedMap.find?_filter]
  cases row.find? field with
  | none => exact (ite_self none).symm
  | some value => simp only [Option.filter_some, decide_eq_true_eq]

/-- The loop over the fields takes each over once. -/
theorem find?_foldl_selectItem (selectfield : List Str) (row newitem : Kvpairs) (field : Str) :
    (selectfield.foldl (fun newitem j => (row.find? j).elim newitem (newitem.insertNew j))
        newitem).find? field =
      (newitem.find? field).or (if field ∈ selectfield then row.find? field else none) := by
  induction selectfield generalizing newitem with
  | nil => simp only [List.foldl_nil, List.not_mem_nil, ↓reduceIte, Option.or_none]
  | cons j rest ih =>
      rw [List.foldl_cons, ih]
      by_cases same : field = j
      · subst same
        simp only [List.mem_cons_self, ↓reduceIte]
        cases found : row.find? field with
        | none => simp only [ite_self, Option.elim_none]
        | some value =>
            rw [Option.elim_some, OrderedMap.find?_insertNew_self, Option.some_or]
            cases newitem.find? field <;> rfl
      · have listed : field ∈ j :: rest ↔ field ∈ rest := by
          rw [List.mem_cons, or_iff_right same]
        simp only [listed]
        cases row.find? j with
        | none => rfl
        | some value => rw [Option.elim_some, OrderedMap.find?_insertNew_of_ne _ _ same]

theorem selectItem_eq_restrict (selectfield : List Str) (row : Kvpairs) :
    selectItem selectfield row = restrict selectfield row := by
  have loop : selectItem selectfield row = selectfield.foldl
      (fun newitem j => (row.find? j).elim newitem (newitem.insertNew j)) OrderedMap.empty := by
    rw [selectItem]
    apply List.foldl_ext
    intro newitem j _
    cases row.find? j <;> rfl
  apply OrderedMap.ext_find?
  intro field
  rw [loop, find?_foldl_selectItem, find?_restrict, OrderedMap.find?_empty, Option.none_or]

/-- The number of fields taken over is the length of the list when the list repeats nothing and
the row has all of them. -/
theorem length_selectItem_eq_iff (selectfield : List Str) (row : Kvpairs) :
    (selectItem selectfield row).entries.length = selectfield.length ↔
      selectfield.Nodup ∧ HasAll selectfield row := by
  have taken (field : Str) : field ∈ (restrict selectfield row).keys ↔
      field ∈ selectfield ∧ (row.find? field).isSome := by
    rw [OrderedMap.mem_keys_iff, find?_restrict]
    by_cases listed : field ∈ selectfield
    · rw [if_pos listed, and_iff_right listed]
    · rw [if_neg listed]
      exact iff_of_false Bool.false_ne_true fun both => listed both.1
  have nodup := (restrict selectfield row).nodup_keys
  have length : (restrict selectfield row).entries.length =
      (restrict selectfield row).keys.length := (List.length_map _).symm
  rw [selectItem_eq_restrict, length]
  refine ⟨fun same => ?_, fun both => ?_⟩
  · have part := nodup.subperm fun field member => ((taken field).mp member).1
    have perm := part.perm_of_length_le same.ge
    refine ⟨perm.nodup_iff.mp nodup, fun field listed => ?_⟩
    exact ((taken field).mp (perm.mem_iff.mpr listed)).2
  · apply List.Perm.length_eq
    rw [List.perm_ext_iff_of_nodup nodup both.1]
    intro field
    rw [taken]
    exact and_iff_left_of_imp (both.2 field)

/-! ### All rows -/

section Rows

variable (regex : Regex) (conds : CheckListCond) (selectfield : List Str)

/-- What should become of a row: one that satisfies the conditions is restricted to the listed
fields if it has them, and kept when nothing is listed and it is not empty. -/
def project (row : Kvpairs) : Option Kvpairs :=
  if allCheck regex conds row = .ok true then
    if selectfield = [] then
      if row.entries = [] then none else some row
    else if HasAll selectfield row then
      some (restrict selectfield row)
    else
      none
  else
    none

/-- The rows come out as they should, in the order they came in. -/
def Projects (raw : List Kvpairs) : Prop :=
  selectByConds regex conds selectfield raw = some (raw.filterMap (project regex conds selectfield))

/-- The list repeats nothing, or no row that satisfies the conditions has all of its fields. -/
def Countable (raw : List Kvpairs) : Prop :=
  selectfield.Nodup ∨
    ∀ row ∈ raw, allCheck regex conds row = .ok true → ¬HasAll selectfield row

variable {regex conds selectfield}

/-- A row comes out as it should unless the list repeats a field and the row has all of them. -/
theorem selectRow_eq_project_iff (row : Kvpairs) :
    selectRow regex conds selectfield row = project regex conds selectfield row ↔
      selectfield.Nodup ∨ (allCheck regex conds row = .ok true → ¬HasAll selectfield row) := by
  rw [selectRow, project]
  by_cases satisfied : allCheck regex conds row = .ok true
  · rw [if_pos satisfied, if_pos satisfied, forall_prop_of_true satisfied]
    by_cases everything : selectfield = []
    · subst everything
      refine iff_of_true ?_ (.inl List.nodup_nil)
      rw [if_neg (not_not_intro List.length_nil), if_pos rfl]
      simp only [ne_eq, List.length_eq_zero_iff, ite_not]
    · have listed : selectfield.length ≠ 0 :=
        fun none => everything (List.length_eq_zero_iff.mp none)
      rw [if_pos listed, if_neg everything]
      simp only [length_selectItem_eq_iff]
      rw [selectItem_eq_restrict]
      by_cases nodup : selectfield.Nodup
      · simp only [nodup, true_and, true_or]
      · by_cases all : HasAll selectfield row
        · simp only [nodup, all, and_true, ↓reduceIte, not_true_eq_false, or_self, reduceCtorEq]
        · simp only [nodup, all, and_false, ↓reduceIte, not_false_eq_true, or_true]
  · rw [if_neg satisfied, if_neg satisfied]
    exact iff_of_true rfl (.inr fun accepted => absurd accepted satisfied)

/-- A list that repeats a field selects nothing. -/
theorem selectRow_eq_none (repeats : ¬selectfield.Nodup) (row : Kvpairs) :
    selectRow regex conds selectfield row = none := by
  have listed : selectfield.length ≠ 0 := by
    intro none
    rw [List.length_eq_zero_iff.mp none] at repeats
    exact repeats List.nodup_nil
  rw [selectRow, if_pos listed]
  simp only [length_selectItem_eq_iff, repeats, false_and, ↓reduceIte, ite_self]

/-- A row that satisfies the conditions and has all listed fields should come out. -/
theorem project_ne_none {row : Kvpairs} (satisfied : allCheck regex conds row = .ok true)
    (listed : selectfield ≠ []) (all : HasAll selectfield row) :
    project regex conds selectfield row = some (restrict selectfield row) := by
  rw [project, if_pos satisfied, if_neg listed, if_pos all]

/-- **Projection.** Selection projects the rows when the filter comes to its end for all of them
and the list repeats nothing, or no row has all of its fields. -/
theorem projects_iff (raw : List Kvpairs) :
    Projects regex conds selectfield raw ↔
      (∀ row ∈ raw, Filterable regex conds row) ∧ Countable regex conds selectfield raw := by
  rw [Projects]
  refine ⟨fun projects => ?_, fun condition => ?_⟩
  · have ends := forall_filterable_of_isSome (Option.isSome_iff_exists.mpr ⟨_, projects⟩)
    refine ⟨ends, ?_⟩
    rw [selectByConds_eq ends, Option.some.injEq] at projects
    by_contra repeats
    rw [Countable, not_or] at repeats
    apply repeats.2
    intro row member satisfied all
    have listed : selectfield ≠ [] := by
      rintro rfl
      exact repeats.1 List.nodup_nil
    have shown := List.mem_filterMap.mpr
      ⟨row, member, project_ne_none satisfied listed all⟩
    rw [← projects, List.mem_filterMap] at shown
    obtain ⟨other, _, selected⟩ := shown
    rw [selectRow_eq_none repeats.1] at selected
    cases selected
  · rw [selectByConds_eq condition.1, Option.some.injEq]
    apply List.filterMap_congr
    intro row member
    exact (selectRow_eq_project_iff row).mpr
      (condition.2.imp_right fun lacks => lacks row member)

/-- The rows of a selection come from rows that satisfy the conditions. -/
theorem mem_of_selectByConds {raw res : List Kvpairs}
    (select : selectByConds regex conds selectfield raw = some res) {row : Kvpairs}
    (member : row ∈ res) : ∃ stored ∈ raw, selectRow regex conds selectfield stored = some row := by
  have ends := forall_filterable_of_isSome (Option.isSome_iff_exists.mpr ⟨res, select⟩)
  rw [selectByConds_eq ends, Option.some.injEq] at select
  rw [← select] at member
  exact List.mem_filterMap.mp member

/-- Selected rows have the listed fields. -/
theorem isSome_find?_of_selectByConds {raw res : List Kvpairs}
    (select : selectByConds regex conds selectfield raw = some res) {field : Str}
    (listed : field ∈ selectfield) : ∀ row ∈ res, (row.find? field).isSome := by
  intro row member
  obtain ⟨stored, _, selected⟩ := mem_of_selectByConds select member
  have nonempty : selectfield.length ≠ 0 := (List.length_pos_of_mem listed).ne'
  rw [selectRow, if_pos nonempty] at selected
  simp only [length_selectItem_eq_iff, Option.ite_none_right_eq_some, Option.some.injEq] at selected
  obtain ⟨_, ⟨_, all⟩, rfl⟩ := selected
  rw [selectItem_eq_restrict, find?_restrict, if_pos listed]
  exact all field listed

/-- Without listed fields the rows that satisfy the conditions and are not empty are selected. -/
theorem selectByConds_nil {raw res : List Kvpairs}
    (select : selectByConds regex conds [] raw = some res) :
    res = raw.filter fun row => allCheck regex conds row = .ok true ∧ row.entries ≠ [] := by
  have ends := forall_filterable_of_isSome (Option.isSome_iff_exists.mpr ⟨res, select⟩)
  rw [selectByConds_eq ends, Option.some.injEq] at select
  rw [← select, ← List.filterMap_eq_filter]
  apply List.filterMap_congr
  intro row _
  rw [selectRow, if_neg (not_not_intro List.length_nil), ← ite_and, Option.guard]
  simp only [ne_eq, List.length_eq_zero_iff, decide_eq_true_eq]

end Rows

/-- A field that is listed twice. -/
theorem not_projects_repeated_field :
    ¬Projects ⟨fun _ => true, fun _ _ => none⟩ {} [bytes "query", bytes "query"]
      [OrderedMap.ofList [(bytes "query", bytes "a")]] := by
  unfold Projects
  decide

end LogProcess.ProcessImpl
