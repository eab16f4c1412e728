import Mathlib

/-! # First minima

The first minimum of a list, `List.argmin`, is what a loop finds that replaces its candidate by any
smaller element (`FirstMinimum.argmin_cons_eq_foldl`). It only depends on the order of the values
(`FirstMinimum.argmin_congr`) and goes through maps. The first minimum of the first of two values
is the first minimum of both exactly when it has the least second value among those that
have its first one (`FirstMinimum.mem_argmin_lex_iff`).
-/

namespace FirstMinimum

variable {Element Other Value Second : Type*} [LinearOrder Value]

/-- A loop that replaces its candidate by any smaller element ends with the first minimum. -/
theorem argmin_cons_eq_foldl (value : Element → Value) (start : Element)
    (elements : List Element) :
    (start :: elements).argmin value = some (elements.foldl (fun best element =>
      if value element < value best then element else best) start) := by
  induction elements using List.reverseRecOn with
  | nil => rfl
  | append_singleton front last ih =>
      rw [← List.cons_append, List.argmin_concat, ih, List.foldl_concat, apply_ite some]

/-- A start that is not below any element does not count. -/
theorem argmin_cons_of_lt {value : Element → Value} {start : Element} {elements : List Element}
    (worse : ∀ element ∈ elements, value element < value start) :
    (start :: elements).argmin value = some ((elements.argmin value).getD start) := by
  rw [List.argmin_cons]
  cases found : elements.argmin value with
  | none => rfl
  | some least => exact if_pos (worse least (List.argmin_mem found))

theorem argmin_congr {value : Element → Value} [LinearOrder Second] {other : Element → Second}
    {elements : List Element} (same : ∀ first ∈ elements, ∀ second ∈ elements,
      value first < value second ↔ other first < other second) :
    elements.argmin value = elements.argmin other := by
  induction elements with
  | nil => rfl
  | cons first rest ih =>
      have later := ih fun first inside second member =>
        same first (List.mem_cons_of_mem _ inside) second (List.mem_cons_of_mem _ member)
      rw [List.argmin_cons, List.argmin_cons, later]
      cases found : rest.argmin other with
      | none => rfl
      | some least =>
          have inside := List.mem_cons_of_mem first (List.argmin_mem found)
          simp only [same least inside first List.mem_cons_self]

theorem argmin_map (value : Other → Value) (change : Element → Other)
    (elements : List Element) :
    (elements.map change).argmin value = (elements.argmin (value ∘ change)).map change := by
  induction elements with
  | nil => rfl
  | cons first rest ih =>
      rw [List.map_cons, List.argmin_cons, List.argmin_cons, ih]
      cases rest.argmin (value ∘ change) with
      | none => rfl
      | some least =>
          simp only [Option.map_some, Function.comp_apply]
          split_ifs <;> rfl

/-- The first minimum of one value is the first minimum of it and a second value exactly when it
has the least second value among the elements with its first one. -/
theorem mem_argmin_lex_iff [LinearOrder Second] {value : Element → Value}
    (second : Element → Second) {elements : List Element} {first : Element}
    (least : first ∈ elements.argmin value) :
    first ∈ elements.argmin (fun element => toLex (value element, second element)) ↔
      ∀ other ∈ elements, value other = value first → second first ≤ second other := by
  classical
  obtain ⟨inside, minimal, earliest⟩ := List.mem_argmin_iff.mp least
  refine ⟨fun both other member same => ?_, fun smallest => ?_⟩
  · have below := List.le_of_mem_argmin member both
    rw [Prod.Lex.toLex_le_toLex] at below
    exact below.elim (fun less => absurd same less.ne') And.right
  · refine List.mem_argmin_iff.mpr ⟨inside, fun other member => ?_, fun other member below => ?_⟩
    · rw [Prod.Lex.toLex_le_toLex]
      rcases (minimal other member).lt_or_eq with less | same
      · exact .inl less
      · exact .inr ⟨same, smallest other member same.symm⟩
    · refine earliest other member ?_
      rw [Prod.Lex.toLex_le_toLex] at below
      exact below.elim le_of_lt fun same => same.1.le

end FirstMinimum
