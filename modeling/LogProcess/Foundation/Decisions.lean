import Mathlib

/-! # Decisions that depend on the past

Items come one after the other, and for each one it is decided, from the items before it, whether
there is an output. A fold that keeps enough of the past takes the same decisions
(`Decisions.foldl_eq`). One that sees only some of the items takes the same decisions about them
when the others do not matter for them (`Decisions.outputs_filter`).
-/

namespace Decisions

variable {Item Output State : Type*}

/-- The outputs for the items that follow some earlier ones. -/
def outputs (decision : List Item → Item → Option Output) : List Item → List Item → List Output
  | _, [] => []
  | earlier, item :: rest =>
      (decision earlier item).toList ++ outputs decision (earlier ++ [item]) rest

variable {decision : List Item → Item → Option Output}

theorem outputs_append (earlier first second : List Item) :
    outputs decision earlier (first ++ second) =
      outputs decision earlier first ++ outputs decision (earlier ++ first) second := by
  induction first generalizing earlier with
  | nil => rw [List.nil_append, outputs, List.nil_append, List.append_nil]
  | cons item rest ih =>
      rw [List.cons_append, outputs, outputs, ih, List.append_assoc, List.append_assoc,
        List.singleton_append]

theorem outputs_concat (earlier items : List Item) (item : Item) :
    outputs decision earlier (items ++ [item]) =
      outputs decision earlier items ++ (decision (earlier ++ items) item).toList := by
  rw [outputs_append, outputs, outputs, List.append_nil]

/-- A fold whose state says what the past decides. The state may be right for short pasts only. -/
theorem foldl_eq {next : State → Item → State} {choose : State → Item → Option Output}
    {start : State} (items : List Item)
    (decides : ∀ before item after, items = before ++ item :: after →
      choose (before.foldl next start) item = decision before item) :
    items.foldl (fun kept item => (next kept.1 item, kept.2 ++ (choose kept.1 item).toList))
        (start, []) = (items.foldl next start, outputs decision [] items) := by
  induction items using List.reverseRecOn with
  | nil => rfl
  | append_singleton items item ih =>
      rw [List.foldl_concat, ih, List.foldl_concat, outputs_concat, List.nil_append,
        decides items item [] rfl]
      intro before item' after same
      refine decides before item' (after ++ [item]) ?_
      rw [same, List.append_assoc, List.cons_append]

/-- Decisions about some of the items that do not depend on the others. -/
theorem outputs_filter {keep : Item → Prop} [DecidablePred keep] (earlier : List Item)
    {items : List Item}
    (agree : ∀ before item after, items = before ++ item :: after → keep item →
      decision ((earlier ++ before).filter keep) item = decision (earlier ++ before) item) :
    outputs decision (earlier.filter keep) (items.filter keep) =
      outputs (fun before item => if keep item then decision before item else none)
        earlier items := by
  induction items using List.reverseRecOn with
  | nil => rfl
  | append_singleton items item ih =>
      have former := ih fun before item' after same kept => agree before item' (after ++ [item])
        (by rw [same, List.append_assoc, List.cons_append]) kept
      rw [List.filter_append, List.filter_singleton, outputs_concat, ← former]
      by_cases kept : keep item
      · rw [decide_eq_true kept, cond_true, outputs_concat, if_pos kept, ← List.filter_append,
          agree items item [] rfl kept]
      · rw [decide_eq_false kept, cond_false, List.append_nil, if_neg kept, Option.toList_none,
          List.append_nil]

/-- An output was decided for one of the items. -/
theorem mem_outputs_iff {earlier items : List Item} {output : Output} :
    output ∈ outputs decision earlier items ↔ ∃ before item after,
      items = before ++ item :: after ∧ decision (earlier ++ before) item = some output := by
  induction items using List.reverseRecOn with
  | nil =>
      refine iff_of_false List.not_mem_nil ?_
      rintro ⟨before, item, after, same, _⟩
      exact List.append_ne_nil_of_right_ne_nil _ (List.cons_ne_nil _ _) same.symm
  | append_singleton items item ih =>
      rw [outputs_concat, List.mem_append, ih, Option.mem_toList]
      refine ⟨?_, ?_⟩
      · rintro (⟨before, item', after, rfl, decided⟩ | decided)
        · exact ⟨before, item', after ++ [item], by rw [List.append_assoc, List.cons_append],
            decided⟩
        · exact ⟨items, item, [], rfl, decided⟩
      · rintro ⟨before, item', after, same, decided⟩
        rcases List.eq_nil_or_concat after with rfl | ⟨after, last, rfl⟩
        · obtain ⟨rfl, rfl⟩ := List.append_singleton_inj.mp same
          exact .inr decided
        · rw [List.concat_eq_append, ← List.cons_append, ← List.append_assoc] at same
          obtain ⟨rfl, _⟩ := List.append_singleton_inj.mp same
          exact .inl ⟨before, item', after, rfl, decided⟩

end Decisions
