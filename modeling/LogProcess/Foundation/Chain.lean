import Mathlib

/-! # Null-terminated chains of addresses

A link function gives, at every address, the next address, the end of the
chain, or a fault. Following it from a start visits a list of addresses
(`Chain`). Splicing an address in behind the last one of a part of the chain,
or linking past an address, changes the visited list accordingly
(`Chain.insert`, `Chain.remove`).
-/

variable {Address Fault : Type*}

/-- The last address visited when `visited` is followed from `start`. -/
def lastFrom : Address → List Address → Address
  | start, [] => start
  | _, first :: rest => lastFrom first rest

@[simp] theorem lastFrom_nil (start : Address) : lastFrom start [] = start := rfl

@[simp] theorem lastFrom_cons (start first : Address) (rest : List Address) :
    lastFrom start (first :: rest) = lastFrom first rest := rfl

theorem lastFrom_append (start : Address) (first second : List Address) :
    lastFrom start (first ++ second) = lastFrom (lastFrom start first) second := by
  induction first generalizing start with
  | nil => rfl
  | cons address rest ih => exact ih address

theorem lastFrom_mem (start : Address) (visited : List Address) :
    lastFrom start visited ∈ start :: visited := by
  induction visited generalizing start with
  | nil => exact List.mem_cons_self
  | cons address rest ih => exact List.mem_cons_of_mem _ (ih address)

/-- Following `next` from `start` visits the listed addresses in order and then ends. -/
def Chain (next : Address → Except Fault (Option Address)) : Address → List Address → Prop
  | start, [] => next start = .ok none
  | start, first :: rest => next start = .ok (some first) ∧ Chain next first rest

namespace Chain

variable {next after : Address → Except Fault (Option Address)}

/-- The first link of a chain. -/
theorem next_eq {start : Address} {visited : List Address} (chain : Chain next start visited) :
    next start = .ok visited.head? := by
  cases visited with
  | nil => exact chain
  | cons first rest => exact chain.1

/-- The rest of a chain starts at the last address of its first part. -/
theorem drop {start : Address} {first second : List Address}
    (chain : Chain next start (first ++ second)) : Chain next (lastFrom start first) second := by
  induction first generalizing start with
  | nil => exact chain
  | cons address rest ih => exact ih chain.2

/-- A chain depends only on the links of the addresses it visits. -/
theorem congr {start : Address} {visited : List Address} (chain : Chain next start visited)
    (same : ∀ address ∈ start :: visited, after address = next address) :
    Chain after start visited := by
  induction visited generalizing start with
  | nil => exact (same start List.mem_cons_self).trans chain
  | cons first rest ih =>
      refine ⟨(same start List.mem_cons_self).trans chain.1, ih chain.2 ?_⟩
      intro address member
      exact same address (List.mem_cons_of_mem _ member)

/-- Splicing a new address in behind the last address of the first part. -/
theorem insert {start fresh : Address} {first second : List Address}
    (chain : Chain next start (first ++ second))
    (distinct : (start :: (first ++ second)).Nodup) (absent : fresh ∉ start :: (first ++ second))
    (linked : after (lastFrom start first) = .ok (some fresh))
    (continued : after fresh = next (lastFrom start first))
    (other : ∀ address, address ≠ fresh → address ≠ lastFrom start first →
      after address = next address) :
    Chain after start (first ++ fresh :: second) := by
  induction first generalizing start with
  | nil =>
      refine ⟨linked, ?_⟩
      cases second with
      | nil => exact continued.trans chain
      | cons address rest =>
          refine ⟨continued.trans chain.1, chain.2.congr ?_⟩
          intro visited member
          apply other visited
          · rintro rfl
            exact absent (List.mem_cons_of_mem _ member)
          · rintro rfl
            exact (List.nodup_cons.mp distinct).1 member
  | cons address rest ih =>
      have tailDistinct := (List.nodup_cons.mp distinct).2
      refine ⟨(other start ?_ ?_).trans chain.1, ih chain.2 tailDistinct ?_ linked continued other⟩
      · rintro rfl
        exact absent List.mem_cons_self
      · intro same
        have visited : lastFrom address rest ∈ address :: (rest ++ second) :=
          List.mem_append_left second (lastFrom_mem address rest)
        rw [lastFrom_cons] at same
        exact (List.nodup_cons.mp distinct).1 (same ▸ visited)
      · exact fun member => absent (List.mem_cons_of_mem _ member)

/-- Linking past an address takes it out of the chain. -/
theorem remove {start removed : Address} {first second : List Address}
    (chain : Chain next start (first ++ removed :: second))
    (distinct : (start :: (first ++ removed :: second)).Nodup)
    (linked : after (lastFrom start first) = next removed)
    (other : ∀ address, address ≠ removed → address ≠ lastFrom start first →
      after address = next address) :
    Chain after start (first ++ second) := by
  induction first generalizing start with
  | nil =>
      have behind := chain.2
      cases second with
      | nil => exact linked.trans behind
      | cons address rest =>
          refine ⟨linked.trans behind.1, behind.2.congr ?_⟩
          intro visited member
          apply other visited
          · rintro rfl
            exact (List.nodup_cons.mp (List.nodup_cons.mp distinct).2).1 member
          · rintro rfl
            exact (List.nodup_cons.mp distinct).1 (List.mem_cons_of_mem _ member)
  | cons address rest ih =>
      refine ⟨(other start ?_ ?_).trans chain.1,
        ih chain.2 (List.nodup_cons.mp distinct).2 linked other⟩
      · rintro rfl
        apply (List.nodup_cons.mp distinct).1
        exact List.mem_append_right _ List.mem_cons_self
      · intro same
        have visited : lastFrom address rest ∈ address :: (rest ++ removed :: second) :=
          List.mem_append_left _ (lastFrom_mem address rest)
        rw [lastFrom_cons] at same
        exact (List.nodup_cons.mp distinct).1 (same ▸ visited)

end Chain
