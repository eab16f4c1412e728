import LogProcess.Common.SkiplistInvariant

/-! # Linking and unlinking nodes of the skiplist

The loops of `Modify` and `Remove` rewrite one forward pointer for every level of
the node they treat. Linking a new node behind the recorded insert points adds
its cell to the represented sequence (`Skiplist.Represents.insertNode_eq`), and
linking past a node removes its cell (`Skiplist.Represents.unlink_eq`).
-/

namespace LogProcess.Skiplist

variable {Key Value : Type}

/-! ### Transferring chains -/

theorem readForward_update_of_ne {list : Skiplist Key Value} {address visited : Address}
    (node : Option (SkiplistNode Key Value)) (other : visited ≠ address) (level : Nat)
    (height allocated : Nat) :
    readForward { list with
      level := height
      nodes := Function.update list.nodes address node
      allocated := allocated } level visited = list.readForward level visited := by
  simp only [readForward, readNode, Function.update_of_ne other]

theorem payload_update_of_ne {list : Skiplist Key Value} {address visited : Address}
    (node : Option (SkiplistNode Key Value)) (other : visited ≠ address)
    (height allocated : Nat) :
    payload { list with
      level := height
      nodes := Function.update list.nodes address node
      allocated := allocated } visited = list.payload visited := by
  simp only [payload, Function.update_of_ne other]

theorem getElem?_forward_makeNode_maxLevel (k : Key) (v : Value) {level : Nat}
    (inside : level < maxLevel) :
    (makeNode maxLevel k v).forward[level]? = some (.assigned none) := by
  simp only [makeNode, Nat.sub_self, List.replicate_zero, List.append_nil,
    List.getElem?_replicate, inside, ↓reduceIte]

theorem length_forward_makeNode {level : Nat} (inside : level ≤ maxLevel) (k : Key) (v : Value) :
    (makeNode level k v).forward.length = maxLevel := by
  simp only [makeNode, List.length_append, List.length_replicate]
  omega

section Link

variable {list : Skiplist Key Value} {points : List Address} {newnode : Address}
  {target : Nat → Address}

variable (list newnode target) in
/-- After some rounds of the linking loop the new node stands behind the insert
point of every level that was treated, and nothing else has changed. -/
theorem linkLevels_eq (rounds : Nat)
    (recorded : ∀ level < rounds, readPoint points level = .ok (target level))
    (fresh : ∀ level < rounds, target level ≠ newnode)
    (readable : ∀ level < rounds,
      ∃ following, list.readForward level (target level) = .ok following)
    (slots : ∀ level < rounds, list.HasSlot level newnode) :
    ∃ after, (List.range rounds).foldlM (linkLevel points newnode) list = .ok after ∧
      Rewired list after ∧ ∀ level address, after.readForward level address =
        if level < rounds then
          if address = newnode then list.readForward level (target level)
          else if address = target level then .ok (some newnode)
          else list.readForward level address
        else list.readForward level address := by
  induction rounds with
  | zero =>
      refine ⟨list, rfl, Rewired.refl list, ?_⟩
      intro level address
      rw [if_neg (Nat.not_lt_zero level)]
  | succ rounds ih =>
      obtain ⟨middle, run, rewired, links⟩ := ih
        (fun level less => recorded level (less.trans (Nat.lt_succ_self _)))
        (fun level less => fresh level (less.trans (Nat.lt_succ_self _)))
        (fun level less => readable level (less.trans (Nat.lt_succ_self _)))
        (fun level less => slots level (less.trans (Nat.lt_succ_self _)))
      have here := Nat.lt_succ_self rounds
      obtain ⟨following, read⟩ := readable rounds here
      have untouched (address : Address) :
          middle.readForward rounds address = list.readForward rounds address := by
        rw [links, if_neg (Nat.lt_irrefl rounds)]
      obtain ⟨first, wroteFirst, firstRewired, firstLinks⟩ :=
        writeForward_eq ((rewired.hasSlot rounds newnode).mpr (slots rounds here)) following
      have pointSlot : first.HasSlot rounds (target rounds) :=
        (firstRewired.hasSlot _ _).mpr
          (hasSlot_of_readForward ((untouched (target rounds)).trans read))
      obtain ⟨second, wroteSecond, secondRewired, secondLinks⟩ :=
        writeForward_eq pointSlot (some newnode)
      refine ⟨second, ?_, rewired.trans (firstRewired.trans secondRewired), ?_⟩
      · rw [List.range_succ, List.foldlM_append, run]
        simp only [bind, Except.bind, List.foldlM_cons, List.foldlM_nil, linkLevel,
          recorded rounds here, untouched, read, wroteFirst, wroteSecond, pure, Except.pure]
      · intro level address
        rw [secondLinks, firstLinks, links]
        by_cases same : level = rounds
        · subst same
          by_cases atPoint : address = target level
          · simp only [atPoint, and_self, ↓reduceIte, here, fresh level here]
          · by_cases atNew : address = newnode
            · simp only [atNew, Ne.symm (fresh level here), and_false, ↓reduceIte, and_self, here,
                read]
            · simp only [atPoint, atNew, and_false, ↓reduceIte, Nat.lt_irrefl, here]
        · have treated : level < rounds + 1 ↔ level < rounds := by omega
          simp only [same, false_and, ↓reduceIte, treated]

variable (points target) in
/-- The loop of `Remove` takes the removed node out of the levels up to its height
and stops behind them. -/
theorem unlinkLevels_eq (before : Skiplist Key Value) (removed : Address) (height top : Nat)
    (recorded : ∀ level ≤ top, readPoint points level = .ok (target level))
    (linked : ∀ level ≤ height, before.readForward level (target level) = .ok (some removed))
    (readable : ∀ level ≤ height, ∃ following, before.readForward level removed = .ok following)
    (passedBy : ∀ level ≤ top, height < level → ∃ following,
      before.readForward level (target level) = .ok following ∧ following ≠ some removed)
    (bounded : height ≤ top) (remaining : Nat) :
    ∀ (level : Nat) (list : Skiplist Key Value), level ≤ height + 1 → level + remaining = top + 1 →
      Rewired before list →
      (∀ other address, list.readForward other address =
        if other < level ∧ address = target other then before.readForward other removed
        else before.readForward other address) →
      ∃ after, unlinkLevels points removed remaining level list = .ok after ∧
        Rewired before after ∧ ∀ other address, after.readForward other address =
          if other < height + 1 ∧ address = target other then before.readForward other removed
          else before.readForward other address := by
  induction remaining with
  | zero =>
      intro level list covered rounds rewired links
      obtain rfl : level = height + 1 := by omega
      exact ⟨list, rfl, rewired, links⟩
  | succ remaining ih =>
      intro level list covered rounds rewired links
      have untouched (address : Address) :
          list.readForward level address = before.readForward level address := by
        rw [links, if_neg (fun both => Nat.lt_irrefl level both.1)]
      have point := recorded level (by omega)
      by_cases treated : level ≤ height
      · obtain ⟨following, read⟩ := readable level treated
        have slot : list.HasSlot level (target level) :=
          hasSlot_of_readForward ((untouched _).trans (linked level treated))
        obtain ⟨next, wrote, nextRewired, nextLinks⟩ := writeForward_eq slot following
        obtain ⟨after, run, result⟩ := ih (level + 1) next (by omega) (by omega)
          (rewired.trans nextRewired) (by
            intro other address
            rw [nextLinks, links]
            by_cases same : other = level
            · subst same
              by_cases here : address = target other
              · simp only [here, and_self, ↓reduceIte, Nat.lt_succ_self, read]
              · simp only [here, and_false, ↓reduceIte]
            · have earlier : other < level + 1 ↔ other < level := by omega
              simp only [same, false_and, ↓reduceIte, earlier])
        refine ⟨after, ?_, result⟩
        simp only [unlinkLevels, point, bind, Except.bind, untouched, linked level treated,
          ↓reduceIte, read, wrote, run]
      · obtain rfl : level = height + 1 := by omega
        obtain ⟨following, read, other⟩ := passedBy (height + 1) (by omega) (Nat.lt_succ_self _)
        refine ⟨list, ?_, rewired, links⟩
        simp only [unlinkLevels, point, bind, Except.bind, untouched, read, other, ↓reduceIte]

end Link

/-- Insert points are the head or cells of the list. -/
theorem point_mem (list : Skiplist Key Value) (below above : List (Cell Key Value)) (level : Nat) :
    point list.head below level ∈ list.head :: (below ++ above).map Cell.address := by
  rcases List.mem_cons.mp (lastFrom_mem list.head ((tall level below).map Cell.address)) with
    same | later
  · rw [point, same]
    exact List.mem_cons_self
  · obtain ⟨cell, member, named⟩ := List.mem_map.mp later
    rw [point, ← named]
    exact List.mem_cons_of_mem _
      (List.mem_map_of_mem (List.mem_append_left _ (mem_of_mem_tall member)))

variable [LinearOrder Key]

/-- A new node that is linked behind its insert points on the levels up to its
height joins the chains of these levels. -/
theorem Chained.insert {before after : Skiplist Key Value} {below above : List (Cell Key Value)}
    (chained : Chained before (below ++ above)) (cell : Cell Key Value)
    (allBelow : ∀ other ∈ below, other.key < cell.key)
    (allAbove : ∀ other ∈ above, cell.key < other.key) (head : after.head = before.head)
    (old : ∀ address ∈ before.head :: (below ++ above).map Cell.address, address ≠ cell.address)
    (allocated : before.allocated ≤ after.allocated) (owned : cell.address < after.allocated)
    (stored : after.payload cell.address = some (cell.key, cell.value))
    (payload : ∀ address, address ≠ cell.address → after.payload address = before.payload address)
    (linkedNew : ∀ level ≤ cell.height, after.readForward level cell.address =
      before.readForward level (point before.head below level))
    (linkedPoint : ∀ level ≤ cell.height,
      after.readForward level (point before.head below level) = .ok (some cell.address))
    (other : ∀ level address, address ≠ cell.address →
      (level ≤ cell.height → address ≠ point before.head below level) →
      after.readForward level address = before.readForward level address) :
    Chained after (below ++ cell :: above) where
  ascending := by
    have ascending := chained.ascending
    rw [List.pairwise_append] at ascending ⊢
    refine ⟨ascending.1, List.pairwise_cons.mpr ⟨allAbove, ascending.2.1⟩, ?_⟩
    intro first firstMember second secondMember
    rcases List.mem_cons.mp secondMember with rfl | later
    · exact allBelow first firstMember
    · exact ascending.2.2 first firstMember second later
  distinct := by
    rw [head, List.map_append, List.map_cons, ← List.cons_append, List.nodup_middle,
      List.cons_append, ← List.map_append, List.nodup_cons]
    exact ⟨fun member => old _ member rfl, chained.distinct⟩
  owned := by
    intro address member
    rw [head, List.map_append, List.map_cons, ← List.cons_append,
      List.perm_middle.mem_iff, List.cons_append, ← List.map_append, List.mem_cons] at member
    rcases member with rfl | present
    · exact owned
    · exact (chained.owned address present).trans_le allocated
  stored := by
    intro listed member
    rw [List.perm_middle.mem_iff, List.mem_cons] at member
    rcases member with rfl | present
    · exact stored
    · rw [payload _ (old _ (List.mem_cons_of_mem _ (List.mem_map_of_mem present)))]
      exact chained.stored listed present
  linked := by
    intro level bounded
    have chain := chained.linked level bounded
    have distinct := chained.distinct_tall level
    have visited : ∀ address ∈ before.head :: (tall level (below ++ above)).map Cell.address,
        address ≠ cell.address := by
      intro address member
      apply old address
      rcases List.mem_cons.mp member with rfl | later
      · exact List.mem_cons_self
      · obtain ⟨listed, tallMember, rfl⟩ := List.mem_map.mp later
        exact List.mem_cons_of_mem _ (List.mem_map_of_mem (mem_of_mem_tall tallMember))
    rw [head, tall_append]
    by_cases treated : level ≤ cell.height
    · rw [tall_append, List.map_append] at chain distinct visited
      rw [tall_cons_of_le treated, List.map_append, List.map_cons]
      exact chain.insert distinct (fun member => visited _ member rfl) (linkedPoint level treated)
        (linkedNew level treated)
        (fun address new elsewhere => other level address new fun _ => elsewhere)
    · rw [tall_cons_of_not_le treated, ← tall_append]
      exact chain.congr fun address member =>
        other level address (visited address member) fun covered => absurd covered treated

/-- A node that is linked past on the levels up to its height leaves the chains. -/
theorem Chained.remove {before after : Skiplist Key Value} {below above : List (Cell Key Value)}
    {cell : Cell Key Value} (chained : Chained before (below ++ cell :: above))
    (head : after.head = before.head) (allocated : after.allocated = before.allocated)
    (payload : ∀ address, address ≠ cell.address → after.payload address = before.payload address)
    (linkedPast : ∀ level ≤ cell.height,
      after.readForward level (point before.head below level) =
        before.readForward level cell.address)
    (other : ∀ level address, address ≠ cell.address →
      (level ≤ cell.height → address ≠ point before.head below level) →
      after.readForward level address = before.readForward level address) :
    Chained after (below ++ above) := by
  have apart := chained.apart
  have part : (below ++ above).Sublist (below ++ cell :: above) :=
    (List.sublist_cons_self cell above).append_left below
  constructor
  · exact chained.ascending.sublist part
  · rw [head]
    exact apart.2
  · intro address member
    rw [allocated]
    rw [head] at member
    exact chained.owned address (((part.map Cell.address).cons_cons _).subset member)
  · intro listed member
    rw [payload _ fun same => apart.1 (List.mem_cons_of_mem _ (same ▸ List.mem_map_of_mem member))]
    exact chained.stored listed (part.subset member)
  · intro level bounded
    have chain := chained.linked level bounded
    rw [tall_append] at chain
    rw [head, tall_append]
    by_cases treated : level ≤ cell.height
    · have distinct := chained.distinct_tall level
      rw [tall_append] at distinct
      rw [tall_cons_of_le treated, List.map_append, List.map_cons] at chain distinct
      rw [List.map_append]
      exact chain.remove distinct (linkedPast level treated)
        (fun address new elsewhere => other level address new fun _ => elsewhere)
    · rw [tall_cons_of_not_le treated] at chain
      rw [← tall_append] at chain ⊢
      refine chain.congr fun address member => other level address ?_
        fun covered => absurd covered treated
      rintro rfl
      apply apart.1
      rcases List.mem_cons.mp member with same | later
      · rw [same]
        exact List.mem_cons_self
      · exact List.mem_cons_of_mem _ ((List.filter_sublist.map Cell.address).subset later)

/-! ### The empty list -/

theorem represents_new [Inhabited Key] [Inhabited Value] :
    Represents (new : Skiplist Key Value) [] where
  levelBound := show 0 < maxLevel by decide
  heightBound _ member := absurd member List.not_mem_nil
  levelReached := Or.inl rfl
  ascending := List.Pairwise.nil
  distinct := List.nodup_singleton _
  owned address member := by
    rw [List.map_nil, List.mem_singleton] at member
    rw [member]
    exact Nat.zero_lt_one
  stored _ member := absurd member List.not_mem_nil
  linked level inside := by
    change readForward _ _ _ = _
    simp only [readForward, readNode, new, Function.update_self, bind, Except.bind,
      getElem?_forward_makeNode_maxLevel _ _ inside]

/-! ### Insertion -/

namespace Represents

variable {list : Skiplist Key Value} {below above : List (Cell Key Value)} {k : Key}

/-- The insert point of a level links to the first later cell of the level. -/
theorem readForward_point (represents : Represents list (below ++ above)) {level : Nat}
    (inside : level < maxLevel) :
    list.readForward level (point list.head below level) =
      .ok ((tall level above).map Cell.address).head? := by
  have chain := represents.linked level inside
  rw [tall_append, List.map_append] at chain
  exact chain.drop.next_eq

/-- The recorded insert points, after the level was raised, cover every level of
the new node. -/
theorem readPoint_eq (represents : Represents list (below ++ above)) (insertLevel : Nat)
    {level : Nat} (covered : level ≤ insertLevel) :
    readPoint ((List.range (list.level + 1)).map (point list.head below) ++
      List.replicate (insertLevel - list.level) list.head) level =
      .ok (point list.head below level) := by
  rw [readPoint]
  by_cases recorded : level < list.level + 1
  · rw [List.getElem?_append_left (by simpa using recorded), List.getElem?_map,
      List.getElem?_range recorded, Option.map_some]
  · have high : list.level < level := by omega
    have shifted : level - (list.level + 1) < insertLevel - list.level := by omega
    rw [List.getElem?_append_right (by simpa using Nat.le_of_not_lt recorded), List.length_map,
      List.length_range, List.getElem?_replicate, if_pos shifted, represents.point_eq_head high]

/-- Linking a new node behind the recorded insert points adds its cell. -/
theorem insertNode_eq (represents : Represents list (below ++ above))
    (allBelow : ∀ cell ∈ below, cell.key < k) (allAbove : ∀ cell ∈ above, k < cell.key)
    {insertLevel : Nat} (inside : insertLevel < maxLevel) (v : Value) :
    ∃ after, list.insertNode ((List.range (list.level + 1)).map (point list.head below))
        insertLevel k v = .ok after ∧
      Represents after (below ++ ⟨list.allocated, k, v, insertLevel⟩ :: above) := by
  let raised : Skiplist Key Value :=
    { list with
      level := max list.level insertLevel
      nodes := Function.update list.nodes list.allocated (some (makeNode insertLevel k v))
      allocated := list.allocated + 1 }
  let cell : Cell Key Value := ⟨list.allocated, k, v, insertLevel⟩
  have old : ∀ address ∈ list.head :: (below ++ above).map Cell.address,
      address ≠ list.allocated :=
    fun address member => (represents.owned address member).ne
  have pointOld (level : Nat) : point list.head below level ≠ list.allocated :=
    old _ (point_mem list below above level)
  have forward (level : Nat) {address : Address} (other : address ≠ list.allocated) :
      raised.readForward level address = list.readForward level address :=
    readForward_update_of_ne _ other level _ _
  obtain ⟨after, run, rewired, links⟩ := linkLevels_eq raised list.allocated
    (point list.head below) (insertLevel + 1)
    (fun level less => represents.readPoint_eq insertLevel (Nat.le_of_lt_succ less))
    (fun level _ => pointOld level)
    (fun level less => ⟨_, (forward level (pointOld level)).trans
      (represents.readForward_point (by omega))⟩)
    (fun level less => ⟨makeNode insertLevel k v, Function.update_self .., by
      rw [length_forward_makeNode inside.le]
      omega⟩)
  have levels : after.level = max list.level insertLevel := rewired.level
  refine ⟨after, run, ⟨?_, ?_, ?_, ?_⟩⟩
  · apply represents.toChained.insert cell allBelow allAbove rewired.head old
    · exact rewired.allocated ▸ Nat.le_succ list.allocated
    · exact rewired.allocated ▸ Nat.lt_succ_self list.allocated
    · rw [rewired.payload]
      simp only [payload, raised, cell, Function.update_self, Option.map_some, makeNode]
    · intro address other
      rw [rewired.payload]
      exact payload_update_of_ne _ other _ _
    · intro level treated
      rw [links, if_pos (Nat.lt_succ_of_le treated), if_pos rfl, forward level (pointOld level)]
    · intro level treated
      rw [links, if_pos (Nat.lt_succ_of_le treated), if_neg (pointOld level), if_pos rfl]
    · intro level address other elsewhere
      rw [links, forward level other, if_neg other]
      by_cases treated : level < insertLevel + 1
      · rw [if_pos treated, if_neg (elsewhere (Nat.le_of_lt_succ treated))]
      · rw [if_neg treated]
  · rw [levels]
    exact max_lt represents.levelBound inside
  · intro other member
    rw [levels]
    rw [List.mem_append, List.mem_cons] at member
    rcases member with early | rfl | late
    · exact (represents.heightBound other (List.mem_append_left _ early)).trans (le_max_left _ _)
    · exact le_max_right _ _
    · exact (represents.heightBound other (List.mem_append_right _ late)).trans (le_max_left _ _)
  · rw [levels]
    by_cases raises : list.level ≤ insertLevel
    · refine Or.inr ⟨cell, List.mem_append_right _ List.mem_cons_self, ?_⟩
      rw [max_eq_right raises]
    · rw [max_eq_left (by omega)]
      apply represents.levelReached.imp_right
      intro covering
      obtain ⟨other, member, reached⟩ := covering
      refine ⟨other, ?_, reached⟩
      rw [List.mem_append] at member ⊢
      exact member.imp_right (List.mem_cons_of_mem _)

/-! ### Removal -/

/-- Lowering the level stops at the greatest height. -/
theorem shrinkLevel_eq {cells : List (Cell Key Value)} (chained : Chained list cells) (level : Nat)
    (inside : level < maxLevel) (heightBound : ∀ cell ∈ cells, cell.height ≤ level) :
    ∃ lowered, list.shrinkLevel level = .ok lowered ∧ lowered ≤ level ∧
      (∀ cell ∈ cells, cell.height ≤ lowered) ∧
      (lowered = 0 ∨ ∃ cell ∈ cells, cell.height = lowered) := by
  induction level with
  | zero =>
      refine ⟨0, ?_, le_rfl, heightBound, Or.inl rfl⟩
      simp only [shrinkLevel, (chained.linked 0 inside).next_eq, bind, Except.bind]
  | succ level ih =>
      have first := (chained.linked (level + 1) inside).next_eq
      cases highest : tall (level + 1) cells with
      | nil =>
          have lower : ∀ cell ∈ cells, cell.height ≤ level := by
            intro cell member
            have absent := List.filter_eq_nil_iff.mp highest cell member
            rw [decide_eq_true_eq] at absent
            omega
          obtain ⟨lowered, run, bound, result⟩ := ih (by omega) lower
          refine ⟨lowered, ?_, bound.trans (Nat.le_succ level), result⟩
          rw [highest, List.map_nil, List.head?_nil] at first
          simp only [shrinkLevel, first, bind, Except.bind, ↓reduceIte, run]
      | cons cell rest =>
          have member : cell ∈ tall (level + 1) cells := highest ▸ List.mem_cons_self
          have reached : level + 1 ≤ cell.height := of_decide_eq_true (List.mem_filter.mp member).2
          refine ⟨level + 1, ?_, le_rfl, heightBound, Or.inr ⟨cell, mem_of_mem_tall member, ?_⟩⟩
          · rw [highest, List.map_cons, List.head?_cons] at first
            simp only [shrinkLevel, first, bind, Except.bind, reduceCtorEq, ↓reduceIte]
          · have bounded := heightBound cell (mem_of_mem_tall member)
            omega

/-- Removing the node of a cell from the list removes the cell. -/
theorem unlink_eq {cell : Cell Key Value} (represents : Represents list (below ++ cell :: above)) :
    ∃ unlinked lowered, unlinkLevels ((List.range (list.level + 1)).map (point list.head below))
        cell.address (list.level + 1) 0 list = .ok unlinked ∧
      shrinkLevel { unlinked with nodes := Function.update unlinked.nodes cell.address none }
        unlinked.level = .ok lowered ∧
      Represents { unlinked with
        nodes := Function.update unlinked.nodes cell.address none
        level := lowered } (below ++ above) := by
  have member : cell ∈ below ++ cell :: above := List.mem_append_right _ List.mem_cons_self
  have bounded := represents.heightBound cell member
  have inside := represents.levelBound
  have apart (level : Nat) : point list.head below level ≠ cell.address := by
    intro same
    apply represents.apart.1
    rw [← same]
    exact point_mem list below above level
  have passed (level : Nat) (low : level < maxLevel) :=
    Represents.readForward_point represents low
  obtain ⟨unlinked, run, rewired, links⟩ := unlinkLevels_eq
    ((List.range (list.level + 1)).map (point list.head below)) (point list.head below) list
    cell.address cell.height list.level
    (fun level low => by
      rw [readPoint, List.getElem?_map, List.getElem?_range (Nat.lt_succ_of_le low),
        Option.map_some])
    (fun level low => by
      rw [passed level (by omega), tall_cons_of_le low, List.map_cons, List.head?_cons])
    (fun level low => by
      have chain := represents.linked level (by omega)
      rw [tall_append, tall_cons_of_le low, List.map_append, List.map_cons] at chain
      exact ⟨_, chain.drop.2.next_eq⟩)
    (fun level low high => by
      refine ⟨_, passed level (by omega), ?_⟩
      intro same
      have listed := List.mem_of_mem_head? same
      rw [tall_cons_of_not_le (Nat.not_le.mpr high)] at listed
      apply represents.apart.1
      rw [List.map_append]
      exact List.mem_cons_of_mem _ (List.mem_append_right _
        ((List.filter_sublist.map Cell.address).subset listed)))
    bounded (list.level + 1) 0 list (Nat.zero_le _) (Nat.zero_add _) (Rewired.refl list)
    (fun other address => by rw [if_neg (fun both => Nat.not_lt_zero other both.1)])
  let deleted (level : Nat) : Skiplist Key Value :=
    { unlinked with nodes := Function.update unlinked.nodes cell.address none, level := level }
  have chained (level : Nat) : Chained (deleted level) (below ++ above) := by
    refine represents.toChained.remove rewired.head rewired.allocated ?_ ?_ ?_
    · intro address other
      exact (payload_update_of_ne _ other _ _).trans (rewired.payload address)
    · intro height low
      refine (readForward_update_of_ne none (apart height) height level _).trans ?_
      rw [links, if_pos ⟨Nat.lt_succ_of_le low, rfl⟩]
    · intro height address other elsewhere
      refine (readForward_update_of_ne none other height level _).trans ?_
      rw [links, if_neg fun both => elsewhere (Nat.le_of_lt_succ both.1) both.2]
  have heights : ∀ other ∈ below ++ above, other.height ≤ unlinked.level := by
    intro other listed
    rw [rewired.level]
    exact represents.heightBound other
      (((List.sublist_cons_self cell above).append_left below).subset listed)
  obtain ⟨lowered, shrunk, lower, bound, reached⟩ :=
    shrinkLevel_eq (chained unlinked.level) unlinked.level (rewired.level ▸ inside) heights
  refine ⟨unlinked, lowered, run, shrunk, ⟨chained lowered, ?_, bound, reached⟩⟩
  exact (lower.trans rewired.level.le).trans_lt inside

end Represents

end LogProcess.Skiplist
