import LogProcess.Common.FnvHash
import LogProcess.Foundation.Decimal
import LogProcess.Foundation.OrderedMap

/-! # The consistent hash ring

`common/consistent_hash.cc` keeps virtual nodes in a map from hash codes to servers.
A key is routed to the first virtual node that is not below its hash. Above all
virtual nodes the source draws a random server, so routing is stable only for the
other keys (`ConsistentHash.stable_iff`). Additions and removals disturb no more
routes than they have to (`ConsistentHash.routing_changes_minimally`). The loop of
`DeleteServerNode` goes wrong exactly when the first virtual node is one of the server and
the second one is too or does not exist (`ConsistentHash.deletes_iff`). Everything holds
for an arbitrary hash function.
-/

namespace LogProcess

structure ConsistentHash where
  servers : List Str
  serverNodesVnodes : OrderedMap Int Str
  vnodeNum : Int

/-- What can go wrong in the loop of `DeleteServerNode`. -/
inductive RingFault where
  | pastEnd
  | diverged
  deriving DecidableEq, Repr

namespace ConsistentHash

section Operations

variable (hash : Str → BitVec 32)

/-- `ConsistentHash::FNV1_32_HASH` on a whole string. -/
def fnv1Hash32 (key : Str) : BitVec 32 := fnv1Hash32Length key key.length

/-- The key of the ring, where the unsigned hash becomes an `int`. -/
def hashcode (key : Str) : Int := (hash key).toInt

/-- The name of a virtual node. -/
def virtualNode (server : Str) (number : Nat) : Str := server ++ bytes ":" ++ Decimal.text number

/-- Enter the virtual nodes of a server. -/
def insertVnodes (vnodeNum : Int) (vnodes : OrderedMap Int Str) (server : Str) :
    OrderedMap Int Str :=
  (List.range vnodeNum.toNat).foldl
    (fun vnodes number => vnodes.assign (hashcode hash (virtualNode server number)) server) vnodes

/-- The constructor with `Init`. The assertion makes `node_num_` the number of servers. -/
def new (servers : List Str) (vnodeNum : Int) : ConsistentHash where
  servers := servers
  serverNodesVnodes := servers.foldl (insertVnodes hash vnodeNum) OrderedMap.empty
  vnodeNum := vnodeNum

/-- `GetServerNode` with the value that `std::random_device` yields. It has no result
when it would divide by the size of an empty list. -/
def getServerNode (ring : ConsistentHash) (key : Str) (rd : BitVec 32) : Option Str :=
  match ring.serverNodesVnodes.lowerBound (hashcode hash key) with
  | none => ring.servers[rd.toNat % ring.servers.length]?
  | some vnode => some vnode.2

def addServerNode (ring : ConsistentHash) (server : Str) : ConsistentHash where
  servers := ring.servers ++ [server]
  serverNodesVnodes := insertVnodes hash ring.vnodeNum ring.serverNodesVnodes server
  vnodeNum := ring.vnodeNum

/-- The loop of `DeleteServerNode` from an iterator on, given by its position. After an
erasure the iterator is set to the beginning and then incremented. -/
def eraseVnodes (server : Str) :
    Nat → Nat → OrderedMap Int Str → Except RingFault (OrderedMap Int Str)
  | 0, _, _ => .error .diverged
  | fuel + 1, position, vnodes =>
      match vnodes.entries[position]? with
      | none => .ok vnodes
      | some vnode =>
          if server = vnode.2 then
            if (vnodes.erase vnode.1).entries = [] then
              .error .pastEnd
            else
              eraseVnodes server fuel 1 (vnodes.erase vnode.1)
          else
            eraseVnodes server fuel (position + 1) vnodes

def deleteServerNode (ring : ConsistentHash) (server : Str) :
    Except RingFault ConsistentHash := do
  let vnodes ← eraseVnodes server ((ring.serverNodesVnodes.entries.length + 1) ^ 2) 0
    ring.serverNodesVnodes
  .ok { ring with
    servers := ring.servers.filter fun other => server ≠ other
    serverNodesVnodes := vnodes }

/-- The ring after the constructor and some additions. -/
def build (servers : List Str) (vnodeNum : Int) (additions : List Str) : ConsistentHash :=
  additions.foldl (addServerNode hash) (new hash servers vnodeNum)

end Operations

/-! ### Routing -/

section Routing

variable (hash : Str → BitVec 32)

/-- At or below some virtual node the random value is never asked for. -/
theorem getServerNode_of_covered {ring : ConsistentHash} {key : Str}
    (covered : ∃ vnode ∈ ring.serverNodesVnodes.entries, hashcode hash key ≤ vnode.1) :
    ∃ vnode, ring.serverNodesVnodes.lowerBound (hashcode hash key) = some vnode ∧
      ∀ rd, ring.getServerNode hash key rd = some vnode.2 := by
  cases bound : ring.serverNodesVnodes.lowerBound (hashcode hash key) with
  | none =>
      obtain ⟨vnode, member, reached⟩ := covered
      have below := (OrderedMap.lowerBound_eq_none_iff _ _).mp bound vnode member
      exact absurd reached (not_le.mpr below)
  | some vnode => exact ⟨vnode, rfl, fun rd => by simp only [getServerNode, bound]⟩

/-- At or below some virtual node the server depends on the hash only. -/
theorem getServerNode_congr {ring : ConsistentHash} {first second : Str}
    (same : hash first = hash second)
    (covered : ∃ vnode ∈ ring.serverNodesVnodes.entries, hashcode hash first ≤ vnode.1)
    (rd other : BitVec 32) :
    ring.getServerNode hash first rd = ring.getServerNode hash second other := by
  obtain ⟨vnode, bound, routed⟩ := getServerNode_of_covered hash covered
  rw [hashcode, same, ← hashcode] at bound
  rw [routed, getServerNode, bound]

/-- Above all virtual nodes the random value picks the server. -/
theorem getServerNode_of_not_covered {ring : ConsistentHash} {key : Str}
    (uncovered : ¬∃ vnode ∈ ring.serverNodesVnodes.entries, hashcode hash key ≤ vnode.1)
    (rd : BitVec 32) :
    ring.getServerNode hash key rd = ring.servers[rd.toNat % ring.servers.length]? := by
  have bound : ring.serverNodesVnodes.lowerBound (hashcode hash key) = none := by
    rw [OrderedMap.lowerBound_eq_none_iff]
    exact fun vnode member => not_le.mp fun reached => uncovered ⟨vnode, member, reached⟩
  simp only [getServerNode, bound]

/-- The servers that some random value picks. -/
theorem mem_take_iff_exists_draw (servers : List Str) (nonempty : servers ≠ []) (server : Str) :
    server ∈ servers.take (2 ^ 32) ↔
      ∃ rd : BitVec 32, servers[rd.toNat % servers.length]? = some server := by
  have positive := List.length_pos_iff.mpr nonempty
  rw [List.mem_take_iff_getElem]
  refine ⟨?_, ?_⟩
  · intro position
    obtain ⟨i, inside, rfl⟩ := position
    rw [lt_min_iff] at inside
    refine ⟨BitVec.ofNat 32 i, ?_⟩
    rw [BitVec.toNat_ofNat, Nat.mod_eq_of_lt inside.1, Nat.mod_eq_of_lt inside.2,
      List.getElem?_eq_getElem inside.2]
  · intro drawable
    obtain ⟨rd, found⟩ := drawable
    obtain ⟨inside, rfl⟩ := List.getElem?_eq_some_iff.mp found
    exact ⟨_, lt_min ((Nat.mod_le _ _).trans_lt rd.isLt) inside, rfl⟩

theorem servers_build (servers : List Str) (vnodeNum : Int) (additions : List Str) :
    (build hash servers vnodeNum additions).servers = servers ++ additions := by
  induction additions using List.reverseRecOn with
  | nil => rw [build, List.foldl_nil, new, List.append_nil]
  | append_singleton additions server ih =>
      rw [build, List.foldl_concat, addServerNode, ← build, ih,
        List.append_assoc]

/-- Every virtual node belongs to a server of the list. -/
def Closed (ring : ConsistentHash) : Prop :=
  ∀ vnode ∈ ring.serverNodesVnodes.entries, vnode.2 ∈ ring.servers

theorem mem_insertVnodes {vnodeNum : Int} {vnodes : OrderedMap Int Str} {server : Str}
    {vnode : Int × Str} (member : vnode ∈ (insertVnodes hash vnodeNum vnodes server).entries) :
    vnode ∈ vnodes.entries ∨ vnode.2 = server := by
  rw [insertVnodes] at member
  generalize List.range vnodeNum.toNat = numbers at member
  induction numbers using List.reverseRecOn with
  | nil => exact .inl member
  | append_singleton numbers number ih =>
      rw [List.foldl_concat, OrderedMap.mem_assign] at member
      rcases member with rfl | ⟨earlier, _⟩
      · exact .inr rfl
      · exact ih earlier

theorem closed_build (servers : List Str) (vnodeNum : Int) (additions : List Str) :
    (build hash servers vnodeNum additions).Closed := by
  induction additions using List.reverseRecOn with
  | nil =>
      have entered (front : List Str) (vnode : Int × Str)
          (member : vnode ∈ (front.foldl (insertVnodes hash vnodeNum) OrderedMap.empty).entries) :
          vnode.2 ∈ front := by
        induction front using List.reverseRecOn with
        | nil => exact absurd member List.not_mem_nil
        | append_singleton front server ih =>
            rw [List.foldl_concat] at member
            rcases mem_insertVnodes hash member with earlier | same
            · exact List.mem_append_left _ (ih earlier)
            · exact List.mem_append_right _ (List.mem_singleton.mpr same)
      exact fun vnode member => entered servers vnode member
  | append_singleton additions server ih =>
      intro vnode member
      rw [build, List.foldl_concat, ← build] at member ⊢
      rcases mem_insertVnodes hash member with earlier | same
      · exact List.mem_append_left _ (ih vnode earlier)
      · exact List.mem_append_right _ (List.mem_singleton.mpr same)

/-- Keys are routed to servers of the list. -/
theorem mem_servers_of_getServerNode {ring : ConsistentHash} (closed : ring.Closed)
    {key server : Str} {rd : BitVec 32} (routed : ring.getServerNode hash key rd = some server) :
    server ∈ ring.servers := by
  rw [getServerNode] at routed
  cases bound : ring.serverNodesVnodes.lowerBound (hashcode hash key) with
  | none =>
      rw [bound] at routed
      exact List.mem_of_getElem? routed
  | some vnode =>
      rw [bound] at routed
      obtain rfl := Option.some.inj routed
      exact closed vnode ((OrderedMap.lowerBound_eq_some_iff ..).mp bound).1

/-- **Stable routing.** The server of a key is independent of the random value exactly
when some virtual node is not below the hash of the key, or all servers that can be
drawn are one server. -/
theorem stable_iff (servers : List Str) (vnodeNum : Int) (additions : List Str) (key : Str)
    (nonempty : servers ≠ []) :
    (∃ server, ∀ rd, (build hash servers vnodeNum additions).getServerNode hash key rd =
        some server) ↔
      (∃ vnode ∈ (build hash servers vnodeNum additions).serverNodesVnodes.entries,
          hashcode hash key ≤ vnode.1) ∨
        ∀ first ∈ (servers ++ additions).take (2 ^ 32),
          ∀ second ∈ (servers ++ additions).take (2 ^ 32), first = second := by
  have routable : servers ++ additions ≠ [] := List.append_ne_nil_of_left_ne_nil nonempty _
  by_cases covered : ∃ vnode ∈ (build hash servers vnodeNum additions).serverNodesVnodes.entries,
      hashcode hash key ≤ vnode.1
  · obtain ⟨vnode, _, routed⟩ := getServerNode_of_covered hash covered
    exact iff_of_true ⟨vnode.2, routed⟩ (Or.inl covered)
  · simp only [getServerNode_of_not_covered hash covered, servers_build, covered, false_or,
      mem_take_iff_exists_draw _ routable]
    refine ⟨?_, ?_⟩
    · rintro ⟨server, drawn⟩ first ⟨rd, found⟩ second ⟨other, otherFound⟩
      rw [drawn, Option.some.injEq] at found otherFound
      exact found.symm.trans otherFound
    · intro same
      have drawn (rd : BitVec 32) :
          ∃ server, (servers ++ additions)[rd.toNat % (servers ++ additions).length]? =
            some server :=
        ⟨_, List.getElem?_eq_getElem (Nat.mod_lt _ (List.length_pos_iff.mpr routable))⟩
      obtain ⟨server, found⟩ := drawn 0
      refine ⟨server, fun rd => ?_⟩
      obtain ⟨other, otherFound⟩ := drawn rd
      rw [otherFound, same other ⟨rd, otherFound⟩ server ⟨0, found⟩]

/-- A key in the gap above the last virtual node. -/
theorem stable_fails_above_ring :
    ¬∃ server, ∀ rd, (build fnv1Hash32 [bytes "a", bytes "b"] 1 []).getServerNode fnv1Hash32
      (bytes "c") rd = some server := by
  intro stable
  obtain ⟨server, drawn⟩ := stable
  have first := drawn 0
  have second := drawn 1
  rw [show (build fnv1Hash32 [bytes "a", bytes "b"] 1 []).getServerNode fnv1Hash32 (bytes "c") 0 =
    some (bytes "a") by decide, Option.some.injEq] at first
  rw [show (build fnv1Hash32 [bytes "a", bytes "b"] 1 []).getServerNode fnv1Hash32 (bytes "c") 1 =
    some (bytes "b") by decide, ← first] at second
  exact absurd second (by decide)

/-- The condition is met by a key at or below a virtual node. -/
theorem stable_inside_ring :
    ∃ server, ∀ rd, (build fnv1Hash32 [bytes "a", bytes "b"] 1 []).getServerNode fnv1Hash32
      (bytes "k") rd = some server :=
  (stable_iff fnv1Hash32 [bytes "a", bytes "b"] 1 [] (bytes "k") (by decide)).mpr
    (Or.inl ⟨(1705625969, bytes "a"), by decide, by decide⟩)

end Routing

/-! ### Deletion -/

section Deletion

variable {server : Str}

/-- The loop from a position on, past a virtual node that is never looked at again. It
drops the remaining virtual nodes of the server. -/
theorem eraseVnodes_eq (server : Str) (head : Int × Str) (fuel : Nat)
    (scanned rest : List (Int × Str))
    (vnodes : OrderedMap Int Str) (entries : vnodes.entries = head :: (scanned ++ rest))
    (clean : ∀ vnode ∈ scanned, server ≠ vnode.2)
    (enough : rest.length + (scanned.length + rest.length + 1) ^ 2 < fuel) :
    ∃ after, eraseVnodes server fuel (scanned.length + 1) vnodes = .ok after ∧
      after.entries = head :: (scanned ++ rest).filter fun vnode => server ≠ vnode.2 := by
  induction fuel generalizing scanned rest vnodes with
  | zero => exact absurd enough (Nat.not_lt_zero _)
  | succ fuel ih =>
      cases rest with
      | nil =>
          rw [List.append_nil] at entries ⊢
          refine ⟨vnodes, ?_, ?_⟩
          · rw [eraseVnodes, entries, List.getElem?_eq_none (by simp)]
          · rw [entries, List.filter_eq_self.mpr]
            exact fun vnode member => decide_eq_true (clean vnode member)
      | cons vnode rest =>
          have reached : vnodes.entries[scanned.length + 1]? = some vnode := by
            rw [entries, List.getElem?_cons_succ, List.getElem?_append_right le_rfl, Nat.sub_self,
              List.getElem?_cons_zero]
          rw [List.length_cons] at enough
          by_cases hit : server = vnode.2
          · have erased : (vnodes.erase vnode.1).entries = head :: ([] ++ (scanned ++ rest)) :=
              OrderedMap.entries_erase_middle vnodes
                (show _ = (head :: scanned) ++ vnode :: rest from entries)
            have shorter := ih [] (scanned ++ rest) (vnodes.erase vnode.1) erased
              (fun _ member => absurd member List.not_mem_nil) (by
                rw [List.length_nil, List.length_append, Nat.zero_add]
                nlinarith)
            rw [eraseVnodes, reached]
            simp only [hit, ↓reduceIte, erased, reduceCtorEq]
            rw [hit] at shorter
            simpa only [List.length_nil, List.nil_append, Nat.zero_add, List.filter_append,
              List.filter_cons, ne_eq, not_true_eq_false, decide_false, Bool.false_eq_true,
              ↓reduceIte] using shorter
          · have further : ∀ other ∈ scanned ++ [vnode], server ≠ other.2 := by
              intro other member
              rcases List.mem_append.mp member with earlier | last
              · exact clean other earlier
              · exact List.mem_singleton.mp last ▸ hit
            have onward := ih (scanned ++ [vnode]) rest vnodes
              (by rw [entries, List.append_assoc, List.singleton_append]) further (by
                have same : scanned.length + 1 + rest.length + 1 =
                    scanned.length + (rest.length + 1) + 1 := by omega
                rw [List.length_append, List.length_singleton, same]
                omega)
            rw [eraseVnodes, reached]
            simp only [hit, ↓reduceIte]
            simpa only [List.length_append, List.length_singleton, List.append_assoc,
              List.singleton_append] using onward

/-- What the loop leaves of the virtual nodes: when the first one is erased, the one
after it is never looked at. -/
def survivors (server : Str) : List (Int × Str) → Except RingFault (List (Int × Str))
  | [] => .ok []
  | [first] => if server = first.2 then .error .pastEnd else .ok [first]
  | first :: second :: rest =>
      if server = first.2 then
        .ok (second :: rest.filter fun vnode => server ≠ vnode.2)
      else
        .ok (first :: (second :: rest).filter fun vnode => server ≠ vnode.2)

/-- The loop ends, and leaves the survivors or increments the end iterator. -/
theorem eraseVnodes_map_entries (vnodes : OrderedMap Int Str) {fuel : Nat}
    (enough : (vnodes.entries.length + 1) ^ 2 ≤ fuel) :
    (eraseVnodes server fuel 0 vnodes).map OrderedMap.entries =
      survivors server vnodes.entries := by
  obtain ⟨fuel, rfl⟩ := Nat.exists_eq_add_of_le' (Nat.one_le_of_lt
    (Nat.lt_of_lt_of_le (Nat.pow_pos (Nat.succ_pos _)) enough))
  rw [eraseVnodes]
  cases entries : vnodes.entries with
  | nil => simp only [List.getElem?_nil, Except.map, entries, survivors]
  | cons first rest =>
      rw [entries, List.length_cons] at enough
      rw [List.getElem?_cons_zero]
      by_cases hit : server = first.2
      · have erased : (vnodes.erase first.1).entries = rest :=
          OrderedMap.entries_erase_middle vnodes (show _ = [] ++ first :: rest from entries)
        cases rest with
        | nil => simp only [hit, ↓reduceIte, erased, Except.map, survivors]
        | cons second later =>
            obtain ⟨after, run, result⟩ := eraseVnodes_eq server second fuel [] later
              (vnodes.erase first.1) erased (fun _ member => absurd member List.not_mem_nil)
              (by
                simp only [List.length_cons, List.length_nil] at enough ⊢
                nlinarith)
            rw [List.length_nil, Nat.zero_add] at run
            simp only [hit, ↓reduceIte, erased, reduceCtorEq] at run ⊢
            simp only [run, Except.map, result, survivors, ↓reduceIte, hit, List.nil_append]
      · obtain ⟨after, run, result⟩ := eraseVnodes_eq server first fuel [] rest vnodes
          entries (fun _ member => absurd member List.not_mem_nil) (by
            simp only [List.length_nil] at enough ⊢
            nlinarith)
        rw [List.length_nil, Nat.zero_add] at run
        simp only [hit, ↓reduceIte, Nat.zero_add, run, Except.map, result, List.nil_append]
        cases rest with
        | nil => simp only [survivors, hit, ↓reduceIte, List.filter_nil]
        | cons second later => simp only [survivors, hit, ↓reduceIte]

/-- A deletion completes with the survivors, or increments the end iterator. -/
theorem deleteServerNode_eq (ring : ConsistentHash) (server : Str) :
    match survivors server ring.serverNodesVnodes.entries with
    | .ok left => ∃ after, ring.deleteServerNode server = .ok after ∧
        after.serverNodesVnodes.entries = left ∧
        after.servers = ring.servers.filter fun other => server ≠ other
    | .error fault => ring.deleteServerNode server = .error fault := by
  rw [← eraseVnodes_map_entries ring.serverNodesVnodes le_rfl, deleteServerNode]
  cases eraseVnodes server ((ring.serverNodesVnodes.entries.length + 1) ^ 2) 0
      ring.serverNodesVnodes with
  | ok vnodes => exact ⟨_, rfl, rfl, rfl⟩
  | error fault => rfl

/-- The survivors are virtual nodes of the ring, and no other server loses one. -/
theorem survivors_keeps {vnodes left : List (Int × Str)}
    (run : survivors server vnodes = .ok left) :
    (∀ vnode ∈ left, vnode ∈ vnodes) ∧ ∀ vnode ∈ vnodes, server ≠ vnode.2 → vnode ∈ left := by
  match vnodes with
  | [] =>
      cases run
      exact ⟨fun _ => id, fun _ member _ => member⟩
  | [first] =>
      rw [survivors] at run
      split at run <;> cases run
      exact ⟨fun _ => id, fun _ member _ => member⟩
  | first :: second :: rest =>
      rw [survivors] at run
      split at run
      · rename_i hit
        cases run
        refine ⟨?_, ?_⟩
        · intro vnode member
          rcases List.mem_cons.mp member with rfl | later
          · exact List.mem_cons_of_mem _ List.mem_cons_self
          · exact List.mem_cons_of_mem _ (List.mem_cons_of_mem _ (List.mem_filter.mp later).1)
        · intro vnode member other
          rcases List.mem_cons.mp member with rfl | later
          · exact absurd hit other
          · rcases List.mem_cons.mp later with rfl | last
            · exact List.mem_cons_self
            · exact List.mem_cons_of_mem _ (List.mem_filter.mpr ⟨last, decide_eq_true other⟩)
      · cases run
        refine ⟨?_, ?_⟩
        · intro vnode member
          rcases List.mem_cons.mp member with rfl | later
          · exact List.mem_cons_self
          · exact List.mem_cons_of_mem _ (List.mem_filter.mp later).1
        · intro vnode member other
          rcases List.mem_cons.mp member with rfl | later
          · exact List.mem_cons_self
          · exact List.mem_cons_of_mem _ (List.mem_filter.mpr ⟨later, decide_eq_true other⟩)

/-- A completed deletion keeps all virtual nodes of the other servers and adds none. -/
theorem deleteServerNode_keeps {ring after : ConsistentHash}
    (deleted : ring.deleteServerNode server = .ok after) :
    (∀ vnode ∈ after.serverNodesVnodes.entries, vnode ∈ ring.serverNodesVnodes.entries) ∧
      ∀ vnode ∈ ring.serverNodesVnodes.entries, server ≠ vnode.2 →
        vnode ∈ after.serverNodesVnodes.entries := by
  have result := deleteServerNode_eq ring server
  cases run : survivors server ring.serverNodesVnodes.entries with
  | error fault =>
      rw [run] at result
      rw [result] at deleted
      cases deleted
  | ok left =>
      rw [run] at result
      obtain ⟨other, completed, entries, _⟩ := result
      rw [completed, Except.ok.injEq] at deleted
      rw [← deleted, entries]
      exact survivors_keeps run

end Deletion

/-! ### Changes of the routing -/

section Disruption

variable (hash : Str → BitVec 32)

/-- One more virtual node takes over a key or leaves its virtual node alone. -/
theorem lowerBound_assign {vnodes : OrderedMap Int Str} {code : Int} {vnode : Int × Str}
    (bound : vnodes.lowerBound code = some vnode) (position : Int) (server : Str) :
    ∃ other, (vnodes.assign position server).lowerBound code = some other ∧
      (other = vnode ∨ other.2 = server) := by
  rw [OrderedMap.lowerBound_eq_some_iff] at bound
  obtain ⟨member, reached, least⟩ := bound
  cases result : (vnodes.assign position server).lowerBound code with
  | none =>
      have below := (OrderedMap.lowerBound_eq_none_iff _ _).mp result
      by_cases same : vnode.1 = position
      · have entered := below (position, server) ((vnodes.mem_assign _ _ _).mpr (Or.inl rfl))
        exact absurd reached (not_le.mpr (same ▸ entered))
      · have kept := below vnode ((vnodes.mem_assign _ _ _).mpr (Or.inr ⟨member, same⟩))
        exact absurd reached (not_le.mpr kept)
  | some other =>
      refine ⟨other, rfl, ?_⟩
      obtain ⟨otherMember, otherReached, otherLeast⟩ :=
        (OrderedMap.lowerBound_eq_some_iff _ _ _).mp result
      rcases (vnodes.mem_assign _ _ _).mp otherMember with rfl | ⟨old, otherPosition⟩
      · exact Or.inr rfl
      · have after := least other old otherReached
        by_cases same : vnode.1 = position
        · have entered := otherLeast (position, server)
            ((vnodes.mem_assign _ _ _).mpr (Or.inl rfl)) (same ▸ reached)
          exact absurd (le_antisymm entered (same ▸ after)) otherPosition
        · have before := otherLeast vnode
            ((vnodes.mem_assign _ _ _).mpr (Or.inr ⟨member, same⟩)) reached
          exact Or.inl (vnodes.eq_of_mem old member (le_antisymm before after))

/-- All virtual nodes of a new server together. -/
theorem lowerBound_insertVnodes {vnodes : OrderedMap Int Str} {code : Int} {vnode : Int × Str}
    (bound : vnodes.lowerBound code = some vnode) (vnodeNum : Int) (server : Str) :
    ∃ other, (insertVnodes hash vnodeNum vnodes server).lowerBound code = some other ∧
      (other.2 = vnode.2 ∨ other.2 = server) := by
  rw [insertVnodes]
  generalize List.range vnodeNum.toNat = numbers
  induction numbers generalizing vnodes vnode with
  | nil => exact ⟨vnode, bound, Or.inl rfl⟩
  | cons number rest ih =>
      obtain ⟨middle, middleBound, middleServer⟩ :=
        lowerBound_assign bound (hashcode hash (virtualNode server number)) server
      obtain ⟨other, otherBound, otherServer⟩ := ih middleBound
      refine ⟨other, otherBound, ?_⟩
      rcases otherServer with same | taken
      · rcases middleServer with rfl | taken
        · exact Or.inl same
        · exact Or.inr (same.trans taken)
      · exact Or.inr taken

/-- **Minimal disruption.** A key that is not above all virtual nodes keeps its server
when another one is added or removed, unless the added server takes it over. -/
theorem routing_changes_minimally (ring : ConsistentHash) (server key : Str) (rd rd' : BitVec 32)
    (covered : ∃ vnode ∈ ring.serverNodesVnodes.entries, hashcode hash key ≤ vnode.1) :
    ∃ routed, ring.getServerNode hash key rd = some routed ∧
      ((ring.addServerNode hash server).getServerNode hash key rd' = some routed ∨
        (ring.addServerNode hash server).getServerNode hash key rd' = some server) ∧
      ∀ after, ring.deleteServerNode server = .ok after → routed ≠ server →
        after.getServerNode hash key rd' = some routed := by
  obtain ⟨vnode, bound, routed⟩ := getServerNode_of_covered hash covered
  refine ⟨vnode.2, routed rd, ?_, ?_⟩
  · obtain ⟨other, otherBound, otherServer⟩ :=
      lowerBound_insertVnodes hash bound ring.vnodeNum server
    simp only [addServerNode, getServerNode, otherBound, Option.some.injEq]
    exact otherServer
  · intro after deleted stays
    obtain ⟨subset, keeps⟩ := deleteServerNode_keeps deleted
    obtain ⟨member, reached, least⟩ := (OrderedMap.lowerBound_eq_some_iff _ _ _).mp bound
    have afterBound : after.serverNodesVnodes.lowerBound (hashcode hash key) = some vnode := by
      rw [OrderedMap.lowerBound_eq_some_iff]
      exact ⟨keeps vnode member (Ne.symm stays), reached,
        fun other otherMember => least other (subset other otherMember)⟩
    simp only [getServerNode, afterBound]

/-- A ring of two servers, to which a third one is added or from which one is removed. -/
theorem routing_changes_minimally_on_two_servers :
    (((build fnv1Hash32 [bytes "a", bytes "b"] 1 []).addServerNode fnv1Hash32
          (bytes "c")).getServerNode fnv1Hash32 (bytes "k") 1 = some (bytes "a") ∨
        ((build fnv1Hash32 [bytes "a", bytes "b"] 1 []).addServerNode fnv1Hash32
          (bytes "c")).getServerNode fnv1Hash32 (bytes "k") 1 = some (bytes "c")) ∧
      ∃ after, (build fnv1Hash32 [bytes "a", bytes "b"] 1 []).deleteServerNode (bytes "b") =
        .ok after ∧ after.getServerNode fnv1Hash32 (bytes "k") 1 = some (bytes "a") := by
  have here : (build fnv1Hash32 [bytes "a", bytes "b"] 1 []).getServerNode fnv1Hash32
      (bytes "k") 0 = some (bytes "a") := by decide +kernel
  refine ⟨?_, ?_⟩
  · obtain ⟨routed, known, added, _⟩ := routing_changes_minimally fnv1Hash32
      (build fnv1Hash32 [bytes "a", bytes "b"] 1 []) (bytes "c") (bytes "k") 0 1
      ⟨(1705625969, bytes "a"), by decide, by decide⟩
    obtain rfl := Option.some.inj (here.symm.trans known)
    exact added
  · obtain ⟨routed, known, _, removed⟩ := routing_changes_minimally fnv1Hash32
      (build fnv1Hash32 [bytes "a", bytes "b"] 1 []) (bytes "b") (bytes "k") 0 1
      ⟨(1705625969, bytes "a"), by decide, by decide⟩
    obtain rfl := Option.some.inj (here.symm.trans known)
    exact ⟨_, rfl, removed _ rfl (by decide)⟩

end Disruption

/-! ### Complete deletion -/

section Removal

variable (hash : Str → BitVec 32)

/-- After the deletion no virtual node and no route leads to the server. -/
def RemovesAll (ring : ConsistentHash) (server : Str) : Prop :=
  ∃ after, ring.deleteServerNode server = .ok after ∧
    (∀ vnode ∈ after.serverNodesVnodes.entries, vnode.2 ≠ server) ∧
    ∀ key rd, after.getServerNode hash key rd ≠ some server

/-- The ring does not start with two virtual nodes of the server, nor consist of one. -/
def StartsApart (ring : ConsistentHash) (server : Str) : Prop :=
  ∀ first, ring.serverNodesVnodes.entries[0]? = some first → first.2 = server →
    ∃ second, ring.serverNodesVnodes.entries[1]? = some second ∧ second.2 ≠ server

theorem removesAll_iff_survivors (ring : ConsistentHash) (server : Str) :
    RemovesAll hash ring server ↔ ∃ left, survivors server ring.serverNodesVnodes.entries =
      .ok left ∧ ∀ vnode ∈ left, vnode.2 ≠ server := by
  have result := deleteServerNode_eq ring server
  cases run : survivors server ring.serverNodesVnodes.entries with
  | error fault =>
      rw [run] at result
      simp only [RemovesAll, result, reduceCtorEq, false_and, exists_false]
  | ok left =>
      rw [run] at result
      obtain ⟨after, completed, entries, servers⟩ := result
      simp only [RemovesAll, completed, Except.ok.injEq, exists_eq_left', entries]
      refine ⟨And.left, fun gone => ⟨gone, fun key rd routed => ?_⟩⟩
      rw [getServerNode] at routed
      cases bound : after.serverNodesVnodes.lowerBound (hashcode hash key) with
      | none =>
          rw [bound, servers] at routed
          have member := List.mem_of_getElem? routed
          rw [List.mem_filter, decide_eq_true_eq] at member
          exact member.2 rfl
      | some vnode =>
          rw [bound, Option.some.injEq] at routed
          have member := ((OrderedMap.lowerBound_eq_some_iff _ _ _).mp bound).1
          exact gone vnode (entries ▸ member) routed

/-- **Deletion.** The loop ends with all virtual nodes of the server erased exactly when the
first virtual node is not one of them, or it is followed by one of another server. -/
theorem deletes_iff (servers : List Str) (vnodeNum : Int) (additions : List Str) (server : Str) :
    RemovesAll hash (build hash servers vnodeNum additions) server ↔
      StartsApart (build hash servers vnodeNum additions) server := by
  rw [removesAll_iff_survivors, StartsApart]
  generalize (build hash servers vnodeNum additions).serverNodesVnodes.entries = vnodes
  match vnodes with
  | [] => simp only [survivors, Except.ok.injEq, exists_eq_left', List.not_mem_nil,
      IsEmpty.forall_iff, implies_true, List.getElem?_nil, reduceCtorEq]
  | [first] =>
      simp only [survivors, List.getElem?_cons_zero, List.getElem?_cons_succ, List.getElem?_nil,
        Option.some.injEq, forall_eq', reduceCtorEq, false_and, exists_false]
      by_cases hit : server = first.2
      · simp only [hit, ↓reduceIte, reduceCtorEq, false_and, exists_false, forall_const]
      · simp only [hit, ↓reduceIte, Except.ok.injEq, exists_eq_left', List.mem_singleton,
          forall_eq, Ne.symm hit, ne_eq, not_false_eq_true, IsEmpty.forall_iff]
  | first :: second :: rest =>
      have filtered (later : List (Int × Str)) :
          ∀ vnode ∈ later.filter fun vnode => server ≠ vnode.2, vnode.2 ≠ server :=
        fun vnode member => Ne.symm (of_decide_eq_true (List.mem_filter.mp member).2)
      simp only [survivors, List.getElem?_cons_zero, List.getElem?_cons_succ, Option.some.injEq,
        forall_eq', exists_eq_left']
      by_cases hit : server = first.2
      · rw [if_pos hit]
        simp only [Except.ok.injEq, exists_eq_left', List.forall_mem_cons]
        exact ⟨fun gone _ => gone.1, fun apart => ⟨apart hit.symm, filtered rest⟩⟩
      · rw [if_neg hit]
        simp only [Except.ok.injEq, exists_eq_left', List.forall_mem_cons]
        exact iff_of_true ⟨Ne.symm hit, filtered _⟩ fun same => absurd same.symm hit

/-- A ring that consists of virtual nodes of one server keeps one of them. -/
theorem deletes_fails_on_single_server :
    ¬RemovesAll fnv1Hash32 (build fnv1Hash32 [bytes "a"] 2 []) (bytes "a") := by
  rw [removesAll_iff_survivors]
  have entries : (build fnv1Hash32 [bytes "a"] 2 []).serverNodesVnodes.entries =
      [(1705625969, bytes "a"), (2146021830, bytes "a")] := by decide
  intro removed
  obtain ⟨left, run, gone⟩ := removed
  rw [entries, survivors, if_pos rfl, Except.ok.injEq] at run
  exact gone (2146021830, bytes "a") (run ▸ List.mem_cons_self) rfl

end Removal

end ConsistentHash

end LogProcess
