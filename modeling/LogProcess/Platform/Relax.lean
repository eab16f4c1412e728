import LogProcess.Foundation.Decimal
import LogProcess.Foundation.FirstMinimum
import LogProcess.Process.ReadFromRocksdb

/-! # The relaxing node

`SubmitHealthInfo` of `preprocess/preprocess_main.cc` writes the load of a node to Redis, and the
controller of `controllers/relax.go` looks for the node with the least memory and, among those, the
least processor time. It asks for the second number under another name than it was written, so
that the answer is the first node with the least memory (`Relax.get_eq`), which is the least loaded
one only when none of its equals has less processor time (`Relax.relaxes_iff`).
-/

namespace LogProcess

/-- The load of a node. Processor time is in millionths, the precision of its text. -/
structure Health where
  meminfo : Nat
  threadinfo : Int
  cpuinfo : Nat
  deriving DecidableEq

namespace Health

/-- `std::to_string` of processor time. -/
def cpuText (cpuinfo : Nat) : Str :=
  Decimal.text (cpuinfo / 1000000) ++ 46 ::
    (List.range 6).map fun place => Decimal.digit (cpuinfo / 10 ^ (5 - place) % 10)

/-- The members of the object that is written. -/
def members (rpcserverAddr : Str) (health : Health) : List (Str × Str) :=
  [(bytes "node", rpcserverAddr.cstr), (bytes "meminfo", Decimal.text health.meminfo),
    (bytes "threadinfo", Decimal.intText health.threadinfo),
    (bytes "cpuinfo", cpuText health.cpuinfo)]

/-- The text of the object. -/
def jsonstream (cjson : CJson) (rpcserverAddr : Str) (health : Health) : Str :=
  (cjson.print (members rpcserverAddr health)).cstr

end Health

/-- The effect of `SubmitHealthInfo` on Redis. -/
def submitHealthInfo (cjson : CJson) (redis : OrderedMap Str Str) (rpcserverAddr : Str)
    (health : Health) : OrderedMap Str Str :=
  redis.assign rpcserverAddr (health.jsonstream cjson rpcserverAddr)

namespace Strconv

/-- A sign and what follows it. -/
def splitSign (text : Str) : Int × Str :=
  if text.head? = some 45 then (-1, text.tail)
  else if text.head? = some 43 then (1, text.tail)
  else (1, text)

/-- `Atoi`. The number beside an error is 0, or a bound when the number is out of range. -/
def atoi (text : Str) : Int :=
  let (sign, digits) := splitSign text
  if digits ≠ [] ∧ digits.all Decimal.isDigit then
    max (-2 ^ 63) (min (sign * Decimal.value digits) (2 ^ 63 - 1))
  else 0

/-- The exponent of a decimal. -/
def exponent (text : Str) : Option Int :=
  if text = [] then some 0
  else if text.head? = some 101 ∨ text.head? = some 69 then
    let (sign, digits) := splitSign text.tail
    if digits ≠ [] ∧ digits.all Decimal.isDigit then some (sign * Decimal.value digits) else none
  else none

/-- `ParseFloat` of decimals, as exact numbers. The number beside an error is 0. Numbers with
another base and the names of special values are left out. -/
def parseFloat (text : Str) : ℚ :=
  let (sign, unsigned) := splitSign text
  let (whole, rest) := unsigned.span Decimal.isDigit
  let (fraction, rest) :=
    if rest.head? = some 46 then rest.tail.span Decimal.isDigit else ([], rest)
  match exponent rest with
  | none => 0
  | some power =>
      if whole ++ fraction = [] then 0
      else sign * Decimal.value (whole ++ fraction) / 10 ^ fraction.length * 10 ^ power

end Strconv

namespace Relax

/-- The variables of the loop. -/
structure Choice where
  freenode : Str
  minMem : Int
  minCpu : ℚ
  deriving DecidableEq

/-- A map reads as empty under other names. -/
def at? (map : OrderedMap Str Str) (name : Str) : Str := (map.find? name).getD []

section Model

variable (unmarshal : Str → OrderedMap Str Str) (redis : Str → Option Str)

/-- What is read from the text of a node. -/
def readHealth (addr health : Str) : Choice :=
  let m := unmarshal health
  ⟨addr, Strconv.atoi (at? m (bytes "meminfo")), Strconv.parseFloat (at? m (bytes "Cpuinfo"))⟩

/-- The body of the loop. -/
def consider (best : Choice) (addr : Str) : Choice :=
  match redis addr with
  | none => best
  | some health =>
      let node := readHealth unmarshal addr health
      if node.minMem < best.minMem then node
      else if node.minMem = best.minMem then
        if node.minCpu < best.minCpu then node else best
      else best

def start : Choice := ⟨[], 1024 * 1000 * 10, 100⟩

/-- What the controller answers. -/
structure Answer where
  success : Int
  message : Str
  deriving DecidableEq

/-- `RelaxController.Get`, on a connection to Redis if there is one. -/
def get (dataaccessAddrs : Str) : Option (Str → Option Str) → Answer
  | some redis =>
      ⟨0, ((Str.fields 44 dataaccessAddrs).foldl (consider unmarshal redis) start).freenode⟩
  | none => ⟨-1, bytes "connect redis fail"⟩

end Model

/-! ### What is promised -/

/-- The last entry of each node. -/
def reported (reports : List (Str × Health)) : OrderedMap Str Health :=
  OrderedMap.ofList reports

/-- Redis after all entries are written. It may fail to answer for a node. -/
def answers (cjson : CJson) (reports : List (Str × Health)) (responds : Str → Bool) (addr : Str) :
    Option Str :=
  if responds addr then
    (reports.foldl (fun redis report => submitHealthInfo cjson redis report.1 report.2)
      OrderedMap.empty).find? addr
  else none

/-- The nodes of the list that respond, with their loads. -/
def responding (reports : List (Str × Health)) (responds : Str → Bool) (addrs : List Str) :
    List (Str × Health) :=
  addrs.filterMap fun addr =>
    if responds addr then ((reported reports).find? addr).map (addr, ·) else none

/-- Memory first, then processor time. -/
def load (node : Str × Health) : ℕ ×ₗ ℕ := toLex (node.2.meminfo, node.2.cpuinfo)

/-- The answer is the first of the least loaded nodes, if any node responds. -/
def Relaxes (nodes : List (Str × Health)) (answer : Answer) : Prop :=
  ∀ least ∈ nodes.argmin load, answer = ⟨0, least.1⟩

/-- No node with the memory of the first least one has less processor time. -/
def FirstIsLeast (nodes : List (Str × Health)) : Prop :=
  ∀ first ∈ nodes.argmin (·.2.meminfo), ∀ other ∈ nodes,
    other.2.meminfo = first.2.meminfo → first.2.cpuinfo ≤ other.2.cpuinfo

/-- Members that every parser takes apart in the same way. -/
structure Printed (members : List (Str × Str)) : Prop where
  different : (members.map Prod.fst).Nodup
  names : ∀ member ∈ members, ∀ char ∈ member.1, 0 < char ∧ char < 128
  values : ∀ member ∈ members, 0 ∉ member.2

/-- What is known of `json.Unmarshal` of a printed object into a map. Values of other characters
need not stay the same. -/
structure Unmarshals (cjson : CJson) (unmarshal : Str → OrderedMap Str Str) : Prop where
  known : ∀ members, Printed members → ∀ member ∈ members, (∀ char ∈ member.2, char < 128) →
    (unmarshal (cjson.print members).cstr).find? member.1 = some member.2
  unknown : ∀ members, Printed members → ∀ name, name ∉ members.map Prod.fst →
    (unmarshal (cjson.print members).cstr).find? name = none

/-! ### Texts -/

theorem isDigit_digit {number : Nat} (small : number < 10) :
    Decimal.isDigit (Decimal.digit number) := by
  rw [Decimal.isDigit_iff, Decimal.toNat_digit small]
  omega

theorem zero_notMem_text (number : Nat) : 0 ∉ Decimal.text number :=
  fun member => absurd (Decimal.isDigit_of_mem_text member) (by decide)

theorem zero_notMem_cpuText (cpuinfo : Nat) : 0 ∉ Health.cpuText cpuinfo := by
  rw [Health.cpuText, List.mem_append, List.mem_cons, not_or, not_or]
  refine ⟨zero_notMem_text _, by decide, fun member => ?_⟩
  obtain ⟨place, -, zero⟩ := List.mem_map.mp member
  exact absurd (zero ▸ isDigit_digit (Nat.mod_lt _ (by decide))) (by decide)

theorem map_fst_members (rpcserverAddr : Str) (health : Health) :
    (health.members rpcserverAddr).map Prod.fst =
      [bytes "node", bytes "meminfo", bytes "threadinfo", bytes "cpuinfo"] := rfl

theorem printed_members (rpcserverAddr : Str) (health : Health) :
    Printed (health.members rpcserverAddr) where
  different := by
    rw [map_fst_members]
    decide
  names := by
    have plain : ∀ name ∈ [bytes "node", bytes "meminfo", bytes "threadinfo", bytes "cpuinfo"],
        ∀ char ∈ name, 0 < char ∧ char < 128 := by decide +kernel
    intro member listed
    exact plain member.1 (map_fst_members rpcserverAddr health ▸ List.mem_map_of_mem listed)
  values := by
    simp only [Health.members, List.forall_mem_cons, List.not_mem_nil, IsEmpty.forall_iff,
      implies_true, and_true]
    exact ⟨Str.cstr_free _, zero_notMem_text _, Decimal.zero_notMem_intText _,
      zero_notMem_cpuText _⟩

theorem atoi_text {number : Nat} (small : number < 2 ^ 63) :
    Strconv.atoi (Decimal.text number) = number := by
  obtain ⟨char, first, digit⟩ := Decimal.head?_text number
  have bounds := (Decimal.isDigit_iff char).mp digit
  have unsigned : Strconv.splitSign (Decimal.text number) = (1, Decimal.text number) := by
    rw [Strconv.splitSign, first, if_neg, if_neg]
    · rintro sign
      obtain rfl := Option.some.inj sign
      exact absurd digit (by decide)
    · rintro sign
      obtain rfl := Option.some.inj sign
      exact absurd digit (by decide)
  have digits : (Decimal.text number).all Decimal.isDigit :=
    List.all_eq_true.mpr fun _ => Decimal.isDigit_of_mem_text
  rw [Strconv.atoi, unsigned]
  dsimp only
  rw [if_pos ⟨Decimal.text_ne_nil number, digits⟩, Decimal.value_text]
  omega

/-- The text of a node has its memory under the name that is read, but not its processor time. -/
theorem readHealth_jsonstream {cjson : CJson} {unmarshal : Str → OrderedMap Str Str}
    (unmarshals : Unmarshals cjson unmarshal) (addr : Str) {health : Health}
    (small : health.meminfo < 2 ^ 63) :
    readHealth unmarshal addr (health.jsonstream cjson addr) = ⟨addr, health.meminfo, 0⟩ := by
  have printed := printed_members addr health
  have meminfo : (unmarshal (health.jsonstream cjson addr)).find? (bytes "meminfo") =
      some (Decimal.text health.meminfo) := by
    refine unmarshals.known _ printed (bytes "meminfo", Decimal.text health.meminfo) ?_ ?_
    · exact List.mem_cons_of_mem _ List.mem_cons_self
    · intro char member
      have bounds := (Decimal.isDigit_iff char).mp (Decimal.isDigit_of_mem_text member)
      exact UInt8.lt_iff_toNat_lt.mpr (bounds.2.trans_lt (by decide))
  have other : (unmarshal (health.jsonstream cjson addr)).find? (bytes "Cpuinfo") = none := by
    refine unmarshals.unknown _ printed _ ?_
    rw [map_fst_members]
    decide
  rw [readHealth, at?, at?, meminfo, other, Option.getD_some, atoi_text small]
  rfl

/-! ### The loop -/

/-- What the loop compares. -/
def Choice.value (choice : Choice) : ℤ ×ₗ ℚ := toLex (choice.minMem, choice.minCpu)

section Loop

variable (unmarshal : Str → OrderedMap Str Str) (redis : Str → Option Str)

theorem consider_eq (best : Choice) (addr : Str) :
    consider unmarshal redis best addr = (redis addr).elim best fun health =>
      if (readHealth unmarshal addr health).value < best.value then
        readHealth unmarshal addr health else best := by
  rw [consider]
  cases redis addr with
  | none => rfl
  | some health =>
      simp only [Option.elim_some, Choice.value, Prod.Lex.toLex_lt_toLex]
      split_ifs <;> first | rfl | (exfalso; grind)

/-- The loop looks for the first minimum of what it reads. -/
theorem foldl_consider (addrs : List Str) (best : Choice) :
    addrs.foldl (consider unmarshal redis) best =
      (addrs.filterMap fun addr => (redis addr).map (readHealth unmarshal addr)).foldl
        (fun best node => if node.value < best.value then node else best) best := by
  induction addrs generalizing best with
  | nil => rfl
  | cons addr rest ih =>
      rw [List.foldl_cons, ih, consider_eq, List.filterMap_cons]
      cases redis addr <;> rfl

end Loop

/-! ### The entries -/

/-- Redis has the text of the last entry of each node. -/
theorem answers_eq (cjson : CJson) (reports : List (Str × Health)) (responds : Str → Bool)
    (addr : Str) :
    answers cjson reports responds addr =
      if responds addr then ((reported reports).find? addr).map (·.jsonstream cjson addr)
      else none := by
  have stored := OrderedMap.find?_ofList_map reports (fun addr health =>
    health.jsonstream cjson addr) addr
  rw [OrderedMap.ofList, List.foldl_map] at stored
  rw [answers, reported, ← stored]
  rfl

theorem mem_responding_iff {reports : List (Str × Health)} {responds : Str → Bool}
    {addrs : List Str} {node : Str × Health} :
    node ∈ responding reports responds addrs ↔
      node.1 ∈ addrs ∧ responds node.1 ∧ (reported reports).find? node.1 = some node.2 := by
  simp only [responding, List.mem_filterMap, Option.ite_none_right_eq_some, Option.map_eq_some_iff]
  constructor
  · rintro ⟨addr, listed, here, health, found, rfl⟩
    exact ⟨listed, here, found⟩
  · rintro ⟨listed, here, found⟩
    exact ⟨node.1, listed, here, node.2, found, rfl⟩

section Answers

variable {cjson : CJson} {unmarshal : Str → OrderedMap Str Str}
  (unmarshals : Unmarshals cjson unmarshal) {reports : List (Str × Health)}
  (small : ∀ report ∈ reports, report.2.meminfo < 10240000) (responds : Str → Bool)
  (dataaccessAddrs : Str)

include unmarshals small

/-- The loop reads the memory of the nodes that respond and no processor time. -/
theorem filterMap_readHealth (addrs : List Str) :
    (addrs.filterMap fun addr => (answers cjson reports responds addr).map
      (readHealth unmarshal addr)) =
      (responding reports responds addrs).map fun node => ⟨node.1, node.2.meminfo, 0⟩ := by
  rw [responding, List.map_filterMap]
  refine List.filterMap_congr fun addr _ => ?_
  rw [answers_eq]
  by_cases here : responds addr
  · rw [if_pos here, if_pos here]
    cases found : (reported reports).find? addr with
    | none => rfl
    | some health =>
        have written := OrderedMap.mem_of_find?_ofList found
        have bound := (small _ written).trans (by decide : 10240000 < 2 ^ 63)
        simp only [Option.map_some, readHealth_jsonstream unmarshals addr bound]
  · rw [if_neg here, if_neg here]
    rfl

/-- The answer is the first node with the least memory. -/
theorem get_eq :
    get unmarshal dataaccessAddrs (some (answers cjson reports responds)) =
      ⟨0, (((responding reports responds (Str.fields 44 dataaccessAddrs)).argmin
        (·.2.meminfo)).map Prod.fst).getD []⟩ := by
  have worse : ∀ node ∈ responding reports responds (Str.fields 44 dataaccessAddrs),
      Choice.value ⟨node.1, node.2.meminfo, 0⟩ < start.value := by
    intro node listed
    have written := OrderedMap.mem_of_find?_ofList (mem_responding_iff.mp listed).2.2
    have bound := small _ written
    exact Prod.Lex.toLex_lt_toLex.mpr (.inl (Int.ofNat_lt.mpr bound))
  have least := (FirstMinimum.argmin_cons_eq_foldl Choice.value start _).symm.trans
    (FirstMinimum.argmin_cons_of_lt (List.forall_mem_map.mpr worse))
  have memory : (responding reports responds (Str.fields 44 dataaccessAddrs)).argmin
      (Choice.value ∘ fun node => ⟨node.1, node.2.meminfo, 0⟩) =
        (responding reports responds (Str.fields 44 dataaccessAddrs)).argmin (·.2.meminfo) := by
    refine FirstMinimum.argmin_congr fun first _ second _ => ?_
    simp only [Function.comp_apply, Choice.value, Prod.Lex.toLex_lt_toLex, lt_irrefl, and_false,
      or_false, Nat.cast_lt]
  rw [FirstMinimum.argmin_map, memory, Option.some.injEq] at least
  rw [get, foldl_consider, filterMap_readHealth unmarshals small, least]
  cases (responding reports responds (Str.fields 44 dataaccessAddrs)).argmin (·.2.meminfo) <;> rfl

/-- **The relaxing node** is the first of the least loaded nodes exactly when the first node with
the least memory has the least processor time among those with its memory. -/
theorem relaxes_iff :
    Relaxes (responding reports responds (Str.fields 44 dataaccessAddrs))
        (get unmarshal dataaccessAddrs (some (answers cjson reports responds))) ↔
      FirstIsLeast (responding reports responds (Str.fields 44 dataaccessAddrs)) := by
  rw [get_eq unmarshals small, Relaxes, FirstIsLeast]
  cases found : (responding reports responds (Str.fields 44 dataaccessAddrs)).argmin
      (·.2.meminfo) with
  | none =>
      have none := List.argmin_eq_none.mp found
      simp only [none, List.argmin_nil, Option.not_mem_none, IsEmpty.forall_iff, implies_true]
  | some first =>
      have lexical := FirstMinimum.mem_argmin_lex_iff (·.2.cpuinfo) found
      simp only [Option.mem_def, Option.some.injEq, forall_eq', Option.map_some, Option.getD_some,
        Answer.mk.injEq, true_and]
      refine ⟨fun answer => lexical.mp ?_, fun smallest least chosen => ?_⟩
      · cases chosen :
            (responding reports responds (Str.fields 44 dataaccessAddrs)).argmin load with
        | none =>
            rw [List.argmin_eq_none.mp chosen] at found
            exact absurd found (Option.some_ne_none _).symm
        | some least =>
            have same := answer least chosen
            have here := (mem_responding_iff.mp (List.argmin_mem found)).2.2
            rw [same] at here
            have there := (mem_responding_iff.mp (List.argmin_mem chosen)).2.2
            rwa [Prod.ext same (Option.some.inj (here.symm.trans there))]
      · have both := lexical.mpr smallest
        exact congrArg Prod.fst (Option.some.inj (both.symm.trans chosen))

end Answers

/-! ### Two nodes -/

/-- A parser of flat objects. -/
def unmarshalFlat (text : Str) : OrderedMap Str Str :=
  OrderedMap.ofList ((FlatJson.parse (text.filter fun char => char ≠ 10 ∧ char ≠ 9)).getD [])

theorem unmarshalFlat_print {members : List (Str × Str)} (printed : Printed members) :
    unmarshalFlat (CJson.flat.print members).cstr = OrderedMap.ofList members := by
  have free : ∀ member ∈ members, 0 ∉ member.1 ∧ 0 ∉ member.2 := fun member listed =>
    ⟨fun zero => absurd (printed.names member listed 0 zero).1 (lt_irrefl _),
      printed.values member listed⟩
  rw [unmarshalFlat, CJson.flat_lawful.filter_print members free, FlatJson.parse_compact,
    Option.getD_some]

theorem unmarshals_flat : Unmarshals CJson.flat unmarshalFlat where
  known := by
    intro members printed member listed _
    rw [unmarshalFlat_print printed, OrderedMap.find?_ofList_eq_some_iff printed.different]
    exact listed
  unknown := by
    intro members printed name other
    rw [unmarshalFlat_print printed, Option.eq_none_iff_forall_ne_some]
    intro value found
    rw [OrderedMap.find?_ofList_eq_some_iff printed.different] at found
    exact other (List.mem_map_of_mem found)

/-- Two nodes with the same memory, of which the second one has less to do. -/
def twoNodes : List (Str × Health) :=
  [(bytes "10.0.0.1:80", ⟨2048, 8, 50000000⟩), (bytes "10.0.0.2:80", ⟨2048, 8, 1000000⟩)]

/-- The list may name the second node first. -/
theorem relaxes_iff_two_nodes :
    Relaxes (responding twoNodes (fun _ => true)
        (Str.fields 44 (bytes "10.0.0.2:80,10.0.0.1:80")))
        (get unmarshalFlat (bytes "10.0.0.2:80,10.0.0.1:80")
          (some (answers CJson.flat twoNodes fun _ => true))) ↔
      FirstIsLeast (responding twoNodes (fun _ => true)
        (Str.fields 44 (bytes "10.0.0.2:80,10.0.0.1:80"))) :=
  relaxes_iff unmarshals_flat (by decide) (fun _ => true) (bytes "10.0.0.2:80,10.0.0.1:80")

/-- When it names the busy node first, that one is the answer. -/
theorem not_relaxes_two_nodes :
    ¬Relaxes (responding twoNodes (fun _ => true)
        (Str.fields 44 (bytes "10.0.0.1:80,10.0.0.2:80")))
        (get unmarshalFlat (bytes "10.0.0.1:80,10.0.0.2:80")
          (some (answers CJson.flat twoNodes fun _ => true))) := by
  intro relaxes
  rw [get_eq unmarshals_flat (by decide)] at relaxes
  have wrong := relaxes (bytes "10.0.0.2:80", ⟨2048, 8, 1000000⟩) (by decide +kernel)
  exact absurd wrong (by decide +kernel)

end Relax

end LogProcess
