import LogProcess.Foundation.Decimal
import LogProcess.Foundation.OrderedMap

/-! # Sorted sets in Redis

`common/redis.cc` writes commands as text for the client library. The library and the server are a
parameter: `Redis.Lawful` is what is known about the commands for sorted sets whose arguments are
single words. `Zset` sets the score of a member (`held_zset`). `ZrangeByScoreWithScore` puts the
members with a score in a range into a map from scores to members, so that it has all of them
exactly when their scores differ (`zrangeByScoreWithScore_complete_iff`).
-/

namespace LogProcess

/-- A reply of the server. The elements of an array are texts here. -/
inductive RedisReply where
  | integer (value : Int)
  | array (elements : List Str)
  | other
  deriving DecidableEq

/-- `redisCommand`, with what is held in the server under a key: the members with their scores. -/
structure Redis (Database : Type) where
  redisCommand : Database → Str → Database × Option RedisReply
  held : Database → Str → OrderedMap Str Int

namespace RedisCli

/-- The text of a `ZADD` command. -/
def zaddCommand (key value : Str) (score : Int) : Str :=
  bytes "zadd " ++ key ++ bytes " " ++ Decimal.intText score ++ bytes " " ++ value

/-- The text of a `ZRANGEBYSCORE` command. -/
def rangeCommand (key startScore endScore : Str) : Str :=
  bytes "ZRANGEBYSCORE " ++ key ++ bytes " " ++ startScore ++ bytes " " ++ endScore ++
    bytes " withscores"

def revRangeCommand (key startScore endScore : Str) : Str :=
  bytes "ZREVRANGEBYSCORE " ++ key ++ bytes " " ++ endScore ++ bytes " " ++ startScore ++
    bytes " withscores"

/-- An argument that the client library passes on as it is: it has no space, which ends an
argument, no percent sign, which starts a conversion, and no null character. -/
structure Word (text : Str) : Prop where
  nonempty : text ≠ []
  noSpace : 32 ∉ text
  noPercent : 37 ∉ text
  noNull : 0 ∉ text

/-- Scores that a double has exactly. -/
def Exact (score : Int) : Prop := -2 ^ 53 ≤ score ∧ score ≤ 2 ^ 53

/-- The pairs with a score in a closed range. -/
def window (pairs : OrderedMap Str Int) (first last : Int) : List (Str × Int) :=
  pairs.entries.filter fun pair => first ≤ pair.2 ∧ pair.2 ≤ last

end RedisCli

open RedisCli in
/-- The documented behavior: `ZADD` keeps one score for each member, and `ZRANGEBYSCORE` returns
all members with a score in the range, each followed by its score. -/
structure Redis.Lawful {Database : Type} (redis : Redis Database) : Prop where
  zadd : ∀ (database : Database) (key value : Str) (score : Int), Word key → Word value →
    Exact score → ∀ (next : Database) (added : Int),
      redis.redisCommand database (zaddCommand key value score) = (next, some (.integer added)) →
        redis.held next = Function.update (redis.held database) key
          ((redis.held database key).assign value score)
  zrangebyscore : ∀ (database : Database) (key : Str) (first last : Int), Word key →
    Exact first → Exact last → ∀ (next : Database) (elements : List Str),
      redis.redisCommand database (rangeCommand key (Decimal.intText first)
          (Decimal.intText last)) = (next, some (.array elements)) →
        ∃ pairs : List (Str × Int), pairs.Perm (window (redis.held database key) first last) ∧
          elements = pairs.flatMap fun pair => [pair.1, Decimal.intText pair.2]

/-! ### A server in memory -/

/-- A server that splits commands at spaces and keeps a table of sorted sets. -/
def Redis.table : Redis (Str → OrderedMap Str Int) where
  redisCommand := fun database command =>
    match Str.splitAt 32 command with
    | [name, key, score, value] =>
        match Decimal.stoll score with
        | some score =>
            if name = bytes "zadd" then
              (Function.update database key ((database key).assign value score),
                some (.integer (if ((database key).find? value).isSome then 0 else 1)))
            else (database, some .other)
        | none => (database, some .other)
    | [name, key, first, last, _] =>
        match Decimal.stoll first, Decimal.stoll last with
        | some first, some last =>
            if name = bytes "ZRANGEBYSCORE" then
              let pairs := (RedisCli.window (database key) first last).insertionSort (·.2 ≤ ·.2)
              (database, some (.array
                (pairs.flatMap fun pair => [pair.1, Decimal.intText pair.2])))
            else (database, some .other)
        | _, _ => (database, some .other)
    | _ => (database, some .other)
  held := id

namespace RedisCli

theorem space_notMem_intText (number : Int) : (32 : UInt8) ∉ Decimal.intText number :=
  Decimal.notMem_intText (by decide) (by decide) number

theorem splitAt_zaddCommand {key value : Str} (keyWord : Word key) (valueWord : Word value)
    (score : Int) : Str.splitAt 32 (zaddCommand key value score) =
      [bytes "zadd", key, Decimal.intText score, value] := by
  have joined : zaddCommand key value score =
      [(32 : UInt8)].intercalate [bytes "zadd", key, Decimal.intText score, value] := by
    simp only [zaddCommand, List.intercalate_cons_cons, List.intercalate_singleton,
      List.append_assoc]
    rfl
  rw [joined, Str.splitAt_intercalate _ (List.cons_ne_nil _ _)]
  simp only [List.flatMap_cons, List.flatMap_nil, Str.splitAt_of_not_mem keyWord.noSpace,
    Str.splitAt_of_not_mem valueWord.noSpace, Str.splitAt_of_not_mem (space_notMem_intText score)]
  rfl

theorem splitAt_rangeCommand {key : Str} (keyWord : Word key) (first last : Int) :
    Str.splitAt 32 (rangeCommand key (Decimal.intText first) (Decimal.intText last)) =
      [bytes "ZRANGEBYSCORE", key, Decimal.intText first, Decimal.intText last,
        bytes "withscores"] := by
  have joined : rangeCommand key (Decimal.intText first) (Decimal.intText last) =
      [(32 : UInt8)].intercalate [bytes "ZRANGEBYSCORE", key, Decimal.intText first,
        Decimal.intText last, bytes "withscores"] := by
    simp only [rangeCommand, List.intercalate_cons_cons, List.intercalate_singleton,
      List.append_assoc]
    rfl
  rw [joined, Str.splitAt_intercalate _ (List.cons_ne_nil _ _)]
  simp only [List.flatMap_cons, List.flatMap_nil, Str.splitAt_of_not_mem keyWord.noSpace,
    Str.splitAt_of_not_mem (space_notMem_intText _)]
  rfl

/-- The command for a single word has no null character and no percent sign. -/
theorem Word.plain_rangeCommand {key : Str} (keyWord : Word key) (first last : Int) :
    0 ∉ rangeCommand key (Decimal.intText first) (Decimal.intText last) ∧
      37 ∉ rangeCommand key (Decimal.intText first) (Decimal.intText last) := by
  have free {char : UInt8} (single : char ∉ key) (number : ∀ number, char ∉ Decimal.intText number)
      (written : char ∉ bytes "ZRANGEBYSCORE " ∧ char ∉ bytes " " ∧ char ∉ bytes " withscores") :
      char ∉ rangeCommand key (Decimal.intText first) (Decimal.intText last) := by
    simp only [rangeCommand, List.mem_append, single, number, written, or_self, not_false_eq_true]
  exact ⟨free keyWord.noNull Decimal.zero_notMem_intText (by decide),
    free keyWord.noPercent (Decimal.notMem_intText (by decide) (by decide)) (by decide)⟩

theorem Exact.stoll_intText {number : Int} (small : Exact number) :
    Decimal.stoll (Decimal.intText number) = some number :=
  Decimal.stoll_intText (by have low := small.1; omega) (by have high := small.2; omega)

theorem table_lawful : Redis.table.Lawful where
  zadd := by
    intro database key value score keyWord valueWord small next added reply
    simp only [Redis.table, splitAt_zaddCommand keyWord valueWord, small.stoll_intText,
      ↓reduceIte] at reply
    exact (Prod.mk.inj reply).1.symm
  zrangebyscore := by
    intro database key first last keyWord firstSmall lastSmall next elements reply
    simp only [Redis.table, splitAt_rangeCommand keyWord, firstSmall.stoll_intText,
      lastSmall.stoll_intText, ↓reduceIte] at reply
    have same := (Prod.mk.inj reply).2
    exact ⟨_, List.perm_insertionSort _ _, (RedisReply.array.inj (Option.some.inj same)).symm⟩

variable {Database : Type} (redis : Redis Database)

/-! ### The client -/

/-- `Zset`, without a result when the command does not fit into the buffer. -/
def zset (database : Database) (key value : Str) (score : Int) : Option (Database × Bool) :=
  let buf := zaddCommand key.cstr value.cstr score
  if 1024 ≤ buf.length then none
  else match redis.redisCommand database buf with
    | (next, some (.integer _)) => some (next, true)
    | (next, _) => some (next, false)

/-- The loop over the elements of a reply, which come in pairs. -/
def insertElements (values : OrderedMap Str Str) : List Str → OrderedMap Str Str
  | content :: score :: rest => insertElements (values.insertNew score.cstr content.cstr) rest
  | _ => values

def zrangeByScoreWithScore (database : Database) (key : Str) (values : OrderedMap Str Str)
    (startScore endScore : Str) (direct : Bool) : Database × OrderedMap Str Str × Bool :=
  let startScore := if startScore = [] then bytes "-inf" else startScore
  let endScore := if endScore = [] then bytes "+inf" else endScore
  let cmd := if direct then rangeCommand key startScore endScore
    else revRangeCommand key startScore endScore
  match redis.redisCommand database cmd.cstr with
  | (next, some (.array elements)) => (next, insertElements values elements, true)
  | (next, _) => (next, values, false)

/-! ### Setting a score -/

variable {redis}

/-- A score that the server accepted is held, and nothing else has changed. -/
theorem held_zset (lawful : redis.Lawful) {database next : Database} {key value : Str}
    {score : Int} (keyWord : Word key) (valueWord : Word value) (small : Exact score)
    (accepted : zset redis database key value score = some (next, true)) :
    redis.held next = Function.update (redis.held database) key
      ((redis.held database key).assign value score) := by
  simp only [zset, Str.cstr_eq_self keyWord.noNull, Str.cstr_eq_self valueWord.noNull] at accepted
  split_ifs at accepted
  split at accepted
  next reply =>
    obtain ⟨rfl, -⟩ := Prod.mk.inj (Option.some.inj accepted)
    exact lawful.zadd _ _ _ _ keyWord valueWord small _ _ reply
  next => exact absurd (Prod.mk.inj (Option.some.inj accepted)).2 Bool.false_ne_true

/-! ### Reading a range -/

/-- For each score the first member is kept. -/
theorem find?_insertElements (values : OrderedMap Str Str) (pairs : List (Str × Int))
    (free : ∀ pair ∈ pairs, 0 ∉ pair.1) (score : Str) :
    (insertElements values (pairs.flatMap fun pair => [pair.1, Decimal.intText pair.2])).find?
        score =
      (values.find? score).or
        ((pairs.find? fun pair => Decimal.intText pair.2 = score).map Prod.fst) := by
  induction pairs generalizing values with
  | nil => rw [List.find?_nil, Option.map_none, Option.or_none]; rfl
  | cons pair rest ih =>
      have content := Str.cstr_eq_self (free pair List.mem_cons_self)
      have text := Str.cstr_eq_self (Decimal.zero_notMem_intText pair.2)
      rw [List.flatMap_cons, List.cons_append, List.singleton_append, insertElements, content, text,
        ih _ fun other member => free other (List.mem_cons_of_mem _ member),
        List.find?_cons]
      by_cases same : Decimal.intText pair.2 = score
      · simp only [same, OrderedMap.find?_insertNew_self, decide_true, Option.map_some,
          Option.some_or]
        cases values.find? score <;> rfl
      · rw [OrderedMap.find?_insertNew_of_ne _ _ (Ne.symm same), decide_eq_false same]

/-- **Members with equal scores are lost.** What was read has all members with a score in the range
exactly when no two of them have the same score. -/
theorem zrangeByScoreWithScore_complete_iff (lawful : redis.Lawful) {database next : Database}
    {key : Str} {first last : Int} (keyWord : Word key) (firstSmall : Exact first)
    (lastSmall : Exact last) (free : ∀ pair ∈ (redis.held database key).entries, 0 ∉ pair.1)
    {values : OrderedMap Str Str}
    (read : zrangeByScoreWithScore redis database key OrderedMap.empty (Decimal.intText first)
      (Decimal.intText last) true = (next, values, true)) :
    (∀ pair ∈ window (redis.held database key) first last,
        values.find? (Decimal.intText pair.2) = some pair.1) ↔
      Set.InjOn Prod.snd {pair | pair ∈ window (redis.held database key) first last} := by
  have null := (keyWord.plain_rangeCommand first last).1
  simp only [zrangeByScoreWithScore, Decimal.intText_ne_nil, ↓reduceIte,
    Str.cstr_eq_self null] at read
  split at read
  next elements reply =>
    obtain ⟨pairs, same, rfl⟩ := lawful.zrangebyscore _ _ _ _ keyWord firstSmall lastSmall _ _ reply
    obtain rfl := (Prod.mk.inj (Prod.mk.inj read).2).1
    have held {pair : Str × Int} (member : pair ∈ pairs) : 0 ∉ pair.1 :=
      free pair (List.mem_filter.mp (same.mem_iff.mp member)).1
    simp only [find?_insertElements _ pairs (fun _ => held), ← same.mem_iff]
    refine ⟨fun complete pair member other present equal => ?_, fun distinct pair member => ?_⟩
    · have read := complete pair member
      rw [show pair.2 = other.2 from equal, complete other present] at read
      exact Prod.ext (Option.some.inj read).symm equal
    · have some_found : (pairs.find? fun other =>
          Decimal.intText other.2 = Decimal.intText pair.2).isSome :=
        List.find?_isSome.mpr ⟨pair, member, decide_eq_true rfl⟩
      obtain ⟨found, reads⟩ := Option.isSome_iff_exists.mp some_found
      have equal := List.find?_some reads
      rw [decide_eq_true_eq] at equal
      have equal := Decimal.intText_injective equal
      rw [distinct (List.mem_of_find?_eq_some reads) member equal] at reads
      rw [reads]
      rfl
  next => exact absurd (Prod.mk.inj (Prod.mk.inj read).2).2 Bool.false_ne_true

end RedisCli

end LogProcess
