import LogProcess.Common.Redis
import LogProcess.Foundation.Runs
import LogProcess.Process.LogProcessStat

/-! # Queries of a cookie

`CookieStat` keeps the queries of a cookie in a sorted set of Redis, scored by their times. After
accepted updates the set has each query with its last time (`held_run`). `Search` takes the
result of the client for an error code, so it only looks at what was read when nothing was read: it
never adds a record (`search_eq`), and is right exactly when there is nothing to find
(`reads_iff`). For a cookie that is not a single word it need not even be defined
(`searchable_of_word`).
-/

namespace LogProcess.CookieStat

open RedisCli

variable {Database : Type} (redis : Redis Database) (strTime2Unixtime : Str → Int)

/-- `UpdateCookieStat`, which takes the spaces out of the query. An error of Redis is only
logged. -/
def updateCookieStat (database : Database) (kv : OrderedMap Str Str) : Option Database :=
  match kv.find? (bytes "cookieid"), kv.find? (bytes "query"), kv.find? (bytes "timestamp") with
  | some cookie, some query, some timestamp =>
      (zset redis database cookie (query.filter (· ≠ 32)) (strTime2Unixtime timestamp)).map Prod.fst
  | _, _, _ => some database

/-- The loop over what was read, which throws for a score that is not an `int`. -/
def pushRecords (records : List (Int × Str)) (tmpres : List (Str × Str)) :
    Option (List (Int × Str)) :=
  tmpres.foldlM (fun records it =>
    (Decimal.stoi it.1).map fun tm => records ++ [(tm, it.2)]) records

/-- `Search`, with the records or without when an exception leaves it. -/
def search (database : Database) (cookie : Str) (records : List (Int × Str)) (st ed : Int) :
    Database × Option (List (Int × Str)) :=
  if st < ed then
    let (next, tmpres, res) := zrangeByScoreWithScore redis database cookie OrderedMap.empty
      (Decimal.intText st) (Decimal.intText ed) true
    -- the branch of an error
    if res then (next, some records)
    else if tmpres.entries.length ≠ 0 then (next, pushRecords records tmpres.entries)
    else (next, some records)
  else (database, some records)

/-- The elements of a reply can be read in pairs. -/
def Paired : Option RedisReply → Prop
  | some (.array elements) => elements.length % 2 = 0
  | _ => True

instance : DecidablePred Paired := fun
  | some (.array elements) => inferInstanceAs (Decidable (elements.length % 2 = 0))
  | some (.integer _) | some .other | none => .isTrue trivial

/-- `Search` is defined, where `asks` has the formats that ask the client for an argument. The
command is passed to `redisCommand` as a format, with no arguments, and the loop over its reply
reads two elements at a time. -/
def Searchable (asks : Str → Prop) (database : Database) (cookie : Str) (st ed : Int) : Prop :=
  st < ed →
    let command := (rangeCommand cookie (Decimal.intText st) (Decimal.intText ed)).cstr
    ¬asks command ∧ Paired (redis.redisCommand database command).2

instance (asks : Str → Prop) [DecidablePred asks] (database : Database) (cookie : Str)
    (st ed : Int) : Decidable (Searchable redis asks database cookie st ed) :=
  inferInstanceAs (Decidable (_ → _ ∧ _))

/-- The records of `Search` as `GetLogProcessStat` uses them, without a result when an exception
leaves it or it is not defined. -/
def searchCookie (asks : Str → Prop) [DecidablePred asks] (database : Database) (cookie : Str)
    (st ed : Int) : Option (List (Int × Str)) :=
  if Searchable redis asks database cookie st ed then (search redis database cookie [] st ed).2
  else none

/-! ### What is held -/

/-- A cookie, a query and a time that an update has. -/
structure Visit where
  cookie : Str
  query : Str
  time : Int

/-- What an update is about. -/
def visit? (kv : OrderedMap Str Str) : Option Visit :=
  match kv.find? (bytes "cookieid"), kv.find? (bytes "query"), kv.find? (bytes "timestamp") with
  | some cookie, some query, some timestamp =>
      some ⟨cookie, query.filter (· ≠ 32), strTime2Unixtime timestamp⟩
  | _, _, _ => none

/-- Redis accepts the visit of an update, whose cookie and query are single words. -/
def Accepts (database : Database) (kv : OrderedMap Str Str) : Prop :=
  ∀ visit ∈ visit? strTime2Unixtime kv, Word visit.cookie ∧ Word visit.query ∧ Exact visit.time ∧
    ∃ next, zset redis database visit.cookie visit.query visit.time = some (next, true)

/-- The last times of the queries of each cookie. -/
def history (held : Str → OrderedMap Str Int) (updates : List (OrderedMap Str Str)) :
    Str → OrderedMap Str Int :=
  updates.foldl (fun held kv => match visit? strTime2Unixtime kv with
    | some visit =>
        Function.update held visit.cookie ((held visit.cookie).assign visit.query visit.time)
    | none => held) held

variable {redis strTime2Unixtime}

theorem updateCookieStat_eq (database : Database) (kv : OrderedMap Str Str) :
    updateCookieStat redis strTime2Unixtime database kv =
      match visit? strTime2Unixtime kv with
      | some visit => (zset redis database visit.cookie visit.query visit.time).map Prod.fst
      | none => some database := by
  rw [updateCookieStat, visit?]
  cases kv.find? (bytes "cookieid") <;> cases kv.find? (bytes "query") <;>
    cases kv.find? (bytes "timestamp") <;> rfl

/-- An accepted update leaves the query of its cookie with its time. -/
theorem held_updateCookieStat (lawful : redis.Lawful) {database next : Database}
    {kv : OrderedMap Str Str} (accepts : Accepts redis strTime2Unixtime database kv)
    (stepped : updateCookieStat redis strTime2Unixtime database kv = some next) :
    redis.held next = history strTime2Unixtime (redis.held database) [kv] := by
  rw [history, List.foldl_cons, List.foldl_nil]
  rw [updateCookieStat_eq] at stepped
  cases about : visit? strTime2Unixtime kv with
  | none =>
      rw [about] at stepped
      rw [← Option.some.inj stepped]
  | some visit =>
      obtain ⟨cookieWord, queryWord, small, after, stored⟩ := accepts visit about
      simp only [about, stored, Option.map_some, Option.some.injEq] at stepped
      subst stepped
      exact held_zset lawful cookieWord queryWord small stored

/-- **Accepted updates** leave each query of a cookie with its last time. -/
theorem held_run (lawful : redis.Lawful) {start database : Database}
    {updates : List (OrderedMap Str Str)}
    (accepted : Runs.Meets (updateCookieStat redis strTime2Unixtime)
      (Accepts redis strTime2Unixtime) start updates)
    (reached : Runs.run (updateCookieStat redis strTime2Unixtime) start updates = some database) :
    redis.held database = history strTime2Unixtime (redis.held start) updates :=
  Runs.view_of_meets redis.held
    (fun accepts stepped => held_updateCookieStat lawful accepts stepped) accepted reached

/-! ### Searches -/

/-- `Search` finds the queries of a cookie in a closed range of times. -/
def Reads (redis : Redis Database) (database : Database) (cookie : Str) (st ed : Int) : Prop :=
  ∃ records, (search redis database cookie [] st ed).2 = some records ∧
    records.Perm ((window (redis.held database cookie) st ed).map fun pair => (pair.2, pair.1))

/-- Nothing was read when the client reports a failure. -/
theorem zrangeByScoreWithScore_of_failure {database next : Database} {key startScore endScore : Str}
    {direct : Bool} {values read : OrderedMap Str Str}
    (failed : zrangeByScoreWithScore redis database key values startScore endScore direct =
      (next, read, false)) : read = values := by
  simp only [zrangeByScoreWithScore] at failed
  split at failed
  next => exact absurd (Prod.mk.inj (Prod.mk.inj failed).2).2 (by decide)
  next => exact (Prod.mk.inj (Prod.mk.inj failed).2).1.symm

/-- **A search adds nothing**, whatever the server answers. -/
theorem search_eq (database : Database) (cookie : Str) (records : List (Int × Str)) (st ed : Int) :
    (search redis database cookie records st ed).2 = some records := by
  rw [search]
  split
  next =>
    rcases result : zrangeByScoreWithScore redis database cookie OrderedMap.empty
      (Decimal.intText st) (Decimal.intText ed) true with ⟨next, tmpres, res⟩
    cases res with
    | true => rfl
    | false =>
        obtain rfl := zrangeByScoreWithScore_of_failure result
        rfl
  next => rfl

theorem reads_iff_window {database : Database} {cookie : Str} {st ed : Int} :
    Reads redis database cookie st ed ↔ window (redis.held database cookie) st ed = [] := by
  simp only [Reads, search_eq, Option.some.injEq, exists_eq_left', List.nil_perm,
    List.map_eq_nil_iff]

/-- **Searches are right** exactly when no query of the cookie is in the range. -/
theorem reads_iff (redis : Redis Database) (strTime2Unixtime : Str → Int) (start : Database)
    (updates : List (OrderedMap Str Str)) (cookie : Str) (st ed : Int) :
    ∀ database,
      Runs.run (updateCookieStat redis strTime2Unixtime) start updates = some database →
        (Reads redis database cookie st ed ↔
          ∀ pair ∈ (redis.held database cookie).entries, ¬(st ≤ pair.2 ∧ pair.2 ≤ ed)) := by
  intro database _
  simp only [reads_iff_window, window, List.filter_eq_nil_iff, decide_eq_true_eq]

/-- A visit with the query "weather", five seconds after the epoch. -/
def weatherVisit : OrderedMap Str Str :=
  .ofList [(bytes "cookieid", bytes "c1"), (bytes "query", bytes "weather"),
    (bytes "timestamp", bytes "1970-01-01 08:00:05")]

theorem reads_behind_last_query :
    ∃ database, Runs.run (updateCookieStat Redis.table fun _ => 5) (fun _ => OrderedMap.empty)
        [weatherVisit] = some database ∧
      Reads Redis.table database (bytes "c1") 6 9 :=
  ⟨_, rfl, (reads_iff Redis.table (fun _ => 5) (fun _ => OrderedMap.empty) [weatherVisit]
    (bytes "c1") 6 9 _ rfl).mpr (by decide +kernel)⟩

/-- A query that is held is not found. -/
theorem not_reads_query :
    Redis.table.Lawful ∧ ∃ database,
      Runs.run (updateCookieStat Redis.table fun _ => 5) (fun _ => OrderedMap.empty)
        [weatherVisit] = some database ∧
      (Redis.table.held database (bytes "c1")).entries = [(bytes "weather", 5)] ∧
      ¬Reads Redis.table database (bytes "c1") 1 9 := by
  refine ⟨table_lawful, _, rfl, by decide +kernel, fun reads => ?_⟩
  exact absurd (reads_iff_window.mp reads) (by decide +kernel)

/-! ### Replies for a cookie -/

/-- A single word can be searched for, since only percent signs ask for arguments. -/
theorem searchable_of_word (lawful : redis.Lawful) {asks : Str → Prop}
    (documented : ∀ format, 37 ∉ format → ¬asks format) (database : Database) {cookie : Str}
    {st ed : Int} (word : Word cookie) (first : Exact st) (last : Exact ed) :
    Searchable redis asks database cookie st ed := by
  intro _
  obtain ⟨null, percent⟩ := word.plain_rangeCommand st ed
  dsimp only
  rw [Str.cstr_eq_self null]
  refine ⟨documented _ percent, ?_⟩
  rcases reply : redis.redisCommand database (rangeCommand cookie (Decimal.intText st)
    (Decimal.intText ed)) with ⟨next, answer⟩
  cases answer with
  | none => trivial
  | some answer =>
      cases answer with
      | array elements =>
          obtain ⟨pairs, _, rfl⟩ := lawful.zrangebyscore _ _ _ _ word first last _ _ reply
          have length : (pairs.flatMap fun pair => [pair.1, Decimal.intText pair.2]).length =
              pairs.length * 2 := by
            simp only [List.length_flatMap, List.length_cons, List.length_nil, List.map_const',
              List.sum_replicate, smul_eq_mul]
          exact (congrArg (· % 2) length).trans (Nat.mul_mod_left _ 2)
      | integer value => trivial
      | other => trivial

theorem isSome_searchCookie_iff {asks : Str → Prop} [DecidablePred asks] {database : Database}
    (cookie : Str) (st ed : Int) :
    (searchCookie redis asks database cookie st ed).isSome ↔
      Searchable redis asks database cookie st ed := by
  rw [searchCookie, search_eq, Option.isSome_ite]

/-- The reply of `GetLogProcessStat` for a cookie never has an item. -/
theorem getLogProcessStat_searchCookie {Rows : Type} (rocksdb : RocksDB Rows) (cjson : CJson)
    (regex : Regex) (std : Sorting.StdSort Kvpairs) (storager : OrderedMap Str (StorageImpl Rows))
    (qftree : Trie) (unixTime2Str : Int → Str) (database : Database) {asks : Str → Prop}
    [DecidablePred asks] {request : GetLogProcessStatRequest} {cookie : Str}
    (source : request.getfrom = .redis) (named : request.cookieid = some cookie)
    (searchable : Searchable redis asks database cookie request.startime.toInt
      request.endtime.toInt) :
    ProcessImpl.getLogProcessStat rocksdb cjson regex std storager qftree
      (searchCookie redis asks database) unixTime2Str request = some { status := .succeed } := by
  simp only [ProcessImpl.getLogProcessStat, source, named, searchCookie, if_pos searchable,
    search_eq, Option.bind_eq_bind, Option.bind_some]
  rfl

end LogProcess.CookieStat
