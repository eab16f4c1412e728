import LogProcess.Foundation.Bytes

/-! # Requests and conditions

The messages of `proto/transmit.proto` that rules and filters are made of. A text that is not
set reads as the empty one.
-/

namespace LogProcess

/-- The `Res_Status` that every response has. -/
inductive ResStatus where
  | succeed
  | failed
  deriving DecidableEq

structure MapEntry where
  key : Str
  value : Str
  deriving DecidableEq

structure TransmitRequest where
  values : List MapEntry

inductive CondType where
  | condIn
  | condNotIn
  | condIs
  | condExist
  | condNotExist
  | condEqual
  | condPartEqual
  | condNotEqual
  | condLarger
  | condSmaller
  | condIsFront
  | condIsBehind
  deriving DecidableEq

structure TypeConfig where
  type : Str
  cond : CondType
  deriving DecidableEq

structure SrcidConfig where
  srcid : Str
  cond : CondType
  deriving DecidableEq

structure ScanCondSeWord where
  searchword : Str
  cond : CondType
  deriving DecidableEq

/-- The province and the city are optional, and empty when they are not given. -/
structure LocationInfo where
  province : Str
  city : Str
  cond : CondType
  deriving DecidableEq

structure CookieConfig where
  cookie : Str
  cond : CondType
  deriving DecidableEq

structure ClusterConfig where
  cluster : Str
  cond : CondType
  deriving DecidableEq

structure SidConfig where
  sid : Str
  cond : CondType
  deriving DecidableEq

structure ResnoConfig where
  resno : Str
  cond : CondType
  deriving DecidableEq

structure CheckListCond where
  srcids : List SrcidConfig := []
  sewords : List ScanCondSeWord := []
  lbs : List LocationInfo := []
  cookie : List CookieConfig := []
  cluster : List ClusterConfig := []
  sid : List SidConfig := []
  resno : List ResnoConfig := []
  type : List TypeConfig := []
  description : Str := []
  deriving DecidableEq

end LogProcess
