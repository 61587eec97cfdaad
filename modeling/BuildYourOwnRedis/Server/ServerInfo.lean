/-
  Server/ServerInfo.lean --- `ServerInfo`, and the dump that is sent without a file.
-/
import BuildYourOwnRedis.Utils

set_option autoImplicit false

namespace BuildYourOwnRedis

open Foundation

/-- `empty_rdb_file`, the dump without keys that PSYNC sends when there is no file.  It is
written here in base64, as in the sources, and decoded for every PSYNC. -/
def emptyRdbFile : Bytes := ascii <|
  "UkVESVMwMDEx+glyZWRpcy12ZXIFNy4yLjD6CnJlZGlzLWJpdHPAQPoFY3RpbWXCbQi8ZfoIdXNlZC1tZW3C" ++
  "sMQQAPoIYW9mLWJhc2XAAP/wbjv+wP9aog=="

/-! ## `ServerInfo` -/

/-- `ServerInfo` with the parts `Server` and `Replication`, and the defaults of the sources.
The replication id has none, since `build` draws it at random. -/
structure ServerInfo where
  tcpPort : Int := 6379
  dir : Bytes := []
  dbfilename : Bytes := []
  role : Bytes := ascii "master"
  masterReplid : Bytes
  masterReplOffset : Int := 0
  masterHost : Bytes := []
  masterPort : Int := 0
  deriving DecidableEq, Repr

namespace ServerInfo

/-- `std::endl`. -/
def endl : Bytes := [10]

/-- `ServerInfo::Server::to_string`. -/
def serverToString (info : ServerInfo) : Bytes :=
  ascii "#Server" ++ endl ++ ascii "tcp_port:" ++ decimalInt info.tcpPort ++ endl

/-- `ServerInfo::Replication::to_string`. -/
def replicationToString (info : ServerInfo) : Bytes :=
  ascii "#Replication" ++ endl ++
  ascii "role:" ++ info.role ++ endl ++
  ascii "master_replid:" ++ info.masterReplid ++ endl ++
  ascii "master_repl_offset:" ++ decimalInt info.masterReplOffset ++ endl ++
  if info.role = ascii "slave" then
    ascii "master_host:" ++ info.masterHost ++ endl ++
    ascii "master_port:" ++ decimalInt info.masterPort ++ endl
  else []

/-- `ServerInfo::to_string`: the parts that are asked for, always in this order and each at
most once.  A part that is not known is passed over. -/
def toString (infoParts : List Bytes) (info : ServerInfo) : Bytes :=
  (if ascii "server" ∈ infoParts then info.serverToString else []) ++
  if ascii "replication" ∈ infoParts then info.replicationToString else []

/-- `ServerInfo::get_config_value`.  Only the two names of the dump file can be asked for, and
their letters must be small ones. -/
def getConfigValue (key : Bytes) (info : ServerInfo) : Option Bytes :=
  if key = ascii "dir" then some info.dir
  else if key = ascii "dbfilename" then some info.dbfilename
  else none

/-- `Server::is_replica`. -/
def isReplica (info : ServerInfo) : Bool := info.role = ascii "slave"

end ServerInfo

end BuildYourOwnRedis
