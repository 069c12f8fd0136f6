/-
The configuration file (`crates/tunnel/src/config.rs`) and the start of `kdcts` up to
its port pool (`crates/kdcts/src/main.rs`).

How the text is read into tables is a parameter; what is missing from a table gets
its default here.  Only the fields that something below reads are kept.
-/
import Kdct.PortRange

namespace Kdct

structure ServerServiceConfig where
  name : String
  bindAddr : String
  token : Option String
  deriving DecidableEq

structure ClientServiceConfig where
  name : String
  localAddr : Option String
  token : Option String
  retryInterval : Option UInt64
  portRangeStart : Port
  portRangeEnd : Port
  deriving DecidableEq

/-- The entries of a `[server]` table. -/
structure ServerTable where
  bindAddr : String
  defaultToken : String
  services : List (String × ServerServiceConfig)
  portPool : Option String
  domain : Option String
  httpPort : Option Port
  httpsPort : Option Port
  apiPort : Option Port
  deriving DecidableEq

/-- The entries of a `[client]` table. -/
structure ClientTable where
  remoteAddr : String
  defaultToken : String
  services : List (String × ClientServiceConfig)
  retryInterval : Option UInt64
  deriving DecidableEq

structure ConfigTables where
  server : Option ServerTable
  client : Option ClientTable
  deriving DecidableEq

structure ServerConfig where
  bindAddr : String
  defaultToken : String
  services : List (String × ServerServiceConfig)
  portPool : String
  domain : Option String
  httpPort : Port
  httpsPort : Port
  apiPort : Port
  deriving DecidableEq

structure ClientConfig where
  remoteAddr : String
  defaultToken : String
  services : List (String × ClientServiceConfig)
  retryInterval : UInt64
  deriving DecidableEq

structure Config where
  server : Option ServerConfig
  client : Option ClientConfig
  deriving DecidableEq

/-! ## Defaults -/

def defaultClientRetryInterval : UInt64 := 1
def defaultPortPool : String := "9000-9999"
def defaultHttpPort : Port := 80
def defaultHttpsPort : Port := 443
def defaultApiPort : Port := 9933

def ServerTable.config (t : ServerTable) : ServerConfig where
  bindAddr := t.bindAddr
  defaultToken := t.defaultToken
  services := t.services
  portPool := t.portPool.getD defaultPortPool
  domain := t.domain
  httpPort := t.httpPort.getD defaultHttpPort
  httpsPort := t.httpsPort.getD defaultHttpsPort
  apiPort := t.apiPort.getD defaultApiPort

def ClientTable.config (t : ClientTable) : ClientConfig where
  remoteAddr := t.remoteAddr
  defaultToken := t.defaultToken
  services := t.services
  retryInterval := t.retryInterval.getD defaultClientRetryInterval

/-! ## Validation -/

inductive ConfigError
  | parse
  | empty
  | noServer
  | pool (e : PoolError)
  deriving DecidableEq

def ConfigError.text (osError : String) : ConfigError → String
  | .parse => "Failed to parse the config"
  | .empty => "Neither of `[server]` or `[client]` is defined"
  | .noServer => "Missing [server] section in config"
  | .pool e => e.text osError

namespace Config

/-- Services get their names and tokens. -/
def validateServerConfig (server : ServerConfig) : ServerConfig :=
  { server with services := server.services.map fun (name, s) =>
      (name, { s with name := name, token := some (s.token.getD server.defaultToken) }) }

def validateClientConfig (client : ClientConfig) : ClientConfig :=
  { client with services := client.services.map fun (name, s) =>
      (name, { s with
        name := name
        token := some (s.token.getD client.defaultToken)
        retryInterval := some (s.retryInterval.getD client.retryInterval) }) }

def fromStr (toml : String → Option ConfigTables) (text : String) : Except ConfigError Config :=
  match toml text with
  | none => .error .parse
  | some tables =>
      let config : Config :=
        { server := tables.server.map fun t => validateServerConfig t.config
          client := tables.client.map fun t => validateClientConfig t.config }
      if config.server.isNone && config.client.isNone then .error .empty else .ok config

/-- A validated service is named by its key and has a token. -/
theorem validateServerConfig_services {server : ServerConfig} {name : String}
    {s : ServerServiceConfig} (h : (name, s) ∈ (validateServerConfig server).services) :
    s.name = name ∧ s.token.isSome := by
  obtain ⟨⟨name', s'⟩, -, heq⟩ := List.mem_map.mp h
  obtain ⟨rfl, rfl⟩ := Prod.mk.inj heq
  exact ⟨rfl, rfl⟩

end Config

/-! ## The ports of the server -/

/-- The port of an address, after its last colon. -/
def addrPort (addr : String) : Option Port :=
  if ':' ∈ addr.toList then
    parseU16 (String.ofList (addr.toList.reverse.takeWhile (· ≠ ':')).reverse)
  else none

/-- The ports the server listens on itself: the panel API, the proxy and the tunnel. -/
def ServerConfig.ownPorts (server : ServerConfig) : List Port :=
  server.apiPort :: server.httpPort :: server.httpsPort :: (addrPort server.bindAddr).toList

/-- `start_server` up to its pool; `held` are the ports that other listeners hold. -/
def startServer (toml : String → Option ConfigTables) (held : List Port) (text : String) :
    Except ConfigError (ServerConfig × FreshPool) :=
  match Config.fromStr toml text with
  | .error e => .error e
  | .ok config =>
      match config.server with
      | none => .error .noServer
      | some server =>
          match FreshPool.bind held server.portPool with
          | .error e => .error (.pool e)
          | .ok pool => .ok (server, pool)

theorem startServer_of_bind {toml : String → Option ConfigTables} {held : List Port}
    {text : String} {server : ServerConfig} {client : Option ClientConfig} {pool : FreshPool}
    (hconfig : Config.fromStr toml text = .ok ⟨some server, client⟩)
    (hbind : FreshPool.bind held server.portPool = .ok pool) :
    startServer toml held text = .ok (server, pool) := by
  unfold startServer
  rw [hconfig]
  dsimp only
  rw [hbind]

theorem startServer_ok {toml : String → Option ConfigTables} {held : List Port} {text : String}
    {server : ServerConfig} {pool : FreshPool}
    (h : startServer toml held text = .ok (server, pool)) :
    FreshPool.bind held server.portPool = .ok pool := by
  unfold startServer at h
  split at h
  · cases h
  · split at h
    · cases h
    · split at h
      · cases h
      · rename_i hbind
        obtain ⟨rfl, rfl⟩ := Prod.mk.inj (Except.ok.inj h)
        exact hbind

end Kdct
