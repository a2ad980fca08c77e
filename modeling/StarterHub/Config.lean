import StarterHub.Lib.PercentEncoding
import StarterHub.Runtime

/-!
# The configuration tree (`common/src/config.rs`)

The typed tree with its defaults, the addresses it is turned into, and the invariants `Config::validate` enforces
before a configuration reaches any consumer.
-/

namespace StarterHub

open PercentEncoding

/-! ### The tree -/

inductive Environment where
  | local | development | staging | production
  deriving DecidableEq, Repr

/-- True where the interactive API documentation (`/docs`) is exposed. -/
def Environment.exposesDocs : Environment → Bool
  | .local | .development => true
  | .staging | .production => false

structure Server where
  host : String
  port : UInt16
  timeout : UInt64
  deriving DecidableEq, Repr

structure PostgresqlPool where
  maxConnections : UInt32
  minConnections : UInt32
  connectTimeout : UInt64
  acquireTimeout : UInt64
  idleTimeout : UInt64
  maxLifetime : UInt64
  deriving DecidableEq, Repr

structure Postgresql where
  host : String
  port : UInt16
  username : String
  password : String
  database : String
  pool : PostgresqlPool
  deriving DecidableEq, Repr

/-- `URL_ENCODE_SET`: everything except ASCII alphanumerics and `-`, `.`, `_`, `~`. -/
def urlEncodeSet : AsciiSet := (((nonAlphanumeric.remove 45).remove 46).remove 95).remove 126

/-- `Server::url`: bindable address, an IPv6 host in brackets. -/
def Server.url (self : Server) : String :=
  if self.host.toList.contains ':' then "[" ++ self.host ++ "]:" ++ toString self.port
  else self.host ++ ":" ++ toString self.port

/-- `Postgresql::url`: connection string assembled from the individual fields. -/
def Postgresql.url (self : Postgresql) : String :=
  let host := if self.host.toList.contains ':' then "[" ++ self.host ++ "]"
    else utf8PercentEncode self.host urlEncodeSet
  String.join
    ["postgres://", utf8PercentEncode self.username urlEncodeSet, ":",
      utf8PercentEncode self.password urlEncodeSet, "@", host, ":", toString self.port, "/",
      utf8PercentEncode self.database urlEncodeSet]

structure Config where
  name : String
  version : String
  environment : Environment
  debug : Bool
  server : Server
  database : Postgresql
  deriving DecidableEq, Repr

/-- The bottom layer of `Config::load`. -/
def Config.default (name version : String) : Config where
  name := name
  version := version
  environment := .local
  debug := false
  server := { host := "127.0.0.1", port := 8080, timeout := 30 }
  database :=
    { host := "localhost", port := 5432, username := "root", password := "root", database := "app",
      pool :=
        { maxConnections := 100, minConnections := 5, connectTimeout := 8, acquireTimeout := 8,
          idleTimeout := 600, maxLifetime := 1800 } }

/-! ### Validation -/

def ensure (cond : Bool) (message : String) : Except AnyhowError Unit :=
  if cond then .ok () else .error ⟨message, []⟩

theorem ensure_eq_ok {cond : Bool} {message : String} {u : Unit} : ensure cond message = .ok u ↔ cond = true := by
  cases cond <;> simp [ensure]

namespace Config

/-- `Config::validate`: the cross-field invariants that deserialization cannot enforce. -/
def validate (self : Config) : Except AnyhowError Config := do
  ensure (decide (0 < self.server.timeout))
    "server.timeout must be at least 1 second: 0 would time out every request instantly"
  ensure (decide (0 < self.database.pool.connectTimeout) && decide (0 < self.database.pool.acquireTimeout))
    "database.pool timeouts must be at least 1 second: 0 would fail every acquisition instantly"
  ensure (decide (self.database.pool.minConnections ≤ self.database.pool.maxConnections))
    ("database.pool.min_connections (" ++ toString self.database.pool.minConnections ++
      ") cannot exceed max_connections (" ++ toString self.database.pool.maxConnections ++ ")")
  if self.environment = .production then
    ensure (self.database.password != "root")
      "refusing to boot in production with the default database password; set APP_DATABASE__PASSWORD"
  return self

/-- What `Config::validate` checks. -/
structure Valid (config : Config) : Prop where
  timeout : 0 < config.server.timeout
  connectTimeout : 0 < config.database.pool.connectTimeout
  acquireTimeout : 0 < config.database.pool.acquireTimeout
  connections : config.database.pool.minConnections ≤ config.database.pool.maxConnections
  password : config.environment = .production → config.database.password ≠ "root"

private theorem bind_eq_ok {α β : Type} {x : Except AnyhowError α} {f : α → Except AnyhowError β} {b : β} :
    x >>= f = .ok b ↔ ∃ a, x = .ok a ∧ f a = .ok b := by
  cases x <;> simp [bind, Except.bind]

/-- A configuration passes unchanged, and iff it keeps the invariants. -/
theorem validate_eq_ok {self config : Config} : self.validate = .ok config ↔ config = self ∧ self.Valid := by
  unfold validate
  simp only [bind_eq_ok, ensure_eq_ok, exists_const, Bool.and_eq_true, decide_eq_true_eq]
  constructor
  · rintro ⟨ht, ⟨hc, ha⟩, hm, h⟩
    split at h
    · obtain ⟨_, hp, h⟩ := bind_eq_ok.1 h
      cases h
      exact ⟨rfl, ht, hc, ha, hm, fun _ => by simpa [ensure_eq_ok] using hp⟩
    · next henv =>
      cases h
      exact ⟨rfl, ht, hc, ha, hm, fun h => absurd h henv⟩
  · rintro ⟨rfl, hv⟩
    refine ⟨hv.timeout, ⟨hv.connectTimeout, hv.acquireTimeout⟩, hv.connections, ?_⟩
    split
    · next henv => exact bind_eq_ok.2 ⟨(), ensure_eq_ok.2 (by simpa using hv.password henv), rfl⟩
    · rfl

theorem valid_default (name version : String) : (Config.default name version).Valid where
  timeout := show (0 : UInt64) < 30 by decide
  connectTimeout := show (0 : UInt64) < 8 by decide
  acquireTimeout := show (0 : UInt64) < 8 by decide
  connections := show (5 : UInt32) ≤ 100 by decide
  password := by intro h; cases h

end Config

/-- A configuration that `Config::validate` lets through. -/
def Accepted : Type := { config : Config // config.validate = .ok config }

/-- What `Config::load` hands out when no source sets anything. -/
def Accepted.default (name version : String) : Accepted :=
  ⟨Config.default name version, Config.validate_eq_ok.2 ⟨rfl, Config.valid_default name version⟩⟩

end StarterHub
