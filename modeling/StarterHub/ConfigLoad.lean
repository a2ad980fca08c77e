import StarterHub.Config
import StarterHub.Lib.Tree

/-!
# Loading the configuration (`common/src/config.rs`)

`Config::load` from its four layers on: what the `config` crate merges them into, how each struct of the tree is read
from its table, and the two shapes a typed scalar can arrive in.  An error of the crate itself is not told from
another one; its text is not the repository's.
-/

namespace StarterHub

/-! ### Scalars -/

/-- The values of the `config` crate other than tables, a float by its `Display`. -/
inductive Scalar where
  | nil
  | boolean (value : Bool)
  | integer (value : Int)
  | float (display : String)
  | string (value : String)
  | array (items : List Scalar)

/-- What the `config` crate merges the layers into. -/
abbrev ConfigValue : Type := Tree.Value String Scalar

/-- A leaf of the tree. -/
def onScalar {β : Type} (f : Scalar → Option β) : ConfigValue → Option β
  | .scalar value => f value
  | .table _ => none

/-- `Value::into_string`. -/
def Scalar.intoString : Scalar → Option String
  | .string value => some value
  | .boolean value => some (if value then "true" else "false")
  | .integer value => some (toString value)
  | .float display => some display
  | .nil | .array _ => none

/-- A step of `from_str`, with its two overflow checks. -/
def pushDigit (max acc : Nat) (c : Char) : Option Nat := do
  let digit ← if c.isDigit then some (c.toNat - 48) else none
  let acc ← if acc * 10 ≤ max then some (acc * 10) else none
  if acc + digit ≤ max then some (acc + digit) else none

def pushDigits (max : Nat) : Nat → List Char → Option Nat
  | acc, [] => some acc
  | acc, c :: cs => (pushDigit max acc c).bind fun acc => pushDigits max acc cs

/-- `from_str` of the unsigned integer with this `MAX`. -/
def parseUnsigned (max : Nat) (text : String) : Option Nat :=
  match text.toList with
  | [] | ['+'] | ['-'] => none
  | '+' :: digits => pushDigits max 0 digits
  | digits => pushDigits max 0 digits

/-- `Deserialize` of the unsigned integer with this `MAX`, from a buffered scalar. -/
def Scalar.unsigned (max : Nat) : Scalar → Option Nat
  | .integer value => if 0 ≤ value ∧ value.toNat ≤ max then some value.toNat else none
  | _ => none

/-- The types `native_or_string` is used at: `Deserialize` from a buffered scalar, without coercion between kinds,
and `FromStr`. -/
class TypedScalar (T : Type) where
  deserialize : Scalar → Option T
  fromStr : String → Option T

instance : TypedScalar UInt16 where
  deserialize value := (value.unsigned 65535).map UInt16.ofNat
  fromStr text := (parseUnsigned 65535 text).map UInt16.ofNat

instance : TypedScalar UInt32 where
  deserialize value := (value.unsigned 4294967295).map UInt32.ofNat
  fromStr text := (parseUnsigned 4294967295 text).map UInt32.ofNat

instance : TypedScalar UInt64 where
  deserialize value := (value.unsigned 18446744073709551615).map UInt64.ofNat
  fromStr text := (parseUnsigned 18446744073709551615 text).map UInt64.ofNat

instance : TypedScalar Bool where
  deserialize
    | .boolean value => some value
    | _ => none
  fromStr text := if text = "true" then some true else if text = "false" then some false else none

/-- The two shapes a typed scalar can arrive in. -/
inductive Raw (T : Type) where
  | native (value : T)
  | text (text : String)

/-- The variants of an untagged enum are tried in order. -/
def Raw.deserialize {T : Type} [TypedScalar T] (value : Scalar) : Option (Raw T) :=
  match TypedScalar.deserialize value, value with
  | some value, _ => some (.native value)
  | none, .string s => some (.text s)
  | none, _ => none

/-- `native_or_string`. -/
def nativeOrString {T : Type} [TypedScalar T] (value : Scalar) : Option T :=
  match Raw.deserialize value with
  | some (.native value) => some value
  | some (.text text) => TypedScalar.fromStr text
  | none => none

/-! ### Structs -/

/-- `deny_unknown_fields`: the entries of a table, if every key is a field. -/
def denyUnknownFields (fields : List String) : ConfigValue → Option (String → Option ConfigValue)
  | .table entries => if entries.all fun e => decide (e.1 ∈ fields) then some fun key => entries.lookup key else none
  | .scalar _ => none

def Environment.ofName : String → Option Environment
  | "local" => some .local
  | "development" => some .development
  | "staging" => some .staging
  | "production" => some .production
  | _ => none

/-- A variant is named by a text, or by the only key of a table. -/
def Environment.deserialize : ConfigValue → Option Environment
  | .scalar (.string name) | .table [(name, _)] => Environment.ofName name
  | _ => none

def Server.deserialize (value : ConfigValue) : Option Server := do
  let entries ← denyUnknownFields ["host", "port", "timeout"] value
  let host ← (entries "host").bind (onScalar Scalar.intoString)
  let port ← (entries "port").bind (onScalar nativeOrString)
  let timeout ← (entries "timeout").bind (onScalar nativeOrString)
  return { host, port, timeout }

def PostgresqlPool.deserialize (value : ConfigValue) : Option PostgresqlPool := do
  let entries ← denyUnknownFields ["max_connections", "min_connections", "connect_timeout", "acquire_timeout",
    "idle_timeout", "max_lifetime"] value
  let maxConnections ← (entries "max_connections").bind (onScalar nativeOrString)
  let minConnections ← (entries "min_connections").bind (onScalar nativeOrString)
  let connectTimeout ← (entries "connect_timeout").bind (onScalar nativeOrString)
  let acquireTimeout ← (entries "acquire_timeout").bind (onScalar nativeOrString)
  let idleTimeout ← (entries "idle_timeout").bind (onScalar nativeOrString)
  let maxLifetime ← (entries "max_lifetime").bind (onScalar nativeOrString)
  return { maxConnections, minConnections, connectTimeout, acquireTimeout, idleTimeout, maxLifetime }

def Postgresql.deserialize (value : ConfigValue) : Option Postgresql := do
  let entries ← denyUnknownFields ["host", "port", "username", "password", "database", "pool"] value
  let host ← (entries "host").bind (onScalar Scalar.intoString)
  let port ← (entries "port").bind (onScalar nativeOrString)
  let username ← (entries "username").bind (onScalar Scalar.intoString)
  let password ← (entries "password").bind (onScalar Scalar.intoString)
  let database ← (entries "database").bind (onScalar Scalar.intoString)
  let pool ← (entries "pool").bind PostgresqlPool.deserialize
  return { host, port, username, password, database, pool }

def Config.deserialize (value : ConfigValue) : Option Config := do
  let entries ← denyUnknownFields ["name", "version", "environment", "debug", "server", "database"] value
  let name ← (entries "name").bind (onScalar Scalar.intoString)
  let version ← (entries "version").bind (onScalar Scalar.intoString)
  let environment ← (entries "environment").bind Environment.deserialize
  let debug ← (entries "debug").bind (onScalar nativeOrString)
  let server ← (entries "server").bind Server.deserialize
  let database ← (entries "database").bind Postgresql.deserialize
  return { name, version, environment, debug, server, database }

/-! ### Sources -/

abbrev Path : Type := List String

/-- What a source sets; of two entries at one path the later one counts. -/
abbrev ConfigLayer : Type := List (Path × Scalar)

/-- Layer 1. -/
def defaults (name version : String) : ConfigLayer :=
  [(["name"], .string name),
    (["version"], .string version),
    (["environment"], .string "local"),
    (["debug"], .boolean false),
    (["server", "host"], .string "127.0.0.1"),
    (["server", "port"], .integer 8080),
    (["server", "timeout"], .integer 30),
    (["database", "host"], .string "localhost"),
    (["database", "port"], .integer 5432),
    (["database", "username"], .string "root"),
    (["database", "password"], .string "root"),
    (["database", "database"], .string "app"),
    (["database", "pool", "max_connections"], .integer 100),
    (["database", "pool", "min_connections"], .integer 5),
    (["database", "pool", "connect_timeout"], .integer 8),
    (["database", "pool", "acquire_timeout"], .integer 8),
    (["database", "pool", "idle_timeout"], .integer 600),
    (["database", "pool", "max_lifetime"], .integer 1800)]

/-- The nesting separator `__` becomes a dot. -/
def replaceSeparator : List Char → List Char
  | '_' :: '_' :: cs => '.' :: replaceSeparator cs
  | c :: cs => c :: replaceSeparator cs
  | [] => []

def splitDots : List Char → List (List Char)
  | [] => [[]]
  | '.' :: cs => [] :: splitDots cs
  | c :: cs =>
    match splitDots cs with
    | [] => [[c]]
    | segment :: segments => (c :: segment) :: segments

/-- A key as a path; one that is no path expression is a key of the root. -/
def keyPath (key : List Char) : Path :=
  let segments := splitDots key
  if segments.all fun segment => !segment.isEmpty && segment.all fun c => c.isAlphanum || c == '_' || c == '-' then
    segments.map String.ofList
  else [String.ofList key]

/-- `config::Environment` on one variable; without its case, the name is looked at by its ASCII letters only, as no
other character is the capital of one that stands in the tree. -/
def environmentEntry (var : String × String) : Option (Path × Scalar) :=
  let key := var.1.toList.map Char.toLower
  if ['a', 'p', 'p', '_'].isPrefixOf key then some (keyPath (replaceSeparator (key.drop 4)), .string var.2) else none

/-- Layer 4: every `APP_` variable, by its text. -/
def environmentLayer (vars : List (String × String)) : ConfigLayer := vars.filterMap environmentEntry

/-- What `Config::load` finds: the two files, `[]` for one that does not exist, and the process environment. -/
structure Sources where
  system : ConfigLayer := []
  workDir : ConfigLayer := []
  vars : List (String × String) := []

/-- The layers, from the least to the most specific. -/
def Sources.layers (name version : String) (sources : Sources) : List ConfigLayer :=
  [defaults name version, sources.system, sources.workDir, environmentLayer sources.vars]

inductive LoadError where
  | deserialize
  | invariant (error : AnyhowError)

/-- `Config::load`. -/
def Config.load (name version : String) (sources : Sources) : Except LoadError Config :=
  match Config.deserialize (Tree.Value.build (sources.layers name version).flatten) with
  | none => .error .deserialize
  | some config =>
    match config.validate with
    | .error error => .error (.invariant error)
    | .ok config => .ok config

end StarterHub
