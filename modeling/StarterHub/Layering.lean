import StarterHub.ConfigLoad

/-!
# Layered configuration

What `Config::load` returns, by the effective value of each field: the one of the most specific layer that sets it.
The layers are merged into one tree of tables before anything is read.  As no path of a layer goes through a field or
ends above one, the leaf of a field holds its effective value (`leaves_build`) and the keys of the tables are those that
some layer mentions (`strict_iff`): no layer can hide an unknown key that another one sets.
-/

namespace StarterHub

open Tree.Value

/-! ### Fields -/

/-- The fields of the tree, struct by struct. -/
def fieldPaths : List Path :=
  [["name"], ["version"], ["environment"], ["debug"],
    ["server", "host"], ["server", "port"], ["server", "timeout"],
    ["database", "host"], ["database", "port"], ["database", "username"], ["database", "password"],
    ["database", "database"],
    ["database", "pool", "max_connections"], ["database", "pool", "min_connections"],
    ["database", "pool", "connect_timeout"], ["database", "pool", "acquire_timeout"],
    ["database", "pool", "idle_timeout"], ["database", "pool", "max_lifetime"]]

/-- The path of the layer ends neither above a field nor below it. -/
def Flat (path : Path) : Prop := ∀ field ∈ fieldPaths, path = field ∨ Apart path field

instance (path : Path) : Decidable (Flat path) := inferInstanceAs (Decidable (∀ field ∈ fieldPaths, _ ∨ _))

/-- The value of the most specific layer that sets the path. -/
def effective (layers : List ConfigLayer) (path : Path) : Option Scalar :=
  layers.reverse.findSome? fun layer => layer.reverse.lookup path

/-- Every field of the configuration is what its value converts to. -/
structure Reads (value : Path → Option Scalar) (config : Config) : Prop where
  name : (value ["name"]).bind Scalar.intoString = some config.name
  version : (value ["version"]).bind Scalar.intoString = some config.version
  environment : ((value ["environment"]).bind fun v => Environment.deserialize (.scalar v)) = some config.environment
  debug : (value ["debug"]).bind nativeOrString = some config.debug
  serverHost : (value ["server", "host"]).bind Scalar.intoString = some config.server.host
  serverPort : (value ["server", "port"]).bind nativeOrString = some config.server.port
  serverTimeout : (value ["server", "timeout"]).bind nativeOrString = some config.server.timeout
  host : (value ["database", "host"]).bind Scalar.intoString = some config.database.host
  port : (value ["database", "port"]).bind nativeOrString = some config.database.port
  username : (value ["database", "username"]).bind Scalar.intoString = some config.database.username
  password : (value ["database", "password"]).bind Scalar.intoString = some config.database.password
  database : (value ["database", "database"]).bind Scalar.intoString = some config.database.database
  maxConnections : (value ["database", "pool", "max_connections"]).bind nativeOrString =
    some config.database.pool.maxConnections
  minConnections : (value ["database", "pool", "min_connections"]).bind nativeOrString =
    some config.database.pool.minConnections
  connectTimeout : (value ["database", "pool", "connect_timeout"]).bind nativeOrString =
    some config.database.pool.connectTimeout
  acquireTimeout : (value ["database", "pool", "acquire_timeout"]).bind nativeOrString =
    some config.database.pool.acquireTimeout
  idleTimeout : (value ["database", "pool", "idle_timeout"]).bind nativeOrString =
    some config.database.pool.idleTimeout
  maxLifetime : (value ["database", "pool", "max_lifetime"]).bind nativeOrString =
    some config.database.pool.maxLifetime

/-! ### Effective values -/

theorem effective_eq_lookup (layers : List ConfigLayer) (path : Path) :
    effective layers path = layers.flatten.reverse.lookup path := by
  induction layers with
  | nil => rfl
  | cons layer layers ih =>
    rw [effective] at ih ⊢
    rw [List.reverse_cons, List.findSome?_append, ih, List.flatten_cons, List.reverse_append, List.lookup_append]
    simp

/-- A layer that does not set the path does not count for it. -/
theorem effective_of_unset {lower upper : List ConfigLayer} {layer : ConfigLayer} {path : Path}
    (h : path ∉ layer.map Prod.fst) : effective (lower ++ layer :: upper) path = effective (lower ++ upper) path := by
  have hlayer : layer.reverse.lookup path = none := by
    refine List.lookup_eq_none_iff.2 fun e he => ?_
    have hne : path ≠ e.1 := by
      rintro rfl
      exact h (List.mem_map_of_mem (List.mem_reverse.1 he))
    simpa using hne
  simp [effective, List.findSome?_append, hlayer]

/-! ### Structs -/

section

variable {t : ConfigValue} {n : Path} {fields : List String}

/-- The keys of the table are fields. -/
def Strict (t : ConfigValue) (n : Path) (fields : List String) : Prop := ∀ k ∈ keysAt n t, k ∈ fields

/-- A struct that stands at a table is read from what stands below this table. -/
theorem bind_denyUnknownFields {β : Type} {c : β} (ht : IsTable n t) (read : (String → Option ConfigValue) → Option β) :
    ((Tree.Value.get n t).bind fun v => (denyUnknownFields fields v).bind read) = some c ↔
      Strict t n fields ∧ read (fun k => Tree.Value.get (n ++ [k]) t) = some c := by
  obtain ⟨entries, hn⟩ := ht
  have hentries : (fun k => Tree.Value.get (n ++ [k]) t) = fun k => entries.lookup k := by
    funext k
    rw [get_append, hn, Option.bind_some, Tree.Value.get, child]
    exact Option.bind_fun_some _
  have hkeys : Strict t n fields ↔ (entries.all fun e => decide (e.1 ∈ fields)) = true := by
    simp [Strict, keysAt, hn, Tree.Value.entries]
  rw [hkeys, hentries, hn, Option.bind_some, denyUnknownFields]
  split <;> simp [*]

end

/-- The structs of the tree, by their tables and fields. -/
def structs : List (Path × List String) :=
  [([], ["name", "version", "environment", "debug", "server", "database"]),
    (["server"], ["host", "port", "timeout"]),
    (["database"], ["host", "port", "username", "password", "database", "pool"]),
    (["database", "pool"],
      ["max_connections", "min_connections", "connect_timeout", "acquire_timeout", "idle_timeout", "max_lifetime"])]

section

variable {t : ConfigValue} {value : Path → Option Scalar}

/-- The leaves of the fields hold the values. -/
def Leaves (t : ConfigValue) (value : Path → Option Scalar) : Prop :=
  ∀ f ∈ fieldPaths, Tree.Value.get f t = (value f).map .scalar

theorem Leaves.bind (h : Leaves t value) {f : Path} (hf : f ∈ fieldPaths) {β : Type} (read : Scalar → Option β) :
    (Tree.Value.get f t).bind (onScalar read) = (value f).bind read := by
  rw [h f hf]
  cases value f <;> rfl

private theorem deserialize_server (ht : IsTable ["server"] t) (h : Leaves t value) {server : Server} :
    (Tree.Value.get ["server"] t).bind Server.deserialize = some server ↔
      Strict t ["server"] ["host", "port", "timeout"] ∧
        (value ["server", "host"]).bind Scalar.intoString = some server.host ∧
        (value ["server", "port"]).bind nativeOrString = some server.port ∧
        (value ["server", "timeout"]).bind nativeOrString = some server.timeout := by
  refine (bind_denyUnknownFields ht _).trans (and_congr_right fun _ => ?_)
  simp only [Option.bind_eq_bind, List.cons_append, List.nil_append]
  simp (disch := decide) only [h.bind]
  constructor
  · intro h
    obtain ⟨_, h1, h⟩ := Option.bind_eq_some_iff.1 h
    obtain ⟨_, h2, h⟩ := Option.bind_eq_some_iff.1 h
    obtain ⟨_, h3, h⟩ := Option.bind_eq_some_iff.1 h
    cases h
    exact ⟨h1, h2, h3⟩
  · rintro ⟨h1, h2, h3⟩
    simp only [h1, h2, h3, Option.bind_some]
    rfl

private theorem deserialize_pool (ht : IsTable ["database", "pool"] t) (h : Leaves t value) {pool : PostgresqlPool} :
    (Tree.Value.get ["database", "pool"] t).bind PostgresqlPool.deserialize = some pool ↔
      Strict t ["database", "pool"] ["max_connections", "min_connections", "connect_timeout", "acquire_timeout",
        "idle_timeout", "max_lifetime"] ∧
        (value ["database", "pool", "max_connections"]).bind nativeOrString = some pool.maxConnections ∧
        (value ["database", "pool", "min_connections"]).bind nativeOrString = some pool.minConnections ∧
        (value ["database", "pool", "connect_timeout"]).bind nativeOrString = some pool.connectTimeout ∧
        (value ["database", "pool", "acquire_timeout"]).bind nativeOrString = some pool.acquireTimeout ∧
        (value ["database", "pool", "idle_timeout"]).bind nativeOrString = some pool.idleTimeout ∧
        (value ["database", "pool", "max_lifetime"]).bind nativeOrString = some pool.maxLifetime := by
  refine (bind_denyUnknownFields ht _).trans (and_congr_right fun _ => ?_)
  simp only [Option.bind_eq_bind, List.cons_append, List.nil_append]
  simp (disch := decide) only [h.bind]
  constructor
  · intro h
    obtain ⟨_, h1, h⟩ := Option.bind_eq_some_iff.1 h
    obtain ⟨_, h2, h⟩ := Option.bind_eq_some_iff.1 h
    obtain ⟨_, h3, h⟩ := Option.bind_eq_some_iff.1 h
    obtain ⟨_, h4, h⟩ := Option.bind_eq_some_iff.1 h
    obtain ⟨_, h5, h⟩ := Option.bind_eq_some_iff.1 h
    obtain ⟨_, h6, h⟩ := Option.bind_eq_some_iff.1 h
    cases h
    exact ⟨h1, h2, h3, h4, h5, h6⟩
  · rintro ⟨h1, h2, h3, h4, h5, h6⟩
    simp only [h1, h2, h3, h4, h5, h6, Option.bind_some]
    rfl

private theorem deserialize_database (ht : IsTable ["database"] t) (h : Leaves t value) {database : Postgresql} :
    (Tree.Value.get ["database"] t).bind Postgresql.deserialize = some database ↔
      Strict t ["database"] ["host", "port", "username", "password", "database", "pool"] ∧
        (value ["database", "host"]).bind Scalar.intoString = some database.host ∧
        (value ["database", "port"]).bind nativeOrString = some database.port ∧
        (value ["database", "username"]).bind Scalar.intoString = some database.username ∧
        (value ["database", "password"]).bind Scalar.intoString = some database.password ∧
        (value ["database", "database"]).bind Scalar.intoString = some database.database ∧
        (Tree.Value.get ["database", "pool"] t).bind PostgresqlPool.deserialize = some database.pool := by
  refine (bind_denyUnknownFields ht _).trans (and_congr_right fun _ => ?_)
  simp only [Option.bind_eq_bind, List.cons_append, List.nil_append]
  simp (disch := decide) only [h.bind]
  constructor
  · intro h
    obtain ⟨_, h1, h⟩ := Option.bind_eq_some_iff.1 h
    obtain ⟨_, h2, h⟩ := Option.bind_eq_some_iff.1 h
    obtain ⟨_, h3, h⟩ := Option.bind_eq_some_iff.1 h
    obtain ⟨_, h4, h⟩ := Option.bind_eq_some_iff.1 h
    obtain ⟨_, h5, h⟩ := Option.bind_eq_some_iff.1 h
    obtain ⟨_, h6, h⟩ := Option.bind_eq_some_iff.1 h
    cases h
    exact ⟨h1, h2, h3, h4, h5, h6⟩
  · rintro ⟨h1, h2, h3, h4, h5, h6⟩
    simp only [h1, h2, h3, h4, h5, h6, Option.bind_some]
    rfl

/-- The tree is read struct by struct: all keys are fields and every leaf converts. -/
theorem deserialize_eq_some {config : Config} (htable : ∀ s ∈ structs, IsTable s.1 t) (h : Leaves t value) :
    Config.deserialize t = some config ↔ (∀ s ∈ structs, Strict t s.1 s.2) ∧ Reads value config := by
  simp only [structs, List.forall_mem_cons, List.not_mem_nil, false_imp_iff, implies_true, and_true] at htable ⊢
  obtain ⟨hroot, hserver, hdatabase, hpool⟩ := htable
  have henvironment : (Tree.Value.get ["environment"] t).bind Environment.deserialize =
      (value ["environment"]).bind fun v => Environment.deserialize (.scalar v) := by
    rw [h ["environment"] (by decide)]
    cases value ["environment"] <;> rfl
  refine (bind_denyUnknownFields hroot _).trans ?_
  simp only [Option.bind_eq_bind, List.nil_append]
  simp (disch := decide) only [h.bind]
  rw [henvironment]
  constructor
  · rintro ⟨hstrict, hread⟩
    obtain ⟨_, h1, hread⟩ := Option.bind_eq_some_iff.1 hread
    obtain ⟨_, h2, hread⟩ := Option.bind_eq_some_iff.1 hread
    obtain ⟨_, h3, hread⟩ := Option.bind_eq_some_iff.1 hread
    obtain ⟨_, h4, hread⟩ := Option.bind_eq_some_iff.1 hread
    obtain ⟨_, h5, hread⟩ := Option.bind_eq_some_iff.1 hread
    obtain ⟨_, h6, hread⟩ := Option.bind_eq_some_iff.1 hread
    cases hread
    obtain ⟨hs, s1, s2, s3⟩ := (deserialize_server hserver h).1 h5
    obtain ⟨hd, d1, d2, d3, d4, d5, h7⟩ := (deserialize_database hdatabase h).1 h6
    obtain ⟨hp, p1, p2, p3, p4, p5, p6⟩ := (deserialize_pool hpool h).1 h7
    exact ⟨⟨hstrict, hs, hd, hp⟩,
      ⟨h1, h2, h3, h4, s1, s2, s3, d1, d2, d3, d4, d5, p1, p2, p3, p4, p5, p6⟩⟩
  · rintro ⟨⟨hstrict, hs, hd, hp⟩, ⟨h1, h2, h3, h4, s1, s2, s3, d1, d2, d3, d4, d5, p1, p2, p3, p4, p5, p6⟩⟩
    have h7 := (deserialize_pool hpool h).2 ⟨hp, p1, p2, p3, p4, p5, p6⟩
    have h6 := (deserialize_database hdatabase h).2 ⟨hd, d1, d2, d3, d4, d5, h7⟩
    have h5 := (deserialize_server hserver h).2 ⟨hs, s1, s2, s3⟩
    refine ⟨hstrict, ?_⟩
    simp only [h1, h2, h3, h4, h5, h6, Option.bind_some]
    rfl

end

/-! ### Unknown keys -/

section

variable {path : Path} {layers : List ConfigLayer}

theorem Flat.not_prefix_struct (hp : Flat path) {s : Path × List String} (hs : s ∈ structs) : ¬ path <+: s.1 := by
  have hfield : ∀ s ∈ structs, ∃ f ∈ fieldPaths, s.1 <+: f ∧ f ≠ s.1 := by decide
  obtain ⟨f, hf, hsf, hne⟩ := hfield s hs
  intro hps
  rcases hp f hf with rfl | ⟨hapart, -⟩
  · exact hne (hps.eq_of_length_le hsf.length_le)
  · exact hapart (hps.trans hsf)

theorem Flat.mem (hp : Flat path) {f : Path} (hf : f ∈ fieldPaths) (h : f <+: path) : path ∈ fieldPaths := by
  rcases hp f hf with rfl | ⟨-, hapart⟩
  · exact hf
  · exact absurd h hapart

/-- Every key of a struct is a field or leads to another struct. -/
private theorem leaf_or_struct :
    ∀ s ∈ structs, ∀ k ∈ s.2, s.1 ++ [k] ∈ fieldPaths ∨ ∃ s' ∈ structs, s'.1 = s.1 ++ [k] := by
  decide

/-- A path that the structs know all the way down ends at a field. -/
private theorem Flat.descend (hp : Flat path) (h : ∀ s ∈ structs, ∀ k, s.1 ++ [k] <+: path → k ∈ s.2)
    {rest : Path} {s : Path × List String} (hs : s ∈ structs) (hpath : path = s.1 ++ rest) : path ∈ fieldPaths := by
  induction rest generalizing s with
  | nil => exact absurd ⟨[], by simp [hpath]⟩ (hp.not_prefix_struct hs)
  | cons k rest ih =>
    have hk : s.1 ++ [k] <+: path := ⟨rest, by simp [hpath]⟩
    rcases leaf_or_struct s hs k (h s hs k hk) with hleaf | ⟨s', hs', he⟩
    · exact hp.mem hleaf hk
    · exact ih hs' (by rw [he, hpath, List.append_assoc, List.singleton_append])

/-- A path is a field iff every struct it goes through knows its key. -/
theorem mem_fieldPaths_iff (hp : Flat path) :
    path ∈ fieldPaths ↔ ∀ s ∈ structs, ∀ k, s.1 ++ [k] <+: path → k ∈ s.2 := by
  constructor
  · intro hmem s hs k hk
    have hknown : ∀ f ∈ fieldPaths, ∀ s ∈ structs, s.1 <+: f → ∀ k ∈ f[s.1.length]?, k ∈ s.2 := by decide
    obtain ⟨rest, rfl⟩ := hk
    refine hknown _ hmem s hs ⟨k :: rest, by simp⟩ k ?_
    simp
  · exact fun h => hp.descend h (s := structs.head (by decide)) (List.head_mem _) rfl

variable {writes : ConfigLayer}

/-- The tables of the merged tree hold known keys only iff all paths are fields. -/
theorem strict_iff (hflat : ∀ e ∈ writes, Flat e.1) :
    (∀ s ∈ structs, Strict (build writes) s.1 s.2) ↔ ∀ e ∈ writes, e.1 ∈ fieldPaths := by
  have hkeys : ∀ s ∈ structs, ∀ k, k ∈ keysAt s.1 (build writes) ↔ ∃ e ∈ writes, s.1 ++ [k] <+: e.1 :=
    fun s hs k => mem_keysAt_build fun e he => (hflat e he).not_prefix_struct hs
  constructor
  · intro h e he
    refine (mem_fieldPaths_iff (hflat e he)).2 fun s hs k hk => h s hs k ?_
    exact (hkeys s hs k).2 ⟨e, he, hk⟩
  · intro h s hs k hk
    obtain ⟨e, he, hpre⟩ := (hkeys s hs k).1 hk
    exact (mem_fieldPaths_iff (hflat e he)).1 (h e he) s hs k hpre

/-- The leaves of the merged tree hold the effective values. -/
theorem leaves_build (hflat : ∀ e ∈ layers.flatten, Flat e.1) : Leaves (build layers.flatten) (effective layers) := by
  intro f hf
  have hne : f ≠ [] := by
    rintro rfl
    revert hf
    decide
  rw [effective_eq_lookup]
  exact get_build hne fun e he => hflat e he f hf

/-- Every struct of the tree has its table as soon as every field has a default. -/
theorem isTable_of_defaults (hflat : ∀ e ∈ writes, Flat e.1) (hdefault : fieldPaths ⊆ writes.map Prod.fst) :
    ∀ s ∈ structs, IsTable s.1 (build writes) := by
  intro s hs
  have hfield : ∀ s ∈ structs, ∃ f ∈ fieldPaths, s.1 <+: f := by decide
  obtain ⟨f, hf, hsf⟩ := hfield s hs
  obtain ⟨e, he, rfl⟩ := List.mem_map.1 (hdefault hf)
  exact isTable_build (fun e he => (hflat e he).not_prefix_struct hs) ⟨e, he, hsf⟩

end

/-! ### The law -/

section

variable {name version : String} {sources : Sources}

/-- No path of the files and the environment ends above a field or below it. -/
def Sources.Flat (sources : Sources) : Prop :=
  ∀ layer ∈ [sources.system, sources.workDir, environmentLayer sources.vars], ∀ e ∈ layer, StarterHub.Flat e.1

instance (sources : Sources) : Decidable sources.Flat :=
  inferInstanceAs (Decidable (∀ layer ∈ [_, _, _], ∀ e ∈ layer, _))

/-- The text fields of the tree. -/
def textFields : List (Path × (Config → String)) :=
  [(["name"], Config.name), (["version"], Config.version), (["server", "host"], fun config => config.server.host),
    (["database", "host"], fun config => config.database.host),
    (["database", "username"], fun config => config.database.username),
    (["database", "password"], fun config => config.database.password),
    (["database", "database"], fun config => config.database.database)]

/-- What `Config::load` makes of its layers. -/
structure LayeredLaw (name version : String) (sources : Sources) (layers : List ConfigLayer) : Prop where
  -- It returns a configuration iff every path of every layer is a field, the fields are what their effective values
  -- convert to, and the invariants hold.
  exact : ∀ config, Config.load name version sources = .ok config ↔
    (∀ layer ∈ layers, ∀ e ∈ layer, e.1 ∈ fieldPaths) ∧ Reads (effective layers) config ∧ config.Valid
  -- Texts are kept as they are.
  verbatim : ∀ config, Config.load name version sources = .ok config → ∀ f ∈ textFields, ∀ s,
    effective layers f.1 = some (.string s) → f.2 config = s
  -- A layer changes nothing at a path it does not set.
  unset : ∀ lower layer upper, layers = lower ++ layer :: upper → ∀ path,
    path ∉ layer.map Prod.fst → effective layers path = effective (lower ++ upper) path
  -- A key that is no field ends the load, whatever the other layers set.
  unknown : ∀ layer ∈ layers, ∀ e ∈ layer, e.1 ∉ fieldPaths → ∃ error, Config.load name version sources = .error error
  -- Without external layers the load succeeds.
  zeroSetup : sources.system = [] → sources.workDir = [] → environmentLayer sources.vars = [] →
    Config.load name version sources = .ok (Config.default name version)

theorem load_eq_ok {config : Config} : Config.load name version sources = .ok config ↔
    Config.deserialize (build (sources.layers name version).flatten) = some config ∧ config.Valid := by
  unfold Config.load
  split
  · next hnone => simp [hnone]
  · next read hsome =>
    rw [hsome, Option.some.injEq]
    constructor
    · intro h
      split at h
      · cases h
      · next config' hvalid =>
        cases h
        obtain ⟨rfl, hv⟩ := Config.validate_eq_ok.1 hvalid
        exact ⟨rfl, hv⟩
    · rintro ⟨rfl, hv⟩
      rw [Config.validate_eq_ok.2 ⟨rfl, hv⟩]

theorem flat_defaults (name version : String) : ∀ e ∈ defaults name version, Flat e.1 := by
  have hpaths : (defaults name version).map Prod.fst = fieldPaths := rfl
  have hflat : ∀ f ∈ fieldPaths, Flat f := by decide
  exact fun e he => hflat e.1 (hpaths ▸ List.mem_map_of_mem he)

theorem flat_layers (name version : String) (h : sources.Flat) :
    ∀ e ∈ (sources.layers name version).flatten, Flat e.1 := by
  intro e he
  obtain ⟨layer, hlayer, he⟩ := List.mem_flatten.1 he
  rcases List.mem_cons.1 hlayer with rfl | hlayer
  · exact flat_defaults name version e he
  · exact h layer hlayer e he

theorem reads_defaults (name version : String) :
    Reads (effective [defaults name version, [], [], []]) (Config.default name version) := by
  constructor <;> rfl

/-- When the merged tree is read, and as what. -/
theorem deserialize_layers_eq_some (h : sources.Flat) {config : Config} :
    Config.deserialize (build (sources.layers name version).flatten) = some config ↔
      (∀ layer ∈ sources.layers name version, ∀ e ∈ layer, e.1 ∈ fieldPaths) ∧
        Reads (effective (sources.layers name version)) config := by
  have hflat := flat_layers name version h
  have hdefault : fieldPaths ⊆ (sources.layers name version).flatten.map Prod.fst :=
    fun f hf => List.mem_map.2 <| by
      obtain ⟨e, he, rfl⟩ := List.mem_map.1 (show f ∈ (defaults name version).map Prod.fst from hf)
      exact ⟨e, List.mem_append_left _ he, rfl⟩
  rw [deserialize_eq_some (isTable_of_defaults hflat hdefault) (leaves_build hflat), strict_iff hflat]
  refine and_congr_left fun _ => ?_
  simp only [List.mem_flatten, forall_exists_index, and_imp]
  exact ⟨fun h layer hlayer e he => h e layer hlayer he, fun h e layer hlayer he => h layer hlayer e he⟩

/-- The exact condition under which a load succeeds, and what it returns then. -/
theorem load_iff (h : sources.Flat) {config : Config} : Config.load name version sources = .ok config ↔
    (∀ layer ∈ sources.layers name version, ∀ e ∈ layer, e.1 ∈ fieldPaths) ∧
      Reads (effective (sources.layers name version)) config ∧ config.Valid := by
  rw [load_eq_ok, deserialize_layers_eq_some h, and_assoc]

/-- From layers of any paths that are fields or apart from them, the load follows the law. -/
theorem layered_load (name version : String) (sources : Sources) (h : sources.Flat) :
    LayeredLaw name version sources
      [defaults name version, sources.system, sources.workDir, environmentLayer sources.vars] := by
  change LayeredLaw name version sources (sources.layers name version)
  refine ⟨fun config => load_iff h, fun config hload f hf s hs => ?_, fun lower layer upper hl path hpath => ?_,
    fun layer hlayer e he hunknown => ?_, fun hsystem hworkDir hvars => ?_⟩
  · obtain ⟨-, hreads, -⟩ := (load_iff h).1 hload
    have hread : ∀ f ∈ textFields,
        (effective (sources.layers name version) f.1).bind Scalar.intoString = some (f.2 config) := by
      simp only [textFields, List.forall_mem_cons, List.not_mem_nil, false_imp_iff, implies_true, and_true]
      exact ⟨hreads.name, hreads.version, hreads.serverHost, hreads.host, hreads.username, hreads.password,
        hreads.database⟩
    have := hread f hf
    rw [hs] at this
    exact (Option.some.inj this).symm
  · rw [hl]
    exact effective_of_unset hpath
  · cases hload : Config.load name version sources with
    | error error => exact ⟨error, rfl⟩
    | ok config => exact absurd (((load_iff h).1 hload).1 layer hlayer e he) hunknown
  · have hlayers : sources.layers name version = [defaults name version, [], [], []] := by
      rw [Sources.layers, hsystem, hworkDir, hvars]
    rw [load_iff h, hlayers]
    refine ⟨?_, reads_defaults name version, Config.valid_default name version⟩
    simp only [List.forall_mem_cons, List.not_mem_nil, false_imp_iff, implies_true, and_true]
    exact fun e he => List.mem_map_of_mem (f := Prod.fst) he

/-- A file that overrides a default and a variable that overrides the file. -/
def threeLayers : Sources where
  workDir := [(["debug"], .boolean true), (["server", "port"], .integer 7777)]
  vars := [("APP_DEBUG", "false"), ("PATH", "/bin"), ("APP_DATABASE__PASSWORD", "0123")]

theorem layered_load_three : LayeredLaw "under-test" "0.0.0" threeLayers
    [defaults "under-test" "0.0.0", [], threeLayers.workDir, environmentLayer threeLayers.vars] :=
  layered_load "under-test" "0.0.0" threeLayers (by decide)

end

end StarterHub
