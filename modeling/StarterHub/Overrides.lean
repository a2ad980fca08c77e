import StarterHub.Variables

/-!
# Overrides

A deployment starts from a configuration that works and sets some more variables.  What that changes is what they name
and nothing else: every setting that no new variable names keeps its value, the others get theirs from the last one
that names them, and whether the load still succeeds is decided by the new texts and the validation alone.
-/

namespace StarterHub

/-- A setting: how its value is read, and where it goes. -/
structure Field where
  path : Path
  Value : Type
  read : Scalar → Option Value
  get : Config → Value

def fields : List Field :=
  [⟨["name"], String, Scalar.intoString, Config.name⟩,
    ⟨["version"], String, Scalar.intoString, Config.version⟩,
    ⟨["environment"], Environment, fun v => Environment.deserialize (.scalar v), Config.environment⟩,
    ⟨["debug"], Bool, nativeOrString, Config.debug⟩,
    ⟨["server", "host"], String, Scalar.intoString, fun self => self.server.host⟩,
    ⟨["server", "port"], UInt16, nativeOrString, fun self => self.server.port⟩,
    ⟨["server", "timeout"], UInt64, nativeOrString, fun self => self.server.timeout⟩,
    ⟨["database", "host"], String, Scalar.intoString, fun self => self.database.host⟩,
    ⟨["database", "port"], UInt16, nativeOrString, fun self => self.database.port⟩,
    ⟨["database", "username"], String, Scalar.intoString, fun self => self.database.username⟩,
    ⟨["database", "password"], String, Scalar.intoString, fun self => self.database.password⟩,
    ⟨["database", "database"], String, Scalar.intoString, fun self => self.database.database⟩,
    ⟨["database", "pool", "max_connections"], UInt32, nativeOrString, fun self => self.database.pool.maxConnections⟩,
    ⟨["database", "pool", "min_connections"], UInt32, nativeOrString, fun self => self.database.pool.minConnections⟩,
    ⟨["database", "pool", "connect_timeout"], UInt64, nativeOrString, fun self => self.database.pool.connectTimeout⟩,
    ⟨["database", "pool", "acquire_timeout"], UInt64, nativeOrString, fun self => self.database.pool.acquireTimeout⟩,
    ⟨["database", "pool", "idle_timeout"], UInt64, nativeOrString, fun self => self.database.pool.idleTimeout⟩,
    ⟨["database", "pool", "max_lifetime"], UInt64, nativeOrString, fun self => self.database.pool.maxLifetime⟩]

example : fields.map Field.path = fieldPaths := rfl

theorem reads_iff {value : Path → Option Scalar} {config : Config} : Reads value config ↔
    ∀ f ∈ fields, (value f.path).bind f.read = some (f.get config) := by
  simp only [fields, List.forall_mem_cons, List.not_mem_nil, false_imp_iff, implies_true, and_true]
  constructor
  · intro h
    exact ⟨h.name, h.version, h.environment, h.debug, h.serverHost, h.serverPort, h.serverTimeout, h.host, h.port,
      h.username, h.password, h.database, h.maxConnections, h.minConnections, h.connectTimeout, h.acquireTimeout,
      h.idleTimeout, h.maxLifetime⟩
  · rintro ⟨h1, h2, h3, h4, s1, s2, s3, d1, d2, d3, d4, d5, p1, p2, p3, p4, p5, p6⟩
    exact ⟨h1, h2, h3, h4, s1, s2, s3, d1, d2, d3, d4, d5, p1, p2, p3, p4, p5, p6⟩

/-- What the field gets is what the last override of it says, if there is one, and else what it was. -/
def Field.Overridden (f : Field) (overrides : List (Path × String)) (config config' : Config) : Prop :=
  match overrides.reverse.lookup f.path with
  | some text => f.read (.string text) = some (f.get config')
  | none => f.get config' = f.get config

section

variable {name version : String} {sources : Sources} {overrides : List (Path × String)} {config config' : Config}

private theorem effective_overridden (h : ∀ o ∈ overrides, o.1 ∈ fieldPaths) (path : Path) :
    effective ({ sources with vars := sources.vars ++ toVars overrides }.layers name version) path =
      ((overrides.reverse.lookup path).map Scalar.string).or (effective (sources.layers name version) path) := by
  have hlayer : environmentLayer (sources.vars ++ toVars overrides) =
      environmentLayer sources.vars ++ overrides.map fun o => (o.1, .string o.2) := by
    rw [← environmentLayer_toVars h]
    exact List.filterMap_append
  have hlookup : (environmentLayer (sources.vars ++ toVars overrides)).reverse.lookup path =
      ((overrides.reverse.lookup path).map Scalar.string).or ((environmentLayer sources.vars).reverse.lookup path) := by
    rw [hlayer, List.reverse_append, List.lookup_append, ← List.map_reverse, Tree.lookup_map]
  simp only [effective, Sources.layers, List.reverse_cons, List.reverse_nil, List.nil_append, List.cons_append,
    List.findSome?_cons, hlookup]
  cases overrides.reverse.lookup path <;> rfl

/-- What a batch of overrides does to a configuration that loads. -/
theorem load_override (hflat : sources.Flat) (h : ∀ o ∈ overrides, o.1 ∈ fieldPaths)
    (hload : Config.load name version sources = .ok config) :
    Config.load name version { sources with vars := sources.vars ++ toVars overrides } = .ok config' ↔
      (∀ f ∈ fields, f.Overridden overrides config config') ∧ config'.Valid := by
  obtain ⟨hfields, hreads, -⟩ := (load_iff hflat).1 hload
  have hlayer : ∀ e ∈ environmentLayer (sources.vars ++ toVars overrides),
      e ∈ environmentLayer sources.vars ∨ e.1 ∈ fieldPaths := by
    intro e he
    rw [environmentLayer, List.filterMap_append, ← environmentLayer, ← environmentLayer,
      environmentLayer_toVars h] at he
    rcases List.mem_append.1 he with he | he
    · exact .inl he
    · obtain ⟨o, ho, rfl⟩ := List.mem_map.1 he
      exact .inr (h o ho)
  have hfields' : ∀ layer ∈ { sources with vars := sources.vars ++ toVars overrides }.layers name version,
      ∀ e ∈ layer, e.1 ∈ fieldPaths := by
    simp only [Sources.layers, List.forall_mem_cons, List.not_mem_nil, false_imp_iff, implies_true,
      and_true] at hfields ⊢
    exact ⟨hfields.1, hfields.2.1, hfields.2.2.1, fun e he => (hlayer e he).elim (hfields.2.2.2 e) id⟩
  have hflat' : { sources with vars := sources.vars ++ toVars overrides }.Flat := fun layer hl e he =>
    flat_of_mem (hfields' layer (List.mem_cons_of_mem _ hl) e he)
  rw [load_iff hflat', and_iff_right hfields', reads_iff]
  refine and_congr_left fun _ => forall₂_congr fun f hf => ?_
  have hbefore := reads_iff.1 hreads f hf
  rw [effective_overridden h, Field.Overridden]
  cases overrides.reverse.lookup f.path with
  | none =>
    rw [Option.map_none, Option.none_or, hbefore, Option.some.injEq]
    exact eq_comm
  | some text => rfl

end

/-- A server on all addresses. -/
def onAll : Sources := { workDir := [(["server", "host"], .string "::")] }

/-- The port is set twice. -/
def ports : List (Path × String) := [(["server", "port"], "80"), (["server", "port"], "81")]

/-- The last port counts, and the address stays. -/
theorem load_override_ports : ∃ config config', Config.load "starterhub" "1.0.0" onAll = .ok config ∧
    Config.load "starterhub" "1.0.0" { onAll with vars := onAll.vars ++ toVars ports } = .ok config' ∧
      config'.server.port = 81 ∧ config'.server.host = config.server.host := by
  have hload : Config.load "starterhub" "1.0.0" onAll = .ok _ := rfl
  have hloads : Config.load "starterhub" "1.0.0" { onAll with vars := onAll.vars ++ toVars ports } = .ok _ := rfl
  have hkept := ((load_override (by decide) (by decide) hload).1 hloads).1
  refine ⟨_, _, hload, hloads, rfl, hkept (fields.get ⟨4, by decide⟩) (List.get_mem ..)⟩

end StarterHub
