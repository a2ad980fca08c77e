import StarterHub.Scalars
import Mathlib.Data.List.Infix
import Mathlib.Data.List.Perm.Basic

/-!
# Environment variables

The `APP_*` convention is a code: every path of lowercase keys has its variable, and the `config` crate reads it back
(`environmentEntry_variableName`).  A whole configuration can therefore be handed to a process through its environment:
whatever the binary, its defaults and its files, in whatever order the variables stand, the load returns what was put
in, or what the validation says about it.
-/

namespace StarterHub

/-! ### Names -/

/-- The variable of a path, with `__` between its keys. -/
def variableName (path : Path) : String :=
  "APP_" ++ String.ofList ((List.intercalate ['_', '_'] (path.map String.toList)).map Char.toUpper)

/-- A key that can be told from the separator: lowercase words with single underscores between them. -/
structure Nameable (key : String) : Prop where
  nonempty : key.toList ≠ []
  chars : ∀ c ∈ key.toList, c.isLower = true ∨ c.isDigit = true ∨ c = '_'
  single : ¬ ['_', '_'] <:+: key.toList
  closed : key.toList.getLast? ≠ some '_'

instance (key : String) : Decidable (Nameable key) :=
  decidable_of_iff (key.toList ≠ [] ∧ (key.toList.all fun c => c.isLower || (c.isDigit || c == '_')) = true ∧
    ¬ ['_', '_'] <:+: key.toList ∧ key.toList.getLast? ≠ some '_')
    ⟨fun ⟨h1, h2, h3, h4⟩ => ⟨h1, by simpa using h2, h3, h4⟩,
      fun h => ⟨h.nonempty, by simpa using h.chars, h.single, h.closed⟩⟩

theorem nameable_fieldPaths : ∀ path ∈ fieldPaths, path ≠ [] ∧ ∀ key ∈ path, Nameable key := by
  decide +kernel

example : (fieldPaths.map variableName).take 7 = ["APP_NAME", "APP_VERSION", "APP_ENVIRONMENT", "APP_DEBUG",
    "APP_SERVER__HOST", "APP_SERVER__PORT", "APP_SERVER__TIMEOUT"] := by decide

private theorem replaceSeparator_cons {c : Char} {cs : List Char} (h : ∀ rest, c :: cs ≠ '_' :: '_' :: rest) :
    replaceSeparator (c :: cs) = c :: replaceSeparator cs := by
  rw [replaceSeparator]
  rintro rest rfl rfl
  exact h rest rfl

/-- Nothing is replaced in a key, and the separator after it is the first one. -/
private theorem replaceSeparator_append {key rest : List Char} (hs : ¬ ['_', '_'] <:+: key)
    (hl : key.getLast? ≠ some '_') (hr : rest = [] ∨ ∃ rest', rest = '_' :: '_' :: rest') :
    replaceSeparator (key ++ rest) = key ++ replaceSeparator rest := by
  induction key with
  | nil => rfl
  | cons c key ih =>
    have hs' : ¬ ['_', '_'] <:+: key := fun h => hs (h.trans (List.suffix_cons c key).isInfix)
    rw [List.cons_append, replaceSeparator_cons]
    · cases key with
      | nil =>
        rcases hr with rfl | ⟨rest', rfl⟩ <;> rfl
      | cons d key => rw [ih hs' (by simpa using hl)]; rfl
    · -- a separator would begin inside the key
      intro rest' heq
      cases key with
      | nil =>
        simp only [List.nil_append, List.cons.injEq] at heq
        obtain ⟨rfl, -⟩ := heq
        exact hl rfl
      | cons d key =>
        simp only [List.cons_append, List.cons.injEq] at heq
        obtain ⟨rfl, rfl, -⟩ := heq
        exact hs ⟨[], key, rfl⟩

private theorem replaceSeparator_intercalate (keys : List (List Char))
    (h : ∀ key ∈ keys, ¬ ['_', '_'] <:+: key ∧ key.getLast? ≠ some '_') :
    replaceSeparator (List.intercalate ['_', '_'] keys) = List.intercalate ['.'] keys := by
  induction keys with
  | nil => rfl
  | cons key keys ih =>
    obtain ⟨hs, hl⟩ := h key (List.mem_cons_self ..)
    cases keys with
    | nil =>
      have := replaceSeparator_append hs hl (.inl rfl)
      simpa [replaceSeparator] using this
    | cons key' keys =>
      have hrest := ih fun key hkey => h key (List.mem_cons_of_mem _ hkey)
      rw [List.intercalate_cons_cons, List.intercalate_cons_cons, List.append_assoc, List.append_assoc, ← hrest]
      exact replaceSeparator_append hs hl (.inr ⟨_, rfl⟩)

private theorem splitDots_append {key : List Char} (h : '.' ∉ key) (rest : List Char) :
    splitDots (key ++ '.' :: rest) = key :: splitDots rest := by
  induction key with
  | nil => rfl
  | cons c key ih =>
    have hc : c ≠ '.' := fun hc => h (hc ▸ List.mem_cons_self ..)
    rw [List.cons_append, splitDots, ih fun hmem => h (List.mem_cons_of_mem _ hmem)]
    exact hc

private theorem splitDots_intercalate (keys : List (List Char)) (hne : keys ≠ []) (h : ∀ key ∈ keys, '.' ∉ key) :
    splitDots (List.intercalate ['.'] keys) = keys := by
  induction keys with
  | nil => exact absurd rfl hne
  | cons key keys ih =>
    have hkey := h key (List.mem_cons_self ..)
    cases keys with
    | nil =>
      rw [List.intercalate_singleton]
      clear h hne ih
      induction key with
      | nil => rfl
      | cons c key ih =>
        have hc : c ≠ '.' := fun hc => hkey (hc ▸ List.mem_cons_self ..)
        rw [splitDots, ih fun hmem => hkey (List.mem_cons_of_mem _ hmem)]
        exact hc
    | cons key' keys =>
      rw [List.intercalate_cons_cons, List.append_assoc]
      exact (splitDots_append hkey _).trans
        (congrArg (key :: ·) (ih (by simp) fun key hkey => h key (List.mem_cons_of_mem _ hkey)))

/-- What the characters of a key are good for. -/
private theorem key_char {c : Char} (h : c.isLower = true ∨ c.isDigit = true ∨ c = '_') :
    c.toNat < 128 ∧ c.isUpper = false ∧ c ≠ '.' ∧ (c.isAlphanum || c == '_' || c == '-') = true := by
  have hall : ∀ n < 128, (Char.ofNat n).isLower = true ∨ (Char.ofNat n).isDigit = true ∨ Char.ofNat n = '_' →
      (Char.ofNat n).isUpper = false ∧ Char.ofNat n ≠ '.' ∧
        ((Char.ofNat n).isAlphanum || Char.ofNat n == '_' || Char.ofNat n == '-') = true := by decide
  have hlt : c.toNat < 128 := by
    rcases h with h | h | rfl
    · have h : (decide (c.val ≥ 'a'.val) && decide (c.val ≤ 'z'.val)) = true := h
      rw [Bool.and_eq_true, decide_eq_true_eq, decide_eq_true_eq] at h
      exact Nat.lt_of_le_of_lt (UInt32.le_iff_toNat_le.1 h.2) (by decide)
    · simp only [Char.isDigit, Bool.and_eq_true, decide_eq_true_eq] at h
      exact Nat.lt_of_le_of_lt (UInt32.le_iff_toNat_le.1 h.2) (by decide)
    · decide
  refine ⟨hlt, ?_⟩
  have := hall c.toNat hlt
  rw [Char.ofNat_toNat] at this
  exact this h

private theorem forall_mem_intercalate {P : Char → Prop} (separator : List Char) (hs : ∀ c ∈ separator, P c)
    {keys : List (List Char)} (h : ∀ key ∈ keys, ∀ c ∈ key, P c) : ∀ c ∈ List.intercalate separator keys, P c := by
  induction keys with
  | nil => simp
  | cons key keys ih =>
    have ih := ih fun key hkey => h key (List.mem_cons_of_mem _ hkey)
    have hkey := h key (List.mem_cons_self ..)
    cases keys with
    | nil => simpa using hkey
    | cons key' keys =>
      rw [List.intercalate_cons_cons]
      intro c hc
      rcases List.mem_append.1 hc with hc | hc
      · exact (List.mem_append.1 hc).elim (hkey c) (hs c)
      · exact ih c hc

/-- The variable of a path is read back as this path. -/
theorem environmentEntry_variableName {path : Path} (hne : path ≠ []) (h : ∀ key ∈ path, Nameable key) (text : String) :
    environmentEntry (variableName path, text) = some (path, .string text) := by
  have hkeys : ∀ {P : List Char → Prop}, (∀ key, Nameable key → P key.toList) →
      ∀ key ∈ path.map String.toList, P key := by
    intro P hP key hkey
    obtain ⟨key, hmem, rfl⟩ := List.mem_map.1 hkey
    exact hP key (h key hmem)
  -- the capitals come back as the letters they were made from
  have hlower : (variableName path).toList.map Char.toLower =
      ['a', 'p', 'p', '_'] ++ List.intercalate ['_', '_'] (path.map String.toList) := by
    have hchars := forall_mem_intercalate ['_', '_'] (by simp)
      (hkeys fun key hk => hk.chars)
    have hname : (variableName path).toList =
        ['A', 'P', 'P', '_'] ++ (List.intercalate ['_', '_'] (path.map String.toList)).map Char.toUpper := by
      simp [variableName]
    rw [hname, List.map_append, List.map_map]
    refine congrArg _ ((List.map_congr_left fun c hc => ?_).trans (List.map_id _))
    obtain ⟨hlt, hupper, -⟩ := key_char (hchars c hc)
    exact Ascii.toLower_toUpper hlt hupper
  have hpath : keyPath (List.intercalate ['.'] (path.map String.toList)) = path := by
    have hsplit := splitDots_intercalate (path.map String.toList) (by simpa using hne)
      (hkeys fun key hk hdot => (key_char (hk.chars _ hdot)).2.2.1 rfl)
    have hall : ((path.map String.toList).all fun segment => !segment.isEmpty &&
        segment.all fun c => c.isAlphanum || c == '_' || c == '-') = true := by
      refine List.all_eq_true.2 (hkeys fun key hk => ?_)
      have hne : key.toList.isEmpty = false := by simpa using hk.nonempty
      rw [hne, Bool.not_false, Bool.true_and, List.all_eq_true]
      exact fun c hc => (key_char (hk.chars c hc)).2.2.2
    rw [keyPath, hsplit]
    simp only [hall, ↓reduceIte, List.map_map]
    exact (List.map_congr_left fun key _ => String.ofList_toList).trans (List.map_id _)
  have hkept := replaceSeparator_intercalate (path.map String.toList)
    (hkeys fun key hk => ⟨hk.single, hk.closed⟩)
  rw [environmentEntry, hlower]
  simp [hkept, hpath]

/-- The variables of these texts. -/
def toVars (texts : List (Path × String)) : List (String × String) := texts.map fun e => (variableName e.1, e.2)

theorem environmentLayer_toVars {texts : List (Path × String)} (h : ∀ e ∈ texts, e.1 ∈ fieldPaths) :
    environmentLayer (toVars texts) = texts.map fun e => (e.1, .string e.2) := by
  rw [environmentLayer, toVars]
  induction texts with
  | nil => rfl
  | cons e texts ih =>
    obtain ⟨he, hrest⟩ := List.forall_mem_cons.1 h
    obtain ⟨hne, hkeys⟩ := nameable_fieldPaths e.1 he
    rw [List.map_cons, List.filterMap_cons, environmentEntry_variableName hne hkeys, List.map_cons, ih hrest]

/-! ### Configurations -/

def Environment.name : Environment → String
  | .local => "local"
  | .development => "development"
  | .staging => "staging"
  | .production => "production"

namespace Config

/-- Every field as a text. -/
def spell (config : Config) : List (Path × String) :=
  [(["name"], config.name),
    (["version"], config.version),
    (["environment"], config.environment.name),
    (["debug"], if config.debug then "true" else "false"),
    (["server", "host"], config.server.host),
    (["server", "port"], toString config.server.port),
    (["server", "timeout"], toString config.server.timeout),
    (["database", "host"], config.database.host),
    (["database", "port"], toString config.database.port),
    (["database", "username"], config.database.username),
    (["database", "password"], config.database.password),
    (["database", "database"], config.database.database),
    (["database", "pool", "max_connections"], toString config.database.pool.maxConnections),
    (["database", "pool", "min_connections"], toString config.database.pool.minConnections),
    (["database", "pool", "connect_timeout"], toString config.database.pool.connectTimeout),
    (["database", "pool", "acquire_timeout"], toString config.database.pool.acquireTimeout),
    (["database", "pool", "idle_timeout"], toString config.database.pool.idleTimeout),
    (["database", "pool", "max_lifetime"], toString config.database.pool.maxLifetime)]

theorem map_fst_spell (config : Config) : config.spell.map Prod.fst = fieldPaths := rfl

/-- The environment that says all of the configuration. -/
def vars (config : Config) : List (String × String) := toVars config.spell

end Config

/-- The texts of a configuration are read as this configuration. -/
theorem reads_spell {value : Path → Option Scalar} {config : Config}
    (h : ∀ e ∈ config.spell, value e.1 = some (.string e.2)) : Reads value config := by
  simp only [Config.spell, List.forall_mem_cons, List.not_mem_nil, false_imp_iff, implies_true, and_true] at h
  obtain ⟨h1, h2, h3, h4, s1, s2, s3, d1, d2, d3, d4, d5, p1, p2, p3, p4, p5, p6⟩ := h
  have htext : ∀ {path : Path} {s : String}, value path = some (.string s) →
      (value path).bind Scalar.intoString = some s := fun h => by rw [h]; rfl
  have hnum : ∀ {T : Type} [TypedScalar T] {ofNat : Nat → T} {toNat : T → Nat} {width : Nat} {path : Path} {v : T},
      IsUnsigned T ofNat toNat width → value path = some (.string (toString (toNat v))) →
        (value path).bind nativeOrString = some v := by
    intro T _ ofNat toNat width path v hT h
    have hdenotes : TextDenotes (toString (Int.ofNat (toNat v))) (toNat v) := textDenotes_toString.2 rfl
    rw [h, Option.bind_some, hT.text_iff]
    exact hdenotes
  refine ⟨htext h1, htext h2, ?_, ?_, htext s1, hnum isUnsigned_uInt16 s2, hnum isUnsigned_uInt64 s3, htext d1,
    hnum isUnsigned_uInt16 d2, htext d3, htext d4, htext d5, hnum isUnsigned_uInt32 p1, hnum isUnsigned_uInt32 p2,
    hnum isUnsigned_uInt64 p3, hnum isUnsigned_uInt64 p4, hnum isUnsigned_uInt64 p5, hnum isUnsigned_uInt64 p6⟩
  · rw [h3]
    cases config.environment <;> rfl
  · rw [h4]
    cases config.debug <;> rfl

/-! ### The round trip -/

section

variable {name version : String} {sources : Sources} {others : List (String × String)}

theorem flat_of_mem {path : Path} (h : path ∈ fieldPaths) : Flat path := by
  obtain ⟨e, he, rfl⟩ := List.mem_map.1 (show path ∈ (defaults "" "").map Prod.fst from h)
  exact flat_defaults "" "" e he

/-- A process that finds the variables of a configuration among others that do not concern it loads what the validation
makes of this configuration, whatever its files set the settings to. -/
theorem load_vars (config : Config)
    (hfiles : ∀ layer ∈ [sources.system, sources.workDir], ∀ e ∈ layer, e.1 ∈ fieldPaths)
    (hvars : sources.vars.Perm (config.vars ++ others)) (hothers : ∀ var ∈ others, environmentEntry var = none) :
    Config.load name version sources = config.validate.mapError .invariant := by
  have hperm : (environmentLayer sources.vars).Perm (config.spell.map fun e => (e.1, .string e.2)) := by
    have hnone : environmentLayer others = [] := List.filterMap_eq_nil_iff.2 hothers
    have := hvars.filterMap environmentEntry
    rwa [List.filterMap_append, ← environmentLayer, ← environmentLayer, ← environmentLayer, hnone, List.append_nil,
      Config.vars, environmentLayer_toVars fun e he => config.map_fst_spell ▸ List.mem_map_of_mem he] at this
  have hkeys : ((environmentLayer sources.vars).map Prod.fst).Perm fieldPaths := by
    have := hperm.map Prod.fst
    rwa [List.map_map] at this
  have hfields : ∀ layer ∈ sources.layers name version, ∀ e ∈ layer, e.1 ∈ fieldPaths := by
    simp only [Sources.layers, List.forall_mem_cons, List.not_mem_nil, false_imp_iff, implies_true,
      and_true] at hfiles ⊢
    exact ⟨fun e he => List.mem_map_of_mem (f := Prod.fst) he, hfiles.1, hfiles.2,
      fun e he => hkeys.subset (List.mem_map_of_mem he)⟩
  have hflat : sources.Flat := fun layer hlayer e he =>
    flat_of_mem (hfields layer (List.mem_cons_of_mem _ hlayer) e he)
  -- the environment is the uppermost layer, and it sets every field
  have hvalue : ∀ e ∈ config.spell, effective (sources.layers name version) e.1 = some (.string e.2) := by
    intro e he
    have hlookup : (environmentLayer sources.vars).reverse.lookup e.1 = some (.string e.2) := by
      refine Tree.lookup_of_nodup ?_ (List.mem_reverse.2 (hperm.symm.subset (List.mem_map_of_mem he)))
      rw [List.map_reverse, (List.reverse_perm _).nodup_iff, hkeys.nodup_iff]
      decide
    simp [effective, Sources.layers, hlookup]
  rw [Config.load, (deserialize_layers_eq_some hflat).2 ⟨hfields, reads_spell hvalue⟩]
  dsimp only
  cases config.validate <;> rfl

end

/-- A deployment that keeps nothing of the defaults but the pool. -/
def deployed : Config :=
  { Config.default "starterhub" "1.2.0" with
    environment := .production
    server := { host := "::", port := 80, timeout := 10 }
    database := { (Config.default "" "").database with host := "db", username := "app", password := "0123" } }

/-- The migration CLI loads it from the same environment, next to a file that wants something else. -/
theorem load_vars_deployed : Config.load "migration" "0.1.0"
    { workDir := [(["debug"], .boolean true)], vars := deployed.vars ++ [("PATH", "/bin")] } = .ok deployed := by
  refine (load_vars deployed (by decide) (List.Perm.refl (deployed.vars ++ [("PATH", "/bin")])) (by decide)).trans ?_
  rfl

end StarterHub
