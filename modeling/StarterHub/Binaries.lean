import StarterHub.Dotenv
import StarterHub.Overrides
import StarterHub.Deadlines
import StarterHub.HostConfinement

/-!
# One database for both binaries (`src/main.rs`, `migration/src/main.rs`)

The application and the migration command line resolve the same configuration, each in its own process, so that the
second reaches the very database of the first.  Started in one place they share everything but their names, which are
also the names of their directories under `/etc`.  No two settings are spelled as the same URL, so what the
driver gets is the same for both exactly when every setting that nothing above the system files decides reads the same
in the two directories.
-/

namespace StarterHub

open UrlSyntax PercentEncoding

/-! ### The binaries -/

/-- The place both are started in: the `app-config.json` under `/etc/<name>/` by this name, the one in the working
directory, its `.env` file, and the environment. -/
structure Host where
  etc : String → ConfigLayer
  workDir : ConfigLayer
  dotenv : DotenvFile
  vars : Vars

inductive MainError where
  | dotenv (error : AnyhowError)
  | load (error : LoadError)
  | context (message : String) (error : LoadError)

namespace Host

/-- What `Config::load` finds, after `load_dotenv`. -/
def sources (host : Host) (name : String) : Sources where
  system := host.etc name
  workDir := host.workDir
  vars := (loadDotenv host.dotenv host.vars).1

/-- The package of `src/main.rs`. -/
def application : String := "starterhub-rust-stack"

/-- The package of `migration/src/main.rs`. -/
def migration : String := "migration"

/-- `load_dotenv` and `Config::load` of an application of that name and version. -/
def load (host : Host) (name version : String) : Except MainError Config :=
  match (loadDotenv host.dotenv host.vars).2 with
  | .error error => .error (.dotenv error)
  | .ok () => (Config.load name version (host.sources name)).mapError .load

/-- The configuration of `src/main.rs`. -/
def main (host : Host) : Except MainError Config := host.load application "1.1.1"

/-- The configuration of `migration/src/main.rs`. -/
def migrationMain (host : Host) : Except MainError Config :=
  match (loadDotenv host.dotenv host.vars).2 with
  | .error error => .error (.dotenv error)
  | .ok () =>
    (Config.load migration "1.1.1" (host.sources migration)).mapError (.context "failed to load configuration")

end Host

/-! ### What the driver gets -/

/-- The settings of the database. -/
def databaseFields : List Field := fields.filter fun f => f.path.head? == some "database"

/-- The host as it stands in the URL. -/
def Postgresql.hostText (self : Postgresql) : List Char :=
  if ':' ∈ self.host.toList then '[' :: (self.host.toList ++ [']'])
  else (utf8PercentEncode self.host urlEncodeSet).toList

private theorem toList_url_hostText (self : Postgresql) :
    self.url.toList = compose "postgres" (utf8PercentEncode self.username urlEncodeSet).toList
      (utf8PercentEncode self.password urlEncodeSet).toList self.hostText (toString self.port).toList
      (utf8PercentEncode self.database urlEncodeSet).toList := by
  unfold Postgresql.hostText
  split
  · next h => exact toList_url_bracketed h
  · next h => exact toList_url h

private theorem utf8PercentEncode_inj {s t : String}
    (h : (utf8PercentEncode s urlEncodeSet).toList = (utf8PercentEncode t urlEncodeSet).toList) : s = t := by
  have hset : urlEncodeSet 37 = true := by decide
  have hdecode := decodeUtf8_utf8PercentEncode hset s
  rw [h, decodeUtf8_utf8PercentEncode hset t] at hdecode
  exact (Option.some.inj hdecode).symm

/-- A bracket tells a literal from a name. -/
private theorem hostText_inj {a b : Postgresql} (h : a.hostText = b.hostText) : a.host = b.host := by
  have hplain : ∀ s : String, '[' ∉ (utf8PercentEncode s urlEncodeSet).toList :=
    fun s => (plain_utf8PercentEncode s).not_mem (by decide)
  unfold Postgresql.hostText at h
  split at h <;> split at h
  · exact String.ext (List.append_cancel_right (List.cons.inj h).2)
  · exact absurd (h ▸ List.mem_cons_self ..) (hplain b.host)
  · exact absurd (h ▸ List.mem_cons_self ..) (hplain a.host)
  · exact utf8PercentEncode_inj h

private theorem of_url_eq {a b : Postgresql} (h : a.url = b.url) :
    a.username = b.username ∧ a.password = b.password ∧ a.host = b.host ∧ a.port = b.port ∧
      a.database = b.database := by
  have hlist := congrArg String.toList h
  rw [toList_url_hostText, toList_url_hostText] at hlist
  obtain ⟨hu, hw, hh, hp, hd⟩ := compose_inj (plain_utf8PercentEncode _) (plain_utf8PercentEncode _) (plain_toString _)
    (plain_utf8PercentEncode _) (plain_utf8PercentEncode _) (plain_utf8PercentEncode _) (plain_toString _)
    (plain_utf8PercentEncode _) hlist
  have hport := parsePort_toString a.port
  rw [hp, parsePort_toString] at hport
  exact ⟨utf8PercentEncode_inj hu, utf8PercentEncode_inj hw, hostText_inj hh, (Option.some.inj hport).symm,
    utf8PercentEncode_inj hd⟩

/-- The URL tells all settings in it apart, also those that no client could read back. -/
theorem url_inj {a b : Postgresql} : a.url = b.url ↔
    a.username = b.username ∧ a.password = b.password ∧ a.host = b.host ∧ a.port = b.port ∧
      a.database = b.database := by
  refine ⟨of_url_eq, ?_⟩
  rintro ⟨hu, hw, hh, hp, hd⟩
  simp only [Postgresql.url, hu, hw, hh, hp, hd]

/-- The driver gets the same iff every setting is the same. -/
theorem connectOptions_inj {config config' : Config} :
    connectOptions config.database = connectOptions config'.database ↔
      ∀ f ∈ databaseFields, f.get config = f.get config' := by
  have hfilter : databaseFields = fields.drop 7 := rfl
  simp only [hfilter, fields, List.drop_succ_cons, List.drop_zero, List.forall_mem_cons, List.not_mem_nil,
    false_imp_iff, implies_true, and_true, connectOptions, ConnectOptions.mk.injEq, Clock.Duration.fromSecs,
    Clock.Duration.mk.injEq]
  constructor
  · rintro ⟨hurl, hpool⟩
    obtain ⟨hu, hw, hh, hp, hd⟩ := of_url_eq hurl
    exact ⟨hh, hp, hu, hw, hd, hpool⟩
  · rintro ⟨hh, hp, hu, hw, hd, hpool⟩
    refine ⟨?_, hpool⟩
    simp only [Postgresql.url, hu, hw, hh, hp, hd]

/-! ### The law -/

namespace Host

/-- What the two have in common for a path. -/
def shared (host : Host) (path : Path) : Option Scalar :=
  effective [host.workDir, environmentLayer (loadDotenv host.dotenv host.vars).1] path

/-- What the binary of that name has below it. -/
def own (host : Host) (name : String) (path : Path) : Option Scalar :=
  effective [defaults name "1.1.1", host.etc name] path

variable {host : Host} {config config' : Config}

private theorem effective_sources (host : Host) (name : String) (path : Path) :
    effective ((host.sources name).layers name "1.1.1") path = (host.shared path).or (host.own name path) := by
  simp only [effective, sources, shared, own, Sources.layers, List.reverse_cons, List.reverse_nil, List.nil_append,
    List.cons_append, List.findSome?_cons, List.findSome?_nil]
  cases (environmentLayer (loadDotenv host.dotenv host.vars).1).reverse.lookup path <;>
    cases host.workDir.reverse.lookup path <;> rfl

private theorem load_main (h : host.main = .ok config) :
    Config.load application "1.1.1" (host.sources application) = .ok config := by
  unfold main load at h
  split at h
  · cases h
  · cases hload : Config.load application "1.1.1" (host.sources application) with
    | error error => rw [hload] at h; cases h
    | ok loaded => rw [hload] at h; cases h; rfl

private theorem load_migrationMain (h : host.migrationMain = .ok config) :
    Config.load migration "1.1.1" (host.sources migration) = .ok config := by
  unfold migrationMain at h
  split at h
  · cases h
  · cases hload : Config.load migration "1.1.1" (host.sources migration) with
    | error error => rw [hload] at h; cases h
    | ok loaded => rw [hload] at h; cases h; rfl

/-- Wherever both come up, the command line reaches the database of the application, with the same pool, iff every
setting is decided above the system files or reads the same in the two directories. -/
theorem same_database_iff (hflat : ∀ name ∈ [application, migration], (host.sources name).Flat)
    (h : host.main = .ok config) (h' : host.migrationMain = .ok config') :
    connectOptions config.database = connectOptions config'.database ↔ ∀ f ∈ databaseFields,
      (host.shared f.path).isSome ∨
        (host.own application f.path).bind f.read = (host.own migration f.path).bind f.read := by
  have hreads := reads_iff.1 ((load_iff (hflat application (by simp))).1 (load_main h)).2.1
  have hreads' := reads_iff.1 ((load_iff (hflat migration (by simp))).1 (load_migrationMain h')).2.1
  simp only [effective_sources] at hreads hreads'
  rw [connectOptions_inj]
  refine forall₂_congr fun f hf => ?_
  have hf₁ := hreads f (List.mem_of_mem_filter hf)
  have hf₂ := hreads' f (List.mem_of_mem_filter hf)
  cases hs : host.shared f.path with
  | some value =>
    rw [hs, Option.some_or] at hf₁ hf₂
    exact iff_of_true (Option.some.inj (hf₁.symm.trans hf₂)) (.inl rfl)
  | none =>
    rw [hs, Option.none_or] at hf₁ hf₂
    rw [hf₁, hf₂]
    simp

/-- Only the application has a system file. -/
def packaged : Host where
  etc name := if name = application then [(["database", "host"], .string "db.internal")] else []
  workDir := []
  dotenv := .absent
  vars := [("APP_DATABASE__USERNAME", "app")]

/-- Its command line comes up with the default host. -/
theorem same_database_iff_packaged : ∃ config config', packaged.main = .ok config ∧
    packaged.migrationMain = .ok config' ∧ config.database.username = config'.database.username ∧
      connectOptions config.database ≠ connectOptions config'.database := by
  have hmain : packaged.main = .ok _ := rfl
  have hcli : packaged.migrationMain = .ok _ := rfl
  refine ⟨_, _, hmain, hcli, rfl, fun heq => ?_⟩
  rcases (same_database_iff (by decide) hmain hcli).1 heq _ (List.mem_cons_self ..) with hshared | hown
  · exact absurd hshared (by decide)
  · exact absurd (show some "db.internal" = some "localhost" from hown) (by decide)

end Host

end StarterHub
