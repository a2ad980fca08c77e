import StarterHub.Variables

/-!
# The `.env` file (`common/src/config.rs`)

`load_dotenv` puts the variables of `./.env` into the environment of the process, where those that are there already
stay as they are.  For `Config::load` this is one more layer, right below the process environment, as long as each
setting goes by one name: the environment tells `app_debug` from `APP_DEBUG`, the configuration does not.
-/

namespace StarterHub

/-! ### The environment of the process -/

/-- Its variables by name and text, every name once. -/
abbrev Vars : Type := List (String × String)

/-- `std::env::set_var` where `std::env::var` finds nothing. -/
def Vars.setDefault (vars : Vars) (var : String × String) : Vars :=
  if var.1 ∈ vars.map Prod.fst then vars else vars ++ [var]

/-- A line that fails, by the `Display` of its error: the file cannot be read on, or the line does not parse. -/
inductive LineError where
  | io (display : String)
  | lineParse (display : String)

/-- What is found at `./.env`: nothing, what cannot be opened, or lines. -/
inductive DotenvFile where
  | absent
  | unreadable (error : String)
  | lines (lines : List (Except LineError (String × String)))

/-- A `dotenvy::Error` by its `Display`. -/
inductive DotenvyError where
  | io (notFound : Bool) (display : String)
  | lineParse (display : String)

/-- `anyhow::Error::from`: an I/O error is the source of the error around it, which displays the same text. -/
def DotenvyError.intoAnyhow : DotenvyError → AnyhowError
  | io _ display => ⟨display, [display]⟩
  | lineParse display => ⟨display, []⟩

/-- A file that is open is there. -/
def LineError.intoDotenvy : LineError → DotenvyError
  | io display => .io false display
  | lineParse display => .lineParse display

/-- The lines are set one by one, up to the first one that fails. -/
def setLines (vars : Vars) : List (Except LineError (String × String)) → Vars × Except DotenvyError Unit
  | [] => (vars, .ok ())
  | .ok var :: lines => setLines (vars.setDefault var) lines
  | .error error :: _ => (vars, .error error.intoDotenvy)

/-- `dotenvy::from_path`, with the environment it leaves behind. -/
def fromPath (vars : Vars) : DotenvFile → Vars × Except DotenvyError Unit
  | .absent => (vars, .error (.io true "No such file or directory (os error 2)"))
  | .unreadable error => (vars, .error (.io false error))
  | .lines lines => setLines vars lines

def loadDotenv (file : DotenvFile) (vars : Vars) : Vars × Except AnyhowError Unit :=
  match fromPath vars file with
  | (vars, .ok ()) => (vars, .ok ())
  | (vars, .error (.io true _)) => (vars, .ok ())
  | (vars, .error error) => (vars, .error (error.intoAnyhow.context "failed to load .env"))

/-! ### What is set -/

/-- The variables that a well-formed file offers. -/
def DotenvFile.vars : DotenvFile → Vars
  | .lines found => found.filterMap Except.toOption
  | _ => []

/-- The file is not there, or every line of it is well formed. -/
def DotenvFile.WellFormed : DotenvFile → Prop
  | .absent => True
  | .unreadable _ => False
  | .lines found => ∀ line ∈ found, line.isOk = true

section

variable {vars : Vars} {var : String × String}

private theorem prefix_setDefault : vars <+: vars.setDefault var := by
  unfold Vars.setDefault
  split
  · exact List.prefix_refl _
  · exact List.prefix_append _ _

private theorem mem_setDefault {v : String × String} (h : v ∈ vars.setDefault var) : v ∈ vars ∨ v = var := by
  unfold Vars.setDefault at h
  split at h
  · exact .inl h
  · simpa using h

/-- A whole file is set, or what stands before the line that fails. -/
private theorem setLines_eq (vars : Vars) (lines : List (Except LineError (String × String))) :
    (∀ line ∈ lines, line.isOk = true) ∧
        setLines vars lines = ((lines.filterMap Except.toOption).foldl Vars.setDefault vars, .ok ()) ∨
      ∃ line ∈ lines, line.isOk = false ∧ ∃ (done : Vars) (error : LineError),
        setLines vars lines = (done.foldl Vars.setDefault vars, .error error.intoDotenvy) ∧
          done <+: lines.filterMap Except.toOption := by
  induction lines generalizing vars with
  | nil => exact .inl ⟨by simp, rfl⟩
  | cons line lines ih =>
    cases line with
    | error e => exact .inr ⟨_, List.mem_cons_self .., rfl, [], e, rfl, List.nil_prefix⟩
    | ok var =>
      rcases ih (vars.setDefault var) with ⟨hall, heq⟩ | ⟨line, hmem, herr, done, e, heq, hpre⟩
      · exact .inl ⟨List.forall_mem_cons.2 ⟨rfl, hall⟩, heq⟩
      · exact .inr ⟨line, List.mem_cons_of_mem _ hmem, herr, var :: done, e, heq, List.cons_prefix_cons.2 ⟨rfl, hpre⟩⟩

private theorem prefix_foldl (dotenv : Vars) : vars <+: dotenv.foldl Vars.setDefault vars := by
  induction dotenv generalizing vars with
  | nil => exact List.prefix_refl _
  | cons var dotenv ih => exact prefix_setDefault.trans ih

private theorem mem_foldl {dotenv : Vars} {v : String × String} (h : v ∈ dotenv.foldl Vars.setDefault vars) :
    v ∈ vars ∨ v ∈ dotenv := by
  induction dotenv generalizing vars with
  | nil => exact .inl h
  | cons var dotenv ih =>
    rcases ih h with h | h
    · rcases mem_setDefault h with h | rfl
      · exact .inl h
      · exact .inr (List.mem_cons_self ..)
    · exact .inr (List.mem_cons_of_mem _ h)

end

/-! ### One more layer -/

variable {vars : Vars}

/-- The file calls no path by a name that differs from the one the environment or another line has for it. -/
def Unaliased (vars dotenv : Vars) : Prop :=
  ∀ v ∈ vars ++ dotenv, ∀ w ∈ dotenv, ∀ path x y, environmentEntry v = some (path, x) →
    environmentEntry w = some (path, y) → v.1 = w.1

/-- The layers with the one of the `.env` file, of which the first line about a path counts. -/
def Sources.dotenvLayers (name version : String) (sources : Sources) (dotenv : Vars) : List ConfigLayer :=
  [defaults name version, sources.system, sources.workDir, (environmentLayer dotenv).reverse,
    environmentLayer sources.vars]

/-- The path of a variable is a matter of its name. -/
theorem environmentEntry_of_name {v w : String × String} (h : v.1 = w.1) {path : Path} {x : Scalar}
    (hv : environmentEntry v = some (path, x)) : environmentEntry w = some (path, .string w.2) := by
  simp only [environmentEntry, Option.ite_none_right_eq_some, Option.some.injEq, Prod.mk.injEq] at hv ⊢
  obtain ⟨hpre, hpath, -⟩ := hv
  rw [h] at hpre hpath
  exact ⟨hpre, hpath, trivial⟩

/-- A path that some variable sets is found in their layer, and no other. -/
private theorem lookup_environmentLayer_eq_none {vars : Vars} {path : Path} :
    (environmentLayer vars).reverse.lookup path = none ↔ ∀ v ∈ vars, ∀ x, environmentEntry v ≠ some (path, x) := by
  rw [List.lookup_eq_none_iff]
  constructor
  · intro h v hv x he
    have := h (path, x) (List.mem_reverse.2 (List.mem_filterMap.2 ⟨v, hv, he⟩))
    simp at this
  · rintro h ⟨p, x⟩ he
    obtain ⟨v, hv, he⟩ := List.mem_filterMap.1 (List.mem_reverse.1 he)
    refine bne_iff_ne.2 fun hp => ?_
    obtain rfl : path = p := hp
    exact h v hv x he

private theorem lookup_setDefault_none {var : String × String} (he : environmentEntry var = none) :
    environmentLayer (vars.setDefault var) = environmentLayer vars := by
  unfold Vars.setDefault
  split
  · rfl
  · simp [environmentLayer, he]

/-- A variable that the process has changes nothing, and any other one sets its path. -/
private theorem lookup_setDefault {var : String × String} {p path : Path} {x : Scalar}
    (he : environmentEntry var = some (p, x))
    (h : ∀ v ∈ vars, ∀ y, environmentEntry v = some (p, y) → v.1 = var.1) :
    (environmentLayer (vars.setDefault var)).reverse.lookup path =
      ((environmentLayer vars).reverse.lookup path).or ([(p, x)].lookup path) := by
  by_cases hname : var.1 ∈ vars.map Prod.fst
  · rw [Vars.setDefault, if_pos hname]
    by_cases hp : path = p
    · subst hp
      obtain ⟨w, hw, hwname⟩ := List.mem_map.1 hname
      have hsome : (environmentLayer vars).reverse.lookup path ≠ none := fun hnone =>
        lookup_environmentLayer_eq_none.1 hnone w hw _ (environmentEntry_of_name hwname.symm he)
      obtain ⟨y, hy⟩ := Option.ne_none_iff_exists'.1 hsome
      rw [hy, Option.some_or]
    · simp [List.lookup_cons, beq_false_of_ne hp]
  · have hset : environmentLayer (vars ++ [var]) = environmentLayer vars ++ [(p, x)] := by
      simp [environmentLayer, he]
    rw [Vars.setDefault, if_neg hname, hset, List.reverse_append]
    by_cases hp : path = p
    · -- the process has no other name for the path either
      subst hp
      have hnone : (environmentLayer vars).reverse.lookup path = none :=
        lookup_environmentLayer_eq_none.2 fun v hv y hy => hname (h v hv y hy ▸ List.mem_map_of_mem hv)
      rw [hnone]
      simp
    · simp [List.lookup_cons, beq_false_of_ne hp]

/-- The merged environment sets what the process sets, and below that what the file sets first. -/
private theorem lookup_merged {dotenv vars : Vars} (h : Unaliased vars dotenv) (path : Path) :
    (environmentLayer (dotenv.foldl Vars.setDefault vars)).reverse.lookup path =
      ((environmentLayer vars).reverse.lookup path).or ((environmentLayer dotenv).lookup path) := by
  induction dotenv generalizing vars with
  | nil => simp [environmentLayer]
  | cons var dotenv ih =>
    have hsub : vars.setDefault var ++ dotenv ⊆ vars ++ var :: dotenv := by
      intro v hv
      rcases List.mem_append.1 hv with hv | hv
      · rcases mem_setDefault hv with hv | rfl <;> simp [hv]
      · simp [hv]
    rw [List.foldl_cons, ih fun v hv w hw => h v (hsub hv) w (List.mem_cons_of_mem _ hw)]
    cases he : environmentEntry var with
    | none =>
      have hlayer : environmentLayer (var :: dotenv) = environmentLayer dotenv := by simp [environmentLayer, he]
      rw [lookup_setDefault_none he, hlayer]
    | some e =>
      have hlayer : environmentLayer (var :: dotenv) = [e] ++ environmentLayer dotenv := by simp [environmentLayer, he]
      have hvar : ∀ v ∈ vars, ∀ y, environmentEntry v = some (e.1, y) → v.1 = var.1 := fun v hv y hy =>
        h v (List.mem_append_left _ hv) var (List.mem_cons_self ..) e.1 y e.2 hy he
      rw [lookup_setDefault he hvar, hlayer, List.lookup_append, Option.or_assoc]

/-! ### The law -/

/-- What `load_dotenv` does to the environment `vars`, and through it to `Config::load`. -/
structure DotenvLaw (file : DotenvFile) (vars : Vars) : Prop where
  -- It fails iff the file is there and not well formed, and says so.
  exact : (loadDotenv file vars).2 = .ok () ↔ file.WellFormed
  failure : ∀ error, (loadDotenv file vars).2 = .error error → error.message = "failed to load .env"
  -- Whatever happens, the variables of the process stay as they are, and new ones are those of the file.
  kept : vars <+: (loadDotenv file vars).1 ∧ ∀ var ∈ (loadDotenv file vars).1, var ∈ vars ∨ var ∈ file.vars
  -- As long as every path goes by one name, the file is the layer below the environment of the process.
  layer : file.WellFormed → Unaliased vars file.vars → ∀ name version (sources : Sources), sources.vars = vars →
    { sources with vars := vars ++ file.vars }.Flat → ∀ config,
      Config.load name version { sources with vars := (loadDotenv file vars).1 } = .ok config ↔
        (∀ layer ∈ sources.dotenvLayers name version file.vars, ∀ e ∈ layer, e.1 ∈ fieldPaths) ∧
          Reads (effective (sources.dotenvLayers name version file.vars)) config ∧ config.Valid

/-- The file is set as a whole, or up to the line that fails. -/
private theorem loadDotenv_cases (file : DotenvFile) (vars : Vars) :
    file.WellFormed ∧ loadDotenv file vars = (file.vars.foldl Vars.setDefault vars, .ok ()) ∨
      ¬ file.WellFormed ∧ ∃ done causes, done <+: file.vars ∧
        loadDotenv file vars = (done.foldl Vars.setDefault vars, .error ⟨"failed to load .env", causes⟩) := by
  cases file with
  | absent => exact .inl ⟨trivial, rfl⟩
  | unreadable error => exact .inr ⟨id, [], [error, error], List.nil_prefix, rfl⟩
  | lines found =>
    rcases setLines_eq vars found with ⟨hall, heq⟩ | ⟨line, hmem, hfail, done, e, heq, hpre⟩
    · exact .inl ⟨hall, by rw [loadDotenv, fromPath, heq]; rfl⟩
    · refine .inr ⟨fun hall => ?_, done, ?_⟩
      · rw [hall line hmem] at hfail
        cases hfail
      · rw [loadDotenv, fromPath, heq]
        cases e with
        | io display => exact ⟨[display, display], hpre, rfl⟩
        | lineParse display => exact ⟨[display], hpre, rfl⟩

private theorem forall_keys_iff {layer : ConfigLayer} {fields : List Path} :
    (∀ e ∈ layer, e.1 ∈ fields) ↔ ∀ path ∉ fields, layer.reverse.lookup path = none := by
  constructor
  · intro h path hpath
    refine List.lookup_eq_none_iff.2 fun e he => bne_iff_ne.2 ?_
    rintro rfl
    exact hpath (h e (List.mem_reverse.1 he))
  · intro h e he
    by_contra hpath
    have := List.lookup_eq_none_iff.1 (h e.1 hpath) e (List.mem_reverse.2 he)
    simp at this

section

variable {name version : String} {sources : Sources} {dotenv : Vars}

private theorem effective_merged (h : Unaliased sources.vars dotenv) (path : Path) :
    effective ({ sources with vars := dotenv.foldl Vars.setDefault sources.vars }.layers name version) path =
      effective (sources.dotenvLayers name version dotenv) path := by
  have hlookup := lookup_merged h path
  simp only [effective, Sources.layers, Sources.dotenvLayers, List.reverse_cons, List.reverse_nil, List.nil_append,
    List.cons_append, List.findSome?_cons, List.reverse_reverse, hlookup]
  cases (environmentLayer sources.vars).reverse.lookup path <;>
    cases (environmentLayer dotenv).lookup path <;> rfl

private theorem fields_merged (h : Unaliased sources.vars dotenv) :
    (∀ layer ∈ { sources with vars := dotenv.foldl Vars.setDefault sources.vars }.layers name version, ∀ e ∈ layer,
        e.1 ∈ fieldPaths) ↔
      ∀ layer ∈ sources.dotenvLayers name version dotenv, ∀ e ∈ layer, e.1 ∈ fieldPaths := by
  have henvironment : (∀ e ∈ environmentLayer (dotenv.foldl Vars.setDefault sources.vars), e.1 ∈ fieldPaths) ↔
      (∀ e ∈ (environmentLayer dotenv).reverse, e.1 ∈ fieldPaths) ∧
        ∀ e ∈ environmentLayer sources.vars, e.1 ∈ fieldPaths := by
    simp only [forall_keys_iff, lookup_merged h, Option.or_eq_none_iff, List.reverse_reverse]
    exact ⟨fun hall => ⟨fun path hp => (hall path hp).2, fun path hp => (hall path hp).1⟩,
      fun hall path hp => ⟨hall.2 path hp, hall.1 path hp⟩⟩
  simp only [Sources.layers, Sources.dotenvLayers, List.forall_mem_cons, List.not_mem_nil, false_imp_iff, implies_true,
    and_true, henvironment]

private theorem flat_merged (h : { sources with vars := sources.vars ++ dotenv }.Flat) :
    { sources with vars := dotenv.foldl Vars.setDefault sources.vars }.Flat := by
  simp only [Sources.Flat, List.forall_mem_cons, List.not_mem_nil, false_imp_iff, implies_true, and_true] at h ⊢
  refine ⟨h.1, h.2.1, fun e he => h.2.2 e ?_⟩
  obtain ⟨v, hv, he⟩ := List.mem_filterMap.1 he
  exact List.mem_filterMap.2 ⟨v, List.mem_append.2 (mem_foldl hv), he⟩

end

/-- The law holds of every file and every environment. -/
theorem dotenv_law (file : DotenvFile) (vars : Vars) : DotenvLaw file vars := by
  rcases loadDotenv_cases file vars with ⟨hok, heq⟩ | ⟨hno, done, causes, hpre, heq⟩
  · refine ⟨iff_of_true (by rw [heq]) hok, by simp [heq], ⟨?_, fun var hvar => ?_⟩,
      fun _ hu name version sources hv hf config => ?_⟩
    · rw [heq]
      exact prefix_foldl _
    · rw [heq] at hvar
      exact mem_foldl hvar
    · subst hv
      rw [heq, load_iff (flat_merged hf), fields_merged hu, funext (effective_merged hu)]
  · refine ⟨iff_of_false (by simp [heq]) hno, fun error he => ?_, ⟨?_, fun var hvar => ?_⟩, fun hok => absurd hok hno⟩
    · rw [heq] at he
      cases he
      rfl
    · rw [heq]
      exact prefix_foldl _
    · rw [heq] at hvar
      exact (mem_foldl hvar).imp_right fun h => hpre.subset h

/-- A second name for a setting takes it over from the process. -/
example : (Config.load "starterhub" "1.0.0" { vars := (loadDotenv (.lines [.ok ("app_debug", "true")])
    [("APP_DEBUG", "false")]).1 }).map Config.debug = .ok true := rfl

end StarterHub
