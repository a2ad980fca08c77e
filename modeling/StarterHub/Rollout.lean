import StarterHub.BootMigrations

/-!
# Rollouts

Replicas of different builds boot against one database, each with the list of migrations it was compiled with.  The
documentation of `Migrator::migrations` asks to append to the list and to never reorder or delete an entry.  This is
exactly what makes a rollout work: over every interleaving of old and new builds the schema stays the one of a build
and never falls behind a replica that serves, iff each list that contains another one begins with it.
-/

namespace StarterHub

/-- The replica that takes the step. -/
def FleetAction.replica {ι : Type} : FleetAction ι → ι
  | begin i | lock i | read i | exec i | commit i | finish i | fail i _ | crash i => i

def FleetAction.isCrash {ι : Type} : FleetAction ι → Bool
  | crash _ => true
  | _ => false

namespace Rollout

open Fleet

variable {ι ν : Type} [DecidableEq ι] [DecidableEq ν]

/-- `builds i` is the list in the build of the replica `i`; `missing migrations applied` is the error of
`Migrator::up` about migrations that are applied but whose file is missing, if there are any. -/
def step (missing : List ν → List ν → Option DbErr) (builds : ι → List ν) (s : Fleet ι ν) (a : FleetAction ι) :
    Option (Fleet ι ν) :=
  match a with
  | .read i =>
    match s.replicas i, missing (builds i) s.history with
    | .locked, some error => some ((s.set i (.failed error false)).release i)
    | _, _ => Fleet.step (builds i) s a
  | _ => Fleet.step (builds a.replica) s a

def machine (missing : List ν → List ν → Option DbErr) (builds : ι → List ν) :
    Transition.Machine (Fleet ι ν) (FleetAction ι) := ⟨step missing builds⟩

/-- The state after some interleaving of the replicas, from a committed history. -/
def Reachable (missing : List ν → List ν → Option DbErr) (builds : ι → List ν) (history : List ν) (s : Fleet ι ν) :
    Prop := (machine missing builds).Reaches (init history) s

/-- The error names each migration that is applied and not in the list. -/
def missingFiles (migrations applied : List String) : Option DbErr :=
  match applied.filter fun name => decide (name ∉ migrations) with
  | [] => none
  | names => some ⟨"\n".intercalate (names.map fun name =>
      "Migration file of version '" ++ name ++ "' is missing, this migration has been applied but its file is missing")⟩

theorem missingFiles_eq_none {migrations applied : List String} :
    missingFiles migrations applied = none ↔ applied ⊆ migrations := by
  have hfilter : (applied.filter fun name => decide (name ∉ migrations)) = [] ↔ applied ⊆ migrations := by
    simp [List.filter_eq_nil_iff, List.subset_def]
  rw [← hfilter, missingFiles]
  split
  · next h => exact iff_of_true rfl h
  · next h => exact iff_of_false (by simp) h

/-- What a rollout promises, from the committed `history` on. -/
structure RolloutLaw (missing : List ν → List ν → Option DbErr) (builds : ι → List ν) (history : List ν)
    (s : Fleet ι ν) : Prop where
  -- At most one replica of whatever build is between acquiring the lock and the end of its transaction.
  exclusive : ∀ i j, (s.replicas i).holds → (s.replicas j).holds → i = j
  -- The schema is the one found, or the whole list of a build that has committed.
  aligned : s.history = history ∨ ∃ i, (s.replicas i).hasCommitted ∧ s.history = builds i
  -- A commit appends to the history and leaves exactly the list of its own build, as on an empty database.
  commits : ∀ i s', step missing builds s (.commit i) = some s' → s.history <+: s'.history ∧ s'.history = builds i
  -- What a replica that serves was compiled with stays applied.
  serving : ∀ i, s.replicas i = .returned → ∀ s', (machine missing builds).Reaches s s' → builds i <+: s'.history
  -- Once the schema is ahead of a build, no replica of this build boots any more.
  outdated : ∀ i, ¬ s.history ⊆ builds i → (s.replicas i).hasCommitted = false →
    ∀ s', (machine missing builds).Reaches s s' → (s'.replicas i).hasCommitted = false

/-- A list that contains what the database has seen begins with it, and one that contains such a list begins with that
one: migrations are appended, never reordered. -/
def AppendOnly (builds : ι → List ν) (history : List ν) : Prop :=
  ∀ i, history ⊆ builds i → history <+: builds i ∧ ∀ j, builds i ⊆ builds j → builds i <+: builds j

variable {missing : List ν → List ν → Option DbErr} {builds : ι → List ν} {history : List ν} {s s' : Fleet ι ν}
  {a : FleetAction ι} {i : ι}

/-! ### One step -/

/-- A step is one of a fleet of a single build; a replica goes on with its run only if the list of its build has all
migrations that are applied. -/
theorem step_cases (hmissing : ∀ migrations applied, missing migrations applied = none ↔ applied ⊆ migrations)
    (h : step missing builds s a = some s') :
    Fleet.Move (builds a.replica) s a s' ∧
      ∀ i, a = .read i → (s'.replicas i).isDown = false → s.history ⊆ builds i := by
  cases a with
  | read i =>
    simp only [step] at h
    split at h
    · next error hi he =>
      cases h
      refine ⟨.down (by simp) (by rw [hi]; rfl) rfl, fun j hj hd => ?_⟩
      cases hj
      simp [Replica.isDown] at hd
    · next hno =>
      refine ⟨Fleet.step_cases h, fun j hj _ => ?_⟩
      cases hj
      simp only [Fleet.step] at h
      split at h
      · next hi =>
        cases he : missing (builds i) s.history with
        | none => exact (hmissing _ _).1 he
        | some error => exact (hno error hi he).elim
      · cases h
  | _ => exact ⟨Fleet.step_cases h, by simp⟩

/-- A step concerns nobody but the replica that takes it. -/
theorem replicas_of_ne (h : step missing builds s a = some s') {j : ι} (hj : j ≠ a.replica) :
    s'.replicas j = s.replicas j := by
  have hfleet : ∀ i, Fleet.step (builds i) s a = some s' → s'.replicas j = s.replicas j := by
    intro i h
    cases a <;> dsimp only [FleetAction.replica] at hj <;> simp only [Fleet.step] at h <;> split at h <;> cases h <;>
      simp [Function.update_of_ne hj]
  cases a with
  | read i =>
    simp only [step] at h
    split at h
    · cases h
      simp [Function.update_of_ne (show j ≠ i from hj)]
    · exact hfleet i h
  | begin i | lock i | exec i | commit i | finish i | fail i | crash i => exact hfleet i h

/-! ### What a step of a fleet keeps, of whatever build -/

/-- The lock is held by the replica that is between acquiring it and the end of its transaction, and by no other. -/
def Exclusive (s : Fleet ι ν) : Prop := ∀ i, (s.replicas i).holds = true ↔ s.lock = some i

variable {migrations : List ν}

omit [DecidableEq ν] in
private theorem exclusive_set {replica : Replica ν} (hs : Exclusive s) (h : replica.holds = (s.replicas i).holds) :
    Exclusive (s.set i replica) := fun j => by
  rw [apply_set _ h]
  exact hs j

omit [DecidableEq ν] in
/-- A replica whose transaction is over holds the lock no more. -/
private theorem exclusive_release (replica : Replica ν) (hs : Exclusive s) (h : replica.holds = false) :
    Exclusive ((s.set i replica).release i) := fun j => by
  rw [lock_release]
  by_cases hj : j = i
  · subst hj
    simp [h]
  · simpa [Function.update_of_ne hj, hj] using hs j

private theorem Exclusive.move (hs : Exclusive s) (h : Fleet.Move migrations s a s') : Exclusive s' := by
  cases h with
  | begin hi | read hi | exec hi | finish hi => exact exclusive_set hs (by rw [hi]; rfl)
  | @lock i hi hl =>
    intro j
    by_cases hj : j = i
    · subst hj
      simp [Replica.holds]
    · have hfree := hs j
      simp only [hl, reduceCtorEq, iff_false, Bool.not_eq_true] at hfree
      simp [Function.update_of_ne hj, hfree, Ne.symm hj]
  | @commit i executed => exact exclusive_release .committed hs rfl
  | down _ _ hd => exact exclusive_release _ hs (Replica.holds_of_isDown hd)

/-- A commit is the only step that changes the history, and it makes its replica the only one that has committed
meanwhile. -/
private theorem history_move (h : Fleet.Move migrations s a s') :
    (s'.history = s.history ∧ ∀ j, (s'.replicas j).hasCommitted = (s.replicas j).hasCommitted) ∨
      ∃ i executed, a = .commit i ∧ s.replicas i = .migrating executed [] ∧ s'.history = s.history ++ executed ∧
        s'.replicas = Function.update s.replicas i .committed := by
  cases h with
  | begin hi | read hi | exec hi | finish hi => exact .inl ⟨rfl, fun j => apply_set _ (by rw [hi]; rfl) j⟩
  | @lock i hi hl =>
    have hlocked : (Replica.locked : Replica ν).hasCommitted = (s.replicas i).hasCommitted := by rw [hi]; rfl
    exact .inl ⟨rfl, apply_set _ hlocked⟩
  | @commit i executed hi => exact .inr ⟨i, executed, rfl, hi, rfl, by simp⟩
  | down _ hc hd => exact .inl ⟨by simp, fun j => by simpa using apply_set _ hc j⟩

/-- A replica comes to a state of its run from the one before. -/
private theorem migrating_move (h : Fleet.Move migrations s a s') {executed pending : List ν}
    (hi : s'.replicas i = .migrating executed pending) :
    s.replicas i = .migrating executed pending ∨
      (a = .read i ∧ executed = [] ∧ pending = pendingMigrations migrations s.history) ∨
      ∃ done name, a = .exec i ∧ executed = done ++ [name] ∧ s.replicas i = .migrating done (name :: pending) := by
  have hother : ∀ {j replica}, i ≠ j → (Function.update s.replicas j replica) i = .migrating executed pending →
      s.replicas i = .migrating executed pending := fun hj h => by rwa [Function.update_of_ne hj] at h
  cases h with
  | @begin j | @lock j | @finish j | @commit j =>
    refine .inl ?_
    simp only [replicas_set, replicas_release] at hi
    by_cases hj : i = j
    · subst hj
      simp at hi
    · exact hother hj hi
  | @read j hr =>
    by_cases hj : i = j
    · subst hj
      simp only [replicas_set, Function.update_self, Replica.migrating.injEq] at hi
      exact .inr (.inl ⟨rfl, hi.1.symm, hi.2.symm⟩)
    · exact .inl (hother hj hi)
  | @exec j done name rest hr =>
    by_cases hj : i = j
    · subst hj
      simp only [replicas_set, Function.update_self, Replica.migrating.injEq] at hi
      exact .inr (.inr ⟨done, name, rfl, hi.1.symm, by rw [hr, hi.2]⟩)
    · exact .inl (hother hj hi)
  | @down j _ replica _ _ hd =>
    refine .inl ?_
    simp only [replicas_set, replicas_release] at hi
    by_cases hj : i = j
    · subst hj
      rw [Function.update_self] at hi
      rw [hi] at hd
      cases hd
    · exact hother hj hi

/-! ### The invariant -/

structure RolloutInv (builds : ι → List ν) (history : List ν) (s : Fleet ι ν) : Prop where
  exclusive : Exclusive s
  executing : ∀ i executed pending, s.replicas i = .migrating executed pending →
    s.history ++ executed ++ pending = builds i
  aligned : s.history = history ∨ ∃ i, (s.replicas i).hasCommitted ∧ history ⊆ builds i ∧ s.history = builds i
  applied : ∀ i, (s.replicas i).hasCommitted = true → builds i <+: s.history

omit [DecidableEq ι] [DecidableEq ν] in
/-- What is applied and contained in the list of a build is the beginning of this list. -/
private theorem RolloutInv.prefix_of_subset (hb : AppendOnly builds history) (hs : RolloutInv builds history s)
    (h : s.history ⊆ builds i) : history ⊆ builds i ∧ s.history <+: builds i := by
  rcases hs.aligned with he | ⟨k, -, hk, he⟩
  · rw [he] at h ⊢
    exact ⟨h, (hb i h).1⟩
  · rw [he] at h ⊢
    exact ⟨List.Subset.trans hk h, (hb k hk).2 i h⟩

omit [DecidableEq ι] [DecidableEq ν] in
private theorem rolloutInv_init : RolloutInv builds history (init (ι := ι) history) where
  exclusive := by simp [Exclusive, init, Replica.holds]
  executing := by simp [init]
  aligned := .inl rfl
  applied := by simp [init, Replica.hasCommitted]

private theorem RolloutInv.step
    (hmissing : ∀ migrations applied, missing migrations applied = none ↔ applied ⊆ migrations)
    (hn : ∀ i, (builds i).Nodup) (hb : AppendOnly builds history) (hs : RolloutInv builds history s)
    (h : step missing builds s a = some s') : RolloutInv builds history s' := by
  obtain ⟨hm, hread⟩ := step_cases hmissing h
  have hexclusive := hs.exclusive.move hm
  rcases history_move hm with ⟨hh, hc⟩ | ⟨i, done, rfl, hi, hh, hr⟩
  · refine ⟨hexclusive, fun i executed pending hi => ?_, ?_, fun i hi => ?_⟩
    · rw [hh]
      rcases migrating_move hm hi with hold | ⟨rfl, rfl, rfl⟩ | ⟨done, name, -, rfl, hold⟩
      · exact hs.executing i executed pending hold
      · have hsub := hread i rfl (by rw [hi]; rfl)
        rw [List.append_nil]
        exact append_pendingMigrations (hn i) (hs.prefix_of_subset hb hsub).2
      · simpa [List.append_assoc] using hs.executing i done (name :: pending) hold
    · simpa only [hh, hc] using hs.aligned
    · rw [hh]
      exact hs.applied i (by rw [← hc]; exact hi)
  · -- nobody else is migrating, since the replica that commits holds the lock
    have hlist : s'.history = builds i := by
      rw [hh]
      simpa using hs.executing i done [] hi
    have hsub : s.history ⊆ builds i := by
      rw [← hlist, hh]
      exact List.subset_append_left _ _
    refine ⟨hexclusive, fun j executed pending hj => ?_, .inr ⟨i, ?_, (hs.prefix_of_subset hb hsub).1, hlist⟩,
      fun j hj => ?_⟩
    · exfalso
      have hne : j ≠ i := by
        rintro rfl
        simp [hr] at hj
      rw [hr, Function.update_of_ne hne] at hj
      have hlock := (hs.exclusive i).1 (by rw [hi]; rfl)
      rw [(hs.exclusive j).1 (by rw [hj]; rfl)] at hlock
      exact hne (Option.some.inj hlock)
    · simp [hr, Replica.hasCommitted]
    · by_cases hne : j = i
      · subst hne
        exact hlist ▸ List.prefix_refl _
      · rw [hr, Function.update_of_ne hne] at hj
        exact (hs.applied j hj).trans (by rw [hh]; exact List.prefix_append _ _)

theorem Reachable.rolloutInv
    (hmissing : ∀ migrations applied, missing migrations applied = none ↔ applied ⊆ migrations)
    (hn : ∀ i, (builds i).Nodup) (hb : AppendOnly builds history) (h : Reachable missing builds history s) :
    RolloutInv builds history s :=
  Transition.Machine.Reaches.invariant h (fun _ _ _ hs h => hs.step hmissing hn hb h) rolloutInv_init

/-! ### The law -/

private theorem isPrefix_history
    (hmissing : ∀ migrations applied, missing migrations applied = none ↔ applied ⊆ migrations)
    (h : (machine missing builds).Reaches s s') : s.history <+: s'.history := by
  refine h.invariant (P := fun t => s.history <+: t.history) (fun t a t' ht hstep => ?_) (List.prefix_refl _)
  rcases history_move (step_cases hmissing hstep).1 with ⟨hh, -⟩ | ⟨_, done, -, -, hh, -⟩
  · rwa [hh]
  · rw [hh]
    exact ht.trans (List.prefix_append _ _)

private theorem outdated_step
    (hmissing : ∀ migrations applied, missing migrations applied = none ↔ applied ⊆ migrations)
    (hs : RolloutInv builds history s) (h : step missing builds s a = some s') (ho : ¬ s.history ⊆ builds i)
    (hc : (s.replicas i).hasCommitted = false) :
    ¬ s'.history ⊆ builds i ∧ (s'.replicas i).hasCommitted = false := by
  rcases history_move (step_cases hmissing h).1 with ⟨hh, hkept⟩ | ⟨j, done, -, hj, hh, hr⟩
  · rw [hh, hkept]
    exact ⟨ho, hc⟩
  · refine ⟨fun hsub => ho fun name hname => hsub (by rw [hh]; exact List.mem_append_left _ hname), ?_⟩
    have hne : i ≠ j := by
      rintro rfl
      have hlist := hs.executing i done [] hj
      exact ho (by rw [← hlist, List.append_nil]; exact List.subset_append_left _ _)
    rw [hr, Function.update_of_ne hne]
    exact hc

theorem rolloutLaw_of_appendOnly
    (hmissing : ∀ migrations applied, missing migrations applied = none ↔ applied ⊆ migrations)
    (hn : ∀ i, (builds i).Nodup) (hb : AppendOnly builds history) (h : Reachable missing builds history s) :
    RolloutLaw missing builds history s := by
  have hs := h.rolloutInv hmissing hn hb
  refine ⟨fun i j hi hj => ?_, ?_, fun i s' hstep => ?_, fun i hi s' h' => ?_, fun i ho hc s' h' => ?_⟩
  · have hlock := (hs.exclusive i).1 hi
    rw [(hs.exclusive j).1 hj] at hlock
    exact (Option.some.inj hlock).symm
  · exact hs.aligned.imp_right fun ⟨i, hc, _, he⟩ => ⟨i, hc, he⟩
  · cases (step_cases hmissing hstep).1 with
    | @commit _ executed hi => exact ⟨List.prefix_append _ _, by simpa using hs.executing i executed [] hi⟩
    | down ha => exact absurd rfl (ha i)
  · exact (hs.applied i (by rw [hi]; rfl)).trans (isPrefix_history hmissing h')
  · have hinv : RolloutInv builds history s' ∧ ¬ s'.history ⊆ builds i ∧ (s'.replicas i).hasCommitted = false := by
      refine h'.invariant (P := fun t => RolloutInv builds history t ∧ ¬ t.history ⊆ builds i ∧
        (t.replicas i).hasCommitted = false) ?_ ⟨hs, ho, hc⟩
      rintro t a t' ⟨ht, ho, hc⟩ hstep
      exact ⟨ht.step hmissing hn hb hstep, outdated_step hmissing ht hstep ho hc⟩
    exact hinv.2.2

/-! ### The converse -/

omit [DecidableEq ν] in
private theorem set_set (replica replica' : Replica ν) : (s.set i replica).set i replica' = s.set i replica' := by
  simp [Fleet.set]

/-- The steps of one replica. -/
def Steps (i : ι) (_ : Fleet ι ν) (a : FleetAction ι) : Prop := a.replica = i ∧ a.isCrash = false

/-- The migrations that are left run to the end. -/
private theorem reaches_exec {executed pending : List ν} (h : s.replicas i = .migrating executed pending) :
    (machine missing builds).ReachesBy (Steps i) s (s.set i (.migrating (executed ++ pending) [])) := by
  induction pending generalizing s executed with
  | nil =>
    rw [List.append_nil, ← h, Fleet.set, Function.update_eq_self]
    exact Transition.Machine.ReachesBy.refl s
  | cons name pending ih =>
    have hstep : step missing builds s (.exec i) = some (s.set i (.migrating (executed ++ [name]) pending)) := by
      simp [step, Fleet.step, h]
    have hi : (s.set i (.migrating (executed ++ [name]) pending)).replicas i =
        .migrating (executed ++ [name]) pending := by
      simp
    have hrest := ih hi
    rw [set_set, List.append_assoc] at hrest
    exact .head (a := .exec i) ⟨rfl, rfl⟩ hstep hrest

/-- A replica that boots alone gets to its commit. -/
theorem boots_alone
    (hmissing : ∀ migrations applied, missing migrations applied = none ↔ applied ⊆ migrations)
    (hi : s.replicas i = .booting) (hl : s.lock = none) (hsub : s.history ⊆ builds i) :
    ∃ t t', (machine missing builds).ReachesBy (Steps i) s t ∧ t.history = s.history ∧
      step missing builds t (.commit i) = some t' ∧ t'.lock = none ∧
        t'.replicas = Function.update s.replicas i .committed := by
  have hnone := (hmissing (builds i) s.history).2 hsub
  obtain ⟨u, hu, hhist, hlock, hrep⟩ : ∃ u, (machine missing builds).ReachesBy (Steps i) s u ∧ u.history = s.history ∧
      u.lock = some i ∧
      u.replicas = Function.update s.replicas i (.migrating [] (pendingMigrations (builds i) s.history)) := by
    have hbegin : step missing builds s (.begin i) = some (s.set i .begun) := by simp [step, Fleet.step, hi]
    have hlocked : step missing builds (s.set i .begun) (.lock i) =
        some { (s.set i .begun).set i .locked with lock := some i } := by simp [step, Fleet.step, hl]
    have hread : step missing builds { (s.set i .begun).set i .locked with lock := some i } (.read i) =
        some { (s.set i .begun).set i (.migrating [] (pendingMigrations (builds i) s.history)) with
          lock := some i } := by
      simp [step, Fleet.step, Fleet.set, hnone]
    refine ⟨_, .head (a := .begin i) ⟨rfl, rfl⟩ hbegin (.head (a := .lock i) ⟨rfl, rfl⟩ hlocked
      (.head (a := .read i) ⟨rfl, rfl⟩ hread (.refl _))), rfl, rfl, by simp⟩
  have hexec : (machine missing builds).ReachesBy (Steps i) u _ := reaches_exec (by rw [hrep, Function.update_self])
  refine ⟨_, _, hu.trans hexec, by simpa using hhist,
    by simp only [step, Fleet.step, replicas_set, Function.update_self]; rfl, ?_, by simp [hrep]⟩
  simp [release, hlock]

/-- Rollouts keep their promise over every interleaving of every set of replicas iff migrations are only appended. -/
theorem rollout_iff
    (hmissing : ∀ migrations applied, missing migrations applied = none ↔ applied ⊆ migrations)
    (hn : ∀ i, (builds i).Nodup) :
    (∀ s, Reachable missing builds history s → RolloutLaw missing builds history s) ↔ AppendOnly builds history := by
  constructor
  · intro h i hsub
    obtain ⟨t, t', ht, hhist, hstep, hlock, hreplicas⟩ :=
      boots_alone (s := init history) (i := i) hmissing rfl rfl hsub
    obtain ⟨hpre, hlist⟩ := (h t ht.reaches).commits i t' hstep
    have ht' : Reachable missing builds history t' := 
      Transition.Machine.Reaches.tail (a := .commit i) ht.reaches hstep
    refine ⟨by rwa [hhist, hlist] at hpre, fun j hj => ?_⟩
    by_cases hne : j = i
    · subst hne
      exact List.prefix_refl _
    · obtain ⟨u, u', hu, hhist', hstep', -⟩ := boots_alone (s := t') (i := j) hmissing
        (by rw [hreplicas, Function.update_of_ne hne]; rfl) hlock (by rwa [hlist])
      obtain ⟨hpre', hlist'⟩ := (h u (Transition.Machine.Reaches.trans ht' hu.reaches)).commits j u' hstep'
      rwa [hhist', hlist, hlist'] at hpre'
  · exact fun hb s h => rolloutLaw_of_appendOnly hmissing hn hb h

/-- An old build and a new one. -/
def twoBuilds (old new : List String) : Bool → List String
  | false => old
  | true => new

/-- One migration more at the end of the list keeps the promise, one before the others breaks it. -/
theorem rollout_iff_two :
    (∀ s, Reachable missingFiles (twoBuilds ["a"] ["a", "b"]) [] s →
      RolloutLaw missingFiles (twoBuilds ["a"] ["a", "b"]) [] s) ∧
    ¬ ∀ s, Reachable missingFiles (twoBuilds ["a"] ["b", "a"]) [] s →
      RolloutLaw missingFiles (twoBuilds ["a"] ["b", "a"]) [] s := by
  constructor
  · refine (rollout_iff (fun _ _ => missingFiles_eq_none) (by decide)).2 fun i _ => ⟨List.nil_prefix, ?_⟩
    revert i
    decide
  · rw [rollout_iff (fun _ _ => missingFiles_eq_none) (by decide)]
    exact fun h => absurd ((h false (by simp)).2 true (by decide)) (by decide)

end Rollout

end StarterHub
