import StarterHub.Lib.Journal
import StarterHub.Migration

/-!
# Concurrent boots migrate once

The law of `up_guarded` over every interleaving of every number of replicas.  The invariant behind it: a replica that
is migrating has what is committed, what it executed and what it has left make up the whole list.  It becomes true
when the replica reads the history under the lock, however long before that its transaction began, and stays true as
nobody else commits while the lock is held.
-/

namespace StarterHub

namespace Fleet

variable {ι ν : Type} [DecidableEq ι] [DecidableEq ν] {migrations history : List ν} {s s' : Fleet ι ν}
  {a : FleetAction ι} {i : ι}

/-- The law of the concurrent boots, from the committed `history` on. -/
structure MigrationLaw (migrations history : List ν) (s : Fleet ι ν) : Prop where
  -- At most one replica is between acquiring the lock and the end of its transaction.
  exclusive : ∀ i j, (s.replicas i).holds → (s.replicas j).holds → i = j
  -- The committed history is a prefix of the list, each migration in it once.
  ordered : s.history <+: migrations ∧ s.history.Nodup
  -- It grows by whole runs only: a commit brings it to the end of the list with all the replica executed, and no
  -- other step changes it.
  whole : ∀ a s', step migrations s a = some s' → s'.history = s.history ∨
    ∃ i executed, a = .commit i ∧ s.replicas i = .migrating executed [] ∧
      s'.history = s.history ++ executed ∧ s'.history = migrations
  -- What the transaction of a replica executes is what is not committed yet, in order.
  executing : ∀ i executed pending, s.replicas i = .migrating executed pending →
    s.history ++ executed ++ pending = migrations
  -- A replica that returned `Ok` finds the whole list committed.
  complete : ∀ i, s.replicas i = .returned → s.history = migrations
  -- The history is made of the commits that took effect, at most one by each replica, ...
  commits : s.history = history ++ (s.commits.map Prod.snd).flatten ∧ (s.commits.map Prod.fst).Nodup
  -- ... and none by a replica that failed or crashed before its commit took effect, ...
  unchanged : ∀ i, (s.replicas i).isDown → (s.replicas i).hasCommitted = false → i ∉ s.commits.map Prod.fst
  -- ... nor does a replica that failed or crashed still hold the lock.
  released : ∀ i, (s.replicas i).isDown → s.lock ≠ some i

/-! ### The invariant -/

/-- On a prefix of the list, what is pending is the rest of it. -/
theorem append_pendingMigrations (hn : migrations.Nodup) {applied : List ν} (hp : applied <+: migrations) :
    applied ++ pendingMigrations migrations applied = migrations :=
  Journal.append_missing hn hp

structure FleetInv (migrations history : List ν) (s : Fleet ι ν) : Prop where
  ordered : s.history <+: migrations
  lock : ∀ i, (s.replicas i).holds = true ↔ s.lock = some i
  executing : ∀ i executed pending, s.replicas i = .migrating executed pending →
    s.history ++ executed ++ pending = migrations
  commits : s.history = history ++ (s.commits.map Prod.snd).flatten
  once : (s.commits.map Prod.fst).Nodup
  committed : ∀ i, (s.replicas i).hasCommitted = true ↔ i ∈ s.commits.map Prod.fst
  complete : ∀ i, (s.replicas i).hasCommitted = true → s.history = migrations

omit [DecidableEq ι] [DecidableEq ν] in
theorem fleetInv_init (hp : history <+: migrations) : FleetInv migrations history (init (ι := ι) history) where
  ordered := hp
  lock := by simp [init, Replica.holds]
  executing := by simp [init]
  commits := by simp [init]
  once := by simp [init]
  committed := by simp [init, Replica.hasCommitted]
  complete := by simp [init, Replica.hasCommitted]

omit [DecidableEq ν] in
/-- A replica moves on inside its transaction: it keeps the lock or not as it did, and its commit is still to come. -/
private theorem FleetInv.set {replica : Replica ν} (hs : FleetInv migrations history s)
    (hholds : replica.holds = (s.replicas i).holds) (hcommitted : replica.hasCommitted = (s.replicas i).hasCommitted)
    (hexec : ∀ executed pending, replica = .migrating executed pending →
      s.history ++ executed ++ pending = migrations) : FleetInv migrations history (s.set i replica) := by
  refine ⟨hs.ordered, fun j => ?_, fun j executed pending h => ?_, hs.commits, hs.once, fun j => ?_, fun j h => ?_⟩
  · rw [apply_set _ hholds]
    exact hs.lock j
  · by_cases hj : j = i
    · subst hj
      exact hexec executed pending (by simpa using h)
    · exact hs.executing j executed pending (by simpa [Function.update_of_ne hj] using h)
  · rw [apply_set _ hcommitted]
    exact hs.committed j
  · rw [apply_set _ hcommitted] at h
    exact hs.complete j h

omit [DecidableEq ν] in
private theorem FleetInv.lock_free (hs : FleetInv migrations history s) (hi : s.replicas i = .begun)
    (hl : s.lock = none) : FleetInv migrations history { s.set i .locked with lock := some i } := by
  have hcommitted : (Replica.locked : Replica ν).hasCommitted = (s.replicas i).hasCommitted := by rw [hi]; rfl
  refine ⟨hs.ordered, fun j => ?_, fun j executed pending h => ?_, hs.commits, hs.once, fun j => ?_, fun j h => ?_⟩
  · by_cases hj : j = i
    · subst hj
      simp [Replica.holds]
    · have hfree := hs.lock j
      simp only [hl, reduceCtorEq, iff_false, Bool.not_eq_true] at hfree
      simp [Function.update_of_ne hj, hfree, Ne.symm hj]
  · by_cases hj : j = i
    · subst hj
      simp at h
    · exact hs.executing j executed pending (by simpa [Function.update_of_ne hj] using h)
  · exact (congrArg (· = true) (apply_set _ hcommitted j)).to_iff.trans (hs.committed j)
  · exact hs.complete j ((apply_set _ hcommitted j).symm.trans h)

omit [DecidableEq ν] in
private theorem FleetInv.down {replica : Replica ν} (hs : FleetInv migrations history s)
    (hcommitted : replica.hasCommitted = (s.replicas i).hasCommitted) (hd : replica.isDown = true) :
    FleetInv migrations history ((s.set i replica).release i) := by
  have hholds := Replica.holds_of_isDown hd
  have hkeep := fun j => apply_set (s := s) _ hcommitted j
  simp only [replicas_set] at hkeep
  refine ⟨by simpa using hs.ordered, fun j => ?_, fun j executed pending h => ?_, by simpa using hs.commits,
    by simpa using hs.once, fun j => ?_, fun j h => ?_⟩
  · rw [lock_release]
    by_cases hj : j = i
    · subst hj
      simp [hholds]
    · simpa [Function.update_of_ne hj, hj] using hs.lock j
  · by_cases hj : j = i
    · subst hj
      simp only [replicas_release, replicas_set, Function.update_self] at h
      subst h
      cases hd
    · simpa using hs.executing j executed pending (by simpa [Function.update_of_ne hj] using h)
  · simpa [hkeep] using hs.committed j
  · simpa using hs.complete j (by simpa [hkeep] using h)

omit [DecidableEq ν] in
/-- A replica commits: nobody else is migrating, since it holds the lock. -/
private theorem FleetInv.commit {executed : List ν} (hs : FleetInv migrations history s)
    (h : s.replicas i = .migrating executed []) :
    FleetInv migrations history { (s.set i .committed).release i with
      history := s.history ++ executed, commits := s.commits ++ [(i, executed)] } := by
  have hlist : s.history ++ executed = migrations := by simpa using hs.executing i executed [] h
  have hlock : s.lock = some i := (hs.lock i).1 (by rw [h]; rfl)
  have hi : i ∉ s.commits.map Prod.fst := fun hmem => by
    have := (hs.committed i).2 hmem
    rw [h] at this
    cases this
  refine ⟨?_, fun j => ?_, fun j executed' pending h' => ?_, ?_, ?_, fun j => ?_, fun j _ => hlist⟩
  · exact hlist ▸ List.prefix_refl _
  · show ((((s.set i .committed).release i).replicas j).holds = true ↔ ((s.set i .committed).release i).lock = some j)
    rw [lock_release]
    by_cases hj : j = i
    · subst hj
      simp [Replica.holds]
    · simpa [Function.update_of_ne hj, hj] using hs.lock j
  · -- only `i` could be migrating, and it has just committed
    have hj : j ≠ i := by
      rintro rfl
      simp at h'
    have h' : s.replicas j = .migrating executed' pending := by simpa [Function.update_of_ne hj] using h'
    have hlock' : s.lock = some j := (hs.lock j).1 (by rw [h']; rfl)
    rw [hlock] at hlock'
    cases hlock'
    exact absurd rfl hj
  · show s.history ++ executed = history ++ ((s.commits ++ [(i, executed)]).map Prod.snd).flatten
    simp [hs.commits, List.append_assoc]
  · show ((s.commits ++ [(i, executed)]).map Prod.fst).Nodup
    rw [List.map_append, List.nodup_append]
    refine ⟨hs.once, by simp, fun j hj k hk => ?_⟩
    obtain rfl : k = i := by simpa using hk
    rintro rfl
    exact hi hj
  · show ((((s.set i .committed).release i).replicas j).hasCommitted = true ↔
      j ∈ (s.commits ++ [(i, executed)]).map Prod.fst)
    by_cases hj : j = i
    · subst hj
      simp [Replica.hasCommitted]
    · have := hs.committed j
      simp only [replicas_release, replicas_set, Function.update_of_ne hj, List.map_append, List.mem_append]
      rw [this]
      simp [hj]

theorem FleetInv.step (hn : migrations.Nodup) (hs : FleetInv migrations history s)
    (h : Fleet.step migrations s a = some s') : FleetInv migrations history s' := by
  cases step_cases h with
  | begin hi => exact hs.set (by rw [hi]; rfl) (by rw [hi]; rfl) (by simp)
  | lock hi hl => exact hs.lock_free hi hl
  | read hi =>
    refine hs.set (by rw [hi]; rfl) (by rw [hi]; rfl) fun executed pending h => ?_
    cases h
    rw [List.append_nil]
    exact append_pendingMigrations hn hs.ordered
  | exec hi =>
    refine hs.set (by rw [hi]; rfl) (by rw [hi]; rfl) fun executed pending h => ?_
    cases h
    simpa [List.append_assoc] using hs.executing _ _ _ hi
  | commit hi => exact hs.commit hi
  | finish hi => exact hs.set (by rw [hi]; rfl) (by rw [hi]; rfl) (by simp)
  | down _ hc hd => exact hs.down hc hd

theorem Reachable.fleetInv (hn : migrations.Nodup) (hp : history <+: migrations)
    (h : Reachable migrations history s) : FleetInv migrations history s :=
  h.invariant (fun _ _ _ hs h => hs.step hn h) (fleetInv_init hp)

/-! ### The law -/

/-- A step leaves the committed history alone, or it is a commit that completes it. -/
private theorem FleetInv.whole (hs : FleetInv migrations history s) (h : Fleet.step migrations s a = some s') :
    s'.history = s.history ∨ ∃ i executed, a = .commit i ∧ s.replicas i = .migrating executed [] ∧
      s'.history = s.history ++ executed ∧ s'.history = migrations := by
  cases step_cases h with
  | @commit i executed hi =>
    exact .inr ⟨i, executed, rfl, hi, rfl, by simpa using hs.executing i executed [] hi⟩
  | down => exact .inl (by simp)
  | _ => exact .inl rfl

omit [DecidableEq ι] [DecidableEq ν] in
private theorem FleetInv.released (hs : FleetInv migrations history s) (hd : (s.replicas i).isDown) :
    s.lock ≠ some i := by
  intro hl
  have hholds := (hs.lock i).2 hl
  rw [Replica.holds_of_isDown hd] at hholds
  cases hholds

/-- From any committed prefix of a list of distinct migrations, the law holds over every interleaving of the boots. -/
theorem boot_migrations (hn : migrations.Nodup) (hp : history <+: migrations)
    (h : Reachable migrations history s) : MigrationLaw migrations history s := by
  have hs := h.fleetInv hn hp
  refine ⟨fun i j hi hj => ?_, ⟨hs.ordered, hn.sublist hs.ordered.sublist⟩, fun a s' h => hs.whole h, hs.executing,
    fun i hi => hs.complete i (by rw [hi]; rfl), ⟨hs.commits, hs.once⟩, fun i _ hc hmem => ?_, fun i => hs.released⟩
  · have hlock := (hs.lock i).1 hi
    rw [(hs.lock j).1 hj] at hlock
    exact (Option.some.inj hlock).symm
  · rw [(hs.committed i).2 hmem] at hc
    cases hc

/-- Two replicas with one migration left, both in a transaction; the first one crashes in the middle of its run. -/
def twoBoots : List (FleetAction Bool) :=
  [.begin true, .begin false, .lock true, .read true, .exec true, .crash true, .lock false, .read false, .exec false,
    .commit false, .finish false]

def twoBooted : Fleet Bool String := ((machine ["a", "b"]).run (init ["a"]) twoBoots).getD (init ["a"])

/-- The second replica commits what the first one lost. -/
theorem boot_migrations_two : twoBooted.history = ["a", "b"] ∧ MigrationLaw ["a", "b"] ["a"] twoBooted :=
  ⟨rfl, boot_migrations (by decide) ⟨["b"], rfl⟩ (Transition.Machine.reaches_of_run (l := twoBoots) rfl)⟩

end Fleet

end StarterHub
