import StarterHub.Lib.Machine
import StarterHub.Runtime
import Mathlib.Logic.Function.Basic

/-!
# Boot migrations (`migration/src/lib.rs`)

Any number of replicas, each executing `up_guarded` against one database: begin a transaction, take the
transaction-scoped advisory lock, run `Migrator::up` on the transaction, commit.  The database runs at READ COMMITTED:
a statement sees what is committed when it starts, also in a transaction that began before.  What a transaction did
takes effect with its commit, and the end of the transaction (its commit, a failure, the loss of the client) releases
its lock.
-/

namespace StarterHub

/-- `Migrator::up` with the applied migrations at hand: the ones it will execute, in order. -/
def pendingMigrations {ν : Type} [DecidableEq ν] (migrations applied : List ν) : List ν :=
  migrations.filter fun name => decide (name ∉ applied)

/-- Where a replica is in `up_guarded`.  A replica that is `failed` returned the error, one that is `crashed` is
gone; `committed` says whether its commit had taken effect by then. -/
inductive Replica (ν : Type) where
  | booting
  | begun
  | locked
  | migrating (executed pending : List ν)
  | committed
  | returned
  | failed (error : DbErr) (committed : Bool)
  | crashed (committed : Bool)

namespace Replica

variable {ν : Type}

/-- The replica is between acquiring the lock and the end of its transaction. -/
def holds : Replica ν → Bool
  | locked | migrating _ _ => true
  | _ => false

def hasCommitted : Replica ν → Bool
  | committed | returned | failed _ true | crashed true => true
  | _ => false

def isDown : Replica ν → Bool
  | failed _ _ | crashed _ => true
  | _ => false

def isOver : Replica ν → Bool
  | returned | failed _ _ | crashed _ => true
  | _ => false

theorem holds_of_isDown {replica : Replica ν} (h : replica.isDown = true) : replica.holds = false := by
  cases replica <;> simp_all [isDown, holds]

end Replica

/-- The database and the replicas: the committed history, the holder of the advisory lock, the commits so far. -/
structure Fleet (ι ν : Type) where
  history : List ν
  lock : Option ι
  replicas : ι → Replica ν
  commits : List (ι × List ν)

def Fleet.init {ι ν : Type} (history : List ν) : Fleet ι ν := ⟨history, none, fun _ => .booting, []⟩

/-- The steps of the replicas; `fail` is an error of the statement the replica is waiting for. -/
inductive FleetAction (ι : Type) where
  | begin (i : ι)
  | lock (i : ι)
  | read (i : ι)
  | exec (i : ι)
  | commit (i : ι)
  | finish (i : ι)
  | fail (i : ι) (error : DbErr)
  | crash (i : ι)

namespace Fleet

section

variable {ι ν : Type} [DecidableEq ι]

def set (s : Fleet ι ν) (i : ι) (replica : Replica ν) : Fleet ι ν :=
  { s with replicas := Function.update s.replicas i replica }

/-- The end of a transaction releases the lock it holds. -/
def release (s : Fleet ι ν) (i : ι) : Fleet ι ν := if s.lock = some i then { s with lock := none } else s

variable {s : Fleet ι ν} {i : ι} (replica : Replica ν)

@[simp] theorem history_set : (s.set i replica).history = s.history := rfl

@[simp] theorem lock_set : (s.set i replica).lock = s.lock := rfl

@[simp] theorem replicas_set : (s.set i replica).replicas = Function.update s.replicas i replica := rfl

@[simp] theorem commits_set : (s.set i replica).commits = s.commits := rfl

/-- A test of the replicas that does not see the change of the replica `i` sees none. -/
theorem apply_set (f : Replica ν → Bool) {replica : Replica ν} (h : f replica = f (s.replicas i)) (j : ι) :
    f ((s.set i replica).replicas j) = f (s.replicas j) := by
  by_cases hj : j = i
  · subst hj
    simp [h]
  · simp [Function.update_of_ne hj]

@[simp] theorem history_release : (s.release i).history = s.history := by unfold release; split <;> rfl

@[simp] theorem replicas_release : (s.release i).replicas = s.replicas := by unfold release; split <;> rfl

@[simp] theorem commits_release : (s.release i).commits = s.commits := by unfold release; split <;> rfl

theorem lock_release {j : ι} : (s.release i).lock = some j ↔ s.lock = some j ∧ j ≠ i := by
  unfold release
  split
  · next h => simp [h, eq_comm]
  · next h =>
    refine ⟨fun hj => ⟨hj, ?_⟩, And.left⟩
    rintro rfl
    exact h hj

end

variable {ι ν : Type} [DecidableEq ι] [DecidableEq ν]

def step (migrations : List ν) (s : Fleet ι ν) : FleetAction ι → Option (Fleet ι ν)
  | .begin i =>
    match s.replicas i with
    | .booting => some (s.set i .begun)
    | _ => none
  | .lock i =>
    -- `pg_advisory_xact_lock` blocks while another transaction holds the key
    match s.replicas i, s.lock with
    | .begun, none => some { s.set i .locked with lock := some i }
    | _, _ => none
  | .read i =>
    match s.replicas i with
    | .locked => some (s.set i (.migrating [] (pendingMigrations migrations s.history)))
    | _ => none
  | .exec i =>
    match s.replicas i with
    | .migrating executed (name :: pending) => some (s.set i (.migrating (executed ++ [name]) pending))
    | _ => none
  | .commit i =>
    match s.replicas i with
    | .migrating executed [] =>
      some { (s.set i .committed).release i with
        history := s.history ++ executed, commits := s.commits ++ [(i, executed)] }
    | _ => none
  | .finish i =>
    match s.replicas i with
    | .committed => some (s.set i .returned)
    | _ => none
  | .fail i error =>
    if (s.replicas i).isOver then none
    else some ((s.set i (.failed error (s.replicas i).hasCommitted)).release i)
  | .crash i =>
    if (s.replicas i).isOver then none
    else some ((s.set i (.crashed (s.replicas i).hasCommitted)).release i)

def machine (migrations : List ν) : Transition.Machine (Fleet ι ν) (FleetAction ι) := ⟨step migrations⟩

/-- The state after some interleaving of the replicas, from a committed history. -/
def Reachable (migrations history : List ν) (s : Fleet ι ν) : Prop := (machine migrations).Reaches (init history) s

/-! ### One step -/

/-- What a step does to the replica that takes it and to the database. -/
inductive Move (migrations : List ν) (s : Fleet ι ν) : FleetAction ι → Fleet ι ν → Prop
  | begin {i : ι} (h : s.replicas i = .booting) : Move migrations s (.begin i) (s.set i .begun)
  | lock {i : ι} (h : s.replicas i = .begun) (hl : s.lock = none) :
      Move migrations s (.lock i) { s.set i .locked with lock := some i }
  | read {i : ι} (h : s.replicas i = .locked) :
      Move migrations s (.read i) (s.set i (.migrating [] (pendingMigrations migrations s.history)))
  | exec {i : ι} {executed : List ν} {name : ν} {pending : List ν}
      (h : s.replicas i = .migrating executed (name :: pending)) :
      Move migrations s (.exec i) (s.set i (.migrating (executed ++ [name]) pending))
  | commit {i : ι} {executed : List ν} (h : s.replicas i = .migrating executed []) :
      Move migrations s (.commit i) { (s.set i .committed).release i with
        history := s.history ++ executed, commits := s.commits ++ [(i, executed)] }
  | finish {i : ι} (h : s.replicas i = .committed) : Move migrations s (.finish i) (s.set i .returned)
  | down {i : ι} {a : FleetAction ι} {replica : Replica ν} (ha : ∀ j, a ≠ .commit j)
      (h : replica.hasCommitted = (s.replicas i).hasCommitted) (hd : replica.isDown = true) :
      Move migrations s a ((s.set i replica).release i)

theorem step_cases {migrations : List ν} {s s' : Fleet ι ν} {a : FleetAction ι} (h : step migrations s a = some s') :
    Move migrations s a s' := by
  cases a with
  | begin i =>
    simp only [step] at h
    split at h
    · next hi => cases h; exact .begin hi
    · cases h
  | lock i =>
    simp only [step] at h
    split at h
    · next hi hl => cases h; exact .lock hi hl
    · cases h
  | read i =>
    simp only [step] at h
    split at h
    · next hi => cases h; exact .read hi
    · cases h
  | exec i =>
    simp only [step] at h
    split at h
    · next hi => cases h; exact .exec hi
    · cases h
  | commit i =>
    simp only [step] at h
    split at h
    · next hi => cases h; exact .commit hi
    · cases h
  | finish i =>
    simp only [step] at h
    split at h
    · next hi => cases h; exact .finish hi
    · cases h
  | fail i error =>
    simp only [step, Option.ite_none_left_eq_some, Option.some.injEq] at h
    obtain ⟨-, rfl⟩ := h
    exact .down (by simp) (by cases (s.replicas i).hasCommitted <;> rfl) rfl
  | crash i =>
    simp only [step, Option.ite_none_left_eq_some, Option.some.injEq] at h
    obtain ⟨-, rfl⟩ := h
    exact .down (by simp) (by cases (s.replicas i).hasCommitted <;> rfl) rfl

end Fleet

end StarterHub
