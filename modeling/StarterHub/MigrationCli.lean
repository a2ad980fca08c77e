import StarterHub.Lib.Journal
import StarterHub.Migration
import Mathlib.Data.Fintype.Sum

/-!
# Boots and the migration CLI (`migration/src/main.rs`)

Any number of application boots and of runs of the command line with `up`, against one database.  The command line
delegates to `Migrator::up` of sea-orm-migration on a plain connection: it takes no lock, reads the applied migrations
outside of any transaction, and executes each pending one in a transaction of its own that is committed before the next
one begins.  In `up_guarded` the same `Migrator::up` runs inside the one transaction that holds the lock.

Under the same database as there, what can happen between the two is looked at in more detail: a migration is executed
in two steps, its own statements and then the insertion of its name into the migrations table, whose key admits a name
once.
-/

namespace StarterHub

/-- How far the transaction of a migration is: open, its statements run, its name inserted. -/
inductive Stage where
  | begun | ran | inserted
  deriving DecidableEq

/-- Where a run of the command line is in `Migrator::up`: `between` two transactions with the migrations that are
pending, or `applying` one of them in its transaction. -/
inductive CliRun (ν : Type) where
  | starting
  | between (pending : List ν)
  | applying (stage : Stage) (name : ν) (pending : List ν)
  | returned
  | failed (error : DbErr)
  | crashed

namespace CliRun

variable {ν : Type}

def isOver : CliRun ν → Bool
  | returned | failed _ | crashed => true
  | _ => false

def isDown : CliRun ν → Bool
  | failed _ | crashed => true
  | _ => false

/-- The names that the open transaction has inserted. -/
def inserted : CliRun ν → List ν
  | applying .inserted name _ => [name]
  | _ => []

/-- The migrations that a run has read as pending and not committed yet. -/
def ahead : CliRun ν → Option (List ν)
  | between pending => some pending
  | applying _ name pending => some (name :: pending)
  | _ => none

theorem ahead_of_isDown {run : CliRun ν} (h : run.isDown = true) : run.ahead = none := by
  cases run <;> simp_all [isDown, ahead]

theorem inserted_of_isDown {run : CliRun ν} (h : run.isDown = true) : run.inserted = [] := by
  cases run <;> simp_all [isDown, inserted]

end CliRun

namespace Replica

variable {ν : Type}

def inserted : Replica ν → List ν
  | migrating executed _ => executed
  | _ => []

def ahead : Replica ν → Option (List ν)
  | migrating executed pending => some (executed ++ pending)
  | _ => none

theorem ahead_of_isDown {replica : Replica ν} (h : replica.isDown = true) : replica.ahead = none := by
  cases replica <;> simp_all [isDown, ahead]

theorem inserted_of_isDown {replica : Replica ν} (h : replica.isDown = true) : replica.inserted = [] := by
  cases replica <;> simp_all [isDown, inserted]

end Replica

/-- The boots with the database, those whose next migration has run its statements while its name is still to be
inserted, the runs of the command line, and who has committed which migration. -/
structure Mixed (ι κ ν : Type) where
  fleet : Fleet ι ν
  ran : ι → Bool
  runs : κ → CliRun ν
  applied : List ((ι ⊕ κ) × ν)

/-- The steps of a run of the command line: `conflict` is the error of a statement that meets what another invocation
has committed, `fail` any other one. -/
inductive CliAction where
  | read | begin | run | insert | commit | finish
  | conflict (error : DbErr)
  | fail (error : DbErr)
  | crash

/-- The steps of a boot, with the statements of a migration before the insertion of its name, and those of a run of the
command line. -/
inductive MixedAction (ι κ : Type) where
  | boot (a : FleetAction ι)
  | run (i : ι)
  | conflict (i : ι) (error : DbErr)
  | cli (k : κ) (a : CliAction)

/-- The invocation that reads the applied migrations in this step. -/
def MixedAction.reader {ι κ : Type} : MixedAction ι κ → Option (ι ⊕ κ)
  | boot (.read i) => some (.inl i)
  | cli k .read => some (.inr k)
  | _ => none

namespace Mixed

variable {ι κ ν : Type}

def init (history : List ν) : Mixed ι κ ν := ⟨Fleet.init history, fun _ => false, fun _ => .starting, []⟩

/-- The names that the open transaction of an invocation has inserted. -/
def inserted (s : Mixed ι κ ν) : ι ⊕ κ → List ν :=
  Sum.elim (Replica.inserted ∘ s.fleet.replicas) (CliRun.inserted ∘ s.runs)

/-- The migrations that an invocation has read as pending and not committed yet. -/
def ahead (s : Mixed ι κ ν) : ι ⊕ κ → Option (List ν) :=
  Sum.elim (Replica.ahead ∘ s.fleet.replicas) (CliRun.ahead ∘ s.runs)

def isOver (s : Mixed ι κ ν) : ι ⊕ κ → Bool
  | .inl i => (s.fleet.replicas i).isOver
  | .inr k => (s.runs k).isOver

/-- The invocation has returned `Ok`. -/
def HasReturned (s : Mixed ι κ ν) : ι ⊕ κ → Prop
  | .inl i => s.fleet.replicas i = .returned
  | .inr k => s.runs k = .returned

variable [DecidableEq ι] [DecidableEq κ] [Fintype ι] [Fintype κ] [DecidableEq ν]

/-- The insertion of a name waits for the open transactions that have inserted it, and fails once it is committed. -/
def admits (s : Mixed ι κ ν) (name : ν) : Bool :=
  decide (name ∉ s.fleet.history) && decide (∀ x, name ∉ s.inserted x)

/-- A boot inserts a name once the statements of its migration have run. -/
def allowed (s : Mixed ι κ ν) : FleetAction ι → Bool
  | .exec i =>
    match s.fleet.replicas i with
    | .migrating _ (name :: _) => s.ran i && s.admits name
    | _ => false
  | _ => true

/-- The statements that have run, after a step of a boot. -/
def ranAfter (ran : ι → Bool) : FleetAction ι → ι → Bool
  | .exec i | .fail i _ | .crash i => Function.update ran i false
  | _ => ran

/-- What a step of a boot commits. -/
def appliedBy (fleet : Fleet ι ν) : FleetAction ι → List ((ι ⊕ κ) × ν)
  | .commit i => (fleet.replicas i).inserted.map fun name => (.inl i, name)
  | _ => []

def setRun (s : Mixed ι κ ν) (k : κ) (run : CliRun ν) : Mixed ι κ ν :=
  { s with runs := Function.update s.runs k run }

/-- The commit of a migration by the command line, which goes on with the next one. -/
def commitRun (s : Mixed ι κ ν) (k : κ) (name : ν) (pending : List ν) : Mixed ι κ ν :=
  { s.setRun k (.between pending) with
    fleet := { s.fleet with history := s.fleet.history ++ [name] }, applied := s.applied ++ [(.inr k, name)] }

def stepCli (migrations : List ν) (s : Mixed ι κ ν) (k : κ) : CliAction → Option (Mixed ι κ ν)
  | .read =>
    match s.runs k with
    | .starting => some (s.setRun k (.between (pendingMigrations migrations s.fleet.history)))
    | _ => none
  | .begin =>
    match s.runs k with
    | .between (name :: pending) => some (s.setRun k (.applying .begun name pending))
    | _ => none
  | .run =>
    match s.runs k with
    | .applying .begun name pending => some (s.setRun k (.applying .ran name pending))
    | _ => none
  | .insert =>
    match s.runs k with
    | .applying .ran name pending =>
      if s.admits name then some (s.setRun k (.applying .inserted name pending)) else none
    | _ => none
  | .commit =>
    match s.runs k with
    | .applying .inserted name pending => some (s.commitRun k name pending)
    | _ => none
  | .finish =>
    match s.runs k with
    | .between [] => some (s.setRun k .returned)
    | _ => none
  | .conflict error =>
    match s.runs k with
    | .applying stage name _ =>
      if stage ≠ .inserted ∧ name ∈ s.fleet.history then some (s.setRun k (.failed error)) else none
    | _ => none
  | .fail error => if (s.runs k).isOver then none else some (s.setRun k (.failed error))
  | .crash => if (s.runs k).isOver then none else some (s.setRun k .crashed)

def step (migrations : List ν) (s : Mixed ι κ ν) : MixedAction ι κ → Option (Mixed ι κ ν)
  | .boot a =>
    if s.allowed a then
      (Fleet.step migrations s.fleet a).map fun fleet =>
        { s with fleet, ran := ranAfter s.ran a, applied := s.applied ++ appliedBy s.fleet a }
    else none
  | .run i =>
    match s.fleet.replicas i with
    | .migrating _ (_ :: _) => if s.ran i then none else some { s with ran := Function.update s.ran i true }
    | _ => none
  | .conflict i error =>
    match s.fleet.replicas i with
    | .migrating executed (name :: _) =>
      if name ∈ s.fleet.history ++ executed then
        some { s with
          fleet := (s.fleet.set i (.failed error false)).release i, ran := Function.update s.ran i false }
      else none
    | _ => none
  | .cli k a => s.stepCli migrations k a

def machine (migrations : List ν) : Transition.Machine (Mixed ι κ ν) (MixedAction ι κ) := ⟨step migrations⟩

/-! ### One step -/

/-- What a step does to the invocation that takes it and to the database. -/
inductive Move (migrations : List ν) (s : Mixed ι κ ν) : MixedAction ι κ → Mixed ι κ ν → Prop
  | begin {i : ι} (h : s.fleet.replicas i = .booting) :
      Move migrations s (.boot (.begin i)) { s with fleet := s.fleet.set i .begun }
  | lock {i : ι} (h : s.fleet.replicas i = .begun) (hl : s.fleet.lock = none) :
      Move migrations s (.boot (.lock i)) { s with fleet := { s.fleet.set i .locked with lock := some i } }
  | read {i : ι} (h : s.fleet.replicas i = .locked) :
      Move migrations s (.boot (.read i))
        { s with fleet := s.fleet.set i (.migrating [] (pendingMigrations migrations s.fleet.history)) }
  | run {i : ι} {executed : List ν} {name : ν} {pending : List ν}
      (h : s.fleet.replicas i = .migrating executed (name :: pending)) (hr : s.ran i = false) :
      Move migrations s (.run i) { s with ran := Function.update s.ran i true }
  | exec {i : ι} {executed : List ν} {name : ν} {pending : List ν}
      (h : s.fleet.replicas i = .migrating executed (name :: pending)) (hr : s.ran i = true)
      (ha : s.admits name = true) :
      Move migrations s (.boot (.exec i)) { s with
        fleet := s.fleet.set i (.migrating (executed ++ [name]) pending), ran := Function.update s.ran i false }
  | commit {i : ι} {executed : List ν} (h : s.fleet.replicas i = .migrating executed []) :
      Move migrations s (.boot (.commit i)) { s with
        fleet := { (s.fleet.set i .committed).release i with
          history := s.fleet.history ++ executed, commits := s.fleet.commits ++ [(i, executed)] },
        applied := s.applied ++ executed.map fun name => (.inl i, name) }
  | finish {i : ι} (h : s.fleet.replicas i = .committed) :
      Move migrations s (.boot (.finish i)) { s with fleet := s.fleet.set i .returned }
  | down {i : ι} {a : MixedAction ι κ} {replica : Replica ν} (ha : a.reader = none)
      (hi : (s.fleet.replicas i).isOver = false) (hd : replica.isDown = true) :
      Move migrations s a
        { s with fleet := (s.fleet.set i replica).release i, ran := Function.update s.ran i false }
  | cliRead {k : κ} (h : s.runs k = .starting) :
      Move migrations s (.cli k .read) (s.setRun k (.between (pendingMigrations migrations s.fleet.history)))
  | cliBegin {k : κ} {name : ν} {pending : List ν} (h : s.runs k = .between (name :: pending)) :
      Move migrations s (.cli k .begin) (s.setRun k (.applying .begun name pending))
  | cliRun {k : κ} {name : ν} {pending : List ν} (h : s.runs k = .applying .begun name pending) :
      Move migrations s (.cli k .run) (s.setRun k (.applying .ran name pending))
  | cliInsert {k : κ} {name : ν} {pending : List ν} (h : s.runs k = .applying .ran name pending)
      (ha : s.admits name = true) : Move migrations s (.cli k .insert) (s.setRun k (.applying .inserted name pending))
  | cliCommit {k : κ} {name : ν} {pending : List ν} (h : s.runs k = .applying .inserted name pending) :
      Move migrations s (.cli k .commit) (s.commitRun k name pending)
  | cliFinish {k : κ} (h : s.runs k = .between []) : Move migrations s (.cli k .finish) (s.setRun k .returned)
  | cliDown {k : κ} {a : CliAction} {run : CliRun ν} (ha : (MixedAction.cli (ι := ι) k a).reader = none)
      (hk : (s.runs k).isOver = false) (hd : run.isDown = true) : Move migrations s (.cli k a) (s.setRun k run)

variable {migrations : List ν} {s s' : Mixed ι κ ν} {a : MixedAction ι κ}

private theorem step_cases_boot {a : FleetAction ι} (h : step migrations s (.boot a) = some s') :
    Move migrations s (.boot a) s' := by
  simp only [step, Option.ite_none_right_eq_some, Option.map_eq_some_iff] at h
  obtain ⟨hallowed, fleet, hstep, rfl⟩ := h
  cases a with
  | begin i =>
    simp only [Fleet.step] at hstep
    split at hstep
    · next hi => cases hstep; simpa only [ranAfter, appliedBy, List.append_nil] using Move.begin hi
    · cases hstep
  | lock i =>
    simp only [Fleet.step] at hstep
    split at hstep
    · next hi hl => cases hstep; simpa only [ranAfter, appliedBy, List.append_nil] using Move.lock hi hl
    · cases hstep
  | read i =>
    simp only [Fleet.step] at hstep
    split at hstep
    · next hi => cases hstep; simpa only [ranAfter, appliedBy, List.append_nil] using Move.read hi
    · cases hstep
  | exec i =>
    simp only [Fleet.step] at hstep
    split at hstep
    · next hi =>
      cases hstep
      simp only [allowed, hi, Bool.and_eq_true] at hallowed
      simpa only [ranAfter, appliedBy, List.append_nil] using Move.exec hi hallowed.1 hallowed.2
    · cases hstep
  | commit i =>
    simp only [Fleet.step] at hstep
    split at hstep
    · next hi => cases hstep; simpa only [ranAfter, appliedBy, hi, Replica.inserted] using Move.commit hi
    · cases hstep
  | finish i =>
    simp only [Fleet.step] at hstep
    split at hstep
    · next hi => cases hstep; simpa only [ranAfter, appliedBy, List.append_nil] using Move.finish hi
    · cases hstep
  | fail i error =>
    simp only [Fleet.step, Option.ite_none_left_eq_some, Option.some.injEq, Bool.not_eq_true] at hstep
    obtain ⟨hi, rfl⟩ := hstep
    simp only [ranAfter, appliedBy, List.append_nil]
    exact .down rfl hi rfl
  | crash i =>
    simp only [Fleet.step, Option.ite_none_left_eq_some, Option.some.injEq, Bool.not_eq_true] at hstep
    obtain ⟨hi, rfl⟩ := hstep
    simp only [ranAfter, appliedBy, List.append_nil]
    exact .down rfl hi rfl

private theorem step_cases_cli {k : κ} {a : CliAction} (h : s.stepCli migrations k a = some s') :
    Move migrations s (.cli k a) s' := by
  cases a with
  | read =>
    simp only [stepCli] at h
    split at h
    · next hk => cases h; exact .cliRead hk
    · cases h
  | begin =>
    simp only [stepCli] at h
    split at h
    · next hk => cases h; exact .cliBegin hk
    · cases h
  | run =>
    simp only [stepCli] at h
    split at h
    · next hk => cases h; exact .cliRun hk
    · cases h
  | insert =>
    simp only [stepCli] at h
    split at h
    · next hk =>
      simp only [Option.ite_none_right_eq_some, Option.some.injEq] at h
      obtain ⟨ha, rfl⟩ := h
      exact .cliInsert hk ha
    · cases h
  | commit =>
    simp only [stepCli] at h
    split at h
    · next hk => cases h; exact .cliCommit hk
    · cases h
  | finish =>
    simp only [stepCli] at h
    split at h
    · next hk => cases h; exact .cliFinish hk
    · cases h
  | conflict error =>
    simp only [stepCli] at h
    split at h
    · next hk =>
      simp only [Option.ite_none_right_eq_some, Option.some.injEq] at h
      obtain ⟨-, rfl⟩ := h
      exact .cliDown rfl (by rw [hk]; rfl) rfl
    · cases h
  | fail error =>
    simp only [stepCli, Option.ite_none_left_eq_some, Option.some.injEq, Bool.not_eq_true] at h
    obtain ⟨hk, rfl⟩ := h
    exact .cliDown rfl hk rfl
  | crash =>
    simp only [stepCli, Option.ite_none_left_eq_some, Option.some.injEq, Bool.not_eq_true] at h
    obtain ⟨hk, rfl⟩ := h
    exact .cliDown rfl hk rfl

theorem step_cases (h : step migrations s a = some s') : Move migrations s a s' := by
  cases a with
  | boot a => exact step_cases_boot h
  | run i =>
    simp only [step] at h
    split at h
    · next hi =>
      simp only [Option.ite_none_left_eq_some, Option.some.injEq, Bool.not_eq_true] at h
      obtain ⟨hr, rfl⟩ := h
      exact .run hi hr
    · cases h
  | conflict i error =>
    simp only [step] at h
    split at h
    · next hi =>
      simp only [Option.ite_none_right_eq_some, Option.some.injEq] at h
      obtain ⟨-, rfl⟩ := h
      exact .down rfl (by rw [hi]; rfl) rfl
    · cases h
  | cli k a => exact step_cases_cli h

/-! ### The lock -/

/-- The lock is with the boot that is between acquiring it and the end of its transaction. -/
def LockInv (s : Mixed ι κ ν) : Prop := ∀ i, s.fleet.lock = some i ↔ (s.fleet.replicas i).holds = true

omit [DecidableEq ι] [DecidableEq κ] [Fintype ι] [Fintype κ] [DecidableEq ν] in
theorem lockInv_init {history : List ν} : LockInv (init (ι := ι) (κ := κ) history) := by
  simp [LockInv, init, Fleet.init, Replica.holds]

omit [DecidableEq κ] [Fintype ι] [Fintype κ] [DecidableEq ν] in
/-- A boot that keeps the lock or keeps off it. -/
private theorem LockInv.set {i : ι} {replica : Replica ν} {ran : ι → Bool} (hs : LockInv s)
    (h : replica.holds = (s.fleet.replicas i).holds) : LockInv { s with fleet := s.fleet.set i replica, ran } := by
  intro j
  rw [Fleet.apply_set Replica.holds h]
  exact hs j

omit [DecidableEq κ] [Fintype ι] [Fintype κ] [DecidableEq ν] in
/-- The end of a transaction. -/
private theorem LockInv.release {i : ι} {replica : Replica ν} (hs : LockInv s) (h : replica.holds = false) (j : ι) :
    ((s.fleet.set i replica).release i).lock = some j ↔
      (((s.fleet.set i replica).release i).replicas j).holds = true := by
  rw [Fleet.lock_release, Fleet.replicas_release, Fleet.lock_set, hs j]
  by_cases hj : j = i
  · subst hj
    simp [h]
  · simp [hj]

theorem LockInv.step (hs : LockInv s) (h : Mixed.step migrations s a = some s') : LockInv s' := by
  cases step_cases h with
  | begin hi => exact hs.set (by rw [hi]; rfl)
  | @lock i hi hl =>
    intro j
    by_cases hj : j = i
    · subst hj
      simp [Replica.holds]
    · have hfree := hs j
      rw [hl] at hfree
      simpa [Function.update_of_ne hj, Ne.symm hj] using hfree
  | read hi => exact hs.set (by rw [hi]; rfl)
  | exec hi => exact hs.set (by rw [hi]; rfl)
  | finish hi => exact hs.set (by rw [hi]; rfl)
  | commit hi => exact fun j => hs.release rfl j
  | down _ _ hd => exact fun j => hs.release (Replica.holds_of_isDown hd) j
  | run | cliRead | cliBegin | cliRun | cliInsert | cliCommit | cliFinish | cliDown => exact hs

omit [DecidableEq ι] [DecidableEq κ] [Fintype ι] [Fintype κ] [DecidableEq ν] in
/-- Only one boot is between its lock and the end of its transaction. -/
theorem LockInv.unique (hs : LockInv s) {i j : ι} (hi : (s.fleet.replicas i).holds = true)
    (hj : (s.fleet.replicas j).holds = true) : i = j :=
  Option.some.inj (((hs i).2 hi).symm.trans ((hs j).2 hj))

end Mixed

end StarterHub
