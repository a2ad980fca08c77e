import StarterHub.Binaries
import StarterHub.Registration
import StarterHub.Rollout
import StarterHub.System

/-!
# A deployment (`src/main.rs`)

Any number of replicas against one database, each of them from the first line of `main` on: the configuration, the pool,
the migrations, the cron engine, the handlers of the signals, and then the application.  Until the handlers stand a
signal kills the process, wherever it is; a process can always be killed by one that nobody handles.  What is killed
takes its transaction with it.
-/

namespace StarterHub

/-- What a replica was compiled from. -/
structure Build (ν : Type) where
  name : String
  version : String
  migrations : List ν
  roster : List Job

namespace Build

variable {ν : Type}

def config (self : Build ν) (host : Host) : Except MainError Config := host.load self.name self.version

def job (self : Build ν) : Fin self.roster.length → Job := self.roster.get

/-- `CronServer::new`, with what `JobScheduler::new` gives. -/
def cron (self : Build ν) (api : CronApi CronJob) (inner : Except String Unit) : Except AnyhowError BuiltCron :=
  match inner with
  | .error error => .error ⟨"failed to create the cron engine", [error]⟩
  | .ok () => (CronHost.new api self.roster 0 []).server

/-- A cron engine comes about iff the roster registers. -/
theorem cron_iff (self : Build ν) (api : CronApi CronJob) :
    (∃ inner server, self.cron api inner = .ok server) ↔ Registrable api 0 0 self.roster := by
  have hnew : (∃ inner server, self.cron api inner = .ok server) ↔ ∃ server, self.cron api (.ok ()) = .ok server := by
    refine ⟨?_, fun h => ⟨.ok (), h⟩⟩
    rintro ⟨_ | ⟨⟩, server, h⟩
    · cases h
    · exact ⟨server, h⟩
  have hadded : Added 0 [] [] ⟨[], ⟨[], false⟩, []⟩ := ⟨by simp, rfl, by simp, rfl⟩
  rw [hnew]
  rcases registerLoop_cases api hadded self.roster with
    ⟨hclean, s, heq, -⟩ | ⟨mid, job, after, error, s, hroster, -, hbad, heq, -⟩
  · refine iff_of_true ⟨⟨s.scheduler, 0⟩, ?_⟩ ((clean_iff self.roster).1 hclean)
    simp [cron, CronHost.new, register, heq]
  · refine iff_of_false ?_ ?_
    · simp [cron, CronHost.new, register, heq]
    · rw [← clean_iff, hroster, clean_append]
      exact fun h => h.2.1 hbad

end Build

/-- What `main` returns when it does not come to its components. -/
inductive BootError where
  | config (error : MainError)
  | context (error : AnyhowError)

/-- Where a process is in `main`; one that is `killed` got a signal that it does not handle, or one that nobody can. -/
inductive Process (κ σ : Type) where
  | starting
  | connecting (config : Config)
  | migrating (config : Config)
  | building (config : Config)
  | installing (config : Config)
  | running (config : Config) (system : System κ σ)
  | failed (error : BootError)
  | killed (sig : Option Signal)

/-- The process is still there. -/
def Process.isAlive {κ σ : Type} : Process κ σ → Bool
  | running _ system => system.main.status.exitCode.isNone
  | failed _ | killed _ => false
  | _ => true

/-- What the replicas are made of, and what `tokio-cron-scheduler` and `sea-orm-migration` make of them. -/
structure Plan (ι ν : Type) where
  builds : ι → Build ν
  hosts : ι → Host
  stop : ι → Except String Unit
  api : CronApi CronJob
  missing : List ν → List ν → Option DbErr

namespace Plan

variable {ι ν : Type} (plan : Plan ι ν)

abbrev migrations (i : ι) : List ν := (plan.builds i).migrations

abbrev Key (i : ι) : Type := Fin (plan.builds i).roster.length

end Plan

/-- The database and the processes. -/
structure Deployment {ι ν : Type} (plan : Plan ι ν) (σ : Type) where
  fleet : Fleet ι ν
  processes : (i : ι) → Process (plan.Key i) σ

/-- The steps of `main` in their order, the ones of `up_guarded` and of the application among them, and the signals. -/
inductive DeploymentAction {ι ν : Type} (plan : Plan ι ν) (σ : Type) where
  | configure (i : ι)
  | connect (i : ι) (result : Except DbErr Unit)
  | fleet (a : FleetAction ι)
  | migrated (i : ι)
  | build (i : ι) (inner : Except String Unit)
  | install (i : ι) (sigint sigterm : Except String Unit)
  | system (i : ι) (a : SystemAction (plan.Key i) σ)
  | signal (i : ι) (sig : Signal)
  | kill (i : ι)

namespace Deployment

variable {ι ν σ : Type} [DecidableEq ι] [DecidableEq ν] {plan : Plan ι ν}

def init (history : List ν) : Deployment plan σ := ⟨.init history, fun _ => .starting⟩

def set (s : Deployment plan σ) (i : ι) (process : Process (plan.Key i) σ) : Deployment plan σ :=
  { s with processes := Function.update s.processes i process }

def fail (s : Deployment plan σ) (i : ι) (message : String) (cause : String) : Deployment plan σ :=
  s.set i (.failed (.context ⟨message, [cause]⟩))

/-- The database loses the client. -/
def die (s : Deployment plan σ) (i : ι) (sig : Option Signal) : Deployment plan σ :=
  { s.set i (.killed sig) with
    fleet := (Rollout.step plan.missing plan.migrations s.fleet (.crash i)).getD s.fleet }

def step (s : Deployment plan σ) : DeploymentAction plan σ → Option (Deployment plan σ)
  | .configure i =>
    match s.processes i with
    | .starting =>
      match (plan.builds i).config (plan.hosts i) with
      | .ok config => some (s.set i (.connecting config))
      | .error error => some (s.set i (.failed (.config error)))
    | _ => none
  | .connect i result =>
    match s.processes i, result with
    | .connecting config, .ok () => some (s.set i (.migrating config))
    | .connecting _, .error error => some (s.fail i "failed to connect to PostgreSQL" error.message)
    | _, _ => none
  | .fleet a =>
    match s.processes a.replica with
    | .migrating _ =>
      if a.isCrash then none
      else (Rollout.step plan.missing plan.migrations s.fleet a).map fun fleet => { s with fleet }
    | _ => none
  | .migrated i =>
    match s.processes i, s.fleet.replicas i with
    | .migrating config, .returned => some (s.set i (.building config))
    | .migrating _, .failed error _ => some (s.fail i "failed to apply database migrations" error.message)
    | _, _ => none
  | .build i inner =>
    match s.processes i with
    | .building config =>
      match (plan.builds i).cron plan.api inner with
      | .ok _ => some (s.set i (.installing config))
      | .error error => some (s.set i (.failed (.context error)))
    | _ => none
  | .install i sigint sigterm =>
    match s.processes i with
    | .installing config =>
      match sigint, sigterm with
      | .error error, _ => some (s.fail i "failed to install the SIGINT handler" error)
      | .ok (), .error error => some (s.fail i "failed to install the SIGTERM handler" error)
      | .ok (), .ok () => some (s.set i (.running config .init))
    | _ => none
  | .system i a =>
    match s.processes i with
    | .running config system =>
      (system.step (apiServer config) (plan.builds i).job (plan.stop i) a).map fun system =>
        s.set i (.running config system)
    | _ => none
  | .signal i sig =>
    match s.processes i with
    | .running config system =>
      (system.step (apiServer config) (plan.builds i).job (plan.stop i) (.main (.signal sig))).map fun system =>
        s.set i (.running config system)
    | process => if process.isAlive then some (s.die i (some sig)) else none
  | .kill i => if (s.processes i).isAlive then some (s.die i none) else none

def machine (plan : Plan ι ν) (σ : Type) : Transition.Machine (Deployment plan σ) (DeploymentAction plan σ) := ⟨step⟩

/-- The state after some interleaving of the replicas, from a committed history. -/
def Reachable (history : List ν) (s : Deployment plan σ) : Prop := (machine plan σ).Reaches (init history) s

/-! ### One step -/

/-- What a step does to the process that takes it and to the database. -/
inductive Move (s : Deployment plan σ) : DeploymentAction plan σ → Deployment plan σ → Prop
  | configured {i : ι} {config : Config} (hi : s.processes i = .starting)
      (h : (plan.builds i).config (plan.hosts i) = .ok config) : Move s (.configure i) (s.set i (.connecting config))
  | unconfigured {i : ι} {error : MainError} (hi : s.processes i = .starting)
      (h : (plan.builds i).config (plan.hosts i) = .error error) :
      Move s (.configure i) (s.set i (.failed (.config error)))
  | connected {i : ι} {config : Config} (hi : s.processes i = .connecting config) :
      Move s (.connect i (.ok ())) (s.set i (.migrating config))
  | fleet {a : FleetAction ι} {config : Config} {fleet : Fleet ι ν}
      (hi : s.processes a.replica = .migrating config)
      (h : Rollout.step plan.missing plan.migrations s.fleet a = some fleet) : Move s (.fleet a) { s with fleet }
  | migrated {i : ι} {config : Config} (hi : s.processes i = .migrating config) (hr : s.fleet.replicas i = .returned) :
      Move s (.migrated i) (s.set i (.building config))
  | built {i : ι} {inner : Except String Unit} {server : BuiltCron} {config : Config}
      (hi : s.processes i = .building config) (h : (plan.builds i).cron plan.api inner = .ok server) :
      Move s (.build i inner) (s.set i (.installing config))
  | installed {i : ι} {config : Config} (hi : s.processes i = .installing config) :
      Move s (.install i (.ok ()) (.ok ())) (s.set i (.running config .init))
  | system {i : ι} {a : DeploymentAction plan σ} {b : SystemAction (plan.Key i) σ} {config : Config}
      {system system' : System (plan.Key i) σ} (hi : s.processes i = .running config system)
      (h : system.step (apiServer config) (plan.builds i).job (plan.stop i) b = some system') :
      Move s a (s.set i (.running config system'))
  | failed {i : ι} {a : DeploymentAction plan σ} {error : AnyhowError} (hi : (s.processes i).isAlive = true)
      (hn : ∀ config system, s.processes i ≠ .running config system)
      (hr : ∀ config, s.processes i = .migrating config → (s.fleet.replicas i).isOver = true) :
      Move s a (s.set i (.failed (.context error)))
  | died {i : ι} {a : DeploymentAction plan σ} {sig : Option Signal} (hi : (s.processes i).isAlive = true)
      (hn : sig.isSome → ∀ config system, s.processes i ≠ .running config system) : Move s a (s.die i sig)

variable {s s' : Deployment plan σ} {a : DeploymentAction plan σ}

theorem step_cases (h : s.step a = some s') : Move s a s' := by
  cases a with
  | configure i =>
    simp only [step] at h
    split at h
    · next hi =>
      split at h
      · next config hc => cases h; exact .configured hi hc
      · next error hc => cases h; exact .unconfigured hi hc
    · cases h
  | connect i result =>
    simp only [step] at h
    split at h
    · next config hi => cases h; exact .connected hi
    · next config error hi => cases h; exact .failed (by rw [hi]; rfl) (by simp [hi]) (by simp [hi])
    · cases h
  | fleet a =>
    simp only [step] at h
    split at h
    · next config hi =>
      simp only [Option.ite_none_left_eq_some, Option.map_eq_some_iff] at h
      obtain ⟨-, fleet, hf, rfl⟩ := h
      exact .fleet hi hf
    · cases h
  | migrated i =>
    simp only [step] at h
    split at h
    · next config hi hr => cases h; exact .migrated hi hr
    · next config error committed hi hr =>
      cases h
      exact .failed (by rw [hi]; rfl) (by simp [hi]) fun _ _ => by rw [hr]; rfl
    · cases h
  | build i inner =>
    simp only [step] at h
    split at h
    · next config hi =>
      split at h
      · next server hc => cases h; exact .built hi hc
      · next error hc => cases h; exact .failed (by rw [hi]; rfl) (by simp [hi]) (by simp [hi])
    · cases h
  | install i sigint sigterm =>
    simp only [step] at h
    split at h
    · next config hi =>
      split at h
      · cases h; exact .failed (by rw [hi]; rfl) (by simp [hi]) (by simp [hi])
      · cases h; exact .failed (by rw [hi]; rfl) (by simp [hi]) (by simp [hi])
      · cases h; exact .installed hi
    · cases h
  | system i a =>
    simp only [step] at h
    split at h
    · next config system hi =>
      obtain ⟨system', hs, rfl⟩ := Option.map_eq_some_iff.1 h
      exact .system hi hs
    · cases h
  | signal i sig =>
    simp only [step] at h
    split at h
    · next config system hi =>
      obtain ⟨system', hs, rfl⟩ := Option.map_eq_some_iff.1 h
      exact .system hi hs
    · next hn =>
      simp only [Option.ite_none_right_eq_some, Option.some.injEq] at h
      obtain ⟨hi, rfl⟩ := h
      exact .died hi fun _ => hn
  | kill i =>
    simp only [step, Option.ite_none_right_eq_some, Option.some.injEq] at h
    obtain ⟨hi, rfl⟩ := h
    exact .died hi (by simp)

/-! ### The invariant -/

variable {history : List ν} {i : ι}

/-- What a process has behind it, next to its part in the database. -/
def Fits (plan : Plan ι ν) (i : ι) (replica : Replica ν) : Process (plan.Key i) σ → Prop
  | .starting => replica = .booting
  | .connecting config => replica = .booting ∧ (plan.builds i).config (plan.hosts i) = .ok config
  | .migrating config => (plan.builds i).config (plan.hosts i) = .ok config
  | .building config => replica = .returned ∧ (plan.builds i).config (plan.hosts i) = .ok config
  | .installing config => replica = .returned ∧ (plan.builds i).config (plan.hosts i) = .ok config ∧
      Registrable plan.api 0 0 (plan.builds i).roster
  | .running config system => replica = .returned ∧ (plan.builds i).config (plan.hosts i) = .ok config ∧
      Registrable plan.api 0 0 (plan.builds i).roster ∧
        System.Reachable (apiServer config) (plan.builds i).job (plan.stop i) system
  | .failed (.config error) => replica = .booting ∧ (plan.builds i).config (plan.hosts i) = .error error
  | .failed (.context _) | .killed _ => replica.holds = false

omit [DecidableEq ι] [DecidableEq ν] in
/-- Only a process at its migrations can hold the lock. -/
private theorem Fits.migrating {replica : Replica ν} {process : Process (plan.Key i) σ}
    (h : Fits plan i replica process) (hholds : replica.holds = true) : ∃ config, process = .migrating config := by
  cases process with
  | migrating config => exact ⟨config, rfl⟩
  | starting => rw [show replica = .booting from h] at hholds; cases hholds
  | connecting config | building config | installing config | running config system =>
    rw [h.1] at hholds
    cases hholds
  | failed error =>
    cases error with
    | config error => rw [h.1] at hholds; cases hholds
    | context error => rw [show replica.holds = false from h] at hholds; cases hholds
  | killed sig => rw [show replica.holds = false from h] at hholds; cases hholds

def DeploymentInv (s : Deployment plan σ) : Prop := ∀ i, Fits plan i (s.fleet.replicas i) (s.processes i)

omit [DecidableEq ι] [DecidableEq ν] in
private theorem DeploymentInv.fits {process : Process (plan.Key i) σ} (hs : DeploymentInv s)
    (h : s.processes i = process) : Fits plan i (s.fleet.replicas i) process := h ▸ hs i

omit [DecidableEq ν] in
private theorem DeploymentInv.set {process : Process (plan.Key i) σ} (hs : DeploymentInv s)
    (h : Fits plan i (s.fleet.replicas i) process) : DeploymentInv (s.set i process) := fun j => by
  by_cases hj : j = i
  · subst hj
    simpa [Deployment.set] using h
  · simpa [Deployment.set, Function.update_of_ne hj] using hs j

omit [DecidableEq ι] [DecidableEq ν] in
private theorem holds_of_isOver {replica : Replica ν} (h : replica.isOver = true) : replica.holds = false := by
  cases replica <;> simp_all [Replica.isOver, Replica.holds]

private theorem fleet_die (sig : Option Signal) (h : (s.fleet.replicas i).isOver = false) :
    Rollout.step plan.missing plan.migrations s.fleet (.crash i) = some (s.die i sig).fleet ∧
      (s.die i sig).fleet = (s.fleet.set i (.crashed (s.fleet.replicas i).hasCommitted)).release i := by
  have hcrash : Rollout.step plan.missing plan.migrations s.fleet (.crash i) =
      some ((s.fleet.set i (.crashed (s.fleet.replicas i).hasCommitted)).release i) := by
    simp [Rollout.step, Fleet.step, h]
  simp [die, hcrash]

/-- A transaction that is over is left alone, and one that is not is over then. -/
private theorem die_fleet (s : Deployment plan σ) (i : ι) (sig : Option Signal) :
    ((s.die i sig).fleet = s.fleet ∨
      Rollout.step plan.missing plan.migrations s.fleet (.crash i) = some (s.die i sig).fleet) ∧
        ((s.die i sig).fleet.replicas i).holds = false := by
  cases hover : (s.fleet.replicas i).isOver with
  | true =>
    have hnone : Rollout.step plan.missing plan.migrations s.fleet (.crash i) = none := by
      simp [Rollout.step, Fleet.step, hover]
    simp [die, hnone, holds_of_isOver hover]
  | false =>
    obtain ⟨hcrash, hfleet⟩ := fleet_die sig hover
    exact ⟨.inr hcrash, by simp [hfleet, Replica.holds]⟩

private theorem DeploymentInv.step (hs : DeploymentInv s) (h : s.step a = some s') : DeploymentInv s' := by
  cases step_cases h with
  | configured hi hc => exact hs.set ⟨hs.fits hi, hc⟩
  | unconfigured hi hc => exact hs.set ⟨hs.fits hi, hc⟩
  | connected hi => exact hs.set (hs.fits hi).2
  | @fleet a config fleet hi hf =>
    intro j
    by_cases hj : j = a.replica
    · subst hj
      have hconfig := hs.fits hi
      dsimp only
      rw [hi]
      exact hconfig
    · dsimp only
      rw [Rollout.replicas_of_ne hf hj]
      exact hs j
  | migrated hi hr => exact hs.set ⟨hr, hs.fits hi⟩
  | built hi hc => exact hs.set ⟨(hs.fits hi).1, (hs.fits hi).2, ((plan.builds _).cron_iff plan.api).1 ⟨_, _, hc⟩⟩
  | installed hi =>
    obtain ⟨hr, hconfig, hcron⟩ := hs.fits hi
    exact hs.set ⟨hr, hconfig, hcron, Transition.Machine.Reaches.refl _⟩
  | system hi hstep =>
    obtain ⟨hr, hconfig, hcron, hreach⟩ := hs.fits hi
    exact hs.set ⟨hr, hconfig, hcron, hreach.tail hstep⟩
  | @failed i _ error _ _ hr =>
    refine hs.set (show (s.fleet.replicas i).holds = false from ?_)
    by_contra hholds
    obtain ⟨config, hp⟩ := (hs i).migrating (by simpa using hholds)
    exact hholds (holds_of_isOver (hr config hp))
  | @died i _ sig hi hn =>
    obtain ⟨hfleet, hholds⟩ := die_fleet s i sig
    intro j
    by_cases hj : j = i
    · subst hj
      simpa [die, Deployment.set, Fits] using hholds
    · have hprocess : (s.die i sig).processes j = s.processes j := by
        simp [die, Deployment.set, Function.update_of_ne hj]
      have hreplica : (s.die i sig).fleet.replicas j = s.fleet.replicas j := by
        rcases hfleet with heq | hcrash
        · rw [heq]
        · exact Rollout.replicas_of_ne hcrash hj
      rw [hprocess, hreplica]
      exact hs j

private theorem Reachable.deploymentInv (h : Reachable history s) : DeploymentInv s :=
  Transition.Machine.Reaches.invariant h (fun _ _ _ => DeploymentInv.step) fun _ => rfl

/-- The database sees a rollout. -/
private theorem reaches_fleet (h : (machine plan σ).Reaches s s') :
    (Rollout.machine plan.missing plan.migrations).Reaches s.fleet s'.fleet := by
  refine h.project Deployment.fleet fun s a s' h => ?_
  cases step_cases h with
  | fleet _ hf => exact .inr ⟨_, hf⟩
  | @died i _ sig => exact (die_fleet s i sig).1.imp_right fun hcrash => ⟨.crash i, hcrash⟩
  | _ => exact .inl rfl

/-- A step of a process that is up is one of its application, or it is killed by what nobody can handle. -/
private theorem process_cases (h : Move s a s') (i : ι) : s'.processes i = s.processes i ∨
    ((s.processes i).isAlive = true ∧ ∀ config system, s.processes i ≠ .running config system) ∨
    (∃ config system system', s.processes i = .running config system ∧ s'.processes i = .running config system' ∧
      (System.machine (apiServer config) (plan.builds i).job (plan.stop i)).Next system system') ∨
    ((s.processes i).isAlive = true ∧ s'.processes i = .killed none) := by
  have hother : ∀ {k process}, k ≠ i → (s.set k process).processes i = s.processes i := fun hk => by
    simp [Deployment.set, Function.update_of_ne (Ne.symm hk)]
  have hboot : ∀ {k process},
      (s.processes k).isAlive = true ∧ (∀ config system, s.processes k ≠ .running config system) →
      (s.set k process).processes i = s.processes i ∨
        ((s.processes i).isAlive = true ∧ ∀ config system, s.processes i ≠ .running config system) := by
    intro k process hk
    by_cases hki : k = i
    · subst hki
      exact .inr hk
    · exact .inl (hother hki)
  cases h with
  | configured hi | unconfigured hi | connected hi | migrated hi | built hi | installed hi =>
    exact (hboot ⟨by rw [hi]; rfl, by simp [hi]⟩).imp_right .inl
  | fleet => exact .inl rfl
  | @system k _ b config system system' hi hstep =>
    by_cases hki : k = i
    · subst hki
      exact .inr (.inr (.inl ⟨config, system, system', hi, by simp [Deployment.set], b, hstep⟩))
    · exact .inl (hother hki)
  | failed hi hn => exact (hboot ⟨hi, hn⟩).imp_right .inl
  | @died k _ sig hi hn =>
    by_cases hki : k = i
    · subst hki
      cases sig with
      | none => exact .inr (.inr (.inr ⟨hi, by simp [die, Deployment.set]⟩))
      | some sig => exact .inr (.inl ⟨hi, hn rfl⟩)
    · exact .inl (hother hki)

/-- A process that is up goes on as its application does, until it is killed by what nobody can handle. -/
private theorem stays_up {config : Config} {system : System (plan.Key i) σ}
    (hi : s.processes i = .running config system) (h : (machine plan σ).Reaches s s') :
    (∃ system', s'.processes i = .running config system' ∧
      (System.machine (apiServer config) (plan.builds i).job (plan.stop i)).Reaches system system') ∨
    s'.processes i = .killed none := by
  refine h.invariant (P := fun t => (∃ system', t.processes i = .running config system' ∧
    (System.machine (apiServer config) (plan.builds i).job (plan.stop i)).Reaches system system') ∨
      t.processes i = .killed none) (fun t a t' ht hstep => ?_) (.inl ⟨system, hi, .refl _⟩)
  have hcases := process_cases (step_cases hstep) i
  rcases ht with ⟨u, hu, hreach⟩ | hk
  · rcases hcases with heq | ⟨-, hn⟩ | ⟨config', u', v, hu', hv, hnext⟩ | ⟨-, hk⟩
    · exact .inl ⟨u, heq.trans hu, hreach⟩
    · exact absurd hu (hn config u)
    · rw [hu] at hu'
      cases hu'
      exact .inl ⟨v, hv, Relation.ReflTransGen.tail hreach hnext⟩
    · exact .inr hk
  · -- nothing happens to it any more
    rcases hcases with heq | ⟨hi, -⟩ | ⟨_, _, _, hu, -⟩ | ⟨hi, -⟩
    · exact .inr (heq.trans hk)
    · rw [hk] at hi; cases hi
    · rw [hk] at hu; cases hu
    · rw [hk] at hi; cases hi

/-! ### The law -/

/-- What `main` promises of its steps, whatever the replicas are made of and whatever becomes of them. -/
structure DeploymentLaw (history : List ν) (s : Deployment plan σ) : Prop where
  -- A source that cannot be read aborts the boot before anything starts.
  aborted : ∀ i error, s.processes i = .failed (.config error) → s.fleet.replicas i = .booting
  -- Whoever is killed, the schema is migrated or not, never half-way, ...
  whole : s.fleet.history = history ∨ ∃ i, s.fleet.history = plan.migrations i
  -- ... and only a process that is at its migrations is in the way of another one.
  free : ∀ i, s.fleet.lock = some i → ∃ config, s.processes i = .migrating config
  -- A roster that does not register aborts the boot; what comes up is the application of its own configuration, ...
  up : ∀ i config system, s.processes i = .running config system →
    (plan.builds i).config (plan.hosts i) = .ok config ∧ Registrable plan.api 0 0 (plan.builds i).roster ∧
      System.Reachable (apiServer config) (plan.builds i).job (plan.stop i) system
  -- ... on the schema it was compiled for, as long as it is up and whoever else boots meanwhile, ...
  schema : ∀ i config system, s.processes i = .running config system → ∀ s', (machine plan σ).Reaches s s' →
    plan.migrations i <+: s'.fleet.history
  -- ... and no signal it can handle takes it down before it comes to its own end.
  graceful : ∀ i config system, s.processes i = .running config system → ∀ s', (machine plan σ).Reaches s s' →
    (∃ system', s'.processes i = .running config system' ∧
      (System.machine (apiServer config) (plan.builds i).job (plan.stop i)).Reaches system system') ∨
    s'.processes i = .killed none

/-- The law holds over every interleaving of every set of replicas whose builds only append migrations. -/
theorem deployment_law
    (hmissing : ∀ migrations applied, plan.missing migrations applied = none ↔ applied ⊆ migrations)
    (hn : ∀ i, (plan.migrations i).Nodup) (hb : Rollout.AppendOnly plan.migrations history)
    (h : Reachable history s) : DeploymentLaw history s := by
  have hs := h.deploymentInv
  have hfleet : Rollout.Reachable plan.missing plan.migrations history s.fleet := reaches_fleet h
  have hrollout := Rollout.rolloutLaw_of_appendOnly hmissing hn hb hfleet
  refine ⟨fun i error hi => (hs.fits hi).1, ?_, fun i hl => ?_, fun i config system hi => (hs.fits hi).2,
    fun i config system hi s' h' => hrollout.serving i (hs.fits hi).1 _ (reaches_fleet h'),
    fun i config system hi s' h' => stays_up hi h'⟩
  · exact hrollout.aligned.imp_right fun ⟨i, _, he⟩ => ⟨i, he⟩
  · exact (hs i).migrating (((hfleet.rolloutInv hmissing hn hb).exclusive i).2 hl)

/-- An old build and a new one on the same host. -/
def upgrade : Plan Bool String where
  builds i := ⟨Host.application, "1.1.1", Rollout.twoBuilds ["a"] ["a", "b"] i, roster⟩
  hosts _ := ⟨fun _ => [], [], .absent, [("APP_DATABASE__HOST", "db")]⟩
  stop _ := .ok ()
  api := ⟨fun _ => none, fun _ _ => none⟩
  missing := Rollout.missingFiles

theorem appendOnly_upgrade : Rollout.AppendOnly upgrade.migrations [] := by
  refine fun i _ => ⟨List.nil_prefix, ?_⟩
  revert i
  decide

/-- The way of a replica to the first of its migrations. -/
def entering (i : Bool) : List (DeploymentAction upgrade Unit) :=
  [.configure i, .connect i (.ok ()), .fleet (.begin i), .fleet (.lock i), .fleet (.read i), .fleet (.exec i)]

/-- The way from the last of them to the application. -/
def leaving (i : Bool) : List (DeploymentAction upgrade Unit) :=
  [.fleet (.commit i), .fleet (.finish i), .migrated i, .build i (.ok ()), .install i (.ok ()) (.ok ())]

/-- The new build is stopped in the middle of its migrations, next to the old one that is up. -/
theorem deployment_law_upgrade : ∃ s,
    (machine upgrade Unit).run (init []) (entering false ++ leaving false ++ entering true ++ [.signal true .sigterm]) =
      some s ∧ s.fleet.history = ["a"] ∧ s.fleet.lock = none ∧ DeploymentLaw [] s := by
  have hrun : (machine upgrade Unit).run (init [])
    (entering false ++ leaving false ++ entering true ++ [.signal true .sigterm]) = some _ := rfl
  exact ⟨_, hrun, rfl, rfl, deployment_law (fun _ _ => Rollout.missingFiles_eq_none) (by decide) appendOnly_upgrade
    (Transition.Machine.reaches_of_run hrun)⟩

/-! ### Who can boot -/

/-- What a replica does to the database by itself its process does at its migrations. -/
private theorem reaches_migrating {t : Fleet ι ν} {config : Config} (hi : s.processes i = .migrating config)
    (h : (Rollout.machine plan.missing plan.migrations).ReachesBy (Rollout.Steps i) s.fleet t) :
    (machine plan σ).Reaches s { s with fleet := t } := by
  have hstep : ∀ (t : Fleet ι ν) (a : FleetAction ι) (t' : Fleet ι ν) (u : Deployment plan σ),
      u = { s with fleet := t } → Rollout.Steps i t a →
      (Rollout.machine plan.missing plan.migrations).step t a = some t' →
      ∃ v, (machine plan σ).ReachesBy (fun _ _ => True) u v ∧ v = { s with fleet := t' } := by
    rintro t a t' _ rfl ⟨rfl, ha⟩ h
    have h : Rollout.step plan.missing plan.migrations t a = some t' := h
    refine ⟨_, .head (a := .fleet a) trivial ?_ (.refl _), rfl⟩
    simp [machine, step, hi, ha, h]
  obtain ⟨v, hv, rfl⟩ := h.simulate hstep rfl
  exact hv.reaches

/-- A replica comes up by itself when nobody holds the lock. -/
private theorem comes_up {config : Config} {inner : Except String Unit} {server : BuiltCron}
    (hmissing : ∀ migrations applied, plan.missing migrations applied = none ↔ applied ⊆ migrations)
    (hi : s.processes i = .starting) (hr : s.fleet.replicas i = .booting) (hl : s.fleet.lock = none)
    (hconfig : (plan.builds i).config (plan.hosts i) = .ok config)
    (hcron : (plan.builds i).cron plan.api inner = .ok server) (hsub : s.fleet.history ⊆ plan.migrations i) :
    ∃ s', (machine plan σ).Reaches s s' ∧ s'.processes i = .running config .init := by
  obtain ⟨t, t', ht, -, hcommit, -, hreplicas⟩ := Rollout.boots_alone hmissing hr hl hsub
  have hfinish : Rollout.step plan.missing plan.migrations t' (.finish i) = some (t'.set i .returned) := by
    simp [Rollout.step, Fleet.step, hreplicas]
  have hfleet : (Rollout.machine plan.missing plan.migrations).ReachesBy (Rollout.Steps i) s.fleet
      (t'.set i .returned) :=
    ht.trans (.head (a := .commit i) ⟨rfl, rfl⟩ hcommit (.head (a := .finish i) ⟨rfl, rfl⟩ hfinish (.refl _)))
  have hbefore : (machine plan σ).run s [.configure i, .connect i (.ok ())] = some (s.set i (.migrating config)) := by
    simp [Transition.Machine.run, machine, step, Deployment.set, hi, hconfig]
  have hmigrated : (machine plan σ).Reaches (s.set i (.migrating config))
      { s.set i (.migrating config) with fleet := t'.set i .returned } :=
    reaches_migrating (show (s.set i (.migrating config)).processes i = .migrating config by simp [Deployment.set])
      hfleet
  have hafter : (machine plan σ).run { s.set i (.migrating config) with fleet := t'.set i .returned }
      [.migrated i, .build i inner, .install i (.ok ()) (.ok ())] =
        some { s.set i (.running config .init) with fleet := t'.set i .returned } := by
    simp [Transition.Machine.run, machine, step, Deployment.set, hcron]
  have hbooted := hmigrated.trans (Transition.Machine.reaches_of_run hafter)
  refine ⟨_, (Transition.Machine.reaches_of_run hbefore).trans hbooted, ?_⟩
  simp [Deployment.set]

/-- Who holds the lock can be killed, and nobody else notices. -/
private theorem unlocks (hexclusive : Rollout.Exclusive s.fleet) (hs : DeploymentInv s)
    (hi : s.processes i = .starting) :
    ∃ t, (machine plan σ).Reaches s t ∧ t.processes i = .starting ∧ t.fleet.replicas i = .booting ∧
      t.fleet.lock = none ∧ t.fleet.history = s.fleet.history := by
  have hr : s.fleet.replicas i = .booting := hs.fits hi
  cases hl : s.fleet.lock with
  | none => exact ⟨s, .refl s, hi, hr, hl, rfl⟩
  | some j =>
    have hholds : (s.fleet.replicas j).holds = true := (hexclusive j).2 hl
    obtain ⟨config, hj⟩ := (hs j).migrating hholds
    have hne : i ≠ j := by
      rintro rfl
      rw [hi] at hj
      cases hj
    have hover : (s.fleet.replicas j).isOver = false := by
      by_contra hover
      rw [holds_of_isOver (by simpa using hover)] at hholds
      cases hholds
    have hkill : (machine plan σ).step s (.kill j) = some (s.die j none) := by
      simp [machine, step, hj, Process.isAlive]
    obtain ⟨-, hfleet⟩ := fleet_die none hover
    refine ⟨s.die j none, .tail (.refl s) hkill, ?_, ?_, ?_, ?_⟩
    · simp [die, Deployment.set, Function.update_of_ne hne, hi]
    · simp [hfleet, Function.update_of_ne hne, hr]
    · simp [hfleet, Fleet.release, hl]
    · simp [hfleet]

/-- Wherever the deployment has got to, a replica that is still to start can come up iff its configuration loads, its
roster registers, and its build knows what is applied: whoever is in the way can be killed. -/
theorem boots_iff
    (hmissing : ∀ migrations applied, plan.missing migrations applied = none ↔ applied ⊆ migrations)
    (hn : ∀ i, (plan.migrations i).Nodup) (hb : Rollout.AppendOnly plan.migrations history)
    (h : Reachable history s) (hi : s.processes i = .starting) :
    (∃ s' config system, (machine plan σ).Reaches s s' ∧ s'.processes i = .running config system) ↔
      (∃ config, (plan.builds i).config (plan.hosts i) = .ok config) ∧
        Registrable plan.api 0 0 (plan.builds i).roster ∧ s.fleet.history ⊆ plan.migrations i := by
  have hr : s.fleet.replicas i = .booting := h.deploymentInv.fits hi
  constructor
  · rintro ⟨s', config, system, hreach, hrun⟩
    obtain ⟨hreturned, hconfig, hcron, -⟩ :=
      (Reachable.deploymentInv (Transition.Machine.Reaches.trans h hreach)).fits hrun
    refine ⟨⟨config, hconfig⟩, hcron, ?_⟩
    by_contra hsub
    have hrollout := Rollout.rolloutLaw_of_appendOnly hmissing hn hb (reaches_fleet h)
    have hnever := hrollout.outdated i hsub (by rw [hr]; rfl) _ (reaches_fleet hreach)
    rw [hreturned] at hnever
    cases hnever
  · rintro ⟨⟨config, hconfig⟩, hregistrable, hsub⟩
    obtain ⟨inner, server, hcron⟩ := ((plan.builds i).cron_iff plan.api).2 hregistrable
    have hrollout := Rollout.Reachable.rolloutInv hmissing hn hb (reaches_fleet h)
    obtain ⟨t, hst, hit, hrt, hlt, hht⟩ := unlocks hrollout.exclusive h.deploymentInv hi
    obtain ⟨s', hts, hrun⟩ := comes_up hmissing hit hrt hlt hconfig hcron (by rwa [hht])
    exact ⟨s', config, _, hst.trans hts, hrun⟩

/-- The old build can come up while the new one has the lock, and never again once the new one is up. -/
theorem boots_iff_upgrade :
    (∃ s, (machine upgrade Unit).run (init []) (entering true) = some s ∧ s.fleet.lock = some true ∧
      ∃ s' config system, (machine upgrade Unit).Reaches s s' ∧ s'.processes false = .running config system) ∧
    ∃ s, (machine upgrade Unit).run (init []) (entering true ++ [.fleet (.exec true)] ++ leaving true) = some s ∧
      ¬ ∃ s' config system, (machine upgrade Unit).Reaches s s' ∧ s'.processes false = .running config system := by
  have hrun : (machine upgrade Unit).run (init []) (entering true) = some _ := rfl
  have hrun' : (machine upgrade Unit).run (init []) (entering true ++ [.fleet (.exec true)] ++ leaving true) =
    some _ := rfl
  refine ⟨⟨_, hrun, rfl, (boots_iff (fun _ _ => Rollout.missingFiles_eq_none) (by decide) appendOnly_upgrade
    (Transition.Machine.reaches_of_run hrun) rfl).2 ⟨⟨_, rfl⟩,
      (Build.cron_iff _ _).1 ⟨.ok (), _, rfl⟩, List.nil_subset _⟩⟩, _, hrun', fun hup => ?_⟩
  have hsub := ((boots_iff (fun _ _ => Rollout.missingFiles_eq_none) (by decide) appendOnly_upgrade
    (Transition.Machine.reaches_of_run hrun') rfl).1 hup).2.2
  exact absurd hsub (by decide)

end Deployment

end StarterHub
