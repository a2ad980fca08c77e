import StarterHub.Engine

/-!
# The cron server (`cron/src/server.rs`)

`Server::run` after its `start()` succeeded: parked on the shutdown future, then inside `JobScheduler::shutdown`,
then (when that returned `Ok`) inside the fenced wait on the tracker, then returned.  Its steps interleave with
those of the engine, which goes on creating, polling and ending ticks; the only assumption on it is that no
adapter closure is called once `JobScheduler::shutdown` has returned `Ok`.
-/

namespace StarterHub

def drainGrace : Nat := fromSecs 30

/-- How `Server::run` returns: the tracker emptied, the grace ran out, or `JobScheduler::shutdown` failed. -/
inductive CronExit where
  | drained | fenced | stopFailed (error : AnyhowError)
  deriving DecidableEq, Repr

/-- Where `Server::run` is; `told` is the instant at which the engine was told to stop, `fence` the deadline of the
wait on the tracker. -/
inductive CronPhase where
  | parked
  | stopping (told : Nat)
  | draining (told fence : Nat)
  | returned (told : Nat) (exit : CronExit)
  deriving DecidableEq, Repr

namespace CronPhase

/-- The engine may call adapter closures. -/
def ticking : CronPhase → Bool
  | parked | stopping _ | returned _ (.stopFailed _) => true
  | _ => false

def result : CronPhase → Option (Except AnyhowError Unit)
  | returned _ (.stopFailed error) => some (.error error)
  | returned _ _ => some (.ok ())
  | _ => none

end CronPhase

structure CronServer (ι : Type) where
  engine : Engine ι
  phase : CronPhase

/-- A step of the engine, the shutdown future resolving, `JobScheduler::shutdown` returning, or a poll of the
fenced wait. -/
inductive CronAction (ι : Type) where
  | engine (a : Action ι)
  | shutdown
  | stopped
  | wait
  deriving Repr

namespace Engine

variable {ι : Type}

/-- `TaskTracker::wait` on a closed tracker is ready: no tracked future is alive. -/
def idle (s : Engine ι) : Bool := s.ticks.all fun t => !t.state.isAlive

def trace (s : Engine ι) (event : Event) : Engine ι := { s with log := s.log ++ [event] }

theorem idle_eq_true {s : Engine ι} : s.idle = true ↔ ∀ t ∈ s.ticks, t.state.isAlive = false := by
  simp [idle]

theorem not_running_of_idle {s : Engine ι} (hs : s.idle = true) : ∀ t ∈ s.ticks, t.state.isRunning = false := by
  intro t ht
  have h := idle_eq_true.1 hs t ht
  cases hst : t.state <;> simp_all [TickState.isAlive, TickState.isRunning]

end Engine

namespace CronServer

variable {ι : Type}

/-- The engine is ticking, and `Server::run` has said so. -/
def init : CronServer ι := ⟨Engine.init.trace ⟨.info, "cron engine started", []⟩, .parked⟩

/-- An adapter closure is called only while the engine may still do so. -/
def allowed (s : CronServer ι) : Action ι → Bool
  | .create _ => s.phase.ticking
  | _ => true

variable [DecidableEq ι] (roster : ι → Job)

/-- `stop` is the result of `JobScheduler::shutdown`, an error by its `Display`. -/
def step (stop : Except String Unit) (s : CronServer ι) : CronAction ι → Option (CronServer ι)
  | .engine a =>
    if s.allowed a then (s.engine.step roster a).map fun engine => { s with engine } else none
  | .shutdown =>
    match s.phase with
    | .parked =>
      some ⟨s.engine.trace ⟨.info, "cron engine shutting down", []⟩, .stopping s.engine.now⟩
    | _ => none
  | .stopped =>
    match s.phase with
    | .stopping told =>
      match stop with
      | .error error =>
        some { s with phase := .returned told (.stopFailed ⟨"failed to stop the cron engine", [error]⟩) }
      | .ok () => some { s with phase := .draining told (s.engine.now + drainGrace) }
    | _ => none
  | .wait =>
    match s.phase with
    | .draining told fence =>
      match timeoutPoll fence s.engine.now (if s.engine.idle then some () else none) with
      | none => some s
      | some none =>
        some ⟨(s.engine.trace ⟨.warn, "jobs still in flight at the end of the drain grace; exiting anyway",
          [("grace", .duration drainGrace)]⟩).trace ⟨.info, "cron engine stopped", []⟩, .returned told .fenced⟩
      | some (some ()) =>
        some ⟨s.engine.trace ⟨.info, "cron engine stopped", []⟩, .returned told .drained⟩
    | _ => none

def machine (stop : Except String Unit) : Transition.Machine (CronServer ι) (CronAction ι) := ⟨step roster stop⟩

def Reachable (stop : Except String Unit) (s : CronServer ι) : Prop := (machine roster stop).Reaches init s

variable {roster} {stop : Except String Unit} {s s' : CronServer ι} {a : CronAction ι}

/-- A step of the server is a step of the engine, or it leaves the clock and the ticks alone and moves the phase. -/
theorem step_cases (h : step roster stop s a = some s') :
    (∃ b engine, a = .engine b ∧ s.allowed b ∧ s.engine.step roster b = some engine ∧
      s' = { s with engine }) ∨
    s' = s ∨
    (s'.engine.now = s.engine.now ∧ s'.engine.ticks = s.engine.ticks ∧
      ((s.phase = .parked ∧ s'.phase = .stopping s.engine.now) ∨
       (∃ told, s.phase = .stopping told ∧ stop = .ok () ∧
          s'.phase = .draining told (s.engine.now + drainGrace)) ∨
       (∃ told error, s.phase = .stopping told ∧ stop = .error error ∧
          s'.phase = .returned told (.stopFailed ⟨"failed to stop the cron engine", [error]⟩)) ∨
       (∃ told fence, s.phase = .draining told fence ∧ s.engine.idle = true ∧
          s'.phase = .returned told .drained) ∨
       (∃ told fence, s.phase = .draining told fence ∧ s.engine.idle = false ∧ fence ≤ s.engine.now ∧
          s'.phase = .returned told .fenced))) := by
  cases a with
  | engine b =>
    simp only [step, Option.ite_none_right_eq_some, Option.map_eq_some_iff] at h
    obtain ⟨hb, engine, he, rfl⟩ := h
    exact .inl ⟨b, engine, rfl, hb, he, rfl⟩
  | shutdown =>
    simp only [step] at h
    split at h
    · next hp =>
      simp only [Option.some.injEq] at h
      subst h
      exact .inr (.inr ⟨rfl, rfl, .inl ⟨hp, rfl⟩⟩)
    · cases h
  | stopped =>
    simp only [step] at h
    split at h
    · next told hp =>
      split at h
      · next error =>
        simp only [Option.some.injEq] at h
        subst h
        exact .inr (.inr ⟨rfl, rfl, .inr (.inr (.inl ⟨told, error, hp, rfl, rfl⟩))⟩)
      · simp only [Option.some.injEq] at h
        subst h
        exact .inr (.inr ⟨rfl, rfl, .inr (.inl ⟨told, hp, rfl, rfl⟩)⟩)
    · cases h
  | wait =>
    simp only [step] at h
    split at h
    · next told fence hp =>
      cases hi : s.engine.idle with
      | true =>
        simp only [hi, timeoutPoll, ↓reduceIte, Option.some.injEq] at h
        subst h
        exact .inr (.inr ⟨rfl, rfl, .inr (.inr (.inr (.inl ⟨told, fence, hp, rfl, rfl⟩)))⟩)
      | false =>
        by_cases hf : fence ≤ s.engine.now
        · simp only [hi, hf, timeoutPoll, Bool.false_eq_true, ↓reduceIte, Option.some.injEq] at h
          subst h
          exact .inr (.inr ⟨rfl, rfl, .inr (.inr (.inr (.inr ⟨told, fence, hp, rfl, hf, rfl⟩)))⟩)
        · simp only [hi, hf, timeoutPoll, Bool.false_eq_true, ↓reduceIte, Option.some.injEq] at h
          exact .inr (.inl h.symm)
    · cases h

end CronServer

end StarterHub
