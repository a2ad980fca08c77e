import StarterHub.Lib.Machine
import StarterHub.Job
import Mathlib.Logic.Function.Basic

/-!
# The cron engine

The engine holds one private gate per job and every tick future ever created; any action may come at any time, on
any tick, in any order.  `Move` says once what a step can do to a tick and to the gate of its job (`step_cases`);
the invariants of the engine are read off it.
-/

namespace StarterHub

structure Tick (ι : Type) where
  job : ι
  state : TickState
  deriving DecidableEq, Repr

/-- The ticking engine of a roster indexed by `ι`: the gate `into_cron_job` made for each job, every tick future
created so far, the clock and the telemetry. -/
structure Engine (ι : Type) where
  now : Nat
  gates : ι → Semaphore
  ticks : List (Tick ι)
  log : List Event

/-- What can happen next: time passes, the engine calls the adapter closure of the job `j`, or the tick `k` is
polled for the first time, polled again (its body polling to `body`), unwound by a panic of its body, or dropped
with its task. -/
inductive Action (ι : Type) where
  | elapse (d : Nat)
  | create (j : ι)
  | dispatch (k : Nat)
  | resume (k : Nat) (body : Option JobResult)
  | panic (k : Nat)
  | drop (k : Nat)
  deriving Repr

namespace Engine

variable {ι : Type}

/-- The engine after registration: every job has its own gate with one permit. -/
def init : Engine ι := ⟨0, fun _ => .new 1, [], []⟩

variable [DecidableEq ι] (roster : ι → Job)

/-- The tick `k` of the job `j` moves to `state`, leaving `gate` behind. -/
def settle (s : Engine ι) (k : Nat) (j : ι) (gate : Semaphore) (state : TickState) (events : List Event) :
    Engine ι :=
  { s with
    gates := Function.update s.gates j gate
    ticks := s.ticks.set k ⟨j, state⟩
    log := s.log ++ events }

def step (s : Engine ι) : Action ι → Option (Engine ι)
  | .elapse d => some { s with now := s.now + d }
  | .create j => some { s with ticks := s.ticks ++ [⟨j, .created⟩] }
  | .dispatch k =>
    match s.ticks[k]? with
    | some ⟨j, .created⟩ =>
      let (gate, state, events) := StarterHub.dispatch (roster j) s.now (s.gates j)
      some (s.settle k j gate state events)
    | _ => none
  | .resume k body =>
    match s.ticks[k]? with
    | some ⟨j, .running started permit⟩ =>
      match execute (roster j) started s.now body with
      | none => some s
      | some (how, events) => some (s.settle k j (dropPermit permit (s.gates j)) (.ended how) events)
    | _ => none
  | .panic k =>
    match s.ticks[k]? with
    | some ⟨j, .running _ permit⟩ => some (s.settle k j (dropPermit permit (s.gates j)) (.ended .panicked) [])
    | _ => none
  | .drop k =>
    match s.ticks[k]? with
    | some ⟨j, .created⟩ => some (s.settle k j (s.gates j) (.ended .dropped) [])
    | some ⟨j, .running _ permit⟩ => some (s.settle k j (dropPermit permit (s.gates j)) (.ended .dropped) [])
    | _ => none

def machine : Transition.Machine (Engine ι) (Action ι) := ⟨step roster⟩

/-- The state of the engine after some interleaving of its actions. -/
def Reachable (s : Engine ι) : Prop := (machine roster).Reaches init s

def inFlight (s : Engine ι) (j : ι) : Nat := s.ticks.countP fun t => decide (t.job = j) && t.state.isRunning

end Engine

/-! ### One step -/

/-- What a step does to one tick of `job` and to the gate of `job`, at the instant `now`. -/
inductive Move (job : Job) (now : Nat) (gate : Semaphore) : TickState → Semaphore → TickState → Prop
  | start (h : job.overlap = .allow) : Move job now gate .created gate (.running now false)
  | acquire {gate' : Semaphore} (h : job.overlap = .skip) (hg : gate.tryAcquire = some gate') :
      Move job now gate .created gate' (.running now true)
  | skip (h : job.overlap = .skip) (hg : gate.tryAcquire = none) :
      Move job now gate .created gate (.ended .skipped)
  | cancel : Move job now gate .created gate (.ended .dropped)
  | finish {started : Nat} {permit : Bool} {how : TickEnd} (hne : how ≠ .skipped) :
      Move job now gate (.running started permit) (dropPermit permit gate) (.ended how)

theorem execute_ne_skipped {job : Job} {started now : Nat} {body : Option JobResult} {how : TickEnd}
    {events : List Event} (h : execute job started now body = some (how, events)) : how ≠ .skipped := by
  unfold execute at h
  split at h
  · cases h
  all_goals
    simp only [Option.some.injEq, Prod.mk.injEq] at h
    obtain ⟨rfl, -⟩ := h
    simp

namespace Engine

variable {ι : Type} [DecidableEq ι] {roster : ι → Job} {s s' : Engine ι} {a : Action ι}

@[simp] theorem gates_settle (k : Nat) (j : ι) (gate : Semaphore) (state : TickState) (events : List Event) :
    (s.settle k j gate state events).gates = Function.update s.gates j gate := rfl

@[simp] theorem ticks_settle (k : Nat) (j : ι) (gate : Semaphore) (state : TickState) (events : List Event) :
    (s.settle k j gate state events).ticks = s.ticks.set k ⟨j, state⟩ := rfl

def owner (s : Engine ι) : Action ι → Option ι
  | .elapse _ => none
  | .create j => some j
  | .dispatch k | .resume k _ | .panic k | .drop k => s.ticks[k]?.map Tick.job

/-- The first poll of a tick is one of the moves out of `created`. -/
theorem dispatch_move (job : Job) (now : Nat) (gate : Semaphore) :
    Move job now gate .created (StarterHub.dispatch job now gate).1 (StarterHub.dispatch job now gate).2.1 := by
  unfold StarterHub.dispatch
  split
  · next h => exact .start h
  · next h =>
    split
    · next hg => exact .acquire h hg
    · next hg => exact .skip h hg

/-- A step of the engine lets time pass, creates a tick, changes nothing, or moves one tick and its gate. -/
theorem step_cases (h : step roster s a = some s') :
    (∃ d, a = .elapse d ∧ s' = { s with now := s.now + d }) ∨
    (∃ j, a = .create j ∧ s' = { s with ticks := s.ticks ++ [⟨j, .created⟩] }) ∨
    s' = s ∨
    ∃ k j state gate state' events, s.owner a = some j ∧ s.ticks[k]? = some ⟨j, state⟩ ∧
      Move (roster j) s.now (s.gates j) state gate state' ∧ s' = s.settle k j gate state' events := by
  cases a with
  | elapse d => exact .inl ⟨d, rfl, by simpa [step] using h.symm⟩
  | create j => exact .inr (.inl ⟨j, rfl, by simpa [step] using h.symm⟩)
  | dispatch k =>
    simp only [step] at h
    split at h
    · next j hk =>
      simp only [Option.some.injEq] at h
      exact .inr (.inr (.inr ⟨k, j, _, _, _, _, by simp [owner, hk], hk, dispatch_move _ _ _, h.symm⟩))
    · cases h
  | resume k body =>
    simp only [step] at h
    split at h
    · next j started permit hk =>
      split at h
      · exact .inr (.inr (.inl (by simpa using h.symm)))
      · next how events he =>
        simp only [Option.some.injEq] at h
        exact .inr (.inr (.inr ⟨k, j, _, _, _, _, by simp [owner, hk], hk, .finish (execute_ne_skipped he), h.symm⟩))
    · cases h
  | panic k =>
    simp only [step] at h
    split at h
    · next j started permit hk =>
      simp only [Option.some.injEq] at h
      exact .inr (.inr (.inr ⟨k, j, _, _, _, _, by simp [owner, hk], hk, .finish (by simp), h.symm⟩))
    · cases h
  | drop k =>
    simp only [step] at h
    split at h
    · next j hk =>
      simp only [Option.some.injEq] at h
      exact .inr (.inr (.inr ⟨k, j, _, _, _, _, by simp [owner, hk], hk, .cancel, h.symm⟩))
    · next j started permit hk =>
      simp only [Option.some.injEq] at h
      exact .inr (.inr (.inr ⟨k, j, _, _, _, _, by simp [owner, hk], hk, .finish (by simp), h.symm⟩))
    · cases h

end Engine

end StarterHub
