import StarterHub.Lib.Machine
import StarterHub.Runtime
import Mathlib.Logic.Function.Basic

/-!
# The process (`src/main.rs`)

`main` from the spawn of its two components on: the tasks themselves, `supervise` on each of them, the task that
turns signals into the cancellation of the token, and the fenced wait in `main`.  All of them interleave freely;
the process takes no step any more once it has returned or exited.
-/

namespace StarterHub

def shutdownGrace : Nat := fromSecs 45

inductive Component where
  | httpServer | cron
  deriving DecidableEq, Repr

def Component.name : Component → String
  | .httpServer => "http-server"
  | .cron => "cron"

/-- What a component's `JoinHandle` resolves to: its own result, or a `JoinError` by its `Display`. -/
inductive TaskEnd where
  | done (result : Except AnyhowError Unit)
  | panicked (joinError : String)

inductive Signal where
  | sigint | sigterm
  deriving DecidableEq, Repr

def Signal.name : Signal → String
  | .sigint => "SIGINT"
  | .sigterm => "SIGTERM"

/-- The process: running, returned from `main`, or gone through `std::process::exit`. -/
inductive Status where
  | running
  | returned (result : Except AnyhowError Unit)
  | exited (code : Nat)

/-- The exit status of the process; an error returned from `main` is `ExitCode::FAILURE`. -/
def Status.exitCode : Status → Option Nat
  | .running => none
  | .returned (.ok ()) => some 0
  | .returned (.error _) => some 1
  | .exited code => some code

/-- The result `supervise` makes of the end of a component. -/
def labeled (c : Component) : TaskEnd → Except AnyhowError Unit
  | .done (.ok ()) => .ok ()
  | .done (.error error) => .error (error.context (c.name ++ " failed"))
  | .panicked joinError => .error (AnyhowError.context ⟨joinError, []⟩ (c.name ++ " panicked"))

/-- The line of `supervise` about a component that failed. -/
def failureLine (c : Component) (error : AnyhowError) : Event :=
  ⟨.error, "component stopped with an error", [("component", .text c.name), ("error", .text error.alternate)]⟩

def failureLines (c : Component) : Except AnyhowError Unit → List Event
  | .ok () => []
  | .error error => [failureLine c error]

def resultAnd (api cron : Except AnyhowError Unit) : Except AnyhowError Unit :=
  match api with
  | .ok () => cron
  | .error error => .error error

/-- The state of the process.  `shutdown` is the token, by the instant at which it was cancelled; `pending` holds the
signals that are delivered but not yet received (a stream coalesces equal ones), `received` where the signal task
is, and `delivered` counts the signals sent to the process. -/
structure Main where
  now : Nat
  tasks : Component → Option TaskEnd
  supervised : Component → Option (Except AnyhowError Unit)
  shutdown : Option Nat
  pending : Signal → Bool
  delivered : Nat
  received : Nat
  log : List Event
  status : Status

/-- Time passing, a signal sent to the process, the signal task receiving one, a component ending, `supervise`
observing the end of a component, the two branches of the wait in `main`. -/
inductive MainAction where
  | elapse (d : Nat)
  | signal (sig : Signal)
  | recv (sig : Signal)
  | finish (c : Component) (how : TaskEnd)
  | observe (c : Component)
  | join
  | fence

namespace Main

def init : Main := ⟨0, fun _ => none, fun _ => none, none, fun _ => false, 0, 0, [], .running⟩

def trace (s : Main) (events : List Event) : Main := { s with log := s.log ++ events }

/-- `CancellationToken::cancel`, which is idempotent. -/
def cancel (s : Main) : Main := { s with shutdown := some (s.shutdown.getD s.now) }

/-- The signal task receives a signal: the first one orders the stop, the second one exits at once. -/
def onSignal (s : Main) (sig : Signal) : Main :=
  let s := { s with pending := Function.update s.pending sig false, received := s.received + 1 }
  if s.received = 1 then
    (s.trace [⟨.info, "received " ++ sig.name ++ ", shutting down", []⟩]).cancel
  else
    { s.trace [⟨.error, "second signal received, exiting immediately", []⟩] with status := .exited 130 }

/-- `supervise` with the end of its component at hand. -/
def supervise (s : Main) (c : Component) (how : TaskEnd) : Main :=
  let result := labeled c how
  { (s.trace (failureLines c result)).cancel with supervised := Function.update s.supervised c (some result) }

/-- What `main` does with the two results. -/
def returnWith (s : Main) (api cron : Except AnyhowError Unit) : Main :=
  match resultAnd api cron with
  | .error error => { s with status := .returned (.error error) }
  | .ok () => { s.trace [⟨.info, "shutdown complete", []⟩] with status := .returned (.ok ()) }

/-- The fence of the wait: the process exits while a component is still to be observed. -/
def exitFenced (s : Main) : Main :=
  { s.trace [⟨.error, "components still running after the shutdown grace, exiting",
      [("grace", .duration shutdownGrace)]⟩] with status := .exited 1 }

def act (s : Main) : MainAction → Option Main
  | .elapse d => some { s with now := s.now + d }
  | .signal sig =>
    some { s with pending := Function.update s.pending sig true, delivered := s.delivered + 1 }
  | .recv sig => if s.pending sig then some (s.onSignal sig) else none
  | .finish c how =>
    match s.tasks c with
    | none => some { s with tasks := Function.update s.tasks c (some how) }
    | some _ => none
  | .observe c =>
    match s.tasks c, s.supervised c with
    | some how, none => some (s.supervise c how)
    | _, _ => none
  | .join =>
    match s.supervised .httpServer, s.supervised .cron with
    | some api, some cron => some (s.returnWith api cron)
    | _, _ => none
  | .fence =>
    -- `join!` is ready in the poll that observes the second end, so the fence never sees both results
    match s.shutdown, s.supervised .httpServer, s.supervised .cron with
    | some _, some _, some _ => none
    | some cancelled, _, _ => if cancelled + shutdownGrace ≤ s.now then some s.exitFenced else none
    | none, _, _ => none

def step (s : Main) (a : MainAction) : Option Main :=
  match s.status with
  | .running => s.act a
  | _ => none

def machine : Transition.Machine Main MainAction := ⟨step⟩

def Reachable (s : Main) : Prop := machine.Reaches init s

/-! ### One step -/

/-- What the actions do to the running process. -/
inductive Move (s : Main) : MainAction → Main → Prop
  | elapse (d : Nat) : Move s (.elapse d) { s with now := s.now + d }
  | signal (sig : Signal) : Move s (.signal sig)
      { s with pending := Function.update s.pending sig true, delivered := s.delivered + 1 }
  | recv {sig : Signal} (h : s.pending sig = true) : Move s (.recv sig) (s.onSignal sig)
  | finish {c : Component} {how : TaskEnd} (h : s.tasks c = none) : Move s (.finish c how)
      { s with tasks := Function.update s.tasks c (some how) }
  | observe {c : Component} {how : TaskEnd} (h : s.tasks c = some how) (hs : s.supervised c = none) :
      Move s (.observe c) (s.supervise c how)
  | join {api cron : Except AnyhowError Unit} (ha : s.supervised .httpServer = some api)
      (hc : s.supervised .cron = some cron) : Move s .join (s.returnWith api cron)
  | fence {cancelled : Nat} {c : Component} (h : s.shutdown = some cancelled)
      (hn : cancelled + shutdownGrace ≤ s.now) (hc : s.supervised c = none) : Move s .fence s.exitFenced

variable {s s' : Main} {a : MainAction}

theorem step_of_running (h : s.status = .running) : s.step a = s.act a := by simp [step, h]

private theorem fence_cases (h : s.act .fence = some s') :
    ∃ cancelled c, s.shutdown = some cancelled ∧ cancelled + shutdownGrace ≤ s.now ∧ s.supervised c = none ∧
      s' = s.exitFenced := by
  simp only [act] at h
  split at h
  · cases h
  · next cancelled hc hno =>
    simp only [Option.ite_none_right_eq_some, Option.some.injEq] at h
    obtain ⟨hn, rfl⟩ := h
    cases ha : s.supervised .httpServer with
    | none => exact ⟨cancelled, .httpServer, hc, hn, ha, rfl⟩
    | some api =>
      cases hk : s.supervised .cron with
      | none => exact ⟨cancelled, .cron, hc, hn, hk, rfl⟩
      | some cron => exact (hno api cron ha hk).elim
  · cases h

theorem step_cases (h : s.step a = some s') : s.status = .running ∧ Move s a s' := by
  unfold step at h
  split at h
  · next hrun =>
    refine ⟨hrun, ?_⟩
    cases a with
    | elapse d =>
      simp only [act, Option.some.injEq] at h
      subst h
      exact .elapse d
    | signal sig =>
      simp only [act, Option.some.injEq] at h
      subst h
      exact .signal sig
    | recv sig =>
      simp only [act, Option.ite_none_right_eq_some, Option.some.injEq] at h
      obtain ⟨hp, rfl⟩ := h
      exact .recv hp
    | finish c how =>
      simp only [act] at h
      split at h
      · next ht =>
        simp only [Option.some.injEq] at h
        subst h
        exact .finish ht
      · cases h
    | observe c =>
      simp only [act] at h
      split at h
      · next how ht hs =>
        simp only [Option.some.injEq] at h
        subst h
        exact .observe ht hs
      · cases h
    | join =>
      simp only [act] at h
      split at h
      · next api cron ha hc =>
        simp only [Option.some.injEq] at h
        subst h
        exact .join ha hc
      · cases h
    | fence =>
      obtain ⟨cancelled, c, hc, hn, hs, rfl⟩ := fence_cases h
      exact .fence hc hn hs
  · cases h

theorem now_of_step (h : s.step a = some s') (ha : ∀ d, a ≠ .elapse d) : s'.now = s.now := by
  obtain ⟨-, hm⟩ := step_cases h
  cases hm with
  | elapse d => exact absurd rfl (ha d)
  | recv => unfold onSignal; dsimp; split <;> rfl
  | join => unfold returnWith; split <;> rfl
  | _ => rfl

end Main

end StarterHub
