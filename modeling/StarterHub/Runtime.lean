/-!
# The runtime under the crates

Time, telemetry and error values shared by every crate, and the two pieces of tokio whose exact behaviour the
proofs rest on: `Semaphore::try_acquire` and the order in which `tokio::time::timeout` looks at its future and at
its deadline.
-/

namespace StarterHub

/-! ### Time -/

/-- `Duration::from_secs`.  Durations and instants are counted in nanoseconds. -/
def fromSecs (secs : Nat) : Nat := secs * 1000000000

/-- `tokio::time::timeout`, polled at `now`: the inner future is polled first, and the deadline counts only while
that one is pending.  `none` is `Poll::Pending`, `some none` is `Err(Elapsed)`. -/
def timeoutPoll {α : Type} (deadline now : Nat) : Option α → Option (Option α)
  | some value => some (some value)
  | none => if deadline ≤ now then some none else none

/-! ### Errors -/

/-- A `sea_orm::DbErr`, as far as the crates look at it: its `Display`. -/
structure DbErr where
  message : String
  deriving DecidableEq, Repr

/-- An `anyhow::Error`: the outermost message and the chain of causes under it. -/
structure AnyhowError where
  message : String
  causes : List String
  deriving DecidableEq, Repr

namespace AnyhowError

/-- `{error:#}`: the whole chain. -/
def alternate (error : AnyhowError) : String := ": ".intercalate (error.message :: error.causes)

def context (error : AnyhowError) (message : String) : AnyhowError :=
  ⟨message, error.message :: error.causes⟩

end AnyhowError

/-! ### Telemetry -/

inductive Level where
  | debug | info | warn | error
  deriving DecidableEq, Repr

inductive FieldValue where
  | text (value : String)
  | duration (value : Nat)
  deriving DecidableEq, Repr

/-- One line of telemetry (`tracing::debug!`, `info!`, `warn!`, `error!`). -/
structure Event where
  level : Level
  message : String
  fields : List (String × FieldValue) := []
  deriving DecidableEq, Repr

/-! ### Semaphores -/

/-- A `tokio::sync::Semaphore`, by its free permits. -/
structure Semaphore where
  permits : Nat
  deriving DecidableEq, Repr

namespace Semaphore

def new (permits : Nat) : Semaphore := ⟨permits⟩

/-- `Semaphore::try_acquire`: the semaphore with one permit less, when one is free. -/
def tryAcquire (gate : Semaphore) : Option Semaphore :=
  if 0 < gate.permits then some ⟨gate.permits - 1⟩ else none

def release (gate : Semaphore) : Semaphore := ⟨gate.permits + 1⟩

theorem tryAcquire_eq_some {gate gate' : Semaphore} :
    gate.tryAcquire = some gate' ↔ gate'.permits + 1 = gate.permits := by
  obtain ⟨p⟩ := gate
  obtain ⟨p'⟩ := gate'
  simp only [tryAcquire, Option.ite_none_right_eq_some, Option.some.injEq, Semaphore.mk.injEq]
  omega

theorem tryAcquire_eq_none {gate : Semaphore} : gate.tryAcquire = none ↔ gate.permits = 0 := by
  simp [tryAcquire]

@[simp] theorem permits_release (gate : Semaphore) : gate.release.permits = gate.permits + 1 := rfl

end Semaphore

end StarterHub
