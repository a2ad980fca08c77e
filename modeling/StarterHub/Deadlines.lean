import StarterHub.ConfigLoad
import StarterHub.Lib.Clock

/-!
# Deadlines from the configuration

Where the configured durations go, and the instants they become: `main` hands `server.timeout` to the API, which
budgets heads and requests with it, and `connect` hands the timeouts of the pool to sqlx.  `Config::validate` bounds
these seconds from below only, while the platform instant ends at signed 64-bit seconds.
-/

namespace StarterHub

open Clock

/-- `ConnectOptions` as `connect` fills it. -/
structure ConnectOptions where
  url : String
  maxConnections : UInt32
  minConnections : UInt32
  connectTimeout : Duration
  acquireTimeout : Duration
  idleTimeout : Duration
  maxLifetime : Duration

/-- The options of `postgresql::connect`. -/
def connectOptions (config : Postgresql) : ConnectOptions where
  url := config.url
  maxConnections := config.pool.maxConnections
  minConnections := config.pool.minConnections
  connectTimeout := .fromSecs config.pool.connectTimeout
  acquireTimeout := .fromSecs config.pool.acquireTimeout
  idleTimeout := .fromSecs config.pool.idleTimeout
  maxLifetime := .fromSecs config.pool.maxLifetime

/-- `api::server::Server`, without its database handle. -/
structure ApiServer where
  addr : String
  name : String
  docs : Bool
  timeout : Duration

/-- The API as `main` builds it. -/
def apiServer (config : Config) : ApiServer where
  addr := config.server.url
  name := config.name
  docs := config.environment.exposesDocs
  timeout := .fromSecs config.server.timeout

/-- What a configured duration is a budget for. -/
inductive Timer where
  | headerRead | request | connect | acquire

namespace Timer

def duration (config : Config) : Timer → Duration
  | headerRead | request => (apiServer config).timeout
  | connect => (connectOptions config.database).connectTimeout
  | acquire => (connectOptions config.database).acquireTimeout

/-- The deadline of the timer, if the platform has such an instant. -/
def deadline (config : Config) (now : Instant) (timer : Timer) : Option Instant :=
  now.checkedAdd (timer.duration config)

/-- Arming the timer at `now`, with the instant it goes off at if there is one.  hyper (for the head of a request) and
sqlx (for the acquisition of a connection) add with `+`, which panics; the sleep of tokio that bounds a request is
checked, and no timer is armed with `connect_timeout`, which `acquire_timeout` replaces. -/
def arm (config : Config) (now : Instant) : Timer → Except String (Option Instant)
  | headerRead => (now.add (headerRead.duration config)).map some
  | acquire => (now.add (acquire.duration config)).map some
  | request => .ok (request.deadline config now)
  | connect => .ok none

end Timer

/-- Every deadline exists, exactly the duration after `now`. -/
def Representable (config : Config) (now : Instant) : Prop :=
  ∀ timer : Timer, ∃ deadline, timer.deadline config now = some deadline ∧
    deadline.toNanos = now.toNanos + (timer.duration config).secs.toNat * nanosPerSec

/-- No timer panics when it is armed. -/
def Armable (config : Config) (now : Instant) : Prop :=
  ∀ timer : Timer, ∃ deadline, timer.arm config now = .ok deadline

private theorem representable_iff (config : Config) (now : Instant) : Representable config now ↔
    ∀ secs ∈ [config.server.timeout, config.database.pool.connectTimeout, config.database.pool.acquireTimeout],
      now.secs + secs.toNat ≤ maxSecs := by
  simp only [List.forall_mem_cons, List.not_mem_nil, false_imp_iff, implies_true, and_true]
  constructor
  · intro h
    exact ⟨Instant.checkedAdd_fromSecs.1 (h .headerRead), Instant.checkedAdd_fromSecs.1 (h .connect),
      Instant.checkedAdd_fromSecs.1 (h .acquire)⟩
  · rintro ⟨hserver, hconnect, hacquire⟩ timer
    cases timer with
    | headerRead | request => exact Instant.checkedAdd_fromSecs.2 hserver
    | connect => exact Instant.checkedAdd_fromSecs.2 hconnect
    | acquire => exact Instant.checkedAdd_fromSecs.2 hacquire

/-- Only the timers that add with `+` can panic. -/
private theorem armable_iff (config : Config) (now : Instant) : Armable config now ↔
    ∀ secs ∈ [config.server.timeout, config.database.pool.acquireTimeout], now.secs + secs.toNat ≤ maxSecs := by
  have hplus : ∀ {d : Duration},
      (∃ deadline, (now.add d).map some = .ok deadline) ↔ ∃ instant, now.add d = .ok instant := by
    intro d
    cases now.add d <;> simp [Except.map]
  simp only [List.forall_mem_cons, List.not_mem_nil, false_imp_iff, implies_true, and_true]
  constructor
  · intro h
    exact ⟨Instant.add_fromSecs.1 (hplus.1 (h .headerRead)), Instant.add_fromSecs.1 (hplus.1 (h .acquire))⟩
  · rintro ⟨hserver, hacquire⟩ timer
    cases timer with
    | headerRead => exact hplus.2 (Instant.add_fromSecs.2 hserver)
    | acquire => exact hplus.2 (Instant.add_fromSecs.2 hacquire)
    | request | connect => exact ⟨_, rfl⟩

/-- What fits at an instant fits at every earlier one. -/
private theorem fits_iff (last : Instant) (timeouts : List UInt64) :
    (∀ now : Instant, now.toNanos ≤ last.toNanos → ∀ secs ∈ timeouts, now.secs + secs.toNat ≤ maxSecs) ↔
      ∀ secs ∈ timeouts, (secs.toNat : Int) ≤ maxSecs - last.secs := by
  constructor
  · intro h secs hsecs
    have hlast := h last (Int.le_refl _) secs hsecs
    omega
  · intro h now hnow secs hsecs
    have hsecs' := h secs hsecs
    have hle := Instant.secs_le_of_toNanos_le hnow
    omega

/-- Up to the instant `last`, all deadlines are representable and no timer panics iff each of the three timeouts leaves
room on the platform clock after it; for the panics alone `connect_timeout` does not count. -/
theorem deadlines_iff (config : Config) (last : Instant) :
    ((∀ now : Instant, now.toNanos ≤ last.toNanos → Representable config now ∧ Armable config now) ↔
      ∀ secs ∈ [config.server.timeout, config.database.pool.connectTimeout, config.database.pool.acquireTimeout],
        (secs.toNat : Int) ≤ maxSecs - last.secs) ∧
    ((∀ now : Instant, now.toNanos ≤ last.toNanos → Armable config now) ↔
      ∀ secs ∈ [config.server.timeout, config.database.pool.acquireTimeout],
        (secs.toNat : Int) ≤ maxSecs - last.secs) := by
  -- whose deadline is representable can be armed
  have hboth : ∀ now, Representable config now ∧ Armable config now ↔ Representable config now := by
    refine fun now => and_iff_left_of_imp fun h => ?_
    rw [representable_iff] at h
    rw [armable_iff]
    simp only [List.forall_mem_cons] at h ⊢
    exact ⟨h.1, h.2.2⟩
  constructor
  · rw [← fits_iff last]
    exact forall_congr' fun now => imp_congr_right fun _ => (hboth now).trans (representable_iff config now)
  · rw [← fits_iff last]
    exact forall_congr' fun now => imp_congr_right fun _ => armable_iff config now

/-- A second after the start of the clock. -/
def early : Instant := ⟨1, 0, by unfold maxSecs; omega, by unfold maxSecs; omega, nanosPerSec_pos⟩

/-- The largest timeout loads and passes the validation, and every connection panics when its timer is armed. -/
theorem deadlines_fail_max : ∃ config,
    Config.load "starterhub" "1.0.0" { vars := [("APP_SERVER__TIMEOUT", "18446744073709551615")] } = .ok config ∧
      ¬ Representable config early ∧
      Timer.headerRead.arm config early = .error "overflow when adding duration to instant" := by
  refine ⟨{ Config.default "starterhub" "1.0.0" with
    server := { host := "127.0.0.1", port := 8080, timeout := 18446744073709551615 } }, by rfl, fun h => ?_, rfl⟩
  exact absurd (Instant.checkedAdd_fromSecs.1 (h .headerRead)) (by decide)

end StarterHub
