import StarterHub.Runtime

/-!
# Cron jobs (`cron/src/job/mod.rs`, `cron/src/error.rs`)

The jobs of the roster and the life of one tick, the future the engine gets from the adapter closure of
`into_cron_job`: created, polled for the first time (`dispatch`, which decides under the job's `Overlap` policy),
resumed while `execute` waits for the body, and ended.
-/

namespace StarterHub

inductive JobError where
  | database (error : DbErr)
  | internal (error : AnyhowError)
  deriving DecidableEq, Repr

namespace JobError

/-- `{error:#}` of a transparent error. -/
def alternate : JobError → String
  | database error => error.message
  | internal error => error.alternate

end JobError

abbrev JobResult := Except JobError Unit

inductive Overlap where
  | allow | skip
  deriving DecidableEq, Repr

/-- The trait `Job`: the constant methods of one implementation, with the defaults of the trait.  The body `run`
is not part of the record: what it does is the argument of `Action.resume` and `Action.panic`. -/
structure Job where
  name : String
  schedule : String
  overlap : Overlap := .skip
  timeout : Nat := fromSecs 300
  deriving DecidableEq, Repr

/-- `hello::Hello`. -/
def hello : Job where
  name := "hello"
  schedule := "0 * * * * * *"

def roster : List Job := [hello]

inductive TickEnd where
  | skipped | completed | failed (error : JobError) | timedOut | panicked | dropped
  deriving DecidableEq, Repr

/-- A tick future: put under the tracker but never polled, suspended in `execute` since `started` (with the
`_permit` of `dispatch` in scope or not), or gone. -/
inductive TickState where
  | created
  | running (started : Nat) (permit : Bool)
  | ended (how : TickEnd)
  deriving DecidableEq, Repr

namespace TickState

def isRunning : TickState → Bool
  | running _ _ => true
  | _ => false

/-- The future exists, so the tracker counts it. -/
def isAlive : TickState → Bool
  | ended _ => false
  | _ => true

end TickState

def dispatch (job : Job) (now : Nat) (gate : Semaphore) : Semaphore × TickState × List Event :=
  match job.overlap with
  | .allow => (gate, .running now false, [])
  | .skip =>
    match gate.tryAcquire with
    | some gate' => (gate', .running now true, [])
    | none =>
      (gate, .ended .skipped,
        [⟨.warn, "job skipped: previous run still in flight", [("job", .text job.name)]⟩])

/-- A poll of `execute` at `now`, for a run started at `started` whose body polls to `body` (`none` while it is
pending): `none` when `execute` stays pending too. -/
def execute (job : Job) (started now : Nat) (body : Option JobResult) : Option (TickEnd × List Event) :=
  match timeoutPoll (started + job.timeout) now body with
  | none => none
  | some (some (.ok ())) => some (.completed, [⟨.debug, "job completed", [("job", .text job.name)]⟩])
  | some (some (.error error)) =>
    some (.failed error,
      [⟨.error, "job failed", [("job", .text job.name), ("error", .text error.alternate)]⟩])
  | some none =>
    some (.timedOut,
      [⟨.error, "job timed out and was cancelled",
        [("job", .text job.name), ("budget", .duration job.timeout)]⟩])

/-- The permit leaves the scope of `dispatch`: at its end, when a panic unwinds it or when its future is
dropped. -/
def dropPermit (permit : Bool) (gate : Semaphore) : Semaphore := if permit then gate.release else gate

end StarterHub
