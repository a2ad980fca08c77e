import StarterHub.Lib.Machine
import StarterHub.Runtime
import Mathlib.Data.List.Nodup

/-!
# The accept loop (`api/src/server.rs`)

`BoundServer::serve`: one protocol builder for every connection, a loop that races `accept` against the shutdown
future, one task for each accepted stream, and a graceful registry that watches the connections.  The tasks go on by
themselves while the loop accepts, while it drains, and they are all that `serve` waits for in the end.
-/

namespace StarterHub

/-! ### The builder -/

/-- The HTTP/1 half of `hyper_util::server::conn::auto::Builder`; hyper's own header-read timeout is 30 seconds. -/
structure Http1Builder where
  timer : Bool := false
  headerReadTimeout : Option Nat := some (fromSecs 30)

/-- The HTTP/2 half, by the timeout that was set on it explicitly. -/
structure Http2Builder where
  timer : Bool := false
  timeout : Option Nat := none

structure ConnectionBuilder where
  http1 : Http1Builder := {}
  http2 : Http2Builder := {}

/-- A server whose listener is bound. -/
structure BoundServer where
  localAddr : String
  timeout : Nat

/-- The builder of `serve`: both protocols get a timer, HTTP/1 the header-read timeout. -/
def BoundServer.builder (self : BoundServer) : ConnectionBuilder where
  http1 := { timer := true, headerReadTimeout := some self.timeout }
  http2 := { timer := true }

/-! ### The graceful registry -/

/-- `GracefulShutdown`, by the watched connections that are alive and whether they were asked to finish. -/
structure GracefulShutdown where
  next : Nat
  watched : List Nat
  asked : Bool

namespace GracefulShutdown

def new : GracefulShutdown := ⟨0, [], false⟩

/-- The connection that is watched from now on is `self.next`. -/
def watch (self : GracefulShutdown) : GracefulShutdown :=
  { self with next := self.next + 1, watched := self.watched ++ [self.next] }

/-- A watched connection is dropped. -/
def forget (self : GracefulShutdown) (connection : Nat) : GracefulShutdown :=
  { self with watched := self.watched.filter (· ≠ connection) }

/-- `shutdown()` is ready: no watched connection is alive. -/
def isEmpty (self : GracefulShutdown) : Bool := self.watched.isEmpty

end GracefulShutdown

/-! ### The loop as a machine -/

/-- How the future of a connection ends: its own result, or a panic that its task contains. -/
inductive ConnEnd where
  | done (result : Except String Unit)
  | panicked
  deriving DecidableEq

/-- A spawned task with the connection it drives. -/
structure ConnTask (σ : Type) where
  connection : Nat
  stream : σ
  ended : Option ConnEnd

namespace ConnTask

variable {σ : Type}

def isAlive (task : ConnTask σ) : Bool := task.ended.isNone

def finish (task : ConnTask σ) (how : ConnEnd) : ConnTask σ := { task with ended := some how }

/-- What the task logs when its connection ends. -/
def lines : ConnEnd → List Event
  | .done (.error error) => [⟨.debug, "connection ended with an error", [("error", .text error)]⟩]
  | _ => []

end ConnTask

/-- Where `serve` is: in the loop, waiting for `graceful.shutdown()` with the listener closed, or returned. -/
inductive ServePhase where
  | accepting
  | draining
  | returned (result : Except AnyhowError Unit)

/-- `serve` with its tasks; `resolved` says whether the shutdown future is ready, `accepted` is what the listener
yielded so far. -/
structure Serve (σ : Type) where
  phase : ServePhase
  resolved : Bool
  accepted : List σ
  graceful : GracefulShutdown
  tasks : List (ConnTask σ)
  log : List Event

/-- The accept branch with what `accept` yields and what `set_nodelay` returns, the connection of the task `k` ending,
the shutdown future resolving, its branch being taken, and `graceful.shutdown()` being ready. -/
inductive ServeAction (σ : Type) where
  | accept (accepted : Except String σ) (nodelay : Except String Unit)
  | finish (k : Nat) (how : ConnEnd)
  | resolve
  | shutdown
  | stopped

namespace Serve

variable {σ : Type}

def init (server : BoundServer) : Serve σ :=
  ⟨.accepting, false, [], .new, [], [⟨.info, "listening on " ++ server.localAddr, []⟩]⟩

def trace (s : Serve σ) (events : List Event) : Serve σ := { s with log := s.log ++ events }

/-- The connection of an accepted stream: watched first, then driven by a task of its own. -/
def enroll (s : Serve σ) (stream : σ) : Serve σ :=
  { s with
    accepted := s.accepted ++ [stream]
    graceful := s.graceful.watch
    tasks := s.tasks ++ [⟨s.graceful.next, stream, none⟩] }

/-- The accept branch with a stream. -/
def accept (s : Serve σ) (stream : σ) : Except String Unit → Serve σ
  | .error error => (s.trace [⟨.debug, "failed to set TCP_NODELAY", [("error", .text error)]⟩]).enroll stream
  | .ok () => s.enroll stream

/-- The end of the connection that the task `k` drives. -/
def close (s : Serve σ) (k : Nat) (task : ConnTask σ) (how : ConnEnd) : Serve σ :=
  { s.trace (ConnTask.lines how) with
    graceful := s.graceful.forget task.connection
    tasks := s.tasks.set k (task.finish how) }

def step (s : Serve σ) : ServeAction σ → Option (Serve σ)
  | .accept accepted nodelay =>
    match s.phase, accepted with
    | .accepting, .ok stream => some (s.accept stream nodelay)
    | .accepting, .error error => some (s.trace [⟨.debug, "accept failed", [("error", .text error)]⟩])
    | _, _ => none
  | .finish k how =>
    match s.tasks[k]? with
    | some task => if task.isAlive then some (s.close k task how) else none
    | none => none
  | .resolve => some { s with resolved := true }
  | .shutdown =>
    -- `select!` polls its branches in any order: a resolved shutdown may still lose against a stream
    match s.phase, s.resolved with
    | .accepting, true =>
      some { s.trace [⟨.info, "http server draining connections", []⟩] with
        phase := .draining, graceful := { s.graceful with asked := true } }
    | _, _ => none
  | .stopped =>
    match s.phase with
    | .draining =>
      if s.graceful.isEmpty then
        some { s.trace [⟨.info, "http server stopped", []⟩] with phase := .returned (.ok ()) }
      else none
    | _ => none

def machine (σ : Type) : Transition.Machine (Serve σ) (ServeAction σ) := ⟨step⟩

/-- The state after some interleaving of the loop, the tasks and the shutdown future. -/
def Reachable (server : BoundServer) (s : Serve σ) : Prop := (machine σ).Reaches (init server) s

end Serve

end StarterHub
