import StarterHub.CronServer
import StarterHub.Deadlines
import StarterHub.HttpServer
import StarterHub.Main

/-!
# The running application

The process with the futures of its two components inside: `api::server::Server::run` (bind, then serve) and
`cron::server::Server::run` (start, then tick until told to stop).  The token of the process is the shutdown future of
both, what they return is what their tasks end with, and all of them see one clock.  A task that panicked drives its
loop no more, while the tasks it spawned (connections, ticks) go on.
-/

namespace StarterHub

/-- `Server::bind`, with what the listener and the question for its local address give. -/
def ApiServer.bind (self : ApiServer) (listener : Except String Unit) (localAddr : Except String String) :
    Except AnyhowError BoundServer :=
  match listener with
  | .error error => .error ⟨"failed to bind " ++ self.addr, [error]⟩
  | .ok () =>
    match localAddr with
    | .error error => .error ⟨"failed to read the bound local address", [error]⟩
    | .ok localAddr => .ok ⟨localAddr, self.timeout.toNanos⟩

/-- The future of `api::server::Server::run`. -/
inductive HttpRun (σ : Type) where
  | binding
  | serving (serve : Serve σ)
  | failed (error : AnyhowError)

def HttpRun.result {σ : Type} : HttpRun σ → Option (Except AnyhowError Unit)
  | binding => none
  | serving serve =>
    match serve.phase with
    | .returned result => some result
    | _ => none
  | failed error => some (.error error)

/-- The future of `cron::server::Server::run`. -/
inductive CronRun (ι : Type) where
  | starting
  | running (server : CronServer ι)
  | failed (error : AnyhowError)

namespace CronRun

variable {ι : Type}

def result : CronRun ι → Option (Except AnyhowError Unit)
  | starting => none
  | running server => server.phase.result
  | failed error => some (.error error)

/-- The clock of the engine goes on. -/
def elapse (d : Nat) : CronRun ι → CronRun ι
  | running server => running { server with engine := { server.engine with now := server.engine.now + d } }
  | run => run

/-- The engine that `start()` leaves ticking. -/
def started (now : Nat) : CronServer ι :=
  let server : CronServer ι := .init
  { server with engine := { server.engine with now } }

end CronRun

structure System (ι σ : Type) where
  main : Main
  http : HttpRun σ
  cron : CronRun ι

/-- A step of the process, the task of a component ending with its result or by a panic, the bind and the start, a step
of the accept loop or of a connection, a step of the cron server or of a tick. -/
inductive SystemAction (ι σ : Type) where
  | main (a : MainAction)
  | finish (c : Component)
  | panic (c : Component) (joinError : String)
  | bind (listener : Except String Unit) (localAddr : Except String String)
  | serve (a : ServeAction σ)
  | start (started : Except String Unit)
  | cron (a : CronAction ι)

/-- How much time a step of the process lets pass. -/
def MainAction.passed : MainAction → Nat
  | elapse d => d
  | _ => 0

def MainAction.isFinish : MainAction → Bool
  | finish _ _ => true
  | _ => false

namespace System

variable {ι σ : Type}

/-- `main` after its two `spawn`s. -/
def init : System ι σ := ⟨.init, .binding, .starting⟩

/-- What the future of a component returned. -/
def result (s : System ι σ) : Component → Option (Except AnyhowError Unit)
  | .httpServer => s.http.result
  | .cron => s.cron.result

/-- The task of the component is still driving its future. -/
def driven (s : System ι σ) (c : Component) : Bool := (s.main.tasks c).isNone

/-- A connection ends by itself; the loop is driven by its task and sees the token. -/
def mayServe (s : System ι σ) : ServeAction σ → Bool
  | .finish _ _ => true
  | .resolve => s.driven .httpServer && s.main.shutdown.isSome
  | _ => s.driven .httpServer

/-- The engine ticks by itself, on the clock of the process; the server is driven by its task and sees the token. -/
def mayCron (s : System ι σ) : CronAction ι → Bool
  | .engine (.elapse _) => false
  | .engine _ => true
  | .shutdown => s.driven .cron && s.main.shutdown.isSome
  | _ => s.driven .cron

variable [DecidableEq ι] (server : ApiServer) (roster : ι → Job) (stop : Except String Unit)

def act (s : System ι σ) : SystemAction ι σ → Option (System ι σ)
  | .main a =>
    if a.isFinish then none
    else (s.main.step a).map fun main => { s with main, cron := s.cron.elapse a.passed }
  | .finish c =>
    match s.result c with
    | some result => (s.main.step (.finish c (.done result))).map fun main => { s with main }
    | none => none
  | .panic c joinError =>
    match s.result c with
    | some _ => none
    | none => (s.main.step (.finish c (.panicked joinError))).map fun main => { s with main }
  | .bind listener localAddr =>
    match s.driven .httpServer, s.http with
    | true, .binding =>
      match server.bind listener localAddr with
      | .ok bound => some { s with http := .serving (.init bound) }
      | .error error => some { s with http := .failed error }
    | _, _ => none
  | .serve a =>
    match s.http with
    | .serving serve =>
      if s.mayServe a then (serve.step a).map fun serve => { s with http := .serving serve } else none
    | _ => none
  | .start started =>
    match s.driven .cron, s.cron with
    | true, .starting =>
      match started with
      | .ok () => some { s with cron := .running (CronRun.started s.main.now) }
      | .error error => some { s with cron := .failed ⟨"failed to start the cron engine", [error]⟩ }
    | _, _ => none
  | .cron a =>
    match s.cron with
    | .running cron =>
      if s.mayCron a then (cron.step roster stop a).map fun cron => { s with cron := .running cron } else none
    | _ => none

/-- The process takes no step any more once it has returned or exited, and nothing in it does. -/
def step (s : System ι σ) (a : SystemAction ι σ) : Option (System ι σ) :=
  match s.main.status with
  | .running => s.act server roster stop a
  | _ => none

def machine : Transition.Machine (System ι σ) (SystemAction ι σ) := ⟨step server roster stop⟩

/-- The state of the application after some interleaving of everything in it. -/
def Reachable (s : System ι σ) : Prop := (machine server roster stop).Reaches init s

/-! ### One step -/

/-- What a step of the application does to its parts. -/
inductive Move (s : System ι σ) : SystemAction ι σ → System ι σ → Prop
  | main {a : MainAction} {main : Main} (ha : a.isFinish = false) (h : s.main.step a = some main) :
      Move s (.main a) { s with main, cron := s.cron.elapse a.passed }
  | finish {c : Component} {result : Except AnyhowError Unit} {main : Main} (hr : s.result c = some result)
      (h : s.main.step (.finish c (.done result)) = some main) : Move s (.finish c) { s with main }
  | panic {c : Component} {joinError : String} {main : Main} (hr : s.result c = none)
      (h : s.main.step (.finish c (.panicked joinError)) = some main) : Move s (.panic c joinError) { s with main }
  | bound {listener : Except String Unit} {localAddr : Except String String} {bound : BoundServer}
      (hd : s.main.tasks .httpServer = none) (hb : s.http = .binding)
      (h : server.bind listener localAddr = .ok bound) :
      Move s (.bind listener localAddr) { s with http := .serving (.init bound) }
  | unbound {listener : Except String Unit} {localAddr : Except String String} {error : AnyhowError}
      (hd : s.main.tasks .httpServer = none) (hb : s.http = .binding)
      (h : server.bind listener localAddr = .error error) :
      Move s (.bind listener localAddr) { s with http := .failed error }
  | serve {a : ServeAction σ} {serve serve' : Serve σ} (hs : s.http = .serving serve) (ha : s.mayServe a = true)
      (h : serve.step a = some serve') : Move s (.serve a) { s with http := .serving serve' }
  | started (hd : s.main.tasks .cron = none) (hc : s.cron = .starting) :
      Move s (.start (.ok ())) { s with cron := .running (CronRun.started s.main.now) }
  | unstarted {error : String} (hd : s.main.tasks .cron = none) (hc : s.cron = .starting) :
      Move s (.start (.error error)) { s with cron := .failed ⟨"failed to start the cron engine", [error]⟩ }
  | cron {a : CronAction ι} {cron cron' : CronServer ι} (hc : s.cron = .running cron) (ha : s.mayCron a = true)
      (h : cron.step roster stop a = some cron') : Move s (.cron a) { s with cron := .running cron' }

variable {server roster stop} {s s' : System ι σ} {a : SystemAction ι σ}

theorem step_cases (h : s.step server roster stop a = some s') :
    s.main.status = .running ∧ Move server roster stop s a s' := by
  unfold step at h
  split at h
  · next hrun =>
    refine ⟨hrun, ?_⟩
    cases a with
    | main a =>
      simp only [act, Option.ite_none_left_eq_some, Option.map_eq_some_iff, Bool.not_eq_true] at h
      obtain ⟨ha, main, hm, rfl⟩ := h
      exact .main ha hm
    | finish c =>
      simp only [act] at h
      split at h
      · next result hr =>
        obtain ⟨main, hm, rfl⟩ := Option.map_eq_some_iff.1 h
        exact .finish hr hm
      · cases h
    | panic c joinError =>
      simp only [act] at h
      split at h
      · cases h
      · next hr =>
        obtain ⟨main, hm, rfl⟩ := Option.map_eq_some_iff.1 h
        exact .panic hr hm
    | bind listener localAddr =>
      simp only [act] at h
      split at h
      · next hd hb =>
        split at h
        · next bound hbind => cases h; exact .bound (by simpa [driven] using hd) hb hbind
        · next error hbind => cases h; exact .unbound (by simpa [driven] using hd) hb hbind
      · cases h
    | serve a =>
      simp only [act] at h
      split at h
      · next serve hs =>
        simp only [Option.ite_none_right_eq_some, Option.map_eq_some_iff] at h
        obtain ⟨ha, serve', hstep, rfl⟩ := h
        exact .serve hs ha hstep
      · cases h
    | start started =>
      simp only [act] at h
      split at h
      · next hd hc =>
        split at h
        · cases h; exact .started (by simpa [driven] using hd) hc
        · cases h; exact .unstarted (by simpa [driven] using hd) hc
      · cases h
    | cron a =>
      simp only [act] at h
      split at h
      · next cron hc =>
        simp only [Option.ite_none_right_eq_some, Option.map_eq_some_iff] at h
        obtain ⟨ha, cron', hstep, rfl⟩ := h
        exact .cron hc ha hstep
      · cases h
  · cases h

end System

end StarterHub
