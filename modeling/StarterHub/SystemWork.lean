import StarterHub.SystemLaw
import Mathlib.Algebra.BigOperators.Group.List.Basic
import Mathlib.Algebra.GroupWithZero.Nat

/-!
# What the application still has to do

`System.work` counts the steps that are left once nothing new comes in: signals to receive, components to end and to
observe, connections to close, ticks to end.  Whatever happens inside the application lowers it, so no order of these
steps goes on for ever.
-/

namespace StarterHub

/-! ### What is still to be done -/

namespace Main

def isRunning (s : Main) : Bool :=
  match s.status with
  | .running => true
  | _ => false

/-- The return, the signals to receive, the tasks to end and the ends to observe. -/
def work (s : Main) : Nat :=
  s.isRunning.toNat + ((s.pending .sigint).toNat + (s.pending .sigterm).toNat) +
    ((s.tasks .httpServer).isNone.toNat + (s.tasks .cron).isNone.toNat) +
    ((s.supervised .httpServer).isNone.toNat + (s.supervised .cron).isNone.toNat)

/-- A stop is due. -/
def Due (s : Main) : Prop := s.shutdown.isSome ∨ (∃ sig, s.pending sig = true) ∨ ∃ c, (s.tasks c).isSome

end Main

/-- The shutdown future, the phases ahead and the connections that are alive. -/
def Serve.work {σ : Type} (s : Serve σ) : Nat :=
  (match s.phase with
    | .accepting => 2
    | .draining => 1
    | .returned _ => 0) + (!s.resolved).toNat + (s.tasks.map fun t => t.isAlive.toNat).sum

def HttpRun.work {σ : Type} : HttpRun σ → Nat
  | binding => 4
  | serving serve => serve.work
  | failed _ => 0

def TickState.work : TickState → Nat
  | created => 2
  | running _ _ => 1
  | ended _ => 0

/-- The polls that the ticks still need. -/
def Engine.work {ι : Type} (s : Engine ι) : Nat := (s.ticks.map fun t => t.state.work).sum

/-- The phases ahead and the ticks in flight. -/
def CronServer.work {ι : Type} (s : CronServer ι) : Nat :=
  (match s.phase with
    | .parked => 3
    | .stopping _ => 2
    | .draining _ _ => 1
    | .returned _ _ => 0) + s.engine.work

def CronRun.work {ι : Type} : CronRun ι → Nat
  | starting => 4
  | running server => server.work
  | failed _ => 0

def System.work {ι σ : Type} (s : System ι σ) : Nat := s.main.work + s.http.work + s.cron.work

/-! ### The parts -/

/-- A list in which one entry gets lighter gets lighter. -/
private theorem sum_map_set_lt {α : Type} {f : α → Nat} {l : List α} {k : Nat} {a b : α} (hk : l[k]? = some a)
    (h : f b < f a) : ((l.set k b).map f).sum < (l.map f).sum := by
  induction l generalizing k with
  | nil => cases hk
  | cons c l ih =>
    cases k with
    | zero =>
      obtain rfl : c = a := by simpa using hk
      simpa using h
    | succ k =>
      have := ih (k := k) (by simpa using hk)
      simpa using this

namespace Main

variable {s s' : Main} {a : MainAction}

private theorem update_isNone {α : Type} {f : Component → Option α} {c : Component} (h : f c = none) (x : α) :
    (Function.update f c (some x) .httpServer).isNone.toNat + (Function.update f c (some x) .cron).isNone.toNat + 1 =
      (f .httpServer).isNone.toNat + (f .cron).isNone.toNat := by
  cases c <;> simp [h, Function.update, Nat.add_comm]

private theorem update_pending {f : Signal → Bool} {sig : Signal} (h : f sig = true) :
    (Function.update f sig false .sigint).toNat + (Function.update f sig false .sigterm).toNat + 1 =
      (f .sigint).toNat + (f .sigterm).toNat := by
  cases sig <;> simp [h, Function.update, Nat.add_comm]

private theorem work_lt_of_stopped (hs : s.status = .running) (hs' : s'.isRunning = false)
    (hp : s'.pending = s.pending) (ht : s'.tasks = s.tasks) (hc : s'.supervised = s.supervised) :
    s'.work < s.work := by
  have hone : s.isRunning = true := by simp [isRunning, hs]
  simp only [work, hone, hs', hp, ht, hc, Bool.toNat_true, Bool.toNat_false]
  omega

/-- Every action of the process but time and another signal is a piece of the work. -/
theorem work_lt (h : s.step a = some s') (ha : ∀ d, a ≠ .elapse d) (hs : ∀ sig, a ≠ .signal sig) :
    s'.work < s.work := by
  obtain ⟨hrun, hm⟩ := step_cases h
  cases hm with
  | elapse d => exact absurd rfl (ha d)
  | signal sig => exact absurd rfl (hs sig)
  | @recv sig hp =>
    have hupdate := update_pending hp
    have hone : s.isRunning = true := by simp [isRunning, hrun]
    have hle := Bool.toNat_le (s.onSignal sig).isRunning
    simp only [work, hone, pending_onSignal, tasks_onSignal, supervised_onSignal, Bool.toNat_true]
    omega
  | @finish c how ht =>
    have hupdate := update_isNone ht how
    simp only [work, isRunning]
    omega
  | @observe c how ht hc =>
    have hupdate := update_isNone hc (labeled c how)
    simp only [work, isRunning, supervise, trace, cancel]
    omega
  | @join api cron =>
    obtain ⟨events, -, heq⟩ := returnWith_eq (s := s) api cron
    rw [heq]
    exact work_lt_of_stopped hrun rfl rfl rfl rfl
  | fence => exact work_lt_of_stopped hrun rfl rfl rfl rfl

/-- A stop that is due stays so until the process ends. -/
theorem Due.step (hs : s.Due) (h : s.step a = some s') (hrun : s'.status = .running) : s'.Due := by
  obtain ⟨-, hm⟩ := step_cases h
  cases hm with
  | elapse d => exact hs
  | signal sig => exact .inr (.inl ⟨sig, by simp⟩)
  | @recv sig hp =>
    by_cases h0 : s.received = 0
    · exact .inl (by simp [(onSignal_of_first sig h0).2])
    · rw [(onSignal_of_later sig h0).1] at hrun
      cases hrun
  | @finish c how ht => exact .inr (.inr ⟨c, by simp⟩)
  | observe => exact .inl (by simp [supervise, cancel])
  | @join api cron =>
    obtain ⟨events, -, heq⟩ := returnWith_eq (s := s) api cron
    rw [heq] at hrun
    cases hrun
  | fence => cases hrun

end Main

namespace Serve

variable {σ : Type} {s s' : Serve σ} {a : ServeAction σ}

/-- Every action of the accept loop but `accept` is a piece of the work, or it finds nothing to do. -/
theorem work_lt (h : s.step a = some s') (ha : ∀ accepted nodelay, a ≠ .accept accepted nodelay) :
    s' = s ∨ s'.work < s.work := by
  cases step_cases h with
  | accepted | refused => exact absurd rfl (ha _ _)
  | @finish k how task hk halive =>
    right
    have hdead : (task.finish how).isAlive = false := rfl
    have hlt := sum_map_set_lt (f := fun t : ConnTask σ => t.isAlive.toNat) (b := task.finish how) hk
      (by simp [halive, hdead])
    simp only [work, close, trace]
    omega
  | resolve =>
    cases hr : s.resolved with
    | true => exact .inl (by rw [← hr])
    | false => exact .inr (by simp [work, hr])
  | shutdown hp => exact .inr (by simp [work, trace, hp])
  | stopped hp => exact .inr (by simp [work, trace, hp])

end Serve

/-- A tick that moves gets closer to its end. -/
theorem TickState.work_lt {job : Job} {now : Nat} {gate gate' : Semaphore} {state state' : TickState}
    (h : Move job now gate state gate' state') : state'.work < state.work := by
  cases h <;> simp [work]

theorem Engine.work_settle {ι : Type} [DecidableEq ι] {s : Engine ι} {k : Nat} {j : ι} {state state' : TickState}
    (hk : s.ticks[k]? = some ⟨j, state⟩) (h : state'.work < state.work) (gate : Semaphore) (events : List Event) :
    (s.settle k j gate state' events).work < s.work :=
  sum_map_set_lt (f := fun t : Tick ι => t.state.work) (b := ⟨j, state'⟩) hk h

namespace CronServer

variable {ι : Type} [DecidableEq ι] {roster : ι → Job} {stop : Except String Unit} {s s' : CronServer ι}
  {a : CronAction ι}

/-- Every action of the cron server and its engine but time and a new tick is a piece of the work, or a poll that finds
its future pending. -/
theorem work_lt (h : step roster stop s a = some s') (ha : ∀ d, a ≠ .engine (.elapse d))
    (hc : ∀ j, a ≠ .engine (.create j)) : s' = s ∨ s'.work < s.work := by
  obtain ⟨b, engine, rfl, -, he, rfl⟩ | rfl | ⟨-, ht, h⟩ := step_cases h
  · obtain ⟨d, rfl, -⟩ | ⟨j, rfl, -⟩ | rfl | ⟨k, j, state, gate, state', events, -, hk, hm, rfl⟩ := Engine.step_cases he
    · exact absurd rfl (ha d)
    · exact absurd rfl (hc j)
    · exact .inl rfl
    · exact .inr (Nat.add_lt_add_left (Engine.work_settle hk (TickState.work_lt hm) gate events) _)
  · exact .inl rfl
  · have hsum : s'.engine.work = s.engine.work := by rw [Engine.work, Engine.work, ht]
    right
    rcases h with ⟨hp, hp'⟩ | ⟨_, hp, -, hp'⟩ | ⟨_, _, hp, -, hp'⟩ | ⟨_, _, hp, -, hp'⟩ | ⟨_, _, hp, -, -, hp'⟩ <;>
      simp [work, hp, hp', hsum]

end CronServer

/-! ### The application -/

namespace System

variable {ι σ : Type}

/-- What only comes from outside: time, a signal, a stream, a tick. -/
def outside : SystemAction ι σ → Bool
  | .main (.elapse _) | .main (.signal _) | .serve (.accept _ _) | .cron (.engine (.elapse _))
  | .cron (.engine (.create _)) => true
  | _ => false

variable [DecidableEq ι] {server : ApiServer} {roster : ι → Job} {stop : Except String Unit} {s s' : System ι σ}
  {a : SystemAction ι σ}

/-- Whatever happens inside the application, panics and dropped tasks included, less the polls that find their future
pending. -/
def Happens (server : ApiServer) (roster : ι → Job) (stop : Except String Unit) (s : System ι σ)
    (a : SystemAction ι σ) : Prop :=
  outside a = false ∧ s.step server roster stop a ≠ some s

omit [DecidableEq ι] in
private theorem work_lt_of_main {main : Main} (h : main.work < s.main.work) :
    (System.mk main s.http s.cron).work < s.work :=
  Nat.add_lt_add_right (Nat.add_lt_add_right h _) _

omit [DecidableEq ι] in
private theorem work_lt_of_http {http : HttpRun σ} (h : http.work < s.http.work) :
    (System.mk s.main http s.cron).work < s.work :=
  Nat.add_lt_add_right (Nat.add_lt_add_left h _) _

omit [DecidableEq ι] in
private theorem work_lt_of_cron {cron : CronRun ι} (h : cron.work < s.cron.work) :
    (System.mk s.main s.http cron).work < s.work :=
  Nat.add_lt_add_left h _

/-- Whatever happens is a piece of the work. -/
theorem work_lt (ha : Happens server roster stop s a) (h : s.step server roster stop a = some s') :
    s'.work < s.work := by
  obtain ⟨hout, hne⟩ := ha
  rw [h] at hne
  obtain ⟨-, hm⟩ := step_cases h
  clear h
  cases hm with
  | @main b main _ h =>
    have hpassed : b.passed = 0 := by
      cases b with
      | elapse d => cases hout
      | _ => rfl
    have hcron : (s.cron.elapse b.passed).work = s.cron.work := by
      rw [hpassed]
      cases s.cron <;> rfl
    have hlt : main.work < s.main.work := by
      refine Main.work_lt h ?_ ?_
      · rintro d rfl
        cases hout
      · rintro sig rfl
        cases hout
    exact Nat.add_lt_add_of_lt_of_le (Nat.add_lt_add_right hlt _) (Nat.le_of_eq hcron)
  | finish _ h => exact work_lt_of_main (Main.work_lt h (by simp) (by simp))
  | panic _ h => exact work_lt_of_main (Main.work_lt h (by simp) (by simp))
  | bound _ hb => exact work_lt_of_http (by rw [hb]; exact Nat.lt_succ_self 3)
  | unbound _ hb => exact work_lt_of_http (by rw [hb]; exact Nat.succ_pos 3)
  | @serve b v v' hv _ h =>
    refine work_lt_of_http ?_
    rw [hv]
    rcases Serve.work_lt h (by rintro accepted nodelay rfl; cases hout) with rfl | hlt
    · exact absurd (by rw [← hv]) hne
    · exact hlt
  | started _ hc => exact work_lt_of_cron (by rw [hc]; exact Nat.lt_succ_self 3)
  | unstarted _ hc => exact work_lt_of_cron (by rw [hc]; exact Nat.succ_pos 3)
  | @cron b v v' hv _ h =>
    refine work_lt_of_cron ?_
    rw [hv]
    rcases CronServer.work_lt h (by rintro d rfl; cases hout) (by rintro j rfl; cases hout) with rfl | hlt
    · exact absurd (by rw [← hv]) hne
    · exact hlt

end System

end StarterHub
