import StarterHub.CronShutdown
import StarterHub.GracefulStop
import StarterHub.Supervision
import StarterHub.System

/-!
# What the exit status of the application says

The parts of a reachable application are reachable on their own, so that the laws of the process, of the accept loop
and of the cron server hold inside it.  What they say together is more: both components return `Ok` only when they were
told to stop, and the token that tells them is cancelled by a signal or by a failure.  A stop that nobody ordered is
therefore a failure, and an exit with 0 has left nothing behind but what a warning in the journal speaks of.
-/

namespace StarterHub

/-! ### The process -/

namespace Main

variable {s s' : Main} {a : MainAction}

theorem tasks_step (h : s.step a = some s') (ha : a.isFinish = false) : s'.tasks = s.tasks := by
  obtain ⟨-, hm⟩ := step_cases h
  cases hm with
  | finish => cases ha
  | recv => simp
  | join => unfold returnWith; split <;> rfl
  | _ => rfl

theorem now_step (h : s.step a = some s') : s'.now = s.now + a.passed := by
  by_cases ha : ∃ d, a = .elapse d
  · obtain ⟨d, rfl⟩ := ha
    obtain ⟨-, hm⟩ := step_cases h
    cases hm
    rfl
  · have hpassed : a.passed = 0 := by
      cases a with
      | elapse d => exact absurd ⟨d, rfl⟩ ha
      | _ => rfl
    rw [now_of_step h fun d hd => ha ⟨d, hd⟩, hpassed, Nat.add_zero]

/-- The token is cancelled by the signal task or by the supervision of a component that ended. -/
theorem shutdown_cases (h : s.step a = some s') (hs : s'.shutdown.isSome) :
    s.shutdown.isSome ∨ 1 ≤ s'.received ∨ ∃ c how, s.tasks c = some how := by
  obtain ⟨-, hm⟩ := step_cases h
  cases hm with
  | recv => exact .inr (.inl (by simp))
  | observe ht => exact .inr (.inr ⟨_, _, ht⟩)
  | join => exact .inl (by unfold returnWith at hs; split at hs <;> exact hs)
  | _ => exact .inl hs

theorem received_le (h : s.step a = some s') : s.received ≤ s'.received := by
  obtain ⟨-, hm⟩ := step_cases h
  cases hm with
  | recv => simp
  | join => unfold returnWith; split <;> exact Nat.le_refl _
  | _ => exact Nat.le_refl _

/-- A second signal is never received by a process that goes on. -/
theorem Reachable.received_le_one (h : Reachable s) : s.received ≤ 1 ∨ s.status = .exited 130 := by
  have hinv : MainInv s ∧ (s.received ≤ 1 ∨ s.status = .exited 130) := by
    refine Transition.Machine.Reaches.invariant
      (P := fun t => MainInv t ∧ (t.received ≤ 1 ∨ t.status = .exited 130)) h ?_ ⟨mainInv_init, .inl (Nat.zero_le _)⟩
    rintro t a t' ⟨ht, -⟩ hstep
    have ht' := ht.step hstep
    obtain ⟨hrun, hm⟩ := step_cases hstep
    refine ⟨ht', ?_⟩
    cases ht'.status with
    | running _ hr => exact .inl hr
    | interrupted h => exact .inr h
    | returned h | fenced h =>
      -- the step that ends the process by itself receives nothing
      cases hs : ht.status with
      | returned h' | interrupted h' | fenced h' => rw [hrun] at h'; cases h'
      | running _ hr =>
        cases hm with
        | join => exact .inl (by unfold returnWith; split <;> exact hr)
        | fence => exact .inl hr
        | @recv sig =>
          by_cases h0 : t.received = 0
          · exact .inl (by simp [h0])
          · rw [(onSignal_of_later sig h0).1] at h
            cases h
        | _ => exact .inl hr
  exact hinv.2

theorem failure_of_tasks {c : Component} (h : s'.tasks c = s.tasks c) : s'.failure c = s.failure c := by
  rw [failure, failure, h]

end Main

/-! ### The components -/

namespace Serve

variable {σ : Type} {bound : BoundServer} {s s' : Serve σ} {a : ServeAction σ}

theorem phase_of_returned {result : Except AnyhowError Unit} (hp : s.phase = .returned result)
    (h : s.step a = some s') : s'.phase = .returned result := by
  cases step_cases h with
  | accepted ha | refused ha | shutdown ha | stopped ha => rw [hp] at ha; cases ha
  | _ => exact hp

/-- The loop is left only when the shutdown future is ready. -/
theorem Reachable.resolved (h : Reachable bound s) : s.phase ≠ .accepting → s.resolved = true := by
  refine h.invariant (P := fun t => t.phase ≠ .accepting → t.resolved = true) (fun t a t' ht hstep => ?_)
    fun hne => absurd rfl hne
  cases step_cases hstep with
  | resolve => exact fun _ => rfl
  | shutdown _ hr => exact fun _ => hr
  | stopped hp => exact fun _ => ht (by rw [hp]; simp)
  | _ => exact ht

end Serve

namespace CronServer

variable {ι : Type} [DecidableEq ι] {roster : ι → Job} {stop : Except String Unit} {s s' : CronServer ι}
  {a : CronAction ι}

theorem phase_of_returned {told : Nat} {exit : CronExit} (hp : s.phase = .returned told exit)
    (h : step roster stop s a = some s') : s'.phase = .returned told exit := by
  obtain ⟨b, engine, -, -, -, rfl⟩ | rfl | ⟨-, -, h⟩ := step_cases h
  · exact hp
  · exact hp
  · rw [hp] at h
    rcases h with ⟨h, -⟩ | ⟨_, h, -⟩ | ⟨_, _, h, -⟩ | ⟨_, _, h, -⟩ | ⟨_, _, h, -⟩ <;> cases h

/-- Only the actions that let time pass move the clock. -/
theorem now_of_step (h : step roster stop s a = some s') (ha : ∀ d, a ≠ .engine (.elapse d)) :
    s'.engine.now = s.engine.now := by
  obtain ⟨b, engine, rfl, -, he, rfl⟩ | rfl | ⟨hn, -, -⟩ := step_cases h
  · obtain ⟨d, rfl, -⟩ | ⟨j, -, rfl⟩ | rfl | ⟨k, j, state, gate, state', events, -, -, -, rfl⟩ := Engine.step_cases he
    · exact absurd rfl (ha d)
    all_goals rfl
  · rfl
  · exact hn

/-- An engine that does not stop never lets the server drain. -/
theorem not_draining_of_error {error : String} (h : Reachable roster (.error error) s) :
    (∀ told fence, s.phase ≠ .draining told fence) ∧ ∀ told exit, s.phase = .returned told exit →
      ∃ e, exit = .stopFailed e := by
  refine Transition.Machine.Reaches.invariant
    (P := fun t : CronServer ι => (∀ told fence, t.phase ≠ .draining told fence) ∧
      ∀ told exit, t.phase = .returned told exit → ∃ e, exit = .stopFailed e) h (fun t a t' ht hstep => ?_)
    ⟨by simp [init], by simp [init]⟩
  have hstep : step roster (.error error) t a = some t' := hstep
  obtain ⟨b, engine, -, -, -, rfl⟩ | rfl | ⟨-, -, h⟩ := step_cases hstep
  · exact ht
  · exact ht
  · rcases h with ⟨-, hp⟩ | ⟨told, -, hstop, -⟩ | ⟨told, e, -, -, hp⟩ | ⟨told, fence, hp, -⟩ | ⟨told, fence, hp, -⟩
    · simp [hp]
    · cases hstop
    · refine ⟨by simp [hp], fun told' exit hr => ?_⟩
      rw [hp] at hr
      cases hr
      exact ⟨_, rfl⟩
    · exact absurd hp (ht.1 told fence)
    · exact absurd hp (ht.1 told fence)

/-- What the server returns when the engine fails to stop. -/
theorem Reachable.stopFailed_eq (h : Reachable roster stop s) {told : Nat} {error : AnyhowError}
    (hp : s.phase = .returned told (.stopFailed error)) :
    ∃ e, stop = .error e ∧ error = ⟨"failed to stop the cron engine", [e]⟩ := by
  refine Transition.Machine.Reaches.invariant (P := fun t : CronServer ι => ∀ told error,
    t.phase = .returned told (.stopFailed error) →
      ∃ e, stop = .error e ∧ error = ⟨"failed to stop the cron engine", [e]⟩) h
    (fun t a t' ht hstep told error hp => ?_) (by simp [init]) told error hp
  have hstep : step roster stop t a = some t' := hstep
  obtain ⟨b, engine, -, -, -, rfl⟩ | rfl | ⟨-, -, h⟩ := step_cases hstep
  · exact ht told error hp
  · exact ht told error hp
  · rcases h with ⟨-, hp'⟩ | ⟨_, -, -, hp'⟩ | ⟨_, e, -, hstop, hp'⟩ | ⟨_, _, -, -, hp'⟩ | ⟨_, _, -, -, -, hp'⟩ <;>
      rw [hp'] at hp <;> cases hp
    exact ⟨e, hstop, rfl⟩

/-- The line about runs that outlived the grace. -/
def fencedLine : Event :=
  ⟨.warn, "jobs still in flight at the end of the drain grace; exiting anyway", [("grace", .duration drainGrace)]⟩

private theorem log_engine {engine : Engine ι} {b : Action ι} (h : s.engine.step roster b = some engine) :
    s.engine.log <+: engine.log := by
  obtain ⟨d, -, rfl⟩ | ⟨j, -, rfl⟩ | rfl | ⟨k, j, state, gate, state', events, -, -, -, rfl⟩ := Engine.step_cases h
  all_goals first | exact List.prefix_append _ _ | exact List.prefix_refl _

/-- The server does not give up on a run in silence. -/
theorem Reachable.fencedLine_mem (h : Reachable roster stop s) {told : Nat} (hp : s.phase = .returned told .fenced) :
    fencedLine ∈ s.engine.log := by
  refine Transition.Machine.Reaches.invariant
    (P := fun t : CronServer ι => ∀ told, t.phase = .returned told .fenced → fencedLine ∈ t.engine.log) h
    (fun t a t' ht hstep told hp => ?_) (by simp [init]) told hp
  have hstep : step roster stop t a = some t' := hstep
  cases a with
  | engine b =>
    simp only [step, Option.ite_none_right_eq_some, Option.map_eq_some_iff] at hstep
    obtain ⟨-, engine, he, rfl⟩ := hstep
    exact (log_engine he).subset (ht told hp)
  | shutdown =>
    simp only [step] at hstep
    split at hstep
    · cases hstep; cases hp
    · cases hstep
  | stopped =>
    simp only [step] at hstep
    split at hstep
    · split at hstep <;> cases hstep <;> cases hp
    · cases hstep
  | wait =>
    simp only [step] at hstep
    split at hstep
    · split at hstep
      · cases hstep; exact ht told hp
      · cases hstep; simp [Engine.trace, fencedLine]
      · cases hstep; cases hp
    · cases hstep

end CronServer

theorem timeout_of_bind {server : ApiServer} {listener : Except String Unit} {localAddr : Except String String}
    {bound : BoundServer} (h : server.bind listener localAddr = .ok bound) :
    bound.timeout = server.timeout.toNanos := by
  unfold ApiServer.bind at h
  split at h
  · cases h
  · split at h <;> cases h
    rfl

/-! ### The invariant -/

namespace System

variable {ι σ : Type} [DecidableEq ι] {server : ApiServer} {roster : ι → Job} {stop : Except String Unit}
  {s s' : System ι σ} {a : SystemAction ι σ}

/-- The parts are reachable on their own, what the components return is what their tasks end with, and they are told to
stop by the token only. -/
structure SystemInv (server : ApiServer) (roster : ι → Job) (stop : Except String Unit) (s : System ι σ) : Prop where
  main : s.main.Reachable
  serving : ∀ v, s.http = .serving v →
    ∃ listener localAddr bound, server.bind listener localAddr = .ok bound ∧ Serve.Reachable bound v
  unbound : ∀ error, s.http = .failed error → ∃ listener localAddr, server.bind listener localAddr = .error error
  ticking : ∀ v, s.cron = .running v → CronServer.Reachable roster stop v ∧ v.engine.now = s.main.now
  unstarted : ∀ error, s.cron = .failed error → ∃ e, error = ⟨"failed to start the cron engine", [e]⟩
  resolved : ∀ v, s.http = .serving v → v.resolved = true → s.main.shutdown.isSome
  stopping : ∀ v, s.cron = .running v → v.phase ≠ .parked → s.main.shutdown.isSome
  done : ∀ c r, s.main.tasks c = some (.done r) → s.result c = some r
  caused : s.main.shutdown.isSome → 1 ≤ s.main.received ∨ ∃ c, (s.main.failure c).isSome

theorem systemInv_init : SystemInv server roster stop (init : System ι σ) where
  main := Transition.Machine.Reaches.refl _
  serving := by simp [init]
  unbound := by simp [init]
  ticking := by simp [init]
  unstarted := by simp [init]
  resolved := by simp [init]
  stopping := by simp [init]
  done := by simp [init, Main.init]
  caused := by simp [init, Main.init]

/-- A component returns `Ok` only after it was told to stop. -/
theorem SystemInv.shutdown_of_ok (hs : SystemInv server roster stop s) {c : Component}
    (h : s.result c = some (.ok ())) : s.main.shutdown.isSome := by
  cases c with
  | httpServer =>
    simp only [result, HttpRun.result] at h
    split at h
    · cases h
    · next v hv =>
      split at h
      · next r hp =>
        obtain ⟨_, _, _, -, hreach⟩ := hs.serving v hv
        exact hs.resolved v hv (hreach.resolved (by rw [hp]; simp))
      · cases h
    · cases h
  | cron =>
    simp only [result, CronRun.result] at h
    split at h
    · cases h
    · next v hv =>
      refine hs.stopping v hv fun hp => ?_
      rw [hp] at h
      cases h
    · cases h

omit [DecidableEq ι] in
private theorem result_elapse (run : CronRun ι) (d : Nat) : (run.elapse d).result = run.result := by
  cases run <;> rfl

private theorem SystemInv.main_step {b : MainAction} {main : Main} (hs : SystemInv server roster stop s)
    (hb : b.isFinish = false) (h : s.main.step b = some main) :
    SystemInv server roster stop { s with main, cron := s.cron.elapse b.passed } := by
  have htasks := Main.tasks_step h hb
  have hreach := hs.main.tail h
  have hlatched : s.main.shutdown.isSome → main.shutdown.isSome := by
    intro hsome
    obtain ⟨t, ht⟩ := Option.isSome_iff_exists.1 hsome
    rw [Main.shutdown_of_reaches ((Transition.Machine.Reaches.refl _).tail h) ht]
    rfl
  have hresult : ∀ c, (System.mk main s.http (s.cron.elapse b.passed)).result c = s.result c := by
    rintro (_ | _)
    · rfl
    · exact result_elapse _ _
  refine ⟨hreach, hs.serving, hs.unbound, fun v hv => ?_, fun error he => ?_,
    fun v hv hr => hlatched (hs.resolved v hv hr), fun v hv hp => ?_, fun c r hc => ?_, fun hsome => ?_⟩
  · cases hcron : s.cron with
    | running u =>
      simp only [hcron, CronRun.elapse, CronRun.running.injEq] at hv
      subst hv
      obtain ⟨hu, hnow⟩ := hs.ticking u hcron
      refine ⟨hu.tail (a := .engine (.elapse b.passed)) rfl, ?_⟩
      show u.engine.now + b.passed = main.now
      rw [Main.now_step h, hnow]
    | starting | failed => simp [hcron, CronRun.elapse] at hv
  · cases hcron : s.cron with
    | failed e =>
      simp only [hcron, CronRun.elapse, CronRun.failed.injEq] at he
      exact hs.unstarted error (by rw [hcron, he])
    | starting | running => simp [hcron, CronRun.elapse] at he
  · cases hcron : s.cron with
    | running u =>
      simp only [hcron, CronRun.elapse, CronRun.running.injEq] at hv
      subst hv
      exact hlatched (hs.stopping u hcron hp)
    | starting | failed => simp [hcron, CronRun.elapse] at hv
  · rw [hresult]
    exact hs.done c r (by rw [← htasks]; exact hc)
  · have hfailure : ∀ c, main.failure c = s.main.failure c := fun c => Main.failure_of_tasks (congrFun htasks c)
    have hkept : s.main.shutdown.isSome → 1 ≤ main.received ∨ ∃ c, (main.failure c).isSome := by
      intro hold
      rcases hs.caused hold with hr | ⟨c, hc⟩
      · exact .inl (Nat.le_trans hr (Main.received_le h))
      · exact .inr ⟨c, by rw [hfailure]; exact hc⟩
    rcases Main.shutdown_cases h hsome with hold | hr | ⟨c, how, ht⟩
    · exact hkept hold
    · exact .inl hr
    · -- a component that ended with `Ok` had been told to stop before
      cases hl : labeled c how with
      | error error => exact .inr ⟨c, by rw [hfailure]; simp [Main.failure, ht, hl]⟩
      | ok u =>
        rcases how with (_ | ⟨⟩) | _
        · cases hl
        · exact hkept (hs.shutdown_of_ok (hs.done c _ ht))
        · cases hl

/-- The task of a component ends, with what its future returned or by a panic. -/
private theorem SystemInv.end_step {c : Component} {how : TaskEnd} {main : Main} (hs : SystemInv server roster stop s)
    (hdone : ∀ r, how = .done r → s.result c = some r) (h : s.main.step (.finish c how) = some main) :
    SystemInv server roster stop { s with main } := by
  have hreach := hs.main.tail h
  obtain ⟨-, hm⟩ := Main.step_cases h
  cases hm with
  | finish ht =>
    refine ⟨hreach, hs.serving, hs.unbound, hs.ticking, hs.unstarted, hs.resolved, hs.stopping, fun d r hd => ?_,
      fun hsome => ?_⟩
    · by_cases hdc : d = c
      · subst hdc
        exact hdone r (by simpa using hd)
      · exact hs.done d r (by simpa [Function.update_of_ne hdc] using hd)
    · rcases hs.caused hsome with hr | ⟨d, hd⟩
      · exact .inl hr
      · refine .inr ⟨d, ?_⟩
        have hdc : d ≠ c := by
          rintro rfl
          simp [Main.failure, ht] at hd
        rwa [Main.failure_of_tasks (Function.update_of_ne hdc ..)]

/-- A step of the loop or of a connection. -/
private theorem SystemInv.serve_step {b : ServeAction σ} {v v' : Serve σ} (hs : SystemInv server roster stop s)
    (hv : s.http = .serving v) (hmay : s.mayServe b = true) (h : v.step b = some v') :
    SystemInv server roster stop { s with http := .serving v' } := by
  refine ⟨hs.main, fun u hu => ?_, by simp, hs.ticking, hs.unstarted, fun u hu hr => ?_, hs.stopping,
    fun c r hc => ?_, hs.caused⟩
  · cases hu
    obtain ⟨l, addr, bound, hbind, hreach⟩ := hs.serving v hv
    exact ⟨l, addr, bound, hbind, hreach.tail h⟩
  · cases hu
    cases Serve.step_cases h with
    | resolve => exact (Bool.and_eq_true_iff.1 hmay).2
    | _ => exact hs.resolved v hv hr
  · cases c with
    | cron => exact hs.done .cron r hc
    | httpServer =>
      have hold := hs.done .httpServer r hc
      simp only [result, hv, HttpRun.result] at hold ⊢
      split at hold
      · next r' hp =>
        rw [Serve.phase_of_returned hp h]
        exact hold
      · cases hold

/-- A step of the cron server or of a tick. -/
private theorem SystemInv.cron_step {b : CronAction ι} {v v' : CronServer ι} (hs : SystemInv server roster stop s)
    (hv : s.cron = .running v) (hmay : s.mayCron b = true) (h : v.step roster stop b = some v') :
    SystemInv server roster stop { s with cron := .running v' } := by
  have hb : ∀ d, b ≠ .engine (.elapse d) := by
    rintro d rfl
    cases hmay
  refine ⟨hs.main, hs.serving, hs.unbound, fun u hu => ?_, by simp, hs.resolved, fun u hu hp => ?_, fun c r hc => ?_,
    hs.caused⟩
  · cases hu
    obtain ⟨hreach, hnow⟩ := hs.ticking v hv
    exact ⟨hreach.tail h, (CronServer.now_of_step h hb).trans hnow⟩
  · cases hu
    by_cases hpv : v.phase = .parked
    · cases b with
      | shutdown => exact (Bool.and_eq_true_iff.1 hmay).2
      | engine b =>
        simp only [CronServer.step, Option.ite_none_right_eq_some, Option.map_eq_some_iff] at h
        obtain ⟨-, engine, -, rfl⟩ := h
        exact absurd hpv hp
      | stopped | wait => simp [CronServer.step, hpv] at h
    · exact hs.stopping v hv hpv
  · cases c with
    | httpServer => exact hs.done .httpServer r hc
    | cron =>
      have hold := hs.done .cron r hc
      simp only [result, hv, CronRun.result] at hold ⊢
      cases hp : v.phase with
      | returned told exit =>
        rw [CronServer.phase_of_returned hp h]
        rwa [hp] at hold
      | _ => rw [hp] at hold; cases hold

theorem SystemInv.step (hs : SystemInv server roster stop s) (h : s.step server roster stop a = some s') :
    SystemInv server roster stop s' := by
  obtain ⟨-, hm⟩ := step_cases h
  clear h
  -- no result yet: the task of the component is still driving its future
  have hundone : ∀ {c r}, s.main.tasks c = none → s.main.tasks c ≠ some (.done r) := by simp +contextual
  cases hm with
  | main hb h => exact hs.main_step hb h
  | finish hr h => exact hs.end_step (fun r he => by cases he; exact hr) h
  | panic hr h => exact hs.end_step (fun r he => by cases he) h
  | bound hd hb h =>
    refine ⟨hs.main, fun v hv => ?_, by simp, hs.ticking, hs.unstarted, fun v hv hr => ?_, hs.stopping,
      fun c r hc => ?_, hs.caused⟩
    · cases hv
      exact ⟨_, _, _, h, Transition.Machine.Reaches.refl _⟩
    · cases hv
      cases hr
    · cases c with
      | httpServer => exact absurd hc (hundone hd)
      | cron => exact hs.done .cron r hc
  | unbound hd hb h =>
    refine ⟨hs.main, by simp, fun e he => ?_, hs.ticking, hs.unstarted, by simp, hs.stopping, fun c r hc => ?_,
      hs.caused⟩
    · cases he
      exact ⟨_, _, h⟩
    · cases c with
      | httpServer => exact absurd hc (hundone hd)
      | cron => exact hs.done .cron r hc
  | serve hv hmay h => exact hs.serve_step hv hmay h
  | started hd hc =>
    refine ⟨hs.main, hs.serving, hs.unbound, fun v hv => ?_, by simp, hs.resolved, fun v hv hp => ?_, fun c r hc => ?_,
      hs.caused⟩
    · cases hv
      refine ⟨(Transition.Machine.Reaches.refl _).tail (a := .engine (.elapse s.main.now)) ?_, rfl⟩
      simp [CronServer.machine, CronServer.step, CronServer.allowed, Engine.step, CronRun.started, CronServer.init,
        Engine.trace, Engine.init]
    · cases hv
      exact absurd rfl hp
    · cases c with
      | httpServer => exact hs.done .httpServer r hc
      | cron => exact absurd hc (hundone hd)
  | unstarted hd hc =>
    refine ⟨hs.main, hs.serving, hs.unbound, by simp, fun e he => ?_, hs.resolved, by simp, fun c r hc => ?_, hs.caused⟩
    · cases he
      exact ⟨_, rfl⟩
    · cases c with
      | httpServer => exact hs.done .httpServer r hc
      | cron => exact absurd hc (hundone hd)
  | cron hv hmay h => exact hs.cron_step hv hmay h

theorem Reachable.systemInv (h : Reachable server roster stop s) : SystemInv server roster stop s :=
  Transition.Machine.Reaches.invariant h (fun _ _ _ => SystemInv.step) systemInv_init

/-! ### The law -/

/-- No connection is alive, and no run unless the journal says so. -/
structure Swept (s : System ι σ) : Prop where
  http : ∃ v, s.http = .serving v ∧ v.phase = .returned (.ok ()) ∧ v.Drained
  cron : ∃ v told, s.cron = .running v ∧
    (v.phase = .returned told .drained ∧ v.engine.idle = true ∨
      v.phase = .returned told .fenced ∧ told + drainGrace ≤ v.engine.now ∧ CronServer.fencedLine ∈ v.engine.log)

structure SystemLaw (server : ApiServer) (roster : ι → Job) (stop : Except String Unit) (s : System ι σ) : Prop where
  -- Each part is in a state that it reaches on its own, on the clock of the process.
  process : s.main.Reachable
  serving : ∀ v, s.http = .serving v → ∃ bound, bound.timeout = server.timeout.toNanos ∧ Serve.Reachable bound v
  ticking : ∀ v, s.cron = .running v → CronServer.Reachable roster stop v ∧ v.engine.now = s.main.now
  -- The token is cancelled only by a signal or after a component failed, ...
  caused : s.main.shutdown.isSome → 1 ≤ s.main.received ∨ ∃ c, (s.main.failure c).isSome
  -- ... and until then nothing stops: the listener accepts and the engine ticks.
  undisturbed : s.main.shutdown = none →
    (∀ v, s.http = .serving v → v.phase = .accepting) ∧ ∀ v, s.cron = .running v → v.phase = .parked
  -- Once it listens, the http-server fails by a panic only.
  httpFailure : ∀ error, s.main.failure .httpServer = some error →
    (∃ listener localAddr e, server.bind listener localAddr = .error e ∧ error = e.context "http-server failed") ∨
      ∃ joinError, error = ⟨"http-server panicked", [joinError]⟩
  -- Once it ticks, the cron engine fails by a panic or when it is stopped.
  cronFailure : ∀ error, s.main.failure .cron = some error →
    (∃ e, error = ⟨"cron failed", ["failed to start the cron engine", e]⟩) ∨
      (∃ e, stop = .error e ∧ error = ⟨"cron failed", ["failed to stop the cron engine", e]⟩) ∨
      ∃ joinError, error = ⟨"cron panicked", [joinError]⟩
  -- Exit 0 takes a signal, and exactly one, and leaves the application swept.
  clean : s.main.status.exitCode = some 0 → s.main.received = 1 ∧ s.Swept
  -- A stop that nobody ordered is a failure.
  unordered : ∀ r, s.main.status = .returned r → s.main.received = 0 → s.main.status.exitCode = some 1

private theorem SystemInv.httpFailure {error : AnyhowError} (hs : SystemInv server roster stop s)
    (h : s.main.failure .httpServer = some error) :
    (∃ listener localAddr e, server.bind listener localAddr = .error e ∧ error = e.context "http-server failed") ∨
      ∃ joinError, error = ⟨"http-server panicked", [joinError]⟩ := by
  unfold Main.failure at h
  cases ht : s.main.tasks .httpServer with
  | none => simp [ht] at h
  | some how =>
    rcases how with r | joinError
    · rcases r with e | ⟨⟩
      · obtain rfl : e.context "http-server failed" = error := by simpa [ht, labeled, Component.name] using h
        have hr := hs.done _ _ ht
        simp only [result, HttpRun.result] at hr
        split at hr
        · cases hr
        · next v hv =>
          obtain ⟨_, _, _, -, hreach⟩ := hs.serving v hv
          split at hr
          · next r hp =>
            cases hr
            cases (hreach.serveInv.returned _ hp).1
          · cases hr
        · next e' he =>
          cases hr
          obtain ⟨l, addr, hbind⟩ := hs.unbound e he
          exact .inl ⟨l, addr, e, hbind, rfl⟩
      · simp [ht, labeled] at h
    · exact .inr ⟨joinError, by simpa [ht, labeled, Component.name, AnyhowError.context] using h.symm⟩

private theorem SystemInv.cronFailure {error : AnyhowError} (hs : SystemInv server roster stop s)
    (h : s.main.failure .cron = some error) :
    (∃ e, error = ⟨"cron failed", ["failed to start the cron engine", e]⟩) ∨
      (∃ e, stop = .error e ∧ error = ⟨"cron failed", ["failed to stop the cron engine", e]⟩) ∨
      ∃ joinError, error = ⟨"cron panicked", [joinError]⟩ := by
  unfold Main.failure at h
  cases ht : s.main.tasks .cron with
  | none => simp [ht] at h
  | some how =>
    rcases how with r | joinError
    · rcases r with e | ⟨⟩
      · obtain rfl : e.context "cron failed" = error := by simpa [ht, labeled, Component.name] using h
        have hr := hs.done _ _ ht
        simp only [result, CronRun.result] at hr
        split at hr
        · cases hr
        · next v hv =>
          obtain ⟨hreach, -⟩ := hs.ticking v hv
          cases hp : v.phase with
          | parked | stopping | draining => simp [hp, CronPhase.result] at hr
          | returned told exit =>
            cases exit with
            | drained | fenced => simp [hp, CronPhase.result] at hr
            | stopFailed e' =>
              obtain rfl : e' = e := by simpa [hp, CronPhase.result] using hr
              obtain ⟨x, hstop, rfl⟩ := hreach.stopFailed_eq hp
              exact .inr (.inl ⟨x, hstop, rfl⟩)
        · next e' he =>
          cases hr
          obtain ⟨x, rfl⟩ := hs.unstarted e he
          exact .inl ⟨x, rfl⟩
      · simp [ht, labeled] at h
    · exact .inr (.inr ⟨joinError, by simpa [ht, labeled, Component.name, AnyhowError.context] using h.symm⟩)

private theorem SystemInv.swept_http (hs : SystemInv server roster stop s)
    (h : s.main.tasks .httpServer = some (.done (.ok ()))) :
    ∃ v, s.http = .serving v ∧ v.phase = .returned (.ok ()) ∧ v.Drained := by
  have hr := hs.done _ _ h
  simp only [result, HttpRun.result] at hr
  split at hr
  · cases hr
  · next v hv =>
    obtain ⟨_, _, _, -, hreach⟩ := hs.serving v hv
    split at hr
    · next r hp =>
      cases hr
      exact ⟨v, hv, hp, hreach.serveInv.watched_eq_nil.1 (hreach.serveInv.returned _ hp).2⟩
    · cases hr
  · cases hr

private theorem SystemInv.swept_cron (hs : SystemInv server roster stop s)
    (h : s.main.tasks .cron = some (.done (.ok ()))) :
    ∃ v told, s.cron = .running v ∧
      (v.phase = .returned told .drained ∧ v.engine.idle = true ∨
        v.phase = .returned told .fenced ∧ told + drainGrace ≤ v.engine.now ∧
          CronServer.fencedLine ∈ v.engine.log) := by
  have hr := hs.done _ _ h
  simp only [result, CronRun.result] at hr
  split at hr
  · cases hr
  · next v hv =>
    obtain ⟨hreach, -⟩ := hs.ticking v hv
    cases hp : v.phase with
    | parked | stopping | draining => simp [hp, CronPhase.result] at hr
    | returned told exit =>
      refine ⟨v, told, hv, ?_⟩
      -- an engine that fails to stop makes the component fail
      cases hstop : stop with
      | error error =>
        rw [hstop] at hreach
        obtain ⟨e, rfl⟩ := (CronServer.not_draining_of_error hreach).2 told exit hp
        simp [hp, CronPhase.result] at hr
      | ok u =>
        have hdrain : CronServer.DrainInv v := CronServer.Reachable.drainInv (hstop ▸ hreach)
        cases exit with
        | drained => exact .inl ⟨hp, hdrain.drained told hp⟩
        | fenced => exact .inr ⟨hp, hdrain.fenced told hp, hreach.fencedLine_mem hp⟩
        | stopFailed e => simp [hp, CronPhase.result] at hr
  · cases hr

private theorem SystemInv.clean (hs : SystemInv server roster stop s) (h : s.main.status.exitCode = some 0) :
    s.main.received = 1 ∧ s.Swept := by
  have hdone := hs.main.mainInv.success h
  refine ⟨?_, hs.swept_http (hdone _), hs.swept_cron (hdone _)⟩
  have hle : s.main.received ≤ 1 := by
    rcases hs.main.received_le_one with hle | h130
    · exact hle
    · rw [h130] at h
      cases h
  rcases hs.caused (hs.shutdown_of_ok (hs.done .cron _ (hdone _))) with hr | ⟨c, hc⟩
  · exact Nat.le_antisymm hle hr
  · simp [Main.failure, hdone c, labeled] at hc

/-- The law holds over every interleaving of the application. -/
theorem system_law (h : Reachable server roster stop s) : SystemLaw server roster stop s := by
  have hs := h.systemInv
  refine ⟨hs.main, fun v hv => ?_, hs.ticking, hs.caused, fun hnone => ⟨fun v hv => ?_, fun v hv => ?_⟩,
    fun error => hs.httpFailure, fun error => hs.cronFailure, hs.clean, fun r hr h0 => ?_⟩
  · obtain ⟨listener, localAddr, bound, hbind, hreach⟩ := hs.serving v hv
    exact ⟨bound, timeout_of_bind hbind, hreach⟩
  · obtain ⟨_, _, _, -, hreach⟩ := hs.serving v hv
    by_contra hp
    have hsome := hs.resolved v hv (hreach.resolved hp)
    simp [hnone] at hsome
  · by_contra hp
    have hsome := hs.stopping v hv hp
    simp [hnone] at hsome
  · rcases r with error | ⟨⟩
    · rw [hr]
      rfl
    · have h1 := (hs.clean (by rw [hr]; rfl)).1
      rw [h0] at h1
      cases h1

/-- A SIGTERM while one stream is served and one tick of the shipped job is in flight. -/
def termed : List (SystemAction Unit String) :=
  [.bind (.ok ()) (.ok "127.0.0.1:8080"), .start (.ok ()), .serve (.accept (.ok "stream") (.ok ())),
    .cron (.engine (.create ())), .main (.signal .sigterm), .main (.recv .sigterm), .serve .resolve, .serve .shutdown,
    .cron .shutdown, .serve (.finish 0 (.done (.ok ()))), .serve .stopped, .finish .httpServer, .cron .stopped,
    .cron (.engine (.dispatch 0)), .cron (.engine (.resume 0 (some (.ok ())))), .cron .wait, .finish .cron,
    .main (.observe .cron), .main (.observe .httpServer), .main .join]

/-- The server of the default settings. -/
def shipped : ApiServer := apiServer (Config.default "starterhub" "1.0.0")

theorem system_law_termed : ∃ s, (machine shipped (fun _ : Unit => hello) (.ok ())).run init termed = some s ∧
    s.main.status.exitCode = some 0 ∧ SystemLaw shipped (fun _ : Unit => hello) (.ok ()) s := by
  have hrun : (machine shipped (fun _ : Unit => hello) (.ok ())).run init termed = some _ := rfl
  exact ⟨_, hrun, rfl, system_law (Transition.Machine.reaches_of_run hrun)⟩

end System

end StarterHub
