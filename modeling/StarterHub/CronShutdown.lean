import StarterHub.CronServer
import Mathlib.Logic.IsEmpty.Basic

/-!
# What a shutdown of the cron server leaves behind

`DrainLaw` is what "graceful" means for jobs: `Server::run` returns with no tick future alive or with `DRAIN_GRACE`
spent, and unless it spent the grace no body ever runs again.  When `JobScheduler::shutdown` returns `Ok` the law
holds on every path (`DrainInv`).  When it fails, the `?` on its result returns before `tracker.close()`, with
whatever was in flight: any roster with a job at all breaks the law.
-/

namespace StarterHub

namespace Engine

variable {ι : Type} [DecidableEq ι] {roster : ι → Job} {s s' : Engine ι} {a : Action ι}

theorem now_le (h : step roster s a = some s') : s.now ≤ s'.now := by
  obtain ⟨d, -, rfl⟩ | ⟨j, -, rfl⟩ | rfl | ⟨k, j, state, gate, state', events, -, -, -, rfl⟩ := step_cases h
  · exact Nat.le_add_right _ _
  all_goals exact Nat.le_refl _

/-- On an idle engine only the creation of a tick changes the ticks. -/
theorem idle_step (hs : s.idle = true) (ha : ∀ j, a ≠ .create j) (h : step roster s a = some s') :
    s'.idle = true := by
  obtain ⟨d, -, rfl⟩ | ⟨j, rfl, -⟩ | rfl | ⟨k, j, state, gate, state', events, -, hk, hm, rfl⟩ := step_cases h
  · exact hs
  · exact absurd rfl (ha j)
  · exact hs
  · have := idle_eq_true.1 hs _ (List.mem_of_getElem? hk)
    cases hm <;> cases this

end Engine

namespace CronServer

variable {ι : Type} [DecidableEq ι] {roster : ι → Job} {stop : Except String Unit} {s s' : CronServer ι}
  {a : CronAction ι}

/-- What a shutdown promises for the jobs, in the state `s` of the server. -/
structure DrainLaw (roster : ι → Job) (stop : Except String Unit) (s : CronServer ι) : Prop where
  -- Once `Server::run` has returned, no tick future is alive or the grace has elapsed since the stop.
  settled : ∀ told exit, s.phase = .returned told exit →
    s.engine.idle = true ∨ told + drainGrace ≤ s.engine.now
  -- Once it has returned without the grace branch, no body runs any more.
  quiet : ∀ told exit, s.phase = .returned told exit → exit ≠ .fenced →
    ∀ s', (machine roster stop).Reaches s s' → ∀ t ∈ s'.engine.ticks, t.state.isRunning = false

structure DrainInv (s : CronServer ι) : Prop where
  stopping : ∀ told, s.phase = .stopping told → told ≤ s.engine.now
  draining : ∀ told fence, s.phase = .draining told fence → told + drainGrace ≤ fence
  drained : ∀ told, s.phase = .returned told .drained → s.engine.idle = true
  fenced : ∀ told, s.phase = .returned told .fenced → told + drainGrace ≤ s.engine.now
  stopped : ∀ told error, s.phase ≠ .returned told (.stopFailed error)

omit [DecidableEq ι] in
private theorem drainInv_init : DrainInv (init : CronServer ι) := by
  constructor <;> simp [init]

private theorem DrainInv.engine {b : Action ι} {engine : Engine ι} (hs : DrainInv s) (hb : s.allowed b)
    (he : s.engine.step roster b = some engine) : DrainInv { s with engine } where
  stopping told hp := Nat.le_trans (hs.stopping told hp) (Engine.now_le he)
  draining := hs.draining
  drained told hp := by
    refine Engine.idle_step (hs.drained told hp) (fun j e => ?_) he
    subst e
    simp only at hp
    simp [allowed, hp, CronPhase.ticking] at hb
  fenced told hp := Nat.le_trans (hs.fenced told hp) (Engine.now_le he)
  stopped := hs.stopped

/-- The step lemma: when `JobScheduler::shutdown` returns `Ok`, every step keeps the bookkeeping. -/
theorem DrainInv.step (hs : DrainInv s) (h : CronServer.step roster (.ok ()) s a = some s') : DrainInv s' := by
  obtain ⟨b, engine, -, hb, he, rfl⟩ | rfl | ⟨hn, ht, h⟩ := step_cases h
  · exact hs.engine hb he
  · exact hs
  · have hidle : s'.engine.idle = s.engine.idle := by simp [Engine.idle, ht]
    rcases h with ⟨-, hp'⟩ | ⟨told, hp, -, hp'⟩ | ⟨told, error, -, hstop, -⟩ | ⟨told, fence, hp, hi, hp'⟩ |
      ⟨told, fence, hp, hi, hf, hp'⟩
    · constructor <;> simp [hp', hn]
    · have := hs.stopping told hp
      constructor <;> simp [hp', this]
    · cases hstop
    · constructor <;> simp [hp', hidle, hi]
    · have := hs.draining told fence hp
      constructor <;> simp [hp', hn]
      omega

theorem Reachable.drainInv (h : Reachable roster (.ok ()) s) : DrainInv s :=
  Transition.Machine.Reaches.invariant h (fun _ _ _ => DrainInv.step) drainInv_init

private theorem returned_stable {told : Nat} {exit : CronExit} (hp : s.phase = .returned told exit)
    (h : (machine roster stop).Reaches s s') : s'.phase = .returned told exit := by
  refine Transition.Machine.Reaches.invariant (P := fun t => t.phase = .returned told exit) h
    (fun t a t' ht hstep => ?_) hp
  obtain ⟨b, engine, -, -, -, rfl⟩ | rfl | ⟨-, -, h⟩ := step_cases hstep
  · exact ht
  · exact ht
  · rw [ht] at h
    rcases h with ⟨h, -⟩ | ⟨_, h, -⟩ | ⟨_, _, h, -⟩ | ⟨_, _, h, -⟩ | ⟨_, _, h, -⟩ <;> cases h

private theorem drainLaw_of_ok (h : Reachable roster (.ok ()) s) : DrainLaw roster (.ok ()) s := by
  have hs := h.drainInv
  refine ⟨fun told exit hp => ?_, fun told exit hp hne s' h' t ht => ?_⟩
  · cases exit with
    | drained => exact .inl (hs.drained told hp)
    | fenced => exact .inr (hs.fenced told hp)
    | stopFailed error => exact absurd hp (hs.stopped told error)
  · have hs' := Reachable.drainInv (Transition.Machine.Reaches.trans h h')
    have hp' := returned_stable hp h'
    cases exit with
    | drained => exact Engine.not_running_of_idle (hs'.drained told hp') t ht
    | fenced => exact absurd rfl hne
    | stopFailed error => exact absurd hp' (hs'.stopped told error)

/-- Without jobs there are no ticks, and nothing to drain. -/
private theorem drainLaw_of_isEmpty [IsEmpty ι] : DrainLaw roster stop s where
  settled _ _ _ := .inl (Engine.idle_eq_true.2 fun t => isEmptyElim t.job)
  quiet _ _ _ _ _ _ t := isEmptyElim t.job

/-- The early return: told to stop with a tick alive, the server hands back the error of the engine at once. -/
private theorem stopFailed_run (roster : ι → Job) (error : String) (j : ι) :
    (machine roster (.error error)).run init [.engine (.create j), .shutdown, .stopped] =
      some ⟨⟨0, fun _ => .new 1, [⟨j, .created⟩],
          [⟨.info, "cron engine started", []⟩, ⟨.info, "cron engine shutting down", []⟩]⟩,
        .returned 0 (.stopFailed ⟨"failed to stop the cron engine", [error]⟩)⟩ := rfl

private theorem not_drainLaw_of_error (roster : ι → Job) (error : String) (j : ι) :
    ∃ s, Reachable roster (.error error) s ∧ ¬ DrainLaw roster (.error error) s := by
  refine ⟨_, Transition.Machine.reaches_of_run (stopFailed_run roster error j), fun h => ?_⟩
  rcases h.settled 0 _ rfl with hi | hn
  · cases Engine.idle_eq_true.1 hi ⟨j, .created⟩ (List.mem_singleton_self _)
  · exact absurd hn (Nat.not_le.2 (show 0 < 0 + drainGrace by decide))

/-- A shutdown of the cron server keeps the law over every interleaving iff `JobScheduler::shutdown` returns `Ok`
(or the roster is empty). -/
theorem drains_iff (roster : ι → Job) (stop : Except String Unit) :
    (∀ s, Reachable roster stop s → DrainLaw roster stop s) ↔ stop = .ok () ∨ IsEmpty ι := by
  constructor
  · intro h
    cases stop with
    | ok u => exact .inl rfl
    | error error =>
      right
      refine ⟨fun j => ?_⟩
      obtain ⟨s, hs, hlaw⟩ := not_drainLaw_of_error roster error j
      exact hlaw (h s hs)
  · rintro (rfl | hι) s hs
    · exact drainLaw_of_ok hs
    · exact drainLaw_of_isEmpty

/-- A stop of the engine that fails while the shipped job has a tick in flight. -/
theorem drains_fails : ¬ ∀ s, Reachable (fun _ : Unit => hello) (.error "TickError") s →
    DrainLaw (fun _ : Unit => hello) (.error "TickError") s := by
  intro h
  obtain ⟨s, hs, hlaw⟩ := not_drainLaw_of_error (fun _ : Unit => hello) "TickError" ()
  exact hlaw (h s hs)

end CronServer

end StarterHub
