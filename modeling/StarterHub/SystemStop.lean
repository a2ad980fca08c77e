import StarterHub.SystemWork

/-!
# Every stop ends

A stop is due once a signal is pending, a component has ended or the token is cancelled.  The components then come to
their end by themselves as soon as the connections and the ticks in flight do; and the fence of `main` ends the process
`shutdownGrace` later at the latest, whatever hangs, because time passes only while `main` has nothing to do.
-/

namespace StarterHub

/-! ### The fence -/

/-- The steps of `main` and the signal task, for which nobody has to do anything. -/
def MainAction.isOwn : MainAction → Bool
  | recv _ | observe _ | join | fence => true
  | _ => false

namespace Main

variable {s s' : Main} {a : MainAction} {d : Nat}

/-- For `d` from now on `main` has nothing to do. -/
def Idle (s : Main) (d : Nat) : Prop := ∀ d' < d, ∀ a : MainAction, a.isOwn → { s with now := s.now + d' }.step a = none

/-- The time that is left until the fence. -/
def untilFence (s : Main) : Nat :=
  match s.shutdown with
  | none => shutdownGrace
  | some cancelled => cancelled + shutdownGrace - s.now

private theorem getD_shutdown (s : Main) :
    some (s.shutdown.getD s.now) = s.shutdown ∨ s.shutdown = none ∧ some (s.shutdown.getD s.now) = some s.now := by
  cases h : s.shutdown with
  | none => exact .inr ⟨rfl, rfl⟩
  | some cancelled => exact .inl rfl

/-- The token keeps the instant at which it was cancelled. -/
private theorem shutdown_step (h : s.step a = some s') :
    s'.shutdown = s.shutdown ∨ s.shutdown = none ∧ s'.shutdown = some s.now := by
  obtain ⟨-, hm⟩ := step_cases h
  cases hm with
  | @recv sig hp =>
    by_cases h0 : s.received = 0
    · rw [(onSignal_of_first sig h0).2]
      exact s.getD_shutdown
    · exact .inl (onSignal_of_later sig h0).2
  | observe => exact s.getD_shutdown
  | @join api cron =>
    obtain ⟨events, -, heq⟩ := returnWith_eq (s := s) api cron
    rw [heq]
    exact .inl rfl
  | _ => exact .inl rfl

theorem untilFence_step (h : s.step a = some s') (ha : ∀ d, a ≠ .elapse d) : s'.untilFence = s.untilFence := by
  have hnow := now_of_step h ha
  rcases shutdown_step h with heq | ⟨hc, heq⟩
  · simp only [untilFence, heq, hnow]
  · simp [untilFence, heq, hc, hnow]

theorem Reachable.shutdown_le (h : Reachable s) : ∀ cancelled, s.shutdown = some cancelled → cancelled ≤ s.now := by
  refine Transition.Machine.Reaches.invariant
    (P := fun s => ∀ cancelled, s.shutdown = some cancelled → cancelled ≤ s.now) h (fun s a s' hs h cancelled hc => ?_)
    (by simp [init])
  have hle : s.now ≤ s'.now := by rw [now_step h]; exact Nat.le_add_right _ _
  rcases shutdown_step h with heq | ⟨-, heq⟩
  · exact Nat.le_trans (hs cancelled (heq ▸ hc)) hle
  · obtain rfl : s.now = cancelled := by simpa [heq] using hc
    exact hle

/-- As long as a stop that is due has not reached the token, `main` has something to do. -/
theorem MainInv.acts_of_due (hs : MainInv s) (hrun : s.status = .running) (hdue : s.Due) (hn : s.shutdown = none) :
    ∃ a s', a.isOwn ∧ s.step a = some s' := by
  rcases hdue with h | ⟨sig, hp⟩ | ⟨c, ht⟩
  · simp [hn] at h
  · exact ⟨.recv sig, _, rfl, by rw [step_of_running hrun, act, if_pos hp]⟩
  · obtain ⟨how, ht⟩ := Option.isSome_iff_exists.1 ht
    cases hc : s.supervised c with
    | none => exact ⟨.observe c, _, rfl, by rw [step_of_running hrun, act, ht, hc]⟩
    | some r => simpa [hn] using (hs.observed c r hc).2

/-- So it has once the grace is over. -/
theorem acts_of_late {cancelled : Nat} (hrun : s.status = .running) (hc : s.shutdown = some cancelled)
    (hl : cancelled + shutdownGrace ≤ s.now) : ∃ a s', a.isOwn ∧ s.step a = some s' := by
  by_cases hall : (s.supervised .httpServer).isSome ∧ (s.supervised .cron).isSome
  · obtain ⟨api, ha⟩ := Option.isSome_iff_exists.1 hall.1
    obtain ⟨cron, hk⟩ := Option.isSome_iff_exists.1 hall.2
    exact ⟨.join, _, rfl, by rw [step_of_running hrun, act, ha, hk]⟩
  · refine ⟨.fence, s.exitFenced, rfl, ?_⟩
    rw [step_of_running hrun, act, hc]
    cases ha : s.supervised .httpServer with
    | none => simp [hl]
    | some api =>
      cases hk : s.supervised .cron with
      | none => simp [hl]
      | some cron => simp [ha, hk] at hall

/-- Time that passes while `main` has nothing to do does not pass the fence. -/
theorem MainInv.le_of_idle (hs : MainInv s) (hrun : s.status = .running) (hdue : s.Due) (hi : s.Idle d) (hd : 0 < d) :
    ∃ cancelled, s.shutdown = some cancelled ∧ s.now + d ≤ cancelled + shutdownGrace := by
  cases hc : s.shutdown with
  | none =>
    obtain ⟨a, s', ha, h⟩ := hs.acts_of_due hrun hdue hc
    have hnone := hi 0 hd a ha
    rw [Nat.add_zero, h] at hnone
    cases hnone
  | some cancelled =>
    refine ⟨cancelled, rfl, Nat.le_of_not_lt fun hlt => ?_⟩
    -- the process would have to be idle at the instant of the fence, or now if that is over
    obtain ⟨a, s', ha, h⟩ := acts_of_late (s := { s with now := s.now + (cancelled + shutdownGrace - s.now) }) hrun hc
      (by dsimp; omega)
    rw [hi (cancelled + shutdownGrace - s.now) (by omega) a ha] at h
    cases h

/-- A process that stops is at most `shutdownGrace` past the instant `n`. -/
structure InTime (n : Nat) (s : Main) : Prop where
  now_le : s.now ≤ n + shutdownGrace
  uncancelled : s.shutdown = none → s.now ≤ n
  cancelled : ∀ cancelled, s.shutdown = some cancelled → cancelled ≤ n

theorem InTime.step {n : Nat} (ht : InTime n s) (hs : MainInv s) (hdue : s.Due)
    (hi : ∀ d, a = .elapse d → s.Idle d) (h : s.step a = some s') : InTime n s' := by
  by_cases ha : ∃ d, a = .elapse d
  · obtain ⟨d, rfl⟩ := ha
    obtain ⟨hrun, hm⟩ := step_cases h
    cases hm
    rcases Nat.eq_zero_or_pos d with rfl | hd
    · exact ht
    · obtain ⟨cancelled, hc, hle⟩ := hs.le_of_idle hrun hdue (hi d rfl) hd
      have hcn := ht.cancelled cancelled hc
      exact ⟨by dsimp; omega, by simp [hc], ht.cancelled⟩
  · simp only [not_exists] at ha
    have hnow := now_of_step h ha
    rcases shutdown_step h with heq | ⟨hn, heq⟩
    · exact ⟨hnow ▸ ht.now_le, fun hn => hnow ▸ ht.uncancelled (heq ▸ hn), fun c hc => ht.cancelled c (heq ▸ hc)⟩
    · refine ⟨hnow ▸ ht.now_le, by simp [heq], fun cancelled hc => ?_⟩
      obtain rfl : s.now = cancelled := by simpa [heq] using hc
      exact ht.uncancelled hn

end Main

/-! ### The components -/

/-- Until it has returned, the loop can go on by itself, or a connection can end. -/
theorem Serve.ServeInv.progress {σ : Type} {s : Serve σ} (hs : ServeInv s) (hp : ∀ r, s.phase ≠ .returned r) :
    ∃ a s', (∀ accepted nodelay, a ≠ .accept accepted nodelay) ∧ (∀ k, a ≠ .finish k .panicked) ∧
      s.step a = some s' ∧ s' ≠ s := by
  cases hphase : s.phase with
  | accepting =>
    cases hr : s.resolved with
    | false =>
      refine ⟨.resolve, _, by simp, by simp, rfl, fun heq => ?_⟩
      have := congrArg resolved heq
      simp [hr] at this
    | true =>
      refine ⟨.shutdown, _, by simp, by simp, by rw [Serve.step, hphase, hr], fun heq => ?_⟩
      have := congrArg phase heq
      simp [hphase] at this
  | draining =>
    by_cases hd : s.Drained
    · have he : s.graceful.isEmpty = true := List.isEmpty_iff.2 (hs.watched_eq_nil.2 hd)
      refine ⟨.stopped, _, by simp, by simp, by simp only [Serve.step, hphase, he, ↓reduceIte]; rfl, fun heq => ?_⟩
      have := congrArg phase heq
      simp [hphase] at this
    · -- a connection that is alive can end
      simp only [Drained, not_forall, Bool.not_eq_false] at hd
      obtain ⟨task, hmem, ha⟩ := hd
      obtain ⟨k, hk⟩ := List.mem_iff_getElem?.1 hmem
      have h : s.step (.finish k (.done (.ok ()))) = some (s.close k task (.done (.ok ()))) := by
        simp [Serve.step, hk, ha]
      refine ⟨_, _, by simp, by simp, h, fun heq => ?_⟩
      have hset : (s.tasks.set k (task.finish (.done (.ok ()))))[k]? = some task :=
        (congrArg (fun u : Serve σ => u.tasks[k]?) heq).trans hk
      rw [List.getElem?_set_self (List.getElem?_eq_some_iff.1 hk).1, Option.some.injEq] at hset
      rw [← hset] at ha
      cases ha
  | returned r => exact absurd hphase (hp r)

/-- What a tick in flight needs to end: its polls. -/
def Action.isPoll {ι : Type} : Action ι → Bool
  | .dispatch _ | .resume _ _ => true
  | _ => false

namespace CronServer

variable {ι : Type} [DecidableEq ι] {s : CronServer ι}

/-- A tick that is alive can be polled on. -/
private theorem poll_of_isAlive (roster : ι → Job) {k : Nat} {tick : Tick ι} (hk : s.engine.ticks[k]? = some tick)
    (ha : tick.state.isAlive = true) :
    ∃ b engine, b.isPoll ∧ s.engine.step roster b = some engine ∧ engine ≠ s.engine := by
  have hne : ∀ {j state gate state' events}, s.engine.ticks[k]? = some ⟨j, state⟩ → state'.work < state.work →
      s.engine.settle k j gate state' events ≠ s.engine := fun hk hlt heq =>
    absurd (Engine.work_settle hk hlt _ _) (by rw [heq]; exact Nat.lt_irrefl _)
  obtain ⟨j, state⟩ := tick
  cases state with
  | created =>
    refine ⟨.dispatch k, _, rfl, by simp only [Engine.step, hk]; rfl, hne hk ?_⟩
    exact TickState.work_lt (Engine.dispatch_move _ _ _)
  | running started permit =>
    refine ⟨.resume k (some (.ok ())), _, rfl, by simp only [Engine.step, hk, execute, timeoutPoll]; rfl, hne hk ?_⟩
    exact Nat.zero_lt_one
  | ended how => cases ha

/-- Until it has returned, the server can go on by itself, or a tick in flight can. -/
theorem progress (roster : ι → Job) (stop : Except String Unit) (s : CronServer ι)
    (hp : ∀ told exit, s.phase ≠ .returned told exit) :
    ∃ a s', (∀ b, a = .engine b → b.isPoll) ∧ step roster stop s a = some s' ∧ s' ≠ s := by
  cases hphase : s.phase with
  | parked =>
    refine ⟨.shutdown, _, by simp, by rw [step, hphase], fun heq => ?_⟩
    have := congrArg phase heq
    simp [hphase] at this
  | stopping told =>
    have hstopped : ∃ s', step roster stop s .stopped = some s' ∧ s'.phase ≠ .stopping told := by
      cases stop with
      | error error => exact ⟨_, by rw [step, hphase], by simp⟩
      | ok => exact ⟨_, by rw [step, hphase], by simp⟩
    obtain ⟨s', h, hne⟩ := hstopped
    exact ⟨.stopped, s', by simp, h, fun heq => hne (by rw [heq, hphase])⟩
  | draining told fence =>
    cases hi : s.engine.idle with
    | true =>
      refine ⟨.wait, _, by simp, by simp only [step, hphase, hi, timeoutPoll, ↓reduceIte]; rfl, fun heq => ?_⟩
      have := congrArg phase heq
      simp [hphase] at this
    | false =>
      obtain ⟨tick, hmem, ha⟩ : ∃ t ∈ s.engine.ticks, t.state.isAlive = true := by
        simpa [Engine.idle] using hi
      obtain ⟨k, hk⟩ := List.mem_iff_getElem?.1 hmem
      obtain ⟨b, engine, hb, h, hne⟩ := poll_of_isAlive roster hk ha
      have hallowed : s.allowed b = true := by
        cases b with
        | create j => cases hb
        | _ => rfl
      refine ⟨.engine b, { s with engine }, by simp [hb], by simp [step, hallowed, h], fun heq => ?_⟩
      exact hne (congrArg CronServer.engine heq)
  | returned told exit => exact absurd hphase (hp told exit)

end CronServer

/-! ### The application -/

namespace System

variable {ι σ : Type}

/-- A panic, or a tick that is dropped with its task. -/
def abnormal : SystemAction ι σ → Bool
  | .panic _ _ | .serve (.finish _ .panicked) | .cron (.engine (.panic _)) | .cron (.engine (.drop _)) => true
  | _ => false

def Ended (s : System ι σ) : Prop := s.main.status ≠ .running

variable [DecidableEq ι]

section

variable (server : ApiServer) (roster : ι → Job) (stop : Except String Unit) (s : System ι σ) (a : SystemAction ι σ)

/-- The application goes on by itself: a step of `main` or of a component, or a connection or a tick in flight that
comes to its end in an orderly way. -/
def Proceeds : Prop := Happens server roster stop s a ∧ abnormal a = false

/-- Time passes while `main` has nothing to do. -/
def Waits : Prop := ∃ d, a = .main (.elapse d) ∧ 0 < d ∧ s.main.Idle d

/-- Time does not pass otherwise: what `main` can do is done at that instant. -/
def Punctual : Prop := ∀ d, a = .main (.elapse d) → s.main.Idle d

/-- What the fence of `main` needs: a step of `main`, or time. -/
def Holds : Prop := Happens server roster stop s a ∧ (∃ b, a = .main b) ∨ Waits s a

/-- What a stop that is due leads to. -/
structure StopsLaw : Prop where
  -- By itself the application ends, once what is in flight does: it never gets stuck, and no order of its steps, with
  -- panics in between, goes on for ever.
  ends : (machine server roster stop).Inevitable (Proceeds server roster stop) (Happens server roster stop) Ended s
  -- Whatever hangs, the process ends by the steps of `main` and by time alone, ...
  fenced : (machine server roster stop).Inevitable (Holds server roster stop)
    (fun t a => Happens server roster stop t a ∨ Waits t a) Ended s
  -- ... and in no punctual run, whatever comes in from outside, does the clock pass the grace.
  bounded : ∀ t, (machine server roster stop).ReachesBy Punctual s t → t.main.now ≤ s.main.now + shutdownGrace

end

variable {server : ApiServer} {roster : ι → Job} {stop : Except String Unit} {s s' : System ι σ} {a : SystemAction ι σ}

private theorem Due.step (hdue : s.main.Due) (h : s.step server roster stop a = some s')
    (hrun : s'.main.status = .running) : s'.main.Due := by
  obtain ⟨-, hm⟩ := step_cases h
  clear h
  cases hm with
  | main _ h | finish _ h | panic _ h => exact Main.Due.step hdue h hrun
  | _ => exact hdue

/-! ### It ends by itself -/

variable (server roster stop s) in
/-- A step of its own is possible. -/
private def CanProceed : Prop :=
  ∃ a s', Proceeds server roster stop s a ∧ s.step server roster stop a = some s'

private theorem happens_main (server : ApiServer) (roster : ι → Job) (stop : Except String Unit) {b : MainAction}
    {main : Main} (hrun : s.main.status = .running) (hb : b.isOwn) (h : s.main.step b = some main) :
    Happens server roster stop s (.main b) ∧ ∃ s', s.step server roster stop (.main b) = some s' := by
  have hfinish : b.isFinish = false := by cases b <;> first | rfl | cases hb
  have hout : outside (.main b : SystemAction ι σ) = false := by cases b <;> first | rfl | cases hb
  have hstep : s.step server roster stop (.main b) = some { s with main, cron := s.cron.elapse b.passed } := by
    simp [System.step, hrun, act, hfinish, h]
  refine ⟨⟨hout, fun heq => ?_⟩, _, hstep⟩
  obtain rfl : main = s.main := congrArg System.main (Option.some.inj (hstep.symm.trans heq))
  have hlt : s.main.work < s.main.work := Main.work_lt h (by rintro d rfl; cases hb) (by rintro sig rfl; cases hb)
  exact Nat.lt_irrefl _ hlt

private theorem proceeds_main {b : MainAction} {main : Main} (hrun : s.main.status = .running) (hb : b.isOwn)
    (h : s.main.step b = some main) :
    CanProceed server roster stop s := by
  obtain ⟨ha, s', hstep⟩ := happens_main server roster stop hrun hb h
  exact ⟨.main b, s', ⟨ha, rfl⟩, hstep⟩

private theorem proceeds_finish {c : Component} {r : Except AnyhowError Unit} (hrun : s.main.status = .running)
    (ht : s.main.tasks c = none) (hr : s.result c = some r) :
    CanProceed server roster stop s := by
  obtain ⟨main, hmain⟩ : ∃ main, s.main.step (.finish c (.done r)) = some main :=
    ⟨_, by rw [Main.step_of_running hrun, Main.act, ht]⟩
  have hstep : s.step server roster stop (.finish c) = some { s with main } := by
    simp [System.step, hrun, act, hr, hmain]
  refine ⟨.finish c, _, ⟨⟨rfl, fun heq => ?_⟩, rfl⟩, hstep⟩
  obtain rfl : main = s.main := congrArg System.main (Option.some.inj (hstep.symm.trans heq))
  exact absurd (Main.work_lt hmain (by simp) (by simp)) (Nat.lt_irrefl _)

private theorem proceeds_http (a : SystemAction ι σ) (http : HttpRun σ) (hout : outside a = false)
    (hab : abnormal a = false) (h : s.step server roster stop a = some { s with http }) (hne : http ≠ s.http) :
    CanProceed server roster stop s :=
  ⟨a, _, ⟨⟨hout, fun heq => hne (congrArg System.http (Option.some.inj (h.symm.trans heq)))⟩, hab⟩, h⟩

private theorem proceeds_cron (a : SystemAction ι σ) (cron : CronRun ι) (hout : outside a = false)
    (hab : abnormal a = false) (h : s.step server roster stop a = some { s with cron }) (hne : cron ≠ s.cron) :
    CanProceed server roster stop s :=
  ⟨a, _, ⟨⟨hout, fun heq => hne (congrArg System.cron (Option.some.inj (h.symm.trans heq)))⟩, hab⟩, h⟩

/-- The http-server goes on by itself once it is to stop. -/
private theorem SystemInv.progress_http (hs : SystemInv server roster stop s) (hrun : s.main.status = .running)
    (hshut : s.main.shutdown.isSome) (ht : s.main.tasks .httpServer = none) (hr : s.http.result = none) :
    CanProceed server roster stop s := by
  cases hh : s.http with
  | binding =>
    refine proceeds_http (.bind (.ok ()) (.ok "")) (.serving (.init ⟨"", server.timeout.toNanos⟩)) rfl rfl ?_ ?_
    · simp [System.step, hrun, act, driven, ht, hh, ApiServer.bind]
    · simp [hh]
  | failed error => simp [hh, HttpRun.result] at hr
  | serving v =>
    obtain ⟨_, _, _, -, hreach⟩ := hs.serving v hh
    obtain ⟨b, v', hb, hk, h, hne⟩ := hreach.serveInv.progress fun r hp => by simp [hh, HttpRun.result, hp] at hr
    have hmay : s.mayServe b = true := by
      cases b <;> simp [mayServe, driven, ht, hshut]
    have hstep : s.step server roster stop (.serve b) = some { s with http := .serving v' } := by
      simp [System.step, hrun, act, hh, hmay, h]
    refine proceeds_http (.serve b) (.serving v') ?_ ?_ hstep (by simp [hh, hne])
    · cases b with
      | accept accepted nodelay => exact absurd rfl (hb accepted nodelay)
      | _ => rfl
    · cases b with
      | finish k how =>
        cases how with
        | panicked => exact absurd rfl (hk k)
        | done => rfl
      | _ => rfl

/-- So does the cron server. -/
private theorem progress_cron (hrun : s.main.status = .running) (hshut : s.main.shutdown.isSome)
    (ht : s.main.tasks .cron = none) (hr : s.cron.result = none) :
    CanProceed server roster stop s := by
  cases hc : s.cron with
  | starting =>
    refine proceeds_cron (.start (.ok ())) (.running (CronRun.started s.main.now)) rfl rfl ?_ (by simp [hc])
    simp [System.step, hrun, act, driven, ht, hc]
  | failed error => simp [hc, CronRun.result] at hr
  | running v =>
    obtain ⟨b, v', hb, h, hne⟩ := v.progress roster stop
      fun told exit hp => by cases exit <;> simp [hc, CronRun.result, hp, CronPhase.result] at hr
    have hmay : s.mayCron b = true := by
      cases b with
      | engine b =>
        cases b with
        | elapse d => cases hb _ rfl
        | _ => rfl
      | _ => simp [mayCron, driven, ht, hshut]
    have hstep : s.step server roster stop (.cron b) = some { s with cron := .running v' } := by
      simp [System.step, hrun, act, hc, hmay, h]
    refine proceeds_cron (.cron b) (.running v') ?_ ?_ hstep (by simp [hc, hne])
    all_goals
      cases b with
      | engine b =>
        cases b with
        | dispatch | resume => rfl
        | _ => cases hb _ rfl
      | _ => rfl

private theorem SystemInv.progress (hs : SystemInv server roster stop s) (hrun : s.main.status = .running)
    (hdue : s.main.Due) : CanProceed server roster stop s := by
  cases hshut : s.main.shutdown with
  | none =>
    obtain ⟨b, main, hb, h⟩ := hs.main.mainInv.acts_of_due hrun hdue hshut
    exact proceeds_main hrun hb h
  | some cancelled =>
    have hsome : s.main.shutdown.isSome := by simp [hshut]
    by_cases hall : ∃ c, s.main.supervised c = none
    · obtain ⟨c, hc⟩ := hall
      cases ht : s.main.tasks c with
      | some how =>
        exact proceeds_main (b := .observe c) hrun rfl (by rw [Main.step_of_running hrun, Main.act, ht, hc])
      | none =>
        cases hr : s.result c with
        | some r => exact proceeds_finish hrun ht hr
        | none =>
          cases c with
          | httpServer => exact hs.progress_http hrun hsome ht hr
          | cron => exact progress_cron hrun hsome ht hr
    · -- both ends are observed
      simp only [not_exists, ← ne_eq, Option.ne_none_iff_exists'] at hall
      obtain ⟨api, ha⟩ := hall .httpServer
      obtain ⟨cron, hc⟩ := hall .cron
      exact proceeds_main (b := .join) hrun rfl (by rw [Main.step_of_running hrun, Main.act, ha, hc])

/-! ### It is fenced -/

/-- Nothing but time brings the fence closer. -/
private theorem untilFence_eq (ha : outside a = false) (h : s.step server roster stop a = some s') :
    s'.main.untilFence = s.main.untilFence := by
  obtain ⟨-, hm⟩ := step_cases h
  clear h
  cases hm with
  | main _ h => exact Main.untilFence_step h (by rintro d rfl; cases ha)
  | finish _ h | panic _ h => exact Main.untilFence_step h (by simp)
  | _ => rfl

private theorem elapse_eq {d : Nat} (h : s.step server roster stop (.main (.elapse d)) = some s') :
    s' = { s with main := { s.main with now := s.main.now + d }, cron := s.cron.elapse d } := by
  obtain ⟨-, hm⟩ := step_cases h
  cases hm with
  | main _ hmain =>
    obtain ⟨-, hm⟩ := Main.step_cases hmain
    cases hm
    rfl

omit [DecidableEq ι] in
private theorem work_elapse (d : Nat) :
    (System.mk { s.main with now := s.main.now + d } s.http (s.cron.elapse d)).work = s.work := by
  cases hc : s.cron <;> simp only [work, hc, CronRun.elapse] <;> rfl

/-- What is left, of the work and of the grace. -/
private def left (s : System ι σ) : Nat := s.work + s.main.untilFence

private theorem SystemInv.left_lt (hs : SystemInv server roster stop s) (hdue : s.main.Due)
    (ha : Happens server roster stop s a ∨ Waits s a) (h : s.step server roster stop a = some s') :
    left s' < left s := by
  rcases ha with ha | ⟨d, rfl, hd, hi⟩
  · exact Nat.add_lt_add_of_lt_of_le (work_lt ha h) (Nat.le_of_eq (untilFence_eq ha.1 h))
  · obtain ⟨cancelled, hc, hle⟩ := hs.main.mainInv.le_of_idle (step_cases h).1 hdue hi hd
    rw [elapse_eq h, left, left, work_elapse]
    simp only [Main.untilFence, hc]
    omega

private theorem held (hrun : s.main.status = .running) :
    ∃ a s', Holds server roster stop s a ∧ s.step server roster stop a = some s' := by
  by_cases hi : s.main.Idle 1
  · exact ⟨.main (.elapse 1), _, .inr ⟨1, rfl, Nat.zero_lt_one, hi⟩, by
      simp only [System.step, hrun, act, MainAction.isFinish, Main.step, Main.act]; rfl⟩
  · simp only [Main.Idle, Nat.lt_one_iff, forall_eq, Nat.add_zero, not_forall] at hi
    obtain ⟨b, hb, hne⟩ := hi
    obtain ⟨main, h⟩ := Option.ne_none_iff_exists'.1 hne
    obtain ⟨ha, s', hstep⟩ := happens_main server roster stop hrun hb h
    exact ⟨.main b, s', .inl ⟨ha, b, rfl⟩, hstep⟩

private theorem inTime_step {n : Nat} (hs : SystemInv server roster stop s) (hdue : s.main.Due)
    (ht : s.main.InTime n) (hp : Punctual s a) (h : s.step server roster stop a = some s') : s'.main.InTime n := by
  obtain ⟨-, hm⟩ := step_cases h
  clear h
  cases hm with
  | main _ h => exact ht.step hs.main.mainInv hdue (fun d hd => hp d (hd ▸ rfl)) h
  | finish _ h | panic _ h => exact ht.step hs.main.mainInv hdue (by simp) h
  | _ => exact ht

/-! ### The law -/

/-- Once a stop is due the application ends, by itself or by the fence. -/
theorem system_stops (h : Reachable server roster stop s) (hdue : s.main.Due) : StopsLaw server roster stop s := by
  let I : System ι σ → Prop := fun t => SystemInv server roster stop t ∧ (t.main.status = .running → t.main.Due)
  have hI : ∀ t a u, I t → t.step server roster stop a = some u → I u := fun t a u ht hstep =>
    ⟨ht.1.step hstep, Due.step (ht.2 (step_cases hstep).1) hstep⟩
  have hs : I s := ⟨h.systemInv, fun _ => hdue⟩
  refine ⟨?_, ?_, fun t ht => ?_⟩
  · refine Transition.Machine.inevitable_of_measure (I := I) work (fun t ht => ?_) (fun t a u ht ha hstep => ?_) hs
    · by_cases hrun : t.main.status = .running
      · exact .inr (ht.1.progress hrun (ht.2 hrun))
      · exact .inl hrun
    · exact ⟨hI t a u ht hstep, work_lt ha hstep⟩
  · refine Transition.Machine.inevitable_of_measure (I := I) left (fun t ht => ?_) (fun t a u ht ha hstep => ?_) hs
    · by_cases hrun : t.main.status = .running
      · exact .inr (held hrun)
      · exact .inl hrun
    · exact ⟨hI t a u ht hstep, ht.1.left_lt (ht.2 (step_cases hstep).1) ha hstep⟩
  · have hstart : s.main.InTime s.main.now :=
      ⟨Nat.le_add_right _ _, fun _ => Nat.le_refl _, h.systemInv.main.shutdown_le⟩
    have htime : I t ∧ t.main.InTime s.main.now := by
      refine ht.invariant (I := fun t => I t ∧ t.main.InTime s.main.now) (fun t a u ht hp hstep => ?_) ⟨hs, hstart⟩
      have hdue := ht.1.2 (step_cases hstep).1
      exact ⟨hI t a u ht.1 hstep, inTime_step ht.1.1 hdue ht.2 hp hstep⟩
    exact htime.2.now_le

/-- The http-server panics before it listens, while a tick of the shipped job is in flight. -/
def halfAlive : List (SystemAction Unit String) :=
  [.start (.ok ()), .cron (.engine (.create ())), .cron (.engine (.dispatch 0)),
    .panic .httpServer "task 7 panicked"]

theorem system_stops_halfAlive : ∃ s, (machine shipped (fun _ : Unit => hello) (.ok ())).run init halfAlive = some s ∧
    StopsLaw shipped (fun _ : Unit => hello) (.ok ()) s := by
  have hrun : (machine shipped (fun _ : Unit => hello) (.ok ())).run init halfAlive = some _ := rfl
  exact ⟨_, hrun, system_stops (Transition.Machine.reaches_of_run hrun) (.inr (.inr ⟨.httpServer, rfl⟩))⟩

end System

end StarterHub
