import StarterHub.Main

/-!
# Supervision

What holds of the process in every state of every run: the token is cancelled once a component was observed and
stays so, `main` returns with both components down and with the right error, each failure is logged exactly once,
and the two forced exits happen only for their reasons.  `MainInv` is the invariant behind it.
-/

namespace StarterHub

/-- The line says that the component `c` stopped with an error. -/
def reports (c : Component) (event : Event) : Bool :=
  event.message == "component stopped with an error" && event.fields.lookup "component" == some (.text c.name)

namespace Main

/-- The error `supervise` gives to the end of a component, if that end was a failure or a panic. -/
def failure (s : Main) (c : Component) : Option AnyhowError :=
  match (s.tasks c).map (labeled c) with
  | some (.error error) => some error
  | _ => none

def reported (s : Main) (c : Component) : List Event := s.log.filter (reports c)

structure SupervisionLaw (s : Main) : Prop where
  -- Once `supervise` has finished for a component the token is cancelled.
  cancelled : ∀ c, (s.supervised c).isSome → s.shutdown.isSome
  -- The token is never un-cancelled.
  latched : ∀ t, s.shutdown = some t → ∀ s', machine.Reaches s s' → s'.shutdown = some t
  -- `main` returns only when both components have ended.
  ended : ∀ r, s.status = .returned r → ∀ c, (s.tasks c).isSome
  -- The exit status is 0 only if both components ended with `Ok`.
  success : s.status.exitCode = some 0 → ∀ c, s.tasks c = some (.done (.ok ()))
  -- After a failure `main` returns the http-server's error if there is one, else cron's.
  failed : ∀ r, s.status = .returned r → ∀ error, (s.failure .httpServer).or (s.failure .cron) = some error →
    r = .error error ∧ s.status.exitCode = some 1
  -- Every failure that was observed is in the journal exactly once, and nothing else is reported.
  logged : ∀ c, (s.supervised c).isSome → s.reported c = ((s.failure c).map (failureLine c)).toList
  -- In particular both are when `main` returns.
  loggedAtReturn : ∀ r, s.status = .returned r → ∀ c, s.reported c = ((s.failure c).map (failureLine c)).toList
  -- Exit 130 happens only after the signal task received two signals.
  interrupted : s.status.exitCode = some 130 → s.received = 2 ∧ 2 ≤ s.delivered
  -- The fence exits only after the grace, with a component still to be observed.
  fenced : s.status = .exited 1 →
    ∃ t c, s.shutdown = some t ∧ t + shutdownGrace ≤ s.now ∧ s.supervised c = none

/-! ### What the pieces of a step change -/

variable {s s' : Main} {a : MainAction} (c : Component) (sig : Signal) (how : TaskEnd)
  (api cron : Except AnyhowError Unit)

@[simp] theorem tasks_onSignal : (s.onSignal sig).tasks = s.tasks := by unfold onSignal; dsimp; split <;> rfl

@[simp] theorem supervised_onSignal : (s.onSignal sig).supervised = s.supervised := by
  unfold onSignal; dsimp; split <;> rfl

@[simp] theorem received_onSignal : (s.onSignal sig).received = s.received + 1 := by
  unfold onSignal; dsimp; split <;> rfl

@[simp] theorem pending_onSignal : (s.onSignal sig).pending = Function.update s.pending sig false := by
  unfold onSignal; dsimp; split <;> rfl

@[simp] theorem delivered_onSignal : (s.onSignal sig).delivered = s.delivered := by
  unfold onSignal; dsimp; split <;> rfl

theorem onSignal_of_first (h : s.received = 0) :
    (s.onSignal sig).status = s.status ∧ (s.onSignal sig).shutdown = some (s.shutdown.getD s.now) := by
  simp [onSignal, h, cancel, trace]

theorem onSignal_of_later (h : s.received ≠ 0) :
    (s.onSignal sig).status = .exited 130 ∧ (s.onSignal sig).shutdown = s.shutdown := by
  simp [onSignal, h, trace]

@[simp] theorem reported_onSignal : (s.onSignal sig).reported c = s.reported c := by
  unfold onSignal reported
  dsimp
  split <;> simp [trace, cancel, reports]

@[simp] theorem reported_supervise :
    (s.supervise c how).reported c = s.reported c ++ failureLines c (labeled c how) := by
  cases hl : labeled c how <;> simp [supervise, trace, cancel, reported, hl, failureLines, failureLine, reports]

theorem reported_supervise_of_ne {c d : Component} (h : d ≠ c) :
    (s.supervise c how).reported d = s.reported d := by
  have hname : c.name ≠ d.name := by cases c <;> cases d <;> simp_all [Component.name]
  cases hl : labeled c how <;>
    simp [supervise, trace, cancel, reported, hl, failureLines, failureLine, reports, hname]

theorem returnWith_eq : ∃ events, (∀ c, events.filter (reports c) = []) ∧
    s.returnWith api cron = { s.trace events with status := .returned (resultAnd api cron) } := by
  unfold returnWith
  split
  · next error h => exact ⟨[], fun _ => rfl, by simp [h, trace]⟩
  · next h =>
    refine ⟨[⟨.info, "shutdown complete", []⟩], fun c => ?_, by simp [h]⟩
    simp [reports]

@[simp] theorem reported_exitFenced : s.exitFenced.reported c = s.reported c := by
  simp [exitFenced, trace, reported, reports]

/-! ### The invariant -/

/-- Why the process is in its status. -/
inductive StatusInv (s : Main) : Prop
  | running (h : s.status = .running) (hr : s.received ≤ 1)
  | returned {api cron : Except AnyhowError Unit} (h : s.status = .returned (resultAnd api cron))
      (ha : s.supervised .httpServer = some api) (hc : s.supervised .cron = some cron)
  | interrupted (h : s.status = .exited 130) (hr : s.received = 2)
  | fenced (h : s.status = .exited 1) {t : Nat} (ht : s.shutdown = some t) (hn : t + shutdownGrace ≤ s.now)
      {c : Component} (hc : s.supervised c = none)

structure MainInv (s : Main) : Prop where
  observed : ∀ c r, s.supervised c = some r → (∃ how, s.tasks c = some how ∧ r = labeled c how) ∧ s.shutdown.isSome
  reported : ∀ c, s.reported c = ((s.supervised c).map (failureLines c)).getD []
  received : s.received + (s.pending .sigint).toNat + (s.pending .sigterm).toNat ≤ s.delivered
  status : StatusInv s

theorem mainInv_init : MainInv init where
  observed := by simp [init]
  reported := by simp [init, Main.reported]
  received := by simp [init]
  status := .running rfl (by simp [init])

private theorem MainInv.received_le (hs : MainInv s) (h : s.status = .running) : s.received ≤ 1 := by
  cases hs.status with
  | running _ hr => exact hr
  | returned h' | interrupted h' | fenced h' => rw [h] at h'; cases h'

/-- Setting a pending flag costs at most the one signal it stands for; clearing one pays for it. -/
private theorem pending_update (f : Signal → Bool) (b : Bool) :
    (Function.update f sig b .sigint).toNat + (Function.update f sig b .sigterm).toNat + (f sig).toNat =
      (f .sigint).toNat + (f .sigterm).toNat + b.toNat := by
  cases sig <;> simp [Function.update] <;> omega

private theorem MainInv.onSignal (hs : MainInv s) (hrun : s.status = .running) (h : s.pending sig = true) :
    MainInv (s.onSignal sig) := by
  have hr := hs.received_le hrun
  have hshutdown : s.shutdown.isSome → (s.onSignal sig).shutdown.isSome := by
    intro hc
    by_cases h0 : s.received = 0
    · simp [(onSignal_of_first sig h0).2]
    · rwa [(onSignal_of_later sig h0).2]
  refine ⟨fun c r hc => ?_, fun c => by simpa using hs.reported c, ?_, ?_⟩
  · rw [supervised_onSignal] at hc
    obtain ⟨hhow, hc⟩ := hs.observed c r hc
    exact ⟨by simpa using hhow, hshutdown hc⟩
  · have hp := pending_update sig s.pending false
    have hd := hs.received
    simp only [h, Bool.toNat_true, Bool.toNat_false, received_onSignal, pending_onSignal, delivered_onSignal] at hp ⊢
    omega
  · by_cases h0 : s.received = 0
    · exact .running ((onSignal_of_first sig h0).1.trans hrun) (by simp [h0])
    · exact .interrupted (onSignal_of_later sig h0).1 (by rw [received_onSignal]; omega)

private theorem MainInv.supervise {c : Component} {how : TaskEnd} (hs : MainInv s) (hrun : s.status = .running)
    (ht : s.tasks c = some how) (hc : s.supervised c = none) : MainInv (s.supervise c how) := by
  refine ⟨fun d r hd => ⟨?_, rfl⟩, fun d => ?_, hs.received, .running hrun (hs.received_le hrun)⟩
  · by_cases hdc : d = c
    · subst hdc
      refine ⟨how, ht, ?_⟩
      simpa [Main.supervise] using hd.symm
    · simp only [Main.supervise, Function.update_of_ne hdc] at hd
      exact (hs.observed d r hd).1
  · by_cases hdc : d = c
    · subst hdc
      have hnone : s.reported d = [] := by simpa [hc] using hs.reported d
      rw [reported_supervise, hnone]
      simp [Main.supervise]
    · rw [reported_supervise_of_ne how hdc, hs.reported d]
      simp [Main.supervise, Function.update_of_ne hdc]

private theorem MainInv.returnWith {api cron : Except AnyhowError Unit} (hs : MainInv s)
    (ha : s.supervised .httpServer = some api) (hc : s.supervised .cron = some cron) :
    MainInv (s.returnWith api cron) := by
  obtain ⟨events, hev, heq⟩ := returnWith_eq (s := s) api cron
  rw [heq]
  refine ⟨hs.observed, fun c => ?_, hs.received, .returned rfl ha hc⟩
  simpa [Main.reported, trace, hev c] using hs.reported c

theorem MainInv.step (hs : MainInv s) (h : s.step a = some s') : MainInv s' := by
  obtain ⟨hrun, hm⟩ := step_cases h
  have hr := hs.received_le hrun
  cases hm with
  | elapse d => exact ⟨hs.observed, hs.reported, hs.received, .running hrun hr⟩
  | signal sig =>
    refine ⟨hs.observed, hs.reported, ?_, .running hrun hr⟩
    have hp := pending_update sig s.pending true
    have hd := hs.received
    simp only [Bool.toNat_true] at hp
    show s.received + (Function.update s.pending sig true .sigint).toNat +
      (Function.update s.pending sig true .sigterm).toNat ≤ s.delivered + 1
    omega
  | recv hp => exact hs.onSignal _ hrun hp
  | finish ht =>
    refine ⟨fun d r hd => ?_, hs.reported, hs.received, .running hrun hr⟩
    obtain ⟨⟨how', ht', hl⟩, hc⟩ := hs.observed d r hd
    refine ⟨⟨how', ?_, hl⟩, hc⟩
    show Function.update s.tasks _ _ d = some how'
    rwa [Function.update_of_ne]
    rintro rfl
    rw [ht] at ht'
    cases ht'
  | observe ht hc => exact hs.supervise hrun ht hc
  | join ha hc => exact hs.returnWith ha hc
  | fence ht hn hc =>
    exact ⟨hs.observed, fun d => (reported_exitFenced d).trans (hs.reported d), hs.received, .fenced rfl ht hn hc⟩

theorem Reachable.mainInv (h : Reachable s) : MainInv s :=
  h.invariant (fun _ _ _ hs h => hs.step h) mainInv_init

theorem shutdown_of_reaches {t : Nat} (h : machine.Reaches s s') (hs : s.shutdown = some t) : s'.shutdown = some t := by
  refine Transition.Machine.Reaches.invariant (P := fun s => s.shutdown = some t) h (fun s a s' hs h => ?_) hs
  obtain ⟨-, hm⟩ := step_cases h
  cases hm with
  | recv _ =>
    by_cases h0 : s.received = 0
    · simp [(onSignal_of_first _ h0).2, hs]
    · rwa [(onSignal_of_later _ h0).2]
  | observe => simp [Main.supervise, trace, cancel, hs]
  | @join api cron ha hc =>
    obtain ⟨events, -, heq⟩ := returnWith_eq (s := s) api cron
    rw [heq]
    exact hs
  | _ => exact hs

/-! ### The law -/

private theorem failure_of_labeled {c : Component} {how : TaskEnd} (h : s.tasks c = some how) :
    (labeled c how = .ok () ∧ s.failure c = none) ∨
      ∃ error, labeled c how = .error error ∧ s.failure c = some error := by
  cases hl : labeled c how with
  | ok => exact .inl ⟨rfl, by simp [failure, h, hl]⟩
  | error error => exact .inr ⟨error, rfl, by simp [failure, h, hl]⟩

private theorem labeled_eq_ok {c : Component} {how : TaskEnd} (h : labeled c how = .ok ()) : how = .done (.ok ()) := by
  rcases how with (_ | ⟨⟩) | _
  · cases h
  · rfl
  · cases h

private theorem MainInv.logged {c : Component} (hs : MainInv s) (h : (s.supervised c).isSome) :
    s.reported c = ((s.failure c).map (failureLine c)).toList := by
  obtain ⟨r, hr⟩ := Option.isSome_iff_exists.1 h
  obtain ⟨⟨how, ht, rfl⟩, -⟩ := hs.observed c r hr
  rw [hs.reported c, hr]
  rcases failure_of_labeled ht with ⟨hl, hf⟩ | ⟨error, hl, hf⟩ <;> simp [hl, hf, failureLines]

theorem MainInv.of_returned {r : Except AnyhowError Unit} (hs : MainInv s) (h : s.status = .returned r) :
    ∃ api cron, s.tasks .httpServer = some api ∧ s.tasks .cron = some cron ∧
      s.supervised .httpServer = some (labeled .httpServer api) ∧ s.supervised .cron = some (labeled .cron cron) ∧
      r = resultAnd (labeled .httpServer api) (labeled .cron cron) := by
  cases hs.status with
  | returned h' ha hc =>
    obtain ⟨⟨api, hta, rfl⟩, -⟩ := hs.observed _ _ ha
    obtain ⟨⟨cron, htc, rfl⟩, -⟩ := hs.observed _ _ hc
    rw [h] at h'
    cases h'
    exact ⟨api, cron, hta, htc, ha, hc, rfl⟩
  | running h' | interrupted h' | fenced h' => rw [h] at h'; cases h'

theorem MainInv.success (hs : MainInv s) (h : s.status.exitCode = some 0) :
    ∀ c, s.tasks c = some (.done (.ok ())) := by
  cases hst : s.status with
  | running => rw [hst] at h; cases h
  | exited code =>
    cases hs.status with
    | interrupted h' | fenced h' => rw [h'] at h; cases h
    | running h' | returned h' => rw [hst] at h'; cases h'
  | returned r =>
    obtain ⟨api, cron, hta, htc, -, -, rfl⟩ := hs.of_returned hst
    rw [hst] at h
    cases ha : labeled .httpServer api with
    | error error => rw [ha] at h; cases h
    | ok =>
      cases hc : labeled .cron cron with
      | error error => rw [ha, hc] at h; cases h
      | ok =>
        rintro (_ | _)
        · rw [hta, labeled_eq_ok ha]
        · rw [htc, labeled_eq_ok hc]

private theorem MainInv.failed {r : Except AnyhowError Unit} {error : AnyhowError} (hs : MainInv s)
    (h : s.status = .returned r) (hf : (s.failure .httpServer).or (s.failure .cron) = some error) :
    r = .error error := by
  obtain ⟨api, cron, hta, htc, -, -, rfl⟩ := hs.of_returned h
  rcases failure_of_labeled hta with ⟨ha, hfa⟩ | ⟨e, ha, hfa⟩ <;>
    rcases failure_of_labeled htc with ⟨hc, hfc⟩ | ⟨e', hc, hfc⟩ <;>
      simp_all [resultAnd]

/-- The law holds over every interleaving of the process. -/
theorem supervision (h : Reachable s) : SupervisionLaw s := by
  have hs := h.mainInv
  refine ⟨fun c hc => ?_, fun t ht s' h' => shutdown_of_reaches h' ht, fun r hr c => ?_, hs.success,
    fun r hr error hf => ?_, fun c => hs.logged, fun r hr c => ?_, fun h130 => ?_, fun h1 => ?_⟩
  · obtain ⟨r, hr⟩ := Option.isSome_iff_exists.1 hc
    exact (hs.observed c r hr).2
  · obtain ⟨api, cron, hta, htc, -⟩ := hs.of_returned hr
    cases c <;> simp [hta, htc]
  · obtain rfl := hs.failed hr hf
    exact ⟨rfl, by rw [hr]; rfl⟩
  · obtain ⟨api, cron, -, -, ha, hc, -⟩ := hs.of_returned hr
    exact hs.logged (by cases c <;> simp [ha, hc])
  · cases hs.status with
    | interrupted h' hr => exact ⟨hr, by have := hs.received; omega⟩
    | running h' => rw [h'] at h130; cases h130
    | fenced h' => rw [h'] at h130; cases h130
    | @returned api cron h' =>
      rw [h'] at h130
      rcases hr : resultAnd api cron with error | ⟨⟩ <;> rw [hr] at h130 <;> cases h130
  · cases hs.status with
    | fenced h' ht hn hc => exact ⟨_, _, ht, hn, hc⟩
    | running h' | returned h' | interrupted h' => rw [h1] at h'; cases h'

/-- A run in which both components fail, the cron engine first. -/
def bothFail : List MainAction :=
  [.finish .cron (.panicked "task 7 panicked"), .finish .httpServer (.done (.error ⟨"bind", []⟩)),
    .observe .cron, .observe .httpServer, .join]

def bothFailed : Main := (machine.run init bothFail).getD init

/-- The http-server's error is the one returned, and both are in the journal. -/
theorem supervision_both_fail :
    bothFailed.status = .returned (.error ⟨"http-server failed", ["bind"]⟩) ∧ SupervisionLaw bothFailed :=
  ⟨rfl, supervision (Transition.Machine.reaches_of_run (l := bothFail) rfl)⟩

end Main

end StarterHub
