import StarterHub.CronServer

/-!
# The drain grace and the budgets of the jobs

`Server::run` waits `DRAIN_GRACE` for the runs in flight, while each of them may use what is left of its own
`Job::timeout`.  Over the runs in which no job outlives its budget (`WithinBudget` in every state), the grace
branch is out of reach exactly when every tick alive at the start of the drain is a run with less than the grace
left: a longer budget, or a tick still waiting for its first poll, can be cut.  The default budget is ten times the
grace.
-/

namespace StarterHub

namespace CronServer

variable {ι : Type} [DecidableEq ι] {roster : ι → Job} {stop : Except String Unit} {s s' : CronServer ι}
  {a : CronAction ι}

/-- No run has outlived its `Job::timeout`. -/
def WithinBudget (roster : ι → Job) (s : CronServer ι) : Prop :=
  ∀ t ∈ s.engine.ticks, ∀ started permit, t.state = .running started permit →
    s.engine.now ≤ started + (roster t.job).timeout

/-- From the state `s` on, as long as every run keeps its budget: the grace branch is not taken, and when
`Server::run` returns, the ticks alive in `s` are gone. -/
def CutsNothing (roster : ι → Job) (stop : Except String Unit) (s : CronServer ι) : Prop :=
  ∀ s', (machine roster stop).ReachesIn (WithinBudget roster) s s' →
    (∀ told, s'.phase ≠ .returned told .fenced) ∧
    (∀ told exit, s'.phase = .returned told exit →
      ∀ (k : Nat) (t : Tick ι), s.engine.ticks[k]? = some t → t.state.isAlive →
        ∃ t', s'.engine.ticks[k]? = some t' ∧ t'.state.isAlive = false)

/-- Every tick alive is a run whose budget ends before `fence`. -/
def EndsBefore (roster : ι → Job) (fence : Nat) (s : CronServer ι) : Prop :=
  ∀ t ∈ s.engine.ticks, t.state.isAlive →
    ∃ started permit, t.state = .running started permit ∧ started + (roster t.job).timeout < fence

/-! ### Short budgets drain in time -/

/-- A drain whose ticks end before its fence, or one that already emptied the tracker. -/
structure InTime (roster : ι → Job) (told fence : Nat) (n : Nat) (s : CronServer ι) : Prop where
  length : s.engine.ticks.length = n
  phase : s.phase = .draining told fence ∧ EndsBefore roster fence s ∨
    s.phase = .returned told .drained ∧ s.engine.idle = true

private theorem InTime.engine {told fence n : Nat} {b : Action ι} {engine : Engine ι}
    (hs : InTime roster told fence n s) (hb : s.allowed b) (he : s.engine.step roster b = some engine) :
    InTime roster told fence n { s with engine } := by
  obtain ⟨d, -, rfl⟩ | ⟨j, rfl, -⟩ | rfl | ⟨k, j, state, gate, state', events, -, hk, hm, rfl⟩ :=
    Engine.step_cases he
  · exact ⟨hs.length, hs.phase⟩
  · rcases hs.phase with ⟨hp, -⟩ | ⟨hp, -⟩ <;> simp [allowed, hp, CronPhase.ticking] at hb
  · exact hs
  · refine ⟨by simpa using hs.length, ?_⟩
    have hmem := List.mem_of_getElem? hk
    rcases hs.phase with ⟨hp, hend⟩ | ⟨-, hi⟩
    · refine .inl ⟨hp, fun t ht halive => ?_⟩
      rcases List.mem_or_eq_of_mem_set ht with ht | rfl
      · exact hend t ht halive
      · -- only a run ends here: a tick still to be polled is excluded by `EndsBefore`
        cases hm with
        | finish => cases halive
        | _ =>
          obtain ⟨_, _, hr, -⟩ := hend _ hmem rfl
          cases hr
    · have := Engine.idle_eq_true.1 hi _ hmem
      cases hm <;> cases this

private theorem InTime.step {told fence n : Nat} (hq : WithinBudget roster s)
    (hs : InTime roster told fence n s) (h : CronServer.step roster stop s a = some s') :
    InTime roster told fence n s' := by
  obtain ⟨b, engine, -, hb, he, rfl⟩ | rfl | ⟨hn, ht, h⟩ := step_cases h
  · exact hs.engine hb he
  · exact hs
  · have hidle : s'.engine.idle = s.engine.idle := by simp [Engine.idle, ht]
    refine ⟨by rw [ht]; exact hs.length, ?_⟩
    rcases hs.phase with ⟨hp, he⟩ | ⟨hp, -⟩
    · rw [hp] at h
      rcases h with ⟨h, -⟩ | ⟨_, h, -⟩ | ⟨_, _, h, -⟩ | ⟨_, _, h, hi, hp'⟩ | ⟨_, _, h, hi, hf, -⟩
      · cases h
      · cases h
      · cases h
      · cases h
        exact .inr ⟨hp', by rw [hidle, hi]⟩
      · -- the fence has passed, so every run left is over its budget
        cases h
        have hall : s.engine.idle = true := Engine.idle_eq_true.2 fun t ht => by
          by_contra halive
          obtain ⟨started, permit, hr, hlt⟩ := he t ht (by simpa using halive)
          have := hq t ht started permit hr
          omega
        rw [hall] at hi
        cases hi
    · rw [hp] at h
      rcases h with ⟨h, -⟩ | ⟨_, h, -⟩ | ⟨_, _, h, -⟩ | ⟨_, _, h, -⟩ | ⟨_, _, h, -⟩ <;> cases h

private theorem cutsNothing_of_endsBefore {told fence : Nat} (hq : WithinBudget roster s)
    (hp : s.phase = .draining told fence) (he : EndsBefore roster fence s) : CutsNothing roster stop s := by
  intro s' h
  have hs' : InTime roster told fence s.engine.ticks.length s' :=
    Transition.Machine.ReachesIn.invariant h (fun _ _ _ hq _ hs => InTime.step hq hs) hq ⟨rfl, .inl ⟨hp, he⟩⟩
  refine ⟨fun told' h' => ?_, fun told' exit h' k t hk halive => ?_⟩
  · rcases hs'.phase with ⟨hp', -⟩ | ⟨hp', -⟩ <;> rw [hp'] at h' <;> cases h'
  · have hlt : k < s'.engine.ticks.length := by
      rw [hs'.length]; exact (List.getElem?_eq_some_iff.1 hk).1
    refine ⟨s'.engine.ticks[k], List.getElem?_eq_getElem hlt, ?_⟩
    rcases hs'.phase with ⟨hp', -⟩ | ⟨-, hi⟩
    · rw [hp'] at h'; cases h'
    · exact Engine.idle_eq_true.1 hi _ (List.getElem_mem hlt)

/-! ### A longer budget can be cut -/

/-- The sweep that ends the other runs: the ticks below `m` other than the tick `k` run no more. -/
structure Swept (roster : ι → Job) (s : CronServer ι) (k : Nat) (t : Tick ι) (m : Nat) (u : CronServer ι) :
    Prop where
  phase : u.phase = s.phase
  now : u.engine.now = s.engine.now
  kept : u.engine.ticks[k]? = some t
  budget : WithinBudget roster u
  length : u.engine.ticks.length = s.engine.ticks.length
  ended : ∀ i < m, i ≠ k → ∀ x, u.engine.ticks[i]? = some x → x.state.isRunning = false

private theorem engine_step {b : Action ι} {engine : Engine ι} (hb : s.allowed b)
    (h : s.engine.step roster b = some engine) :
    (machine roster stop).step s (.engine b) = some { s with engine } := by
  show CronServer.step roster stop s (.engine b) = _
  simp [CronServer.step, hb, h]

private theorem Swept.next {k m : Nat} {t : Tick ι} {u : CronServer ι} (hu : Swept roster s k t m u) :
    ∃ v, (machine roster stop).ReachesIn (WithinBudget roster) u v ∧ Swept roster s k t (m + 1) v := by
  by_cases hrun : m ≠ k ∧ ∃ j started permit, u.engine.ticks[m]? = some ⟨j, .running started permit⟩
  · obtain ⟨hmk, j, started, permit, hm⟩ := hrun
    obtain ⟨events, hstep⟩ : ∃ events, u.engine.step roster (.resume m (some (.ok ()))) =
        some (u.engine.settle m j (dropPermit permit (u.engine.gates j)) (.ended .completed) events) := by
      simp only [Engine.step, hm]
      exact ⟨_, rfl⟩
    have hbudget : WithinBudget roster
        ⟨u.engine.settle m j (dropPermit permit (u.engine.gates j)) (.ended .completed) events, u.phase⟩ := by
      intro x hx started' permit' hr
      rcases List.mem_or_eq_of_mem_set hx with hx | rfl
      · exact hu.budget x hx started' permit' hr
      · cases hr
    refine ⟨_, (Transition.Machine.ReachesIn.refl u).tail (engine_step rfl hstep) hbudget,
      hu.phase, hu.now, ?_, hbudget, by simpa using hu.length, ?_⟩
    · simpa [List.getElem?_set_ne hmk] using hu.kept
    · intro i hi hik x hx
      by_cases him : i = m
      · subst him
        simp only [Engine.ticks_settle, List.getElem?_set_self (List.getElem?_eq_some_iff.1 hm).1,
          Option.some.injEq] at hx
        subst hx
        rfl
      · rw [Engine.ticks_settle, List.getElem?_set_ne (Ne.symm him)] at hx
        exact hu.ended i (by omega) hik x hx
  · refine ⟨u, .refl u, hu.phase, hu.now, hu.kept, hu.budget, hu.length, fun i hi hik x hx => ?_⟩
    by_cases him : i = m
    · subst him
      obtain ⟨j, state⟩ := x
      cases state with
      | running started permit => exact absurd ⟨hik, j, started, permit, hx⟩ hrun
      | _ => rfl
    · exact hu.ended i (by omega) hik x hx

/-- A tick alive that is not bound to end before the fence outlives the drain in some run where every run keeps its
budget. -/
private theorem fenced_of_late {told fence k : Nat} {t : Tick ι} (hq : WithinBudget roster s)
    (hp : s.phase = .draining told fence) (hk : s.engine.ticks[k]? = some t) (halive : t.state.isAlive)
    (hlate : ∀ started permit, t.state = .running started permit → fence ≤ started + (roster t.job).timeout) :
    ∃ s', (machine roster stop).ReachesIn (WithinBudget roster) s s' ∧ s'.phase = .returned told .fenced := by
  have hs : Swept roster s k t 0 s := ⟨rfl, rfl, hk, hq, rfl, fun i hi => absurd hi (Nat.not_lt_zero i)⟩
  obtain ⟨u, hsu, hu⟩ := Transition.Machine.ReachesIn.sweep (m := machine roster stop) s.engine.ticks.length
    (fun _ _ _ h => h.next) hs
  -- time passes up to the fence; only the tick `k` can still be running
  let v : CronServer ι := { u with engine := { u.engine with now := u.engine.now + (fence - u.engine.now) } }
  have hv : WithinBudget roster v := by
    intro x hx started permit hr
    obtain ⟨i, hi, rfl⟩ := List.getElem_of_mem hx
    change i < u.engine.ticks.length at hi
    change u.engine.ticks[i].state = _ at hr
    have hget : u.engine.ticks[i]? = some u.engine.ticks[i] := List.getElem?_eq_getElem hi
    by_cases hik : i = k
    · subst hik
      obtain rfl : u.engine.ticks[i] = t := by simpa [hget] using hu.kept
      have h1 := hlate started permit hr
      have h2 : u.engine.now ≤ started + (roster u.engine.ticks[i].job).timeout :=
        hu.budget _ (List.getElem_mem hi) started permit hr
      show u.engine.now + (fence - u.engine.now) ≤ started + (roster u.engine.ticks[i].job).timeout
      omega
    · have hended := hu.ended i (by rw [← hu.length]; exact hi) hik _ hget
      rw [hr] at hended
      cases hended
  have hidle : v.engine.idle = false := by
    rw [← Bool.not_eq_true, Engine.idle_eq_true]
    intro h
    rw [h t (List.mem_of_getElem? hu.kept)] at halive
    cases halive
  have hphase : v.phase = .draining told fence := hu.phase.trans hp
  have hle : fence ≤ v.engine.now := by
    show fence ≤ u.engine.now + (fence - u.engine.now)
    omega
  let w : CronServer ι := ⟨(v.engine.trace ⟨.warn, "jobs still in flight at the end of the drain grace; exiting anyway",
      [("grace", .duration drainGrace)]⟩).trace ⟨.info, "cron engine stopped", []⟩, .returned told .fenced⟩
  have hw : (machine roster stop).step v .wait = some w := by
    show CronServer.step roster stop v .wait = _
    simp only [CronServer.step, hphase, hidle, timeoutPoll, hle, Bool.false_eq_true, ↓reduceIte]
    rfl
  exact ⟨w, (hsu.tail (engine_step (b := .elapse _) rfl rfl) hv).tail hw hv, rfl⟩

/-! ### The exact condition -/

omit [DecidableEq ι] in
private theorem withinBudget_of_now (h : s.engine.now = 0) : WithinBudget roster s := by
  intro t _ started permit _
  omega

/-- When `Server::run` starts draining, it cuts no run that keeps its budget iff every tick alive is a run with less
than `DRAIN_GRACE` left of it. -/
theorem drain_cuts_nothing_iff (roster : ι → Job) (stop : Except String Unit) {s : CronServer ι} {told : Nat}
    (hs : (machine roster stop).ReachesIn (WithinBudget roster) init s)
    (hp : s.phase = .draining told (s.engine.now + drainGrace)) :
    CutsNothing roster stop s ↔ EndsBefore roster (s.engine.now + drainGrace) s := by
  have hq : WithinBudget roster s := hs.holds (withinBudget_of_now rfl)
  refine ⟨fun h t ht halive => ?_, cutsNothing_of_endsBefore hq hp⟩
  obtain ⟨k, hk⟩ := List.mem_iff_getElem?.1 ht
  by_contra hno
  obtain ⟨s', hs', hp'⟩ := fenced_of_late hq hp hk halive fun started permit hr => by
    by_contra hlt
    exact hno ⟨started, permit, hr, by omega⟩
  exact (h s' hs').1 told hp'

/-- The shipped job with a run in flight since the instant 0, when the server starts
draining. -/
def drainingHello : CronServer Unit :=
  ⟨⟨0, Function.update (fun _ => .new 1) () (.new 0), [⟨(), .running 0 true⟩],
    [⟨.info, "cron engine started", []⟩, ⟨.info, "cron engine shutting down", []⟩]⟩, .draining 0 (0 + drainGrace)⟩

private theorem reachesIn_drainingHello (timeout : Nat) :
    (machine (fun _ : Unit => { hello with timeout }) (.ok ())).ReachesIn
      (WithinBudget fun _ => { hello with timeout }) init drainingHello := by
  let m := machine (fun _ : Unit => { hello with timeout }) (.ok ())
  have h0 : m.ReachesIn (WithinBudget fun _ => { hello with timeout }) init init := .refl _
  have h1 := h0.tail (a := .engine (.create ())) rfl (withinBudget_of_now rfl)
  have h2 := h1.tail (a := .engine (.dispatch 0)) rfl (withinBudget_of_now rfl)
  have h3 := h2.tail (a := .shutdown) rfl (withinBudget_of_now rfl)
  exact h3.tail (a := .stopped) rfl (withinBudget_of_now rfl)

/-- With ten seconds of budget that run is safe from the fence. -/
theorem drain_cuts_nothing_short :
    CutsNothing (fun _ : Unit => { hello with timeout := fromSecs 10 }) (.ok ()) drainingHello := by
  refine (drain_cuts_nothing_iff _ _ (reachesIn_drainingHello (fromSecs 10)) rfl).2 fun t ht _ => ?_
  obtain rfl := List.mem_singleton.1 ht
  exact ⟨0, true, rfl, by decide⟩

/-- With the default budget of five minutes it may be cut at the fence while it keeps its budget. -/
theorem drain_cuts_default :
    (machine (fun _ : Unit => hello) (.ok ())).ReachesIn (WithinBudget fun _ => hello) init drainingHello ∧
      ¬ CutsNothing (fun _ : Unit => hello) (.ok ()) drainingHello := by
  have hreach := reachesIn_drainingHello (fromSecs 300)
  have hlate : ∀ started permit, TickState.running 0 true = .running started permit →
      0 + drainGrace ≤ started + hello.timeout := by
    intro started permit hr
    cases hr
    decide
  refine ⟨hreach, fun h => ?_⟩
  obtain ⟨s', hs', hp'⟩ := fenced_of_late (s := drainingHello) (k := 0) (hreach.holds (withinBudget_of_now rfl))
    rfl rfl rfl hlate
  exact (h s' hs').1 0 hp'

end CronServer

end StarterHub
