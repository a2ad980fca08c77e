import StarterHub.Engine
import Mathlib.Data.List.Basic

/-!
# One trace per tick

Every way a tick can end by itself is turned into one line of telemetry by `dispatch` or `execute`, except a panic of
the body: it unwinds through `tokio::time::timeout` and `execute` into the future the adapter closure gave to the
engine, past every line.  The journal is therefore, up to order, what the ended ticks should leave (`TraceInv`), and
the accounting of the ticks holds in a history iff no body panicked in it.
-/

namespace StarterHub

/-! ### Lines and ticks -/

namespace TickState

/-- The tick went through `dispatch` and ended by itself. -/
def hasEnded : TickState → Bool
  | ended .dropped => false
  | ended _ => true
  | _ => false

end TickState

/-- The line that names how a tick of `job` ended. -/
def traceOf (job : Job) : TickState → List Event
  | .ended .skipped => [⟨.warn, "job skipped: previous run still in flight", [("job", .text job.name)]⟩]
  | .ended .completed => [⟨.debug, "job completed", [("job", .text job.name)]⟩]
  | .ended (.failed error) => [⟨.error, "job failed", [("job", .text job.name), ("error", .text error.alternate)]⟩]
  | .ended .timedOut =>
    [⟨.error, "job timed out and was cancelled", [("job", .text job.name), ("budget", .duration job.timeout)]⟩]
  | _ => []

/-- The line is about the job of that name. -/
def about (name : String) (event : Event) : Bool := event.fields.lookup "job" == some (.text name)

theorem traceOf_of_isAlive (job : Job) {state : TickState} (h : state.isAlive = true) : traceOf job state = [] := by
  cases state with
  | created | running => rfl
  | ended how => cases h

/-- Unless it panicked, a tick that has ended leaves one line about its own job, and any other tick none. -/
theorem countP_traceOf (job : Job) (name : String) {state : TickState} (h : state ≠ .ended .panicked) :
    (traceOf job state).countP (about name) = if decide (job.name = name) && state.hasEnded then 1 else 0 := by
  cases state with
  | created | running => simp [traceOf, TickState.hasEnded]
  | ended how =>
    cases how with
    | panicked => exact absurd rfl h
    | dropped => simp [traceOf, TickState.hasEnded]
    | skipped | completed | failed | timedOut =>
      simp [traceOf, about, TickState.hasEnded, List.countP_cons]

private theorem countP_flatMap_eq {α β : Type} {p : β → Bool} {q : α → Bool} {f : α → List β} {l : List α}
    (h : ∀ x ∈ l, (f x).countP p = if q x then 1 else 0) : (l.flatMap f).countP p = l.countP q := by
  induction l with
  | nil => rfl
  | cons x l ih =>
    rw [List.flatMap_cons, List.countP_append, h x (List.mem_cons_self ..), List.countP_cons,
      ih fun y hy => h y (List.mem_cons_of_mem _ hy)]
    exact Nat.add_comm _ _

/-- Replacing an entry that contributes nothing adds what the new entry contributes. -/
private theorem flatMap_set_perm {α β : Type} {f : α → List β} {l : List α} {k : Nat} {x : α} (y : α)
    (hk : l[k]? = some x) (hx : f x = []) : ((l.set k y).flatMap f).Perm (l.flatMap f ++ f y) := by
  induction l generalizing k with
  | nil => cases hk
  | cons z l ih =>
    cases k with
    | zero =>
      obtain rfl : z = x := by simpa using hk
      simpa [hx] using List.perm_append_comm
    | succ k =>
      have := (ih (by simpa using hk)).append_left (f z)
      simpa [List.append_assoc] using this

namespace Engine

variable {ι : Type} [DecidableEq ι] {roster : ι → Job} {s s' : Engine ι} {a : Action ι}

/-! ### One step -/

theorem dispatch_traces (job : Job) (now : Nat) (gate : Semaphore) :
    (StarterHub.dispatch job now gate).2.2 = traceOf job (StarterHub.dispatch job now gate).2.1 ∧
      (StarterHub.dispatch job now gate).2.1 ≠ .ended .panicked := by
  unfold StarterHub.dispatch
  split
  · simp [traceOf]
  · split <;> simp [traceOf]

theorem execute_traces {job : Job} {started now : Nat} {body : Option JobResult} {how : TickEnd}
    {events : List Event} (h : execute job started now body = some (how, events)) :
    events = traceOf job (.ended how) ∧ how ≠ .panicked := by
  unfold execute at h
  split at h
  · cases h
  all_goals
    simp only [Option.some.injEq, Prod.mk.injEq] at h
    obtain ⟨rfl, rfl⟩ := h
    simp [traceOf]

/-- A step adds ticks that are still to be polled, or it takes one tick that is alive further and logs the line for it;
only the panic of a body ends a tick as panicked. -/
theorem trace_cases (h : step roster s a = some s') :
    ((∀ k, a ≠ .panic k) ∧ s'.log = s.log ∧ ∃ new, s'.ticks = s.ticks ++ new ∧ ∀ t ∈ new, t.state = .created) ∨
    ∃ k j state state', s.ticks[k]? = some ⟨j, state⟩ ∧ state.isAlive = true ∧
      s'.ticks = s.ticks.set k ⟨j, state'⟩ ∧ s'.log = s.log ++ traceOf (roster j) state' ∧
      (state' = .ended .panicked ↔ ∃ i, a = .panic i) := by
  cases a with
  | elapse d =>
    obtain rfl : { s with now := s.now + d } = s' := by simpa [step] using h
    exact .inl ⟨by simp, rfl, [], by simp⟩
  | create j =>
    obtain rfl : { s with ticks := s.ticks ++ [⟨j, .created⟩] } = s' := by simpa [step] using h
    exact .inl ⟨by simp, rfl, [⟨j, .created⟩], by simp⟩
  | dispatch k =>
    simp only [step] at h
    split at h
    · next j hk =>
      cases h
      obtain ⟨htrace, hne⟩ := dispatch_traces (roster j) s.now (s.gates j)
      exact .inr ⟨k, j, _, _, hk, rfl, rfl, congrArg (s.log ++ ·) htrace, by simp [hne]⟩
    · cases h
  | resume k body =>
    simp only [step] at h
    split at h
    · next j started permit hk =>
      split at h
      · cases h
        exact .inl ⟨by simp, rfl, [], by simp⟩
      · next how events he =>
        cases h
        obtain ⟨htrace, hne⟩ := execute_traces he
        exact .inr ⟨k, j, _, _, hk, rfl, rfl, congrArg (s.log ++ ·) htrace, by simp [hne]⟩
    · cases h
  | panic k =>
    simp only [step] at h
    split at h
    · next j started permit hk =>
      cases h
      exact .inr ⟨k, j, _, _, hk, rfl, rfl, rfl, by simp⟩
    · cases h
  | drop k =>
    simp only [step] at h
    split at h
    · next j hk =>
      cases h
      exact .inr ⟨k, j, _, _, hk, rfl, rfl, rfl, by simp⟩
    · next j started permit hk =>
      cases h
      exact .inr ⟨k, j, _, _, hk, rfl, rfl, rfl, by simp⟩
    · cases h

/-! ### The invariant -/

/-- The journal holds the lines of the ticks, in some order. -/
def TraceInv (roster : ι → Job) (s : Engine ι) : Prop :=
  s.log.Perm (s.ticks.flatMap fun t => traceOf (roster t.job) t.state)

theorem TraceInv.step (hs : TraceInv roster s) (h : step roster s a = some s') : TraceInv roster s' := by
  obtain ⟨-, hlog, new, hticks, hnew⟩ | ⟨k, j, state, state', hk, halive, hticks, hlog, -⟩ := trace_cases h
  · have hnil : (new.flatMap fun t => traceOf (roster t.job) t.state) = [] := by
      refine List.flatMap_eq_nil_iff.2 fun t ht => ?_
      rw [hnew t ht]
      rfl
    rw [TraceInv, hlog, hticks, List.flatMap_append, hnil, List.append_nil]
    exact hs
  · have hset := flatMap_set_perm (f := fun t : Tick ι => traceOf (roster t.job) t.state) ⟨j, state'⟩ hk
      (traceOf_of_isAlive _ halive)
    rw [TraceInv, hlog, hticks]
    exact (hs.append_right _).trans hset.symm

theorem Reachable.traceInv (h : Reachable roster s) : TraceInv roster s :=
  h.invariant (fun _ _ _ => TraceInv.step) (List.Perm.refl [])

/-- A body has panicked. -/
def HasPanicked (s : Engine ι) : Prop := ∃ t ∈ s.ticks, t.state = .ended .panicked

/-- A step leaves behind a panicked body iff there was one before or it is a panic itself. -/
theorem hasPanicked_step (h : step roster s a = some s') :
    s'.HasPanicked ↔ s.HasPanicked ∨ ∃ k, a = .panic k := by
  obtain ⟨ha, -, new, hticks, hnew⟩ | ⟨k, j, state, state', hk, halive, hticks, -, hpanic⟩ := trace_cases h
  · have hno : ¬ ∃ k, a = .panic k := fun ⟨k, e⟩ => ha k e
    simp only [HasPanicked, hticks, List.mem_append, hno, or_false]
    refine ⟨fun ⟨t, ht, hp⟩ => ?_, fun ⟨t, ht, hp⟩ => ⟨t, .inl ht, hp⟩⟩
    rcases ht with ht | ht
    · exact ⟨t, ht, hp⟩
    · rw [hnew t ht] at hp
      cases hp
  · obtain ⟨hlt, hget⟩ := List.getElem?_eq_some_iff.1 hk
    rw [← hpanic, HasPanicked, HasPanicked, hticks]
    constructor
    · rintro ⟨t, ht, hp⟩
      rcases List.mem_or_eq_of_mem_set ht with ht | rfl
      · exact .inl ⟨t, ht, hp⟩
      · exact .inr hp
    · rintro (⟨t, ht, hp⟩ | hp)
      · -- the tick that moves was alive, so the panicked one is another
        obtain ⟨i, hi, rfl⟩ := List.getElem_of_mem ht
        have hik : k ≠ i := by
          rintro rfl
          rw [hget] at hp
          rw [show state = .ended .panicked from hp] at halive
          cases halive
        refine ⟨s.ticks[i], List.mem_of_getElem? (i := i) ?_, hp⟩
        rw [List.getElem?_set_ne hik, List.getElem?_eq_getElem hi]
      · exact ⟨⟨j, state'⟩, List.mem_set hlt _, hp⟩

theorem hasPanicked_run {actions : List (Action ι)} (h : (machine roster).run s actions = some s') :
    s'.HasPanicked ↔ s.HasPanicked ∨ ∃ k, Action.panic k ∈ actions := by
  induction actions generalizing s with
  | nil => cases h; simp
  | cons a actions ih =>
    obtain ⟨t, ha, hrun⟩ := Option.bind_eq_some_iff.1 h
    rw [ih hrun, hasPanicked_step ha]
    simp only [List.mem_cons, or_assoc, exists_or, eq_comm]

/-! ### The law -/

/-- The accounting of the ticks. -/
structure TraceLaw (roster : ι → Job) (s : Engine ι) : Prop where
  -- The journal is made of the lines of the ended ticks, one for each, naming how it ended, ...
  traced : s.log.Perm (s.ticks.flatMap fun t => traceOf (roster t.job) t.state)
  -- ... so that the lines about a job are as many as its ticks that ended.
  counted : ∀ name, s.log.countP (about name) =
    s.ticks.countP fun t => decide ((roster t.job).name = name) && t.state.hasEnded
  -- No failure of a body left `execute` otherwise than by its return.
  contained : ¬ s.HasPanicked

/-- In any history of any roster, the ticks are all accounted for iff no body panicked. -/
theorem traces_iff (roster : ι → Job) (actions : List (Action ι)) {s : Engine ι}
    (h : (machine roster).run init actions = some s) : TraceLaw roster s ↔ ∀ k, Action.panic k ∉ actions := by
  have hpanic : s.HasPanicked ↔ ∃ k, Action.panic k ∈ actions := by
    rw [hasPanicked_run h]
    simp [HasPanicked, init]
  have htraced := Reachable.traceInv (Transition.Machine.reaches_of_run h)
  constructor
  · intro hlaw k hk
    exact hlaw.contained (hpanic.2 ⟨k, hk⟩)
  · intro hno
    have hcontained : ¬ s.HasPanicked := fun hp => by
      obtain ⟨k, hk⟩ := hpanic.1 hp
      exact hno k hk
    refine ⟨htraced, fun name => ?_, hcontained⟩
    rw [List.Perm.countP_eq _ htraced]
    exact countP_flatMap_eq fun t ht => countP_traceOf _ name fun hp => hcontained ⟨t, ht, hp⟩

/-- Two ticks of the shipped job: one completes, the other is skipped. -/
theorem traces_hello : ∃ s, (machine fun _ : Unit => hello).run init
    [.create (), .create (), .dispatch 0, .dispatch 1, .resume 0 (some (.ok ()))] = some s ∧
      TraceLaw (fun _ : Unit => hello) s := by
  have hrun : (machine fun _ : Unit => hello).run init
    [.create (), .create (), .dispatch 0, .dispatch 1, .resume 0 (some (.ok ()))] = some _ := rfl
  exact ⟨_, hrun, (traces_iff _ _ hrun).2 (by simp)⟩

/-- A tick of the shipped job whose body panics leaves no line at all. -/
theorem traces_panic : ∃ s, (machine fun _ : Unit => hello).run init [.create (), .dispatch 0, .panic 0] = some s ∧
    s.log = [] ∧ ¬ TraceLaw (fun _ : Unit => hello) s := by
  have hrun : (machine fun _ : Unit => hello).run init [.create (), .dispatch 0, .panic 0] = some _ := rfl
  exact ⟨_, hrun, rfl, fun hlaw => hlaw.contained ⟨_, List.mem_singleton.2 rfl, rfl⟩⟩

end Engine

end StarterHub
