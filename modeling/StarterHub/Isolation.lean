import StarterHub.Traces
import Mathlib.Data.Bool.Basic

/-!
# Jobs in isolation

The engine runs all its jobs on one clock, in one list of ticks and with one journal, and still no job can tell that
there are others.  Erase what belongs to the others (`only`): what is left of a run is a run of the engine in which only
this job is ever ticked.  And whatever the others are in the middle of, the job can go on as it could without them,
which moves nothing of theirs but the clock.  Telling the lines of a journal apart takes what `register` insists on,
different names.
-/

namespace StarterHub

/-! ### Lists -/

private theorem split_of_getElem? {α : Type} {l : List α} {k : Nat} {x : α} (h : l[k]? = some x) :
    ∃ l₁ l₂, l = l₁ ++ x :: l₂ ∧ l₁.length = k := by
  obtain ⟨hk, rfl⟩ := List.getElem?_eq_some_iff.1 h
  refine ⟨l.take k, l.drop (k + 1), ?_, List.length_take_of_le (Nat.le_of_lt hk)⟩
  rw [← List.drop_eq_getElem_cons hk, List.take_append_drop]

/-- What stands in a filtered list stands in the list, after as many entries that pass. -/
private theorem split_of_getElem?_filter {α : Type} {p : α → Bool} {l : List α} {k : Nat} {x : α}
    (h : (l.filter p)[k]? = some x) :
    ∃ l₁ l₂, l = l₁ ++ x :: l₂ ∧ (l₁.filter p).length = k ∧ p x = true := by
  obtain ⟨f₁, f₂, hf, rfl⟩ := split_of_getElem? h
  obtain ⟨l₁, l₂, rfl, rfl, hl₂⟩ := List.filter_eq_append_iff.1 hf
  obtain ⟨m₁, m₂, rfl, hm₁, hx, -⟩ := List.filter_eq_cons_iff.1 hl₂
  refine ⟨l₁ ++ m₁, m₂, by simp, ?_, hx⟩
  have hnil : m₁.filter p = [] := List.filter_eq_nil_iff.2 hm₁
  rw [List.filter_append, hnil, List.append_nil]

/-! ### One tick -/

/-- What can happen to a tick. -/
inductive TickAction where
  | dispatch
  | resume (body : Option JobResult)
  | panic
  | drop

/-- The action on the tick `k`. -/
def TickAction.on {ι : Type} (k : Nat) : TickAction → Action ι
  | dispatch => .dispatch k
  | resume body => .resume k body
  | panic => .panic k
  | drop => .drop k

/-- What a tick of `job` becomes, with its gate and the lines it leaves. -/
def touch (job : Job) (now : Nat) (gate : Semaphore) :
    TickState → TickAction → Option (Semaphore × TickState × List Event)
  | .created, .dispatch => some (dispatch job now gate)
  | .created, .drop => some (gate, .ended .dropped, [])
  | .running started permit, .resume body =>
    match execute job started now body with
    | none => some (gate, .running started permit, [])
    | some (how, events) => some (dropPermit permit gate, .ended how, events)
  | .running _ permit, .panic => some (dropPermit permit gate, .ended .panicked, [])
  | .running _ permit, .drop => some (dropPermit permit gate, .ended .dropped, [])
  | _, _ => none

theorem Action.cases_on_tick {ι : Type} (a : Action ι) :
    (∃ d, a = .elapse d) ∨ (∃ j, a = .create j) ∨ ∃ b k, a = TickAction.on k b := by
  cases a with
  | elapse d => exact .inl ⟨d, rfl⟩
  | create j => exact .inr (.inl ⟨j, rfl⟩)
  | dispatch k => exact .inr (.inr ⟨.dispatch, k, rfl⟩)
  | resume k body => exact .inr (.inr ⟨.resume body, k, rfl⟩)
  | panic k => exact .inr (.inr ⟨.panic, k, rfl⟩)
  | drop k => exact .inr (.inr ⟨.drop, k, rfl⟩)

/-- The lines a tick leaves are those of how it ends, ... -/
private theorem touch_traces {job : Job} {now : Nat} {gate gate' : Semaphore} {state state' : TickState}
    {b : TickAction} {events : List Event} (h : touch job now gate state b = some (gate', state', events)) :
    events = traceOf job state' := by
  unfold touch at h
  split at h
  · have htrace := (Engine.dispatch_traces job now gate).1
    rw [Option.some.inj h] at htrace
    exact htrace
  · cases h; rfl
  · split at h
    · cases h; rfl
    · next he =>
      cases h
      exact (Engine.execute_traces he).1
  · cases h; rfl
  · cases h; rfl
  · cases h

/-- ... and these are about its job. -/
private theorem about_of_mem_traceOf {job : Job} {state : TickState} {event : Event} (h : event ∈ traceOf job state)
    (name : String) : about name event = decide (job.name = name) := by
  have habout : about name event = (FieldValue.text job.name == .text name) := by
    unfold traceOf at h
    split at h
    case h_5 => cases h
    all_goals
      cases List.mem_singleton.1 h
      rfl
  rw [habout, Bool.eq_iff_iff]
  simp

namespace Engine

variable {ι : Type} [DecidableEq ι] {roster : ι → Job} {s s' t : Engine ι} {a : Action ι} {i j : ι} {k : Nat}
  {state : TickState} {b : TickAction}

/-- A step on a tick looks at nothing but this tick, its gate and the clock. -/
theorem step_on (roster : ι → Job) (b : TickAction) (hk : s.ticks[k]? = some ⟨j, state⟩) :
    s.step roster (b.on k) =
      (touch (roster j) s.now (s.gates j) state b).map fun (gate, state', events) =>
        s.settle k j gate state' events := by
  have hpending : s.settle k j (s.gates j) state [] = s := by
    obtain ⟨hlt, hget⟩ := List.getElem?_eq_some_iff.1 hk
    have hset : s.ticks.set k ⟨j, state⟩ = s.ticks := by rw [← hget, List.set_getElem_self]
    simp [settle, hset]
  cases b with
  | dispatch => cases state <;> simp [step, TickAction.on, touch, hk]
  | panic => cases state <;> simp [step, TickAction.on, touch, hk]
  | drop => cases state <;> simp [step, TickAction.on, touch, hk]
  | resume body =>
    cases state with
    | created => simp [step, TickAction.on, touch, hk]
    | ended how => simp [step, TickAction.on, touch, hk]
    | running started permit =>
      simp only [step, TickAction.on, touch, hk]
      cases he : execute (roster j) started s.now body with
      | none => simp [hpending]
      | some r => simp

theorem step_on_eq_some (h : s.step roster (b.on k) = some s') :
    ∃ j state gate state' events, s.ticks[k]? = some ⟨j, state⟩ ∧
      touch (roster j) s.now (s.gates j) state b = some (gate, state', events) ∧
      s' = s.settle k j gate state' events := by
  cases hk : s.ticks[k]? with
  | none => cases b <;> simp [step, TickAction.on, hk] at h
  | some tick =>
    rw [step_on roster b hk] at h
    obtain ⟨⟨gate, state', events⟩, ht, rfl⟩ := Option.map_eq_some_iff.1 h
    exact ⟨tick.job, tick.state, gate, state', events, rfl, ht, rfl⟩

/-! ### One job -/

/-- What there is of the job `j`: the clock, its gate, its ticks and the lines about it. -/
def only (roster : ι → Job) (s : Engine ι) (j : ι) : Engine ι where
  now := s.now
  gates := Function.update (fun _ => .new 1) j (s.gates j)
  ticks := s.ticks.filter fun t => decide (t.job = j)
  log := s.log.filter (about (roster j).name)

/-- Nothing happens to any job but `j`. -/
def Alone (j : ι) (s : Engine ι) (a : Action ι) : Prop := ∀ i, s.owner a = some i → i = j

/-- What the jobs are to each other. -/
structure IsolationLaw (roster : ι → Job) (s : Engine ι) : Prop where
  -- Every job is where it could be with the engine for itself, ...
  alone : ∀ j, (machine roster).ReachesBy (Alone j) init (s.only roster j)
  -- ... and can go on from there as it could with the engine for itself, without the others noticing more than the
  -- time.
  free : ∀ j t, (machine roster).ReachesBy (Alone j) (s.only roster j) t →
    ∃ s', (machine roster).ReachesBy (Alone j) s s' ∧ s'.only roster j = t ∧
      ∀ i, i ≠ j → s'.only roster i = { s.only roster i with now := t.now }

/-! ### Erasing the others -/

omit [DecidableEq ι] in
@[simp] theorem owner_on (s : Engine ι) (k : Nat) (b : TickAction) : s.owner (b.on k) = s.ticks[k]?.map Tick.job := by
  cases b <;> rfl

/-- The lines of a tick are kept for its job, and for no other of another name. -/
private theorem filter_about {job : Job} {now : Nat} {gate gate' : Semaphore} {state' : TickState} {events : List Event}
    (h : touch job now gate state b = some (gate', state', events)) (name : String) :
    events.filter (about name) = if job.name = name then events else [] := by
  have habout : ∀ event ∈ events, about name event = decide (job.name = name) := by
    rw [touch_traces h]
    exact fun event he => about_of_mem_traceOf he name
  split
  · next hname => exact List.filter_eq_self.2 fun event he => by simpa [hname] using habout event he
  · next hname => exact List.filter_eq_nil_iff.2 fun event he => by simpa [hname] using habout event he

private theorem only_settle_self {l₁ l₂ : List (Tick ι)} {gate : Semaphore} {state' : TickState} {events : List Event}
    (hs : s.ticks = l₁ ++ ⟨j, state⟩ :: l₂)
    (h : touch (roster j) s.now (s.gates j) state b = some (gate, state', events)) :
    (s.settle l₁.length j gate state' events).only roster j =
      (s.only roster j).settle (l₁.filter fun t => decide (t.job = j)).length j gate state' events := by
  simp [only, settle, hs, filter_about h]

private theorem only_settle_ne (hn : Function.Injective fun i => (roster i).name) {l₁ l₂ : List (Tick ι)}
    {gate : Semaphore} {state' : TickState} {events : List Event} (hs : s.ticks = l₁ ++ ⟨j, state⟩ :: l₂)
    (h : touch (roster j) s.now (s.gates j) state b = some (gate, state', events)) (hij : i ≠ j) :
    (s.settle l₁.length j gate state' events).only roster i = s.only roster i := by
  have hname : (roster j).name ≠ (roster i).name := fun heq => hij (hn heq).symm
  simp [only, settle, hs, filter_about h, hname, Function.update_of_ne hij, hij.symm]

/-- A step for one job is nothing to the others, ... -/
private theorem only_of_ne (hn : Function.Injective fun i => (roster i).name) (h : s.step roster a = some s')
    (ha : s.owner a = some j) (hij : i ≠ j) : s'.only roster i = s.only roster i := by
  obtain ⟨d, rfl⟩ | ⟨m, rfl⟩ | ⟨b, k, rfl⟩ := a.cases_on_tick
  · cases ha
  · cases ha
    cases h
    simp [only, hij.symm]
  · obtain ⟨m, state, gate, state', events, hk, ht, rfl⟩ := step_on_eq_some h
    obtain rfl : m = j := by simpa [hk] using ha
    obtain ⟨l₁, l₂, hl, rfl⟩ := split_of_getElem? hk
    exact only_settle_ne hn hl ht hij

/-- ... and a step the job takes by itself. -/
private theorem step_only (h : s.step roster a = some s') (ha : Alone j s a) :
    ∃ a', Alone j (s.only roster j) a' ∧ (s.only roster j).step roster a' = some (s'.only roster j) := by
  obtain ⟨d, rfl⟩ | ⟨m, rfl⟩ | ⟨b, k, rfl⟩ := a.cases_on_tick
  · cases h
    exact ⟨.elapse d, nofun, rfl⟩
  · obtain rfl : m = j := ha m rfl
    cases h
    exact ⟨.create m, fun i hi => (Option.some.inj hi).symm, by simp [step, only]⟩
  · obtain ⟨m, state, gate, state', events, hk, ht, rfl⟩ := step_on_eq_some h
    obtain rfl : m = j := ha m (by simp [hk])
    obtain ⟨l₁, l₂, hl, rfl⟩ := split_of_getElem? hk
    have hk' : (s.only roster m).ticks[(l₁.filter fun t => decide (t.job = m)).length]? = some ⟨m, state⟩ := by
      simp [only, hl]
    have ht' : touch (roster m) (s.only roster m).now ((s.only roster m).gates m) state b =
        some (gate, state', events) := by
      simpa [only] using ht
    refine ⟨b.on (l₁.filter fun t => decide (t.job = m)).length, fun i hi => ?_, ?_⟩
    · rw [owner_on, hk'] at hi
      exact (Option.some.inj hi).symm
    · rw [step_on roster b hk', ht', only_settle_self hl ht]
      rfl

/-- A step the job can take by itself it can take among the others. -/
private theorem step_of_only (h : (s.only roster j).step roster a = some t) (ha : Alone j (s.only roster j) a) :
    ∃ a' s', Alone j s a' ∧ s.step roster a' = some s' ∧ s'.only roster j = t ∧
      ((∃ d, a' = .elapse d) ∨ s.owner a' = some j) := by
  obtain ⟨d, rfl⟩ | ⟨m, rfl⟩ | ⟨b, k, rfl⟩ := a.cases_on_tick
  · cases h
    exact ⟨.elapse d, _, nofun, rfl, rfl, .inl ⟨d, rfl⟩⟩
  · obtain rfl : m = j := ha m rfl
    cases h
    exact ⟨.create m, _, fun i hi => (Option.some.inj hi).symm, rfl, by simp [only], .inr rfl⟩
  · obtain ⟨m, state, gate, state', events, hk, ht, rfl⟩ := step_on_eq_some h
    obtain rfl : m = j := ha m (by simp [hk])
    obtain ⟨l₁, l₂, hl, rfl, -⟩ := split_of_getElem?_filter hk
    have hk' : s.ticks[l₁.length]? = some ⟨m, state⟩ := by simp [hl]
    have ht' : touch (roster m) s.now (s.gates m) state b = some (gate, state', events) := by simpa [only] using ht
    have howner : s.owner (b.on l₁.length) = some m := by simp [hk']
    refine ⟨b.on l₁.length, _, fun i hi => ?_, by rw [step_on roster b hk', ht']; rfl, only_settle_self hl ht',
      .inr howner⟩
    exact (Option.some.inj (howner.symm.trans hi)).symm

/-! ### The law -/

private theorem now_of_owner (h : s.step roster a = some s') (ha : s.owner a = some j) : s'.now = s.now := by
  obtain ⟨d, rfl, -⟩ | ⟨i, -, rfl⟩ | rfl | ⟨k, i, state, gate, state', events, -, -, -, rfl⟩ := step_cases h
  · cases ha
  all_goals rfl

/-- Jobs of different names run side by side as each of them would alone. -/
theorem isolation (hn : Function.Injective fun i => (roster i).name) (h : Reachable roster s) :
    IsolationLaw roster s where
  alone j := by
    have hstep : ∀ (s : Engine ι) (a : Action ι) (s' u : Engine ι), u = s.only roster j → True →
        (machine roster).step s a = some s' →
        ∃ v, (machine roster).ReachesBy (Alone j) u v ∧ v = s'.only roster j := by
      rintro s a s' _ rfl - hs
      refine ⟨_, ?_, rfl⟩
      by_cases ha : Alone j s a
      · obtain ⟨a', ha', hs'⟩ := step_only hs ha
        exact .head ha' hs' (.refl _)
      · -- a step of another job leaves nothing behind
        obtain ⟨i, hi, hij⟩ : ∃ i, s.owner a = some i ∧ i ≠ j := by simpa [Alone] using ha
        rw [only_of_ne hn hs hi hij.symm]
        exact .refl _
    obtain ⟨v, hv, rfl⟩ := h.reachesBy.simulate (R := fun s u => u = s.only roster j) hstep rfl
    simpa [only, init] using hv
  free j t ht := by
    have hstep : ∀ (t : Engine ι) (a : Action ι) (t' u : Engine ι),
        (u.only roster j = t ∧ ∀ i, i ≠ j → u.only roster i = { s.only roster i with now := t.now }) → Alone j t a →
        (machine roster).step t a = some t' →
        ∃ v, (machine roster).ReachesBy (Alone j) u v ∧ v.only roster j = t' ∧
          ∀ i, i ≠ j → v.only roster i = { s.only roster i with now := t'.now } := by
      rintro _ a _ u ⟨rfl, hother⟩ ha ht
      obtain ⟨a', v, ha', hv, rfl, hkind⟩ := step_of_only ht ha
      refine ⟨v, .head ha' hv (.refl _), rfl, fun i hij => ?_⟩
      rcases hkind with ⟨d, rfl⟩ | howner
      · cases hv
        have hi := hother i hij
        simp only [only, Engine.mk.injEq] at hi ⊢
        exact ⟨trivial, hi.2⟩
      · rw [only_of_ne hn hv howner hij, hother i hij]
        simp [only, now_of_owner hv howner]
    exact ht.simulate (R := fun (t u : Engine ι) => u.only roster j = t ∧
      ∀ i, i ≠ j → u.only roster i = { s.only roster i with now := t.now }) hstep ⟨rfl, fun i _ => rfl⟩

/-- The shipped job next to one that takes its time. -/
def pair : Bool → Job
  | true => hello
  | false => { name := "report", schedule := "0 0 * * * *", timeout := fromSecs 3600 }

/-- The report is in flight when the shipped job is ticked: each is alone in what it sees. -/
theorem isolation_pair : ∃ s, (machine pair).run init
    [.create false, .dispatch 0, .elapse 5, .create true, .dispatch 1, .create false, .dispatch 2] = some s ∧
      (s.only pair false).ticks = [⟨false, .running 0 true⟩, ⟨false, .ended .skipped⟩] ∧
      (s.only pair true).ticks = [⟨true, .running 5 true⟩] ∧ IsolationLaw pair s := by
  have hrun : (machine pair).run init
    [.create false, .dispatch 0, .elapse 5, .create true, .dispatch 1, .create false, .dispatch 2] = some _ := rfl
  exact ⟨_, hrun, by decide, by decide,
    isolation (Bool.injective_iff.2 (by decide)) (Transition.Machine.reaches_of_run hrun)⟩

end Engine

end StarterHub
