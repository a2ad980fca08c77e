import StarterHub.Engine
import Mathlib.Data.List.Basic

/-!
# The overlap gate

Each roster entry has one private permit.  A run of an `Overlap::Skip` job holds it from its first poll until its
future is gone, and every way of ending a run (success, error, `Job::timeout`, a panic, the drop of the task) goes
through `dropPermit`; so free permits and runs in flight always add up to one (`GateLaw.one`), whatever the order in
which the ticks of all the jobs are created, polled and ended.
-/

namespace StarterHub

/-- Replacing one entry of a list changes a count by the old and the new entry. -/
private theorem countP_set_add {α : Type} {p : α → Bool} {l : List α} {k : Nat} {x : α} (y : α)
    (h : l[k]? = some x) :
    (l.set k y).countP p + (if p x then 1 else 0) = l.countP p + (if p y then 1 else 0) := by
  obtain ⟨hk, rfl⟩ := List.getElem?_eq_some_iff.1 h
  rw [List.countP_set hk]
  by_cases hp : p l[k]
  · have : 0 < l.countP p := List.countP_pos_iff.2 ⟨l[k], List.getElem_mem hk, hp⟩
    simp only [hp, ↓reduceIte]
    omega
  · simp only [hp, Bool.false_eq_true, ↓reduceIte]
    omega

namespace Engine

variable {ι : Type} [DecidableEq ι] {roster : ι → Job} {s s' : Engine ι} {a : Action ι}

/-! ### The invariant -/

/-- The permits are accounted for: a skipping job has either its free permit or one run in flight, the run that
holds the permit. -/
structure GateInv (roster : ι → Job) (s : Engine ι) : Prop where
  count : ∀ j, (roster j).overlap = .skip → (s.gates j).permits + s.inFlight j = 1
  holder : ∀ t ∈ s.ticks, ∀ started permit, t.state = .running started permit →
    permit = decide ((roster t.job).overlap = .skip)
  skipped : ∀ t ∈ s.ticks, t.state = .ended .skipped → (roster t.job).overlap = .skip

theorem inFlight_settle_self {k : Nat} {j : ι} {state : TickState} (hk : s.ticks[k]? = some ⟨j, state⟩)
    (gate : Semaphore) (state' : TickState) (events : List Event) :
    (s.settle k j gate state' events).inFlight j + (if state.isRunning then 1 else 0) =
      s.inFlight j + (if state'.isRunning then 1 else 0) := by
  have h := countP_set_add (p := fun t => decide (t.job = j) && t.state.isRunning) ⟨j, state'⟩ hk
  simpa [inFlight] using h

theorem inFlight_settle_ne {k : Nat} {j i : ι} {state : TickState} (hk : s.ticks[k]? = some ⟨j, state⟩)
    (gate : Semaphore) (state' : TickState) (events : List Event) (hi : i ≠ j) :
    (s.settle k j gate state' events).inFlight i = s.inFlight i := by
  have h := countP_set_add (p := fun t => decide (t.job = i) && t.state.isRunning) ⟨j, state'⟩ hk
  simpa [inFlight, hi.symm] using h

private theorem gateInv_init : GateInv roster init where
  count := by simp [init, inFlight, Semaphore.new]
  holder := by simp [init]
  skipped := by simp [init]

private theorem count_move {k : Nat} {j : ι} {state state' : TickState} {gate : Semaphore} (events : List Event)
    (hs : GateInv roster s) (hk : s.ticks[k]? = some ⟨j, state⟩)
    (hm : Move (roster j) s.now (s.gates j) state gate state') (hj : (roster j).overlap = .skip) :
    gate.permits + (s.settle k j gate state' events).inFlight j = 1 := by
  have hc := hs.count j hj
  have hf := inFlight_settle_self hk gate state' events
  cases hm with
  | start h => rw [h] at hj; cases hj
  | acquire h hg =>
    have := Semaphore.tryAcquire_eq_some.1 hg
    simp only [TickState.isRunning, Bool.false_eq_true, ↓reduceIte] at hf
    omega
  | skip h hg =>
    simp only [TickState.isRunning, Bool.false_eq_true, ↓reduceIte] at hf
    omega
  | cancel =>
    simp only [TickState.isRunning, Bool.false_eq_true, ↓reduceIte] at hf
    omega
  | @finish started permit how hne =>
    have hp : permit = true := by
      rw [hs.holder _ (List.mem_of_getElem? hk) started permit rfl]; simpa using hj
    subst hp
    simp only [TickState.isRunning, dropPermit, Bool.false_eq_true, ↓reduceIte] at hf ⊢
    rw [Semaphore.permits_release]
    omega

/-- The step lemma: every step keeps the permits accounted for. -/
theorem GateInv.step (hs : GateInv roster s) (h : step roster s a = some s') : GateInv roster s' := by
  obtain ⟨d, -, rfl⟩ | ⟨j, -, rfl⟩ | rfl | ⟨k, j, state, gate, state', events, -, hk, hm, rfl⟩ := step_cases h
  · exact ⟨hs.count, hs.holder, hs.skipped⟩
  · refine ⟨fun i hi => ?_, fun t ht => ?_, fun t ht => ?_⟩
    · simpa [inFlight, TickState.isRunning] using hs.count i hi
    · rcases List.mem_append.1 ht with ht | ht
      · exact hs.holder t ht
      · obtain rfl := List.mem_singleton.1 ht; simp
    · rcases List.mem_append.1 ht with ht | ht
      · exact hs.skipped t ht
      · obtain rfl := List.mem_singleton.1 ht; simp
  · exact hs
  · refine ⟨fun i hi => ?_, fun t ht => ?_, fun t ht => ?_⟩
    · by_cases hij : i = j
      · subst hij
        simpa using count_move events hs hk hm hi
      · rw [inFlight_settle_ne hk _ _ _ hij]
        simpa [hij] using hs.count i hi
    · rcases List.mem_or_eq_of_mem_set ht with ht | rfl
      · exact hs.holder t ht
      · intro started permit hr
        cases hm <;> simp_all
    · rcases List.mem_or_eq_of_mem_set ht with ht | rfl
      · exact hs.skipped t ht
      · intro hr
        cases hm <;> simp_all

theorem Reachable.gateInv (h : Reachable roster s) : GateInv roster s :=
  Transition.Machine.Reaches.invariant h (fun _ _ _ => GateInv.step) gateInv_init

/-! ### The law -/

structure GateLaw (roster : ι → Job) (s : Engine ι) : Prop where
  -- A skipping job has its free permit or one run in flight, never both and never neither.
  one : ∀ j, (roster j).overlap = .skip → (s.gates j).permits + s.inFlight j = 1
  alone : ∀ j, (roster j).overlap = .skip → s.inFlight j ≤ 1
  -- With no run in flight the first poll of a tick starts the body.
  executes : ∀ k j, s.ticks[k]? = some ⟨j, .created⟩ → s.inFlight j = 0 →
    ∃ s' permit, step roster s (.dispatch k) = some s' ∧ s'.ticks[k]? = some ⟨j, .running s.now permit⟩
  -- With a run in flight the first poll of a tick of a skipping job only ends that tick, with a warning.
  skips : ∀ k j, s.ticks[k]? = some ⟨j, .created⟩ → (roster j).overlap = .skip → 0 < s.inFlight j →
    step roster s (.dispatch k) = some { s with
      ticks := s.ticks.set k ⟨j, .ended .skipped⟩
      log := s.log ++ [⟨.warn, "job skipped: previous run still in flight", [("job", .text (roster j).name)]⟩] }
  -- A job that allows overlaps runs on every tick, and none of its ticks was ever skipped.
  allows : ∀ k j, s.ticks[k]? = some ⟨j, .created⟩ → (roster j).overlap = .allow →
    ∃ s', step roster s (.dispatch k) = some s' ∧ s'.ticks[k]? = some ⟨j, .running s.now false⟩
  never : ∀ t ∈ s.ticks, (roster t.job).overlap = .allow → t.state ≠ .ended .skipped
  -- A step changes no gate but that of the job it is about.
  frame : ∀ a s' j, step roster s a = some s' → s.owner a ≠ some j → s'.gates j = s.gates j

private theorem dispatch_step {k : Nat} {j : ι} (hk : s.ticks[k]? = some ⟨j, .created⟩) :
    step roster s (.dispatch k) =
      some (s.settle k j (StarterHub.dispatch (roster j) s.now (s.gates j)).1
        (StarterHub.dispatch (roster j) s.now (s.gates j)).2.1
        (StarterHub.dispatch (roster j) s.now (s.gates j)).2.2) := by
  simp only [step, hk]

private theorem getElem?_settle_self {k : Nat} {j : ι} {state : TickState} (hk : s.ticks[k]? = some ⟨j, state⟩)
    (gate : Semaphore) (state' : TickState) (events : List Event) :
    (s.settle k j gate state' events).ticks[k]? = some ⟨j, state'⟩ := by
  rw [ticks_settle, List.getElem?_set_self (List.getElem?_eq_some_iff.1 hk).1]

private theorem gates_frame {j : ι} (h : step roster s a = some s') (ha : s.owner a ≠ some j) :
    s'.gates j = s.gates j := by
  obtain ⟨d, -, rfl⟩ | ⟨i, -, rfl⟩ | rfl | ⟨k, i, state, gate, state', events, ho, -, -, rfl⟩ := step_cases h
  · rfl
  · rfl
  · rfl
  · have hij : j ≠ i := fun e => ha (by rw [ho, e])
    rw [gates_settle, Function.update_of_ne hij]

/-- A tick dispatched while no run of its job is in flight executes the body. -/
private theorem dispatch_executes (hs : GateInv roster s) {j : ι} (hf : s.inFlight j = 0) :
    ∃ permit, (StarterHub.dispatch (roster j) s.now (s.gates j)).2.1 = .running s.now permit := by
  unfold StarterHub.dispatch
  split
  · exact ⟨false, rfl⟩
  · next h =>
    have hc := hs.count j h
    split
    · exact ⟨true, rfl⟩
    · next hg =>
      have := Semaphore.tryAcquire_eq_none.1 hg
      omega

/-- The overlap gate: after any interleaving of ticks, polls and ends, over any roster, every gate obeys the
law. -/
theorem overlap_gate (h : Reachable roster s) : GateLaw roster s := by
  have hs := h.gateInv
  refine ⟨hs.count, fun j hj => ?_, fun k j hk hf => ?_, fun k j hk hj hf => ?_, fun k j hk hj => ?_, ?_, ?_⟩
  · have := hs.count j hj; omega
  · obtain ⟨permit, hd⟩ := dispatch_executes hs hf
    refine ⟨_, permit, dispatch_step hk, ?_⟩
    rw [getElem?_settle_self hk, hd]
  · have hc := hs.count j hj
    have hg : (s.gates j).tryAcquire = none := Semaphore.tryAcquire_eq_none.2 (by omega)
    rw [dispatch_step hk]
    simp [StarterHub.dispatch, hj, hg, settle]
  · refine ⟨_, dispatch_step hk, ?_⟩
    rw [getElem?_settle_self hk]
    simp [StarterHub.dispatch, hj]
  · intro t ht hj hend
    rw [hs.skipped t ht hend] at hj
    cases hj
  · exact fun a s' j => gates_frame

/-- The law in the state after one of two ticks of the shipped job has started and the other was skipped. -/
theorem overlap_gate_hello : ∃ s, (machine fun _ : Unit => hello).run init
    [.create (), .create (), .dispatch 0, .dispatch 1] = some s ∧ s.inFlight () = 1 ∧
      GateLaw (fun _ : Unit => hello) s := by
  have hrun : (machine fun _ : Unit => hello).run init
    [.create (), .create (), .dispatch 0, .dispatch 1] = some _ := rfl
  exact ⟨_, hrun, rfl, overlap_gate (Transition.Machine.reaches_of_run hrun)⟩

end Engine

end StarterHub
