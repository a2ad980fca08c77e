import StarterHub.HttpServer

/-!
# The graceful stop

The law of `BoundServer::serve` over every interleaving of accepts, endings and the shutdown.  The invariant behind it
(`ServeInv`) ties the three records of a connection together: the stream the listener yielded, the entry of the
registry, and the task.  The loop leaves its phase by the shutdown branch only, and what `serve` waits for then is that
the registry runs empty, hence that no task is alive.
-/

namespace StarterHub

namespace Serve

variable {σ : Type} {server : BoundServer} {s s' : Serve σ} {a : ServeAction σ}

@[simp] theorem accepted_trace (events : List Event) : (s.trace events).accepted = s.accepted := rfl

@[simp] theorem graceful_trace (events : List Event) : (s.trace events).graceful = s.graceful := rfl

@[simp] theorem tasks_trace (events : List Event) : (s.trace events).tasks = s.tasks := rfl

/-- A failure of `set_nodelay` is a line in the log and nothing else. -/
theorem accept_eq (s : Serve σ) (stream : σ) (nodelay : Except String Unit) :
    ∃ events, s.accept stream nodelay = (s.trace events).enroll stream := by
  cases nodelay with
  | ok => exact ⟨[], by simp [accept, trace]⟩
  | error error => exact ⟨_, rfl⟩

/-! ### One step -/

inductive Move (s : Serve σ) : ServeAction σ → Serve σ → Prop
  | accepted {stream : σ} {nodelay : Except String Unit} (h : s.phase = .accepting) (events : List Event) :
      Move s (.accept (.ok stream) nodelay) ((s.trace events).enroll stream)
  | refused {error : String} {nodelay : Except String Unit} (h : s.phase = .accepting) (events : List Event) :
      Move s (.accept (.error error) nodelay) (s.trace events)
  | finish {k : Nat} {how : ConnEnd} {task : ConnTask σ} (hk : s.tasks[k]? = some task) (ha : task.isAlive = true) :
      Move s (.finish k how) (s.close k task how)
  | resolve : Move s .resolve { s with resolved := true }
  | shutdown (h : s.phase = .accepting) (hr : s.resolved = true) (events : List Event) : Move s .shutdown
      { s.trace events with phase := .draining, graceful := { s.graceful with asked := true } }
  | stopped (h : s.phase = .draining) (he : s.graceful.watched = []) (events : List Event) :
      Move s .stopped { s.trace events with phase := .returned (.ok ()) }

theorem step_cases (h : s.step a = some s') : Move s a s' := by
  cases a with
  | accept accepted nodelay =>
    simp only [step] at h
    split at h
    · next stream hp =>
      cases h
      obtain ⟨events, he⟩ := accept_eq s stream nodelay
      rw [he]
      exact .accepted hp events
    · next error hp => cases h; exact .refused hp _
    · cases h
  | finish k how =>
    simp only [step] at h
    split at h
    · next task hk =>
      simp only [Option.ite_none_right_eq_some, Option.some.injEq] at h
      obtain ⟨ha, rfl⟩ := h
      exact .finish hk ha
    · cases h
  | resolve => cases h; exact .resolve
  | shutdown =>
    simp only [step] at h
    split at h
    · next hp hr => cases h; exact .shutdown hp hr _
    · cases h
  | stopped =>
    simp only [step] at h
    split at h
    · next hp =>
      simp only [Option.ite_none_right_eq_some, Option.some.injEq] at h
      obtain ⟨he, rfl⟩ := h
      exact .stopped hp (List.isEmpty_iff.1 he) _
    · cases h

/-! ### The invariant -/

/-- What the stream, the registry and the task know about each connection. -/
structure ServeInv (s : Serve σ) : Prop where
  streams : s.tasks.map ConnTask.stream = s.accepted
  connections : s.tasks.map ConnTask.connection = List.range s.graceful.next
  watched : s.graceful.watched = (s.tasks.filter ConnTask.isAlive).map ConnTask.connection
  asked : s.graceful.asked = true ↔ s.phase ≠ .accepting
  returned : ∀ result, s.phase = .returned result → result = .ok () ∧ s.graceful.watched = []

theorem ServeInv.nodup (hs : ServeInv s) : (s.tasks.map ConnTask.connection).Nodup := by
  rw [hs.connections]
  exact List.nodup_range

/-- A task keeps its connection and its stream to its end. -/
private theorem map_set_finish {β : Type} (f : ConnTask σ → β) {tasks : List (ConnTask σ)} {k : Nat} {task : ConnTask σ}
    {how : ConnEnd} (hk : tasks[k]? = some task) (hf : f (task.finish how) = f task) :
    (tasks.set k (task.finish how)).map f = tasks.map f := by
  obtain ⟨hlt, hget⟩ := List.getElem?_eq_some_iff.1 hk
  rw [List.map_set, hf, ← hget, ← List.getElem_map f (h := by simpa using hlt), List.set_getElem_self]

/-- The end of a task takes its connection, and no other, off the list of those that are alive. -/
private theorem filter_isAlive_set {tasks : List (ConnTask σ)} {k : Nat} {task : ConnTask σ} (how : ConnEnd)
    (hn : (tasks.map ConnTask.connection).Nodup) (hk : tasks[k]? = some task) :
    ((tasks.set k (task.finish how)).filter ConnTask.isAlive).map ConnTask.connection =
      ((tasks.filter ConnTask.isAlive).map ConnTask.connection).filter (· ≠ task.connection) := by
  induction tasks generalizing k with
  | nil => cases hk
  | cons t tasks ih =>
    obtain ⟨ht, hn⟩ := List.nodup_cons.1 hn
    cases k with
    | zero =>
      obtain rfl : t = task := by simpa using hk
      -- no later task drives the connection
      have hrest : ((tasks.filter ConnTask.isAlive).map ConnTask.connection).filter (· ≠ t.connection) =
          (tasks.filter ConnTask.isAlive).map ConnTask.connection := by
        refine List.filter_eq_self.2 fun c hc => ?_
        have hmem : c ∈ tasks.map ConnTask.connection := (List.filter_sublist.map _).subset hc
        exact decide_eq_true fun heq => ht (heq ▸ hmem)
      have hdead : (t.finish how).isAlive = false := rfl
      rw [List.set_cons_zero, List.filter_cons_of_neg (by simp [hdead])]
      cases ha : t.isAlive
      · rw [List.filter_cons_of_neg (by simp [ha]), hrest]
      · rw [List.filter_cons_of_pos ha, List.map_cons, List.filter_cons_of_neg (by simp), hrest]
    | succ k =>
      have hk : tasks[k]? = some task := by simpa using hk
      have hne : t.connection ≠ task.connection := fun heq =>
        ht (heq ▸ List.mem_map_of_mem (List.mem_of_getElem? hk))
      cases ha : t.isAlive <;> simp [ha, hne, ih hn hk]

theorem ServeInv.step (hs : ServeInv s) (h : s.step a = some s') : ServeInv s' := by
  cases step_cases h with
  | accepted hp events =>
    refine ⟨?_, ?_, ?_, hs.asked, fun result h => ?_⟩
    · simp [enroll, hs.streams]
    · simp [enroll, hs.connections, GracefulShutdown.watch, List.range_succ]
    · simp [enroll, hs.watched, GracefulShutdown.watch, List.filter_append, List.filter_cons, ConnTask.isAlive]
    · rw [show s.phase = .returned result from h] at hp
      cases hp
  | refused hp events => exact ⟨hs.streams, hs.connections, hs.watched, hs.asked, hs.returned⟩
  | resolve => exact ⟨hs.streams, hs.connections, hs.watched, hs.asked, hs.returned⟩
  | @finish k how task hk ha =>
    refine ⟨?_, ?_, ?_, hs.asked, fun result h => ?_⟩
    · exact (map_set_finish ConnTask.stream hk rfl).trans hs.streams
    · exact (map_set_finish ConnTask.connection hk rfl).trans hs.connections
    · show s.graceful.watched.filter _ = _
      rw [hs.watched]
      exact (filter_isAlive_set how hs.nodup hk).symm
    · obtain ⟨hr, hw⟩ := hs.returned result h
      exact ⟨hr, by simp [close, GracefulShutdown.forget, hw]⟩
  | shutdown hp hr events => exact ⟨hs.streams, hs.connections, hs.watched, by simp, by simp⟩
  | stopped hp he events =>
    refine ⟨hs.streams, hs.connections, hs.watched, by simpa [hp] using hs.asked, fun result h => ?_⟩
    cases h
    exact ⟨rfl, he⟩

theorem Reachable.serveInv (h : Reachable server s) : ServeInv s :=
  h.invariant (fun _ _ _ => ServeInv.step) ⟨rfl, rfl, rfl, by simp [init, GracefulShutdown.new], by simp [init]⟩

/-! ### The law -/

/-- No task is alive. -/
def Drained (s : Serve σ) : Prop := ∀ task ∈ s.tasks, task.isAlive = false

theorem ServeInv.watched_eq_nil (hs : ServeInv s) : s.graceful.watched = [] ↔ s.Drained := by
  simp [hs.watched, Drained, List.filter_eq_nil_iff]

/-- A connection is watched as long as its task is alive. -/
theorem ServeInv.mem_watched (hs : ServeInv s) {k : Nat} {task : ConnTask σ} (hk : s.tasks[k]? = some task) :
    task.connection ∈ s.graceful.watched ↔ task.isAlive = true := by
  have hmem := List.mem_of_getElem? hk
  rw [hs.watched, List.mem_map]
  constructor
  · rintro ⟨t, ht, hc⟩
    obtain ⟨ht, ha⟩ := List.mem_filter.1 ht
    obtain rfl := List.inj_on_of_nodup_map hs.nodup ht hmem hc
    exact ha
  · exact fun ha => ⟨task, List.mem_filter.2 ⟨hmem, ha⟩, rfl⟩

/-- The law of the accept loop and its stop. -/
structure StopLaw (s : Serve σ) : Prop where
  -- Each stream accepted so far has one task, which drives a connection of its own, ...
  driven : s.tasks.map ConnTask.stream = s.accepted ∧ (s.tasks.map ConnTask.connection).Nodup
  -- ... and this connection is watched, once, until the task ends.
  watched : s.graceful.watched = (s.tasks.filter ConnTask.isAlive).map ConnTask.connection
  -- The loop accepts any stream, whatever `set_nodelay` says, ...
  accepts : s.phase = .accepting → ∀ stream nodelay, ∃ s', s.step (.accept (.ok stream) nodelay) = some s' ∧
    s'.accepted = s.accepted ++ [stream] ∧ s'.tasks = s.tasks ++ [⟨s.graceful.next, stream, none⟩] ∧
    s'.graceful.watched = s.graceful.watched ++ [s.graceful.next]
  -- ... until the shutdown branch is taken: no error ends it.
  loops : s.phase = .accepting → ∀ a s', s.step a = some s' → s'.phase = .accepting ∨ a = .shutdown
  -- A step leaves a connection alone, unless it is the end of this connection.
  apart : ∀ a s', s.step a = some s' → ∀ k task, s.tasks[k]? = some task → (∀ how, a ≠ .finish k how) →
    s'.tasks[k]? = some task ∧ (task.connection ∈ s'.graceful.watched ↔ task.connection ∈ s.graceful.watched)
  -- Once the shutdown branch is taken, all connections are asked to finish and no stream is accepted any more.
  closed : s.phase ≠ .accepting → s.graceful.asked = true ∧
    ∀ s', (machine σ).Reaches s s' → s'.phase ≠ .accepting ∧ s'.accepted = s.accepted
  -- `serve` can return when, and only when, every connection has ended, ...
  stops : s.phase = .draining → ((s.step .stopped).isSome ↔ s.Drained)
  -- ... and what it returns is `Ok`.
  returned : ∀ result, s.phase = .returned result → result = .ok () ∧ s.Drained

/-- Any step but the end of its own connection leaves a task as it is. -/
private theorem getElem?_tasks_step (h : s.step a = some s') {k : Nat} {task : ConnTask σ}
    (hk : s.tasks[k]? = some task) (ha : ∀ how, a ≠ .finish k how) : s'.tasks[k]? = some task := by
  cases step_cases h with
  | accepted => exact (List.getElem?_append_left (List.getElem?_eq_some_iff.1 hk).1).trans hk
  | @finish j how t =>
    have hj : j ≠ k := by
      rintro rfl
      exact ha how rfl
    exact (List.getElem?_set_ne hj).trans hk
  | _ => exact hk

private theorem loops_step (hp : s.phase = .accepting) (h : s.step a = some s') :
    s'.phase = .accepting ∨ a = .shutdown := by
  cases step_cases h with
  | shutdown => exact .inr rfl
  | stopped hd => rw [hp] at hd; cases hd
  | _ => exact .inl hp

private theorem closed_step (hp : s.phase ≠ .accepting) (h : s.step a = some s') :
    s'.phase ≠ .accepting ∧ s'.accepted = s.accepted := by
  cases step_cases h with
  | accepted ha => exact absurd ha hp
  | refused ha => exact absurd ha hp
  | shutdown ha => exact absurd ha hp
  | stopped => exact ⟨by simp, rfl⟩
  | _ => exact ⟨hp, rfl⟩

/-- Over every interleaving of accepts, endings and the shutdown, the law holds. -/
theorem graceful_stop (h : Reachable server s) : StopLaw s := by
  have hs := h.serveInv
  refine ⟨⟨hs.streams, hs.nodup⟩, hs.watched, fun hp stream nodelay => ?_, fun hp a s' h => loops_step hp h,
    fun a s' h k task hk ha => ?_, fun hp => ⟨hs.asked.2 hp, fun s' h => ?_⟩, fun hp => ?_, fun result hp => ?_⟩
  · obtain ⟨events, he⟩ := accept_eq s stream nodelay
    refine ⟨s.accept stream nodelay, by simp [step, hp], ?_⟩
    rw [he]
    exact ⟨rfl, rfl, rfl⟩
  · have hk' := getElem?_tasks_step h hk ha
    exact ⟨hk', (hs.step h).mem_watched hk' |>.trans (hs.mem_watched hk).symm⟩
  · refine h.invariant (P := fun t => t.phase ≠ .accepting ∧ t.accepted = s.accepted) ?_ ⟨hp, rfl⟩
    rintro t a t' ⟨ht, hacc⟩ h
    obtain ⟨ht', hacc'⟩ := closed_step ht h
    exact ⟨ht', hacc'.trans hacc⟩
  · rw [← hs.watched_eq_nil]
    simp [step, hp, GracefulShutdown.isEmpty]
  · obtain ⟨hr, hw⟩ := hs.returned result hp
    exact ⟨hr, hs.watched_eq_nil.1 hw⟩

/-- A failed accept, a stream without TCP_NODELAY and a second one; the first connection breaks before the stop, the
second one ends while `serve` drains. -/
def twoStreams : List (ServeAction String) :=
  [.accept (.error "EMFILE") (.ok ()), .accept (.ok "first") (.error "EINVAL"), .resolve,
    .accept (.ok "second") (.ok ()), .finish 0 (.done (.error "reset")), .shutdown, .finish 1 (.done (.ok ())),
    .stopped]

theorem graceful_stop_two : ∃ s, (machine String).run (init ⟨"127.0.0.1:8080", fromSecs 30⟩) twoStreams = some s ∧
    s.phase = .returned (.ok ()) ∧ StopLaw s := by
  have hrun : (machine String).run (init ⟨"127.0.0.1:8080", fromSecs 30⟩) twoStreams = some _ := rfl
  have hreach : Reachable ⟨"127.0.0.1:8080", fromSecs 30⟩ _ := Transition.Machine.reaches_of_run hrun
  exact ⟨_, hrun, rfl, graceful_stop hreach⟩

end Serve

end StarterHub
