import StarterHub.Config
import StarterHub.CronServer
import StarterHub.Supervision

/-!
# The process fence and the budgets of the connections

The process from the instant at which its token is cancelled on, together with the connections that are open then.
Every connection keeps the budgets of the API: the head of a request is completed or cut within `server.timeout` of
its start, a request is answered within `server.timeout` of the end of its head, an idle connection closes at once.
The cron engine ends within its own grace, and neither `graceful.shutdown()`, `supervise` nor `join!` lets time pass
once what it waits for is there.

A connection whose head is still arriving may use the two budgets one after the other.  The fence therefore stays out
of reach exactly when every connection ends by its last budget before `SHUTDOWN_GRACE`, and over all connections only
up to a `server.timeout` of 22 seconds; the default is 30.
-/

namespace StarterHub

/-! ### Connections -/

/-- A connection of the http-server while it drains. -/
inductive Conn where
  | idle
  | head (started : Nat)
  | request (headDone : Nat)
  | closed
  deriving DecidableEq, Repr

namespace Conn

/-- The latest instant up to which the connection stays as it is; `cancelled` is the one of the shutdown. -/
def deadline (timeout cancelled : Nat) : Conn → Option Nat
  | idle => some cancelled
  | head started => some (started + timeout)
  | request headDone => some (headDone + timeout)
  | closed => none

/-- The latest instant at which the connection can end, all its budgets used. -/
def lastEnd (timeout cancelled : Nat) : Conn → Nat
  | head started => started + timeout + timeout
  | request headDone => headDone + timeout
  | idle | closed => cancelled

/-- What a connection can be at the instant `now` of the shutdown. -/
def OnTime (timeout now : Nat) : Conn → Prop
  | head started | request started => started ≤ now ∧ now ≤ started + timeout
  | idle | closed => True

theorem deadline_le_lastEnd {timeout cancelled due : Nat} {conn : Conn}
    (h : conn.deadline timeout cancelled = some due) : due ≤ conn.lastEnd timeout cancelled := by
  cases conn <;> cases h <;> simp [lastEnd]

end Conn

/-! ### The drain as a machine -/

/-- The process and the connections of its http-server. -/
structure Drain where
  main : Main
  conns : List Conn

/-- A step of the process, the head of a connection completing, a connection ending. -/
inductive DrainAction where
  | main (a : MainAction)
  | complete (k : Nat)
  | close (k : Nat)

namespace Drain

/-- `graceful.shutdown()` is ready: no watched connection is alive. -/
def drained (s : Drain) : Bool := s.conns.all (· = .closed)

/-- The steps that wait for no clock: `serve` returns, `supervise` observes an end, `join!` is ready. -/
def urgent (s : Drain) : Bool :=
  s.drained && (s.main.tasks .httpServer).isNone ||
  (s.main.tasks .httpServer).isSome && (s.main.supervised .httpServer).isNone ||
  (s.main.tasks .cron).isSome && (s.main.supervised .cron).isNone ||
  (s.main.supervised .httpServer).isSome && (s.main.supervised .cron).isSome

/-- Time may pass up to `now`: nothing urgent is left and nobody misses a deadline. -/
def mayReach (timeout : Nat) (s : Drain) (now : Nat) : Bool :=
  !s.urgent && s.main.shutdown.all fun cancelled =>
    (s.conns.all fun conn => (conn.deadline timeout cancelled).all fun due => decide (now ≤ due)) &&
    ((s.main.tasks .cron).isSome || decide (now ≤ cancelled + drainGrace))

/-- When the environment lets the process take a step. -/
def allowed (timeout : Nat) (s : Drain) : MainAction → Bool
  | .elapse d => s.mayReach timeout (s.main.now + d)
  | .finish .httpServer _ => s.drained
  | _ => true

def step (timeout : Nat) (s : Drain) : DrainAction → Option Drain
  | .main a => if s.allowed timeout a then (s.main.step a).map fun main => { s with main } else none
  | .complete k =>
    match s.main.status, s.conns[k]? with
    | .running, some (.head _) => some { s with conns := s.conns.set k (.request s.main.now) }
    | _, _ => none
  | .close k =>
    match s.main.status, s.conns[k]? with
    | .running, some conn => if conn = .closed then none else some { s with conns := s.conns.set k .closed }
    | _, _ => none

def machine (timeout : Nat) : Transition.Machine Drain DrainAction := ⟨step timeout⟩

/-- The instant of the shutdown: the token has just been cancelled, in some run of the process, and the connections
are within their budgets. -/
structure Start (timeout : Nat) (s : Drain) : Prop where
  reachable : s.main.Reachable
  running : s.main.status = .running
  cancelled : s.main.shutdown = some s.main.now
  serving : s.conns ≠ [] → s.main.tasks .httpServer = none
  onTime : ∀ conn ∈ s.conns, conn.OnTime timeout s.main.now

/-- Whatever happens from `s` on, the fence does not fire: before the grace is over both components end and `main`
returns through the join, unless a second signal exits first. -/
structure Spared (timeout : Nat) (s : Drain) : Prop where
  outcome : ∀ s', (machine timeout).Reaches s s' →
    s'.main.status = .running ∧ s'.main.now < s.main.now + shutdownGrace ∨
    (∃ r, s'.main.status = .returned r ∧ ∀ c, (s'.main.tasks c).isSome) ∨
    s'.main.status = .exited 130 ∧ s'.main.received = 2
  returns : ∀ s', (machine timeout).Reaches s s' → s'.main.status = .running →
    ∃ s'' r, (machine timeout).Reaches s' s'' ∧ s''.main.status = .returned r

variable {timeout : Nat} {s s' : Drain} {a : DrainAction}

theorem step_cases (h : step timeout s a = some s') :
    (∃ b main, s.allowed timeout b ∧ s.main.step b = some main ∧ s' = { s with main }) ∨
    ∃ k conn conn', s.main.status = .running ∧ s.conns[k]? = some conn ∧
      s' = { s with conns := s.conns.set k conn' } ∧
      (conn' = .closed ∨ ∃ started, conn = .head started ∧ conn' = .request s.main.now) := by
  cases a with
  | main b =>
    simp only [step, Option.ite_none_right_eq_some, Option.map_eq_some_iff] at h
    obtain ⟨hb, main, hm, rfl⟩ := h
    exact .inl ⟨b, main, hb, hm, rfl⟩
  | complete k =>
    simp only [step] at h
    split at h
    · next started hrun hk =>
      simp only [Option.some.injEq] at h
      exact .inr ⟨k, _, _, hrun, hk, h.symm, .inr ⟨started, rfl, rfl⟩⟩
    · cases h
  | close k =>
    simp only [step] at h
    split at h
    · next conn hrun hk =>
      simp only [Option.ite_none_left_eq_some, Option.some.injEq] at h
      exact .inr ⟨k, _, _, hrun, hk, h.2.symm, .inl rfl⟩
    · cases h

theorem drained_iff : s.drained = true ↔ ∀ conn ∈ s.conns, conn = .closed := by simp [drained]

theorem mayReach_iff {now cancelled : Nat} (hc : s.main.shutdown = some cancelled) :
    s.mayReach timeout now = true ↔ s.urgent = false ∧
      (∀ conn ∈ s.conns, ∀ due, conn.deadline timeout cancelled = some due → now ≤ due) ∧
      ((s.main.tasks .cron).isSome ∨ now ≤ cancelled + drainGrace) := by
  simp [mayReach, hc, Option.all_eq_true]

/-! ### Budgets that end before the fence -/

/-- The connections keep their deadlines, and all their budgets end before the fence. -/
structure InBudget (timeout cancelled : Nat) (s : Drain) : Prop where
  inv : Main.MainInv s.main
  shutdown : s.main.shutdown = some cancelled
  onTime : ∀ conn ∈ s.conns, ∀ due, conn.deadline timeout cancelled = some due → s.main.now ≤ due
  ends : ∀ conn ∈ s.conns, conn.lastEnd timeout cancelled < cancelled + shutdownGrace
  now : s.main.now < cancelled + shutdownGrace

/-- While the process waits for something, it waits for a connection or for the cron engine, hence not up to the
fence. -/
private theorem InBudget.elapse {cancelled now : Nat} (hs : InBudget timeout cancelled s)
    (h : s.mayReach timeout now = true) : now < cancelled + shutdownGrace := by
  obtain ⟨hurgent, hconns, hcron⟩ := (mayReach_iff hs.shutdown).1 h
  rcases hcron with hcron | hcron
  · -- the cron engine has ended, and was observed: the http-server is what is waited for
    have hopen : ¬ s.drained = true := by
      intro hd
      cases hh : s.main.tasks .httpServer <;> cases hv : s.main.supervised .httpServer <;>
        cases hk : s.main.supervised .cron <;> simp_all [urgent]
    obtain ⟨conn, hmem, hne⟩ : ∃ conn ∈ s.conns, conn ≠ .closed := by simpa [drained] using hopen
    obtain ⟨due, hdue⟩ : ∃ due, conn.deadline timeout cancelled = some due := by
      cases conn <;> simp_all [Conn.deadline]
    have hle := Nat.le_trans (hconns conn hmem due hdue) (Conn.deadline_le_lastEnd hdue)
    exact Nat.lt_of_le_of_lt hle (hs.ends conn hmem)
  · refine Nat.lt_of_le_of_lt hcron (Nat.add_lt_add_left ?_ _)
    decide

private theorem InBudget.step {cancelled : Nat} (hs : InBudget timeout cancelled s)
    (h : Drain.step timeout s a = some s') : InBudget timeout cancelled s' := by
  obtain ⟨b, main, hb, hm, rfl⟩ | ⟨k, conn, conn', -, hk, rfl, hconn'⟩ := step_cases h
  · have hinv := hs.inv.step hm
    have hcancelled : main.shutdown = some cancelled :=
      Main.shutdown_of_reaches ((Transition.Machine.Reaches.refl _).tail (m := Main.machine) hm) hs.shutdown
    by_cases hel : ∃ d, b = .elapse d
    · obtain ⟨d, rfl⟩ := hel
      obtain ⟨-, hmove⟩ := Main.step_cases hm
      cases hmove
      exact ⟨hinv, hcancelled, ((mayReach_iff hs.shutdown).1 hb).2.1, hs.ends, hs.elapse hb⟩
    · have hnow : main.now = s.main.now := Main.now_of_step hm fun d hd => hel ⟨d, hd⟩
      refine ⟨hinv, hcancelled, ?_, hs.ends, ?_⟩
      · intro conn hmem due hdue
        show main.now ≤ due
        rw [hnow]
        exact hs.onTime conn hmem due hdue
      · show main.now < _
        rw [hnow]
        exact hs.now
  · have hmem := List.mem_of_getElem? hk
    refine ⟨hs.inv, hs.shutdown, fun x hx due hdue => ?_, fun x hx => ?_, hs.now⟩ <;>
      rcases List.mem_or_eq_of_mem_set hx with hx | rfl
    · exact hs.onTime x hx due hdue
    · rcases hconn' with rfl | ⟨started, rfl, rfl⟩ <;> cases hdue
      exact Nat.le_add_right _ _
    · exact hs.ends x hx
    · rcases hconn' with rfl | ⟨started, rfl, rfl⟩
      · show cancelled < cancelled + shutdownGrace
        exact Nat.lt_add_of_pos_right (by decide)
      · -- the head was completed by its deadline, so the budget of the request ends in time
        have hdue := hs.onTime _ hmem _ rfl
        have hends := hs.ends _ hmem
        simp only [Conn.lastEnd] at hends ⊢
        omega

/-! ### Runs of the drain -/

private theorem reaches_main {b : MainAction} {main : Main} (hb : s.allowed timeout b)
    (h : s.main.step b = some main) : (machine timeout).Reaches s { s with main } := by
  refine (Transition.Machine.Reaches.refl s).tail (a := .main b) ?_
  show Drain.step timeout s (.main b) = _
  simp [Drain.step, hb, h]

/-- Between `s` and `t` the component `c` was brought to the end of its supervision, and nothing else happened. -/
structure Settled (s : Drain) (c : Component) (t : Drain) : Prop where
  running : t.main.status = .running
  inv : Main.MainInv t.main
  supervised : (t.main.supervised c).isSome
  others : ∀ d ≠ c, t.main.tasks d = s.main.tasks d ∧ t.main.supervised d = s.main.supervised d
  conns : t.conns = s.conns
  now : t.main.now = s.main.now
  latched : ∀ cancelled, s.main.shutdown = some cancelled → t.main.shutdown = some cancelled

/-- `supervise` may observe the end of a component as soon as it is there. -/
private theorem settled_of_ended (timeout : Nat) {c : Component} {how : TaskEnd} (hrun : s.main.status = .running)
    (hs : Main.MainInv s.main) (ht : s.main.tasks c = some how) (hnone : s.main.supervised c = none) :
    ∃ t, (machine timeout).Reaches s t ∧ Settled s c t := by
  have hstep : s.main.step (.observe c) = some (s.main.supervise c how) := by
    simp [Main.step_of_running hrun, Main.act, ht, hnone]
  refine ⟨_, reaches_main rfl hstep, hrun, hs.step hstep, ?_, fun d hd => ⟨rfl, ?_⟩, rfl, rfl, fun _ h => ?_⟩
  · simp [Main.supervise]
  · simp [Main.supervise, Function.update_of_ne hd, Main.trace, Main.cancel]
  · simp [Main.supervise, Main.trace, Main.cancel, h]

private theorem settle (timeout : Nat) (c : Component) (hrun : s.main.status = .running) (hs : Main.MainInv s.main)
    (hc : c = .httpServer → s.drained) : ∃ t, (machine timeout).Reaches s t ∧ Settled s c t := by
  cases hv : s.main.supervised c with
  | some r => exact ⟨s, .refl s, hrun, hs, by simp [hv], fun _ _ => ⟨rfl, rfl⟩, rfl, rfl, fun _ => id⟩
  | none =>
    cases ht : s.main.tasks c with
    | some how => exact settled_of_ended timeout hrun hs ht hv
    | none =>
      -- the component ends with `Ok` first
      let main : Main := { s.main with tasks := Function.update s.main.tasks c (some (.done (.ok ()))) }
      have hstep : s.main.step (.finish c (.done (.ok ()))) = some main := by
        simp [Main.step_of_running hrun, Main.act, ht, main]
      have hallowed : s.allowed timeout (.finish c (.done (.ok ()))) = true := by
        cases c with
        | httpServer => exact hc rfl
        | cron => rfl
      obtain ⟨t, hreach, ht⟩ := settled_of_ended (s := { s with main }) timeout hrun (hs.step hstep)
        (Function.update_self ..) hv
      refine ⟨t, (reaches_main hallowed hstep).trans hreach, ht.running, ht.inv, ht.supervised, fun d hd => ?_,
        ht.conns, ht.now, ht.latched⟩
      obtain ⟨h1, h2⟩ := ht.others d hd
      exact ⟨h1.trans (Function.update_of_ne hd ..), h2⟩

/-- Every connection but the connection `k` may end now. -/
private theorem close_others (timeout k : Nat) (hrun : s.main.status = .running) :
    ∃ t, (machine timeout).Reaches s t ∧ t.main = s.main ∧ t.conns.length = s.conns.length ∧
      t.conns[k]? = s.conns[k]? ∧ ∀ i ≠ k, ∀ conn, t.conns[i]? = some conn → conn = .closed := by
  -- the stage `m` of the sweep: the connections below `m` have ended
  let P (m : Nat) (t : Drain) : Prop := t.main = s.main ∧ t.conns.length = s.conns.length ∧
    t.conns[k]? = s.conns[k]? ∧ ∀ i < m, i ≠ k → ∀ conn, t.conns[i]? = some conn → conn = .closed
  have hnext : ∀ m < s.conns.length, ∀ t, P m t → ∃ u, (machine timeout).Reaches t u ∧ P (m + 1) u := by
    intro m hm t ht
    obtain ⟨hmain, hlen, hkept, hclosed⟩ := ht
    by_cases hopen : m ≠ k ∧ t.conns[m]? ≠ some .closed
    · obtain ⟨hmk, hne⟩ := hopen
      have hget : t.conns[m]? = some t.conns[m] := List.getElem?_eq_getElem (by omega)
      have hstep : (machine timeout).step t (.close m) = some { t with conns := t.conns.set m .closed } := by
        show Drain.step timeout t (.close m) = _
        have hrun' : t.main.status = .running := by rw [hmain, hrun]
        rw [hget] at hne
        simp only [Drain.step, hrun', hget]
        rw [if_neg fun h => hne (by rw [h])]
      refine ⟨_, (Transition.Machine.Reaches.refl t).tail hstep, hmain, by simpa using hlen, ?_, ?_⟩
      · simpa [List.getElem?_set_ne hmk] using hkept
      · intro i hi hik conn hconn
        by_cases him : i = m
        · subst him
          simpa [List.getElem?_set_self (show i < t.conns.length by omega)] using hconn.symm
        · rw [List.getElem?_set_ne (Ne.symm him)] at hconn
          exact hclosed i (by omega) hik conn hconn
    · refine ⟨t, .refl t, hmain, hlen, hkept, fun i hi hik conn hconn => ?_⟩
      by_cases him : i = m
      · subst him
        by_contra hne
        exact hopen ⟨hik, by rw [hconn]; simpa using hne⟩
      · exact hclosed i (by omega) hik conn hconn
  obtain ⟨t, hreach, hmain, hlen, hkept, hclosed⟩ :=
    Transition.Machine.Reaches.sweep (m := machine timeout) (P := P) s.conns.length hnext
      ⟨rfl, rfl, rfl, fun i hi => absurd hi (Nat.not_lt_zero i)⟩
  refine ⟨t, hreach, hmain, hlen, hkept, fun i hik conn hconn => hclosed i ?_ hik conn hconn⟩
  rw [← hlen]
  exact (List.getElem?_eq_some_iff.1 hconn).1

/-- From every state of a running process, all connections and both components may end now, and `main` returns. -/
private theorem returns_of_running (hrun : s.main.status = .running) (hs : Main.MainInv s.main) :
    ∃ t r, (machine timeout).Reaches s t ∧ t.main.status = .returned r := by
  obtain ⟨t1, h1, hmain, hlen, -, hclosed⟩ := close_others timeout s.conns.length hrun
  have hdrained : t1.drained = true := by
    refine drained_iff.2 fun conn hmem => ?_
    obtain ⟨i, hi, rfl⟩ := List.getElem_of_mem hmem
    exact hclosed i (by omega) _ (List.getElem?_eq_getElem hi)
  obtain ⟨t2, h2, hhttp⟩ := settle timeout .httpServer (hmain ▸ hrun) (hmain ▸ hs) fun _ => hdrained
  obtain ⟨t3, h3, hcron⟩ := settle timeout .cron hhttp.running hhttp.inv (fun h => by cases h)
  obtain ⟨api, ha⟩ : ∃ api, t3.main.supervised .httpServer = some api := by
    rw [(hcron.others .httpServer (by decide)).2]
    exact Option.isSome_iff_exists.1 hhttp.supervised
  obtain ⟨cron, hc⟩ := Option.isSome_iff_exists.1 hcron.supervised
  have hstep : t3.main.step .join = some (t3.main.returnWith api cron) := by
    simp [Main.step_of_running hcron.running, Main.act, ha, hc]
  obtain ⟨events, -, heq⟩ := Main.returnWith_eq (s := t3.main) api cron
  exact ⟨_, resultAnd api cron, ((h1.trans h2).trans h3).trans (reaches_main rfl hstep), by rw [heq]⟩

/-! ### A connection that ends after the fence -/

structure Waiting (cancelled k : Nat) (conn : Conn) (s : Drain) : Prop where
  running : s.main.status = .running
  shutdown : s.main.shutdown = some cancelled
  serving : s.main.tasks .httpServer = none
  unobserved : s.main.supervised .httpServer = none
  stopped : (s.main.tasks .cron).isSome ∧ (s.main.supervised .cron).isSome
  kept : s.conns[k]? = some conn
  alive : conn ≠ .closed
  others : ∀ i ≠ k, ∀ x, s.conns[i]? = some x → x = .closed

namespace Waiting

variable {cancelled k : Nat} {conn : Conn}

private theorem elapse (timeout now : Nat) {due : Nat} (hs : Waiting cancelled k conn s)
    (hdue : conn.deadline timeout cancelled = some due) (hle : s.main.now ≤ now) (hnow : now ≤ due) :
    ∃ t, (machine timeout).Reaches s t ∧ Waiting cancelled k conn t ∧ t.main.now = now := by
  have hopen : s.drained = false := by
    rw [← Bool.not_eq_true, drained_iff]
    exact fun h => hs.alive (h conn (List.mem_of_getElem? hs.kept))
  have hurgent : s.urgent = false := by simp [urgent, hopen, hs.serving, hs.unobserved, hs.stopped]
  have hallowed : s.allowed timeout (.elapse (now - s.main.now)) = true := by
    refine (mayReach_iff hs.shutdown).2 ⟨hurgent, fun x hx due' hdue' => ?_, .inl hs.stopped.1⟩
    obtain ⟨i, hi, rfl⟩ := List.getElem_of_mem hx
    have hget : s.conns[i]? = some s.conns[i] := List.getElem?_eq_getElem hi
    by_cases hik : i = k
    · subst hik
      obtain rfl : s.conns[i] = conn := by simpa [hget] using hs.kept
      rw [hdue] at hdue'
      cases hdue'
      omega
    · rw [hs.others i hik _ hget] at hdue'
      cases hdue'
  have hstep : s.main.step (.elapse (now - s.main.now)) =
      some { s.main with now := s.main.now + (now - s.main.now) } := Main.step_of_running hs.running
  refine ⟨_, reaches_main hallowed hstep, ⟨hs.running, hs.shutdown, hs.serving, hs.unobserved, hs.stopped, hs.kept,
    hs.alive, hs.others⟩, ?_⟩
  show s.main.now + (now - s.main.now) = now
  omega

private theorem complete (timeout : Nat) {started : Nat} (hs : Waiting cancelled k (.head started) s) :
    ∃ t, (machine timeout).Reaches s t ∧ Waiting cancelled k (.request s.main.now) t ∧
      t.main.now = s.main.now := by
  have hstep : (machine timeout).step s (.complete k) =
      some { s with conns := s.conns.set k (.request s.main.now) } := by
    show Drain.step timeout s (.complete k) = _
    simp [Drain.step, hs.running, hs.kept]
  refine ⟨_, (Transition.Machine.Reaches.refl s).tail hstep, ⟨hs.running, hs.shutdown, hs.serving, hs.unobserved,
    hs.stopped, ?_, by simp, fun i hik x hx => ?_⟩, rfl⟩
  · exact List.getElem?_set_self (List.getElem?_eq_some_iff.1 hs.kept).1
  · exact hs.others i hik x (by simpa [List.getElem?_set_ne (Ne.symm hik)] using hx)

private theorem fence (timeout : Nat) (hs : Waiting cancelled k conn s)
    (hnow : cancelled + shutdownGrace ≤ s.main.now) :
    ∃ t, (machine timeout).Reaches s t ∧ t.main.status = .exited 1 := by
  have hstep : s.main.step .fence = some s.main.exitFenced := by
    simp [Main.step_of_running hs.running, Main.act, hs.shutdown, hs.unobserved, hnow]
  exact ⟨_, reaches_main rfl hstep, rfl⟩

/-- With budgets that last up to the fence, the connection may keep the process waiting until then. -/
private theorem fenced (hs : Waiting cancelled k conn s) (hon : conn.OnTime timeout s.main.now)
    (hnow : s.main.now = cancelled) (hlate : cancelled + shutdownGrace ≤ conn.lastEnd timeout cancelled) :
    ∃ t, (machine timeout).Reaches s t ∧ t.main.status = .exited 1 := by
  have hpos : 0 < shutdownGrace := by decide
  cases conn with
  | idle | closed =>
    simp only [Conn.lastEnd] at hlate
    omega
  | request headDone =>
    obtain ⟨t, hst, ht, htn⟩ := hs.elapse timeout (cancelled + shutdownGrace) rfl (by omega) hlate
    obtain ⟨u, htu, hu⟩ := ht.fence timeout (Nat.le_of_eq htn.symm)
    exact ⟨u, hst.trans htu, hu⟩
  | head started =>
    simp only [Conn.lastEnd, Conn.OnTime] at hlate hon
    by_cases hhead : cancelled + shutdownGrace ≤ started + timeout
    · -- the head alone lasts up to the fence
      obtain ⟨t, hst, ht, htn⟩ := hs.elapse timeout (cancelled + shutdownGrace) rfl (by omega) hhead
      obtain ⟨u, htu, hu⟩ := ht.fence timeout (Nat.le_of_eq htn.symm)
      exact ⟨u, hst.trans htu, hu⟩
    · -- the head takes all of its budget, then the request does
      obtain ⟨t, hst, ht, htn⟩ := hs.elapse timeout (started + timeout) rfl (by omega) (Nat.le_refl _)
      obtain ⟨u, htu, hu, hun⟩ := ht.complete timeout
      obtain ⟨v, huv, hv, hvn⟩ := hu.elapse timeout (cancelled + shutdownGrace) rfl (by omega)
        (by omega)
      obtain ⟨w, hvw, hw⟩ := hv.fence timeout (Nat.le_of_eq hvn.symm)
      exact ⟨w, ((hst.trans htu).trans huv).trans hvw, hw⟩

end Waiting

/-- While the connection `k` stays as it is, everything else may end at the instant of the shutdown. -/
private theorem Start.waiting {conn : Conn} {k : Nat} (hs : Start timeout s) (hk : s.conns[k]? = some conn)
    (halive : conn ≠ .closed) :
    ∃ t, (machine timeout).Reaches s t ∧ Waiting s.main.now k conn t ∧ t.main.now = s.main.now := by
  have hserving : s.main.tasks .httpServer = none := hs.serving (List.ne_nil_of_mem (List.mem_of_getElem? hk))
  have hunobserved : s.main.supervised .httpServer = none := by
    cases hv : s.main.supervised .httpServer with
    | none => rfl
    | some r =>
      obtain ⟨⟨how, ht, -⟩, -⟩ := hs.reachable.mainInv.observed _ _ hv
      rw [hserving] at ht
      cases ht
  obtain ⟨t, hst, ht⟩ := settle timeout .cron hs.running hs.reachable.mainInv (fun h => by cases h)
  obtain ⟨u, htu, hmain, -, hkept, hothers⟩ := close_others timeout k ht.running
  obtain ⟨htasks, hsupervised⟩ := ht.others .httpServer (by decide)
  obtain ⟨r, hr⟩ := Option.isSome_iff_exists.1 ht.supervised
  obtain ⟨⟨how, hcron, -⟩, -⟩ := ht.inv.observed _ _ hr
  exact ⟨u, hst.trans htu,
    { running := by rw [hmain, ht.running]
      shutdown := by rw [hmain, ht.latched _ hs.cancelled]
      serving := by rw [hmain, htasks, hserving]
      unobserved := by rw [hmain, hsupervised, hunobserved]
      stopped := by simp [hmain, hcron, hr]
      kept := by rw [hkept, ht.conns, hk]
      alive := halive
      others := hothers },
    by rw [hmain, ht.now]⟩

private theorem Start.fenced {conn : Conn} (hs : Start timeout s) (hmem : conn ∈ s.conns)
    (hlate : s.main.now + shutdownGrace ≤ conn.lastEnd timeout s.main.now) :
    ∃ t, (machine timeout).Reaches s t ∧ t.main.status = .exited 1 := by
  obtain ⟨k, hk⟩ := List.mem_iff_getElem?.1 hmem
  have halive : conn ≠ .closed := by
    rintro rfl
    have hpos : 0 < shutdownGrace := by decide
    simp only [Conn.lastEnd] at hlate
    omega
  obtain ⟨t, hst, ht, hnow⟩ := hs.waiting hk halive
  obtain ⟨u, htu, hu⟩ := ht.fenced (hnow ▸ hs.onTime conn hmem) hnow hlate
  exact ⟨u, hst.trans htu, hu⟩

/-! ### The exact condition -/

private theorem Start.inBudget (hs : Start timeout s)
    (hends : ∀ conn ∈ s.conns, conn.lastEnd timeout s.main.now < s.main.now + shutdownGrace) :
    InBudget timeout s.main.now s := by
  refine ⟨hs.reachable.mainInv, hs.cancelled, fun conn hmem due hdue => ?_, hends,
    Nat.lt_add_of_pos_right (by decide)⟩
  have hon := hs.onTime conn hmem
  cases conn <;> cases hdue
  · exact Nat.le_refl _
  · exact hon.2
  · exact hon.2

private theorem InBudget.spared (hs : InBudget timeout s.main.now s) : Spared timeout s := by
  have hrun : ∀ t, (machine timeout).Reaches s t → InBudget timeout s.main.now t := fun t h =>
    h.invariant (P := InBudget timeout s.main.now) (fun _ _ _ h h' => h.step h') hs
  refine ⟨fun t ht => ?_, fun t ht hr => ?_⟩
  · have hi := hrun t ht
    cases hi.inv.status with
    | running h _ => exact .inl ⟨h, hi.now⟩
    | interrupted h hr => exact .inr (.inr ⟨h, hr⟩)
    | fenced h hc hn _ =>
      rw [hi.shutdown] at hc
      cases hc
      exact absurd hi.now (Nat.not_lt.2 hn)
    | returned h ha hc =>
      refine .inr (.inl ⟨_, h, fun c => ?_⟩)
      obtain ⟨⟨api, hta, -⟩, -⟩ := hi.inv.observed _ _ ha
      obtain ⟨⟨cron, htc, -⟩, -⟩ := hi.inv.observed _ _ hc
      cases c <;> simp [hta, htc]
  · exact returns_of_running hr (hrun t ht).inv

private theorem spared_iff (hs : Start timeout s) :
    Spared timeout s ↔ ∀ conn ∈ s.conns, conn.lastEnd timeout s.main.now < s.main.now + shutdownGrace := by
  refine ⟨fun h conn hmem => ?_, fun h => (hs.inBudget h).spared⟩
  by_contra hlate
  obtain ⟨t, hst, ht⟩ := hs.fenced hmem (Nat.le_of_not_lt hlate)
  rcases h.outcome t hst with ⟨h, -⟩ | ⟨r, h, -⟩ | ⟨h, -⟩ <;> rw [ht] at h <;> cases h

/-- The process whose token was cancelled by the signal task at the instant 0, with the head of one request just
begun. -/
def slowHead : Drain :=
  ⟨({ Main.init with delivered := 1, received := 1 }.trace [⟨.info, "received SIGTERM, shutting down", []⟩]).cancel,
    [.head 0]⟩

private theorem start_slowHead : Start timeout slowHead where
  reachable := by
    refine Transition.Machine.reaches_of_run (m := Main.machine) (l := [.signal .sigterm, .recv .sigterm]) ?_
    have hpending : Function.update (Function.update (fun _ : Signal => false) .sigterm true) .sigterm false =
        fun _ => false := by
      funext sig
      cases sig <;> rfl
    show some (Main.mk 0 _ _ _ (Function.update (Function.update (fun _ => false) .sigterm true) .sigterm false)
      _ _ _ _) = _
    rw [hpending]
    rfl
  running := rfl
  cancelled := rfl
  serving := fun _ => rfl
  onTime := fun conn hmem => by
    obtain rfl := List.mem_singleton.1 hmem
    exact ⟨Nat.le_refl _, Nat.zero_le _⟩

/-- The budget of a request, `Duration::from_secs(config.server.timeout)`. -/
def requestTimeout (config : Accepted) : Nat := fromSecs config.1.server.timeout.toNat

/-- For an accepted configuration, the fence spares the components that are within their bounds iff every connection
open at the shutdown can use up its budgets before the fence; this is so for all connections iff `server.timeout` is
at most 22 seconds. -/
theorem fence_spares_iff (config : Accepted) :
    (∀ s, Start (requestTimeout config) s → (Spared (requestTimeout config) s ↔
      ∀ conn ∈ s.conns, conn.lastEnd (requestTimeout config) s.main.now < s.main.now + shutdownGrace)) ∧
    ((∀ s, Start (requestTimeout config) s → Spared (requestTimeout config) s) ↔
      config.1.server.timeout.toNat ≤ 22) := by
  refine ⟨fun s hs => spared_iff hs, fun h => ?_, fun h s hs => (spared_iff hs).2 fun conn hmem => ?_⟩
  · have hlt := (spared_iff start_slowHead).1 (h slowHead start_slowHead) (.head 0) (List.mem_singleton_self _)
    simp only [Conn.lastEnd, requestTimeout, shutdownGrace, fromSecs, slowHead, Main.cancel, Main.trace, Main.init]
      at hlt
    omega
  · have hon := hs.onTime conn hmem
    cases conn <;> simp only [Conn.lastEnd, Conn.OnTime, requestTimeout, shutdownGrace, fromSecs] at hon ⊢ <;> omega

/-- With the default timeout of 30 seconds, a client that takes it for the head and is answered in as much meets the
fence. -/
theorem fence_fires_default : Start (requestTimeout (.default "app" "1.0.0")) slowHead ∧
    ¬ Spared (requestTimeout (.default "app" "1.0.0")) slowHead := by
  refine ⟨start_slowHead, fun h => ?_⟩
  have hlt := (spared_iff start_slowHead).1 h (.head 0) (List.mem_singleton_self _)
  revert hlt
  decide

end Drain

end StarterHub
