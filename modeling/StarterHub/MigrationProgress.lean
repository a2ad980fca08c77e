import StarterHub.MigrationJournal
import Mathlib.Algebra.Order.BigOperators.Group.Finset

/-!
# Boots and the CLI come to an end

A boot waits for the advisory lock, and whoever inserts the name of a migration waits for the open transactions that
have inserted it.  However boots and runs of the command line interleave, and whoever of them fails, this is no
deadlock: a run of the command line that has inserted a name can commit it at once, and a boot that has inserted one
holds the lock, so no second boot is in its way (`progress`).  Every step leaves less to do (`Mixed.work`), what is
committed stays, and no name is recorded twice.
-/

namespace StarterHub

/-- The steps still to take with `n` migrations, the statements of the next one having run or not. -/
def Replica.work {ν : Type} (n : Nat) (ran : Bool) : Replica ν → Nat
  | booting => 2 * n + 6
  | begun => 2 * n + 5
  | locked => 2 * n + 4
  | migrating _ pending => 2 * pending.length + 3 - ran.toNat
  | committed => 1
  | returned | failed _ _ | crashed _ => 0

def Stage.work : Stage → Nat
  | begun => 3
  | ran => 2
  | inserted => 1

/-- The steps still to take with `n` migrations: each of them is begun, run, inserted and committed. -/
def CliRun.work {ν : Type} (n : Nat) : CliRun ν → Nat
  | starting => 4 * n + 2
  | between pending => 4 * pending.length + 1
  | applying stage _ pending => 4 * pending.length + 1 + stage.work
  | returned | failed _ | crashed => 0

theorem Replica.work_pos {ν : Type} {n : Nat} {ran : Bool} {replica : Replica ν} (h : replica.isOver = false) :
    0 < replica.work n ran := by
  have hran := ran.toNat_le
  cases replica with
  | returned | failed | crashed => cases h
  | booting | begun | locked | migrating | committed => simp only [Replica.work]; omega

theorem Replica.work_of_isDown {ν : Type} {n : Nat} {ran : Bool} {replica : Replica ν} (h : replica.isDown = true) :
    replica.work n ran = 0 := by
  cases replica with
  | failed | crashed => rfl
  | _ => cases h

theorem CliRun.work_pos {ν : Type} {n : Nat} {run : CliRun ν} (h : run.isOver = false) : 0 < run.work n := by
  cases run with
  | returned | failed | crashed => cases h
  | starting | between | applying => simp only [CliRun.work]; omega

theorem CliRun.work_of_isDown {ν : Type} {n : Nat} {run : CliRun ν} (h : run.isDown = true) : run.work n = 0 := by
  cases run with
  | failed | crashed => rfl
  | _ => cases h

namespace Mixed

variable {ι κ ν : Type} [DecidableEq ι] [DecidableEq κ] [Fintype ι] [Fintype κ] [DecidableEq ν]
  {migrations history : List ν} {s s' : Mixed ι κ ν} {a : MixedAction ι κ} {x : ι ⊕ κ} {i : ι} {k : κ}

/-- A step that is no failure by itself. -/
def Proper (_ : Mixed ι κ ν) : MixedAction ι κ → Prop
  | .boot (.fail _ _) | .boot (.crash _) | .cli _ (.fail _) | .cli _ .crash => False
  | _ => True

/-- Everybody is done. -/
def Settled (s : Mixed ι κ ν) : Prop := ∀ x, s.isOver x = true

/-- What becomes of any number of invocations. -/
structure EndLaw (migrations : List ν) (s : Mixed ι κ ν) : Prop where
  -- Until everybody is done somebody can go on, and no run goes on for ever.
  ends : (machine migrations).Inevitable Proper (fun _ _ => True) Settled s
  -- The lock outlives nobody, ...
  released : s.Settled → s.fleet.lock = none
  -- ... whoever returned `Ok` has left all migrations applied, ...
  complete : ∀ x, s.HasReturned x → migrations ⊆ s.fleet.history
  -- ... what is applied stays, whoever fails later, and nothing is applied twice.
  kept : ∀ s', (machine migrations).Reaches s s' → s.fleet.history <+: s'.fleet.history
  once : s.fleet.history.Nodup

/-! ### The invariant -/

/-- The invocation has nothing more to apply. -/
def IsDone (s : Mixed ι κ ν) : ι ⊕ κ → Prop
  | .inl i => s.fleet.replicas i = .committed ∨ s.fleet.replicas i = .returned
  | .inr k => s.runs k = .returned

structure WaitInv (migrations : List ν) (s : Mixed ι κ ν) : Prop where
  lock : LockInv s
  table : TableInv s
  covers : s.journal.Covers migrations
  done : ∀ x, s.IsDone x → migrations ⊆ s.fleet.history

omit [DecidableEq ι] [DecidableEq κ] [Fintype ι] [Fintype κ] [DecidableEq ν] in
private theorem waitInv_init (hh : history.Nodup) : WaitInv migrations (init (ι := ι) (κ := κ) history) := by
  refine ⟨lockInv_init, tableInv_init hh, fun x l hl => ?_, fun x hx => ?_⟩
  · cases x <;> cases hl
  · cases x <;> simp [IsDone, init, Fleet.init] at hx

/-- Names are only ever appended to the table. -/
private theorem history_kept (h : step migrations s a = some s') : s.fleet.history <+: s'.fleet.history := by
  obtain ⟨x, rest, -, ⟨hhistory, -⟩ | ⟨hhistory, -⟩⟩ := step_table h <;> rw [hhistory]
  exact List.prefix_append ..

omit [Fintype ι] [DecidableEq κ] [Fintype κ] [DecidableEq ν] in
private theorem done_update (replica : Replica ν) (hx : s'.IsDone x)
    (h : s'.fleet.replicas = Function.update s.fleet.replicas i replica) (hruns : s'.runs = s.runs) :
    s.IsDone x ∨ x = .inl i ∧ (replica = .committed ∨ replica = .returned) := by
  cases x with
  | inr k =>
    simp only [IsDone, hruns] at hx
    exact .inl hx
  | inl j =>
    simp only [IsDone, h] at hx
    by_cases hj : j = i
    · subst hj
      exact .inr ⟨rfl, by simpa using hx⟩
    · exact .inl (by simpa only [IsDone, Function.update_of_ne hj] using hx)

omit [DecidableEq ι] [Fintype ι] [Fintype κ] [DecidableEq ν] in
private theorem done_setRun {run : CliRun ν} (hx : (s.setRun k run).IsDone x) :
    s.IsDone x ∨ x = .inr k ∧ run = .returned := by
  cases x with
  | inl i => exact .inl hx
  | inr j =>
    simp only [IsDone, setRun] at hx
    by_cases hj : j = k
    · subst hj
      exact .inr ⟨rfl, by simpa using hx⟩
    · exact .inl (by simpa only [IsDone, Function.update_of_ne hj] using hx)

/-- Whoever has nothing more to apply had nothing more before, or has just applied what was ahead. -/
private theorem done_of_step (h : step migrations s a = some s') (hx : s'.IsDone x) :
    s.IsDone x ∨ ∃ l, s.journal.ahead x = some l ∧ s'.fleet.history = s.fleet.history ++ l := by
  -- a step to a state in which more is to be done
  have hboot : ∀ {i : ι} {replica : Replica ν} {fleet : Fleet ι ν} {ran : ι → Bool},
      fleet.replicas = Function.update s.fleet.replicas i replica → replica ≠ .committed → replica ≠ .returned →
      IsDone { s with fleet, ran } x → s.IsDone x := by
    intro i replica fleet ran hr hc hret hx
    rcases done_update (s := s) replica hx hr rfl with hold | ⟨-, h | h⟩
    · exact hold
    · exact absurd h hc
    · exact absurd h hret
  have hcli : ∀ {k : κ} (run : CliRun ν), run ≠ .returned → (s.setRun k run).IsDone x → s.IsDone x :=
    fun _ hne hx => (done_setRun hx).resolve_right fun h => hne h.2
  cases step_cases h with
  | begin | lock | read | exec => exact .inl (hboot rfl (by simp) (by simp) hx)
  | run => exact .inl hx
  | @commit i executed hi =>
    rcases done_update (s := s) (i := i) .committed hx (by simp) rfl with hold | ⟨rfl, -⟩
    · exact .inl hold
    · exact .inr ⟨executed, by rw [ahead_inl hi]; simp [Replica.ahead], rfl⟩
  | @finish i hi =>
    rcases done_update (s := s) (i := i) .returned hx rfl rfl with hold | ⟨rfl, -⟩
    · exact .inl hold
    · exact .inl (.inl hi)
  | @down i a replica _ _ hd =>
    have hne : replica ≠ .committed ∧ replica ≠ .returned := by
      constructor <;> rintro rfl <;> cases hd
    exact .inl (hboot (i := i) (by simp) hne.1 hne.2 hx)
  | cliRead | cliBegin | cliRun | cliInsert => exact .inl (hcli _ (by simp) hx)
  | @cliCommit k name pending hk => exact .inl (hcli (k := k) (.between pending) (by simp) hx)
  | @cliFinish k hk =>
    rcases done_setRun hx with hold | ⟨rfl, -⟩
    · exact .inl hold
    · exact .inr ⟨[], ahead_inr hk, (List.append_nil _).symm⟩
  | cliDown _ _ hd => exact .inl (hcli _ (by rintro rfl; cases hd) hx)

theorem WaitInv.step (hs : WaitInv migrations s) (h : Mixed.step migrations s a = some s') : WaitInv migrations s' := by
  refine ⟨hs.lock.step h, hs.table.step h, ?_, fun x hx => ?_⟩
  · rcases step_journal h with heq | ⟨b, hb, -⟩
    · rw [heq]
      exact hs.covers
    · exact hs.covers.step hb
  · rcases done_of_step h hx with hx | ⟨l, hl, hhistory⟩
    · exact List.Subset.trans (hs.done x hx) (history_kept h).subset
    · rw [hhistory]
      exact hs.covers x l hl

/-! ### Somebody can go on -/

variable (migrations s) in
/-- A step that is no failure is possible. -/
def Moves : Prop := ∃ a s', Proper s a ∧ step migrations s a = some s'

/-- A run of the command line that is not over can go on, unless somebody has inserted the name that comes next. -/
private theorem moves_cli (hk : (s.runs k).isOver = false) (hfree : ∀ x, s.inserted x = []) : s.Moves migrations := by
  cases hr : s.runs k with
  | starting => exact ⟨.cli k .read, _, trivial, by simp [step, stepCli, hr]; rfl⟩
  | between pending =>
    cases pending with
    | nil => exact ⟨.cli k .finish, _, trivial, by simp [step, stepCli, hr]; rfl⟩
    | cons name pending => exact ⟨.cli k .begin, _, trivial, by simp [step, stepCli, hr]; rfl⟩
  | applying stage name pending =>
    cases stage with
    | begun => exact ⟨.cli k .run, _, trivial, by simp [step, stepCli, hr]; rfl⟩
    | inserted => exact ⟨.cli k .commit, _, trivial, by simp [step, stepCli, hr]; rfl⟩
    | ran =>
      by_cases hname : name ∈ s.fleet.history
      · exact ⟨.cli k (.conflict ⟨""⟩), _, trivial, by simp [step, stepCli, hr, hname]; rfl⟩
      · have hadmits : s.admits name = true := by simp [admits, hname, hfree]
        exact ⟨.cli k .insert, _, trivial, by simp [step, stepCli, hr, hadmits]; rfl⟩
  | returned | failed | crashed => rw [hr] at hk; cases hk

/-- A boot that is migrating can go on, unless somebody else has inserted the name that comes next. -/
private theorem moves_migrating {executed pending : List ν} (hi : s.fleet.replicas i = .migrating executed pending)
    (hfree : ∀ y, y ≠ .inl i → s.inserted y = []) : s.Moves migrations := by
  cases pending with
  | nil => exact ⟨.boot (.commit i), _, trivial, by simp [step, allowed, Fleet.step, hi]; rfl⟩
  | cons name pending =>
    cases hran : s.ran i with
    | false => exact ⟨.run i, _, trivial, by simp [step, hi, hran]; rfl⟩
    | true =>
      by_cases hname : name ∈ s.fleet.history ++ executed
      · exact ⟨.conflict i ⟨""⟩, _, trivial, by simp only [step, hi, if_pos hname]; rfl⟩
      · rw [List.mem_append, not_or] at hname
        have hadmits : s.admits name = true := by
          simp only [admits, Bool.and_eq_true, decide_eq_true_eq]
          refine ⟨hname.1, fun y => ?_⟩
          by_cases hy : y = .inl i
          · simpa [hy, inserted, hi, Replica.inserted] using hname.2
          · simp [hfree y hy]
        exact ⟨.boot (.exec i), _, trivial, by simp [step, allowed, Fleet.step, hi, hran, hadmits]; rfl⟩

/-- No deadlock. -/
private theorem WaitInv.progress (hs : WaitInv migrations s) (h : ¬ s.Settled) : s.Moves migrations := by
  by_contra hstuck
  -- whoever has inserted a name by the command line could commit it
  have hruns : ∀ k, s.inserted (.inr k) = [] := by
    intro k
    cases hk : s.runs k with
    | applying stage name pending =>
      cases stage with
      | inserted => exact absurd ⟨.cli k .commit, _, trivial, by simp [Mixed.step, stepCli, hk]; rfl⟩ hstuck
      | _ => simp [inserted, hk, CliRun.inserted]
    | _ => simp [inserted, hk, CliRun.inserted]
  -- and only one boot holds the lock
  have hboots : ∀ i executed pending, s.fleet.replicas i ≠ .migrating executed pending := by
    intro i executed pending hi
    refine hstuck (moves_migrating hi fun y hy => ?_)
    cases y with
    | inr k => exact hruns k
    | inl j =>
      cases hj : s.fleet.replicas j with
      | migrating executed' pending' =>
        exact absurd (congrArg Sum.inl (hs.lock.unique (by rw [hj]; rfl) (by rw [hi]; rfl))) hy
      | _ => simp [inserted, hj, Replica.inserted]
  have hfree : ∀ x, s.inserted x = [] := by
    intro x
    cases x with
    | inr k => exact hruns k
    | inl i =>
      cases hi : s.fleet.replicas i with
      | migrating executed pending => exact absurd hi (hboots i executed pending)
      | _ => simp [inserted, hi, Replica.inserted]
  simp only [Settled, not_forall, Bool.not_eq_true] at h
  obtain ⟨x, hx⟩ := h
  cases x with
  | inr k => exact hstuck (moves_cli hx hfree)
  | inl i =>
    cases hi : s.fleet.replicas i with
    | booting => exact hstuck ⟨.boot (.begin i), _, trivial, by simp [Mixed.step, allowed, Fleet.step, hi]; rfl⟩
    | locked => exact hstuck ⟨.boot (.read i), _, trivial, by simp [Mixed.step, allowed, Fleet.step, hi]; rfl⟩
    | migrating executed pending => exact hboots i executed pending hi
    | committed => exact hstuck ⟨.boot (.finish i), _, trivial, by simp [Mixed.step, allowed, Fleet.step, hi]; rfl⟩
    | returned | failed | crashed => rw [isOver, hi] at hx; cases hx
    | begun =>
      cases hl : s.fleet.lock with
      | none => exact hstuck ⟨.boot (.lock i), _, trivial, by simp [Mixed.step, allowed, Fleet.step, hi, hl]; rfl⟩
      | some j =>
        have hholds := (hs.lock j).1 hl
        cases hj : s.fleet.replicas j with
        | locked => exact hstuck ⟨.boot (.read j), _, trivial, by simp [Mixed.step, allowed, Fleet.step, hj]; rfl⟩
        | migrating executed pending => exact hboots j executed pending hj
        | _ => rw [hj] at hholds; cases hholds

/-! ### Every step counts -/

/-- What is left to do. -/
def work (migrations : List ν) (s : Mixed ι κ ν) : Nat :=
  ∑ i, (s.fleet.replicas i).work migrations.length (s.ran i) + ∑ k, (s.runs k).work migrations.length

private theorem sum_lt_of_ne {α : Type} [Fintype α] {f g : α → Nat} (i : α) (hi : f i < g i)
    (h : ∀ j, j ≠ i → f j = g j) : ∑ j, f j < ∑ j, g j := by
  refine Finset.sum_lt_sum (fun j _ => ?_) ⟨i, Finset.mem_univ i, hi⟩
  by_cases hj : j = i
  · subst hj
    exact hi.le
  · exact (h j hj).le

omit [DecidableEq κ] [DecidableEq ν] in
/-- A boot gets on. -/
private theorem work_update {fleet : Fleet ι ν} {ran : ι → Bool} {applied : List ((ι ⊕ κ) × ν)} (replica : Replica ν)
    (hreplicas : fleet.replicas = Function.update s.fleet.replicas i replica) (hran : ∀ j, j ≠ i → ran j = s.ran j)
    (hlt : replica.work migrations.length (ran i) < (s.fleet.replicas i).work migrations.length (s.ran i)) :
    work migrations { s with fleet, ran, applied } < work migrations s := by
  refine Nat.add_lt_add_right (sum_lt_of_ne i ?_ fun j hj => ?_) _
  · simpa [hreplicas] using hlt
  · simp [hreplicas, Function.update_of_ne hj, hran j hj]

omit [DecidableEq ι] [DecidableEq ν] in
/-- A run of the command line gets on. -/
private theorem work_runs {runs : κ → CliRun ν} {fleet : Fleet ι ν} {applied : List ((ι ⊕ κ) × ν)} (run : CliRun ν)
    (hruns : runs = Function.update s.runs k run) (hreplicas : fleet.replicas = s.fleet.replicas)
    (hlt : run.work migrations.length < (s.runs k).work migrations.length) :
    work migrations { s with fleet, runs, applied } < work migrations s := by
  simp only [work, hreplicas]
  refine Nat.add_lt_add_left (sum_lt_of_ne k ?_ fun j hj => ?_) _
  · simpa [hruns] using hlt
  · simp [hruns, Function.update_of_ne hj]

/-- Every step leaves less to do, also a failure. -/
theorem work_lt (h : step migrations s a = some s') : work migrations s' < work migrations s := by
  have hpending : (pendingMigrations migrations s.fleet.history).length ≤ migrations.length := List.length_filter_le ..
  cases step_cases h with
  | @begin i hi => exact work_update .begun rfl (fun _ _ => rfl) (by simp only [hi, Replica.work]; omega)
  | @lock i hi hl => exact work_update .locked rfl (fun _ _ => rfl) (by simp only [hi, Replica.work]; omega)
  | @read i hi => exact work_update (.migrating [] _) rfl (fun _ _ => rfl) (by simp only [hi, Replica.work]; omega)
  | @run i executed name pending hi hr =>
    refine work_update (s.fleet.replicas i) (by simp) (fun j hj => Function.update_of_ne hj ..) ?_
    simp only [hi, hr, Replica.work, Function.update_self, Bool.toNat_true, Bool.toNat_false]
    omega
  | @exec i executed name pending hi hr ha =>
    refine work_update (.migrating (executed ++ [name]) pending) rfl (fun j hj => Function.update_of_ne hj ..) ?_
    simp only [hi, hr, Replica.work, Function.update_self, List.length_cons, Bool.toNat_true, Bool.toNat_false]
    omega
  | @commit i executed hi =>
    refine work_update (i := i) .committed (by simp) (fun _ _ => rfl) ?_
    have hran := (s.ran i).toNat_le
    simp only [hi, Replica.work, List.length_nil]
    omega
  | @finish i hi => exact work_update .returned rfl (fun _ _ => rfl) (by simp only [hi, Replica.work]; omega)
  | @down i a replica _ hi hd =>
    refine work_update (i := i) replica (by simp) (fun j hj => Function.update_of_ne hj ..) ?_
    rw [Replica.work_of_isDown hd]
    exact Replica.work_pos hi
  | @cliRead k hk => exact work_runs (.between _) rfl rfl (by simp only [hk, CliRun.work]; omega)
  | @cliBegin k name pending hk =>
    exact work_runs (.applying .begun name pending) rfl rfl (by
      simp only [hk, CliRun.work, Stage.work, List.length_cons]
      omega)
  | @cliRun k name pending hk =>
    exact work_runs (.applying .ran name pending) rfl rfl (by simp only [hk, CliRun.work, Stage.work]; omega)
  | @cliInsert k name pending hk ha =>
    exact work_runs (.applying .inserted name pending) rfl rfl (by simp only [hk, CliRun.work, Stage.work]; omega)
  | @cliCommit k name pending hk =>
    exact work_runs (s := s) (k := k) (.between pending) rfl rfl (by simp only [hk, CliRun.work, Stage.work]; omega)
  | @cliFinish k hk => exact work_runs .returned rfl rfl (by simp only [hk, CliRun.work]; omega)
  | @cliDown k a run _ hk hd =>
    refine work_runs run rfl rfl ?_
    rw [CliRun.work_of_isDown hd]
    exact CliRun.work_pos hk

/-! ### The law -/

/-- Wherever any number of boots and runs of the command line have got to, they come to an end. -/
theorem migrations_end (hh : history.Nodup) (h : (machine migrations).Reaches (init history) s) :
    EndLaw migrations s := by
  have hs : WaitInv migrations s := h.invariant (fun _ _ _ => WaitInv.step) (waitInv_init hh)
  refine ⟨?_, fun hsettled => ?_, fun x hx => hs.done x ?_, fun s' h' => ?_, hs.table.recorded⟩
  · refine Transition.Machine.inevitable_of_measure (work migrations) (fun s hs => ?_)
      (fun s a t hs _ h => ⟨hs.step h, work_lt h⟩) hs
    by_cases hsettled : s.Settled
    · exact .inl hsettled
    · exact .inr (hs.progress hsettled)
  · cases hl : s.fleet.lock with
    | none => rfl
    | some i =>
      have hholds := (hs.lock i).1 hl
      have hover : (s.fleet.replicas i).isOver = true := hsettled (.inl i)
      cases hr : s.fleet.replicas i <;> simp_all [Replica.holds, Replica.isOver]
  · cases x with
    | inl i => exact .inr hx
    | inr k => exact hx
  · exact h'.invariant (P := fun t => s.fleet.history <+: t.fleet.history)
      (fun _ _ _ hpre h => hpre.trans (history_kept h)) (List.prefix_refl _)

/-- A boot that has inserted a name, and a run of the command line that waits for it. -/
def inTheWay : Mixed Unit Unit String :=
  ((machine ["a", "b"]).run (init []) [.boot (.begin ()), .boot (.lock ()), .boot (.read ()), .cli () .read, .run (),
    .cli () .begin, .cli () .run, .boot (.exec ())]).getD (init [])

theorem migrations_end_inTheWay : step ["a", "b"] inTheWay (.cli () .insert) = none ∧ EndLaw ["a", "b"] inTheWay := by
  have hrun : (machine ["a", "b"]).run (init []) [.boot (.begin ()), .boot (.lock ()), .boot (.read ()),
    .cli () .read, .run (), .cli () .begin, .cli () .run, .boot (.exec ())] = some inTheWay := rfl
  exact ⟨rfl, migrations_end List.nodup_nil (Transition.Machine.reaches_of_run hrun)⟩

end Mixed

end StarterHub
