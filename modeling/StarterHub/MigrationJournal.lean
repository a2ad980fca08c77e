import StarterHub.MigrationCli

/-!
# The migrations table as a journal

What boots and runs of the command line do to the migrations table, and no more: an invocation reads it once, has the
pending migrations ahead and appends them, a boot all at once with its commit, the command line one by one.  Every step
is a step of this journal or leaves it alone (`step_journal`).  Whoever inserts a name does so under the key of the
table (`step_table`), which is why no name is ever in it twice, however the invocations interleave (`TableInv`).
-/

namespace StarterHub

namespace Mixed

variable {ι κ ν : Type}

/-- The migrations table, as a journal that the invocations extend. -/
def journal (s : Mixed ι κ ν) : Journal (ι ⊕ κ) ν := ⟨s.fleet.history, s.ahead, s.applied⟩

variable [DecidableEq ι] [DecidableEq κ] [Fintype ι] [Fintype κ] [DecidableEq ν] {migrations history : List ν}
  {s s' : Mixed ι κ ν} {a : MixedAction ι κ} {x : ι ⊕ κ} {i : ι} {k : κ}

omit [Fintype ι] [Fintype κ] [DecidableEq ν] in
private theorem ahead_update (s : Mixed ι κ ν) {fleet : Fleet ι ν} {ran : ι → Bool} {applied : List ((ι ⊕ κ) × ν)}
    {replica : Replica ν}
    (h : fleet.replicas = Function.update s.fleet.replicas i replica) :
    ahead { s with fleet, ran, applied } = Function.update s.ahead (.inl i) replica.ahead := by
  simp only [ahead]
  rw [h, Function.comp_update, Sum.elim_update_left]

omit [Fintype ι] [Fintype κ] [DecidableEq ν] in
/-- A boot moves on without a commit, ... -/
private theorem journal_set (s : Mixed ι κ ν) (i : ι) (replica : Replica ν) (ran : ι → Bool) :
    journal { s with fleet := s.fleet.set i replica, ran } = s.journal.setAhead (.inl i) replica.ahead := by
  rw [journal, ahead_update s (Fleet.replicas_set ..)]
  rfl

omit [Fintype ι] [Fintype κ] [DecidableEq ν] in
/-- ... or its transaction ends without one. -/
private theorem journal_release (s : Mixed ι κ ν) (i : ι) (replica : Replica ν) (ran : ι → Bool) :
    journal { s with fleet := (s.fleet.set i replica).release i, ran } =
      s.journal.setAhead (.inl i) replica.ahead := by
  have hreplicas : ((s.fleet.set i replica).release i).replicas = Function.update s.fleet.replicas i replica :=
    Fleet.replicas_release
  rw [journal, ahead_update s hreplicas, Fleet.history_release]
  rfl

omit [Fintype ι] [Fintype κ] [DecidableEq ν] in
/-- A run of the command line moves on without a commit. -/
private theorem journal_setRun (run : CliRun ν) :
    (s.setRun k run).journal = s.journal.setAhead (.inr k) run.ahead := by
  simp only [journal, ahead, setRun, Journal.setAhead]
  rw [Function.comp_update, Sum.elim_update_right]

omit [Fintype ι] [Fintype κ] [DecidableEq ν] in
/-- A boot commits what its transaction has executed. -/
private theorem journal_commit {fleet : Fleet ι ν} {executed : List ν}
    (h : fleet.replicas = Function.update s.fleet.replicas i .committed)
    (hh : fleet.history = s.fleet.history ++ executed) :
    journal { s with fleet, applied := s.applied ++ executed.map fun name => (.inl i, name) } =
      s.journal.append (.inl i) executed none := by
  simp only [journal, ahead_update s h, hh, Journal.append, Journal.setAhead]
  rfl

omit [Fintype ι] [Fintype κ] [DecidableEq ν] in
private theorem journal_commitRun {name : ν} {pending : List ν} :
    (s.commitRun k name pending).journal = s.journal.append (.inr k) [name] (some pending) := by
  have hahead : (s.commitRun k name pending).ahead = (s.setRun k (.between pending)).ahead := rfl
  have hset := congrArg Journal.ahead (journal_setRun (s := s) (k := k) (.between pending))
  simp only [journal, hahead, Journal.append]
  exact congrArg (fun f => Journal.mk _ f _) hset

omit [DecidableEq ι] [DecidableEq κ] [Fintype ι] [Fintype κ] [DecidableEq ν] in
theorem ahead_inl {replica : Replica ν} (h : s.fleet.replicas i = replica) :
    s.journal.ahead (.inl i) = replica.ahead := congrArg Replica.ahead h

omit [DecidableEq ι] [DecidableEq κ] [Fintype ι] [Fintype κ] [DecidableEq ν] in
theorem ahead_inr {run : CliRun ν} (h : s.runs k = run) : s.journal.ahead (.inr k) = run.ahead :=
  congrArg CliRun.ahead h

/-- A step leaves the journal alone or is one of the journal, where only a reader reads. -/
theorem step_journal (h : step migrations s a = some s') : s'.journal = s.journal ∨
    ∃ b, Journal.step migrations s.journal b = some s'.journal ∧ ∀ x, b = .read x → a.reader = some x := by
  -- the invocation that moves has the same migrations ahead as before
  have hboot : ∀ {i : ι} {replica : Replica ν} (ran : ι → Bool), (s.fleet.replicas i).ahead = replica.ahead →
      journal { s with fleet := s.fleet.set i replica, ran } = s.journal :=
    fun ran he => (journal_set s _ _ ran).trans (Journal.setAhead_self he)
  have hcli : ∀ {k : κ} {run : CliRun ν}, (s.runs k).ahead = run.ahead → (s.setRun k run).journal = s.journal :=
    fun he => (journal_setRun _).trans (Journal.setAhead_self he)
  cases step_cases h with
  | begin hi => exact .inl (hboot s.ran (by rw [hi]; rfl))
  | @lock i hi =>
    have hlocked : journal { s with fleet := s.fleet.set i .locked } = s.journal := hboot s.ran (by rw [hi]; rfl)
    exact .inl hlocked
  | @read i hi =>
    have hset := journal_set s i (.migrating [] (pendingMigrations migrations s.fleet.history)) s.ran
    refine .inr ⟨.read (.inl i), Eq.trans ?_ (congrArg some hset.symm), fun x hx => by cases hx; rfl⟩
    simp only [Journal.step, ahead_inl hi]
    rfl
  | run => exact .inl rfl
  | exec hi => exact .inl (hboot _ (by rw [hi]; simp [Replica.ahead]))
  | @commit i executed hi =>
    refine .inr ⟨.append (.inl i) executed.length false, ?_, by simp⟩
    have hahead : s.journal.ahead (.inl i) = some executed := by rw [ahead_inl hi]; simp [Replica.ahead]
    rw [journal_commit (by simp) rfl]
    simp only [Journal.step, hahead, List.take_length]
    rfl
  | finish hi => exact .inl (hboot s.ran (by rw [hi]; rfl))
  | @down i a replica _ _ hd =>
    have hset := journal_release s i replica (Function.update s.ran i false)
    refine .inr ⟨.leave (.inl i), Eq.trans ?_ (congrArg some hset.symm), by simp⟩
    rw [Replica.ahead_of_isDown hd]
    rfl
  | @cliRead k hk =>
    refine .inr ⟨.read (.inr k), ?_, fun x hx => by cases hx; rfl⟩
    rw [journal_setRun]
    simp only [Journal.step, ahead_inr hk]
    rfl
  | cliBegin hk => exact .inl (hcli (by rw [hk]; rfl))
  | cliRun hk => exact .inl (hcli (by rw [hk]; rfl))
  | cliInsert hk => exact .inl (hcli (by rw [hk]; rfl))
  | @cliCommit k name pending hk =>
    refine .inr ⟨.append (.inr k) 1 true, ?_, by simp⟩
    rw [journal_commitRun]
    simp only [Journal.step, ahead_inr hk]
    rfl
  | @cliFinish k hk =>
    refine .inr ⟨.leave (.inr k), ?_, by simp⟩
    rw [journal_setRun]
    rfl
  | @cliDown k a run _ _ hd =>
    refine .inr ⟨.leave (.inr k), ?_, by simp⟩
    rw [journal_setRun, CliRun.ahead_of_isDown hd]
    rfl

/-! ### The key -/

omit [Fintype ι] [Fintype κ] [DecidableEq ν] in
private theorem inserted_update (s : Mixed ι κ ν) {fleet : Fleet ι ν} {ran : ι → Bool}
    {applied : List ((ι ⊕ κ) × ν)} (replica : Replica ν)
    (h : fleet.replicas = Function.update s.fleet.replicas i replica) :
    inserted { s with fleet, ran, applied } = Function.update s.inserted (.inl i) replica.inserted := by
  simp only [inserted]
  rw [h, Function.comp_update, Sum.elim_update_left]

omit [Fintype ι] [Fintype κ] [DecidableEq ν] in
private theorem inserted_setRun {run : CliRun ν} :
    (s.setRun k run).inserted = Function.update s.inserted (.inr k) run.inserted := by
  simp only [inserted, setRun]
  rw [Function.comp_update, Sum.elim_update_right]

/-- What a step does to the table and to the names that the open transactions have inserted: one of them goes on,
inserts a name that the key admits, ends, or ends with a commit. -/
theorem step_table (h : step migrations s a = some s') :
    ∃ x rest, s'.inserted = Function.update s.inserted x rest ∧
      (s'.fleet.history = s.fleet.history ∧
          (rest = s.inserted x ∨ rest = [] ∨ ∃ name, s.admits name = true ∧ rest = s.inserted x ++ [name]) ∨
        s'.fleet.history = s.fleet.history ++ s.inserted x ∧ rest = []) := by
  have hboot : ∀ {i : ι} {replica : Replica ν}, s.fleet.replicas i = replica → s.inserted (.inl i) = replica.inserted :=
    fun h => congrArg Replica.inserted h
  have hcli : ∀ {k : κ} {run : CliRun ν}, s.runs k = run → s.inserted (.inr k) = run.inserted :=
    fun h => congrArg CliRun.inserted h
  cases step_cases h with
  | @begin i hi => exact ⟨.inl i, _, inserted_update s .begun rfl, .inl ⟨rfl, .inr (.inl rfl)⟩⟩
  | @lock i hi => exact ⟨.inl i, _, inserted_update s .locked rfl, .inl ⟨rfl, .inr (.inl rfl)⟩⟩
  | @read i hi => exact ⟨.inl i, _, inserted_update s (.migrating [] _) rfl, .inl ⟨rfl, .inr (.inl rfl)⟩⟩
  | @run i => exact ⟨.inl i, s.inserted (.inl i), (Function.update_eq_self ..).symm, .inl ⟨rfl, .inl rfl⟩⟩
  | @exec i executed name pending hi _ ha =>
    exact ⟨.inl i, _, inserted_update s (.migrating (executed ++ [name]) pending) rfl,
      .inl ⟨rfl, .inr (.inr ⟨name, ha, by rw [hboot hi]; rfl⟩)⟩⟩
  | @commit i executed hi =>
    exact ⟨.inl i, _, inserted_update s .committed (by simp), .inr ⟨by rw [hboot hi]; rfl, rfl⟩⟩
  | @finish i hi => exact ⟨.inl i, _, inserted_update s .returned rfl, .inl ⟨rfl, .inr (.inl rfl)⟩⟩
  | @down i a replica _ _ hd =>
    exact ⟨.inl i, _, inserted_update s replica (by simp),
      .inl ⟨by simp, .inr (.inl (Replica.inserted_of_isDown hd))⟩⟩
  | @cliRead k => exact ⟨.inr k, _, inserted_setRun, .inl ⟨rfl, .inr (.inl rfl)⟩⟩
  | @cliBegin k => exact ⟨.inr k, _, inserted_setRun, .inl ⟨rfl, .inr (.inl rfl)⟩⟩
  | @cliRun k => exact ⟨.inr k, _, inserted_setRun, .inl ⟨rfl, .inr (.inl rfl)⟩⟩
  | @cliInsert k name pending hk ha =>
    exact ⟨.inr k, _, inserted_setRun, .inl ⟨rfl, .inr (.inr ⟨name, ha, by rw [hcli hk]; rfl⟩)⟩⟩
  | @cliCommit k name pending hk =>
    exact ⟨.inr k, _, inserted_setRun, .inr ⟨by rw [hcli hk]; rfl, rfl⟩⟩
  | @cliFinish k => exact ⟨.inr k, _, inserted_setRun, .inl ⟨rfl, .inr (.inl rfl)⟩⟩
  | @cliDown k a run _ _ hd =>
    exact ⟨.inr k, _, inserted_setRun, .inl ⟨rfl, .inr (.inl (CliRun.inserted_of_isDown hd))⟩⟩

/-- No name is twice in the table and the open transactions. -/
structure TableInv (s : Mixed ι κ ν) : Prop where
  recorded : s.fleet.history.Nodup
  own : ∀ x, (s.inserted x).Nodup
  fresh : ∀ x, ∀ name ∈ s.inserted x, name ∉ s.fleet.history
  apart : ∀ x y name, name ∈ s.inserted x → name ∈ s.inserted y → x = y

omit [DecidableEq ι] [DecidableEq κ] [Fintype ι] [Fintype κ] [DecidableEq ν] in
theorem tableInv_init (hh : history.Nodup) : TableInv (init (ι := ι) (κ := κ) history) := by
  have hnone : ∀ x, (init (ι := ι) (κ := κ) history).inserted x = [] := by
    intro x
    cases x <;> rfl
  exact ⟨hh, by simp [hnone], by simp [hnone], by simp [hnone]⟩

omit [Fintype ι] [Fintype κ] [DecidableEq ν] in
/-- One transaction has inserted `rest` now, and the table may be longer. -/
private theorem TableInv.update {rest : List ν} (hs : TableInv s)
    (hinserted : s'.inserted = Function.update s.inserted x rest) (hrecorded : s'.fleet.history.Nodup)
    (hrest : rest.Nodup) (hfresh : ∀ name ∈ rest, name ∉ s'.fleet.history ∧ ∀ y, y ≠ x → name ∉ s.inserted y)
    (hothers : ∀ y, y ≠ x → ∀ name ∈ s.inserted y, name ∉ s'.fleet.history) : TableInv s' := by
  have hself : s'.inserted x = rest := by rw [hinserted, Function.update_self]
  have hother : ∀ y, y ≠ x → s'.inserted y = s.inserted y := fun y hy => by rw [hinserted, Function.update_of_ne hy]
  refine ⟨hrecorded, fun y => ?_, fun y name hname => ?_, fun y z name hy hz => ?_⟩
  · by_cases hyx : y = x
    · rw [hyx, hself]
      exact hrest
    · rw [hother y hyx]
      exact hs.own y
  · by_cases hyx : y = x
    · rw [hyx, hself] at hname
      exact (hfresh name hname).1
    · rw [hother y hyx] at hname
      exact hothers y hyx name hname
  · by_cases hyx : y = x <;> by_cases hzx : z = x
    · rw [hyx, hzx]
    · rw [hyx, hself] at hy
      rw [hother z hzx] at hz
      exact absurd hz ((hfresh name hy).2 z hzx)
    · rw [hother y hyx] at hy
      rw [hzx, hself] at hz
      exact absurd hy ((hfresh name hz).2 y hyx)
    · rw [hother y hyx] at hy
      rw [hother z hzx] at hz
      exact hs.apart y z name hy hz

theorem TableInv.step (hs : TableInv s) (h : Mixed.step migrations s a = some s') : TableInv s' := by
  obtain ⟨x, rest, hinserted, ⟨hhistory, hrest⟩ | ⟨hhistory, rfl⟩⟩ := step_table h
  · have hold : ∀ name ∈ s.inserted x, name ∉ s'.fleet.history ∧ ∀ y, y ≠ x → name ∉ s.inserted y :=
      fun name hname => ⟨hhistory ▸ hs.fresh x name hname, fun y hy hmem => hy (hs.apart y x name hmem hname)⟩
    refine hs.update hinserted (hhistory ▸ hs.recorded) ?_ ?_ fun y _ => hhistory ▸ hs.fresh y
    · rcases hrest with rfl | rfl | ⟨name, ha, rfl⟩
      · exact hs.own x
      · exact List.nodup_nil
      · simp only [admits, Bool.and_eq_true, decide_eq_true_eq] at ha
        exact (hs.own x).append (List.nodup_singleton name) (by simpa using ha.2 x)
    · rcases hrest with rfl | rfl | ⟨name, ha, rfl⟩
      · exact hold
      · simp
      · -- what the key admits is new
        simp only [admits, Bool.and_eq_true, decide_eq_true_eq] at ha
        intro name' hname'
        rcases List.mem_append.1 hname' with hmem | hmem
        · exact hold name' hmem
        · cases List.mem_singleton.1 hmem
          exact ⟨hhistory ▸ ha.1, fun y _ => ha.2 y⟩
  · have hdisjoint : ∀ y, y ≠ x → ∀ name ∈ s.inserted y, name ∉ s.inserted x :=
      fun y hy name hname hmem => hy (hs.apart y x name hname hmem)
    refine hs.update hinserted ?_ List.nodup_nil (by simp) fun y hy name hname => ?_
    · rw [hhistory]
      exact hs.recorded.append (hs.own x) fun name hmem hname => hs.fresh x name hname hmem
    · rw [hhistory, List.mem_append, not_or]
      exact ⟨hs.fresh y name hname, hdisjoint y hy name hname⟩

end Mixed

end StarterHub
